import XsPrep.Build.Generate
import XsPrep.Proofs.Ordered.Tables
import Mathlib.Data.List.TakeDrop

/-!
# Which files get which rules

The rules of a package are told by its files.  A source of a package is a listed file with the
right extension that is not excluded and can be parsed (`IsSource`), and these are what the
table of sources holds (`get?_sourcesOf`).  A source is there to be included if the package is
searched for included files or another source of the package mentions it (`IsLibraryFile`), and
it is a script otherwise (`IsScript`).  The generated rules are one library of all the former and
one script for each of the latter (`generate_value`).

Names come from the directory and from the files, and nothing keeps these apart.  So rules can
clash in three ways, and `rules_distinct_iff` says that there is no other: two scripts whose names
differ in the spelling of the extension only, a script named like the directory beside a library,
and a listed file that is named like the output of a script.
-/

namespace XsPrep

theorem Logged.value_foldlM {α β : Type} (f : β → α → Logged β) (b : β) (xs : List α) :
    (xs.foldlM f b).value = xs.foldl (fun b x => (f b x).value) b := by
  induction xs generalizing b with
  | nil => rfl
  | cons x xs ih => simp [List.foldlM_cons, ih]

/-! ## Names and extensions -/

namespace Path

theorem lastPart_isSuffix (path : Text) : lastPart path <:+ path := by
  rw [lastPart, ← List.reverse_prefix, List.reverse_reverse]
  exact List.takeWhile_prefix _

/-- The extension is the end of a path. -/
theorem extension_isSuffix (path : Text) : extension path <:+ path := by
  refine List.IsSuffix.trans ?_ (lastPart_isSuffix path)
  rw [extension, List.span_eq_takeWhile_dropWhile]
  have hlast :=
    List.takeWhile_append_dropWhile (p := (· != Byte.dot)) (l := (lastPart path).reverse)
  cases hrest : (lastPart path).reverse.dropWhile (· != Byte.dot) with
  | nil => exact List.nil_suffix
  | cons dot before =>
    rw [hrest] at hlast
    refine ⟨before.reverse, ?_⟩
    have hreverse := congrArg List.reverse hlast
    simpa using hreverse

theorem extension_append {ending : Text} (path : Text) (hslash : Byte.slash ∉ ending)
    (hdot : Byte.dot ∉ ending) : extension (path ++ Byte.dot :: ending) = Byte.dot :: ending := by
  have hending : ∀ b ∈ ending.reverse, (b != Byte.slash) = true ∧ (b != Byte.dot) = true := by
    intro b hb
    rw [List.mem_reverse] at hb
    exact ⟨bne_iff_ne.mpr fun h => hslash (h ▸ hb), bne_iff_ne.mpr fun h => hdot (h ▸ hb)⟩
  have hlast : (lastPart (path ++ Byte.dot :: ending)).reverse =
      ending.reverse ++ Byte.dot :: path.reverse.takeWhile (· != Byte.slash) := by
    rw [lastPart, List.reverse_reverse, List.reverse_append, List.reverse_cons, List.append_assoc,
      List.takeWhile_append_of_pos fun b hb => (hending b hb).1, List.singleton_append,
      List.takeWhile_cons_of_pos (by decide)]
  rw [extension, hlast, List.span_eq_takeWhile_dropWhile,
    List.takeWhile_append_of_pos fun b hb => (hending b hb).2,
    List.dropWhile_append_of_pos fun b hb => (hending b hb).2,
    List.takeWhile_cons_of_neg (by decide), List.dropWhile_cons_of_neg (by decide)]
  simp

end Path

namespace Build

variable {repository : Repository} {settings : Settings} {package : Package} {file : Text}

theorem stem_append_extension (file : Text) : stem file ++ Path.extension file = file :=
  (List.suffix_iff_eq_append.mp (Path.extension_isSuffix file))

/-- The spellings of the extension of a source. -/
def sourceExtensions : List Text :=
  [bytes ".x", bytes ".X"].flatMap fun start => extensionEnds.map fun final => start ++ final

theorem extension_mem_of_hasSourceExtension (h : hasSourceExtension file = true) :
    Path.extension file ∈ sourceExtensions := by
  simp only [hasSourceExtension, List.any_eq_true, decide_eq_true_eq] at h
  obtain ⟨start, hstart, final, hfinal, heq⟩ := h
  rw [heq]
  exact List.mem_flatMap.mpr ⟨start, hstart, List.mem_map_of_mem hfinal⟩

/-- Every spelling of the extension is read as the extension. -/
theorem stem_append {extension : Text} (h : extension ∈ sourceExtensions) (name : Text) :
    stem (name ++ extension) = name := by
  have hspelled : ∀ extension ∈ sourceExtensions, extension.head? = some Byte.dot ∧
      Byte.slash ∉ extension.tail ∧ Byte.dot ∉ extension.tail := by decide +kernel
  obtain ⟨hdot, hslash, htail⟩ := hspelled extension h
  obtain ⟨ending, rfl⟩ : ∃ ending, extension = Byte.dot :: ending :=
    ⟨extension.tail, List.eq_cons_of_mem_head? hdot⟩
  rw [List.tail_cons] at hslash htail
  rw [stem, Path.extension_append name hslash htail]
  simp

/-- Two names that differ in the spelling of the extension of a source only. -/
def Namesakes (file other : Text) : Prop :=
  ∃ name, ∃ extension ∈ sourceExtensions, ∃ extension' ∈ sourceExtensions,
    file = name ++ extension ∧ other = name ++ extension'

/-! ## Sources -/

/-- The names that a file of the package mentions, if it can be parsed. -/
def mentioned? (repository : Repository) (package : Package) (file : Text) : Option (List Text) :=
  (parseSource repository.disk (Path.join [package.directory repository, file])).toOption.map
    (List.map Mention.name)

/-- The file is a source of the package, and mentions the given names. -/
def IsSource (repository : Repository) (settings : Settings) (package : Package) (file : Text)
    (names : List Text) : Prop :=
  file ∈ package.files repository ∧ hasSourceExtension file = true ∧
    settings.isExcluded (Path.join [package.path, file]) = false ∧
    mentioned? repository package file = some names

theorem addSource_value (sources : Sources) (added : Text) :
    (addSource repository package sources added).value =
      ((mentioned? repository package added).map fun names =>
        sources.insert added names).getD sources := by
  unfold addSource mentioned?
  cases parseSource repository.disk (Path.join [package.directory repository, added]) with
  | ok mentions => rfl
  | error reason => rfl

theorem get?_addSource (sources : Sources) (added : Text) :
    (addSource repository package sources added).value.get? file =
      if added = file then (mentioned? repository package file).or (sources.get? file)
      else sources.get? file := by
  rw [addSource_value]
  by_cases hfile : added = file
  · subst hfile
    cases mentioned? repository package added <;> simp [Table.get?_insert]
  · cases mentioned? repository package added <;> simp [Table.get?_insert, hfile]

theorem get?_foldl_addSource (files : List Text) (sources : Sources) :
    (files.foldl (fun sources file => (addSource repository package sources file).value)
        sources).get? file =
      if file ∈ files then (mentioned? repository package file).or (sources.get? file)
      else sources.get? file := by
  induction files generalizing sources with
  | nil => simp
  | cons first files ih =>
    rw [List.foldl_cons, ih, get?_addSource]
    by_cases hfirst : first = file
    · subst hfirst
      cases mentioned? repository package first <;> simp
    · simp [hfirst, Ne.symm hfirst]

/-- The table of sources holds the sources with the names they mention. -/
theorem get?_sourcesOf {names : List Text} :
    (sourcesOf repository settings package).value.get? file = some names ↔
      IsSource repository settings package file names := by
  rw [sourcesOf, Logged.value_foldlM, get?_foldl_addSource]
  have hnone : (Table.empty : Sources).get? file = none := rfl
  simp only [List.mem_filter, Bool.and_eq_true, Bool.not_eq_true', hnone, Option.or_none]
  split
  · rename_i h
    simp [IsSource, h]
  · rename_i h
    simp only [reduceCtorEq, false_iff]
    rintro ⟨hfile, hextension, hexcluded, -⟩
    exact h ⟨hfile, hextension, hexcluded⟩

theorem mem_keys_sourcesOf :
    file ∈ (sourcesOf repository settings package).value.keys ↔
      ∃ names, IsSource repository settings package file names := by
  rw [← Table.contains_iff_mem_keys, Table.contains, Option.isSome_iff_exists]
  simp only [get?_sourcesOf]

/-! ## Libraries and scripts -/

/-- The source is there to be included. -/
def IsLibraryFile (repository : Repository) (settings : Settings) (package : Package)
    (file : Text) : Prop :=
  (∃ names, IsSource repository settings package file names) ∧
    (settings.isSearchDirectory package.path = true ∨
      ∃ other names, IsSource repository settings package other names ∧ other ≠ file ∧
        ∃ name ∈ names, Path.clean name = file)

/-- The source is there to be preprocessed. -/
def IsScript (repository : Repository) (settings : Settings) (package : Package)
    (file : Text) : Prop :=
  (∃ names, IsSource repository settings package file names) ∧
    ¬IsLibraryFile repository settings package file

/-- The files of the library of a package. -/
def libraryOf (repository : Repository) (settings : Settings) (package : Package) : List Text :=
  (libraryFiles settings package (sourcesOf repository settings package).value).toList

/-- The scripts of a package. -/
def scriptsOf (repository : Repository) (settings : Settings) (package : Package) : List Text :=
  ((TextSet.ofList (sourcesOf repository settings package).value.keys).difference
    (libraryFiles settings package (sourcesOf repository settings package).value)).toList

theorem mem_libraryOf :
    file ∈ libraryOf repository settings package ↔
      IsLibraryFile repository settings package file := by
  rw [libraryOf, libraryFiles, IsLibraryFile]
  split
  · rename_i hsearch
    simp [hsearch, mem_keys_sourcesOf]
  · rename_i hsearch
    simp only [TextSet.mem_toList_ofList, List.mem_flatMap, hsearch, Bool.false_eq_true, false_or,
      siblings, List.mem_filter, List.mem_map, Bool.and_eq_true, Table.contains_iff_mem_keys,
      mem_keys_sourcesOf, bne_iff_ne]
    constructor
    · rintro ⟨⟨other, names⟩, hother, ⟨name, hname, hclean⟩, hsource, hne⟩
      have hnames := get?_sourcesOf.mp (Table.get?_of_mem hother)
      exact ⟨hsource, other, names, hnames, Ne.symm hne, name, hname, hclean⟩
    · rintro ⟨hsource, other, names, hother, hne, name, hname, hclean⟩
      have hmem := Table.mem_of_find? (get?_sourcesOf.mpr hother)
      exact ⟨(other, names), hmem, ⟨name, hname, hclean⟩, hsource, Ne.symm hne⟩

theorem mem_scriptsOf :
    file ∈ scriptsOf repository settings package ↔ IsScript repository settings package file := by
  rw [scriptsOf, TextSet.mem_toList_difference, TextSet.mem_toList_ofList, mem_keys_sourcesOf]
  exact and_congr_right fun _ => not_congr mem_libraryOf

/-- The rules of a package are its library, if it has files, and its scripts. -/
theorem generate_value :
    (generate repository settings package).value =
      (if libraryOf repository settings package = [] then []
        else [libraryRule repository package (sourcesOf repository settings package).value
          (libraryOf repository settings package)]) ++
      (scriptsOf repository settings package).map
        (scriptRule package (sourcesOf repository settings package).value) := by
  rw [generate, Logged.value_bind, Logged.value_pure, libraryOf, TextSet.isEmpty]
  simp only [List.isEmpty_iff]
  rfl

/-! ## Clashes -/

theorem IsSource.extension_mem {names : List Text}
    (h : IsSource repository settings package file names) :
    Path.extension file ∈ sourceExtensions :=
  extension_mem_of_hasSourceExtension h.2.1

theorem IsScript.extension_mem (h : IsScript repository settings package file) :
    Path.extension file ∈ sourceExtensions := by
  obtain ⟨⟨names, hsource⟩, -⟩ := h
  exact hsource.extension_mem

/-- A script is named for what stands before its extension. -/
theorem IsScript.stem_eq_iff (h : IsScript repository settings package file) {name : Text} :
    stem file = name ↔ ∃ extension ∈ sourceExtensions, file = name ++ extension := by
  constructor
  · rintro rfl
    exact ⟨_, h.extension_mem, (stem_append_extension file).symm⟩
  · rintro ⟨extension, hextension, rfl⟩
    exact stem_append hextension name

theorem IsScript.stem_eq_stem_iff {other : Text} (h : IsScript repository settings package file)
    (hother : IsScript repository settings package other) :
    stem file = stem other ↔ Namesakes file other := by
  rw [h.stem_eq_iff]
  constructor
  · rintro ⟨extension, hextension, hfile⟩
    exact ⟨stem other, extension, hextension, _, hother.extension_mem, hfile,
      (stem_append_extension other).symm⟩
  · rintro ⟨name, extension, hextension, extension', hextension', hfile, rfl⟩
    rw [stem_append hextension']
    exact ⟨extension, hextension, hfile⟩

theorem nodup_scriptsOf : (scriptsOf repository settings package).Nodup :=
  TextSet.nodup_toList _

theorem nodup_stems_iff :
    ((scriptsOf repository settings package).map stem).Nodup ↔
      ∀ file other, IsScript repository settings package file →
        IsScript repository settings package other → Namesakes file other → file = other := by
  rw [List.nodup_map_iff_inj_on nodup_scriptsOf]
  simp only [mem_scriptsOf]
  constructor
  · intro h file other hfile hother hnames
    exact h file hfile other hother ((hfile.stem_eq_stem_iff hother).mpr hnames)
  · intro h file hfile other hother hstems
    exact h file other hfile hother ((hfile.stem_eq_stem_iff hother).mp hstems)

theorem map_name_generate :
    (generate repository settings package).value.map Rule.name =
      (if libraryOf repository settings package = [] then []
        else [Path.base (package.directory repository)]) ++
      (scriptsOf repository settings package).map stem := by
  rw [generate_value]
  split <;> simp [libraryRule, scriptRule, Function.comp_def]

theorem filterMap_output_generate :
    (generate repository settings package).value.filterMap Rule.output =
      (scriptsOf repository settings package).map fun file => stem file ++ bytes "_out.xs" := by
  rw [generate_value]
  split <;> simp [libraryRule, scriptRule, Function.comp_def, List.filterMap_map]

theorem nodup_names_iff :
    ((generate repository settings package).value.map Rule.name).Nodup ↔
      ((scriptsOf repository settings package).map stem).Nodup ∧
        ∀ file included, IsScript repository settings package file →
          IsLibraryFile repository settings package included → ∀ extension ∈ sourceExtensions,
            file ≠ Path.base (package.directory repository) ++ extension := by
  -- The name of the library is the one that a script can share.
  have hshared : (∀ file included, IsScript repository settings package file →
      IsLibraryFile repository settings package included → ∀ extension ∈ sourceExtensions,
        file ≠ Path.base (package.directory repository) ++ extension) ↔
      (libraryOf repository settings package ≠ [] →
        Path.base (package.directory repository) ∉
          (scriptsOf repository settings package).map stem) := by
    constructor
    · intro h hne hmem
      obtain ⟨included, hincluded⟩ := List.exists_mem_of_ne_nil _ hne
      obtain ⟨file, hfile, hstem⟩ := List.mem_map.mp hmem
      have hscript := mem_scriptsOf.mp hfile
      obtain ⟨extension, hextension, heq⟩ := hscript.stem_eq_iff.mp hstem
      exact h file included hscript (mem_libraryOf.mp hincluded) extension hextension heq
    · intro h file included hscript hincluded extension hextension heq
      refine h (List.ne_nil_of_mem (mem_libraryOf.mpr hincluded)) (List.mem_map.mpr ⟨file, ?_, ?_⟩)
      · exact mem_scriptsOf.mpr hscript
      · exact hscript.stem_eq_iff.mpr ⟨extension, hextension, heq⟩
  rw [hshared, map_name_generate]
  split
  · rename_i hempty
    simp [hempty]
  · rename_i hne
    rw [List.singleton_append, List.nodup_cons, and_comm]
    simp [hne]

/-- The rules of a package have distinct names exactly if no two of its scripts differ in the
spelling of the extension only, and no script is named like the directory beside a library.
The outputs of its scripts are distinct exactly if the former holds, and they are no listed files
exactly if no script has a file beside it that is named like its output. -/
theorem rules_distinct_iff (repository : Repository) (settings : Settings) (package : Package) :
    (((generate repository settings package).value.map Rule.name).Nodup ↔
      (∀ file other, IsScript repository settings package file →
        IsScript repository settings package other → Namesakes file other → file = other) ∧
      ∀ file included, IsScript repository settings package file →
        IsLibraryFile repository settings package included → ∀ extension ∈ sourceExtensions,
          file ≠ Path.base (package.directory repository) ++ extension) ∧
    (((generate repository settings package).value.filterMap Rule.output).Nodup ↔
      ∀ file other, IsScript repository settings package file →
        IsScript repository settings package other → Namesakes file other → file = other) ∧
    ((∀ output ∈ (generate repository settings package).value.filterMap Rule.output,
        output ∉ package.files repository) ↔
      ∀ name, ∀ extension ∈ sourceExtensions,
        IsScript repository settings package (name ++ extension) →
          name ++ bytes "_out.xs" ∉ package.files repository) := by
  refine ⟨?_, ?_, ?_⟩
  · rw [nodup_names_iff, nodup_stems_iff]
  · have houtputs : ((scriptsOf repository settings package).map fun file =>
        stem file ++ bytes "_out.xs") =
        ((scriptsOf repository settings package).map stem).map (· ++ bytes "_out.xs") := by
      rw [List.map_map]
      rfl
    rw [filterMap_output_generate, houtputs, List.nodup_map_iff (List.append_left_injective _),
      nodup_stems_iff]
  · rw [filterMap_output_generate]
    simp only [List.forall_mem_map, mem_scriptsOf]
    constructor
    · intro h name extension hextension hscript
      have hname := h _ hscript
      rwa [stem_append hextension] at hname
    · intro h file hscript
      refine h (stem file) (Path.extension file) hscript.extension_mem ?_
      rwa [stem_append_extension]

/-- A package with a library and three scripts that are named like each other, like the package
and like an output. -/
def crowded : Repository where
  root := bytes "/w"
  disk := {
    nodes := [
      ([bytes "w"], .directory),
      ([bytes "w", bytes "d"], .directory),
      ([bytes "w", bytes "d", bytes "d.XS"], .file []),
      ([bytes "w", bytes "d", bytes "d.xs"], .file (bytes "#include \"lib.xs\"\n")),
      ([bytes "w", bytes "d", bytes "d_out.xs"], .file []),
      ([bytes "w", bytes "d", bytes "lib.xs"], .file [])]
    workingDirectory := [bytes "w"] }

/-- Distinct files alone do not keep the rules of a package apart: names repeat, outputs repeat,
and an output is a listed file. -/
theorem rules_clash :
    (Package.files crowded { path := bytes "d" }).Nodup ∧
    ¬((generate crowded .empty { path := bytes "d" }).value.map Rule.name).Nodup ∧
    ¬((generate crowded .empty { path := bytes "d" }).value.filterMap Rule.output).Nodup ∧
    ∃ output ∈ (generate crowded .empty { path := bytes "d" }).value.filterMap Rule.output,
      output ∈ Package.files crowded { path := bytes "d" } := by
  decide +kernel

end Build

end XsPrep
