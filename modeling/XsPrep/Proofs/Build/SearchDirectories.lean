import XsPrep.Build.Package
import XsPrep.Proofs.Build.Exclusion
import XsPrep.Proofs.Build.Generation
import XsPrep.Proofs.Files.Spellings

/-!
# Directories in settings

Directives give directories in any spelling, and settings keep them in a clean form.  The clean
form is made from the trail of the path (`cleanRelative_eq`), so all spellings of a directory have
the same one, and other paths have another (`cleanRelative_inj`).  Hence settings can ask whether a
directory is searched by comparing texts.

Which directories are searched depends on what was given to a package and to those it inherits
from (`Configured`).  The last directive of a key is in force, and settings hold what the
directives in force say (`Configured.reflects`).  Every included directory is recognised in every
spelling, and so is the library below the root unless it is left out (`directories_recognised`).
-/

namespace XsPrep.Build

open Path (Alike IsTidy trail join)

namespace Settings

/-! ## The clean form -/

theorem cleanRelative_eq (path : Text) : cleanRelative path = Path.ofParts (trail path) := by
  have hrelative := Path.isAbsolute_dropWhile path
  have hclean : Path.clean (path.dropWhile (· == Byte.slash)) = Path.relative (trail path) := by
    rw [Path.clean_of_relative hrelative, Path.components, hrelative,
      Path.foldl_parts_dropWhile false [] path]
    rfl
  have hcomponents : ∀ c ∈ trail path, Path.IsComponent c := fun c => Path.isComponent_of_mem_trail
  rw [cleanRelative, hclean]
  by_cases hnil : trail path = []
  · rw [hnil]
    rfl
  · have hne : Path.relative (trail path) ≠ Path.here := fun hhere =>
      hnil (Path.relative_injective hcomponents (by simp) hhere)
    rw [if_neg hne, Path.relative_eq hnil]

/-- A directory and its clean form are spellings of one path. -/
theorem alike_cleanRelative (path : Text) : Alike (cleanRelative path) path := by
  rw [Path.alike_iff, cleanRelative_eq, Path.trail_ofParts_trail]

/-- All spellings of a path have the same clean form, and other paths have another. -/
theorem cleanRelative_inj {path other : Text} :
    cleanRelative path = cleanRelative other ↔ Alike path other := by
  constructor
  · intro h
    exact (alike_cleanRelative path).symm.trans (h ▸ alike_cleanRelative other)
  · intro h
    rw [cleanRelative_eq, cleanRelative_eq, Path.alike_iff.mp h]

theorem cleanRelative_cleanRelative (path : Text) :
    cleanRelative (cleanRelative path) = cleanRelative path :=
  cleanRelative_inj.mpr (alike_cleanRelative path)

theorem isTidy_cleanRelative (path : Text) :
    cleanRelative path = [] ∨ IsTidy (cleanRelative path) := by
  rw [cleanRelative_eq]
  by_cases h : trail path = []
  · rw [h]
    exact .inl rfl
  · exact .inr (Path.isTidy_ofParts_trail h)

/-- The clean forms are the tidy paths and the empty one. -/
theorem cleanRelative_eq_self_iff {path : Text} :
    cleanRelative path = path ↔ path = [] ∨ IsTidy path := by
  constructor
  · intro h
    exact h ▸ isTidy_cleanRelative path
  · rintro (rfl | h)
    · rfl
    · have hfront : path.dropWhile (· == Byte.slash) = path := by
        rw [List.dropWhile_eq_self_iff]
        intro hpos hslash
        exact h.head_ne (by rw [← eq_of_beq hslash, List.head?_eq_getElem?]; simp)
      simp only [cleanRelative, hfront, h.clean_eq, h.ne_here, if_false]

/-! ## Directives in force -/

/-- The value of the last directive with a key, or nothing if there is none. -/
def inForce (key : Key) (given : List Directive) : Text :=
  ((given.reverse.find? fun d => Key.ofText? d.key = some key).map Directive.value).getD []

/-- Whether the last directive about it with a truth value leaves the bundled library out. -/
def leavesLibraryOut (given : List Directive) : Bool :=
  (given.reverse.findSome? fun d =>
    if Key.ofText? d.key = some .withoutLibrary then d.value.truth? else none).getD false

theorem inForce_concat (key : Key) (given : List Directive) (d : Directive) :
    inForce key (given ++ [d]) =
      if Key.ofText? d.key = some key then d.value else inForce key given := by
  rw [inForce, List.reverse_append, List.reverse_singleton, List.singleton_append,
    List.find?_cons]
  by_cases h : Key.ofText? d.key = some key <;> simp [h, inForce]

theorem leavesLibraryOut_concat (given : List Directive) (d : Directive) :
    leavesLibraryOut (given ++ [d]) =
      if Key.ofText? d.key = some .withoutLibrary then
        d.value.truth?.getD (leavesLibraryOut given)
      else leavesLibraryOut given := by
  rw [leavesLibraryOut, List.reverse_append, List.reverse_singleton, List.singleton_append,
    List.findSome?_cons]
  by_cases h : Key.ofText? d.key = some .withoutLibrary
  · cases d.value.truth? <;> simp [h, leavesLibraryOut]
  · simp [h, leavesLibraryOut]

/-- What a directive about scripts does to the directories. -/
theorem apply_directories (repository : Repository) (package : Text) (settings : Settings)
    (d : Directive) :
    (settings.apply repository package d).value.includeDirectories =
      (if Key.ofText? d.key = some .includeDirectories then d.value.words.map cleanRelative
        else settings.includeDirectories) ∧
    (settings.apply repository package d).value.libraryDirectory =
      (if Key.ofText? d.key = some .libraryDirectory then cleanRelative d.value
        else settings.libraryDirectory) ∧
    (settings.apply repository package d).value.withoutLibrary =
      (if Key.ofText? d.key = some .withoutLibrary then d.value.truth?.getD settings.withoutLibrary
        else settings.withoutLibrary) := by
  rw [apply]
  cases Key.ofText? d.key with
  | none => exact ⟨rfl, rfl, rfl⟩
  | some key =>
    cases key with
    | includeDirectories => exact ⟨rfl, rfl, rfl⟩
    | exclude =>
      dsimp only [set]
      split <;> exact ⟨rfl, rfl, rfl⟩
    | libraryDirectory =>
      refine ⟨rfl, ?_, rfl⟩
      dsimp only [set]
      cases d.value <;> rfl
    | withoutLibrary =>
      dsimp only [set]
      cases d.value.truth? <;> exact ⟨rfl, rfl, rfl⟩
    | indexFile =>
      dsimp only [set]
      split <;> exact ⟨rfl, rfl, rfl⟩

/-- Directives that override resolution say nothing about directories. -/
theorem applyOverride_directories (package : Text) (settings : Settings) (d : Directive) :
    (settings.applyOverride package d).value.includeDirectories = settings.includeDirectories ∧
    (settings.applyOverride package d).value.libraryDirectory = settings.libraryDirectory ∧
    (settings.applyOverride package d).value.withoutLibrary = settings.withoutLibrary := by
  rw [applyOverride]
  split
  · exact ⟨rfl, rfl, rfl⟩
  split
  · exact ⟨rfl, rfl, rfl⟩
  split
  · dsimp only [Logged.value_pure, setOverride]
    split <;> exact ⟨rfl, rfl, rfl⟩
  · exact ⟨rfl, rfl, rfl⟩

/-- What settings hold about directories is what the directives in force say. -/
structure Reflects (given : List Directive) (settings : Settings) : Prop where
  includeDirectories :
    settings.includeDirectories = (inForce .includeDirectories given).words.map cleanRelative
  libraryDirectory : settings.libraryDirectory = cleanRelative (inForce .libraryDirectory given)
  withoutLibrary : settings.withoutLibrary = leavesLibraryOut given

namespace Reflects

variable {given : List Directive} {settings : Settings}

theorem empty : Reflects [] .empty := by
  refine ⟨?_, rfl, rfl⟩
  have hwords : Text.words [] = [] := by decide +kernel
  exact (congrArg (List.map cleanRelative) hwords).symm

/-- One more directive is in force from then on. -/
theorem apply (h : Reflects given settings) (repository : Repository) (package : Text)
    (d : Directive) :
    Reflects (given ++ [d]) (settings.apply repository package d).value := by
  obtain ⟨hincluded, hlibrary, hwithout⟩ := apply_directories repository package settings d
  constructor
  · rw [hincluded, inForce_concat, h.includeDirectories]
    split <;> rfl
  · rw [hlibrary, inForce_concat, h.libraryDirectory]
    split <;> rfl
  · rw [hwithout, leavesLibraryOut_concat, h.withoutLibrary]

theorem applyOverride (h : Reflects given settings) (package : Text) (d : Directive) :
    Reflects given (settings.applyOverride package d).value := by
  obtain ⟨hincluded, hlibrary, hwithout⟩ := applyOverride_directories package settings d
  exact ⟨hincluded.trans h.includeDirectories, hlibrary.trans h.libraryDirectory,
    hwithout.trans h.withoutLibrary⟩

theorem foldl_apply (h : Reflects given settings) (repository : Repository) (package : Text)
    (directives : List Directive) :
    Reflects (given ++ directives)
      (directives.foldl (fun kept d => (kept.apply repository package d).value) settings) := by
  induction directives using List.reverseRecOn with
  | nil => rwa [List.append_nil]
  | append_singleton directives d ih =>
    rw [← List.append_assoc, List.foldl_append]
    exact ih.apply repository package d

theorem foldl_applyOverride (h : Reflects given settings) (package : Text)
    (directives : List Directive) :
    Reflects given
      (directives.foldl (fun kept d => (kept.applyOverride package d).value) settings) := by
  induction directives generalizing settings with
  | nil => exact h
  | cons d directives ih => exact ih (h.applyOverride package d)

/-- The directives of a package are in force behind those that it inherits. -/
theorem configure (h : Reflects given settings) (repository : Repository) (package : Text)
    (directives : List Directive) :
    Reflects (given ++ directives) (settings.configure repository package directives).value := by
  rw [Settings.configure, Logged.value_bind, Logged.value_foldlM, Logged.value_foldlM]
  exact (h.foldl_apply repository package directives).foldl_applyOverride package directives

end Reflects

/-- The settings are those of a package, and the directives are those of the packages it inherits
from, the outermost first, and its own ones. -/
inductive Configured (repository : Repository) : List Directive → Settings → Prop where
  | empty : Configured repository [] .empty
  | package {given : List Directive} {settings : Settings}
      (h : Configured repository given settings) (package : Text) (directives : List Directive) :
      Configured repository (given ++ directives)
        (settings.configure repository package directives).value

theorem Configured.reflects {repository : Repository} {given : List Directive}
    {settings : Settings} (h : Configured repository given settings) : Reflects given settings := by
  induction h with
  | empty => exact .empty
  | package _ package directives ih => exact ih.configure repository package directives

end Settings

namespace Package

theorem mem_of_nearest {α : Type} {candidates : List (Package × α)} {best : Option (Package × α)}
    {e : Package × α} (h : candidates.foldl nearer best = some e) :
    e ∈ candidates ∨ best = some e := by
  induction candidates generalizing best with
  | nil => exact .inr h
  | cons next candidates ih =>
    rcases ih h with hmem | hbest
    · exact .inl (List.mem_cons_of_mem _ hmem)
    · cases best with
      | none => exact .inl (Option.some.inj hbest ▸ List.mem_cons_self)
      | some best =>
        rw [nearer] at hbest
        split at hbest
        · exact .inr hbest
        · exact .inl (Option.some.inj hbest ▸ List.mem_cons_self)

theorem mem_of_inherited? {α : Type} {package : Package} {before : List (Package × α)}
    {e : Package × α} (h : package.inherited? before = some e) : e ∈ before := by
  rw [inherited?] at h
  split at h
  · rename_i named hnamed
    obtain ⟨n, -, hn⟩ := Option.bind_eq_some_iff.mp hnamed
    exact Option.some.inj h ▸ List.mem_of_getElem? hn
  · rcases mem_of_nearest h with hmem | hnone
    · exact (List.mem_filter.mp hmem).1
    · cases hnone

/-- All packages of a repository are configured with the directives that they inherit and with
their own ones. -/
theorem configured_of_mem (repository : Repository) (packages : List Package) :
    ∀ e ∈ configureAll repository packages, ∃ above,
      Settings.Configured repository (above ++ e.1.directives.getD []) e.2.value := by
  rw [configureAll]
  induction packages using List.reverseRecOn with
  | nil => simp
  | append_singleton packages package ih =>
    rw [List.foldl_append, List.foldl_cons, List.foldl_nil]
    intro e he
    rcases List.mem_append.mp he with he | he
    · exact ih e he
    obtain rfl := List.mem_singleton.mp he
    dsimp only [configure]
    cases hinherited : package.inherited? _ with
    | none => exact ⟨[], .package .empty package.path _⟩
    | some nearest =>
      obtain ⟨above, habove⟩ := ih nearest (mem_of_inherited? hinherited)
      exact ⟨_, .package habove package.path _⟩

end Package

namespace Settings

/-! ## Searched directories -/

namespace Reflects

variable {given : List Directive} {settings : Settings}

theorem mem_includeDirectories (h : Reflects given settings) (directory : Text) :
    cleanRelative directory ∈ settings.includeDirectories ↔
      ∃ spelling ∈ (inForce .includeDirectories given).words, Alike spelling directory := by
  rw [h.includeDirectories, List.mem_map]
  exact exists_congr fun spelling => and_congr_right fun _ => cleanRelative_inj

/-- A directory that is included is recognised, however it is spelled. -/
theorem isSearchDirectory_of_included (h : Reflects given settings) {spelling directory : Text}
    (hspelling : spelling ∈ (inForce .includeDirectories given).words)
    (halike : Alike spelling directory) :
    settings.isSearchDirectory (cleanRelative directory) = true := by
  have hmem := (h.mem_includeDirectories directory).mpr ⟨spelling, hspelling, halike⟩
  rw [isSearchDirectory, List.contains_iff_mem, searchDirectories]
  split
  · exact hmem
  · exact List.mem_cons_of_mem _ hmem

/-- Below the root, the directories that are searched are those that are included and, unless it
is left out, the library. -/
theorem isSearchDirectory_iff (h : Reflects given settings) {directory : Text}
    (hbelow : cleanRelative directory ≠ []) :
    settings.isSearchDirectory (cleanRelative directory) = true ↔
      (∃ spelling ∈ (inForce .includeDirectories given).words, Alike spelling directory) ∨
        leavesLibraryOut given = false ∧ Alike (inForce .libraryDirectory given) directory := by
  rw [← h.mem_includeDirectories, ← h.withoutLibrary, ← cleanRelative_inj, ← h.libraryDirectory,
    isSearchDirectory, List.contains_iff_mem, searchDirectories]
  by_cases hwithout : settings.withoutLibrary = true
  · simp [hwithout]
  · by_cases hlibrary : settings.libraryDirectory = []
    · simp [hlibrary, Ne.symm hbelow]
    · have hkept : (settings.libraryDirectory.isEmpty || settings.withoutLibrary) = false := by
        simp [hlibrary, hwithout]
      rw [hkept, if_neg Bool.false_ne_true, List.mem_cons, or_comm]
      exact or_congr_right
        ⟨fun heq => ⟨Bool.eq_false_iff.mpr hwithout, heq.symm⟩, fun ⟨_, heq⟩ => heq.symm⟩

/-- Directories are only recognised in their clean form. -/
theorem cleanRelative_of_isSearchDirectory (h : Reflects given settings) {directory : Text}
    (hsearched : settings.isSearchDirectory directory = true) :
    cleanRelative directory = directory := by
  rw [isSearchDirectory, List.contains_iff_mem] at hsearched
  have hincluded : directory ∈ settings.includeDirectories →
      cleanRelative directory = directory := by
    rw [h.includeDirectories]
    intro hmem
    obtain ⟨spelling, -, rfl⟩ := List.mem_map.mp hmem
    exact cleanRelative_cleanRelative spelling
  rw [searchDirectories] at hsearched
  split at hsearched
  · exact hincluded hsearched
  · rcases List.mem_cons.mp hsearched with rfl | hmem
    · rw [h.libraryDirectory, cleanRelative_cleanRelative]
    · exact hincluded hmem

end Reflects

/-- The clean form of a directory is empty or a tidy path, it is its own clean form, and joining it
to a base is joining the directory.  It is the same for all spellings of the directory and for no
other path.  So the settings of a package recognise every included directory in every spelling,
and below the root they recognise besides these the library, unless it is left out. -/
theorem directories_recognised {repository : Repository} {given : List Directive}
    {settings : Settings} (h : Configured repository given settings) (directory : Text) :
    (cleanRelative directory = [] ∨ IsTidy (cleanRelative directory)) ∧
    cleanRelative (cleanRelative directory) = cleanRelative directory ∧
    (∀ base, base ≠ [] → join [base, cleanRelative directory] = join [base, directory]) ∧
    (∀ other, cleanRelative directory = cleanRelative other ↔ Alike directory other) ∧
    (∀ spelling ∈ (inForce .includeDirectories given).words, Alike spelling directory →
      settings.isSearchDirectory (cleanRelative directory) = true) ∧
    (cleanRelative directory ≠ [] →
      (settings.isSearchDirectory (cleanRelative directory) = true ↔
        (∃ spelling ∈ (inForce .includeDirectories given).words, Alike spelling directory) ∨
          leavesLibraryOut given = false ∧
            Alike (inForce .libraryDirectory given) directory)) :=
  ⟨isTidy_cleanRelative directory, cleanRelative_cleanRelative directory,
    alike_cleanRelative directory, fun _ => cleanRelative_inj,
    fun _ hspelling halike => h.reflects.isSearchDirectory_of_included hspelling halike,
    fun hbelow => h.reflects.isSearchDirectory_iff hbelow⟩

/-- Directives of a root package. -/
def above : List Directive :=
  [⟨bytes "xs_include_dirs", bytes "shared"⟩, ⟨bytes "xs_library_dir", bytes "//xs/./lib/"⟩,
    ⟨bytes "xs_include_dirs", bytes "a/../../up /common//"⟩]

/-- A directive of a package below, with a bad value. -/
def below : List Directive := [⟨bytes "xs_no_libs", bytes "maybe"⟩]

theorem directories_recognised_inherited :
    Configured bare (above ++ below)
      ((empty.configure bare [] above).value.configure bare (bytes "sub") below).value ∧
    ((empty.configure bare [] above).value.configure bare (bytes "sub")
      below).value.isSearchDirectory (cleanRelative (bytes "..//up/.")) = true ∧
    ((empty.configure bare [] above).value.configure bare (bytes "sub")
      below).value.isSearchDirectory (cleanRelative (bytes "xs/x/../lib")) = true := by
  have hconfigured : Configured bare (above ++ below)
      ((empty.configure bare [] above).value.configure bare (bytes "sub") below).value :=
    .package (.package .empty [] above) (bytes "sub") below
  obtain ⟨-, -, -, -, hincluded, -⟩ := directories_recognised hconfigured (bytes "..//up/.")
  obtain ⟨-, -, -, -, -, hbelow⟩ := directories_recognised hconfigured (bytes "xs/x/../lib")
  refine ⟨hconfigured, ?_, ?_⟩
  · exact hincluded (bytes "a/../../up") (by decide +kernel) (by decide +kernel)
  · exact (hbelow (by decide +kernel)).mpr (.inr (by decide +kernel))

/-- A library that is left out is recognised in no spelling, and neither is the root as a library,
though it is as an included directory. -/
theorem library_overlooked :
    Alike (bytes "./lib/") (bytes "lib") ∧
    (empty.configure bare [] [⟨bytes "xs_library_dir", bytes "./lib/"⟩,
      ⟨bytes "xs_no_libs", bytes "true"⟩]).value.isSearchDirectory (bytes "lib") = false ∧
    Alike (bytes ".") [] ∧
    (empty.configure bare [] [⟨bytes "xs_library_dir", bytes "."⟩]).value.isSearchDirectory [] =
      false ∧
    (empty.configure bare [] [⟨bytes "xs_include_dirs", bytes "."⟩]).value.isSearchDirectory [] =
      true := by
  decide +kernel

end Settings

end XsPrep.Build
