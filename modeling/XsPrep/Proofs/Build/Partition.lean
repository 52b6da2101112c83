import XsPrep.Proofs.Build.Generation

/-!
# The sources of all rules

The rules of a package share its sources among them: the files they list are its sources
(`mem_listed_generate`), and no file is listed twice (`nodup_listed_generate`).  The library comes
first, the scripts follow in ascending order (`generate_arranged`), and each rule has the includes
of the files it lists, in the order of its list (`includes_of_mem`).

All this is decided by which files a package has.  The table of sources binds the same names for
any order of the files (`sourcesOf_perm`), and the rules are read off that table.
-/

namespace XsPrep.Build

variable {repository : Repository} {settings : Settings} {package : Package} {file : Text}

/-! ## Listed files -/

/-- The files that rules are made from, one rule after the other. -/
def listed (rules : List Rule) : List Text := rules.flatMap fun rule => rule.sources.getD []

theorem listed_append (rules more : List Rule) :
    listed (rules ++ more) = listed rules ++ listed more :=
  List.flatMap_append

theorem listed_scripts (sources : Sources) (files : List Text) :
    listed (files.map (scriptRule package sources)) = files := by
  simp [listed, List.flatMap_map, scriptRule]

theorem listed_generate :
    listed (generate repository settings package).value =
      libraryOf repository settings package ++ scriptsOf repository settings package := by
  rw [generate_value, listed_append, listed_scripts]
  split
  · rename_i hempty
    simp [listed, hempty]
  · simp [listed, libraryRule]

theorem mem_listed_generate :
    file ∈ listed (generate repository settings package).value ↔
      ∃ names, IsSource repository settings package file names := by
  rw [listed_generate, List.mem_append, mem_libraryOf, mem_scriptsOf, IsScript]
  constructor
  · rintro (hlibrary | hscript)
    · exact hlibrary.1
    · exact hscript.1
  · intro hsource
    by_cases hlibrary : IsLibraryFile repository settings package file
    · exact .inl hlibrary
    · exact .inr ⟨hsource, hlibrary⟩

/-- No file is listed twice, by one rule or by two. -/
theorem nodup_listed_generate : (listed (generate repository settings package).value).Nodup := by
  rw [listed_generate]
  refine List.Nodup.append (TextSet.nodup_toList _) nodup_scriptsOf ?_
  intro file hlibrary hscript
  exact (mem_scriptsOf.mp hscript).2 (mem_libraryOf.mp hlibrary)

/-! ## Includes -/

/-- The includes of a file of the package, as it mentions them. -/
def includesIn (repository : Repository) (package : Package) (file : Text) : List Include :=
  ((mentioned? repository package file).getD []).map fun name => ⟨name, package.path⟩

theorem includesOf_sources {files : List Text}
    (h : ∀ file ∈ files, ∃ names, IsSource repository settings package file names) :
    includesOf package (sourcesOf repository settings package).value files =
      files.flatMap (includesIn repository package) := by
  refine List.flatMap_congr fun file hfile => ?_
  obtain ⟨names, hsource⟩ := h file hfile
  rw [get?_sourcesOf.mpr hsource, includesIn, hsource.2.2.2]

theorem includes_of_mem {rule : Rule} (h : rule ∈ (generate repository settings package).value) :
    rule.includes = some ((rule.sources.getD []).flatMap (includesIn repository package)) := by
  have hlisted : ∀ file ∈ rule.sources.getD [],
      ∃ names, IsSource repository settings package file names := fun file hfile =>
    mem_listed_generate.mp (List.mem_flatMap.mpr ⟨rule, h, hfile⟩)
  have hincludes : rule.includes =
      some (includesOf package (sourcesOf repository settings package).value
        (rule.sources.getD [])) := by
    rw [generate_value, List.mem_append, List.mem_map] at h
    rcases h with hlibrary | ⟨file, -, rfl⟩
    · split at hlibrary
      · cases hlibrary
      · rw [List.mem_singleton.mp hlibrary]
        rfl
    · rfl
  rw [hincludes, includesOf_sources hlisted]

/-! ## The order of the files -/

/-- The package with the given files. -/
abbrev withFiles (package : Package) (files : List Text) : Package :=
  { package with listed := some files }

theorem sourcesOf_perm {files files' : List Text} (h : files.Perm files') :
    (sourcesOf repository settings (withFiles package files)).value =
      (sourcesOf repository settings (withFiles package files')).value := by
  refine Table.eq_of_get? fun file => Option.ext fun names => ?_
  rw [get?_sourcesOf, get?_sourcesOf]
  exact and_congr h.mem_iff Iff.rfl

theorem generate_perm {files files' : List Text} (h : files.Perm files') :
    (generate repository settings (withFiles package files)).value =
      (generate repository settings (withFiles package files')).value := by
  rw [generate, generate, Logged.value_bind, Logged.value_bind, sourcesOf_perm h]
  rfl

/-! ## All rules -/

/-- The rules are the library, if there is one, and then the scripts in the order of their files,
each of one file. -/
theorem generate_arranged (repository : Repository) (settings : Settings) (package : Package) :
    ∃ (library : Option Rule) (scripts : List Rule),
      (generate repository settings package).value = library.toList ++ scripts ∧
      (∀ rule ∈ library, rule.kind = .library) ∧
      (∀ rule ∈ scripts, rule.kind = .script ∧ ∃ file, rule.sources = some [file]) ∧
      (listed scripts).Pairwise fun s t => Text.precedes s t = true := by
  refine ⟨if libraryOf repository settings package = [] then none else
    some (libraryRule repository package (sourcesOf repository settings package).value
      (libraryOf repository settings package)),
    (scriptsOf repository settings package).map
      (scriptRule package (sourcesOf repository settings package).value), ?_, ?_, ?_, ?_⟩
  · rw [generate_value]
    split <;> rfl
  · intro rule hrule
    split at hrule
    · cases hrule
    · cases hrule
      rfl
  · intro rule hrule
    obtain ⟨file, -, rfl⟩ := List.mem_map.mp hrule
    exact ⟨rfl, file, rfl⟩
  · rw [listed_scripts]
    exact TextSet.toList_ascending _

theorem sources_ascending {rule : Rule}
    (h : rule ∈ (generate repository settings package).value) :
    (rule.sources.getD []).Pairwise fun s t => Text.precedes s t = true := by
  rw [generate_value, List.mem_append, List.mem_map] at h
  rcases h with hlibrary | ⟨file, -, rfl⟩
  · split at hlibrary
    · cases hlibrary
    · rw [List.mem_singleton.mp hlibrary]
      exact TextSet.toList_ascending _
  · exact List.pairwise_singleton _ file

/-- The rules of a package list each of its sources once, among all rules, and nothing else.  Each
has the includes of the files it lists, in the order of its list.  The library comes first, files
and scripts ascend, and the order in which the files of the package are given does not matter. -/
theorem sources_partitioned (repository : Repository) (settings : Settings) (package : Package) :
    (∀ file, (∃ names, IsSource repository settings package file names) →
      (listed (generate repository settings package).value).count file = 1) ∧
    (∀ file, (¬∃ names, IsSource repository settings package file names) →
      ∀ rule ∈ (generate repository settings package).value, file ∉ rule.sources.getD []) ∧
    (∀ rule ∈ (generate repository settings package).value,
      rule.includes = some ((rule.sources.getD []).flatMap (includesIn repository package))) ∧
    (∃ (library : Option Rule) (scripts : List Rule),
      (generate repository settings package).value = library.toList ++ scripts ∧
      (∀ rule ∈ library, rule.kind = .library) ∧
      (∀ rule ∈ scripts, rule.kind = .script ∧ ∃ file, rule.sources = some [file]) ∧
      (listed scripts).Pairwise fun s t => Text.precedes s t = true) ∧
    (∀ rule ∈ (generate repository settings package).value,
      (rule.sources.getD []).Pairwise fun s t => Text.precedes s t = true) ∧
    ∀ files files', files.Perm files' →
      (generate repository settings (withFiles package files)).value =
        (generate repository settings (withFiles package files')).value := by
  refine ⟨?_, ?_, fun rule hrule => includes_of_mem hrule,
    generate_arranged repository settings package, fun rule hrule => sources_ascending hrule,
    fun files files' hperm => generate_perm hperm⟩
  · intro file hsource
    exact List.count_eq_one_of_mem nodup_listed_generate (mem_listed_generate.mpr hsource)
  · intro file hother rule hrule hfile
    exact hother (mem_listed_generate.mp (List.mem_flatMap.mpr ⟨rule, hrule, hfile⟩))

/-- A package with a script, a file it includes, a file that cannot be parsed and one that is no
source. -/
def mixed : Repository where
  root := bytes "/w"
  disk := {
    nodes := [
      ([bytes "w"], .directory),
      ([bytes "w", bytes "d"], .directory),
      ([bytes "w", bytes "d", bytes "bad.xs"], .file (bytes "\"open")),
      ([bytes "w", bytes "d", bytes "lib.XS"], .file []),
      ([bytes "w", bytes "d", bytes "main.xs"], .file (bytes "#include \"./lib.XS\"\n")),
      ([bytes "w", bytes "d", bytes "notes.md"], .file [])]
    workingDirectory := [bytes "w"] }

theorem sources_partitioned_shuffled :
    [bytes "main.xs", bytes "notes.md", bytes "lib.XS", bytes "bad.xs"].Perm
      [bytes "bad.xs", bytes "lib.XS", bytes "main.xs", bytes "notes.md"] ∧
    (generate mixed .empty (withFiles { path := bytes "d" }
        [bytes "main.xs", bytes "notes.md", bytes "lib.XS", bytes "bad.xs"])).value =
      (generate mixed .empty (withFiles { path := bytes "d" }
        [bytes "bad.xs", bytes "lib.XS", bytes "main.xs", bytes "notes.md"])).value ∧
    listed (generate mixed .empty (withFiles { path := bytes "d" }
      [bytes "main.xs", bytes "notes.md", bytes "lib.XS", bytes "bad.xs"])).value =
      [bytes "lib.XS", bytes "main.xs"] := by
  have hperm : [bytes "main.xs", bytes "notes.md", bytes "lib.XS", bytes "bad.xs"].Perm
      [bytes "bad.xs", bytes "lib.XS", bytes "main.xs", bytes "notes.md"] := by decide +kernel
  obtain ⟨-, -, -, -, -, horder⟩ := sources_partitioned mixed .empty { path := bytes "d" }
  exact ⟨hperm, horder _ _ hperm, by decide +kernel⟩

end XsPrep.Build
