import XsPrep.Proofs.Build.Candidates
import XsPrep.Proofs.Build.Generation
import XsPrep.Proofs.Files.Normal

/-!
# Included files of the same package

A file becomes a source of the library of its package if another file of the package includes it.
The rules are generated by cleaning the name of an include, and they are resolved by joining it
with the path of the package.  Both agree on names that lead straight down from the package
(`clean_eq_iff_place`): the clean name is the file exactly if the first place of the include is the
path of the file.

Names that leave the package can come back to it: `../p/a.xs` is `a.xs` in the package `p`, and
`/a.xs` is so in any package but the root.  The first place for such a name is the path of a file
next to the including one, but the clean name is not.  So the file is no source of a library
(`sibling_overlooked`), and `library_lists_siblings_iff` says which files are.
-/

namespace XsPrep.Build

open Path (IsNormal IsStraight cleanStep)

/-! ## The first place -/

namespace Include

variable {inclusion : Include}

theorem head?_candidates (directories : List Text) :
    (inclusion.candidates directories).head? =
      some (Path.join [inclusion.package, inclusion.innerName]) := by
  rw [candidates_eq, Lookup.candidates, innerName]
  cases Text.without? Lookup.localMark inclusion.name with
  | some inner => rfl
  | none => rfl

/-- The name of a local include is the mark and the name behind it. -/
theorem innerName_cases (inclusion : Include) :
    inclusion.innerName = inclusion.name ∨
      inclusion.name = Path.here ++ Byte.slash :: inclusion.innerName := by
  rw [innerName, Text.without?]
  split
  · rename_i hmark
    obtain ⟨inner, hname⟩ := List.isPrefixOf_iff_prefix.mp hmark
    rw [← hname, List.drop_left]
    exact .inr rfl
  · exact .inl rfl

/-- The mark of a local include leads nowhere. -/
theorem foldl_parts_innerName (rooted : Bool) (before : List Text) :
    (Path.parts inclusion.innerName).foldl (cleanStep rooted) before =
      (Path.parts inclusion.name).foldl (cleanStep rooted) before := by
  rcases inclusion.innerName_cases with hsame | hname
  · rw [hsame]
  · have hparts : Path.parts inclusion.name = [Path.here] ++ Path.parts inclusion.innerName := by
      rw [hname]
      exact Text.split_append Byte.slash Path.here inclusion.innerName
    rw [hparts, List.foldl_append, List.foldl_cons, List.foldl_nil,
      Path.cleanStep_of_void rooted (.inr rfl)]

/-- From a package below the root, a straight name leads to the path of a file exactly if it is the
file when it is cleaned. -/
theorem clean_eq_iff_join {file : Text} (hpackage : IsNormal inclusion.package)
    (hfile : IsNormal file) (hstraight : IsStraight inclusion.name) :
    Path.clean inclusion.name = file ↔
      Path.join [inclusion.package, inclusion.innerName] =
        Path.join [inclusion.package, file] := by
  have hparts := hpackage.isComponent
  have hplace : Path.join [inclusion.package, inclusion.innerName] =
      Path.relative (Path.parts inclusion.package ++ Path.components inclusion.name) := by
    rw [hpackage.join_relative, foldl_parts_innerName, hstraight.foldl_parts,
      List.reverse_append, List.reverse_reverse, List.reverse_reverse]
  have htarget : Path.join [inclusion.package, file] =
      Path.relative (Path.parts inclusion.package ++ Path.parts file) := by
    rw [hpackage.join_relative, hfile.foldl_parts, List.reverse_append, List.reverse_reverse,
      List.reverse_reverse]
  rw [hplace, htarget, Path.clean_eq_iff hfile, and_iff_right hstraight.1]
  constructor
  · intro hcomponents
    rw [hcomponents]
  · intro hsame
    refine List.append_cancel_left (Path.relative_injective ?_ ?_ hsame)
    · exact List.forall_mem_append.mpr ⟨hparts, fun c hc => Path.isComponent_of_mem hc⟩
    · exact List.forall_mem_append.mpr ⟨hparts, hfile.isComponent⟩

theorem components_innerName (h : IsStraight inclusion.name) :
    Path.components inclusion.innerName = Path.components inclusion.name := by
  rw [Path.components, foldl_parts_innerName, h.foldl_parts, List.append_nil, List.reverse_reverse]

/-- From the root, the first place is the clean name, or that below the root if the mark of a local
include stands before a slash. -/
theorem join_root (hpackage : inclusion.package = []) (hstraight : IsStraight inclusion.name)
    (hne : Path.components inclusion.name ≠ []) :
    Path.join [inclusion.package, inclusion.innerName] =
      if Path.isAbsolute inclusion.innerName then Byte.slash :: Path.clean inclusion.name
      else Path.clean inclusion.name := by
  have hcomponents := components_innerName hstraight
  have hinner : inclusion.innerName ≠ [] := by
    intro hnil
    rw [hnil] at hcomponents
    exact hne hcomponents.symm
  rw [hpackage, Path.join_nil_left _ hinner, Path.clean_of_relative hstraight.1]
  split
  · rename_i habsolute
    rw [Path.clean_of_absolute habsolute, hcomponents, Path.relative_eq hne]
  · rename_i hrelative
    rw [Path.clean_of_relative (by simpa using hrelative), hcomponents]

/-- A name that leads nowhere has no file at its first place. -/
theorem join_root_of_components (hpackage : inclusion.package = [])
    (hstraight : IsStraight inclusion.name) (hnil : Path.components inclusion.name = []) :
    Path.join [inclusion.package, inclusion.innerName] ∈ [[], Path.here, [Byte.slash]] := by
  rw [← components_innerName hstraight] at hnil
  by_cases hinner : inclusion.innerName = []
  · rw [hpackage, hinner]
    exact List.mem_cons_self
  · rw [hpackage, Path.join_nil_left _ hinner, Path.clean, hnil]
    split
    · simp [Path.ofParts, Text.joined]
    · simp

theorem clean_eq_iff_root {file : Text} (hpackage : inclusion.package = [])
    (hfile : IsNormal file) (hstraight : IsStraight inclusion.name) :
    Path.clean inclusion.name = file ↔
      Path.join [inclusion.package, inclusion.innerName] = file ∨
        Path.join [inclusion.package, inclusion.innerName] = Byte.slash :: file := by
  have hrelative := Path.isAbsolute_clean hstraight.1
  have hfirst := hfile.isAbsolute_eq
  by_cases hne : Path.components inclusion.name = []
  · have hplace := join_root_of_components hpackage hstraight hne
    have hhere : file ≠ Path.here := by
      rintro rfl
      exact (hfile Path.here List.mem_cons_self).2.1 rfl
    have hroot : file ≠ [Byte.slash] := by
      rintro rfl
      cases hfirst
    have hdot : Path.here ≠ Byte.slash :: file := fun h => nomatch (List.cons.inj h).1
    have hclean : Path.clean inclusion.name ≠ file := by
      rw [Path.clean_of_relative hstraight.1, hne]
      exact hhere.symm
    simp only [List.mem_cons, List.not_mem_nil, or_false] at hplace
    rcases hplace with hplace | hplace | hplace
    · simp [hplace, hclean, hfile.ne_nil.symm]
    · simp [hplace, hclean, hhere.symm, hdot]
    · simp [hplace, hclean, hroot.symm, hfile.ne_nil.symm]
  · rw [join_root hpackage hstraight hne]
    split
    · constructor
      · intro hclean
        exact .inr (by rw [hclean])
      · rintro (hsame | hsame)
        · rw [← hsame] at hfirst
          cases hfirst
        · exact List.cons.inj hsame |>.2
    · constructor
      · exact .inl
      · rintro (hsame | hsame)
        · exact hsame
        · rw [hsame] at hrelative
          cases hrelative

/-- The clean name of an include is a file of the package exactly if it leads straight to its
path. -/
theorem clean_eq_iff_place {file : Text}
    (hpackage : inclusion.package = [] ∨ IsNormal inclusion.package) (hfile : IsNormal file) :
    Path.clean inclusion.name = file ↔
      IsStraight inclusion.name ∧
        (Path.join [inclusion.package, inclusion.innerName] =
            Path.join [inclusion.package, file] ∨
          inclusion.package = [] ∧
            Path.join [inclusion.package, inclusion.innerName] = Byte.slash :: file) := by
  rw [← and_iff_right_of_imp (Path.isStraight_of_clean_eq hfile)]
  refine and_congr_right fun hstraight => ?_
  rcases hpackage with hroot | hnormal
  · rw [clean_eq_iff_root hroot hfile hstraight, hroot, hfile.join_nil_eq]
    simp
  · rw [clean_eq_iff_join hnormal hfile hstraight]
    simp [hnormal.ne_nil]

end Include

/-! ## Libraries -/

variable {repository : Repository} {settings : Settings} {package : Package} {file : Text}

/-- A library among the rules lists the file. -/
def InLibrary (rules : List Rule) (file : Text) : Prop :=
  ∃ rule ∈ rules, rule.kind = .library ∧ file ∈ rule.sources.getD []

instance (rules : List Rule) (file : Text) : Decidable (InLibrary rules file) :=
  inferInstanceAs (Decidable (∃ rule ∈ rules, _))

theorem inLibrary_generate :
    InLibrary (generate repository settings package).value file ↔
      IsLibraryFile repository settings package file := by
  rw [← mem_libraryOf, InLibrary, generate_value]
  constructor
  · rintro ⟨rule, hrule, hkind, hfile⟩
    rcases List.mem_append.mp hrule with hlibrary | hscript
    · split at hlibrary
      · cases hlibrary
      · rw [List.mem_singleton.mp hlibrary] at hfile
        exact hfile
    · obtain ⟨script, -, rfl⟩ := List.mem_map.mp hscript
      cases hkind
  · intro hfile
    rw [if_neg (List.ne_nil_of_mem hfile)]
    exact ⟨_, List.mem_append_left _ (List.mem_singleton_self _), rfl, hfile⟩

/-- The first place where a file of the package with the given name is looked for. -/
def firstPlace (settings : Settings) (package : Package) (name : Text) : Option Text :=
  (Include.candidates ⟨name, package.path⟩ settings.searchDirectories).head?

/-- Outside search directories, a library lists those sources of its package to whose path the name
of an include in another source leads straight.  In the root of the repository the name may also
lead to the file below `/`.  So if all names are straight, and none of them stands behind `.//` in
the root, then a library lists exactly the sources that are the first place of an include in
another source. -/
theorem library_lists_siblings_iff {names : List Text}
    (hsearch : settings.isSearchDirectory package.path = false)
    (hpath : package.path = [] ∨ IsNormal package.path) (hfile : IsNormal file)
    (hsource : IsSource repository settings package file names) :
    (InLibrary (generate repository settings package).value file ↔
      ∃ other mentions, IsSource repository settings package other mentions ∧ other ≠ file ∧
        ∃ name ∈ mentions, IsStraight name ∧
          (firstPlace settings package name = some (Path.join [package.path, file]) ∨
            package.path = [] ∧ firstPlace settings package name = some (Byte.slash :: file))) ∧
    ((∀ other mentions, IsSource repository settings package other mentions →
        ∀ name ∈ mentions, IsStraight name ∧
          (package.path = [] → Path.isAbsolute (Include.innerName ⟨name, package.path⟩) = false)) →
      (InLibrary (generate repository settings package).value file ↔
        ∃ other mentions, IsSource repository settings package other mentions ∧ other ≠ file ∧
          ∃ name ∈ mentions,
            firstPlace settings package name = some (Path.join [package.path, file]))) := by
  have hclean : ∀ name, Path.clean name = file ↔ IsStraight name ∧
      (firstPlace settings package name = some (Path.join [package.path, file]) ∨
        package.path = [] ∧ firstPlace settings package name = some (Byte.slash :: file)) := by
    intro name
    rw [firstPlace, Include.head?_candidates, Option.some_inj, Option.some_inj]
    exact @Include.clean_eq_iff_place ⟨name, package.path⟩ file hpath hfile
  have hlists : InLibrary (generate repository settings package).value file ↔
      ∃ other mentions, IsSource repository settings package other mentions ∧ other ≠ file ∧
        ∃ name ∈ mentions, Path.clean name = file := by
    rw [inLibrary_generate, IsLibraryFile, hsearch]
    simp only [Bool.false_eq_true, false_or]
    exact and_iff_right ⟨names, hsource⟩
  refine ⟨by simp only [hlists, hclean], ?_⟩
  intro hspelled
  rw [hlists]
  refine exists_congr fun other => exists_congr fun mentions => and_congr_right fun hother =>
    and_congr_right fun _ => exists_congr fun name => and_congr_right fun hname => ?_
  obtain ⟨hstraight, hroot⟩ := hspelled other mentions hother name hname
  rw [hclean, and_iff_right hstraight]
  refine or_iff_left ?_
  rintro ⟨hpackage, hplace⟩
  have hrelative := Path.isAbsolute_join_nil (hroot hpackage)
  rw [firstPlace, Include.head?_candidates, Option.some_inj] at hplace
  simp only [hpackage] at hplace hrelative
  rw [hplace] at hrelative
  cases hrelative

instance (names : List Text) : Decidable (IsSource repository settings package file names) :=
  inferInstanceAs (Decidable (_ ∧ _ ∧ _ ∧ _))

/-- A package `p` with the empty file `a.xs` and with the given text in `main.xs`. -/
def pair (text : Text) : Repository where
  root := bytes "/w"
  disk := {
    nodes := [
      ([bytes "w"], .directory),
      ([bytes "w", bytes "p"], .directory),
      ([bytes "w", bytes "p", bytes "a.xs"], .file []),
      ([bytes "w", bytes "p", bytes "main.xs"], .file text)]
    workingDirectory := [bytes "w"] }

theorem library_lists_siblings_iff_detour :
    IsSource (pair (bytes "#include \".//q/..//a.xs\"\n")) .empty { path := bytes "p" }
      (bytes "a.xs") [] ∧
    InLibrary (generate (pair (bytes "#include \".//q/..//a.xs\"\n")) .empty
      { path := bytes "p" }).value (bytes "a.xs") ∧
    ∃ other mentions, IsSource (pair (bytes "#include \".//q/..//a.xs\"\n")) .empty
        { path := bytes "p" } other mentions ∧ other ≠ bytes "a.xs" ∧
      ∃ name ∈ mentions,
        firstPlace .empty { path := bytes "p" } name = some (bytes "p/a.xs") := by
  have hsource : IsSource (pair (bytes "#include \".//q/..//a.xs\"\n")) .empty
      { path := bytes "p" } (bytes "a.xs") [] := by decide +kernel
  have hlisted : InLibrary (generate (pair (bytes "#include \".//q/..//a.xs\"\n")) .empty
      { path := bytes "p" }).value (bytes "a.xs") := by decide +kernel
  have hspelled : ∀ other mentions, IsSource (pair (bytes "#include \".//q/..//a.xs\"\n")) .empty
      { path := bytes "p" } other mentions → ∀ name ∈ mentions, IsStraight name ∧
        (bytes "p" = [] → Path.isAbsolute (Include.innerName ⟨name, bytes "p"⟩) = false) := by
    rintro other mentions ⟨hfile, -, -, hmentions⟩ name hname
    have hfiles : ∀ file ∈ Package.files (pair (bytes "#include \".//q/..//a.xs\"\n"))
        { path := bytes "p" }, ∀ name ∈ (mentioned? (pair (bytes "#include \".//q/..//a.xs\"\n"))
          { path := bytes "p" } file).getD [], IsStraight name := by decide +kernel
    refine ⟨hfiles other hfile name ?_, fun hroot => absurd hroot (by decide +kernel)⟩
    rwa [hmentions]
  have hiff := (library_lists_siblings_iff (by decide +kernel) (.inr (by decide +kernel))
    (by decide +kernel) hsource).2 hspelled
  exact ⟨hsource, hlisted, hiff.mp hlisted⟩

/-- A name that leaves the package and comes back leads to a file next to the including one, and
still there is no library. -/
theorem sibling_overlooked :
    IsSource (pair (bytes "#include \"../p/a.xs\"\n")) .empty { path := bytes "p" }
      (bytes "a.xs") [] ∧
    IsSource (pair (bytes "#include \"../p/a.xs\"\n")) .empty { path := bytes "p" }
      (bytes "main.xs") [bytes "../p/a.xs"] ∧
    firstPlace .empty { path := bytes "p" } (bytes "../p/a.xs") =
      some (Path.join [bytes "p", bytes "a.xs"]) ∧
    ¬InLibrary (generate (pair (bytes "#include \"../p/a.xs\"\n")) .empty
      { path := bytes "p" }).value (bytes "a.xs") := by
  decide +kernel

end XsPrep.Build
