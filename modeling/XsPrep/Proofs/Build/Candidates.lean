import XsPrep.Build.Resolve
import XsPrep.Preprocess.Session
import XsPrep.Proofs.Files.Cleaning

/-!
# Two searches for an included file

The rules of a repository are resolved by paths below its root, and the preprocessor opens files
by absolute paths.  Each has its own list of places for an include.  With the package and the
search directories in place of those of the preprocessor, the lists are the same
(`Include.candidates_eq`), and so they are with the root in front
(`Include.join_candidates`).  The places are made of names that a script may write in any form,
so this rests on how clean paths are joined (`Path.join_join`).

Each search takes the first place where it finds something.  If rules offer exactly the files
that are there, then both take the same place (`Include.searches_agree`).
-/

namespace XsPrep

/-! ## Directories -/

/-- A directory in its clean form is not absolute. -/
theorem Build.Settings.isAbsolute_cleanRelative (path : Text) :
    Path.isAbsolute (cleanRelative path) = false := by
  rw [cleanRelative]
  split
  · rfl
  · exact Path.isAbsolute_clean (Path.isAbsolute_dropWhile path)

/-- A session keeps directories below an absolute one as they are. -/
theorem Session.includeDirectories_join {root : Text} (hroot : Path.isAbsolute root = true)
    (disk : Files.Disk) (directories : List Text) (predefined : Macros) :
    (Session.new disk (directories.map fun d => Path.join [root, d])
      predefined).settings.includeDirectories = directories.map fun d => Path.join [root, d] := by
  show (directories.map fun d => Path.join [root, d]).map disk.absolute = _
  rw [List.map_map]
  refine List.map_congr_left fun d _ => ?_
  obtain ⟨whole, hjoin, habsolute, -⟩ := Path.join_of_absolute hroot d
  show Path.absolute _ (Path.join [root, d]) = Path.join [root, d]
  rw [Path.absolute, if_pos (Path.isAbsolute_join hroot d), hjoin,
    Path.clean_clean_of_absolute habsolute]

/-! ## The first place -/

/-- The preprocessor takes the first candidate that is a regular file. -/
theorem Lookup.find_of_split {disk : Files.Disk} {directory name path : Text}
    {dirs before after : List Text} {file : Files.Address × Text}
    (hcandidates : candidates directory dirs name = before ++ path :: after)
    (hbefore : ∀ p ∈ before, disk.regularFile? p = none)
    (hfile : disk.regularFile? path = some file) :
    find disk directory dirs name = .ok file := by
  have hfirst : (candidates directory dirs name).findSome? disk.regularFile? = some file := by
    rw [hcandidates, List.findSome?_append, List.findSome?_eq_none_iff.mpr hbefore,
      Option.none_or, List.findSome?_cons, hfile]
  rw [find, hfirst]

theorem Lookup.find_of_none {disk : Files.Disk} {directory name : Text} {dirs : List Text}
    (h : ∀ p ∈ candidates directory dirs name, disk.regularFile? p = none) :
    find disk directory dirs name = .error (missing directory dirs name) := by
  rw [find, List.findSome?_eq_none_iff.mpr h]

namespace Build

/-- Without an override, a place has a rule exactly if a rule offers the file. -/
theorem provider?_isSome {settings : Settings} {path : Text}
    (hoverride : settings.overrides.get? path = none) (offers : Offers) (user : Label) :
    (provider? settings offers user path).isSome = true ↔ offers.providers path ≠ [] := by
  rw [provider?, hoverride]
  dsimp only
  cases hother : (offers.providers path).find? (· ≠ user) with
  | some label =>
    have hne := List.ne_nil_of_mem (List.mem_of_find?_eq_some hother)
    simpa using hne
  | none =>
    dsimp only
    split
    · rename_i hempty
      simpa using hempty
    · rename_i hempty
      simpa using hempty

namespace Include

variable {inclusion : Include} {root : Text} {directories : List Text}

/-- The name behind the mark of a local include, or the whole name. -/
def innerName (inclusion : Include) : Text :=
  (Text.without? Lookup.localMark inclusion.name).getD inclusion.name

/-- Both searches know a local include by the same mark. -/
theorem localMark_eq : localMark = Lookup.localMark := rfl

/-- In the package, the preprocessor would try the same places. -/
theorem candidates_eq (inclusion : Include) (directories : List Text) :
    inclusion.candidates directories =
      Lookup.candidates inclusion.package directories inclusion.name := by
  rw [candidates, Lookup.candidates, localMark_eq]
  cases Text.without? Lookup.localMark inclusion.name with
  | some inner => rfl
  | none => rw [List.map_cons]

/-- The places below the root are the places that the preprocessor tries. -/
theorem join_candidates (hroot : Path.isAbsolute root = true)
    (hpackage : Path.isAbsolute inclusion.package = false)
    (hdirectories : ∀ d ∈ directories, Path.isAbsolute d = false)
    (hname : Path.isAbsolute inclusion.innerName = false) :
    (inclusion.candidates directories).map (fun path => Path.join [root, path]) =
      Lookup.candidates (Path.join [root, inclusion.package])
        (directories.map fun d => Path.join [root, d]) inclusion.name := by
  rw [innerName] at hname
  rw [candidates_eq, Lookup.candidates, Lookup.candidates]
  cases hlocal : Text.without? Lookup.localMark inclusion.name with
  | some inner =>
    rw [hlocal, Option.getD_some] at hname
    dsimp only
    rw [List.map_singleton, Path.join_join hroot hpackage hname]
  | none =>
    rw [hlocal] at hname
    dsimp only
    rw [← List.map_cons (f := fun d => Path.join [root, d]), List.map_map, List.map_map]
    refine List.map_congr_left fun d hd => ?_
    rcases List.mem_cons.mp hd with rfl | hd
    · exact Path.join_join hroot hpackage hname
    · exact Path.join_join hroot (hdirectories d hd) hname

/-- Resolution takes the first place with a rule. -/
theorem resolve_of_split {settings : Settings} {offers : Offers} {user label : Label}
    {path : Text} {before after : List Text}
    (hcandidates : inclusion.candidates settings.searchDirectories = before ++ path :: after)
    (hbefore : ∀ p ∈ before, provider? settings offers user p = none)
    (hlabel : provider? settings offers user path = some label) :
    inclusion.resolve settings offers user = pure (some label) := by
  rw [resolve, hcandidates, List.findSome?_append, List.findSome?_eq_none_iff.mpr hbefore,
    Option.none_or, List.findSome?_cons, hlabel]

theorem resolve_of_none {settings : Settings} {offers : Offers} {user : Label}
    (h : ∀ p ∈ inclusion.candidates settings.searchDirectories,
      provider? settings offers user p = none) :
    inclusion.resolve settings offers user = lookupIndexes settings.indexes inclusion user := by
  rw [resolve, List.findSome?_eq_none_iff.mpr h]

/-- Both searches settle on the same place, or on none.  `result` is what the preprocessor
finds. -/
inductive SettleAlike (inclusion : Include) (settings : Settings) (offers : Offers) (user : Label)
    (disk : Files.Disk) (root : Text) (result : Except Problem (Files.Address × Text)) : Prop where
  /-- A rule offers the file at `path`, the file is there, and no earlier place has either. -/
  | found (before after : List Text) (path : Text) (label : Label) (file : Files.Address × Text)
      (hcandidates : inclusion.candidates settings.searchDirectories = before ++ path :: after)
      (hbefore : ∀ p ∈ before, provider? settings offers user p = none ∧
        disk.regularFile? (Path.join [root, p]) = none)
      (hlabel : provider? settings offers user path = some label)
      (hresolve : inclusion.resolve settings offers user = pure (some label))
      (hfile : disk.regularFile? (Path.join [root, path]) = some file)
      (hresult : result = .ok file)
  /-- No place has a rule or a file. -/
  | nowhere (problem : Problem)
      (hnone : ∀ p ∈ inclusion.candidates settings.searchDirectories,
        provider? settings offers user p = none ∧ disk.regularFile? (Path.join [root, p]) = none)
      (hresolve : inclusion.resolve settings offers user =
        lookupIndexes settings.indexes inclusion user)
      (hresult : result = .error problem)

/-- If rules offer exactly the files that are there, then both searches settle alike. -/
theorem settleAlike_of_offered {settings : Settings} {offers : Offers} {disk : Files.Disk}
    {directory : Text} {dirs : List Text}
    (hcandidates : (inclusion.candidates settings.searchDirectories).map
      (fun path => Path.join [root, path]) = Lookup.candidates directory dirs inclusion.name)
    (hoverrides : ∀ path, settings.overrides.get? path = none)
    (hoffered : ∀ path ∈ inclusion.candidates settings.searchDirectories,
      offers.providers path ≠ [] ↔ (disk.regularFile? (Path.join [root, path])).isSome = true)
    (user : Label) :
    SettleAlike inclusion settings offers user disk root
      (Lookup.find disk directory dirs inclusion.name) := by
  -- A place without a rule is one without a file.
  have hboth : ∀ path ∈ inclusion.candidates settings.searchDirectories,
      provider? settings offers user path = none →
        disk.regularFile? (Path.join [root, path]) = none := by
    intro path hpath hnone
    have hrule := provider?_isSome (hoverrides path) offers user
    rw [hoffered path hpath, hnone] at hrule
    simpa using hrule
  cases hfirst : (inclusion.candidates settings.searchDirectories).findSome?
      (provider? settings offers user) with
  | none =>
    have hnone := List.findSome?_eq_none_iff.mp hfirst
    refine .nowhere _ (fun p hp => ⟨hnone p hp, hboth p hp (hnone p hp)⟩) (resolve_of_none hnone)
      (Lookup.find_of_none ?_)
    rw [← hcandidates]
    refine List.forall_mem_map.mpr fun p hp => hboth p hp (hnone p hp)
  | some label =>
    obtain ⟨before, path, after, hsplit, hlabel, hbefore⟩ := List.findSome?_eq_some_iff.mp hfirst
    have hearlier : ∀ p ∈ before, disk.regularFile? (Path.join [root, p]) = none := by
      intro p hp
      exact hboth p (hsplit ▸ List.mem_append_left _ hp) (hbefore p hp)
    have hmem : path ∈ inclusion.candidates settings.searchDirectories := by
      rw [hsplit]
      exact List.mem_append_right _ List.mem_cons_self
    have hsome := (provider?_isSome (hoverrides path) offers user).mp (by rw [hlabel]; rfl)
    obtain ⟨file, hfile⟩ := Option.isSome_iff_exists.mp ((hoffered path hmem).mp hsome)
    refine .found before after path label file hsplit (fun p hp => ⟨hbefore p hp, hearlier p hp⟩)
      hlabel (resolve_of_split hsplit hbefore hlabel) hfile ?_
    rw [hsplit, List.map_append, List.map_cons] at hcandidates
    exact Lookup.find_of_split hcandidates.symm (List.forall_mem_map.mpr hearlier) hfile

/-- Resolution and preprocessing search the same places in the same order: the root of the
repository in front of the places for an include gives the candidates of the preprocessor, for
any package and any clean search directories below the root, and for any name that does not
start at the root.  So without overrides, and with rules for exactly those of these places that
are regular files, both settle on the same place. -/
theorem searches_agree (hroot : Path.isAbsolute root = true)
    (hpackage : Path.isAbsolute inclusion.package = false)
    (hdirectories : ∀ d ∈ directories, Settings.cleanRelative d = d)
    (hname : Path.isAbsolute inclusion.innerName = false) :
    (inclusion.candidates directories).map (fun path => Path.join [root, path]) =
      Lookup.candidates (Path.join [root, inclusion.package])
        (directories.map fun d => Path.join [root, d]) inclusion.name ∧
    ∀ (settings : Settings) (offers : Offers) (user : Label) (disk : Files.Disk)
      (predefined : Macros) (including : Files.Address),
      settings.searchDirectories = directories →
      (∀ path, settings.overrides.get? path = none) →
      Path.directory including.path = Path.join [root, inclusion.package] →
      (∀ path ∈ inclusion.candidates directories,
        offers.providers path ≠ [] ↔
          (disk.regularFile? (Path.join [root, path])).isSome = true) →
      SettleAlike inclusion settings offers user disk root
        (Lookup.find disk (Path.directory including.path)
          (Session.new disk (directories.map fun d => Path.join [root, d])
            predefined).settings.includeDirectories inclusion.name) := by
  have hcandidates := join_candidates hroot hpackage
    (fun d hd => hdirectories d hd ▸ Settings.isAbsolute_cleanRelative d) hname
  refine ⟨hcandidates, ?_⟩
  rintro settings offers user disk predefined including rfl hoverrides hincluding hoffered
  rw [Session.includeDirectories_join hroot, hincluding]
  exact settleAlike_of_offered hcandidates hoverrides hoffered user

/-- A repository at `/r` with a package, a search directory and a file next to both. -/
def crossroads : Files.Disk where
  nodes := [
    ([bytes "r"], .directory),
    ([bytes "r", bytes "p"], .directory),
    ([bytes "r", bytes "p", bytes "q"], .directory),
    ([bytes "r", bytes "p", bytes "q", bytes "main.xs"],
      .file (bytes "#include \"..//x/./b.xs\"\n")),
    ([bytes "r", bytes "lib"], .directory),
    ([bytes "r", bytes "x"], .directory),
    ([bytes "r", bytes "x", bytes "b.xs"], .file [])]
  workingDirectory := []

theorem searches_agree_crossroads :
    (candidates ⟨bytes "..//x/./b.xs", bytes "p/q"⟩ [bytes "lib"]).map
        (fun path => Path.join [bytes "/r", path]) = [bytes "/r/p/x/b.xs", bytes "/r/x/b.xs"] ∧
    SettleAlike ⟨bytes "..//x/./b.xs", bytes "p/q"⟩
      { Settings.empty with includeDirectories := [bytes "lib"] }
      [(⟨[], bytes "x", bytes "x", false, false⟩, [bytes "x/b.xs"])] default crossroads (bytes "/r")
      (.ok ([bytes "r", bytes "x", bytes "b.xs"], [])) := by
  have hpackage : Path.isAbsolute
      (Include.package ⟨bytes "..//x/./b.xs", bytes "p/q"⟩) = false := by decide +kernel
  have hdirectories : ∀ d ∈ [bytes "lib"], Settings.cleanRelative d = d := by decide +kernel
  have hname : Path.isAbsolute (innerName ⟨bytes "..//x/./b.xs", bytes "p/q"⟩) = false := by
    decide +kernel
  have hroot : Path.isAbsolute (bytes "/r") = true := by decide +kernel
  obtain ⟨-, hsettle⟩ := searches_agree hroot hpackage hdirectories hname
  have hresult := hsettle { Settings.empty with includeDirectories := [bytes "lib"] }
    [(⟨[], bytes "x", bytes "x", false, false⟩, [bytes "x/b.xs"])] default crossroads .empty
    [bytes "r", bytes "p", bytes "q", bytes "main.xs"] rfl (fun _ => rfl) (by decide +kernel)
    (by decide +kernel)
  have hfind : Lookup.find crossroads (Path.directory
      (Files.Address.path [bytes "r", bytes "p", bytes "q", bytes "main.xs"]))
      (Session.new crossroads ([bytes "lib"].map fun d => Path.join [bytes "/r", d])
        .empty).settings.includeDirectories (bytes "..//x/./b.xs") =
      .ok ([bytes "r", bytes "x", bytes "b.xs"], []) := by decide +kernel
  rw [hfind] at hresult
  exact ⟨by decide +kernel, hresult⟩

end Include

end Build

end XsPrep
