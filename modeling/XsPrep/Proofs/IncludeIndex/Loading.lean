import XsPrep.Proofs.IncludeIndex.Library
import XsPrep.Proofs.IncludeIndex.Storage

/-!
# Which indexes of libraries can be loaded

Storing an index writes the labels of its targets without a look at them, and loading it reads them
as labels.  So a stored index is loaded as the same index exactly if each of its labels is read back
(`load_eq_ok_iff`).

The label of a target leaves out the name if it is that of the package.  It is read back if its
package has only bytes that packages can have (`Label.parse_package_iff`).  In the directory of the
library itself there is no package, and then the one name that is left out is `.`
(`Label.parse_root_iff`).  Directories can have other names, so not every library has an index that
can be loaded (`library_loads_iff`, `library_fails_to_load`).
-/

namespace XsPrep

/-- A text is found where it first stands, and its first byte not before. -/
theorem Text.find?_append {c : UInt8} {before : Text} (h : c ∉ before) (more rest : Text) :
    Text.find? (c :: more) (before ++ (c :: more) ++ rest) = some before.length := by
  have hgo : ∀ n, Text.find?.go (c :: more) n (before ++ (c :: more) ++ rest) =
      some (n + before.length) := by
    induction before with
    | nil =>
      intro n
      have hbegins : (c :: more).isPrefixOf (c :: (more ++ rest)) = true :=
        List.isPrefixOf_iff_prefix.mpr ⟨rest, rfl⟩
      show Text.find?.go (c :: more) n (c :: (more ++ rest)) = _
      rw [find?.go, if_pos hbegins]
      rfl
    | cons b before ih =>
      intro n
      rw [List.mem_cons, not_or] at h
      have hbegins : ¬(c :: more).isPrefixOf (b :: (before ++ (c :: more) ++ rest)) = true := by
        rw [List.isPrefixOf_iff_prefix, List.cons_prefix_cons]
        exact fun hb => h.1 hb.1
      show Text.find?.go (c :: more) n (b :: (before ++ (c :: more) ++ rest)) = _
      rw [find?.go, if_neg hbegins, ih h.2, List.length_cons]
      exact congrArg some (by omega)
  have hzero := hgo 0
  rwa [Nat.zero_add] at hzero

namespace Label

/-! ## Reading a label behind its repository -/

/-- What reading a label makes of what it reads behind the repository. -/
def result (t : Text) : Except Fault Label → Except ParseError Label
  | .ok label => .ok label
  | .error fault => .error ⟨fault, t⟩

theorem result_eq_ok_iff {t : Text} {r : Except Fault Label} {label : Label} :
    result t r = .ok label ↔ r = .ok label := by
  cases r <;> simp [result]

theorem parse_of_local {t : Text} (h : Text.startsWith repositoryMark t = false) :
    parse t = result t (parseLocal none false t) := by
  have hcanonical : Text.startsWith (bytes "@@") t = false := by
    rw [Bool.eq_false_iff] at h ⊢
    intro hmarks
    have hbegins : repositoryMark <+: bytes "@@" := by decide +kernel
    exact h (List.isPrefixOf_iff_prefix.mpr
      (hbegins.trans (List.isPrefixOf_iff_prefix.mp hmarks)))
  rw [parse, hcanonical]
  dsimp only
  rw [if_neg Bool.false_ne_true, h, if_neg Bool.false_ne_true]
  rfl

theorem parse_of_repository {t repository rest : Text}
    (hcanonical : Text.startsWith (bytes "@@") t = false)
    (hmark : Text.startsWith repositoryMark t = true)
    (hsplit : splitRepository t = (repository, rest)) (h : isRepository repository = true) :
    parse t = result t (parseLocal (some repository) false rest) := by
  rw [parse, hcanonical]
  dsimp only
  rw [if_neg Bool.false_ne_true, hmark, if_pos rfl, hsplit]
  dsimp only
  rw [if_pos h]
  rfl

/-- The repository of a label as it is read. -/
def repositoryRead (repository : Text) : Option Text :=
  if repository = [] then none else some repository

/-- A repository, the mark of a package and what follows. -/
def written (repository rest : Text) : Text :=
  repositoryText ⟨repository, [], [], false, false⟩ ++ packageMark ++ rest

theorem repositoryText_eq (repository : Text) :
    repositoryText ⟨repository, [], [], false, false⟩ =
      if repository = [] ∨ repository = repositoryMark then repository
      else repositoryMark ++ repository := by
  simp [repositoryText]

theorem parse_written {repository : Text} (h : isRepository repository = true) (rest : Text) :
    parse (written repository rest) = result (written repository rest)
      (parseLocal (repositoryRead repository) false (packageMark ++ rest)) := by
  have hat : repositoryMark = [0x40] := rfl
  have hslashes : packageMark = [Byte.slash, Byte.slash] := rfl
  rw [written, repositoryText_eq]
  by_cases hempty : repository = []
  · subst hempty
    rw [if_pos (.inl rfl), repositoryRead, if_pos rfl, List.nil_append]
    exact parse_of_local rfl
  rw [repositoryRead, if_neg hempty]
  by_cases hmain : repository = repositoryMark
  · subst hmain
    rw [if_pos (.inr rfl)]
    exact parse_of_repository rfl rfl rfl h
  · -- A name has neither the mark of a repository nor a slash.
    have hbytes : ∀ b ∈ repository, isRepositoryByte b = true := by
      rw [isRepository, Bool.or_eq_true, decide_eq_true_eq] at h
      exact List.all_eq_true.mp (h.resolve_left hmain)
    obtain ⟨b, name, rfl⟩ := List.exists_cons_of_ne_nil hempty
    have hb : b ≠ 0x40 := by
      rintro rfl
      cases hbytes _ List.mem_cons_self
    have hslash : Byte.slash ∉ repositoryMark ++ b :: name := by
      intro hmem
      rcases List.mem_append.mp hmem with hmem | hmem
      · revert hmem
        decide
      · cases hbytes _ hmem
    have hfind := Text.find?_append hslash [Byte.slash] rest
    rw [← hslashes] at hfind
    rw [if_neg (not_or.mpr ⟨hempty, hmain⟩)]
    refine parse_of_repository ?_ rfl ?_ h
    · rw [Bool.eq_false_iff]
      intro hcanonical
      have hbegins : [0x40, 0x40] <+: 0x40 :: b :: (name ++ packageMark ++ rest) :=
        List.isPrefixOf_iff_prefix.mp hcanonical
      rw [List.cons_prefix_cons, List.cons_prefix_cons] at hbegins
      exact hb hbegins.2.1.symm
    · rw [splitRepository, hfind]
      show ((List.take (repositoryMark ++ b :: name).length _).drop 1,
        List.drop (repositoryMark ++ b :: name).length _) = _
      rw [List.append_assoc, List.take_left, List.drop_left]
      rfl

theorem splitPackage_mark {rest package : Text} {name : Option Text}
    (h : rest.cut Byte.colon = (package, name)) :
    splitPackage (packageMark ++ rest) = (some package, name.elim [] (Byte.colon :: ·)) := by
  have hbegins : packageMark.isPrefixOf (packageMark ++ rest) = true :=
    List.isPrefixOf_iff_prefix.mpr (List.prefix_append _ _)
  rw [splitPackage, Text.without?, if_pos hbegins]
  dsimp only
  rw [List.drop_left, h]
  cases name <;> rfl

theorem colon_notMem {t : Text} (h : t.all isNameByte = true) : Byte.colon ∉ t := by
  intro hmem
  cases List.all_eq_true.mp h _ hmem

/-- What is read has a package that a package can be. -/
theorem all_isNameByte_package {repository : Option Text} {isCanonical : Bool} {t : Text}
    {label : Label} (h : parseLocal repository isCanonical t = .ok label) :
    label.package.all isNameByte = true := by
  rw [parseLocal] at h
  dsimp only at h
  split at h
  · cases h
  · rename_i hpackage
    split at h
    · cases h
    split at h
    · cases h
    split at h
    · cases h
    · cases h
      simpa using hpackage

theorem getD_repositoryRead (repository : Text) :
    (repositoryRead repository).getD [] = repository := by
  rw [repositoryRead]
  split
  · rename_i hempty
    rw [hempty]
    rfl
  · rfl

/-! ## Labels of libraries -/

theorem text_package (repository package : Text) :
    text ⟨repository, package, Path.base package, false, false⟩ = written repository package := by
  simp [text, written, repositoryText]

theorem text_root (repository : Text) {name : Text} (h : name ≠ Path.here) :
    text ⟨repository, [], name, false, false⟩ = written repository (Byte.colon :: name) := by
  have hbase : Path.base [] ≠ name := fun hname => h (hname.symm.trans rfl)
  simp [text, written, repositoryText, hbase]
  rfl

/-- A label with the name of its package is read back if the package is one that can be read. -/
theorem parse_package_iff {repository package : Text} (h : isRepository repository = true)
    (hne : package ≠ []) :
    parse (text ⟨repository, package, Path.base package, false, false⟩) =
        .ok ⟨repository, package, Path.base package, false, false⟩ ↔
      package.all isNameByte = true := by
  rw [text_package, parse_written h, result_eq_ok_iff]
  constructor
  · exact fun hread => all_isNameByte_package hread
  · intro hpackage
    rw [parseLocal, splitPackage_mark (Text.cut_of_notMem (colon_notMem hpackage))]
    simp [Text.without?, hpackage, hne, getD_repositoryRead]

/-- A label without a package is read back unless its name is left out. -/
theorem parse_root_iff {repository name : Text} (h : isRepository repository = true)
    (hne : name ≠ []) (hname : name.all isNameByte = true) :
    parse (text ⟨repository, [], name, false, false⟩) =
        .ok ⟨repository, [], name, false, false⟩ ↔ name ≠ Path.here := by
  by_cases hhere : name = Path.here
  · have hbase : Path.base [] = Path.here := rfl
    rw [hhere, ← hbase, text_package, parse_written h, result_eq_ok_iff]
    refine iff_of_false ?_ (not_not_intro rfl)
    intro hread
    rw [parseLocal, splitPackage_mark (Text.cut_of_notMem List.not_mem_nil)] at hread
    cases hread
  · rw [text_root repository hhere, parse_written h, result_eq_ok_iff]
    refine iff_of_true ?_ hhere
    have hcut : Text.cut Byte.colon (Byte.colon :: name) = ([], some name) :=
      Text.cut_append List.not_mem_nil name
    rw [parseLocal, splitPackage_mark hcut]
    simp [Text.without?, hname, hne, getD_repositoryRead]

theorem isValid_text {label : Label} (hrepository : label.repository.IsValid)
    (hpackage : label.package.IsValid) (hname : label.name.IsValid) : label.text.IsValid := by
  have hat : Text.IsValid repositoryMark := .of_ascii (by decide +kernel)
  have hslashes : Text.IsValid packageMark := .of_ascii (by decide +kernel)
  have hcolon : Text.IsValid (bytes ":") := .of_ascii (by decide +kernel)
  have hwritten : label.repositoryText.IsValid := by
    rw [repositoryText]
    split <;> split
    · exact hat.append hrepository
    · exact hrepository
    · exact hat.append (hat.append hrepository)
    · exact hat.append hrepository
  rw [text]
  split
  · exact hcolon.append hname
  · refine ((hwritten.append hslashes).append hpackage).append ?_
    split
    · exact .nil
    · exact hcolon.append hname

end Label

namespace IncludeIndex

open Files (Address Disk)
open Path (IsName ofParts)

/-! ## Which indexes are loaded -/

section Stored

open Document (Value)

variable {index : IncludeIndex}

theorem readLabel_eq_ok_iff {label : Label} :
    readLabel (.string label.text) = .ok (some label) ↔ Label.parse label.text = .ok label := by
  rw [readLabel]
  cases Label.parse label.text <;> simp

theorem parse_of_readTargets {labels : List Label}
    (h : readTargets (.array ((labels.map Label.text).map .string)) = .ok (some labels)) :
    ∀ label ∈ labels, Label.parse label.text = .ok label := by
  rw [readTargets] at h
  obtain ⟨read, hread, h⟩ := bind_eq_ok_iff.mp h
  rw [mapM_id_eq_some_iff.mp (Except.ok.inj h), mapM_eq_ok_iff, List.map_map,
    List.forall₂_map_left_iff, List.forall₂_map_right_iff, List.forall₂_same] at hread
  exact fun label hlabel => readLabel_eq_ok_iff.mp (hread label hlabel)

/-- An index whose value is read as the index has labels that are read back. -/
theorem readsLabels_of_readValue (h : readValue index.value = .ok index) : index.ReadsLabels := by
  rw [value, readValue] at h
  obtain ⟨read, hread, h⟩ := bind_eq_ok_iff.mp h
  cases hentries : read.mapM id with
  | none =>
    rw [hentries] at h
    cases h
  | some entries =>
    rw [hentries] at h
    rw [mapM_id_eq_some_iff.mp hentries, mapM_eq_ok_iff, written, List.map_map,
      List.forall₂_map_left_iff, List.forall₂_map_right_iff] at hread
    have hmembers : List.Forall₂ (fun e e' => e.1 = e'.1 ∧
        readTargets (.array ((e.2.map Label.text).map .string)) = .ok (some e'.2))
        index.entries entries := by
      refine hread.imp fun e e' hmember => ?_
      obtain ⟨targets?, htargets, hmember⟩ := bind_eq_ok_iff.mp hmember
      obtain ⟨targets, rfl, rfl⟩ := Option.map_eq_some_iff.mp (Except.ok.inj hmember)
      exact ⟨rfl, htargets⟩
    -- The keys are those of the index, so the entries are, too.
    have hkeys : List.Forall₂ Eq index.keys (entries.map Prod.fst) :=
      List.forall₂_map_left_iff.mpr
        (List.forall₂_map_right_iff.mpr (hmembers.imp fun _ _ => And.left))
    rw [List.forall₂_eq_eq_eq] at hkeys
    have hsame := Table.entries_ofList (Table.ascending_of_keys hkeys.symm)
    rw [Except.ok.inj h] at hsame
    rw [← hsame, List.forall₂_same] at hmembers
    exact fun entry hentry => parse_of_readTargets (hmembers entry hentry).2

/-- A stored index is loaded as the same index exactly if its labels are read back. -/
theorem load_eq_ok_iff {disk disk' : Disk} {path : Text} (hvalid : index.IsValid)
    (hwrite : disk.write path index.indented = .ok disk') :
    load disk' path = .ok index ↔ index.ReadsLabels := by
  rw [load, Disk.read_of_write hwrite]
  dsimp only
  constructor
  · intro h
    split at h
    · rename_i loaded hread
      obtain rfl : loaded = index := Except.ok.inj h
      rw [read, Value.parse?_of_spells (spells_indented hvalid) loaded.tells_tokens (by decide)]
        at hread
      exact readsLabels_of_readValue hread
    · cases h
  · intro h
    rw [read_of_spells (spells_indented hvalid) h]

end Stored

/-! ## Libraries -/

variable {disk : Disk} {root repository rootTarget path : Text} {base : Address}
  {names : List Text} {name : Text}

theorem mem_entries_ofLibrary {targets : List Label} :
    (path, targets) ∈ (ofLibrary disk root repository rootTarget).entries ↔
      path ∈ (ofLibrary disk root repository rootTarget).keys ∧
        targets = [libraryTarget repository rootTarget path] := by
  constructor
  · intro h
    have hkey : path ∈ (ofLibrary disk root repository rootTarget).keys := List.mem_map_of_mem h
    have hget := Table.get?_of_mem h
    rw [get?_ofLibrary, if_pos (mem_keys_ofLibrary.mp hkey)] at hget
    exact ⟨hkey, (Option.some.inj hget).symm⟩
  · rintro ⟨hkey, rfl⟩
    refine Table.mem_of_find? ?_
    exact get?_ofLibrary.trans (if_pos (mem_keys_ofLibrary.mp hkey))

theorem readsLabels_ofLibrary_iff :
    (ofLibrary disk root repository rootTarget).ReadsLabels ↔
      ∀ path ∈ (ofLibrary disk root repository rootTarget).keys,
        Label.parse (libraryTarget repository rootTarget path).text =
          .ok (libraryTarget repository rootTarget path) := by
  constructor
  · intro h path hpath
    exact h _ (mem_entries_ofLibrary.mpr ⟨hpath, rfl⟩) _ (List.mem_singleton_self _)
  · intro h entry hentry label hlabel
    obtain ⟨hpath, htargets⟩ := mem_entries_ofLibrary.mp hentry
    rw [htargets] at hlabel
    obtain rfl := List.mem_singleton.mp hlabel
    exact h _ hpath

/-- The target of a file is read back if the names of its directories can be read, and if a target
of the library itself has a name that is written. -/
theorem parse_libraryTarget_iff (hrepository : Label.isRepository repository = true)
    (hne : rootTarget ≠ []) (htarget : rootTarget.all Label.isNameByte = true)
    (hnames : Address.Proper names) (hname : IsName name) :
    Label.parse (libraryTarget repository rootTarget (ofParts (names ++ [name]))).text =
        .ok (libraryTarget repository rootTarget (ofParts (names ++ [name]))) ↔
      (packageOf (ofParts (names ++ [name]))).all Label.isNameByte = true ∧
        (packageOf (ofParts (names ++ [name])) = [] → rootTarget ≠ Path.here) := by
  rw [libraryTarget_ofParts hnames hname, packageOf_ofParts hnames hname]
  by_cases hempty : names = []
  · subst hempty
    have hroot := Label.parse_root_iff hrepository hne htarget
    have hpackage : ofParts [] = [] := rfl
    simpa [hpackage] using hroot
  · have hpackage := Path.ofParts_ne_nil hnames hempty
    rw [if_neg hempty, Label.parse_package_iff hrepository hpackage]
    simp [hpackage]

theorem isValid_libraryTarget (hrepository : Label.isRepository repository = true)
    (htarget : rootTarget.all Label.isNameByte = true) (hnames : Address.Proper names)
    (hname : IsName name) (hvalid : ∀ n ∈ names, Text.IsValid n) :
    (libraryTarget repository rootTarget (ofParts (names ++ [name]))).text.IsValid := by
  rw [libraryTarget_ofParts hnames hname]
  refine Label.isValid_text (.of_ascii (Label.ascii_of_isRepository hrepository))
    (Glob.isValid_ofParts hvalid) ?_
  rcases List.eq_nil_or_concat' names with rfl | ⟨front, last, rfl⟩
  · exact .of_ascii fun b hb => Label.ascii_of_isNameByte (List.all_eq_true.mp htarget b hb)
  · have hlast : last ∈ front ++ [last] := by simp
    rw [if_neg (by simp), Path.base_ofParts (hnames last hlast)]
    exact hvalid last hlast

theorem isValid_ofLibrary (hdisk : disk.WellFormed) (h : disk.LeadsTo root base)
    (hvalid : Glob.HasValidNames disk root) (hrepository : Label.isRepository repository = true)
    (htarget : rootTarget.all Label.isNameByte = true) :
    (ofLibrary disk root repository rootTarget).IsValid := by
  intro member hmember
  obtain ⟨⟨path, targets⟩, hentry, rfl⟩ := List.mem_map.mp hmember
  obtain ⟨hpath, rfl⟩ := mem_entries_ofLibrary.mp hentry
  obtain ⟨names, name, hproper, hnames, rfl⟩ :=
    Glob.exists_names_of_mem hdisk h hvalid (mem_keys_ofLibrary.mp hpath).1
  obtain ⟨hproper, hname⟩ := Path.proper_concat_iff.mp hproper
  refine ⟨Glob.isValid_ofParts hnames, fun text htext => ?_⟩
  obtain rfl := List.mem_singleton.mp htext
  exact isValid_libraryTarget hrepository htarget hproper hname
    fun n hn => hnames n (List.mem_append_left _ hn)

/-- The index of a library can be stored.  It is loaded as the same index exactly if all
directories with listed files have names that labels can have, and if the target of the library
itself, where it is needed, is not named `.`. -/
theorem library_loads_iff {disk : Disk} {directory repository rootTarget path : Text}
    {base : Address} (hdisk : disk.WellFormed)
    (hbase : disk.address (disk.absolute directory) = .ok base)
    (hdirectory : disk.node? base = some .directory)
    (hvalid : Glob.HasValidNames disk (disk.absolute directory))
    (hrepository : Label.isRepository repository = true) (hne : rootTarget ≠ [])
    (htarget : rootTarget.all Label.isNameByte = true) (hwritable : disk.IsWritable path) :
    ∃ disk', (ofLibrary disk (disk.absolute directory) repository rootTarget).store disk path =
        .ok disk' ∧
      (load disk' path = .ok (ofLibrary disk (disk.absolute directory) repository rootTarget) ↔
        ∀ file ∈ (ofLibrary disk (disk.absolute directory) repository rootTarget).keys,
          (packageOf file).all Label.isNameByte = true ∧
            (packageOf file = [] → rootTarget ≠ Path.here)) := by
  have hleads := Disk.leadsTo_absolute hbase hdirectory
  have hindex := isValid_ofLibrary hdisk hleads hvalid hrepository htarget
  obtain ⟨disk', hwrite⟩ := hwritable.write
    (ofLibrary disk (disk.absolute directory) repository rootTarget).indented
  refine ⟨disk', by rw [store, hwrite], ?_⟩
  rw [load_eq_ok_iff hindex hwrite, readsLabels_ofLibrary_iff]
  refine forall₂_congr fun file hfile => ?_
  obtain ⟨names, name, hproper, -, rfl⟩ :=
    Glob.exists_names_of_mem hdisk hleads hvalid (mem_keys_ofLibrary.mp hfile).1
  obtain ⟨hnames, hname⟩ := Path.proper_concat_iff.mp hproper
  exact parse_libraryTarget_iff hrepository hne htarget hnames hname

theorem hasValidNames_of_nodes (hdisk : disk.WellFormed)
    (h : ∀ e ∈ disk.nodes, ∀ name ∈ e.1, Text.IsValid name) (root : Text) :
    Glob.HasValidNames disk root := by
  intro names address _ _ entry hentry
  exact h _ (hdisk.mem_entries.mp hentry) entry.1 (by simp)

theorem library_loads_iff_nested :
    (nested.WellFormed ∧
      nested.address (nested.absolute (bytes "lib")) = .ok [bytes "w", bytes "lib"] ∧
      nested.node? [bytes "w", bytes "lib"] = some .directory ∧
      Glob.HasValidNames nested (nested.absolute (bytes "lib")) ∧
      Label.isRepository (bytes "r") = true ∧ bytes "lib" ≠ [] ∧
      (bytes "lib").all Label.isNameByte = true ∧ nested.IsWritable (bytes "i.json")) ∧
    ∃ disk', (ofLibrary nested (nested.absolute (bytes "lib")) (bytes "r") (bytes "lib")).store
        nested (bytes "i.json") = .ok disk' ∧
      load disk' (bytes "i.json") =
        .ok (ofLibrary nested (nested.absolute (bytes "lib")) (bytes "r") (bytes "lib")) := by
  have hdisk : nested.WellFormed := by decide +kernel
  have hbase : nested.address (nested.absolute (bytes "lib")) = .ok [bytes "w", bytes "lib"] := by
    decide +kernel
  have hdirectory : nested.node? [bytes "w", bytes "lib"] = some .directory := by decide +kernel
  have hascii : ∀ e ∈ nested.nodes, ∀ name ∈ e.1, ∀ b ∈ name, b < 0x80 := by decide +kernel
  have hvalid := hasValidNames_of_nodes hdisk
    (fun e he name hname => .of_ascii (hascii e he name hname)) (nested.absolute (bytes "lib"))
  have hrepository : Label.isRepository (bytes "r") = true := by decide +kernel
  have hne : bytes "lib" ≠ [] := by decide +kernel
  have htarget : (bytes "lib").all Label.isNameByte = true := by decide +kernel
  have hwritable : nested.IsWritable (bytes "i.json") := ⟨[], _, rfl⟩
  refine ⟨⟨hdisk, hbase, hdirectory, hvalid, hrepository, hne, htarget, hwritable⟩, ?_⟩
  obtain ⟨disk', hstore, hload⟩ :=
    library_loads_iff hdisk hbase hdirectory hvalid hrepository hne htarget hwritable
  exact ⟨disk', hstore, hload.mpr (by decide +kernel)⟩

/-- A library with a directory whose name no package can have. -/
def umlaut : Disk where
  workingDirectory := [bytes "w"]
  nodes := [([bytes "w"], .directory), ([bytes "w", bytes "lib"], .directory),
    ([bytes "w", bytes "lib", bytes "ü"], .directory),
    ([bytes "w", bytes "lib", bytes "ü", bytes "f.xs"], .file [])]

/-- The index of a library with such a directory is stored, but what is stored is no index. -/
theorem library_fails_to_load :
    (umlaut.WellFormed ∧
      umlaut.address (umlaut.absolute (bytes "lib")) = .ok [bytes "w", bytes "lib"] ∧
      umlaut.node? [bytes "w", bytes "lib"] = some .directory ∧
      Glob.HasValidNames umlaut (umlaut.absolute (bytes "lib")) ∧
      Label.isRepository (bytes "r") = true ∧ bytes "lib" ≠ [] ∧
      (bytes "lib").all Label.isNameByte = true ∧ umlaut.IsWritable (bytes "i.json")) ∧
    ∃ disk', (ofLibrary umlaut (umlaut.absolute (bytes "lib")) (bytes "r") (bytes "lib")).store
        umlaut (bytes "i.json") = .ok disk' ∧
      load disk' (bytes "i.json") =
        .error (.unusable (bytes "i.json") (.badLabel ⟨.package, bytes "@r//ü"⟩)) := by
  have hdisk : umlaut.WellFormed := by decide +kernel
  have hvalid : ∀ e ∈ umlaut.nodes, ∀ name ∈ e.1, Text.IsValid name := by
    have hletter : Text.IsValid (bytes "ü") := ⟨[0xFC], by decide, by decide +kernel⟩
    have hnames : ∀ e ∈ umlaut.nodes, ∀ name ∈ e.1, name = bytes "ü" ∨ ∀ b ∈ name, b < 0x80 := by
      decide +kernel
    intro e he name hname
    rcases hnames e he name hname with rfl | hascii
    · exact hletter
    · exact .of_ascii hascii
  have hwritable : umlaut.IsWritable (bytes "i.json") := ⟨[], _, rfl⟩
  refine ⟨⟨hdisk, by decide +kernel, by decide +kernel, hasValidNames_of_nodes hdisk hvalid _,
    by decide +kernel, by decide +kernel, by decide +kernel, hwritable⟩, ?_⟩
  obtain ⟨disk', hwrite⟩ := hwritable.write
    (ofLibrary umlaut (umlaut.absolute (bytes "lib")) (bytes "r") (bytes "lib")).indented
  have hread : read (ofLibrary umlaut (umlaut.absolute (bytes "lib")) (bytes "r")
      (bytes "lib")).indented = .error (.badLabel ⟨.package, bytes "@r//ü"⟩) := by
    decide +kernel
  refine ⟨disk', by rw [store, hwrite], ?_⟩
  rw [load, Disk.read_of_write hwrite]
  dsimp only
  rw [hread]

end IncludeIndex

end XsPrep
