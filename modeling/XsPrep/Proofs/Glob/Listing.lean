import XsPrep.Glob.Expand
import XsPrep.Proofs.Files.Trees
import XsPrep.Proofs.Glob.Endings
import XsPrep.Proofs.Ordered.Traversals
import XsPrep.Proofs.Text.Encoding

/-!
# Listing the sources of a library

The pattern `**/*.xs` is expanded into two steps.  The first goes down from the base into every
directory (`Search.Enters`, `Search.mem_below`), and the second takes the entries with the right
ending (`mem_expandBelow`).  Going down is bounded, and the bound is never met on a disk whose
addresses are no longer than the bound.

In a tree of directories and regular files with valid names, this lists the regular files with the
right ending (`mem_expandBelow_of_plain`).
-/

namespace XsPrep.Glob

open Files (Address Node Disk)
open Path (IsName relative ofParts join)

/-- The pattern for all files with the extension of a source below a directory. -/
def allSources : Text := bytes "**/*.xs"

/-- The pattern for the files with the extension of a source in a directory. -/
def sources : Text := bytes "*.xs"

/-- The ending of a source. -/
def sourceEnding : Text := bytes ".xs"

namespace Search

variable {s : Search} {names : List Text} {name : Text} {node : Node}

/-! ## Going down -/

/-- From the directory with some names, a search enters one directory after the other. -/
def Enters (s : Search) : List Text → List Text → Prop
  | _, [] => True
  | names, name :: more =>
    (∃ node, (name, node) ∈ s.entries (relative names) ∧
      s.isDirectoryEntry (relative (names ++ [name])) node = true) ∧
      Enters s (names ++ [name]) more

theorem mem_entries {directory : Text} {entry : Text × Node} (h : entry ∈ s.entries directory) :
    isName directory = true ∧ ∃ address, s.disk.address (s.path directory) = .ok address ∧
      s.disk.node? address = some .directory ∧ entry ∈ s.disk.entries address := by
  rw [entries] at h
  split at h
  · rename_i hdirectory
    rw [isDirectory, Bool.and_eq_true, Disk.isDirectory] at hdirectory
    split at h
    · rename_i address haddress
      rw [haddress] at hdirectory
      exact ⟨hdirectory.1, address, haddress, by simpa using hdirectory.2, h⟩
    · cases h
  · cases h

theorem isName_of_mem_entries (hdisk : s.disk.WellFormed) {directory : Text} {entry : Text × Node}
    (h : entry ∈ s.entries directory) : IsName entry.1 := by
  obtain ⟨-, address, -, -, hentry⟩ := mem_entries h
  exact hdisk.isName_of_mem_entries hentry

theorem Enters.proper (hdisk : s.disk.WellFormed) (hnames : Address.Proper names)
    {more : List Text} (h : s.Enters names more) : Address.Proper (names ++ more) := by
  induction more generalizing names with
  | nil => rwa [List.append_nil]
  | cons name more ih =>
    obtain ⟨⟨node, hentry, -⟩, h⟩ := h
    have hrest := ih (Path.proper_concat hnames (isName_of_mem_entries hdisk hentry)) h
    rwa [List.append_assoc, List.singleton_append] at hrest

theorem takes_inner (s : Search) (isDirectory : Bool) :
    s.takes false isDirectory = isDirectory := by
  cases isDirectory <;> rfl

/-- What a search finds below a directory are the directories it can enter from there. -/
theorem mem_below (hdisk : s.disk.WellFormed) {depth : Nat} (hnames : Address.Proper names)
    {directory : Text} :
    directory ∈ s.below false depth (relative names) ↔
      ∃ more, more ≠ [] ∧ more.length ≤ depth ∧ s.Enters names more ∧
        directory = relative (names ++ more) := by
  induction depth generalizing names with
  | zero =>
    rw [below]
    refine iff_of_false List.not_mem_nil ?_
    rintro ⟨more, hne, hlength, -⟩
    exact hne (List.eq_nil_of_length_eq_zero (Nat.le_zero.mp hlength))
  | succ depth ih =>
    rw [below, List.mem_flatMap]
    constructor
    · rintro ⟨⟨name, node⟩, hentry, h⟩
      have hname := isName_of_mem_entries hdisk hentry
      have hjoin := Path.join_relative hnames hname
      rw [← Path.relative_concat] at hjoin
      dsimp only at h hname hjoin
      rw [hjoin, takes_inner] at h
      cases hdirectory : s.isDirectoryEntry (relative (names ++ [name])) node with
      | false =>
        rw [hdirectory] at h
        simp at h
      | true =>
        rw [hdirectory, if_pos rfl, if_pos rfl, List.singleton_append, List.mem_cons] at h
        rcases h with rfl | h
        · exact ⟨[name], List.cons_ne_nil _ _, by simp, ⟨⟨node, hentry, hdirectory⟩, trivial⟩, rfl⟩
        · obtain ⟨more, -, hlength, henters, rfl⟩ := (ih (Path.proper_concat hnames hname)).mp h
          refine ⟨name :: more, List.cons_ne_nil _ _, Nat.succ_le_succ hlength,
            ⟨⟨node, hentry, hdirectory⟩, henters⟩, ?_⟩
          rw [List.append_assoc, List.singleton_append]
    · rintro ⟨more, hne, hlength, henters, rfl⟩
      cases more with
      | nil => exact absurd rfl hne
      | cons name more =>
        obtain ⟨⟨node, hentry, hdirectory⟩, henters⟩ := henters
        have hname := isName_of_mem_entries hdisk hentry
        have hjoin := Path.join_relative hnames hname
        rw [← Path.relative_concat] at hjoin
        refine ⟨(name, node), hentry, ?_⟩
        dsimp only at hname hjoin ⊢
        rw [hjoin, takes_inner, hdirectory, if_pos rfl, if_pos rfl, List.singleton_append,
          List.mem_cons]
        by_cases hmore : more = []
        · exact .inl (by rw [hmore])
        · refine .inr ((ih (Path.proper_concat hnames hname)).mpr ⟨more, hmore, ?_, henters, ?_⟩)
          · exact Nat.le_of_succ_le_succ hlength
          · rw [List.append_assoc, List.singleton_append]

/-! ## Taking files -/

/-- The path of an entry of a directory, if it is a file with the extension of a source. -/
def sourceAt (s : Search) (directory : Text) (entry : Text × Node) : List Text :=
  if Text.endsWith sourceEnding entry.1 &&
    !s.isDirectoryEntry (join [directory, entry.1]) entry.2
  then [join [directory, entry.1]] else []

theorem takes_last (hfiles : s.filesOnly = true) (isDirectory : Bool) :
    s.takes true isDirectory = !isDirectory := by
  cases isDirectory with
  | false => rfl
  | true =>
    rw [takes, if_pos rfl, takesDirectories, hfiles]
    rfl

theorem matching?_sources (hdisk : s.disk.WellFormed) (hfiles : s.filesOnly = true)
    (directory : Text) :
    s.matching? true directory sources =
      some ((s.entries directory).flatMap (s.sourceAt directory)) := by
  have hplain : ∀ b ∈ sourceEnding, IsPlain b := by decide +kernel
  have hpattern : sources = star :: sourceEnding := by decide +kernel
  rw [matching?]
  dsimp only
  rw [mapM_of_forall (g := s.sourceAt directory) ?entry]
  · rfl
  case entry =>
    intro entry hentry
    have hname := isName_of_mem_entries hdisk hentry
    rw [hpattern, outcome_ending hplain hname.2.2.2.1, takes_last hfiles, sourceAt]
    cases Text.endsWith sourceEnding entry.1 with
    | false => rfl
    | true => rfl

/-- The directories of a search: its base and all that it can enter from there. -/
def directories (s : Search) : List Text :=
  (if s.isDirectory Path.here then [Path.here] else []) ++ s.below false s.depthLimit Path.here

theorem expandWithin_directories (s : Search) (rounds : Nat) :
    s.expandWithin (rounds + 1) false [star, star] = some s.directories := by
  have hmark : firstMark? [star, star] = some 0 := by decide +kernel
  have hsplit : Split.ofPattern [star, star] = .whole := by decide +kernel
  rw [expandWithin, hmark, hsplit]
  rfl

theorem expandWithin_sources (hdisk : s.disk.WellFormed) (hfiles : s.filesOnly = true)
    (rounds : Nat) :
    s.expandWithin (rounds + 2) true allSources =
      some (s.directories.flatMap fun directory =>
        (s.entries directory).flatMap (s.sourceAt directory)) := by
  have hmark : firstMark? allSources = some 0 := by decide +kernel
  have hsplit : Split.ofPattern allSources = .slash 2 := by decide +kernel
  have hfront : allSources.take 2 = [star, star] := by decide +kernel
  have hlast : allSources.drop 3 = sources := by decide +kernel
  have hpart : sources.isEmpty = false ∧ sources ≠ [star, star] := by decide +kernel
  rw [expandWithin, hmark, hsplit]
  dsimp only
  rw [hfront, hlast, if_neg (by decide), expandWithin_directories]
  show (List.mapM (m := Option) _ s.directories >>= _) = _
  rw [mapM_of_forall (g := fun directory => (s.entries directory).flatMap (s.sourceAt directory))
    ?directory]
  · rfl
  case directory =>
    intro directory _
    rw [inDirectory?, hpart.1, if_neg Bool.false_ne_true, if_neg hpart.2,
      matching?_sources hdisk hfiles]
    rfl

theorem mem_directories (hdisk : s.disk.WellFormed) {directory : Text} :
    directory ∈ s.directories ↔
      ∃ names, names.length ≤ s.depthLimit ∧ s.Enters [] names ∧ directory = relative names ∧
        (names = [] → s.isDirectory Path.here = true) := by
  have hbelow : directory ∈ s.below false s.depthLimit Path.here ↔ _ := mem_below hdisk .nil
  rw [directories, List.mem_append, hbelow]
  constructor
  · rintro (h | ⟨names, hne, hlength, henters, rfl⟩)
    · split at h
      · rename_i hhere
        exact ⟨[], Nat.zero_le _, trivial, List.mem_singleton.mp h, fun _ => hhere⟩
      · cases h
    · exact ⟨names, hlength, henters, rfl, fun hnil => absurd hnil hne⟩
  · rintro ⟨names, hlength, henters, rfl, hhere⟩
    by_cases hne : names = []
    · subst hne
      rw [if_pos (hhere rfl)]
      exact .inl (List.mem_singleton_self _)
    · exact .inr ⟨names, hne, hlength, henters, rfl⟩

theorem isDirectory_of_mem_entries {directory : Text} {entry : Text × Node}
    (h : entry ∈ s.entries directory) : s.isDirectory directory = true := by
  rw [entries] at h
  split at h
  · assumption
  · cases h

theorem mem_sourceAt {directory path : Text} {entry : Text × Node} :
    path ∈ s.sourceAt directory entry ↔ Text.endsWith sourceEnding entry.1 = true ∧
      s.isDirectoryEntry (join [directory, entry.1]) entry.2 = false ∧
      path = join [directory, entry.1] := by
  rw [sourceAt]
  split
  · rename_i h
    rw [Bool.and_eq_true, Bool.not_eq_true'] at h
    simp [h]
  · rename_i h
    simp only [List.not_mem_nil, false_iff]
    rintro ⟨hending, hdirectory, -⟩
    exact h (by simp [hending, hdirectory])

end Search

/-! ## What is listed -/

/-- A search for files below a directory. -/
def fileSearch (disk : Disk) (root : Text) : Search := ⟨disk, root, true, true⟩

/-- The listed sources are the entries with the right ending in the directories of the search. -/
theorem expandBelow_allSources {disk : Disk} (hdisk : disk.WellFormed) (root : Text) :
    Glob.expandBelow disk root true allSources =
      some ((fileSearch disk root).directories.flatMap fun directory =>
        ((fileSearch disk root).entries directory).flatMap
          ((fileSearch disk root).sourceAt directory)) := by
  have hvalid : isValid allSources = true := by decide +kernel
  have hinner : hasInnerDoubleStar allSources = true := by decide +kernel
  have hlength : allSources.length = 7 := by decide +kernel
  have hlimit : 2 ≤ (fileSearch disk root).roundLimit allSources := by
    rw [Search.roundLimit, hlength]
    omega
  obtain ⟨rounds, hrounds⟩ := Nat.exists_eq_add_of_le' hlimit
  rw [expandBelow, hvalid, if_pos rfl, hinner]
  show (fileSearch disk root).expandWithin ((fileSearch disk root).roundLimit allSources) _ _ = _
  rw [hrounds, Search.expandWithin_sources hdisk rfl]

theorem mem_expandBelow {disk : Disk} (hdisk : disk.WellFormed) {root path : Text} :
    path ∈ (expandBelow disk root true allSources).getD [] ↔
      ∃ names name node, names.length ≤ (fileSearch disk root).depthLimit ∧
        (fileSearch disk root).Enters [] names ∧
        (name, node) ∈ (fileSearch disk root).entries (relative names) ∧
        Text.endsWith sourceEnding name = true ∧
        (fileSearch disk root).isDirectoryEntry (relative (names ++ [name])) node = false ∧
        path = ofParts (names ++ [name]) := by
  rw [expandBelow_allSources hdisk, Option.getD_some]
  simp only [List.mem_flatMap, Search.mem_directories (s := fileSearch disk root) hdisk,
    Search.mem_sourceAt]
  constructor
  · rintro ⟨_, ⟨names, hlength, henters, rfl, -⟩, ⟨name, node⟩, hentry, hending, hfile, rfl⟩
    have hjoin : join [relative names, name] = ofParts (names ++ [name]) :=
      Path.join_relative (henters.proper hdisk .nil) (Search.isName_of_mem_entries hdisk hentry)
    rw [hjoin, ← Path.relative_concat] at hfile
    exact ⟨names, name, node, hlength, henters, hentry, hending, hfile, hjoin⟩
  · rintro ⟨names, name, node, hlength, henters, hentry, hending, hfile, rfl⟩
    have hjoin : join [relative names, name] = ofParts (names ++ [name]) :=
      Path.join_relative (henters.proper hdisk .nil) (Search.isName_of_mem_entries hdisk hentry)
    rw [Path.relative_concat, ← hjoin] at hfile
    refine ⟨_, ⟨names, hlength, henters, rfl, ?_⟩, (name, node), hentry, hending, hfile, hjoin.symm⟩
    rintro rfl
    exact Search.isDirectory_of_mem_entries hentry

/-! ## Below a directory on the disk -/

section Tree

variable {disk : Disk} {root : Text} {base : Address} {names : List Text}

theorem endsWith_slash_iff (h : disk.LeadsTo root base) :
    Text.endsWith [Byte.slash] root = true ↔ Path.components root = [] := by
  rw [Text.endsWith, List.isSuffixOf_iff_suffix]
  constructor
  · rintro ⟨before, hbefore⟩
    by_contra hne
    have hsplit : Path.parts root = Text.split Byte.slash before ++ [[]] := by
      rw [← hbefore, Path.parts, Text.split_append, Text.split_nil]
    have hlast := congrArg List.getLast? (h.parts_eq hne)
    rw [hsplit, List.getLast?_concat, List.getLast?_cons_of_ne_nil hne] at hlast
    exact (h.isComponent [] (List.mem_of_getLast? hlast.symm)).1 rfl
  · intro hnil
    rw [h.root_eq, hnil]
    exact List.suffix_rfl

/-- The parts of what a search makes of a name are those of its base and those of the name. -/
theorem parts_path (h : disk.LeadsTo root base) (name : Text) :
    Path.parts ((fileSearch disk root).path name) =
      [] :: Path.components root ++ Path.parts name := by
  rw [Search.path]
  split
  · rename_i hslash
    have hnil := (endsWith_slash_iff h).mp hslash
    rw [hnil]
    show Path.parts (root ++ name) = _
    rw [h.root_eq, hnil]
    exact Text.split_separator Byte.slash name
  · rename_i hslash
    have hne := mt (endsWith_slash_iff h).mpr hslash
    show Path.parts (root ++ [Byte.slash] ++ name) = _
    rw [List.append_assoc, List.singleton_append, Path.parts, Text.split_append, ← Path.parts,
      ← Path.parts, h.parts_eq hne]

theorem isAbsolute_path (h : disk.LeadsTo root base) (name : Text) :
    Path.isAbsolute ((fileSearch disk root).path name) = true := by
  have hne := Path.ne_nil_of_isAbsolute h.isAbsolute
  rw [Search.path]
  split
  · exact (Path.isAbsolute_append hne _).trans h.isAbsolute
  · rw [List.append_assoc]
    exact (Path.isAbsolute_append hne _).trans h.isAbsolute

theorem zero_notMem_path (h : disk.LeadsTo root base) {name : Text} (hname : (0 : UInt8) ∉ name) :
    (0 : UInt8) ∉ (fileSearch disk root).path name := by
  have hroot : (0 : UInt8) ∉ (fileSearch disk root).base := h.zero_notMem
  have hslash : (0 : UInt8) ≠ Byte.slash := by decide
  rw [Search.path]
  split
  · simp [hroot, hname]
  · simp [hroot, hname, hslash]

theorem zero_notMem_relative (hnames : Address.Proper names) : (0 : UInt8) ∉ relative names := by
  cases names with
  | nil => decide
  | cons name names =>
    intro hzero
    exact hnames.zero_notMem_path (List.mem_cons_of_mem _ hzero)

/-- A search looks for names below its base where they are. -/
theorem address_path (h : disk.LeadsTo root base) (hnames : Address.Proper names) :
    disk.address ((fileSearch disk root).path (relative names)) =
      disk.address (join [root, ofParts names]) := by
  have habsolute := isAbsolute_path h (relative names)
  have hzero := zero_notMem_path h (zero_notMem_relative hnames)
  by_cases hne : names = []
  · subst hne
    have hjoin : join [root, ofParts []] = root := h.join_nil
    rw [hjoin, h.address_eq]
    refine h.address_of_parts habsolute hzero (parts_path h _) fun follow => ?_
    rfl
  · rw [Disk.address_of_absolute habsolute hzero,
      Disk.address_of_absolute (Path.isAbsolute_join h.isAbsolute _) (h.zero_notMem_join hnames),
      parts_path h, h.parts_join hnames hne, Path.relative_eq hne, Path.parts_ofParts hnames hne]

/-- All names in the directories below a directory are valid. -/
def HasValidNames (disk : Disk) (root : Text) : Prop :=
  ∀ names address, Address.Proper names → disk.address (join [root, ofParts names]) = .ok address →
    ∀ entry ∈ disk.entries address, Text.IsValid entry.1

theorem HasValidNames.isValid_of_mem_entries (hvalid : HasValidNames disk root)
    (h : disk.LeadsTo root base) (hnames : Address.Proper names) {entry : Text × Node}
    (hentry : entry ∈ (fileSearch disk root).entries (relative names)) : Text.IsValid entry.1 := by
  obtain ⟨-, address, haddress, -, hmem⟩ := Search.mem_entries hentry
  exact hvalid names address hnames ((address_path h hnames).symm.trans haddress) entry hmem

theorem HasValidNames.isValid_of_enters (hvalid : HasValidNames disk root)
    (hdisk : disk.WellFormed) (h : disk.LeadsTo root base) (hnames : Address.Proper names)
    {more : List Text} (henters : (fileSearch disk root).Enters names more) :
    ∀ name ∈ more, Text.IsValid name := by
  induction more generalizing names with
  | nil => exact fun _ hname => absurd hname List.not_mem_nil
  | cons first more ih =>
    obtain ⟨⟨node, hentry, -⟩, henters⟩ := henters
    have hfirst := Search.isName_of_mem_entries hdisk hentry
    refine List.forall_mem_cons.mpr ⟨hvalid.isValid_of_mem_entries h hnames hentry, ?_⟩
    exact ih (Path.proper_concat hnames hfirst) henters

/-- A listed path is made of valid names. -/
theorem exists_names_of_mem (hdisk : disk.WellFormed) (h : disk.LeadsTo root base)
    (hvalid : HasValidNames disk root) {path : Text}
    (hpath : path ∈ (expandBelow disk root true allSources).getD []) :
    ∃ names name, Address.Proper (names ++ [name]) ∧ (∀ n ∈ names ++ [name], Text.IsValid n) ∧
      path = ofParts (names ++ [name]) := by
  obtain ⟨names, name, node, -, henters, hentry, -, -, rfl⟩ := (mem_expandBelow hdisk).mp hpath
  have hnames : Address.Proper names := henters.proper hdisk .nil
  refine ⟨names, name, ?_, ?_, rfl⟩
  · exact Path.proper_concat hnames (Search.isName_of_mem_entries hdisk hentry)
  · rw [List.forall_mem_append]
    refine ⟨hvalid.isValid_of_enters hdisk h .nil henters, fun n hn => ?_⟩
    rw [List.mem_singleton.mp hn]
    exact hvalid.isValid_of_mem_entries h hnames hentry

/-! ## Trees without links -/

/-- Below a directory there are directories and regular files with valid names only. -/
structure IsPlainTree (disk : Disk) (base : Address) : Prop where
  /-- There are no links. -/
  noLink : ∀ names target, (base ++ names, Node.link target) ∉ disk.nodes
  /-- Names are valid. -/
  isValid : ∀ names node, (base ++ names, node) ∈ disk.nodes → ∀ name ∈ names, Text.IsValid name

theorem isValid_ofParts (h : ∀ name ∈ names, Text.IsValid name) : (ofParts names).IsValid := by
  induction names with
  | nil => exact .nil
  | cons name names ih =>
    obtain ⟨hname, hnames⟩ := List.forall_mem_cons.mp h
    cases names with
    | nil => rwa [Path.ofParts_singleton]
    | cons next names =>
      have hslash : Text.IsValid [Byte.slash] := .of_ascii (by decide +kernel)
      rw [ofParts, Text.joined, List.intercalate_cons_cons]
      exact (hname.append hslash).append (ih hnames)

theorem isName_relative (hnames : Address.Proper names) (h : ∀ name ∈ names, Text.IsValid name) :
    Search.isName (relative names) = true := by
  cases names with
  | nil => decide +kernel
  | cons name names =>
    have hne : name :: names ≠ [] := List.cons_ne_nil _ _
    obtain ⟨codes, hcodes, htext⟩ := isValid_ofParts h
    rw [Search.isName, Bool.and_eq_true, Bool.or_eq_true, List.all_eq_true, List.all_eq_true,
      Path.relative_eq hne, Path.parts_ofParts hnames hne]
    refine ⟨?_, .inr fun part hpart => ?_⟩
    · rw [htext, Text.characters_ofCodes hcodes]
      intro c hc
      obtain ⟨code, -, rfl⟩ := List.mem_map.mp hc
      rw [Character.isStray_ofCode]
      rfl
    · obtain ⟨hempty, hhere, hup, -⟩ := hnames part hpart
      simp [hempty, hhere, hup]

theorem mem_entries_of_directory (hdisk : disk.WellFormed) (h : disk.LeadsTo root base)
    (hnames : Address.Proper names) (hvalid : ∀ name ∈ names, Text.IsValid name)
    (hnode : disk.node? (base ++ names) = some .directory) {name : Text} {node : Node} :
    (name, node) ∈ (fileSearch disk root).entries (relative names) ↔
      (base ++ names ++ [name], node) ∈ disk.nodes := by
  have haddress : disk.address ((fileSearch disk root).path (relative names)) =
      .ok (base ++ names) := by
    rw [address_path h hnames]
    exact h.address_join hnames (hdisk.walkWith_of_directory hnode)
  have hdirectory : (fileSearch disk root).isDirectory (relative names) = true := by
    rw [Search.isDirectory, isName_relative hnames hvalid, Bool.true_and]
    show disk.isDirectory _ = true
    rw [Disk.isDirectory, haddress]
    simpa using hnode
  have hentries : (fileSearch disk root).entries (relative names) =
      disk.entries (base ++ names) := by
    have hsearched : (fileSearch disk root).disk.address
        ((fileSearch disk root).path (relative names)) = .ok (base ++ names) := haddress
    rw [Search.entries, if_pos hdirectory, hsearched]
    rfl
  rw [hentries, hdisk.mem_entries]

/-- In a tree without links, the directories that can be entered are the directories. -/
theorem IsPlainTree.enters_iff (hplain : IsPlainTree disk base) (hdisk : disk.WellFormed)
    (h : disk.LeadsTo root base) (hnames : Address.Proper names)
    (hvalid : ∀ name ∈ names, Text.IsValid name)
    (hnode : disk.node? (base ++ names) = some .directory) {more : List Text} :
    (fileSearch disk root).Enters names more ↔
      disk.node? (base ++ names ++ more) = some .directory := by
  induction more generalizing names with
  | nil =>
    rw [List.append_nil]
    exact iff_of_true trivial hnode
  | cons name more ih =>
    have hmove : base ++ names ++ name :: more = base ++ (names ++ [name]) ++ more := by simp
    rw [Search.Enters, hmove]
    have hnext : (base ++ (names ++ [name]), Node.directory) ∈ disk.nodes →
        ((fileSearch disk root).Enters (names ++ [name]) more ↔
          disk.node? (base ++ (names ++ [name]) ++ more) = some .directory) := by
      intro hmem
      refine ih ?_ (hplain.isValid _ _ hmem) (hdisk.node?_of_mem hmem)
      intro n hn
      exact hdisk.proper _ hmem n (List.mem_append_right _ hn)
    constructor
    · rintro ⟨⟨node, hentry, hdirectory⟩, henters⟩
      have hmem := (mem_entries_of_directory hdisk h hnames hvalid hnode).mp hentry
      rw [List.append_assoc] at hmem
      cases node with
      | file content => cases hdirectory
      | link target => exact absurd hmem (hplain.noLink _ _)
      | directory => exact (hnext hmem).mp henters
    · intro hend
      have hmem : (base ++ (names ++ [name]), Node.directory) ∈ disk.nodes := by
        refine Disk.mem_nodes_of_node? (by simp) ?_
        by_cases hmore : more = []
        · rwa [hmore, List.append_nil] at hend
        · exact hdisk.node?_above (Disk.mem_nodes_of_node? (by simp) hend) hmore
      refine ⟨⟨.directory, ?_, rfl⟩, (hnext hmem).mpr hend⟩
      rw [mem_entries_of_directory hdisk h hnames hvalid hnode, List.append_assoc]
      exact hmem

theorem IsPlainTree.enters_base_iff (hplain : IsPlainTree disk base) (hdisk : disk.WellFormed)
    (h : disk.LeadsTo root base) :
    (fileSearch disk root).Enters [] names ↔ disk.node? (base ++ names) = some .directory := by
  have hbase : disk.node? (base ++ []) = some .directory := by
    rw [List.append_nil, h.node?_eq]
  have hiff : (fileSearch disk root).Enters [] names ↔
      disk.node? (base ++ [] ++ names) = some .directory :=
    hplain.enters_iff hdisk h .nil (by simp) hbase
  rwa [List.append_nil] at hiff

theorem IsPlainTree.isValid_of_directory (hplain : IsPlainTree disk base)
    (hnode : disk.node? (base ++ names) = some .directory) :
    ∀ name ∈ names, Text.IsValid name := by
  by_cases hne : names = []
  · simp [hne]
  · exact hplain.isValid names _ (Disk.mem_nodes_of_node? (by simp [hne]) hnode)

theorem endsWith_behind_slash {ending : Text} (hending : Byte.slash ∉ ending)
    (before name : Text) :
    Text.endsWith ending (before ++ Byte.slash :: name) = Text.endsWith ending name := by
  rw [Text.endsWith, Text.endsWith, Bool.eq_iff_iff, List.isSuffixOf_iff_suffix,
    List.isSuffixOf_iff_suffix]
  constructor
  · rintro ⟨front, hfront⟩
    -- The ending does not reach the slash.
    rcases List.append_eq_append_iff.mp hfront with ⟨more, -, hmore⟩ | ⟨more, -, hmore⟩
    · exact absurd (hmore ▸ by simp) hending
    · cases more with
      | nil =>
        rw [List.nil_append] at hmore
        exact absurd (hmore ▸ List.mem_cons_self) hending
      | cons b more => exact ⟨more, (List.cons.inj hmore).2.symm⟩
  · rintro ⟨front, rfl⟩
    exact ⟨before ++ Byte.slash :: front, by simp⟩

theorem endsWith_ofParts {ending : Text} (hending : Byte.slash ∉ ending) (names : List Text)
    (name : Text) :
    Text.endsWith ending (ofParts (names ++ [name])) = Text.endsWith ending name := by
  by_cases hnames : names = []
  · rw [hnames, List.nil_append, Path.ofParts_singleton]
  · rw [Path.ofParts_concat hnames, endsWith_behind_slash hending]

/-- A path leads to a regular file below a directory that has the ending of a source. -/
def IsSourceFile (disk : Disk) (base : Address) (path : Text) : Prop :=
  ∃ names content, path = ofParts names ∧ (base ++ names, Node.file content) ∈ disk.nodes ∧
    Text.endsWith sourceEnding path = true

/-- In a tree without links, all regular files with the ending of a source are listed. -/
theorem mem_expandBelow_of_plain (hdisk : disk.WellFormed) (h : disk.LeadsTo root base)
    (hplain : IsPlainTree disk base) {path : Text} :
    path ∈ (expandBelow disk root true allSources).getD [] ↔ IsSourceFile disk base path := by
  have hslash : Byte.slash ∉ sourceEnding := by decide +kernel
  rw [mem_expandBelow hdisk, IsSourceFile]
  constructor
  · rintro ⟨names, name, node, -, henters, hentry, hending, hfile, rfl⟩
    have hnode := (hplain.enters_base_iff hdisk h).mp henters
    rw [mem_entries_of_directory hdisk h (hdisk.proper_of_directory hnode)
      (hplain.isValid_of_directory hnode) hnode, List.append_assoc] at hentry
    cases node with
    | file content =>
      exact ⟨names ++ [name], content, rfl, hentry, (endsWith_ofParts hslash _ _).trans hending⟩
    | directory => cases hfile
    | link target => exact absurd hentry (hplain.noLink _ _)
  · rintro ⟨names, content, rfl, hmem, hending⟩
    rcases List.eq_nil_or_concat' names with rfl | ⟨names, name, rfl⟩
    · rw [List.append_nil] at hmem
      have hnode := h.node?_eq
      rw [hdisk.node?_of_mem hmem] at hnode
      cases hnode
    · rw [← List.append_assoc] at hmem
      have hnode := hdisk.node?_above hmem (List.cons_ne_nil _ _)
      refine ⟨names, name, .file content, ?_, (hplain.enters_base_iff hdisk h).mpr hnode, ?_,
        (endsWith_ofParts hslash _ _).symm.trans hending, rfl, rfl⟩
      · have hlength := hdisk.length_le hmem
        have hle : disk.nodes.length ≤ (Disk.linkLimit + 1) * (disk.nodes.length + 1) :=
          Nat.le_trans (Nat.le_succ _) (Nat.le_mul_of_pos_left _ (Nat.succ_pos _))
        simp only [List.length_append] at hlength
        exact Nat.le_trans (by omega) hle
      · rw [mem_entries_of_directory hdisk h (hdisk.proper_of_directory hnode)
          (hplain.isValid_of_directory hnode) hnode]
        exact hmem

end Tree

end XsPrep.Glob
