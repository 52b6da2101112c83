import XsPrep.Proofs.Files.Names
import XsPrep.Proofs.Ordered.Tables

/-!
# Below a directory

On a well-formed disk the entries of a directory are the nodes right below it
(`Disk.WellFormed.mem_entries`).  A path behind the path of a directory is followed from that
directory on (`Disk.walk_append`), so the names below a directory lead to the same node however the
directory was reached.
-/

namespace XsPrep.Files.Disk

open XsPrep.Path

variable {disk : Disk} {address base : Address} {names : List Text} {node : Node}

/-! ## Entries -/

/-- The name and the node of an entry of the directory at an address. -/
def entryIn? (address : Address) (e : Address × Node) : Option (Text × Node) :=
  match e.1.getLast? with
  | some name => if e.1.dropLast = address then some (name, e.2) else none
  | none => none

theorem entries_eq (disk : Disk) (address : Address) :
    disk.entries address = (Table.ofList (disk.nodes.filterMap (entryIn? address))).entries := rfl

theorem entryIn?_eq_some {e : Address × Node} {name : Text} :
    entryIn? address e = some (name, node) ↔ e = (address ++ [name], node) := by
  obtain ⟨other, node'⟩ := e
  rw [entryIn?]
  rcases List.eq_nil_or_concat' other with rfl | ⟨front, last, rfl⟩
  · simp
  · simp only [List.getLast?_concat, List.dropLast_concat, Prod.mk.injEq,
      List.append_singleton_inj]
    split
    · rename_i hfront
      simp [hfront]
    · rename_i hfront
      simp [hfront]

theorem WellFormed.mem_entries (hdisk : disk.WellFormed) {name : Text} :
    (name, node) ∈ disk.entries address ↔ (address ++ [name], node) ∈ disk.nodes := by
  have hdistinct : ((disk.nodes.filterMap (entryIn? address)).map Prod.fst).Nodup := by
    have hnodes := hdisk.distinct
    rw [List.Nodup, List.pairwise_map] at hnodes ⊢
    refine hnodes.filterMap _ ?_
    rintro e e' hne ⟨name, node⟩ hentry ⟨name', node'⟩ hentry' heq
    obtain rfl : name = name' := heq
    rw [entryIn?_eq_some] at hentry hentry'
    exact hne (by rw [hentry, hentry'])
  rw [entries_eq, Table.mem_entries_ofList hdistinct, List.mem_filterMap]
  constructor
  · rintro ⟨e, he, hentry⟩
    rwa [entryIn?_eq_some.mp hentry] at he
  · intro h
    exact ⟨_, h, entryIn?_eq_some.mpr rfl⟩

theorem mem_nodes_of_node? (hne : address ≠ []) (h : disk.node? address = some node) :
    (address, node) ∈ disk.nodes := by
  rw [node?, if_neg (by simpa using hne)] at h
  obtain ⟨⟨other, node'⟩, hfind, rfl⟩ := Option.map_eq_some_iff.mp h
  obtain rfl : other = address := by simpa using List.find?_some hfind
  exact List.mem_of_find?_eq_some hfind

theorem WellFormed.proper_of_directory (hdisk : disk.WellFormed)
    (h : disk.node? (address ++ names) = some .directory) : Address.Proper names := by
  by_cases hne : names = []
  · rw [hne]
    exact .nil
  · intro name hname
    exact hdisk.proper _ (mem_nodes_of_node? (by simp [hne]) h) name
      (List.mem_append_right _ hname)

/-- Names that lead to a directory are followed to it. -/
theorem WellFormed.walkWith_of_directory (hdisk : disk.WellFormed)
    (h : disk.node? (address ++ names) = some .directory)
    (follow : Address → Text → List Text → Except Fault Address) :
    disk.walkWith follow address names = .ok (address ++ names) := by
  by_cases hne : names = []
  · rw [hne, walkWith, List.append_nil]
  · have hmem := mem_nodes_of_node? (by simp [hne]) h
    exact hdisk.walkWith_eq follow (fun _ => Node.noConfusion) hmem

theorem WellFormed.isName_of_mem_entries (hdisk : disk.WellFormed) {entry : Text × Node}
    (h : entry ∈ disk.entries address) : IsName entry.1 :=
  hdisk.proper _ (hdisk.mem_entries.mp h) entry.1 (by simp)

/-- The addresses above a node are addresses of nodes. -/
theorem WellFormed.take_mem (hdisk : disk.WellFormed) (h : (address, node) ∈ disk.nodes) {n : Nat}
    (hn : n < address.length) : address.take (n + 1) ∈ disk.nodes.map Prod.fst := by
  -- From the node itself upwards, one name is left out after the other.
  induction hlength : address.length - (n + 1) generalizing n with
  | zero =>
    rw [List.take_of_length_le (by omega)]
    exact List.mem_map_of_mem h
  | succ k ih =>
    obtain ⟨⟨_, node'⟩, hnode', heq⟩ := List.mem_map.mp (ih (n := n + 1) (by omega) (by omega))
    have habove := hdisk.above _ hnode'
    have hdrop : (address.take (n + 1 + 1)).dropLast = address.take (n + 1) := by
      rw [List.dropLast_eq_take, List.length_take, List.take_take]
      congr 1
      omega
    dsimp only at heq habove
    rw [heq, hdrop] at habove
    rcases habove with hnil | hdirectory
    · have hlen := congrArg List.length hnil
      rw [List.length_take, List.length_nil] at hlen
      omega
    · exact List.mem_map_of_mem hdirectory

/-- An address is no longer than there are nodes. -/
theorem WellFormed.length_le (hdisk : disk.WellFormed) (h : (address, node) ∈ disk.nodes) :
    address.length ≤ disk.nodes.length := by
  -- The addresses above a node and its own differ in their length.
  have hnodup : ((List.range address.length).map fun n => address.take (n + 1)).Nodup := by
    refine (List.nodup_map_iff_inj_on List.nodup_range).mpr ?_
    intro n hn m hm heq
    have hlen := congrArg List.length heq
    rw [List.mem_range] at hn hm
    simp only [List.length_take] at hlen
    omega
  have hsubset : ((List.range address.length).map fun n => address.take (n + 1)) ⊆
      disk.nodes.map Prod.fst := by
    intro other hother
    obtain ⟨n, hn, rfl⟩ := List.mem_map.mp hother
    exact hdisk.take_mem h (List.mem_range.mp hn)
  have hle := (List.subperm_of_subset hnodup hsubset).length_le
  simpa using hle

/-! ## Following a path behind another one -/

theorem walkWith_append {follow : Address → Text → List Text → Except Fault Address}
    {more : List Text} {goal : Address} (hbase : disk.node? base = some .directory)
    (hmore : ∀ follow, disk.walkWith follow base more = .ok goal)
    (hfollow : ∀ address target todo, follow address target todo = .ok base →
      follow address target (todo ++ more) = .ok goal)
    (h : disk.walkWith follow address names = .ok base) :
    disk.walkWith follow address (names ++ more) = .ok goal := by
  induction names generalizing address with
  | nil =>
    rw [walkWith, Except.ok.injEq] at h
    rw [h, List.nil_append, hmore]
  | cons name names ih =>
    rw [walkWith] at h
    rw [List.cons_append, walkWith]
    split at h
    · rename_i hvoid
      rw [if_pos hvoid, ih h]
    rename_i hvoid
    rw [if_neg hvoid]
    split at h
    · rename_i hup
      rw [if_pos hup, ih h]
    rename_i hup
    rw [if_neg hup]
    split at h
    · cases h
    · exact ih h
    · rename_i content hnode
      split at h
      · -- A directory stands at the base, and no file.
        cases h
        rw [hnode] at hbase
        cases hbase
      · cases h
    · exact hfollow _ _ _ h

/-- What follows the path of a directory is followed from the directory. -/
theorem walk_append {more : List Text} {goal : Address}
    (hbase : disk.node? base = some .directory)
    (hmore : ∀ follow, disk.walkWith follow base more = .ok goal) (links : Nat)
    (h : disk.walk links address names = .ok base) :
    disk.walk links address (names ++ more) = .ok goal := by
  induction links generalizing address names with
  | zero =>
    refine walkWith_append hbase hmore ?_ h
    intro _ _ _ hfollow
    cases hfollow
  | succ links ih =>
    refine walkWith_append hbase hmore ?_ h
    intro address target todo hfollow
    rw [← List.append_assoc]
    exact ih hfollow

/-- An absolute path is followed part by part. -/
theorem address_of_absolute {path : Text} (h : isAbsolute path = true)
    (hzero : (0 : UInt8) ∉ path) : disk.address path = disk.walk linkLimit [] (parts path) := by
  have hfault : fault? path = none := by
    have hne : path.isEmpty = false := by simpa using ne_nil_of_isAbsolute h
    rw [fault?, hne, if_neg Bool.false_ne_true]
    simp [hzero]
  rw [Disk.address, addressWithin, hfault]
  dsimp only
  rw [origin, if_pos h]

/-! ## The path of a directory -/

/-- A clean absolute path that leads to the directory at an address. -/
structure LeadsTo (disk : Disk) (root : Text) (base : Address) : Prop where
  /-- It starts at the root of the disk. -/
  isAbsolute : isAbsolute root = true
  /-- It is clean. -/
  clean_eq : clean root = root
  /-- It leads to the address. -/
  address_eq : disk.address root = .ok base
  /-- A directory stands there. -/
  node?_eq : disk.node? base = some .directory

theorem isAbsolute_absolute (disk : Disk) (path : Text) :
    Path.isAbsolute (disk.absolute path) = true := by
  rw [Disk.absolute, Path.absolute]
  split
  · rename_i h
    exact isAbsolute_clean_of_absolute h
  · exact isAbsolute_join rfl path

theorem clean_absolute (disk : Disk) (path : Text) :
    clean (disk.absolute path) = disk.absolute path := by
  rw [Disk.absolute, Path.absolute]
  split
  · rename_i h
    exact clean_clean_of_absolute h
  · obtain ⟨whole, hjoin, hwhole, -⟩ :=
      join_of_absolute (rfl : Path.isAbsolute disk.workingDirectory.path = true) path
    rw [hjoin, clean_clean_of_absolute hwhole]

theorem leadsTo_absolute {path : Text} (h : disk.address (disk.absolute path) = .ok base)
    (hnode : disk.node? base = some .directory) : disk.LeadsTo (disk.absolute path) base :=
  ⟨isAbsolute_absolute disk path, clean_absolute disk path, h, hnode⟩

namespace LeadsTo

variable {root : Text}

theorem root_eq (h : disk.LeadsTo root base) : root = Address.path (components root) := by
  have hclean := clean_of_absolute h.isAbsolute
  rw [h.clean_eq] at hclean
  exact hclean

theorem isComponent (_ : disk.LeadsTo root base) : ∀ c ∈ components root, IsComponent c :=
  fun _ hc => isComponent_of_mem hc

theorem parts_eq (h : disk.LeadsTo root base) (hne : components root ≠ []) :
    parts root = [] :: components root :=
  (congrArg parts h.root_eq).trans (parts_path h.isComponent hne)

theorem zero_notMem (h : disk.LeadsTo root base) : (0 : UInt8) ∉ root := by
  have haddress := h.address_eq
  intro hzero
  have hfault : fault? root = some .invalidPath := by
    have hne : root.isEmpty = false := by simpa using ne_nil_of_isAbsolute h.isAbsolute
    rw [fault?, hne, if_neg Bool.false_ne_true]
    simp [hzero]
  rw [address, addressWithin, hfault] at haddress
  cases haddress

theorem walk_eq (h : disk.LeadsTo root base) :
    disk.walk linkLimit [] ([] :: components root) = .ok base := by
  have haddress := h.address_eq
  rw [address_of_absolute h.isAbsolute h.zero_notMem] at haddress
  by_cases hcs : components root = []
  · rw [hcs]
    rw [h.root_eq, hcs] at haddress
    exact haddress
  · rwa [h.parts_eq hcs] at haddress

/-- A path whose parts begin like the path of a directory is followed from the directory. -/
theorem address_of_parts (h : disk.LeadsTo root base) {path : Text} {more : List Text}
    {goal : Address} (hpath : Path.isAbsolute path = true) (hzero : (0 : UInt8) ∉ path)
    (hparts : parts path = [] :: components root ++ more)
    (hmore : ∀ follow, disk.walkWith follow base more = .ok goal) :
    disk.address path = .ok goal := by
  rw [address_of_absolute hpath hzero, hparts]
  exact walk_append h.node?_eq hmore linkLimit h.walk_eq

theorem join_eq (h : disk.LeadsTo root base) (hnames : Address.Proper names) :
    join [root, ofParts names] = Address.path (components root ++ names) :=
  join_absolute h.isAbsolute hnames

theorem join_nil (h : disk.LeadsTo root base) : join [root, []] = root := by
  rw [join_nil_right root (ne_nil_of_isAbsolute h.isAbsolute), h.clean_eq]

theorem parts_join (h : disk.LeadsTo root base) (hnames : Address.Proper names)
    (hne : names ≠ []) :
    parts (join [root, ofParts names]) = [] :: components root ++ names := by
  rw [h.join_eq hnames, parts_path ?_ (by simp [hne]), List.cons_append]
  intro c hc
  rcases List.mem_append.mp hc with hc | hc
  · exact h.isComponent c hc
  · exact (hnames c hc).isComponent

theorem zero_notMem_join (h : disk.LeadsTo root base) (hnames : Address.Proper names) :
    (0 : UInt8) ∉ join [root, ofParts names] := by
  have hroot := h.zero_notMem
  rw [h.root_eq] at hroot
  rw [h.join_eq hnames]
  intro hzero
  rcases List.mem_cons.mp hzero with hslash | hzero
  · cases hslash
  · rcases Text.mem_joined hzero with hslash | ⟨name, hname, hzero⟩
    · cases hslash
    · rcases List.mem_append.mp hname with hname | hname
      · exact hroot (List.mem_cons_of_mem _ (Text.mem_joined_of_mem hname hzero))
      · exact (hnames name hname).2.2.2.2 hzero

/-- Names below a directory are followed from the directory. -/
theorem address_join (h : disk.LeadsTo root base) (hnames : Address.Proper names) {goal : Address}
    (hmore : ∀ follow, disk.walkWith follow base names = .ok goal) :
    disk.address (join [root, ofParts names]) = .ok goal := by
  by_cases hne : names = []
  · subst hne
    have hgoal := hmore fun _ _ _ => .error .notFound
    rw [walkWith, Except.ok.injEq] at hgoal
    have hjoin : join [root, ofParts []] = root := h.join_nil
    rw [hjoin, h.address_eq, hgoal]
  · exact h.address_of_parts (isAbsolute_join h.isAbsolute _) (h.zero_notMem_join hnames)
      (h.parts_join hnames hne) hmore

end LeadsTo

end XsPrep.Files.Disk
