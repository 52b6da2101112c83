import XsPrep.Files.Access
import Mathlib.Data.List.Induction
import Mathlib.Data.List.TakeDrop
import Mathlib.Data.List.TakeWhile

/-!
# Addresses and their paths

On a well-formed disk the names are names: not empty, without a slash, and
neither `.` nor `..`.  Then an address can be read off its path
(`path_injective`), following the path of a file leads to the file
(`Disk.WellFormed.address_path`), and the directory of a file and the names in it
have the expected paths (`directory_path`, `join_path`).
-/

namespace XsPrep

/-! ## Splitting and joining -/

namespace Text

@[simp] theorem split_nil (separator : UInt8) : split separator [] = [[]] := rfl

theorem split_cons (separator b : UInt8) (t : Text) :
    split separator (b :: t) = splitStep separator b (split separator t) := rfl

theorem split_ne_nil (separator : UInt8) (t : Text) : split separator t ≠ [] := by
  cases t with
  | nil => simp
  | cons b t =>
    rw [split_cons]
    unfold splitStep
    split
    · simp
    · split <;> simp

theorem split_separator (separator : UInt8) (t : Text) :
    split separator (separator :: t) = [] :: split separator t := by
  rw [split_cons]
  unfold splitStep
  split
  · rename_i h
    exact absurd h (split_ne_nil separator t)
  · rename_i part parts h
    rw [if_pos rfl, h]

/-- A text without the separator is one part. -/
theorem split_eq_singleton {separator : UInt8} {t : Text} (h : separator ∉ t) :
    split separator t = [t] := by
  induction t with
  | nil => rfl
  | cons b t ih =>
    rw [List.mem_cons, not_or] at h
    rw [split_cons, ih h.2]
    simp [splitStep, Ne.symm h.1]

/-- Splitting at a separator splits each side. -/
theorem split_append (separator : UInt8) (s t : Text) :
    split separator (s ++ separator :: t) = split separator s ++ split separator t := by
  induction s with
  | nil => rw [List.nil_append, split_separator, split_nil, List.singleton_append]
  | cons b s ih =>
    rw [List.cons_append, split_cons, ih, split_cons]
    cases hs : split separator s with
    | nil => exact absurd hs (split_ne_nil separator s)
    | cons part parts =>
      by_cases hb : b = separator <;> simp [splitStep, hb]

/-- Joined parts come apart again. -/
theorem split_joined {separator : UInt8} {parts : List Text} (hne : parts ≠ [])
    (h : ∀ part ∈ parts, separator ∉ part) :
    split separator (joined [separator] parts) = parts := by
  induction parts with
  | nil => exact absurd rfl hne
  | cons part parts ih =>
    cases parts with
    | nil =>
      rw [joined, List.intercalate_singleton]
      exact split_eq_singleton (h part List.mem_cons_self)
    | cons next parts =>
      have hrest := ih (List.cons_ne_nil _ _) fun p hp => h p (List.mem_cons_of_mem _ hp)
      rw [joined] at hrest ⊢
      rw [List.intercalate_cons_cons, List.append_assoc, List.singleton_append, split_append,
        split_eq_singleton (h part List.mem_cons_self), hrest, List.singleton_append]

/-- What joined parts are made of. -/
theorem mem_joined {separator b : UInt8} {parts : List Text} (h : b ∈ joined [separator] parts) :
    b = separator ∨ ∃ part ∈ parts, b ∈ part := by
  induction parts with
  | nil => cases h
  | cons part parts ih =>
    rw [joined] at h ih
    cases parts with
    | nil =>
      rw [List.intercalate_singleton] at h
      exact .inr ⟨part, List.mem_cons_self, h⟩
    | cons next parts =>
      rw [List.intercalate_cons_cons, List.append_assoc, List.mem_append, List.singleton_append,
        List.mem_cons] at h
      rcases h with h | h | h
      · exact .inr ⟨part, List.mem_cons_self, h⟩
      · exact .inl h
      · rcases ih h with h | ⟨other, hother, hb⟩
        · exact .inl h
        · exact .inr ⟨other, List.mem_cons_of_mem _ hother, hb⟩

theorem mem_joined_of_mem {separator part : Text} {parts : List Text} {b : UInt8}
    (h : part ∈ parts) (hb : b ∈ part) : b ∈ joined separator parts := by
  induction parts with
  | nil => cases h
  | cons first parts ih =>
    rw [joined] at ih ⊢
    cases parts with
    | nil =>
      rw [List.intercalate_singleton]
      rwa [← List.mem_singleton.mp h]
    | cons next parts =>
      rw [List.intercalate_cons_cons]
      rcases List.mem_cons.mp h with rfl | h
      · exact List.mem_append_left _ (List.mem_append_left _ hb)
      · exact List.mem_append_right _ (ih h)

theorem cut_of_notMem {separator : UInt8} {t : Text} (h : separator ∉ t) :
    t.cut separator = (t, none) := by
  have hkeep : ∀ b ∈ t, (b != separator) = true := fun b hb =>
    bne_iff_ne.mpr fun heq => h (heq ▸ hb)
  rw [cut, List.span_eq_takeWhile_dropWhile, List.takeWhile_eq_self_iff.mpr hkeep,
    List.dropWhile_eq_nil_iff.mpr hkeep]

theorem cut_append {separator : UInt8} {before : Text} (h : separator ∉ before) (after : Text) :
    (before ++ separator :: after).cut separator = (before, some after) := by
  have hkeep : ∀ b ∈ before, (b != separator) = true := fun b hb =>
    bne_iff_ne.mpr fun heq => h (heq ▸ hb)
  rw [cut, List.span_eq_takeWhile_dropWhile, List.takeWhile_append_of_pos hkeep,
    List.dropWhile_append_of_pos hkeep, List.takeWhile_cons_of_neg (by simp),
    List.dropWhile_cons_of_neg (by simp), List.append_nil]

/-- A text is cut at its first separator or not at all. -/
theorem cut_cases (separator : UInt8) (t : Text) :
    t.cut separator = (t, none) ∨
      ∃ before after, t.cut separator = (before, some after) ∧
        t = before ++ separator :: after := by
  have hspan := List.takeWhile_append_dropWhile (p := (· != separator)) (l := t)
  rw [cut, List.span_eq_takeWhile_dropWhile]
  cases hrest : t.dropWhile (· != separator) with
  | nil =>
    rw [hrest, List.append_nil] at hspan
    exact .inl (by rw [hspan])
  | cons c after =>
    have hhead := List.head?_dropWhile_not (· != separator) t
    rw [hrest] at hhead hspan
    obtain rfl : c = separator := by simpa using hhead
    exact .inr ⟨_, after, rfl, hspan.symm⟩

end Text

/-! ## Clean paths -/

namespace Path

/-- A name that a node can have. -/
def IsName (name : Text) : Prop :=
  name ≠ [] ∧ name ≠ here ∧ name ≠ up ∧ Byte.slash ∉ name ∧ (0 : UInt8) ∉ name

instance (name : Text) : Decidable (IsName name) := inferInstanceAs (Decidable (_ ∧ _))

/-- Among the parts of a path, names stay and empty parts mean nothing. -/
theorem foldl_cleanStep (rooted : Bool) {parts : List Text}
    (h : ∀ part ∈ parts, part ≠ [] → IsName part) (clean : List Text) :
    parts.foldl (cleanStep rooted) clean = (parts.filter (!·.isEmpty)).reverse ++ clean := by
  induction parts generalizing clean with
  | nil => rfl
  | cons part parts ih =>
    have hrest := ih fun p hp => h p (List.mem_cons_of_mem part hp)
    rw [List.foldl_cons, hrest]
    by_cases hempty : part = []
    · subst hempty
      simp [cleanStep]
    · obtain ⟨hne, hhere, hup, -⟩ := h part List.mem_cons_self hempty
      have hstep : cleanStep rooted clean part = part :: clean := by
        simp [cleanStep, hne, hhere, hup]
      have hkeep : (!part.isEmpty) = true := by simpa using hne
      rw [hstep, List.filter_cons_of_pos (p := fun t : Text => !t.isEmpty) hkeep]
      simp

end Path

namespace Files

open XsPrep.Path

/-- The names of an address are names. -/
def Address.Proper (address : Address) : Prop := ∀ name ∈ address, IsName name

instance (address : Address) : Decidable address.Proper :=
  inferInstanceAs (Decidable (∀ name ∈ address, IsName name))

namespace Address.Proper

variable {address : Address}

theorem nil : Address.Proper [] := fun _ h => absurd h List.not_mem_nil

theorem filter_eq (h : Address.Proper address) : address.filter (!·.isEmpty) = address :=
  List.filter_eq_self.mpr fun name hname => by simpa using (h name hname).1

theorem parts_ofParts (h : Address.Proper address) :
    (parts (ofParts address)).filter (!·.isEmpty) = address := by
  cases address with
  | nil => rfl
  | cons name address =>
    rw [parts, ofParts, Text.split_joined (List.cons_ne_nil _ _) fun n hn => (h n hn).2.2.2.1]
    exact h.filter_eq

theorem parts_path (h : Address.Proper address) :
    (parts (Address.path address)).filter (!·.isEmpty) = address := by
  have hsplit : parts (Address.path address) = [] :: parts (ofParts address) :=
    Text.split_separator Byte.slash _
  rw [hsplit, List.filter_cons_of_neg (by simp)]
  exact h.parts_ofParts

/-- Different proper addresses have different paths. -/
theorem path_injective {other : Address} (h : Address.Proper address)
    (hother : Address.Proper other) (hpath : Address.path address = Address.path other) :
    address = other := by
  rw [← h.parts_path, hpath, hother.parts_path]

theorem zero_notMem_path (h : Address.Proper address) : (0 : UInt8) ∉ Address.path address := by
  intro hzero
  rcases List.mem_cons.mp hzero with hslash | hzero
  · cases hslash
  · rcases Text.mem_joined hzero with hslash | ⟨name, hname, hzero⟩
    · cases hslash
    · exact (h name hname).2.2.2.2 hzero

theorem append {names : List Text} (h : Address.Proper address) (hnames : Address.Proper names) :
    Address.Proper (address ++ names) := by
  intro name hname
  rcases List.mem_append.mp hname with hname | hname
  · exact h name hname
  · exact hnames name hname

/-- An absolute path whose parts are names, empty parts apart, is the path of
these names when it is clean. -/
theorem clean_eq_path {path : Text} (habsolute : isAbsolute path = true)
    (hparts : (parts path).filter (!·.isEmpty) = address) (h : Address.Proper address) :
    clean path = Address.path address := by
  have hnames : ∀ part ∈ parts path, part ≠ [] → IsName part := by
    intro part hpart hne
    refine h part ?_
    rw [← hparts]
    exact List.mem_filter.mpr ⟨hpart, by simpa using hne⟩
  have hcomponents : components path = address := by
    rw [components, foldl_cleanStep _ hnames, List.append_nil, List.reverse_reverse, hparts]
  rw [clean, if_pos habsolute, hcomponents]
  rfl

/-- Where the last name of a path begins. -/
theorem path_concat (address : Address) (name : Text) :
    ∃ before, Address.path (address ++ [name]) = before ++ Byte.slash :: name ∧
      (before = [] ∧ address = [] ∨ before = Address.path address) := by
  induction address with
  | nil => exact ⟨[], by simp [Address.path, ofParts, Text.joined], .inl ⟨rfl, rfl⟩⟩
  | cons first address ih =>
    refine ⟨Address.path (first :: address), ?_, .inr rfl⟩
    obtain ⟨before, hpath, hbefore⟩ := ih
    simp only [Address.path, ofParts, Text.joined, List.cons_append] at hpath hbefore ⊢
    cases address with
    | nil => simp [List.intercalate_cons_cons]
    | cons second address =>
      rcases hbefore with ⟨-, hnil⟩ | hbefore
      · cases hnil
      · subst hbefore
        rw [List.cons_append] at hpath
        rw [List.cons_append, List.intercalate_cons_cons, (List.cons.inj hpath).2,
          List.intercalate_cons_cons]
        simp

theorem directory_path {name : Text} (h : Address.Proper address) (hname : IsName name) :
    directory (Address.path (address ++ [name])) = Address.path address := by
  obtain ⟨before, hpath, hbefore⟩ := path_concat address name
  have hslash : ∀ b ∈ name.reverse, (b != Byte.slash) = true := by
    intro b hb
    have hno := hname.2.2.2.1
    rw [List.mem_reverse] at hb
    simpa using fun heq : b = Byte.slash => hno (heq ▸ hb)
  have hcut : ((before ++ Byte.slash :: name).reverse.dropWhile (· != Byte.slash)).reverse =
      before ++ [Byte.slash] := by
    rw [List.reverse_append, List.reverse_cons, List.append_assoc,
      List.dropWhile_append_of_pos hslash]
    simp
  rw [directory, hpath, hcut]
  refine clean_eq_path ?_ ?_ h
  · rcases hbefore with ⟨rfl, -⟩ | rfl <;> rfl
  · rw [parts, Text.split_append, Text.split_nil, List.filter_append]
    rcases hbefore with ⟨rfl, rfl⟩ | rfl
    · rfl
    · rw [← parts, h.parts_path]
      simp

theorem join_path {name : Text} (h : Address.Proper address) (hname : IsName name) :
    join [Address.path address, name] = Address.path (address ++ [name]) := by
  have hjoin : join [Address.path address, name] =
      clean (Address.path address ++ Byte.slash :: name) := by
    have hfilter : [Address.path address, name].filter (!·.isEmpty) =
        [Address.path address, name] := by
      simp [Address.path, hname.1]
    rw [join, hfilter]
    simp [ofParts, Text.joined, List.intercalate_cons_cons]
  rw [hjoin]
  refine clean_eq_path rfl ?_ (h.append fun n hn => List.mem_singleton.mp hn ▸ hname)
  rw [parts, Text.split_append, List.filter_append, ← parts, h.parts_path,
    Text.split_eq_singleton hname.2.2.2.1]
  simp [hname.1]

end Address.Proper

/-! ## Well-formed disks -/

/-- A disk whose nodes form a tree: each address is proper and has one node, and
the directory of a node is a directory. -/
structure Disk.WellFormed (disk : Disk) : Prop where
  /-- The root is no node of the list. -/
  ne_nil : ∀ e ∈ disk.nodes, e.1 ≠ []
  /-- Names are names. -/
  proper : ∀ e ∈ disk.nodes, Address.Proper e.1
  /-- An address has one node. -/
  distinct : (disk.nodes.map Prod.fst).Nodup
  /-- What is above a node is a directory. -/
  above : ∀ e ∈ disk.nodes, e.1.dropLast = [] ∨ (e.1.dropLast, Node.directory) ∈ disk.nodes

instance (disk : Disk) : Decidable disk.WellFormed :=
  decidable_of_iff
    ((∀ e ∈ disk.nodes, e.1 ≠ []) ∧ (∀ e ∈ disk.nodes, Address.Proper e.1) ∧
      (disk.nodes.map Prod.fst).Nodup ∧
      ∀ e ∈ disk.nodes, e.1.dropLast = [] ∨ (e.1.dropLast, Node.directory) ∈ disk.nodes)
    ⟨fun ⟨h₁, h₂, h₃, h₄⟩ => ⟨h₁, h₂, h₃, h₄⟩, fun h => ⟨h.ne_nil, h.proper, h.distinct, h.above⟩⟩

namespace Disk

variable {disk : Disk} {address : Address} {content : Text}

theorem mem_files_iff :
    (address, content) ∈ disk.files ↔ (address, Node.file content) ∈ disk.nodes := by
  unfold files
  rw [List.mem_filterMap]
  constructor
  · rintro ⟨⟨other, node⟩, hmem, hnode⟩
    cases node with
    | file text =>
      simp only [Option.some.injEq, Prod.mk.injEq] at hnode
      obtain ⟨rfl, rfl⟩ := hnode
      exact hmem
    | directory => cases hnode
    | link target => cases hnode
  · intro hmem
    exact ⟨_, hmem, rfl⟩

/-- In a list with distinct keys every entry is found by its key. -/
theorem find?_of_nodup {α : Type} {entries : List (Address × α)} {value : α}
    (hdistinct : (entries.map Prod.fst).Nodup) (h : (address, value) ∈ entries) :
    (entries.find? fun e => e.1 == address) = some (address, value) := by
  induction entries with
  | nil => cases h
  | cons e entries ih =>
    rw [List.map_cons, List.nodup_cons] at hdistinct
    rcases List.mem_cons.mp h with rfl | h
    · simp
    · have hother : e.1 ≠ address := fun heq => hdistinct.1 (heq ▸ List.mem_map_of_mem h)
      rw [List.find?_cons_of_neg (by simpa using hother)]
      exact ih hdistinct.2 h

namespace WellFormed

theorem node?_of_mem (hdisk : disk.WellFormed) {node : Node} (h : (address, node) ∈ disk.nodes) :
    disk.node? address = some node := by
  have hne : address.isEmpty = false := by simpa using hdisk.ne_nil _ h
  rw [node?, hne, if_neg Bool.false_ne_true, find?_of_nodup hdisk.distinct h]
  rfl

/-- Every address above a node is that of a directory. -/
theorem node?_above (hdisk : disk.WellFormed) {names : List Text} {node : Node}
    (h : (address ++ names, node) ∈ disk.nodes) (hne : names ≠ []) :
    disk.node? address = some .directory := by
  induction names using List.reverseRecOn generalizing node with
  | nil => exact absurd rfl hne
  | append_singleton names name ih =>
    have habove := hdisk.above _ h
    simp only [← List.append_assoc, List.dropLast_concat] at habove
    rcases habove with hnil | hmem
    · rw [(List.append_eq_nil_iff.mp hnil).1]
      rfl
    · by_cases hnames : names = []
      · subst hnames
        rw [List.append_nil] at hmem
        exact hdisk.node?_of_mem hmem
      · exact ih hmem hnames

/-- Names that lead to a node are followed to it, unless it is a link. -/
theorem walkWith_eq (hdisk : disk.WellFormed)
    (follow : Address → Text → List Text → Except Fault Address) {names : List Text} {node : Node}
    (hnode : ∀ target, node ≠ .link target) (h : (address ++ names, node) ∈ disk.nodes) :
    disk.walkWith follow address names = .ok (address ++ names) := by
  induction names generalizing address with
  | nil => rw [walkWith, List.append_nil]
  | cons name names ih =>
    have hname : IsName name :=
      hdisk.proper _ h name (List.mem_append_right _ List.mem_cons_self)
    have hrest : (address ++ [name]) ++ names = address ++ name :: names := by simp
    rw [← hrest] at h
    have hstep : ¬(name = [] ∨ name = here) := by
      rintro (heq | heq)
      · exact hname.1 heq
      · exact hname.2.1 heq
    rw [walkWith, if_neg hstep, if_neg hname.2.2.1]
    cases names with
    | nil =>
      rw [List.append_nil] at h
      rw [hdisk.node?_of_mem h]
      cases node with
      | file content => rfl
      | directory => rfl
      | link target => exact absurd rfl (hnode target)
    | cons second names =>
      rw [hdisk.node?_above h (List.cons_ne_nil _ _)]
      dsimp only
      rw [ih h, hrest]

theorem files_distinct (hdisk : disk.WellFormed) : (disk.files.map Prod.fst).Nodup := by
  have hsub : (disk.files.map Prod.fst).Sublist (disk.nodes.map Prod.fst) := by
    unfold files
    induction disk.nodes with
    | nil => exact List.Sublist.refl _
    | cons e nodes ih =>
      obtain ⟨other, node⟩ := e
      cases node with
      | file text => exact ih.cons_cons _
      | directory => exact ih.cons _
      | link target => exact ih.cons _
  exact hdisk.distinct.sublist hsub

theorem walk_eq (hdisk : disk.WellFormed) (links : Nat)
    (h : (address, Node.file content) ∈ disk.nodes) :
    disk.walk links [] ([] :: address) = .ok address := by
  have hwalk : ∀ follow, disk.walkWith follow [] ([] :: address) = .ok address := by
    intro follow
    rw [walkWith, if_pos (.inl rfl)]
    exact hdisk.walkWith_eq follow (fun _ => Node.noConfusion) h
  cases links with
  | zero => exact hwalk _
  | succ links => exact hwalk _

/-- The path of a file leads to it. -/
theorem address_path (hdisk : disk.WellFormed) (h : (address, content) ∈ disk.files) :
    disk.address (Address.path address) = .ok address := by
  rw [mem_files_iff] at h
  have hproper : Address.Proper address := hdisk.proper _ h
  have hfault : fault? (Address.path address) = none := by
    have hzero : (0 : UInt8) ∉ Address.path address := hproper.zero_notMem_path
    simp only [fault?, Address.path, List.isEmpty_cons] at hzero ⊢
    simp [hzero]
  have hparts : parts (Address.path address) = [] :: address := by
    rw [Address.path, parts, Text.split_separator, ofParts,
      Text.split_joined (hdisk.ne_nil _ h) fun name hname => (hproper name hname).2.2.2.1]
  rw [Disk.address, addressWithin, hfault, hparts]
  exact hdisk.walk_eq linkLimit h

theorem regularFile?_path (hdisk : disk.WellFormed) (h : (address, content) ∈ disk.files) :
    disk.regularFile? (Address.path address) = some (address, content) := by
  rw [regularFile?, hdisk.address_path h]
  exact find?_of_nodup hdisk.files_distinct h

end WellFormed

end Disk

end Files

end XsPrep
