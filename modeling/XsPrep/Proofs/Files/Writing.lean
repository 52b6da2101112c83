import XsPrep.Files.Change

/-!
# Reading what was written

The place where a file is written holds no directory and no link, so the way to it does not lead
through it (`Disk.IsFree`).  Putting a file there changes none of the nodes on the way,
and following the same path again ends at the new file (`Disk.walk_of_writable`).
-/

namespace XsPrep.Files.Disk

variable {disk : Disk} {place : Address}

/-- A place where a file can stand: what stands there is nothing or a file. -/
def IsFree (disk : Disk) (place : Address) : Prop :=
  place ≠ [] ∧ disk.node? place ≠ some .directory ∧ ∀ target, disk.node? place ≠ some (.link target)

/-! ## The nodes of a disk with one more file -/

theorem node?_put_self (hplace : place ≠ []) (disk : Disk) (node : Node) :
    (disk.put place node).node? place = some node := by
  have hne : place.isEmpty = false := by simpa using hplace
  have hgone : ((disk.nodes.filter fun e => e.1 != place).find? fun e => e.1 == place) = none := by
    simp
  rw [node?, hne, if_neg Bool.false_ne_true, put, List.find?_append, hgone]
  simp

theorem node?_put_of_ne {address : Address} (h : address ≠ place) (disk : Disk) (node : Node) :
    (disk.put place node).node? address = disk.node? address := by
  have hkeep : ((disk.nodes.filter fun e => e.1 != place).find? fun e => e.1 == address) =
      disk.nodes.find? fun e => e.1 == address := by
    rw [List.find?_filter]
    refine congrArg (List.find? · disk.nodes) ?_
    funext e
    by_cases he : e.1 = address
    · simp [he, h]
    · simp [he]
  have hnew : ([(place, node)].find? fun e => e.1 == address) = none := by
    simpa using Ne.symm h
  rw [node?, node?, put, List.find?_append, hkeep, hnew, Option.or_none]

/-- A directory on the way is not where the file goes. -/
theorem IsFree.node?_directory (hfree : disk.IsFree place) {address : Address}
    (h : disk.node? address = some .directory) (node : Node) :
    (disk.put place node).node? address = some .directory := by
  have hne : address ≠ place := by
    rintro rfl
    exact hfree.2.1 h
  rw [node?_put_of_ne hne, h]

theorem IsFree.node?_link (hfree : disk.IsFree place) {address : Address} {target : Text}
    (h : disk.node? address = some (.link target)) (node : Node) :
    (disk.put place node).node? address = some (.link target) := by
  have hne : address ≠ place := by
    rintro rfl
    exact hfree.2.2 target h
  rw [node?_put_of_ne hne, h]

/-! ## Following the path again -/

/-- Where the way through a link ends, a file can stand, and on the disk with the file the way is
the same. -/
def Returns (disk : Disk) (follow : Address → Text → List Text → Except Fault Address)
    (follow' : Disk → Address → Text → List Text → Except Fault Address) : Prop :=
  ∀ address target todo place, follow address target todo = .ok place →
    disk.IsFree place ∧ ∀ content, follow' (disk.put place (.file content)) address target todo =
      .ok place

theorem walkWith_of_writableWith
    {follow : Address → Text → List Text → Except Fault Address}
    (follow' : Disk → Address → Text → List Text → Except Fault Address)
    (hfollow : disk.Returns follow follow') {address : Address} {names : List Text}
    (h : disk.writableWith follow address names = .ok place) :
    disk.IsFree place ∧ ∀ content,
      (disk.put place (.file content)).walkWith (follow' (disk.put place (.file content)))
        address names = .ok place := by
  induction names generalizing address with
  | nil => cases h
  | cons name todo ih =>
    rw [writableWith] at h
    split at h
    · -- The last name.
      split at h
      · cases h
      · rename_i hname
        simp only [not_or, Decidable.not_not] at hname
        obtain ⟨rfl, hne, hhere, hup⟩ := hname
        have hstep : ¬(name = [] ∨ name = Path.here) := not_or.mpr ⟨hne, hhere⟩
        have hplace : address ++ [name] ≠ [] := by simp
        split at h
        · rename_i hnode
          cases h
          refine ⟨⟨hplace, by simp [hnode], by simp [hnode]⟩, fun content => ?_⟩
          rw [walkWith, if_neg hstep, if_neg hup, node?_put_self hplace]
          rfl
        · rename_i hnode
          cases h
          refine ⟨⟨hplace, by simp [hnode], by simp [hnode]⟩, fun content => ?_⟩
          rw [walkWith, if_neg hstep, if_neg hup, node?_put_self hplace]
          rfl
        · cases h
        · rename_i target hnode
          obtain ⟨hfree, hagain⟩ := hfollow _ _ _ _ h
          refine ⟨hfree, fun content => ?_⟩
          rw [walkWith, if_neg hstep, if_neg hup, hfree.node?_link hnode]
          exact hagain content
    · split at h
      · rename_i hvoid
        obtain ⟨hfree, hagain⟩ := ih h
        refine ⟨hfree, fun content => ?_⟩
        rw [walkWith, if_pos hvoid]
        exact hagain content
      rename_i hvoid
      split at h
      · rename_i hup
        obtain ⟨hfree, hagain⟩ := ih h
        refine ⟨hfree, fun content => ?_⟩
        rw [walkWith, if_neg hvoid, if_pos hup]
        exact hagain content
      rename_i hup
      split at h
      · cases h
      · rename_i hnode
        obtain ⟨hfree, hagain⟩ := ih h
        refine ⟨hfree, fun content => ?_⟩
        rw [walkWith, if_neg hvoid, if_neg hup, hfree.node?_directory hnode]
        exact hagain content
      · cases h
      · rename_i target hnode
        obtain ⟨hfree, hagain⟩ := hfollow _ _ _ _ h
        refine ⟨hfree, fun content => ?_⟩
        rw [walkWith, if_neg hvoid, if_neg hup, hfree.node?_link hnode]
        exact hagain content

/-- The way to the place of a file is the way to the file that is put there. -/
theorem walk_of_writable {links : Nat} {address : Address} {names : List Text}
    (h : disk.writable links address names = .ok place) :
    disk.IsFree place ∧ ∀ content,
      (disk.put place (.file content)).walk links address names = .ok place := by
  induction links generalizing address names place with
  | zero =>
    rw [writable] at h
    refine walkWith_of_writableWith (fun _ _ _ _ => .error .tooManyLinks) ?_ h
    intro _ _ _ _ hfollow
    cases hfollow
  | succ links ih =>
    rw [writable] at h
    refine walkWith_of_writableWith
      (fun disk address target todo =>
        disk.walk links (origin address target) (Path.parts target ++ todo)) ?_ h
    intro _ _ _ _ hfollow
    exact ih hfollow

/-- A path can be written to: some content can be put there. -/
def IsWritable (disk : Disk) (path : Text) : Prop :=
  ∃ content disk', disk.write path content = .ok disk'

/-- Whether a path can be written to does not hang on the content. -/
theorem IsWritable.write {path : Text} (h : disk.IsWritable path) (content : Text) :
    ∃ disk', disk.write path content = .ok disk' := by
  obtain ⟨other, disk', hwrite⟩ := h
  rw [Disk.write] at hwrite ⊢
  split at hwrite
  · exact ⟨_, rfl⟩
  · cases hwrite

/-- Writing changes one place, and that is where the path leads afterwards. -/
theorem exists_place_of_write {disk' : Disk} {path content : Text}
    (h : disk.write path content = .ok disk') :
    ∃ place, disk.IsFree place ∧ disk' = disk.put place (.file content) ∧
      disk'.address path = .ok place := by
  rw [write] at h
  cases hfault : fault? path with
  | some fault =>
    rw [hfault] at h
    cases h
  | none =>
    rw [hfault] at h
    dsimp only at h
    split at h
    · rename_i place hplace
      cases h
      obtain ⟨hfree, hwalk⟩ := walk_of_writable hplace
      refine ⟨place, hfree, rfl, ?_⟩
      rw [address, addressWithin, hfault]
      exact hwalk content
    · cases h

/-- From the first disk to the second one, nothing is created or changed but the file that the
path leads to, and that file has the given content. -/
def ChangesOnly (disk after : Disk) (path content : Text) : Prop :=
  after.workingDirectory = disk.workingDirectory ∧
    ∃ place, disk.IsFree place ∧ after.address path = .ok place ∧
      after.node? place = some (.file content) ∧
      ∀ address, address ≠ place → after.node? address = disk.node? address

theorem changesOnly_of_write {disk' : Disk} {path content : Text}
    (h : disk.write path content = .ok disk') : disk.ChangesOnly disk' path content := by
  obtain ⟨place, hfree, rfl, haddress⟩ := exists_place_of_write h
  refine ⟨rfl, place, hfree, haddress, node?_put_self hfree.1 disk _, ?_⟩
  intro address hne
  exact node?_put_of_ne hne disk _

theorem find?_files_put (disk : Disk) (place : Address) (content : Text) :
    ((disk.put place (.file content)).files.find? fun e => e.1 == place) =
      some (place, content) := by
  have hgone : ∀ e ∈ disk.nodes.filter (fun e => e.1 != place), e.1 ≠ place := by simp
  rw [put, files, List.filterMap_append, List.find?_append]
  rw [List.find?_eq_none.mpr]
  · simp
  · intro e he
    obtain ⟨node, hnode, hcontent⟩ := List.mem_filterMap.mp he
    have hother := hgone node hnode
    split at hcontent
    · cases hcontent
      simpa using hother
    · cases hcontent

/-- What was written to a path is read from it. -/
theorem read_of_write {disk' : Disk} {path content : Text}
    (h : disk.write path content = .ok disk') : disk'.read path = .ok content := by
  obtain ⟨place, -, rfl, haddress⟩ := exists_place_of_write h
  rw [read, fetch, haddress]
  dsimp only
  rw [find?_files_put]
  rfl

end XsPrep.Files.Disk
