import XsPrep.Proofs.Preprocess.Steps

/-!
# Disks with other contents

Paths are followed by the names of files and by the targets of links.  The contents of
files do not matter.  So on a disk with other contents in its files (`Disk.rewrite`) each
path leads to the same address, and each search for a file finds the same file, with the
other content.
-/

namespace XsPrep

namespace Files

/-- The node with another content, if it is a file. -/
def Node.rewrite (f : Text → Text) : Node → Node
  | .file content => .file (f content)
  | .directory => .directory
  | .link target => .link target

namespace Disk

/-- The disk with other contents in its files. -/
def rewrite (f : Address → Text → Text) (disk : Disk) : Disk :=
  { disk with nodes := disk.nodes.map fun e => (e.1, e.2.rewrite (f e.1)) }

variable (f : Address → Text → Text) (disk : Disk)

theorem find?_rewrite {α β : Type} (g : Address → α → β) (entries : List (Address × α))
    (address : Address) :
    ((entries.map fun e => (e.1, g e.1 e.2)).find? fun e => e.1 == address) =
      (entries.find? fun e => e.1 == address).map fun e => (e.1, g e.1 e.2) :=
  List.find?_map

/-! ## Following paths -/

theorem rewrite_node? (address : Address) :
    (disk.rewrite f).node? address = (disk.node? address).map (Node.rewrite (f address)) := by
  rw [node?, node?]
  split
  · rfl
  · rw [rewrite, find?_rewrite fun address node => Node.rewrite (f address) node]
    cases hfind : disk.nodes.find? fun e => e.1 == address with
    | none => rfl
    | some e =>
      have haddress : e.1 = address := by simpa using List.find?_some hfind
      rw [← haddress]
      rfl

theorem rewrite_walkWith (follow : Address → Text → List Text → Except Fault Address)
    (address : Address) (todo : List Text) :
    (disk.rewrite f).walkWith follow address todo = disk.walkWith follow address todo := by
  induction todo generalizing address with
  | nil => rw [walkWith, walkWith]
  | cons name todo ih =>
    rw [walkWith, walkWith, ih, ih, ih, rewrite_node?]
    cases disk.node? (address ++ [name]) with
    | none => rfl
    | some node => cases node <;> rfl

theorem rewrite_walk (links : Nat) : (disk.rewrite f).walk links = disk.walk links := by
  induction links with
  | zero =>
    funext address todo
    exact rewrite_walkWith f disk _ address todo
  | succ links ih =>
    funext address todo
    rw [walk, walk, ih]
    exact rewrite_walkWith f disk _ address todo

theorem rewrite_addressWithin (links : Nat) (path : Text) :
    (disk.rewrite f).addressWithin links path = disk.addressWithin links path := by
  rw [addressWithin, addressWithin, rewrite_walk]
  rfl

theorem rewrite_address (path : Text) : (disk.rewrite f).address path = disk.address path :=
  rewrite_addressWithin f disk linkLimit path

theorem rewrite_absolute (path : Text) : (disk.rewrite f).absolute path = disk.absolute path :=
  rfl

theorem rewrite_canonical (path : Text) :
    (disk.rewrite f).canonical path = disk.canonical path := by
  rw [canonical, canonical, rewrite_absolute, rewrite_addressWithin]

/-! ## Finding files -/

theorem rewrite_files :
    (disk.rewrite f).files = disk.files.map fun e => (e.1, f e.1 e.2) := by
  rw [files, files, rewrite, List.filterMap_map, List.map_filterMap]
  refine List.filterMap_congr ?_
  rintro ⟨address, node⟩ -
  cases node <;> rfl

theorem rewrite_regularFile? (path : Text) :
    (disk.rewrite f).regularFile? path =
      (disk.regularFile? path).map fun e => (e.1, f e.1 e.2) := by
  rw [regularFile?, regularFile?, rewrite_address]
  cases disk.address path with
  | error fault => rfl
  | ok address =>
    dsimp only
    rw [rewrite_files, find?_rewrite]

theorem rewrite_fetch (path : Text) :
    (disk.rewrite f).fetch path = (disk.fetch path).map fun e => (e.1, f e.1 e.2) := by
  rw [fetch, fetch, rewrite_address]
  cases disk.address path with
  | error fault => rfl
  | ok address =>
    dsimp only
    rw [rewrite_files, find?_rewrite]
    cases disk.files.find? fun e => e.1 == address with
    | none => rfl
    | some e => rfl

end Disk

end Files

theorem Lookup.rewrite_find (f : Files.Address → Text → Text) (disk : Files.Disk)
    (directory : Text) (dirs : List Text) (name : Text) :
    find (disk.rewrite f) directory dirs name =
      (find disk directory dirs name).map fun e => (e.1, f e.1 e.2) := by
  have hfirst : ∀ paths : List Text, paths.findSome? (disk.rewrite f).regularFile? =
      (paths.findSome? disk.regularFile?).map fun e => (e.1, f e.1 e.2) := by
    intro paths
    rw [List.map_findSome?]
    refine congrArg (List.findSome? · paths) ?_
    funext path
    exact Files.Disk.rewrite_regularFile? f disk path
  rw [find, find, hfirst]
  cases (candidates directory dirs name).findSome? disk.regularFile? with
  | none => rfl
  | some e => rfl

theorem Session.rewrite_opened (f : Files.Address → Text → Text) (session : Session)
    (disk : Files.Disk) (root : Text) :
    session.opened (disk.rewrite f) root =
      (disk.fetch (disk.canonical root)).map fun file =>
        (Run.ofMacros session.settings.predefined).enter file.1 (f file.1 file.2) := by
  rw [opened, Files.Disk.rewrite_canonical, Files.Disk.rewrite_fetch]
  cases disk.fetch (disk.canonical root) with
  | error failure => rfl
  | ok file => rfl

theorem Session.rewrite_unopened (f : Files.Address → Text → Text) {session : Session}
    {disk : Files.Disk} {root : Text} {failure : Files.Failure}
    (hopened : session.opened disk root = .error failure) :
    session.opened (disk.rewrite f) root = .error failure := by
  rw [rewrite_opened]
  rw [opened] at hopened
  cases hfetch : disk.fetch (disk.canonical root) with
  | error failure' =>
    rw [hfetch] at hopened
    exact hopened
  | ok file =>
    rw [hfetch] at hopened
    cases hopened

end XsPrep
