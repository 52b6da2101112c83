import XsPrep.Files.Disk
import XsPrep.Ordered.Table

/-!
# Access to files

A path is followed from the root or the working directory, name by name, and
through every link on the way.  A link that stands before the end of the path
is replaced by its target.  The number of links on one way is limited, so a
loop of links is a fault and following a path ends.
-/

namespace XsPrep.Files

namespace Disk

/-- Follows the names in `todo` from the directory at `address`.  At a link,
`follow` goes on from the directory of the link with the target and the names
behind the link. -/
def walkWith (disk : Disk) (follow : Address → Text → List Text → Except Fault Address) :
    Address → List Text → Except Fault Address
  | address, [] => .ok address
  | address, name :: todo =>
    if name = [] ∨ name = Path.here then walkWith disk follow address todo
    else if name = Path.up then walkWith disk follow address.dropLast todo
    else
      match disk.node? (address ++ [name]) with
      | none => .error .notFound
      | some .directory => walkWith disk follow (address ++ [name]) todo
      | some (.file _) => if todo.isEmpty then .ok (address ++ [name]) else .error .notDirectory
      | some (.link target) => follow address target todo

/-- The directory that a path starts from, seen from the directory at
`address`. -/
def origin (address : Address) (path : Text) : Address :=
  if Path.isAbsolute path then [] else address

/-- Follows the names in `todo` through at most `links` links. -/
def walk (disk : Disk) : (links : Nat) → Address → List Text → Except Fault Address
  | 0 => walkWith disk fun _ _ _ => .error .tooManyLinks
  | links + 1 => walkWith disk fun address target todo =>
      walk disk links (origin address target) (Path.parts target ++ todo)

/-- The most links that are followed on the way to a file. -/
def linkLimit : Nat := 40

/-- The most links that are followed to find the address of a path for good. -/
def canonicalLinkLimit : Nat := 255

/-- Whether a path can be handed to the operating system at all. -/
def fault? (path : Text) : Option Fault :=
  if path.isEmpty then some .notFound
  else if path.contains 0 then some .invalidPath
  else none

/-- The address of the node that a path leads to through at most `links` links. -/
def addressWithin (disk : Disk) (links : Nat) (path : Text) : Except Fault Address :=
  match fault? path with
  | some fault => .error fault
  | none => disk.walk links (origin disk.workingDirectory path) (Path.parts path)

/-- The address of the node that a path leads to. -/
def address (disk : Disk) (path : Text) : Except Fault Address :=
  disk.addressWithin linkLimit path

/-- The address and content of the regular file that a path leads to. -/
def regularFile? (disk : Disk) (path : Text) : Option (Address × Text) :=
  match disk.address path with
  | .ok address => disk.files.find? fun e => e.1 == address
  | .error _ => none

/-- Whether a path leads to a directory. -/
def isDirectory (disk : Disk) (path : Text) : Bool :=
  match disk.address path with
  | .ok address => disk.node? address == some .directory
  | .error _ => false

/-- Whether a path leads to anything. -/
def leadsSomewhere (disk : Disk) (path : Text) : Bool := (disk.address path).isOk

/-- The absolute form of a path by its text. -/
def absolute (disk : Disk) (path : Text) : Text :=
  Path.absolute disk.workingDirectory.path path

/-- The absolute path of a file with all links resolved.  A path that leads
nowhere is only made absolute. -/
def canonical (disk : Disk) (path : Text) : Text :=
  match disk.addressWithin canonicalLinkLimit (disk.absolute path) with
  | .ok address => address.path
  | .error _ => disk.absolute path

/-- The address and content of the file a path leads to. -/
def fetch (disk : Disk) (path : Text) : Except Failure (Address × Text) :=
  match disk.address path with
  | .error fault => .error ⟨.opening, path, fault⟩
  | .ok address =>
    match disk.files.find? fun e => e.1 == address with
    | some file => .ok file
    | none => .error ⟨.reading, path, .isDirectory⟩

/-- The content of the file a path leads to. -/
def read (disk : Disk) (path : Text) : Except Failure Text := (disk.fetch path).map Prod.snd

/-- The names in the directory at an address, in ascending order, with their
nodes. -/
def entries (disk : Disk) (address : Address) : List (Text × Node) :=
  (Table.ofList (disk.nodes.filterMap fun e =>
    match e.1.getLast? with
    | some name => if e.1.dropLast = address then some (name, e.2) else none
    | none => none)).entries

end Disk

end XsPrep.Files
