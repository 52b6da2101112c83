import XsPrep.Files.Access

/-!
# Changes of files

Writing a file creates it if its directory exists, also through a link whose
target is missing.  Directories are made with all directories above them, and
removing a node removes everything below it.
-/

namespace XsPrep.Files.Disk

/-- The disk with a node at an address, in place of the node there. -/
def put (disk : Disk) (address : Address) (node : Node) : Disk :=
  { disk with nodes := disk.nodes.filter (fun e => e.1 != address) ++ [(address, node)] }

/-- Where a file is written whose path has the given names behind the directory
at `address`.  All names before the last one have to lead to directories.  At a
link, `follow` goes on from the directory of the link with the target and the
names behind the link. -/
def writableWith (disk : Disk) (follow : Address → Text → List Text → Except Fault Address) :
    Address → List Text → Except Fault Address
  | _, [] => .error .isDirectory
  | address, name :: todo =>
    if todo.all List.isEmpty then
      -- The last name: only slashes can follow it, and these ask for a directory.
      if todo ≠ [] ∨ name = [] ∨ name = Path.here ∨ name = Path.up then .error .isDirectory
      else
        match disk.node? (address ++ [name]) with
        | none => .ok (address ++ [name])
        | some (.file _) => .ok (address ++ [name])
        | some .directory => .error .isDirectory
        | some (.link target) => follow address target []
    else if name = [] ∨ name = Path.here then writableWith disk follow address todo
    else if name = Path.up then writableWith disk follow address.dropLast todo
    else
      match disk.node? (address ++ [name]) with
      | none => .error .notFound
      | some .directory => writableWith disk follow (address ++ [name]) todo
      | some (.file _) => .error .notDirectory
      | some (.link target) => follow address target todo

/-- Where a file is written, through at most `links` links. -/
def writable (disk : Disk) : (links : Nat) → Address → List Text → Except Fault Address
  | 0 => writableWith disk fun _ _ _ => .error .tooManyLinks
  | links + 1 => writableWith disk fun address target todo =>
      writable disk links (origin address target) (Path.parts target ++ todo)

/-- The disk after a file was written, with its earlier content replaced. -/
def write (disk : Disk) (path content : Text) : Except Failure Disk :=
  let place : Except Fault Address :=
    match fault? path with
    | some fault => .error fault
    | none => disk.writable linkLimit (origin disk.workingDirectory path) (Path.parts path)
  match place with
  | .ok address => .ok (disk.put address (.file content))
  | .error fault => .error ⟨.opening, path, fault⟩

/-- The disk with a directory at every prefix of the names that leads nowhere
yet, from the directory at `address` on. -/
def makeDirectoriesFrom (disk : Disk) (address : Address) : List Text → Disk
  | [] => disk
  | name :: names =>
    match disk.walk linkLimit address [name] with
    | .ok next => makeDirectoriesFrom disk next names
    | .error _ =>
      makeDirectoriesFrom (disk.put (address ++ [name]) .directory) (address ++ [name]) names

/-- The disk with a directory at a path and at every path above it. -/
def makeDirectories (disk : Disk) (path : Text) : Disk :=
  disk.makeDirectoriesFrom [] (Path.components (disk.absolute path))

/-- The disk with a link at a path. -/
def makeLink (disk : Disk) (path target : Text) : Disk :=
  let path := disk.absolute path
  match disk.address (Path.directory path) with
  | .ok directory => disk.put (directory ++ [Path.base path]) (.link target)
  | .error _ => disk

/-- The disk without the node at a path and all nodes below it. -/
def remove (disk : Disk) (path : Text) : Disk :=
  let path := disk.absolute path
  match disk.address (Path.directory path) with
  | .ok directory =>
    let gone := directory ++ [Path.base path]
    { disk with nodes := disk.nodes.filter fun e => !gone.isPrefixOf e.1 }
  | .error _ => disk

end XsPrep.Files.Disk
