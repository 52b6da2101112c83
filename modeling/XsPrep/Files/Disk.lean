import XsPrep.Path

/-!
# Disks

A disk is a tree of directories, regular files and symbolic links, together
with a working directory.  The tree is a list of nodes, each with its address:
the names that lead to it from the root.  No name is `.` or `..` and no address
goes through a link, so an address is the one identity of a node.

The faults are the ones an operating system reports for a path that leads
nowhere or to a node of the wrong kind.
-/

namespace XsPrep.Files

/-- The names from the root to a node. -/
abbrev Address := List Text

/-- The absolute path of an address. -/
def Address.path (address : Address) : Text := Byte.slash :: Path.ofParts address

/-- What stands at an address. -/
inductive Node where
  /-- A regular file. -/
  | file (content : Text)
  /-- A directory. -/
  | directory
  /-- A symbolic link. -/
  | link (target : Text)
deriving DecidableEq, Repr

/-- A file system and the directory that relative paths start from. -/
structure Disk where
  /-- The nodes below the root. -/
  nodes : List (Address × Node)
  /-- The address of the working directory. -/
  workingDirectory : Address
deriving DecidableEq, Repr, Inhabited

/-- Why a path leads to no usable node. -/
inductive Fault where
  /-- A name is missing. -/
  | notFound
  /-- A name that has to be a directory is none. -/
  | notDirectory
  /-- A name that must not be a directory is one. -/
  | isDirectory
  /-- There are too many links on the way. -/
  | tooManyLinks
  /-- The path is no possible path. -/
  | invalidPath
deriving DecidableEq, Repr

/-- The text of a fault. -/
def Fault.text : Fault → Text
  | .notFound => bytes "no such file or directory"
  | .notDirectory => bytes "not a directory"
  | .isDirectory => bytes "is a directory"
  | .tooManyLinks => bytes "too many levels of symbolic links"
  | .invalidPath => bytes "invalid argument"

/-- What was being done to a path. -/
inductive Action where
  /-- Opening it. -/
  | opening
  /-- Reading it after it was opened. -/
  | reading
deriving DecidableEq, Repr

/-- A failed access to a path. -/
structure Failure where
  /-- What failed. -/
  action : Action
  /-- The path as it was given. -/
  path : Text
  /-- The reason. -/
  fault : Fault
deriving DecidableEq, Repr

/-- The text of a failure. -/
def Failure.text (failure : Failure) : Text :=
  (match failure.action with
    | .opening => bytes "open "
    | .reading => bytes "read ") ++
  failure.path ++ bytes ": " ++ failure.fault.text

namespace Disk

/-- The node at an address.  The root is a directory. -/
def node? (disk : Disk) (address : Address) : Option Node :=
  if address.isEmpty then some .directory
  else (disk.nodes.find? fun e => e.1 == address).map Prod.snd

/-- The regular files with their contents. -/
def files (disk : Disk) : List (Address × Text) :=
  disk.nodes.filterMap fun e =>
    match e.2 with
    | .file content => some (e.1, content)
    | _ => none

end Disk

end XsPrep.Files
