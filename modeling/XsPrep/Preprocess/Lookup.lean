import XsPrep.Files.Access
import XsPrep.Preprocess.Finding

/-!
# Looking up included files

A name that starts with `./` is looked up only in the directory of the including
file.  Any other name is looked up there first and then in every include
directory in order.  The first candidate that leads to a regular file is the one
included.
-/

namespace XsPrep

namespace Lookup

/-- The mark of a name that is local to its directory. -/
def localMark : Text := bytes "./"

/-- The paths tried for a name, in order.  `directory` is the directory of the
including file. -/
def candidates (directory : Text) (includeDirectories : List Text) (name : Text) : List Text :=
  match Text.without? localMark name with
  | some inner => [Path.join [directory, inner]]
  | none => (directory :: includeDirectories).map fun d => Path.join [d, name]

/-- The problem of a name without a file. -/
def missing (directory : Text) (includeDirectories : List Text) (name : Text) : Problem :=
  match Text.without? localMark name with
  | some inner => .localIncludeMissing (Path.join [directory, inner])
  | none => .includeMissing name (directory :: includeDirectories)

/-- The file included by a name. -/
def find (disk : Files.Disk) (directory : Text) (includeDirectories : List Text) (name : Text) :
    Except Problem (Files.Address × Text) :=
  match (candidates directory includeDirectories name).findSome? disk.regularFile? with
  | some file => .ok file
  | none => .error (missing directory includeDirectories name)

end Lookup

end XsPrep
