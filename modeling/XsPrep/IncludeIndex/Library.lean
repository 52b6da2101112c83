import XsPrep.Glob.Expand
import XsPrep.IncludeIndex.Basic

/-!
# Indexes of libraries

The index of a library lists all source files below a directory.  Each is
provided by the target of its directory, which is named like the directory.
Files in hidden and private directories are left out, and so are hidden and
private files.
-/

namespace XsPrep.IncludeIndex

/-- Whether a component of a path is hidden or private. -/
def isPrivatePart (part : Text) : Bool :=
  part.head? == some Byte.dot || part.head? == some Byte.underscore

/-- Whether a path has a hidden or private component. -/
def isPrivate (path : Text) : Bool := (Path.parts path).any isPrivatePart

/-- The target that provides a file of a library. -/
def libraryTarget (repository rootTarget path : Text) : Label :=
  let package := Path.directory path
  if package = Path.here then ⟨repository, [], rootTarget, false, false⟩
  else ⟨repository, package, Path.base package, false, false⟩

/-- The pattern of the source files of a library. -/
def sourcePattern : Text := bytes "**/*.xs"

/-- The index of the library in a directory. -/
def ofLibrary (disk : Files.Disk) (directory repository rootTarget : Text) : IncludeIndex :=
  let paths := (Glob.expandBelow disk directory true sourcePattern).getD []
  (paths.filter (!isPrivate ·)).foldl
    (fun index path => index.add path (libraryTarget repository rootTarget path)) .empty

end XsPrep.IncludeIndex
