import XsPrep.Text.Basic

/-!
# Paths

Operations on the text of a path.  They look at no file.  A path is split at
its slashes, empty and `.` components mean nothing, and `..` cancels the
component before it.  The clean form of a path has none of these left except
`..` at the front of a relative path.
-/

namespace XsPrep.Path

/-- The component of a directory itself. -/
def here : Text := [Byte.dot]

/-- The component of the directory above. -/
def up : Text := [Byte.dot, Byte.dot]

/-- The parts of a path between its slashes. -/
def parts (path : Text) : List Text := path.split Byte.slash

/-- Components as the text of a relative path. -/
def ofParts (components : List Text) : Text := Text.joined [Byte.slash] components

/-- Whether a path starts at the root. -/
def isAbsolute (path : Text) : Bool := path.head? == some Byte.slash

/-- The clean components, newest first, after one more part.  At the root `..`
stays where it is. -/
def cleanStep (rooted : Bool) (clean : List Text) (part : Text) : List Text :=
  if part = [] ∨ part = here then clean
  else if part = up then
    match clean with
    | [] => if rooted then [] else [up]
    | last :: before => if last = up then up :: clean else before
  else part :: clean

/-- The clean components of a path. -/
def components (path : Text) : List Text :=
  ((parts path).foldl (cleanStep (isAbsolute path)) []).reverse

/-- The shortest path that means the same by its text. -/
def clean (path : Text) : Text :=
  if isAbsolute path then Byte.slash :: ofParts (components path)
  else
    match components path with
    | [] => here
    | cs => ofParts cs

/-- The clean path through all paths, one behind the other.  Empty paths are
left out. -/
def join (paths : List Text) : Text :=
  match paths.filter (!·.isEmpty) with
  | [] => []
  | paths => clean (ofParts paths)

/-- The absolute form of a path seen from `directory`. -/
def absolute (directory path : Text) : Text :=
  if isAbsolute path then clean path else join [directory, path]

/-- The text behind the last slash. -/
def lastPart (path : Text) : Text := (path.reverse.takeWhile (· != Byte.slash)).reverse

/-- The last component of a path.  It is `.` for the empty path and `/` for a
path of slashes. -/
def base (path : Text) : Text :=
  match path.reverse.dropWhile (· == Byte.slash) with
  | [] => if path.isEmpty then here else [Byte.slash]
  | trimmed => lastPart trimmed.reverse

/-- The clean path of the directory of a path. -/
def directory (path : Text) : Text :=
  clean (path.reverse.dropWhile (· != Byte.slash)).reverse

/-- The last component from its last dot on, and nothing if it has none. -/
def extension (path : Text) : Text :=
  let last := (lastPart path).reverse
  match last.span (· != Byte.dot) with
  | (_, []) => []
  | (behind, dot :: _) => (dot :: behind.reverse)

end XsPrep.Path
