import XsPrep.Label
import XsPrep.Ordered.Table

/-!
# Include indexes

An include index lists for each include path the build targets that provide the
file.  A path is unique if it has one target, and ambiguous if it has several.
-/

namespace XsPrep

/-- The targets that provide each include path, in the order they were added. -/
abbrev IncludeIndex := Table (List Label)

namespace IncludeIndex

/-- What an index knows about an include path. -/
inductive Answer where
  /-- The one target that provides it. -/
  | unique (target : Label)
  /-- The targets that provide it, if there are several. -/
  | ambiguous (targets : List Label)
  /-- Nothing provides it. -/
  | missing
deriving DecidableEq, Repr

/-- The targets listed for an include path. -/
def targets (index : IncludeIndex) (path : Text) : List Label := (index.get? path).getD []

/-- The index with one more target for a path, unless it is listed there. -/
def add (index : IncludeIndex) (path : Text) (target : Label) : IncludeIndex :=
  if (index.targets path).contains target then index
  else index.insert path (index.targets path ++ [target])

/-- What targets say about their path. -/
def Answer.ofTargets : List Label → Answer
  | [] => .missing
  | [target] => .unique target
  | targets => .ambiguous targets

/-- Looks up an include path. -/
def lookup (index : IncludeIndex) (path : Text) : Answer := .ofTargets (index.targets path)

/-- Labels as messages list them. -/
def labelsText (labels : List Label) : Text :=
  bytes "[" ++ Text.joined (bytes " ") (labels.map Label.text) ++ bytes "]"

/-- The lines of the unique paths of an index. -/
def uniqueLines (index : IncludeIndex) : List (Text × Text) :=
  index.entries.filterMap fun (path, targets) =>
    match Answer.ofTargets targets with
    | .unique target => some (path, target.text)
    | _ => none

/-- The lines of the ambiguous paths of an index. -/
def ambiguousLines (index : IncludeIndex) : List (Text × Text) :=
  index.entries.filterMap fun (path, targets) =>
    match Answer.ofTargets targets with
    | .ambiguous targets => some (path, labelsText targets)
    | _ => none

/-- A section of the summary. -/
def summaryPart (title : String) (lines : List (Text × Text)) : Text :=
  bytes "  " ++ bytes title ++ bytes " mappings (" ++ Text.decimal lines.length ++ bytes "):\n" ++
    lines.flatMap fun (path, targets) =>
      bytes "    " ++ Text.padded 60 path.quoted ++ bytes ": " ++ targets ++ bytes "\n"

/-- A summary of the index for people. -/
def summary (index : IncludeIndex) : Text :=
  bytes "Indexing result:\n" ++ summaryPart "Unique" index.uniqueLines ++
    summaryPart "Ambiguous" index.ambiguousLines

end IncludeIndex

end XsPrep
