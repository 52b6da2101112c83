import XsPrep.CommandLine.Index
import XsPrep.CommandLine.Preprocess

/-!
# What a command can reach

Before a command runs, the part of the file system that it can reach has to be
known.  These are the working directory and the directories that the arguments
name, each with everything below it.
-/

namespace XsPrep.CommandLine

/-- The directory that a pattern is expanded below. -/
def patternBase (pattern : Text) : Text :=
  let pattern := Path.clean pattern
  let (base, rest) := Glob.splitBase pattern
  if (Glob.firstMark? rest).isNone then pattern else base

/-- The paths of the directories that the preprocessor can reach. -/
def Preprocess.reach (library : Text) (arguments : List Text) : List Text :=
  match parseAll flags arguments {} with
  | .error _ => []
  | .ok (options, operands) =>
    [Path.here, library] ++ operands.map Path.directory ++ options.paths.map patternBase

/-- The paths of the directories that the indexer can reach. -/
def Index.reach (arguments : List Text) : List Text :=
  match parseRound flags arguments {} with
  | .error _ => []
  | .ok (options, _) => [Path.here, options.directory]

end XsPrep.CommandLine
