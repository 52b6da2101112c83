import XsPrep.Source.Flaw
import XsPrep.Files.Disk
import XsPrep.Diagnostic
import XsPrep.Text.Quoted

/-!
# Findings of a run

A run ends at the first problem.  Advice goes on a list of warnings and the run
continues.
-/

namespace XsPrep

/-- What ends a run. -/
inductive Problem where
  /-- A construct of the text that was being read has a flaw. -/
  | flawed (flaw : Flaw)
  /-- A block is closed that was never opened. -/
  | unmatchedClosing
  /-- A name that starts with `./` leads to no regular file. -/
  | localIncludeMissing (candidate : Text)
  /-- No directory has a regular file with the name. -/
  | includeMissing (name : Text) (searched : List Text)
  /-- A file cannot be read. -/
  | unreadable (failure : Files.Failure)
deriving DecidableEq, Repr

/-- The message of a problem. -/
def Problem.message : Problem → Text
  | .flawed flaw => flaw.message
  | .unmatchedClosing => bytes "#endif without matching #ifdef"
  | .localIncludeMissing candidate => bytes "local included file not found: " ++ candidate
  | .includeMissing name searched =>
    bytes "included file " ++ name.quoted ++ bytes " not found, searched: " ++
      Text.joined (bytes ", ") searched
  | .unreadable failure =>
    bytes "failed to read " ++ failure.path ++ bytes ": " ++ failure.text

/-- What a run warns about. -/
inductive Advice where
  /-- A removal of a macro names none. -/
  | nothingToUndefine
  /-- A macro is removed that is not bound. -/
  | notDefined (name : Text)
  /-- A file is included that the run has already read or is reading. -/
  | alreadyIncluded (path : Text)
  /-- Blocks are open at the end. -/
  | unclosedBlocks (count : Nat)
deriving DecidableEq, Repr

/-- The message of an advice. -/
def Advice.message : Advice → Text
  | .nothingToUndefine => (Flaw.missingName (.operand .undefine)).message
  | .notDefined name => bytes "attempted to undefine undefined macro " ++ name.quoted
  | .alreadyIncluded path =>
    bytes "include cycle detected for file " ++ path.quoted ++ bytes ", skipping re-inclusion"
  | .unclosedBlocks count =>
    Text.decimal count ++ bytes " #ifdef block(s) not closed by #endif at end of input"

/-- The warning of an advice about a place. -/
def Advice.warning (advice : Advice) (place : Place) : Diagnostic :=
  ⟨.warning, place, advice.message⟩

/-- A problem and where it is. -/
structure Stop where
  /-- The place the problem is reported at. -/
  place : Place
  /-- The problem. -/
  problem : Problem
deriving DecidableEq, Repr

/-- The error that reports a problem. -/
def Stop.diagnostic (stop : Stop) : Diagnostic := ⟨.error, stop.place, stop.problem.message⟩

end XsPrep
