import XsPrep.CommandLine.Flags
import XsPrep.Files.Disk
import XsPrep.Log

/-!
# Outcomes of commands

What a command leaves behind: an exit code, what it wrote to its streams and its
log, and the disk.  It also says which files it read and wrote.
-/

namespace XsPrep.CommandLine

/-- What a command leaves behind. -/
structure Outcome where
  /-- The exit code. -/
  code : Nat
  /-- What it wrote to the standard output. -/
  output : Text := []
  /-- What it wrote to the standard error stream before its log. -/
  errors : Text := []
  /-- The messages of its log. -/
  messages : List Text := []
  /-- The disk afterwards. -/
  disk : Files.Disk
  /-- The files whose content it used. -/
  read : List Files.Address := []
  /-- The paths of the files it wrote. -/
  wrote : List Text := []

/-- The code of a success. -/
def success : Nat := 0

/-- The code of a failure. -/
def failure : Nat := 1

/-- The code of wrong usage. -/
def wrongUsage : Nat := 2

/-- The outcome of refused arguments.  The usage follows the message. -/
def Outcome.refused (disk : Files.Disk) (usage : Text) (refusal : Refusal) : Outcome :=
  match refusal.message? with
  | none => { code := success, errors := usage, disk }
  | some message => { code := wrongUsage, errors := message ++ bytes "\n" ++ usage, disk }

/-- The standard error stream with the log behind `mark`. -/
def Outcome.errorStream (mark : Text) (outcome : Outcome) : Text :=
  outcome.errors ++ logText mark outcome.messages

end XsPrep.CommandLine
