import XsPrep.Text.Basic

/-!
# Diagnostics

A diagnostic is a message about a place in a source file.  An error ends a run,
a warning does not.
-/

namespace XsPrep

/-- How grave a diagnostic is. -/
inductive Severity where
  /-- It is advice. -/
  | warning
  /-- It ended the run. -/
  | error
deriving DecidableEq, Repr

namespace Severity

/-- The number of a severity. -/
def number : Severity → Nat
  | .warning => 0
  | .error => 1

/-- The name of a severity. -/
def text : Severity → Text
  | .warning => bytes "Warning"
  | .error => bytes "Error"

/-- The severity with a number. -/
def ofNumber? (n : Int) : Option Severity :=
  [Severity.warning, .error].find? fun s => n == s.number

/-- What messages show for a severity number. -/
def textOfNumber (n : Int) : Text := ((ofNumber? n).map text).getD (bytes "Unknown")

end Severity

/-- A place in a file.  Line zero stands for the file as a whole. -/
structure Place where
  /-- The path of the file. -/
  path : Text
  /-- The line, from one. -/
  line : Nat
  /-- The column in characters, from one. -/
  column : Nat
deriving DecidableEq, Repr, Inhabited

namespace Place

/-- The place of a file as a whole. -/
def ofFile (path : Text) : Place := ⟨path, 0, 0⟩

/-- A place as messages show it. -/
def text (place : Place) : Text :=
  if place.line = 0 then place.path
  else place.path ++ bytes ":" ++ Text.decimal place.line ++ bytes ":" ++
    Text.decimal place.column

end Place

/-- A message about a place. -/
structure Diagnostic where
  /-- How grave it is. -/
  severity : Severity
  /-- What it is about. -/
  place : Place
  /-- What it says. -/
  message : Text
deriving DecidableEq, Repr

/-- A diagnostic as a line of text. -/
def Diagnostic.text (d : Diagnostic) : Text := d.place.text ++ bytes ": " ++ d.message

end XsPrep
