import XsPrep.Macro.Macros
import XsPrep.Text.Quoted

/-!
# Macro definitions on the command line

A definition is written `NAME` or `NAME=value`.  The `-D` of a compiler flag in
front is tolerated.  The name has to be an identifier, and white space around
the value is dropped.
-/

namespace XsPrep

/-- A macro definition. -/
structure Definition where
  /-- The name. -/
  name : Text
  /-- The value. -/
  value : Text
deriving DecidableEq, Repr

namespace Definition

/-- The one way a definition is refused: its name is no identifier. -/
structure BadName where
  /-- The name. -/
  name : Text
deriving DecidableEq, Repr

/-- The message for a refused definition. -/
def BadName.message (e : BadName) : Text := bytes "invalid macro name " ++ e.name.quoted

/-- Whether a text is an identifier. -/
def isName (name : Text) : Bool :=
  !name.isEmpty && name.characters.all Character.isIdentifier

/-- Reads a definition. -/
def parse (definition : Text) : Except BadName Definition :=
  let definition := (Text.without? (bytes "-D") definition).getD definition
  let (name, value) := definition.cut Byte.equals
  if isName name then .ok ⟨name, (value.getD []).trimmed⟩ else .error ⟨name⟩

/-- The message for a refused definition in a list. -/
def refusal (definition : Text) (e : BadName) : Text :=
  bytes "failed to parse: " ++ definition ++ bytes ": " ++ e.message

/-- The macros of the definitions that are accepted, and the messages for the
others. -/
def parseAll (definitions : List Text) : Macros × List Text :=
  definitions.foldl
    (fun (macros, refused) definition =>
      match parse definition with
      | .ok d => (Macros.define macros d.name d.value, refused)
      | .error e => (macros, refused ++ [refusal definition e]))
    (.empty, [])

end Definition

end XsPrep
