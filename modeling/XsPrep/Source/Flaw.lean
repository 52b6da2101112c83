import XsPrep.Source.Position
import XsPrep.Source.Directive

/-!
# Flaws of a source text

What can be wrong with a construct of a source text taken by itself, whatever
the macros, the open blocks and the other files are.
-/

namespace XsPrep

/-- What a macro name was expected for. -/
inductive NameUse where
  /-- The operand of a directive. -/
  | operand (directive : Directive)
  /-- The name between two `@`. -/
  | expansion
deriving DecidableEq, Repr

/-- How messages call the use of a name. -/
def NameUse.text : NameUse → Text
  | .operand directive => directive.text
  | .expansion => bytes "macro expansion"

/-- A flaw of one construct. -/
inductive Flaw where
  /-- No `"` where a string literal has to stand. -/
  | missingQuote
  /-- A string literal without its closing quote. -/
  | unterminatedLiteral
  /-- A block comment without its closing marker. -/
  | unterminatedComment
  /-- No name where one is needed. -/
  | missingName (use : NameUse)
  /-- A name after `@` that no `@` follows. -/
  | unterminatedExpansion (name : Text)
  /-- A `#` without the keyword of a directive. -/
  | unknownDirective (keyword : Text)
  /-- An include of the empty name. -/
  | emptyIncludeName
deriving DecidableEq, Repr

namespace Flaw

/-- The message of a missing name, whatever it is needed for. -/
def missingNameText : Text := bytes "no macro identifier provided"

/-- The message of a flaw. -/
def message : Flaw → Text
  | .missingQuote => bytes "expected opening quote for string literal"
  | .unterminatedLiteral => bytes "unterminated string literal"
  | .unterminatedComment => bytes "unterminated multi-line comment"
  | .missingName use => missingNameText ++ bytes " for " ++ use.text
  | .unterminatedExpansion name => bytes "unterminated macro expansion pattern: @" ++ name
  | .unknownDirective keyword => bytes "unknown preprocessor directive: #" ++ keyword
  | .emptyIncludeName => bytes "no filename provided for #include directive"

end Flaw

/-- A flaw and where it is. -/
structure SourceError where
  /-- The position the flaw is reported at. -/
  position : Position
  /-- The flaw. -/
  flaw : Flaw
deriving DecidableEq, Repr

/-- The error as a line of text. -/
def SourceError.text (e : SourceError) : Text := e.position.text ++ bytes ": " ++ e.flaw.message

end XsPrep
