import XsPrep.Text.Character

/-!
# Positions

A position in a text is the number of bytes before it together with its line
and column, both counted from one.  Columns count characters, offsets count
bytes.  There are two ways to move a position: over one character at a time, or
over a whole text at once by counting its line ends and the characters behind
the last of them.
-/

namespace XsPrep

/-- A position in a source text. -/
structure Position where
  /-- The number of bytes before the position. -/
  offset : Nat
  /-- The line, from one. -/
  line : Nat
  /-- The column in characters, from one. -/
  column : Nat
deriving DecidableEq, Repr, Inhabited

namespace Position

/-- The position at the beginning of a text. -/
def start : Position := ⟨0, 1, 1⟩

/-- Line and column as messages show them. -/
def text (p : Position) : Text := Text.decimal p.line ++ bytes ":" ++ Text.decimal p.column

/-- The position behind a character at `p`.  A line end goes to the first column
of the next line. -/
def after (p : Position) (c : Character) : Position :=
  if c.code = Code.newline then ⟨p.offset + c.bytes.length, p.line + 1, 1⟩
  else ⟨p.offset + c.bytes.length, p.line, p.column + 1⟩

/-- The part of a text behind its last line end. -/
def lastLine (t : Text) : Text := (t.reverse.takeWhile (· != Byte.newline)).reverse

/-- The position behind a text at `p`. -/
def advance (p : Position) (t : Text) : Position :=
  let width := (lastLine t).characterCount
  match t.count Byte.newline with
  | 0 => ⟨p.offset + t.length, p.line, p.column + width⟩
  | lines + 1 => ⟨p.offset + t.length, p.line + (lines + 1), 1 + width⟩

end Position

end XsPrep
