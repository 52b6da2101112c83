import XsPrep.Text.Class

/-!
# Strings of a JSON document

A string is written between quotes.  The characters that end a string or may be
taken for markup are escaped, so a document can be put into a page of markup.
A stray byte is written as U+FFFD.

Reading undoes every escape JSON has, not only the ones that are written.  An
escape of half a surrogate pair, like a stray byte, is read as U+FFFD.
-/

namespace XsPrep.Document

/-! ## Writing -/

/-- The letter of a two-character escape that is written. -/
def writtenEscape? (code : Nat) : Option UInt8 :=
  match code with
  | 0x08 => some (Text.ofAscii 'b')
  | 0x09 => some (Text.ofAscii 't')
  | 0x0A => some (Text.ofAscii 'n')
  | 0x0C => some (Text.ofAscii 'f')
  | 0x0D => some (Text.ofAscii 'r')
  | 0x22 => some (UInt8.ofNat Code.quote)
  | 0x5C => some Byte.backslash
  | _ => none

/-- Whether a code point is written in four hexadecimal digits: control
characters, `<`, `>`, `&` and the separators of lines and paragraphs. -/
def isWrittenInHex (code : Nat) : Bool :=
  code < 0x20 || code == 0x3C || code == 0x3E || code == 0x26 || code == 0x2028 || code == 0x2029

/-- A character as a string shows it. -/
def writtenCharacter (c : Character) : Text :=
  match writtenEscape? c.code with
  | some letter => [Byte.backslash, letter]
  | none =>
    if c.isStray || isWrittenInHex c.code then bytes "\\u" ++ Text.hexadecimal 4 c.code
    else c.bytes

/-- A text as a string of a document. -/
def written (t : Text) : Text :=
  bytes "\"" ++ t.characters.flatMap writtenCharacter ++ bytes "\""

/-! ## Reading -/

/-- The code point a letter behind a backslash stands for. -/
def readEscape? (code : Nat) : Option Nat :=
  match code with
  | 0x22 => some 0x22
  | 0x2F => some 0x2F
  | 0x5C => some 0x5C
  | 0x62 => some 0x08
  | 0x66 => some 0x0C
  | 0x6E => some 0x0A
  | 0x72 => some 0x0D
  | 0x74 => some 0x09
  | _ => none

/-- The value of a hexadecimal digit. -/
def digitValue? (code : Nat) : Option Nat :=
  if 0x30 ≤ code && code ≤ 0x39 then some (code - 0x30)
  else if 0x61 ≤ code && code ≤ 0x66 then some (code - 0x61 + 10)
  else if 0x41 ≤ code && code ≤ 0x46 then some (code - 0x41 + 10)
  else none

/-- The number in four hexadecimal digits at the beginning. -/
def fourDigits? : List Character → Option Nat
  | a :: b :: c :: d :: _ => do
    let a ← digitValue? a.code
    let b ← digitValue? b.code
    let c ← digitValue? c.code
    let d ← digitValue? d.code
    some (((a * 16 + b) * 16 + c) * 16 + d)
  | _ => none

/-- The number in an escape `\uXXXX` at the beginning. -/
def unitEscape? : List Character → Option Nat
  | a :: b :: cs => if a.code = Code.backslash ∧ b.code = 0x75 then fourDigits? cs else none
  | _ => none

/-- The code point of a surrogate pair. -/
def surrogatePair? (high low : Nat) : Option Nat :=
  if 0xD800 ≤ high ∧ high < 0xDC00 ∧ 0xDC00 ≤ low ∧ low < 0xE000 then
    some ((high - 0xD800) * 0x400 + (low - 0xDC00) + 0x10000)
  else none

/-- The text an escape stands for and the number of characters of the escape
behind its backslash.  A surrogate pair takes two escapes. -/
def escape? : List Character → Option (Text × Nat)
  | [] => none
  | c :: cs =>
    if c.code = 0x75 then
      match fourDigits? cs with
      | none => none
      | some unit =>
        match (unitEscape? (cs.drop 4)).bind (surrogatePair? unit) with
        | some code => some (Text.encode code, 11)
        | none => some (Text.encode unit, 5)
    else (readEscape? c.code).map fun code => (Text.encode code, 1)

/-- The text of a string whose opening quote was read, and the number of
characters up to its closing quote, quote included.  `pieces` holds what was
read so far, newest first, and `n` how many characters that took. -/
def readFrom (pieces : List Text) (n : Nat) : List Character → Option (Text × Nat)
  | [] => none
  | c :: cs =>
    if c.code = Code.quote then some (pieces.reverse.flatten, n + 1)
    else if c.code < 0x20 then none
    else if c.code = Code.backslash then
      match escape? cs with
      | none => none
      | some (piece, width) => readFrom (piece :: pieces) (n + 1 + width) (cs.drop width)
    else
      readFrom ((if c.isStray then Text.encode Code.replacement else c.bytes) :: pieces) (n + 1) cs
termination_by cs => cs.length
decreasing_by
  · simp only [List.length_drop, List.length_cons]; omega
  · simp only [List.length_cons]; omega

end XsPrep.Document
