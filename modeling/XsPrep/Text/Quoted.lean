import XsPrep.Text.Class

/-!
# Quoted texts

Messages show names and paths in double quotes.  Printable characters stand for
themselves.  The quote, the backslash and the usual control characters are
escaped by a letter, a stray byte or another control character by its two
hexadecimal digits, and any other character by its code point in four or eight
digits.  So a quoted text is a single line whatever the text holds.
-/

namespace XsPrep.Text

/-- The letter that escapes a control character, if it has one. -/
def escapeLetter? (code : Nat) : Option UInt8 :=
  match code with
  | 0x07 => some (ofAscii 'a')
  | 0x08 => some (ofAscii 'b')
  | 0x09 => some (ofAscii 't')
  | 0x0A => some (ofAscii 'n')
  | 0x0B => some (ofAscii 'v')
  | 0x0C => some (ofAscii 'f')
  | 0x0D => some (ofAscii 'r')
  | _ => none

/-- The escape of a code point that is not printable. -/
def escapeCode (code : Nat) : Text :=
  match escapeLetter? code with
  | some letter => [Byte.backslash, letter]
  | none =>
    if code < 0x20 || code == 0x7F then bytes "\\x" ++ hexadecimal 2 code
    else if code < 0x10000 then bytes "\\u" ++ hexadecimal 4 code
    else bytes "\\U" ++ hexadecimal 8 code

/-- A character as a quoted text shows it. -/
def quotedCharacter (c : Character) : Text :=
  if c.isStray then bytes "\\x" ++ c.bytes.flatMap fun b => hexadecimal 2 b.toNat
  else if c.code == Code.quote || c.code == Code.backslash then Byte.backslash :: c.bytes
  else if Code.isPrintable c.code then c.bytes
  else escapeCode c.code

/-- The text in double quotes. -/
def quoted (t : Text) : Text :=
  bytes "\"" ++ t.characters.flatMap quotedCharacter ++ bytes "\""

/-- The text with spaces behind it, so that it is at least `width` characters
wide. -/
def padded (width : Nat) (t : Text) : Text :=
  t ++ List.replicate (width - t.characterCount) 0x20

end XsPrep.Text
