/-!
# Texts

A text is a list of bytes.  File contents, paths, macro values and messages are
texts, so nothing is lost when a file is not valid UTF-8.  Texts are ordered
byte by byte, which is the order of every sorted list this library shows.

The operations here look at single bytes.  Decoding into characters is the
business of `XsPrep.Text.Character`.
-/

namespace XsPrep

/-- A text: the bytes of a file, a path or a message. -/
abbrev Text := List UInt8

/-- The UTF-8 bytes of a string. -/
def bytes (s : String) : Text := s.toByteArray.data.toList

/-! ## Bytes with a meaning -/

namespace Byte

/-- The byte of a line end. -/
abbrev newline : UInt8 := 0x0A
/-- The byte of `-`. -/
abbrev dash : UInt8 := 0x2D
/-- The byte of `.`. -/
abbrev dot : UInt8 := 0x2E
/-- The byte of `/`. -/
abbrev slash : UInt8 := 0x2F
/-- The byte of `:`. -/
abbrev colon : UInt8 := 0x3A
/-- The byte of `=`. -/
abbrev equals : UInt8 := 0x3D
/-- The byte of `@`. -/
abbrev atSign : UInt8 := 0x40
/-- The byte of `\`. -/
abbrev backslash : UInt8 := 0x5C
/-- The byte of `_`. -/
abbrev underscore : UInt8 := 0x5F

end Byte

namespace Text

/-! ## Splitting and joining -/

/-- One byte in front of the parts of a split text: a separator opens a new
part, any other byte joins the first one. -/
def splitStep (separator b : UInt8) : List Text → List Text
  | [] => [[b]]
  | part :: parts => if b = separator then [] :: part :: parts else (b :: part) :: parts

/-- The parts of a text between the occurrences of a byte.  There is one part
more than there are occurrences. -/
def split (separator : UInt8) (t : Text) : List Text :=
  t.foldr (splitStep separator) [[]]

/-- The parts in order with `separator` between neighbours. -/
def joined (separator : Text) (parts : List Text) : Text :=
  separator.intercalate parts

/-- The text before the first occurrence of a byte and, if there is one, the
text after it. -/
def cut (separator : UInt8) (t : Text) : Text × Option Text :=
  match t.span (· != separator) with
  | (before, []) => (before, none)
  | (before, _ :: after) => (before, some after)

/-- The text without `head` in front, if it starts with it. -/
def without? (head t : Text) : Option Text :=
  if head.isPrefixOf t then some (t.drop head.length) else none

/-- Whether the text starts with `head`. -/
def startsWith (head t : Text) : Bool := head.isPrefixOf t

/-- Whether the text ends with `tail`. -/
def endsWith (tail t : Text) : Bool := tail.isSuffixOf t

/-- Where `part` first occurs in a text. -/
def find? (part : Text) (t : Text) : Option Nat := go 0 t
where
  /-- The search at offset `n`. -/
  go (n : Nat) : Text → Option Nat
    | [] => if part.isEmpty then some n else none
    | b :: rest => if part.isPrefixOf (b :: rest) then some n else go (n + 1) rest

/-- The bytes from one offset up to another that is not before it. -/
def slice? (t : Text) (start stop : Nat) : Option Text :=
  if start ≤ stop then some ((t.drop start).take (stop - start)) else none

/-! ## Numbers -/

/-- The byte of an ASCII character. -/
def ofAscii (c : Char) : UInt8 := c.toNat.toUInt8

/-- A number in decimal notation. -/
def decimal (n : Nat) : Text := (Nat.toDigits 10 n).map ofAscii

/-- A digit in lower-case hexadecimal notation. -/
def hexDigit (n : Nat) : UInt8 := ofAscii (Nat.digitChar (n % 16))

/-- The last `width` hexadecimal digits of a number, with leading zeros. -/
def hexadecimal : (width : Nat) → (n : Nat) → Text
  | 0, _ => []
  | width + 1, n => hexadecimal width (n / 16) ++ [hexDigit n]

/-! ## Truth values -/

/-- The texts for true. -/
def trueTexts : List String := ["1", "t", "T", "TRUE", "true", "True"]

/-- The texts for false. -/
def falseTexts : List String := ["0", "f", "F", "FALSE", "false", "False"]

/-- The truth value that a text stands for. -/
def truth? (t : Text) : Option Bool :=
  if trueTexts.any (bytes · = t) then some true
  else if falseTexts.any (bytes · = t) then some false
  else none

end Text

end XsPrep
