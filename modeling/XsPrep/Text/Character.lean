import XsPrep.Text.Basic

/-!
# Characters of a text

A text is read as UTF-8 from the left.  Where a well-formed sequence starts, it
is one character with the code point it encodes.  Any other byte is a character
of its own with the code point U+FFFD, so every text decodes and every byte
belongs to exactly one character.  A character keeps its bytes, which tells a
stray byte from a written U+FFFD and makes decoding lossless
(`first_bytes_append`).

The well-formed sequences are the shortest encodings of the code points up to
U+10FFFF without the surrogates.
-/

namespace XsPrep

/-- A decoded character. -/
structure Character where
  /-- The code point, U+FFFD for a byte outside any well-formed sequence. -/
  code : Nat
  /-- The bytes the character was read from. -/
  bytes : Text
deriving DecidableEq, Repr, Inhabited

/-! ## Code points with a meaning -/

namespace Code

/-- The code point of a line end. -/
abbrev newline : Nat := 0x0A
/-- The code point of `"`. -/
abbrev quote : Nat := 0x22
/-- The code point of `#`. -/
abbrev hash : Nat := 0x23
/-- The code point of `*`. -/
abbrev star : Nat := 0x2A
/-- The code point of `-`. -/
abbrev dash : Nat := 0x2D
/-- The code point of `/`. -/
abbrev slash : Nat := 0x2F
/-- The code point of `@`. -/
abbrev atSign : Nat := 0x40
/-- The code point of `\`. -/
abbrev backslash : Nat := 0x5C
/-- The code point of `_`. -/
abbrev underscore : Nat := 0x5F
/-- The replacement character. -/
abbrev replacement : Nat := 0xFFFD

end Code

namespace Character

/-! ## Decoding one character -/

/-- The character of a byte that starts no well-formed sequence. -/
def stray (a : UInt8) : Character := ⟨Code.replacement, [a]⟩

/-- Whether a character is a stray byte. -/
def isStray (c : Character) : Bool := c.code == Code.replacement && c.bytes.length == 1

/-- Whether a byte may continue a sequence. -/
def isTail (b : UInt8) : Bool := 0x80 ≤ b && b ≤ 0xBF

/-- Whether `b` may be the second byte after the first byte `a`.  The narrower
ranges exclude overlong encodings, surrogates and code points that are too
large. -/
def isSecond (a b : UInt8) : Bool :=
  if a = 0xE0 then 0xA0 ≤ b && b ≤ 0xBF
  else if a = 0xED then 0x80 ≤ b && b ≤ 0x9F
  else if a = 0xF0 then 0x90 ≤ b && b ≤ 0xBF
  else if a = 0xF4 then 0x80 ≤ b && b ≤ 0x8F
  else isTail b

/-- The six value bits of a continuing byte. -/
def tailBits (b : UInt8) : Nat := b.toNat - 0x80

/-- The sequence of two bytes that starts with `a`, if there is one. -/
def pair? (a : UInt8) : Text → Option (Character × Text)
  | b :: t =>
    if isSecond a b then some (⟨(a.toNat - 0xC0) * 64 + tailBits b, [a, b]⟩, t) else none
  | _ => none

/-- The sequence of three bytes that starts with `a`, if there is one. -/
def triple? (a : UInt8) : Text → Option (Character × Text)
  | b :: c :: t =>
    if isSecond a b && isTail c then
      some (⟨((a.toNat - 0xE0) * 64 + tailBits b) * 64 + tailBits c, [a, b, c]⟩, t)
    else none
  | _ => none

/-- The sequence of four bytes that starts with `a`, if there is one. -/
def quadruple? (a : UInt8) : Text → Option (Character × Text)
  | b :: c :: d :: t =>
    if isSecond a b && isTail c && isTail d then
      some (⟨(((a.toNat - 0xF0) * 64 + tailBits b) * 64 + tailBits c) * 64 + tailBits d,
        [a, b, c, d]⟩, t)
    else none
  | _ => none

/-- The well-formed sequence of several bytes that starts with `a`, if there is
one. -/
def sequence? (a : UInt8) (t : Text) : Option (Character × Text) :=
  if a < 0xC2 then none
  else if a < 0xE0 then pair? a t
  else if a < 0xF0 then triple? a t
  else if a < 0xF5 then quadruple? a t
  else none

/-- The first character of the text `a :: t` and the text after it. -/
def first (a : UInt8) (t : Text) : Character × Text :=
  if a < 0x80 then (⟨a.toNat, [a]⟩, t)
  else (sequence? a t).getD (stray a, t)

theorem pair?_bytes_append {a : UInt8} {t : Text} {r : Character × Text}
    (h : pair? a t = some r) : r.1.bytes ++ r.2 = a :: t := by
  unfold pair? at h
  split at h
  · split at h
    · rw [← Option.some.inj h]; rfl
    · contradiction
  · contradiction

theorem triple?_bytes_append {a : UInt8} {t : Text} {r : Character × Text}
    (h : triple? a t = some r) : r.1.bytes ++ r.2 = a :: t := by
  unfold triple? at h
  split at h
  · split at h
    · rw [← Option.some.inj h]; rfl
    · contradiction
  · contradiction

theorem quadruple?_bytes_append {a : UInt8} {t : Text} {r : Character × Text}
    (h : quadruple? a t = some r) : r.1.bytes ++ r.2 = a :: t := by
  unfold quadruple? at h
  split at h
  · split at h
    · rw [← Option.some.inj h]; rfl
    · contradiction
  · contradiction

theorem sequence?_bytes_append {a : UInt8} {t : Text} {r : Character × Text}
    (h : sequence? a t = some r) : r.1.bytes ++ r.2 = a :: t := by
  unfold sequence? at h
  split at h
  · cases h
  · split at h
    · exact pair?_bytes_append h
    · split at h
      · exact triple?_bytes_append h
      · split at h
        · exact quadruple?_bytes_append h
        · cases h

/-- The first character and the text after it are the whole text. -/
theorem first_bytes_append (a : UInt8) (t : Text) :
    (first a t).1.bytes ++ (first a t).2 = a :: t := by
  unfold first
  split
  · rfl
  · cases h : sequence? a t with
    | none => rfl
    | some r => exact sequence?_bytes_append h

theorem sequence?_rest_length {a : UInt8} {t : Text} {r : Character × Text}
    (h : sequence? a t = some r) : r.2.length ≤ t.length := by
  unfold sequence? pair? triple? quadruple? at h
  repeat' split at h
  all_goals first
    | contradiction
    | (rw [← Option.some.inj h]; simp only [List.length_cons]; omega)

/-- Reading a character leaves a shorter text. -/
theorem first_rest_length (a : UInt8) (t : Text) : (first a t).2.length ≤ t.length := by
  unfold first
  split
  · exact Nat.le_refl _
  · cases h : sequence? a t with
    | none => exact Nat.le_refl _
    | some r => exact sequence?_rest_length h

end Character

namespace Text

/-! ## Decoding a text -/

/-- A value updated with each character of a text, from the left. -/
def foldCharacters {β : Type} (f : β → Character → β) (acc : β) : Text → β
  | [] => acc
  | a :: t =>
    have := Character.first_rest_length a t
    foldCharacters f (f acc (Character.first a t).1) (Character.first a t).2
termination_by t => t.length
decreasing_by simp only [List.length_cons]; omega

/-- The characters of a text. -/
def characters (t : Text) : List Character :=
  (foldCharacters (fun read c => c :: read) [] t).reverse

/-- The bytes of characters, one after the other. -/
def ofCharacters (cs : List Character) : Text := cs.flatMap Character.bytes

/-- The number of characters of a text. -/
def characterCount (t : Text) : Nat := foldCharacters (fun n _ => n + 1) 0 t

/-! ## Encoding one code point -/

/-- The byte that continues a sequence with the low six bits of `n`. -/
def tailByte (n : Nat) : UInt8 := (0x80 + n % 64).toUInt8

/-- The UTF-8 bytes of a code point.  A number that is none is written as
U+FFFD. -/
def encode (code : Nat) : Text :=
  if code < 0x80 then [code.toUInt8]
  else if code < 0x800 then [(0xC0 + code / 64).toUInt8, tailByte code]
  else if (0xD800 ≤ code && code < 0xE000) || 0x10FFFF < code then [0xEF, 0xBF, 0xBD]
  else if code < 0x10000 then
    [(0xE0 + code / 4096).toUInt8, tailByte (code / 64), tailByte code]
  else
    [(0xF0 + code / 262144).toUInt8, tailByte (code / 4096), tailByte (code / 64), tailByte code]

end Text

end XsPrep
