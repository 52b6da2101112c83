import XsPrep.Source.Reader
import XsPrep.Source.Flaw

/-!
# String literals and comments

A string literal stands between double quotes and may span lines.  A backslash
hides the character behind it: a hidden quote does not end the literal.  In the
value of the literal a hidden `n`, `t`, `r` or `0` is a control character, and
any other hidden character is itself.

A block comment ends at the first `*/` behind its opening `/*`.

Reading one of these gives the reader behind it.  Where the closing mark is
missing the reader ends up at the end of the text.
-/

namespace XsPrep

/-- A string literal. -/
structure Literal where
  /-- The text it stands for. -/
  value : Text
  /-- The literal as written, quotes and backslashes included. -/
  raw : Text
deriving DecidableEq, Repr

namespace Literal

/-- The value of a character hidden by a backslash. -/
def hiddenValue (c : Character) : Text :=
  if c.code = 0x6E then [0x0A]
  else if c.code = 0x74 then [0x09]
  else if c.code = 0x72 then [0x0D]
  else if c.code = 0x30 then [0x00]
  else c.bytes

/-- The characters up to the closing quote and the characters behind it.
`read` holds what was read so far, newest first. -/
def splitFrom (read : List Character) : List Character → Option (List Character × List Character)
  | [] => none
  | c :: cs =>
    if c.code = Code.quote then some (read.reverse, cs)
    else if c.code = Code.backslash then
      match cs with
      | [] => none
      | hidden :: cs => splitFrom (hidden :: c :: read) cs
    else splitFrom (c :: read) cs

/-- The value of the characters between the quotes.  `pieces` holds the values of
what was read so far, newest first. -/
def valueFrom (pieces : List Text) : List Character → Text
  | [] => pieces.reverse.flatten
  | c :: cs =>
    if c.code = Code.backslash then
      match cs with
      | [] => pieces.reverse.flatten
      | hidden :: cs => valueFrom (hiddenValue hidden :: pieces) cs
    else valueFrom (c.bytes :: pieces) cs

end Literal

namespace Reader

/-- The string literal at a reader, and the reader afterwards. -/
def readLiteral (r : Reader) : Except SourceError Literal × Reader :=
  if r.sees Code.quote then
    match Literal.splitFrom [] (r.rest.drop 1) with
    | some (body, _) =>
      (.ok ⟨Literal.valueFrom [] body, Text.ofCharacters (r.rest.take (body.length + 2))⟩,
        r.skip (body.length + 2))
    | none => (.error ⟨r.position, .unterminatedLiteral⟩, r.toEnd)
  else (.error ⟨r.position, .missingQuote⟩, r)

/-- The number of characters up to the closing mark of a block comment, mark
included.  `n` characters were read so far. -/
def commentLength (n : Nat) : List Character → Option Nat
  | [] => none
  | c :: cs =>
    if c.code = Code.star && cs.head?.any (·.code == Code.slash) then some (n + 2)
    else commentLength (n + 1) cs

theorem commentLength_pos {n m : Nat} {cs : List Character} (h : commentLength n cs = some m) :
    0 < m := by
  induction cs generalizing n with
  | nil => cases h
  | cons c cs ih =>
    unfold commentLength at h
    split at h
    · cases h; omega
    · exact ih h

/-- Skips the block comment at a reader.  If none starts there, the reader
stays. -/
def skipComment (r : Reader) : Except SourceError Unit × Reader :=
  if r.seesPair Code.slash Code.star then
    match commentLength 2 (r.rest.drop 2) with
    | some n => (.ok (), r.skip n)
    | none => (.error ⟨r.position, .unterminatedComment⟩, r.toEnd)
  else (.ok (), r)

end Reader

end XsPrep
