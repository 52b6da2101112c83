import XsPrep.Source.Position
import XsPrep.Text.Class

/-!
# Readers

A reader walks forward over a source text.  It holds the characters not yet
read and the position of the first of them.  Each operation reads a run of
characters and gives the reader behind it, so an earlier reader is a mark that
can be gone back to.

For each operation a lemma says what it leaves unread.  From these follows that
a construct of the language never reads beyond the text and always makes
progress.
-/

namespace XsPrep

/-- A source text from a position on. -/
structure Reader where
  /-- The position of the next character. -/
  position : Position
  /-- The characters not yet read. -/
  rest : List Character
deriving DecidableEq, Repr, Inhabited

namespace Reader

/-- A reader at the beginning of a text. -/
def ofText (t : Text) : Reader := ⟨.start, t.characters⟩

/-! ## Looking ahead -/

/-- Whether nothing is left to read. -/
def atEnd (r : Reader) : Bool := r.rest.isEmpty

/-- The code point of the next character. -/
def peek? (r : Reader) : Option Nat := r.rest.head?.map Character.code

/-- Whether the next character has the code point `code`. -/
def sees (code : Nat) (r : Reader) : Bool := r.peek? == some code

/-- Whether the next two characters have the code points `a` and `b`. -/
def seesPair (a b : Nat) (r : Reader) : Bool :=
  match r.rest with
  | c :: d :: _ => c.code == a && d.code == b
  | _ => false

/-- Whether the unread text starts with `head`. -/
def startsWith (head : Text) (r : Reader) : Bool :=
  head.isPrefixOf (Text.ofCharacters (r.rest.take head.length))

/-! ## Moving -/

/-- The reader behind the next `n` characters. -/
def skip (n : Nat) (r : Reader) : Reader :=
  ⟨(r.rest.take n).foldl Position.after r.position, r.rest.drop n⟩

/-- The reader behind the longest run of characters with `p`. -/
def skipWhile (p : Character → Bool) (r : Reader) : Reader := go r.position r.rest
where
  /-- The run from a position on. -/
  go (position : Position) : List Character → Reader
    | [] => ⟨position, []⟩
    | c :: cs => if p c then go (position.after c) cs else ⟨position, c :: cs⟩

/-- The reader at the end of the text. -/
def toEnd (r : Reader) : Reader := r.skipWhile fun _ => true

/-- The longest run of characters with `p`, and the reader behind it. -/
def readWhile (p : Character → Bool) (r : Reader) : Text × Reader :=
  (Text.ofCharacters (r.rest.takeWhile p), r.skipWhile p)

/-- The reader behind white space, at the end of the line at the latest. -/
def skipBlanks (r : Reader) : Reader := r.skipWhile Character.isBlank

/-- The reader at the end of its line, before the line end. -/
def toLineEnd (r : Reader) : Reader := r.skipWhile (·.code != Code.newline)

/-- The reader behind its line, line end included. -/
def skipLine (r : Reader) : Reader := r.toLineEnd.skip 1

/-- What is left of the line, without the line end. -/
def readLine (r : Reader) : Text × Reader := r.readWhile (·.code != Code.newline)

/-- The longest identifier at the reader.  It is empty if none starts there. -/
def readIdentifier (r : Reader) : Text × Reader := r.readWhile Character.isIdentifier

/-! ## What is left unread -/

@[simp] theorem skip_rest (n : Nat) (r : Reader) : (r.skip n).rest = r.rest.drop n := rfl

theorem skipWhile_go_rest (p : Character → Bool) (cs : List Character) (position : Position) :
    (skipWhile.go p position cs).rest = cs.dropWhile p := by
  induction cs generalizing position with
  | nil => rfl
  | cons c cs ih =>
    by_cases h : p c
    · simp [skipWhile.go, h, ih]
    · simp [skipWhile.go, h]

@[simp] theorem skipWhile_rest (p : Character → Bool) (r : Reader) :
    (r.skipWhile p).rest = r.rest.dropWhile p :=
  skipWhile_go_rest p r.rest r.position

@[simp] theorem readWhile_rest (p : Character → Bool) (r : Reader) :
    (r.readWhile p).2.rest = r.rest.dropWhile p :=
  skipWhile_rest p r

@[simp] theorem toEnd_rest (r : Reader) : r.toEnd.rest = [] := by
  rw [toEnd, skipWhile_rest]
  induction r.rest with
  | nil => rfl
  | cons c cs ih => simp [ih]

theorem length_skip (n : Nat) (r : Reader) : (r.skip n).rest.length = r.rest.length - n := by
  simp

theorem length_skipWhile_le (p : Character → Bool) (r : Reader) :
    (r.skipWhile p).rest.length ≤ r.rest.length := by
  rw [skipWhile_rest]
  exact (List.dropWhile_sublist p).length_le

theorem length_skipBlanks_le (r : Reader) : r.skipBlanks.rest.length ≤ r.rest.length :=
  length_skipWhile_le _ r

theorem length_readIdentifier_le (r : Reader) :
    r.readIdentifier.2.rest.length ≤ r.rest.length :=
  length_skipWhile_le _ r

theorem length_readLine_le (r : Reader) : r.readLine.2.rest.length ≤ r.rest.length :=
  length_skipWhile_le _ r

theorem length_skipLine_le (r : Reader) : r.skipLine.rest.length ≤ r.rest.length := by
  have h := length_skipWhile_le (·.code != Code.newline) r
  simp only [skipLine, toLineEnd, length_skip]
  omega

/-- Skipping a line makes progress. -/
theorem length_skipLine_lt {r : Reader} (h : r.rest ≠ []) :
    r.skipLine.rest.length < r.rest.length := by
  cases hr : r.rest with
  | nil => exact absurd hr h
  | cons c cs =>
    have hle := (List.dropWhile_sublist (l := cs) (·.code != Code.newline)).length_le
    simp only [skipLine, toLineEnd, skip_rest, skipWhile_rest, List.length_drop, hr,
      List.dropWhile_cons, List.length_cons]
    split
    · omega
    · simp only [List.length_cons]; omega

end Reader

end XsPrep
