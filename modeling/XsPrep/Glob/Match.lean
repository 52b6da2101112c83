import XsPrep.Glob.Pattern
import XsPrep.Text.Character

/-!
# Matching names

A name is matched against a pattern from the left.  At a `*` or a `**` the
matching goes on as if it stood for nothing and leaves a mark.  When the rest
does not fit, the last mark is gone back to and takes one character or one
component more.  The alternatives of a brace are put into the pattern one after
the other.

Each round moves forward in the pattern, or goes back to a mark with less of the
name left, or replaces a brace by one of its alternatives.  So the number of
rounds is bounded by the lengths of pattern and name.
-/

namespace XsPrep.Glob

/-- How a matching ends. -/
inductive Outcome where
  /-- The name matches. -/
  | matched
  /-- The name does not match. -/
  | failed
  /-- The pattern is found to be invalid. -/
  | invalid
deriving DecidableEq, Repr

/-- The first of several outcomes that is not a failure. -/
def Outcome.orElse : Outcome → (Unit → Outcome) → Outcome
  | .failed, next => next ()
  | outcome, _ => outcome

/-- The outcome of a condition. -/
def Outcome.ofBool (b : Bool) : Outcome := if b then .matched else .failed

/-! ## Classes -/

/-- The first code point of a text and the text behind it. -/
def firstCode : Text → Nat × Text
  | [] => (Code.replacement, [])
  | b :: rest =>
    let (c, rest) := Character.first b rest
    (c.code, rest)

theorem firstCode_length (t : Text) : (firstCode t).2.length ≤ t.length := by
  unfold firstCode
  split
  · exact Nat.le_refl _
  · rename_i b rest
    exact Nat.le_succ_of_le (Character.first_rest_length b rest)

/-- The text behind a backslash, if it starts with one. -/
def behindBackslash : Text → Text
  | [] => []
  | b :: rest => if b = Byte.backslash then rest else b :: rest

theorem behindBackslash_length (t : Text) : (behindBackslash t).length ≤ t.length := by
  unfold behindBackslash
  split
  · exact Nat.le_refl _
  · split
    · exact Nat.le_succ _
    · exact Nat.le_refl _

/-- The end of a range whose dash was read, and the pattern behind it. -/
def rangeEnd (pattern : Text) : Nat × Text := firstCode (behindBackslash pattern)

theorem rangeEnd_length (t : Text) : (rangeEnd t).2.length ≤ t.length :=
  Nat.le_trans (firstCode_length _) (behindBackslash_length t)

/-- A single code point of a class, and the pattern behind it. -/
def classItem (b : UInt8) (rest : Text) : Nat × Text :=
  if b = Byte.backslash then firstCode rest else firstCode (b :: rest)

theorem classItem_length (b : UInt8) (rest : Text) :
    (classItem b rest).2.length ≤ rest.length := by
  unfold classItem
  split
  · exact firstCode_length rest
  · exact Character.first_rest_length b rest

/-- The greatest code point.  It cannot start a range. -/
def greatestCode : Nat := 0x10FFFF

/-- A code point that may start a range. -/
def rangeStart? (code : Nat) : Option Nat := if code < greatestCode then some code else none

/-- The start of the range that goes on with `b`, if it is a dash with an end
behind it. -/
def openRange? (last : Option Nat) (b : UInt8) (rest : Text) : Option Nat :=
  if b = Byte.dash ∧ rest.head?.any (· != closeClass) then last else none

/-- Whether a code point is in a class whose negation was read, and the pattern
where that was found out.  `last` is the code point a range may start with. -/
def classFrom (code : Nat) (last : Option Nat) : Text → Bool × Text
  | [] => (false, [])
  | b :: rest =>
    if b = closeClass then (false, b :: rest)
    else
      match openRange? last b rest with
      | some low =>
        if low ≤ code ∧ code ≤ (rangeEnd rest).1 then (true, (rangeEnd rest).2)
        else classFrom code none (rangeEnd rest).2
      | none =>
        if (classItem b rest).1 = code then (true, (classItem b rest).2)
        else classFrom code (rangeStart? (classItem b rest).1) (classItem b rest).2
termination_by t => t.length
decreasing_by
  · exact Nat.lt_succ_of_le (rangeEnd_length rest)
  · exact Nat.lt_succ_of_le (classItem_length b rest)

/-- Whether a code point is in a class whose opening bracket was read, and the
number of bytes of the class behind the bracket.  Nothing for an invalid
class. -/
def class? (code : Nat) (pattern : Text) : Option (Bool × Nat) :=
  let negated := pattern.head?.any fun b => b == bang || b == caret
  let body := if negated then pattern.drop 1 else pattern
  if body.isEmpty ∨ body.head? = some closeClass then none
  else
    let (found, rest) := classFrom code none body
    if found = negated then if rest.isEmpty then none else some (false, 0)
    else
      (findUnescaped? (· == closeClass) rest).map fun n =>
        (true, pattern.length - rest.length + n + 1)

/-! ## Patterns for nothing -/

/-- The patterns that match the empty name without a look at alternatives. -/
def emptyPatterns : List Text :=
  [[], [star], [star, star], [Byte.slash, star, star], [star, star, Byte.slash],
   [Byte.slash, star, star, Byte.slash]]

/-- Whether a pattern matches the empty name.  `rounds` bounds the braces it may
have. -/
def matchEmpty (rounds : Nat) (pattern : Text) : Outcome :=
  if emptyPatterns.contains pattern then .matched
  else
    match rounds, pattern with
    | rounds + 1, b :: rest =>
      if b = openAlternatives then
        match alternatives? rest with
        | none => .invalid
        | some (choices, rest) =>
          choices.foldl (fun outcome choice => outcome.orElse fun _ =>
            matchEmpty rounds (choice ++ rest)) .failed
      else .failed
    | _, _ => .failed

/-! ## The matching -/

/-- A place to go back to: an index in the pattern and the name from there on. -/
abbrev Mark := Nat × Text

/-- A matching in progress. -/
structure Matching where
  /-- The whole pattern. -/
  pattern : Text
  /-- How much of the pattern was matched. -/
  place : Nat
  /-- What is left of the name. -/
  name : Text
  /-- Whether a component starts here. -/
  atStart : Bool
  /-- The last `*`. -/
  star : Option Mark
  /-- The last `**`. -/
  doubleStar : Option Mark

namespace Matching

/-- The pattern that is left. -/
def rest (m : Matching) : Text := m.pattern.drop m.place

/-- The matching after a `*` whose pattern goes on at `place`. -/
def markStar (m : Matching) (place : Nat) : Matching :=
  { m with place, atStart := false, star := some (place, m.name) }

/-- The matching after a `**` whose pattern goes on at `place`. -/
def markDoubleStar (m : Matching) (place : Nat) : Matching :=
  { m with place, star := none, doubleStar := some (place, m.name) }

/-- The name behind its next slash. -/
def behindSlash? (name : Text) : Option Text := (name.cut Byte.slash).2

/-- The matching with the last `**` taking one component more. -/
def retryDoubleStar? (m : Matching) : Option Matching :=
  match m.doubleStar with
  | none => none
  | some (place, name) =>
    (behindSlash? name).map fun name =>
      { m with place, name, atStart := true, star := none, doubleStar := some (place, name) }

/-- The matching with the last mark taking more of the name. -/
def retry? (m : Matching) : Option Matching :=
  match m.star with
  | some (place, b :: name) =>
    if b = Byte.slash then m.retryDoubleStar?
    else
      let name := (Character.first b name).2
      some { m with place, name, atStart := false, star := some (place, name) }
  | _ => m.retryDoubleStar?

/-- The matching after `width` bytes of the pattern and the first character of
the name. -/
def advance (m : Matching) (width : Nat) (name : Text) (atStart : Bool) : Matching :=
  { m with place := m.place + width, name, atStart }

/-- The matching with a brace at `m.place` replaced by one of its alternatives. -/
def choose (m : Matching) (choice rest : Text) : Matching :=
  { m with pattern := m.pattern.take m.place ++ choice ++ rest, atStart := true }

/-- What one round does. -/
inductive Round where
  /-- It ends the matching. -/
  | done (outcome : Outcome)
  /-- It goes on. -/
  | next (m : Matching)
  /-- It goes on in one of several ways. -/
  | choice (ms : List Matching)

/-- Goes back to the last mark. -/
def back (m : Matching) : Round :=
  match m.retry? with
  | some m => .next m
  | none => .done .failed

/-- A pattern character that stands for itself, `skipped` bytes behind the
place. -/
def literal (m : Matching) (skipped : Nat) (pattern : Text) : Round :=
  match pattern, m.name with
  | p :: pattern, n :: name =>
    let wanted := (Character.first p pattern).1
    let found := Character.first n name
    if wanted.code = found.1.code then
      .next (m.advance (skipped + wanted.bytes.length) found.2 (wanted.code = Code.slash))
    else m.back
  | [], _ => .done .invalid
  | _, [] => .done .failed

/-- A `*` or `**` at the place. -/
def stars (m : Matching) (behind : Text) : Round :=
  if behind.head? = some Glob.star then
    let behind := behind.drop 1
    if m.atStart ∧ behind.isEmpty then .done .matched
    else if m.atStart ∧ behind.head? = some Byte.slash then .next (m.markDoubleStar (m.place + 3))
    else .next (m.markStar (m.place + 2))
  else .next (m.markStar (m.place + 1))

/-- One round of a matching with some name left. -/
def round (m : Matching) : Round :=
  match m.rest, m.name with
  | [], _ => m.back
  | _, [] => .done .failed
  | p :: behind, n :: name =>
    let found := Character.first n name
    if p = Glob.star then m.stars behind
    else if p = question then
      if n = Byte.slash then m.back else .next (m.advance 1 found.2 false)
    else if p = openClass then
      match class? found.1.code behind with
      | none => .done .invalid
      | some (true, width) => .next (m.advance (1 + width) found.2 false)
      | some (false, _) => m.back
    else if p = openAlternatives then
      match alternatives? behind with
      | none => .done .invalid
      | some (choices, rest) => .choice (choices.map fun choice => m.choose choice rest)
    else if p = Byte.backslash then m.literal 1 behind
    else m.literal 0 (p :: behind)

/-- Runs a matching for at most `rounds` rounds. -/
def run : (rounds : Nat) → Matching → Outcome
  | 0, _ => .failed
  | rounds + 1, m =>
    if m.name.isEmpty then matchEmpty m.rest.length m.rest
    else
      match m.round with
      | .done outcome => outcome
      | .next m => run rounds m
      | .choice ms => ms.foldl (fun outcome m => outcome.orElse fun _ => run rounds m) .failed

/-- More rounds than a matching can take. -/
def roundLimit (pattern name : Text) : Nat :=
  let places := (pattern.length + 2) * (pattern.length + 2)
  let ends := (name.length + 2) * (name.length + 2)
  places * places * ends

end Matching

/-- Matches a name against a pattern. -/
def outcome (pattern name : Text) : Outcome :=
  Matching.run (Matching.roundLimit pattern name) ⟨pattern, 0, name, true, none, none⟩

/-- Whether a name matches a pattern. -/
def isMatch (pattern name : Text) : Bool := outcome pattern name = .matched

end XsPrep.Glob
