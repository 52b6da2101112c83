import XsPrep.Proofs.Source.Reading

/-!
# Reading below other text

A text that stands below some lines is read like the text alone.  What is read is the
same, and all positions are moved by the same number of lines and bytes, the columns not at
all (`Position.below`).  This holds for each operation, so for each construct
(`Construct.read_below`) and each skipped line (`SkippedLine.read_below`).
-/

namespace XsPrep

/-- Whole lines above a text: how many, and the bytes they have. -/
structure Margin where
  lines : Nat
  bytes : Nat
deriving DecidableEq, Repr

namespace Position

/-- The position below a margin. -/
def below (margin : Margin) (p : Position) : Position :=
  ⟨p.offset + margin.bytes, p.line + margin.lines, p.column⟩

theorem below_below (margin margin' : Margin) (p : Position) :
    (p.below margin).below margin' =
      p.below ⟨margin'.lines + margin.lines, margin.bytes + margin'.bytes⟩ := by
  simp only [below, Nat.add_assoc, Nat.add_comm margin'.lines]

theorem after_below (margin : Margin) (p : Position) (c : Character) :
    (p.below margin).after c = (p.after c).below margin := by
  simp only [after, below]
  split
  · simp only [Nat.add_right_comm]
  · simp only [Nat.add_right_comm]

theorem foldl_after_below (margin : Margin) (cs : List Character) (p : Position) :
    cs.foldl after (p.below margin) = (cs.foldl after p).below margin := by
  induction cs generalizing p with
  | nil => rfl
  | cons c cs ih => rw [List.foldl_cons, List.foldl_cons, after_below, ih]

end Position

/-! ## Operations -/

namespace Reader

/-- The reader below a margin. -/
def below (margin : Margin) (r : Reader) : Reader := ⟨r.position.below margin, r.rest⟩

variable (margin : Margin) (r : Reader)

@[simp] theorem below_rest : (r.below margin).rest = r.rest := rfl

@[simp] theorem below_position : (r.below margin).position = r.position.below margin := rfl

@[simp] theorem sees_below (code : Nat) : (r.below margin).sees code = r.sees code := rfl

@[simp] theorem seesPair_below (a b : Nat) : (r.below margin).seesPair a b = r.seesPair a b := rfl

/-- Reading the same characters leads to the same place below the margin. -/
theorem Reads.eq_below {r r' q : Reader} {cs : List Character} (h : r.Reads cs r')
    (hq : (r.below margin).Reads cs q) : q = r'.below margin := by
  have hbelow : (r.below margin).Reads cs (r'.below margin) := by
    refine ⟨h.rest_eq, ?_⟩
    rw [below_position, below_position, h.position_eq, Position.foldl_after_below]
  have hrest : q.rest = r'.rest := by
    have happend := hq.rest_eq
    rw [below_rest, h.rest_eq] at happend
    exact (List.append_cancel_left happend).symm
  exact (hq.unique hbelow (congrArg List.length hrest)).2

@[simp] theorem skip_below (n : Nat) : (r.below margin).skip n = (r.skip n).below margin :=
  (reads_skip n r).eq_below margin (reads_skip n (r.below margin))

@[simp] theorem skipWhile_below (p : Character → Bool) :
    (r.below margin).skipWhile p = (r.skipWhile p).below margin :=
  (reads_skipWhile p r).eq_below margin (reads_skipWhile p (r.below margin))

@[simp] theorem readWhile_below (p : Character → Bool) :
    (r.below margin).readWhile p = ((r.readWhile p).1, (r.readWhile p).2.below margin) := by
  rw [readWhile, skipWhile_below]
  rfl

@[simp] theorem toEnd_below : (r.below margin).toEnd = r.toEnd.below margin :=
  skipWhile_below margin r _

@[simp] theorem skipBlanks_below : (r.below margin).skipBlanks = r.skipBlanks.below margin :=
  skipWhile_below margin r _

@[simp] theorem skipLine_below : (r.below margin).skipLine = r.skipLine.below margin := by
  rw [skipLine, toLineEnd, skipWhile_below, skip_below]
  rfl

@[simp] theorem readLine_below :
    (r.below margin).readLine = (r.readLine.1, r.readLine.2.below margin) :=
  readWhile_below margin r _

@[simp] theorem readIdentifier_below :
    (r.below margin).readIdentifier = (r.readIdentifier.1, r.readIdentifier.2.below margin) :=
  readWhile_below margin r _

@[simp] theorem readKeyword_below :
    (r.below margin).readKeyword = (r.readKeyword.1, r.readKeyword.2.below margin) := by
  rw [readKeyword, skip_below, skipBlanks_below, readIdentifier_below]
  rfl

end Reader

/-- The error below a margin. -/
def SourceError.below (margin : Margin) (e : SourceError) : SourceError :=
  ⟨e.position.below margin, e.flaw⟩

namespace Reader

variable (margin : Margin) (r : Reader)

theorem readLiteral_below :
    (r.below margin).readLiteral =
      (r.readLiteral.1.mapError (SourceError.below margin), r.readLiteral.2.below margin) := by
  rw [readLiteral, readLiteral, sees_below]
  split
  · rw [below_rest]
    split
    · rw [skip_below]
      rfl
    · rw [toEnd_below]
      rfl
  · rfl

theorem skipComment_below :
    (r.below margin).skipComment =
      (r.skipComment.1.mapError (SourceError.below margin), r.skipComment.2.below margin) := by
  rw [skipComment, skipComment, seesPair_below]
  split
  · rw [below_rest]
    split
    · rw [skip_below]
      rfl
    · rw [toEnd_below]
      rfl
  · rfl

end Reader

/-! ## Constructs -/

namespace Construct

/-- The construct below a margin. -/
def below (margin : Margin) : Construct → Construct
  | .undefine name p => .undefine name (p.below margin)
  | .openBlock name p => .openBlock name (p.below margin)
  | .closeBlock p => .closeBlock (p.below margin)
  | .includeFile name p => .includeFile name (p.below margin)
  | c => c

/-- What is read below a margin, with the reader behind it. -/
def readBelow (margin : Margin) :
    Except SourceError (Construct × Reader) → Except SourceError (Construct × Reader)
  | .error e => .error (e.below margin)
  | .ok (c, r) => .ok (c.below margin, r.below margin)

variable (margin : Margin) (r : Reader)

theorem readDefine_below : readDefine (r.below margin) = readBelow margin (readDefine r) := by
  rw [readDefine, readDefine, Reader.skipBlanks_below, Reader.readIdentifier_below]
  cases hname : r.skipBlanks.readIdentifier with
  | mk name behind =>
    cases name with
    | nil => rfl
    | cons c cs =>
      simp only [Reader.skipBlanks_below, Reader.readLine_below, Reader.skipLine_below]
      rfl

theorem readUndefine_below :
    readUndefine (r.below margin) =
      ((readUndefine r).1.below margin, (readUndefine r).2.below margin) := by
  simp only [readUndefine, Reader.skipBlanks_below, Reader.readIdentifier_below,
    Reader.skipLine_below]
  rfl

theorem readOpening_below (p : Position) :
    readOpening (p.below margin) (r.below margin) = readBelow margin (readOpening p r) := by
  rw [readOpening, readOpening, Reader.skipBlanks_below, Reader.readIdentifier_below]
  cases hname : r.skipBlanks.readIdentifier with
  | mk name behind =>
    cases name with
    | nil => rfl
    | cons c cs =>
      simp only [Reader.skipLine_below]
      rfl

theorem readInclude_below : readInclude (r.below margin) = readBelow margin (readInclude r) := by
  rw [readInclude, readInclude, Reader.skipBlanks_below, Reader.readLiteral_below]
  cases hliteral : r.skipBlanks.readLiteral with
  | mk result behind =>
    cases result with
    | error e => rfl
    | ok literal =>
      dsimp only [Except.mapError]
      split
      · rfl
      · rw [Reader.skipLine_below]
        rfl

theorem readDirective_below :
    readDirective (r.below margin) = readBelow margin (readDirective r) := by
  rw [readDirective, readDirective, Reader.readKeyword_below]
  dsimp only
  split
  · rfl
  · exact readInclude_below margin _
  · exact readDefine_below margin _
  · rw [readUndefine_below]
    rfl
  · exact readOpening_below margin _ _
  · rw [Reader.skipLine_below]
    rfl

theorem readExpansion_below :
    readExpansion (r.below margin) = readBelow margin (readExpansion r) := by
  rw [readExpansion, readExpansion, Reader.skip_below, Reader.readIdentifier_below]
  cases hname : (r.skip 1).readIdentifier with
  | mk name behind =>
    cases name with
    | nil => rfl
    | cons c cs =>
      dsimp only
      rw [Reader.sees_below]
      split
      · rw [Reader.skip_below]
        rfl
      · rfl

/-- A construct is the same below a margin. -/
theorem read_below : read (r.below margin) = readBelow margin (read r) := by
  -- The conditions are the same on both sides, since they look at what is left only.
  rw [read, read]
  by_cases hhash : r.sees Code.hash = true
  · rw [if_pos hhash]
    exact (if_pos hhash).trans (readDirective_below margin r)
  rw [if_neg hhash]
  refine (if_neg hhash).trans ?_
  by_cases hat : r.sees Code.atSign = true
  · rw [if_pos hat]
    exact (if_pos hat).trans (readExpansion_below margin r)
  rw [if_neg hat]
  refine (if_neg hat).trans ?_
  by_cases hquote : r.sees Code.quote = true
  · rw [if_pos hquote]
    refine (if_pos hquote).trans ?_
    rw [Reader.readLiteral_below]
    cases r.readLiteral with
    | mk result behind => cases result <;> rfl
  rw [if_neg hquote]
  refine (if_neg hquote).trans ?_
  by_cases hline : r.seesPair Code.slash Code.slash = true
  · rw [if_pos hline]
    refine (if_pos hline).trans ?_
    rw [Reader.skipLine_below]
    rfl
  rw [if_neg hline]
  refine (if_neg hline).trans ?_
  by_cases hblock : r.seesPair Code.slash Code.star = true
  · rw [if_pos hblock]
    refine (if_pos hblock).trans ?_
    rw [Reader.skipComment_below]
    cases r.skipComment with
    | mk result behind => cases result <;> rfl
  · rw [if_neg hblock]
    refine (if_neg hblock).trans ?_
    rw [Reader.skip_below]
    rfl

end Construct

namespace SkippedLine

/-- The line below a margin. -/
def below (margin : Margin) : SkippedLine → SkippedLine
  | .opens p => .opens (p.below margin)
  | line => line

/-- A skipped line is the same below a margin. -/
theorem read_below (margin : Margin) (r : Reader) :
    read (r.below margin) = ((read r).1.below margin, (read r).2.below margin) := by
  rw [read, read, Reader.skipBlanks_below]
  dsimp only
  by_cases hhash : r.skipBlanks.sees Code.hash = true
  · rw [if_pos hhash]
    refine (if_pos hhash).trans ?_
    rw [Reader.readKeyword_below, Reader.skipLine_below]
    dsimp only
    cases Directive.ofKeyword? r.skipBlanks.readKeyword.1 with
    | none => rfl
    | some directive => cases directive <;> rfl
  · rw [if_neg hhash]
    refine (if_neg hhash).trans ?_
    rw [Reader.skipLine_below]
    rfl

end SkippedLine

end XsPrep
