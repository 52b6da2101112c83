import XsPrep.Source.Literal

/-!
# Constructs

In text that is being read, the preprocessor takes one construct after the
other: a string literal, a comment, a directive line, a macro expansion `@NAME@`,
or else a single character.  Which construct stands at a reader depends on the
text alone, so reading a construct and carrying it out are two things.

In text that is being skipped only lines matter, and of these only the ones
that open or close a block (`SkippedLine`).

`Construct.read_shorter` and `SkippedLine.read_shorter` say that either makes
progress.
-/

namespace XsPrep

/-- A construct of text that is being read. -/
inductive Construct where
  /-- A string literal, as written. -/
  | literal (raw : Text)
  /-- A comment. -/
  | comment
  /-- Any other character. -/
  | character (raw : Text)
  /-- A macro expansion. -/
  | expansion (name : Text)
  /-- A macro definition with its value. -/
  | define (name value : Text)
  /-- A removal of a macro.  The name, which may be empty, stands at `place`. -/
  | undefine (name : Text) (place : Position)
  /-- The opening of a block, with the position of its `#`. -/
  | openBlock (name : Text) (place : Position)
  /-- The closing of a block, with the position of its `#`. -/
  | closeBlock (place : Position)
  /-- An include, with the position of the quoted name. -/
  | includeFile (name : Text) (place : Position)
deriving DecidableEq, Repr

namespace Reader

/-- The keyword behind the `#` at a reader, and the reader behind it. -/
def readKeyword (r : Reader) : Text × Reader := (r.skip 1).skipBlanks.readIdentifier

theorem length_readKeyword_lt {r : Reader} (h : r.rest ≠ []) :
    r.readKeyword.2.rest.length < r.rest.length := by
  have h1 := length_readIdentifier_le (r.skip 1).skipBlanks
  have h2 := length_skipBlanks_le (r.skip 1)
  have h3 := length_skip 1 r
  have h4 := List.length_pos_iff.mpr h
  simp only [readKeyword]
  omega

theorem length_readLiteral_le (r : Reader) : r.readLiteral.2.rest.length ≤ r.rest.length := by
  unfold readLiteral
  split
  · split
    · simp
    · exact length_skipWhile_le _ r
  · exact Nat.le_refl _

/-- A literal that is read is read from somewhere. -/
theorem length_readLiteral_lt {r : Reader} (h : r.sees Code.quote) :
    r.readLiteral.2.rest.length < r.rest.length := by
  unfold readLiteral
  have hpos : 0 < r.rest.length := by
    cases hr : r.rest with
    | nil => simp [sees, peek?, hr] at h
    | cons c cs => simp
  rw [if_pos h]
  split
  · simp only [length_skip]; omega
  · rw [toEnd_rest]; exact hpos

/-- A comment that is skipped is skipped from somewhere. -/
theorem length_skipComment_lt {r : Reader} (h : r.seesPair Code.slash Code.star) :
    r.skipComment.2.rest.length < r.rest.length := by
  have hpos : 0 < r.rest.length := by
    cases hr : r.rest with
    | nil => simp [seesPair, hr] at h
    | cons c cs => simp
  unfold skipComment
  rw [if_pos h]
  split
  · rename_i n hn
    have := commentLength_pos hn
    simp only [length_skip]
    omega
  · rw [toEnd_rest]; exact hpos

end Reader

namespace Construct

/-- The definition whose keyword was read: the name, then the rest of the line
without white space around it. -/
def readDefine (r : Reader) : Except SourceError (Construct × Reader) :=
  let r := r.skipBlanks
  match r.readIdentifier with
  | ([], _) => .error ⟨r.position, .missingName (.operand .define)⟩
  | (name, r) =>
    let (value, r) := r.skipBlanks.readLine
    .ok (.define name value.trimmed, r.skipLine)

/-- The removal whose keyword was read. -/
def readUndefine (r : Reader) : Construct × Reader :=
  let r := r.skipBlanks
  let (name, behind) := r.readIdentifier
  (.undefine name r.position, behind.skipLine)

/-- The opening of a block whose keyword was read.  Its `#` is at `place`. -/
def readOpening (place : Position) (r : Reader) : Except SourceError (Construct × Reader) :=
  let r := r.skipBlanks
  match r.readIdentifier with
  | ([], _) => .error ⟨r.position, .missingName (.operand .ifDefined)⟩
  | (name, r) => .ok (.openBlock name place, r.skipLine)

/-- The include whose keyword was read. -/
def readInclude (r : Reader) : Except SourceError (Construct × Reader) :=
  let r := r.skipBlanks
  match r.readLiteral with
  | (.error e, _) => .error e
  | (.ok name, behind) =>
    if name.value.isEmpty then .error ⟨r.position, .emptyIncludeName⟩
    else .ok (.includeFile name.value r.position, behind.skipLine)

/-- The directive at a reader that sees `#`. -/
def readDirective (r : Reader) : Except SourceError (Construct × Reader) :=
  let (keyword, behind) := r.readKeyword
  match Directive.ofKeyword? keyword with
  | none => .error ⟨r.position, .unknownDirective keyword⟩
  | some .includeFile => readInclude behind
  | some .define => readDefine behind
  | some .undefine => .ok (readUndefine behind)
  | some .ifDefined => readOpening r.position behind
  | some .endIf => .ok (.closeBlock r.position, behind.skipLine)

/-- The expansion at a reader that sees `@`. -/
def readExpansion (r : Reader) : Except SourceError (Construct × Reader) :=
  let r := r.skip 1
  match r.readIdentifier with
  | ([], _) => .error ⟨r.position, .missingName .expansion⟩
  | (name, r) =>
    if r.sees Code.atSign then .ok (.expansion name, r.skip 1)
    else .error ⟨r.position, .unterminatedExpansion name⟩

/-- The construct at a reader that is not at the end. -/
def read (r : Reader) : Except SourceError (Construct × Reader) :=
  if r.sees Code.hash then readDirective r
  else if r.sees Code.atSign then readExpansion r
  else if r.sees Code.quote then
    match r.readLiteral with
    | (.error e, _) => .error e
    | (.ok quoted, behind) => .ok (.literal quoted.raw, behind)
  else if r.seesPair Code.slash Code.slash then .ok (.comment, r.skipLine)
  else if r.seesPair Code.slash Code.star then
    match r.skipComment with
    | (.error e, _) => .error e
    | (.ok (), behind) => .ok (.comment, behind)
  else .ok (.character (Text.ofCharacters (r.rest.take 1)), r.skip 1)

theorem readDefine_le {r r' : Reader} {c : Construct} (h : readDefine r = .ok (c, r')) :
    r'.rest.length ≤ r.rest.length := by
  unfold readDefine at h
  dsimp only at h
  split at h
  · cases h
  · rename_i name behind _ heq
    simp only [Except.ok.injEq, Prod.mk.injEq] at h
    obtain ⟨-, rfl⟩ := h
    have h1 := Reader.length_skipBlanks_le r
    have h2 := Reader.length_readIdentifier_le r.skipBlanks
    rw [heq] at h2
    have h3 := Reader.length_skipBlanks_le behind
    have h4 := Reader.length_readLine_le behind.skipBlanks
    have h5 := Reader.length_skipLine_le behind.skipBlanks.readLine.2
    simp only at h2
    omega

theorem readUndefine_le (r : Reader) : (readUndefine r).2.rest.length ≤ r.rest.length := by
  have h1 := Reader.length_skipBlanks_le r
  have h2 := Reader.length_readIdentifier_le r.skipBlanks
  have h3 := Reader.length_skipLine_le r.skipBlanks.readIdentifier.2
  simp only [readUndefine]
  omega

theorem readOpening_le {place : Position} {r r' : Reader} {c : Construct}
    (h : readOpening place r = .ok (c, r')) : r'.rest.length ≤ r.rest.length := by
  unfold readOpening at h
  dsimp only at h
  split at h
  · cases h
  · rename_i name behind _ heq
    simp only [Except.ok.injEq, Prod.mk.injEq] at h
    obtain ⟨-, rfl⟩ := h
    have h1 := Reader.length_skipBlanks_le r
    have h2 := Reader.length_readIdentifier_le r.skipBlanks
    rw [heq] at h2
    have h3 := Reader.length_skipLine_le behind
    simp only at h2
    omega

theorem readInclude_le {r r' : Reader} {c : Construct} (h : readInclude r = .ok (c, r')) :
    r'.rest.length ≤ r.rest.length := by
  unfold readInclude at h
  dsimp only at h
  split at h
  · cases h
  · rename_i quoted behind heq
    split at h
    · cases h
    · simp only [Except.ok.injEq, Prod.mk.injEq] at h
      obtain ⟨-, rfl⟩ := h
      have h1 := Reader.length_skipBlanks_le r
      have h2 := Reader.length_readLiteral_le r.skipBlanks
      rw [heq] at h2
      have h3 := Reader.length_skipLine_le behind
      simp only at h2
      omega

theorem readDirective_shorter {r r' : Reader} {c : Construct} (hr : r.rest ≠ [])
    (h : readDirective r = .ok (c, r')) : r'.rest.length < r.rest.length := by
  have hk := Reader.length_readKeyword_lt hr
  unfold readDirective at h
  dsimp only at h
  split at h
  · cases h
  · exact Nat.lt_of_le_of_lt (readInclude_le h) hk
  · exact Nat.lt_of_le_of_lt (readDefine_le h) hk
  · have hu := readUndefine_le r.readKeyword.2
    simp only [Except.ok.injEq] at h
    rw [h] at hu
    exact Nat.lt_of_le_of_lt hu hk
  · exact Nat.lt_of_le_of_lt (readOpening_le h) hk
  · simp only [Except.ok.injEq, Prod.mk.injEq] at h
    obtain ⟨-, rfl⟩ := h
    exact Nat.lt_of_le_of_lt (Reader.length_skipLine_le _) hk

theorem readExpansion_shorter {r r' : Reader} {c : Construct} (hr : r.rest ≠ [])
    (h : readExpansion r = .ok (c, r')) : r'.rest.length < r.rest.length := by
  have hpos := List.length_pos_iff.mpr hr
  unfold readExpansion at h
  dsimp only at h
  split at h
  · cases h
  · rename_i name behind _ heq
    have h2 := Reader.length_readIdentifier_le (r.skip 1)
    rw [heq, Reader.length_skip] at h2
    split at h
    · simp only [Except.ok.injEq, Prod.mk.injEq] at h
      obtain ⟨-, rfl⟩ := h
      simp only [Reader.length_skip] at h2 ⊢
      omega
    · cases h

/-- Reading a construct leaves less to read. -/
theorem read_shorter {r r' : Reader} {c : Construct} (hr : r.rest ≠ [])
    (h : read r = .ok (c, r')) : r'.rest.length < r.rest.length := by
  have hpos := List.length_pos_iff.mpr hr
  unfold read at h
  split at h
  · exact readDirective_shorter hr h
  split at h
  · exact readExpansion_shorter hr h
  split at h
  · rename_i hq
    have hlt := Reader.length_readLiteral_lt hq
    split at h
    · cases h
    · rename_i quoted behind heq
      simp only [Except.ok.injEq, Prod.mk.injEq] at h
      obtain ⟨-, rfl⟩ := h
      rw [heq] at hlt
      exact hlt
  split at h
  · simp only [Except.ok.injEq, Prod.mk.injEq] at h
    obtain ⟨-, rfl⟩ := h
    exact Reader.length_skipLine_lt hr
  split at h
  · rename_i hp
    have hlt := Reader.length_skipComment_lt hp
    split at h
    · cases h
    · rename_i behind heq
      simp only [Except.ok.injEq, Prod.mk.injEq] at h
      obtain ⟨-, rfl⟩ := h
      rw [heq] at hlt
      exact hlt
  · simp only [Except.ok.injEq, Prod.mk.injEq] at h
    obtain ⟨-, rfl⟩ := h
    simp only [Reader.length_skip]
    omega

end Construct

/-- A line of text that is being skipped. -/
inductive SkippedLine where
  /-- It opens a block, with its `#` at `place`. -/
  | opens (place : Position)
  /-- It closes a block. -/
  | closes
  /-- It does neither. -/
  | other
deriving DecidableEq, Repr

namespace SkippedLine

/-- The kind of the line at a reader, and the reader behind the line.  Only a
directive at the beginning of the line counts. -/
def read (r : Reader) : SkippedLine × Reader :=
  let r := r.skipBlanks
  if r.sees Code.hash then
    let (keyword, behind) := r.readKeyword
    match Directive.ofKeyword? keyword with
    | some .ifDefined => (.opens r.position, behind.skipLine)
    | some .endIf => (.closes, behind.skipLine)
    | _ => (.other, behind.skipLine)
  else (.other, r.skipLine)

/-- Skipping a line leaves less to read. -/
theorem read_shorter {r : Reader} (hr : r.rest ≠ []) :
    (read r).2.rest.length < r.rest.length := by
  have hb := Reader.length_skipBlanks_le r
  have hpos := List.length_pos_iff.mpr hr
  unfold read
  dsimp only
  by_cases hs : r.skipBlanks.rest = []
  · have hno : r.skipBlanks.sees Code.hash = false := by simp [Reader.sees, Reader.peek?, hs]
    have hl := Reader.length_skipLine_le r.skipBlanks
    rw [hs] at hl
    simp only [hno, Bool.false_eq_true, if_false]
    simp only [List.length_nil] at hl
    omega
  · have hl := Reader.length_skipLine_lt hs
    have hk := Reader.length_readKeyword_lt hs
    have hkl := Reader.length_skipLine_le r.skipBlanks.readKeyword.2
    split
    · split <;> (simp only; omega)
    · simp only; omega

end SkippedLine

end XsPrep
