import Mathlib.Data.List.DropRight
import XsPrep.Proofs.Source.Reading

/-!
# Lines

Directives and skipped text go by lines.  Reading on within a line does not change
where the line ends, so a directive takes its line wherever its keyword and its
operand end (`Reader.skipLine_readKeyword`), and a skipped line ends where its line
ends (`SkippedLine.read_behind`).

The lines of a text are its parts between line ends (`Character.lines`).  Which
directive a line begins with is a matter of the line alone
(`Character.directive?_line`), and it says whether a line of skipped text opens
or closes a block (`SkippedLine.read_eq`).
-/

namespace XsPrep

/-! ## Classes of characters -/

theorem Code.mem_of_isIn {code : Nat} {ranges : List (Nat × Nat)} (h : isIn code ranges = true) :
    ∃ range ∈ ranges, code ∈ List.range' range.1 (range.2 + 1 - range.1) := by
  induction ranges with
  | nil => cases h
  | cons range ranges ih =>
    rw [isIn] at h
    split at h
    · refine ⟨range, List.mem_cons_self, List.mem_range'_1.mpr ?_⟩
      simp only [decide_eq_true_eq] at h
      omega
    · obtain ⟨other, hother, hcode⟩ := ih h
      exact ⟨other, List.mem_cons_of_mem _ hother, hcode⟩

/-- White space is no part of an identifier. -/
theorem Code.isIdentifier_of_space {code : Nat} (h : isSpace code = true) :
    isIdentifier code = false := by
  have hall : ∀ range ∈ spaceRanges, ∀ code ∈ List.range' range.1 (range.2 + 1 - range.1),
      isIdentifier code = false := by decide +kernel
  obtain ⟨range, hrange, hcode⟩ := mem_of_isIn h
  exact hall range hrange code hcode

namespace Character

theorem code_ne_newline_of_blank {c : Character} (h : c.isBlank = true) :
    c.code ≠ Code.newline := by
  simp only [isBlank, Code.isBlank, Bool.and_eq_true, bne_iff_ne] at h
  exact h.1

theorem code_ne_newline_of_identifier {c : Character} (h : c.isIdentifier = true) :
    c.code ≠ Code.newline := by
  intro hcode
  rw [isIdentifier, hcode, Code.isIdentifier_of_space (by decide)] at h
  cases h

theorem isBlank_of_identifier {c : Character} (h : c.isIdentifier = true) :
    c.isBlank = false := by
  rw [Bool.eq_false_iff]
  intro hblank
  simp only [isBlank, Code.isBlank, Bool.and_eq_true] at hblank
  rw [isIdentifier, Code.isIdentifier_of_space hblank.2] at h
  cases h

end Character

/-! ## Where a line ends -/

namespace Reader

/-- What is left of the line at a reader, without the line end. -/
def line (r : Reader) : List Character := r.rest.takeWhile (·.code != Code.newline)

theorem skipLine_rest (r : Reader) :
    r.skipLine.rest = (r.rest.dropWhile (·.code != Code.newline)).drop 1 := by
  simp [skipLine, toLineEnd]

theorem skipLine_of_end {r : Reader} (h : r.rest = []) : r.skipLine = r := by
  refine ((leadsTo_skipLine r).unique (.refl r) ?_)
  rw [skipLine_rest, h]
  rfl

theorem line_of_append {r : Reader} {line rest : List Character} {ending : Character}
    (hline : ∀ c ∈ line, c.code ≠ Code.newline) (hending : ending.code = Code.newline)
    (hrest : r.rest = line ++ ending :: rest) : r.line = line ∧ r.skipLine.rest = rest := by
  have hall : ∀ c ∈ line, (c.code != Code.newline) = true := by simpa using hline
  constructor
  · rw [Reader.line, hrest, List.takeWhile_append_of_pos hall,
      List.takeWhile_cons_of_neg (by simp [hending]), List.append_nil]
  · rw [skipLine_rest, hrest, List.dropWhile_append_of_pos hall,
      List.dropWhile_cons_of_neg (by simp [hending])]
    rfl

/-- Reading on within a line does not change where the line ends. -/
theorem Reads.within_line {r r' : Reader} {cs : List Character} (h : r.Reads cs r')
    (hcs : ∀ c ∈ cs, c.code ≠ Code.newline) :
    r'.skipLine = r.skipLine ∧ r.line = cs ++ r'.line := by
  have hall : ∀ c ∈ cs, (c.code != Code.newline) = true := by simpa using hcs
  constructor
  · refine (LeadsTo.trans ⟨cs, h⟩ (leadsTo_skipLine r')).unique (leadsTo_skipLine r) ?_
    rw [skipLine_rest, skipLine_rest, h.rest_eq, List.dropWhile_append_of_pos hall]
  · rw [line, line, h.rest_eq, List.takeWhile_append_of_pos hall]

theorem skipLine_skipWhile {p : Character → Bool}
    (hp : ∀ c, p c = true → c.code ≠ Code.newline) (r : Reader) :
    (r.skipWhile p).skipLine = r.skipLine :=
  ((reads_skipWhile p r).within_line fun c hc => hp c (List.mem_takeWhile_imp hc)).1

theorem skipLine_skipBlanks (r : Reader) : r.skipBlanks.skipLine = r.skipLine :=
  skipLine_skipWhile (fun _ => Character.code_ne_newline_of_blank) r

theorem skipLine_readIdentifier (r : Reader) : r.readIdentifier.2.skipLine = r.skipLine :=
  skipLine_skipWhile (fun _ => Character.code_ne_newline_of_identifier) r

theorem skipLine_readLine (r : Reader) : r.readLine.2.skipLine = r.skipLine :=
  skipLine_skipWhile (fun _ hc => by simpa using hc) r

theorem rest_of_sees {r : Reader} {code : Nat} (h : r.sees code = true) :
    ∃ c cs, r.rest = c :: cs ∧ c.code = code := by
  cases hrest : r.rest with
  | nil => simp [sees, peek?, hrest] at h
  | cons c cs => exact ⟨c, cs, rfl, by simpa [sees, peek?, hrest] using h⟩

theorem rest_ne_nil_of_sees {r : Reader} {code : Nat} (h : r.sees code = true) : r.rest ≠ [] := by
  obtain ⟨c, cs, hrest, -⟩ := rest_of_sees h
  rw [hrest]
  exact List.cons_ne_nil c cs

theorem rest_of_seesPair {r : Reader} {a b : Nat} (h : r.seesPair a b = true) :
    ∃ c d cs, r.rest = c :: d :: cs ∧ c.code = a ∧ d.code = b := by
  rw [seesPair] at h
  split at h
  · rename_i c d cs hrest
    simp only [Bool.and_eq_true, beq_iff_eq] at h
    exact ⟨c, d, cs, hrest, h⟩
  · cases h

theorem sees_of_seesPair {r : Reader} {a b : Nat} (h : r.seesPair a b = true) :
    r.sees a = true := by
  obtain ⟨c, d, cs, hrest, rfl, -⟩ := rest_of_seesPair h
  simp [sees, peek?, hrest]

theorem line_of_rest {r : Reader} {c : Character} {cs : List Character} (hrest : r.rest = c :: cs)
    (hc : c.code ≠ Code.newline) : r.line = c :: (r.skip 1).line := by
  have hreads := reads_skip 1 r
  rw [hrest] at hreads
  exact (hreads.within_line (by simpa using hc)).2

theorem skip_one_of_newline {r : Reader} {c : Character} {cs : List Character}
    (hrest : r.rest = c :: cs) (hc : c.code = Code.newline) : r.skip 1 = r.skipLine := by
  refine (leadsTo_skip 1 r).unique (leadsTo_skipLine r) ?_
  rw [skipLine_rest, skip_rest, hrest, List.dropWhile_cons_of_neg (by simp [hc])]

theorem skipLine_skip_one {r : Reader} {code : Nat} (h : r.sees code = true)
    (hcode : code ≠ Code.newline) : (r.skip 1).skipLine = r.skipLine := by
  obtain ⟨c, cs, hrest, rfl⟩ := rest_of_sees h
  refine ((reads_skip 1 r).within_line ?_).1
  simpa [hrest] using hcode

theorem skipLine_readKeyword {r : Reader} (h : r.sees Code.hash = true) :
    r.readKeyword.2.skipLine = r.skipLine := by
  rw [readKeyword, skipLine_readIdentifier, skipLine_skipBlanks, skipLine_skip_one h (by decide)]

theorem skipBlanks_rest (r : Reader) : r.skipBlanks.rest = r.rest.dropWhile Character.isBlank :=
  skipWhile_rest Character.isBlank r

theorem skipBlanks_of_sees {r : Reader} {code : Nat} (h : r.sees code = true)
    (hcode : Code.isBlank code = false) : r.skipBlanks = r := by
  obtain ⟨c, cs, hrest, rfl⟩ := rest_of_sees h
  refine (leadsTo_skipBlanks r).unique (.refl r) ?_
  rw [skipBlanks_rest, hrest, List.dropWhile_cons_of_neg (by simpa [Character.isBlank] using hcode)]

end Reader

theorem SkippedLine.read_behind (r : Reader) : (SkippedLine.read r).2 = r.skipLine := by
  have hblanks := Reader.skipLine_skipBlanks r
  unfold SkippedLine.read
  dsimp only
  split
  · rename_i hhash
    have hkeyword := (Reader.skipLine_readKeyword hhash).trans hblanks
    split <;> exact hkeyword
  · exact hblanks

/-! ## The lines of a text -/

namespace Character

/-- The lines of characters, without their line ends. -/
def lines (cs : List Character) : List (List Character) :=
  cs.splitOnP (·.code == Code.newline)

/-- The directive of a line whose first character, behind white space, is `#`. -/
def directive? (line : List Character) : Option Directive :=
  match line.dropWhile isBlank with
  | [] => none
  | c :: cs =>
    if c.code = Code.hash then
      Directive.ofKeyword? (Text.ofCharacters ((cs.dropWhile isBlank).takeWhile isIdentifier))
    else none

theorem lines_append {line : List Character} (hline : ∀ c ∈ line, c.code ≠ Code.newline)
    {ending : Character} (hending : ending.code = Code.newline) (rest : List Character) :
    lines (line ++ ending :: rest) = line :: lines rest :=
  List.splitOnP_append_cons_of_forall_mem (by simpa using hline) ending (by simpa using hending)
    rest

/-- Whole lines are none, or a first one and others. -/
theorem AreLines.eq_nil_or_append {cs : List Character} (h : AreLines cs) :
    cs = [] ∨ ∃ line ending rest, (∀ c ∈ line, c.code ≠ Code.newline) ∧
      ending.code = Code.newline ∧ cs = line ++ ending :: rest ∧ AreLines rest := by
  rcases h with hnil | hlast
  · exact .inl hnil
  obtain ⟨last, hmem, hcode⟩ := Option.map_eq_some_iff.mp hlast
  obtain ⟨ending, line, rest, hline, hending, rfl, -⟩ :=
    List.exists_of_eraseP (p := fun c => c.code == Code.newline) (List.mem_of_getLast? hmem)
      (by simpa using hcode)
  refine .inr ⟨line, ending, rest, ?_, by simpa using hending, rfl, ?_⟩
  · intro c hc
    simpa using hline c hc
  · rw [List.append_cons] at hlast
    exact AreLines.of_append (.inr hlast)

/-- What holds of all lines holds of the first one and of those behind it. -/
theorem forall_mem_lines {P : List Character → Prop} (hnil : P []) {r : Reader}
    (h : ∀ line ∈ lines r.rest, P line) :
    P r.line ∧ ∀ line ∈ lines r.skipLine.rest, P line := by
  have hsplit : r.line ++ r.rest.dropWhile (·.code != Code.newline) = r.rest :=
    List.takeWhile_append_dropWhile
  have hline : ∀ c ∈ r.line, c.code ≠ Code.newline := by
    intro c hc
    simpa using List.mem_takeWhile_imp hc
  rw [Reader.skipLine_rest]
  cases hdrop : r.rest.dropWhile (·.code != Code.newline) with
  | nil =>
    rw [hdrop, List.append_nil] at hsplit
    rw [← hsplit, lines, List.splitOnP_eq_singleton (by simpa using hline)] at h
    refine ⟨h _ List.mem_cons_self, ?_⟩
    simpa [lines] using hnil
  | cons ending rest =>
    have hending : ending.code = Code.newline := by
      have hhead := List.head?_dropWhile_not (fun c : Character => c.code != Code.newline) r.rest
      rw [hdrop] at hhead
      simpa using hhead
    rw [hdrop] at hsplit
    rw [← hsplit, lines_append hline hending] at h
    exact List.forall_mem_cons.mp h

/-! ### Directives -/

theorem dropWhile_takeWhile {p q : Character → Bool} (hpq : ∀ c, p c = true → q c = true)
    (cs : List Character) : (cs.takeWhile q).dropWhile p = (cs.dropWhile p).takeWhile q := by
  induction cs with
  | nil => rfl
  | cons c cs ih =>
    by_cases hp : p c = true
    · rw [List.takeWhile_cons_of_pos (hpq c hp), List.dropWhile_cons_of_pos hp,
        List.dropWhile_cons_of_pos hp, ih]
    · rw [List.dropWhile_cons_of_neg hp]
      by_cases hq : q c = true
      · rw [List.takeWhile_cons_of_pos hq, List.dropWhile_cons_of_neg hp]
      · rw [List.takeWhile_cons_of_neg hq, List.dropWhile_nil]

theorem takeWhile_takeWhile_of_imp {p q : Character → Bool} (hpq : ∀ c, p c = true → q c = true)
    (cs : List Character) : (cs.takeWhile q).takeWhile p = cs.takeWhile p := by
  rw [List.takeWhile_takeWhile]
  congr 1
  funext c
  by_cases hp : p c = true
  · simp [hp, hpq c hp]
  · simp [hp]

/-- The directive of a line does not depend on what is behind the line. -/
theorem directive?_line (r : Reader) : directive? r.line = directive? r.rest := by
  have hblank : ∀ c : Character, c.isBlank = true → (c.code != Code.newline) = true := by
    intro c hc
    simpa using code_ne_newline_of_blank hc
  have hidentifier : ∀ c : Character, c.isIdentifier = true → (c.code != Code.newline) = true := by
    intro c hc
    simpa using code_ne_newline_of_identifier hc
  rw [directive?, directive?, Reader.line, dropWhile_takeWhile hblank]
  cases r.rest.dropWhile isBlank with
  | nil => rfl
  | cons c rest =>
    by_cases hc : c.code = Code.newline
    · have hno : ¬(Code.newline = Code.hash) := by decide
      simp [hc, hno]
    · rw [List.takeWhile_cons_of_pos (by simpa using hc)]
      dsimp only
      rw [dropWhile_takeWhile hblank, takeWhile_takeWhile_of_imp hidentifier]

theorem directive?_skipBlanks (r : Reader) : directive? r.skipBlanks.rest = directive? r.rest := by
  rw [directive?, directive?, Reader.skipBlanks_rest, List.dropWhile_idempotent]

theorem directive?_of_hash {r : Reader} (h : r.sees Code.hash = true) :
    directive? r.rest = Directive.ofKeyword? r.readKeyword.1 := by
  obtain ⟨c, cs, hrest, hc⟩ := Reader.rest_of_sees h
  have hkeyword : r.readKeyword.1 =
      Text.ofCharacters ((cs.dropWhile isBlank).takeWhile isIdentifier) := by
    simp [Reader.readKeyword, Reader.readIdentifier, Reader.readWhile, Reader.skipBlanks, hrest]
  rw [hkeyword, directive?, ← Reader.skipBlanks_rest, Reader.skipBlanks_of_sees h (by decide),
    hrest]
  exact if_pos hc

theorem directive?_of_no_hash {r : Reader} (h : r.skipBlanks.sees Code.hash = false) :
    directive? r.rest = none := by
  rw [directive?, ← Reader.skipBlanks_rest]
  cases hrest : r.skipBlanks.rest with
  | nil => rfl
  | cons c cs =>
    have hc : ¬c.code = Code.hash := by simpa [Reader.sees, Reader.peek?, hrest] using h
    exact if_neg hc

end Character

/-- The kind of a skipped line is decided by its directive. -/
theorem SkippedLine.read_eq (r : Reader) :
    SkippedLine.read r =
      (match Character.directive? r.rest with
        | some .ifDefined => .opens r.skipBlanks.position
        | some .endIf => .closes
        | _ => .other, r.skipLine) := by
  refine Prod.ext ?_ (SkippedLine.read_behind r)
  rw [SkippedLine.read]
  dsimp only
  cases hhash : r.skipBlanks.sees Code.hash with
  | false =>
    rw [Character.directive?_of_no_hash hhash]
    rfl
  | true =>
    rw [← Character.directive?_skipBlanks, Character.directive?_of_hash hhash, if_pos rfl]
    cases Directive.ofKeyword? r.skipBlanks.readKeyword.1 with
    | none => rfl
    | some directive => cases directive <;> rfl

/-! ## Constructs within a line -/

namespace Construct

variable {r r' : Reader} {c : Construct}

/-- A definition with a name takes its line. -/
theorem readDefine_eq (r : Reader) :
    readDefine r =
      if r.skipBlanks.readIdentifier.1 = [] then
        .error ⟨r.skipBlanks.position, .missingName (.operand .define)⟩
      else
        .ok (.define r.skipBlanks.readIdentifier.1
          r.skipBlanks.readIdentifier.2.skipBlanks.readLine.1.trimmed, r.skipLine) := by
  have hline : r.skipBlanks.readIdentifier.2.skipBlanks.readLine.2.skipLine = r.skipLine := by
    rw [Reader.skipLine_readLine, Reader.skipLine_skipBlanks, Reader.skipLine_readIdentifier,
      Reader.skipLine_skipBlanks]
  rw [← hline, readDefine]
  cases r.skipBlanks.readIdentifier with
  | mk name behind => cases name <;> rfl

theorem readDefine_eq_ok (h : readDefine r = .ok (c, r')) :
    (∃ name value, c = .define name value) ∧ r' = r.skipLine := by
  rw [readDefine_eq] at h
  split at h
  · cases h
  · cases h
    exact ⟨⟨_, _, rfl⟩, rfl⟩

theorem readUndefine_eq (r : Reader) :
    readUndefine r =
      (.undefine r.skipBlanks.readIdentifier.1 r.skipBlanks.position, r.skipLine) := by
  have hbehind := Reader.skipLine_readIdentifier r.skipBlanks
  rw [Reader.skipLine_skipBlanks] at hbehind
  rw [← hbehind]
  rfl

/-- The opening of a block with a name takes its line. -/
theorem readOpening_eq (place : Position) (r : Reader) :
    readOpening place r =
      if r.skipBlanks.readIdentifier.1 = [] then
        .error ⟨r.skipBlanks.position, .missingName (.operand .ifDefined)⟩
      else .ok (.openBlock r.skipBlanks.readIdentifier.1 place, r.skipLine) := by
  rw [← Reader.skipLine_skipBlanks, ← Reader.skipLine_readIdentifier, readOpening]
  cases r.skipBlanks.readIdentifier with
  | mk name behind => cases name <;> rfl

theorem readOpening_eq_ok {place : Position} (h : readOpening place r = .ok (c, r')) :
    (∃ name, c = .openBlock name place) ∧ r' = r.skipLine := by
  rw [readOpening_eq] at h
  split at h
  · cases h
  · cases h
    exact ⟨⟨_, rfl⟩, rfl⟩

theorem readOpening_of_name (place : Position) (h : r.skipBlanks.readIdentifier.1 ≠ []) :
    readOpening place r = .ok (.openBlock r.skipBlanks.readIdentifier.1 place, r.skipLine) := by
  rw [readOpening_eq, if_neg h]

/-- An expansion consists of two `@` and an identifier between them. -/
theorem readExpansion_eq_ok (hat : r.sees Code.atSign = true)
    (h : readExpansion r = .ok (c, r')) :
    (∃ name, c = .expansion name) ∧
      ∃ cs, r.Reads cs r' ∧ ∀ d ∈ cs, d.code = Code.atSign ∨ d.isIdentifier = true := by
  have hmark : ∀ {r : Reader}, r.sees Code.atSign = true →
      ∀ d ∈ r.rest.take 1, d.code = Code.atSign := by
    intro r hat d hd
    obtain ⟨first, rest, hrest, hfirst⟩ := Reader.rest_of_sees hat
    rw [hrest, List.take_succ_cons, List.take_zero, List.mem_singleton] at hd
    rw [hd, hfirst]
  rw [readExpansion] at h
  split at h
  · cases h
  · rename_i name behind _ hread
    split at h
    · rename_i hclose
      cases h
      have hname := Reader.reads_skipWhile Character.isIdentifier (r.skip 1)
      rw [show (r.skip 1).skipWhile Character.isIdentifier = behind from congrArg Prod.snd hread]
        at hname
      refine ⟨⟨_, rfl⟩, _, ((Reader.reads_skip 1 r).trans hname).trans
        (Reader.reads_skip 1 behind), ?_⟩
      intro d hd
      rcases List.mem_append.mp hd with hd | hd
      · rcases List.mem_append.mp hd with hd | hd
        · exact .inl (hmark hat d hd)
        · exact .inr (List.mem_takeWhile_imp hd)
      · exact .inl (hmark hclose d hd)
    · cases h

end Construct

end XsPrep
