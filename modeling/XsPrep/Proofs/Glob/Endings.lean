import XsPrep.Glob.Match
import XsPrep.Proofs.Text.Decoding

/-!
# Patterns for an ending

A name without slashes matches `*` and an ending exactly if it ends so (`outcome_ending`).  The
matching tries the ending from each character of the name on.  What it holds on to is that the part
of the ending that fits so far stands right behind the mark of the `*`
(`Matching.behindStar`).  Going back to the mark gives up the first character behind it, and as
the ending has only characters of one byte, it does not begin within a longer one
(`isSuffixOf_behind_first`).
-/

namespace XsPrep.Glob

/-- A byte that stands for itself in a pattern. -/
def IsPlain (b : UInt8) : Prop := b < 0x80 ∧ isMark b = false ∧ b ≠ Byte.backslash

instance (b : UInt8) : Decidable (IsPlain b) := inferInstanceAs (Decidable (_ ∧ _))

theorem IsPlain.ne_marks {b : UInt8} (h : IsPlain b) :
    b ≠ star ∧ b ≠ question ∧ b ≠ openClass ∧ b ≠ openAlternatives := by
  have hmark := h.2.1
  simpa [isMark, and_assoc] using hmark

/-! ## Nothing left of the name -/

theorem matchEmpty_of_notMem (rounds : Nat) {b : UInt8} {pattern : Text}
    (h : b :: pattern ∉ emptyPatterns) (hb : b ≠ openAlternatives) :
    matchEmpty rounds (b :: pattern) = .failed := by
  have hcontains : emptyPatterns.contains (b :: pattern) = false := by simpa using h
  unfold matchEmpty
  rw [hcontains, if_neg Bool.false_ne_true]
  cases rounds with
  | zero => rfl
  | succ rounds => exact if_neg hb

theorem matchEmpty_plain (rounds : Nat) {pattern : Text} (h : ∀ b ∈ pattern, IsPlain b) :
    matchEmpty rounds pattern = .ofBool pattern.isEmpty := by
  cases pattern with
  | nil =>
    unfold matchEmpty
    exact if_pos rfl
  | cons b pattern =>
    have hstar : ∀ p ∈ emptyPatterns, p ≠ [] → star ∈ p := by decide
    refine matchEmpty_of_notMem rounds ?_ (h b List.mem_cons_self).ne_marks.2.2.2
    intro hmem
    exact (h star (hstar _ hmem (List.cons_ne_nil _ _))).ne_marks.1 rfl

theorem matchEmpty_ending (rounds : Nat) {ending : Text} (h : ∀ b ∈ ending, IsPlain b) :
    matchEmpty rounds (star :: ending) = .ofBool ending.isEmpty := by
  cases ending with
  | nil =>
    unfold matchEmpty
    exact if_pos rfl
  | cons b ending =>
    have hstar : ∀ p ∈ emptyPatterns, p.tail ≠ [] → star ∈ p.tail := by decide
    refine matchEmpty_of_notMem rounds ?_ (by decide)
    intro hmem
    exact (h star (hstar _ hmem (List.cons_ne_nil _ _))).ne_marks.1 rfl

/-! ## Going back -/

/-- An ending of single bytes begins behind the first character of a longer text, or nowhere. -/
theorem isSuffixOf_behind_first {ending : Text} (h : ∀ b ∈ ending, b < 0x80) {b : UInt8} {t : Text}
    (hne : ending ≠ b :: t) :
    ending.isSuffixOf (b :: t) = ending.isSuffixOf (Character.first b t).2 := by
  have hfirst := Character.first_bytes_append b t
  rw [Bool.eq_iff_iff, List.isSuffixOf_iff_suffix, List.isSuffixOf_iff_suffix]
  constructor
  · rintro ⟨before, hbefore⟩
    rw [← hfirst, List.append_eq_append_iff] at hbefore
    rcases hbefore with ⟨more, hbytes, hending⟩ | ⟨more, -, hrest⟩
    · cases more with
      | nil => exact ⟨[], hending⟩
      | cons c more =>
        -- The ending would begin within the character, so it would be the whole text.
        have hc : c < 0x80 := h c (hending ▸ List.mem_cons_self)
        have hmem : c ∈ (Character.first b t).1.bytes := hbytes ▸ by simp
        have hcode : (Character.first b t).1.code = c.toNat := by
          by_contra hcode
          exact (Character.spelled_first b t).notMem_bytes hc hcode hmem
        have hsingle := (Character.spelled_first b t).bytes_of_ascii hc hcode
        rw [hsingle] at hbytes hfirst
        have hnil : before = [] ∧ more = [] := by
          have hlength := congrArg List.length hbytes
          simp only [List.length_append, List.length_cons, List.length_nil] at hlength
          exact ⟨List.eq_nil_of_length_eq_zero (by omega), List.eq_nil_of_length_eq_zero (by omega)⟩
        refine absurd ?_ hne
        rw [hending, hnil.2, ← hfirst]
    · exact ⟨more, hrest.symm⟩
  · rintro ⟨before, hbefore⟩
    exact ⟨(Character.first b t).1.bytes ++ before, by rw [List.append_assoc, hbefore, hfirst]⟩

namespace Matching

/-- A matching behind a `*`.  Of the ending, `before` fits the name right behind the mark. -/
def behindStar (before behind name : Text) (atStart : Bool) : Matching :=
  ⟨Glob.star :: (before ++ behind), before.length + 1, name, atStart, some (1, before ++ name),
    none⟩

variable {before behind name : Text} {atStart : Bool}

theorem name_behindStar : (behindStar before behind name atStart).name = name := rfl

theorem rest_behindStar : (behindStar before behind name atStart).rest = behind := by
  rw [rest, behindStar, List.drop_succ_cons, List.drop_left]

theorem back_behindStar {b : UInt8} {t : Text} (hmark : before ++ name = b :: t)
    (hslash : b ≠ Byte.slash) :
    (behindStar before behind name atStart).back =
      .next (behindStar [] (before ++ behind) (Character.first b t).2 false) := by
  rw [back, retry?, behindStar]
  simp only [hmark]
  rw [if_neg hslash]
  rfl

/-- What one round does behind a `*`, with some name left. -/
theorem round_behindStar (hplain : ∀ b ∈ behind, IsPlain b) {n : UInt8} :
    (behindStar before behind (n :: name) atStart).round =
      if behind.head? = some n then
        .next (behindStar (before ++ [n]) behind.tail name (n.toNat = Code.slash))
      else (behindStar before behind (n :: name) atStart).back := by
  rw [round, rest_behindStar]
  cases behind with
  | nil => rfl
  | cons p behind =>
    obtain ⟨hp, hmark, hbackslash⟩ := hplain p List.mem_cons_self
    obtain ⟨hstar, hquestion, hclass, halternatives⟩ := IsPlain.ne_marks ⟨hp, hmark, hbackslash⟩
    have hwanted : Character.first p behind = (⟨p.toNat, [p]⟩, behind) := by
      rw [Character.first, if_pos hp]
    rw [name_behindStar]
    dsimp only
    rw [if_neg hstar, if_neg hquestion, if_neg hclass, if_neg halternatives, if_neg hbackslash]
    unfold literal
    rw [name_behindStar]
    simp only [hwanted, List.head?_cons, Option.some.injEq, List.tail_cons]
    by_cases hn : p = n
    · subst hn
      have hfound : Character.first p name = (⟨p.toNat, [p]⟩, name) := by
        rw [Character.first, if_pos hp]
      rw [hfound, if_pos rfl, if_pos rfl]
      simp [advance, behindStar]
    · have hcode : p.toNat ≠ (Character.first n name).1.code := by
        intro hcode
        have hbytes := (Character.spelled_first n name).bytes_of_ascii hp hcode.symm
        have hfirst := Character.first_bytes_append n name
        rw [hbytes] at hfirst
        exact hn (List.cons.inj hfirst).1
      rw [if_neg hcode, if_neg hn]

/-- Behind a `*`, a run finds out whether the name ends as the pattern does. -/
theorem run_behindStar {rounds : Nat} (hplain : ∀ b ∈ before ++ behind, IsPlain b)
    (hslash : Byte.slash ∉ before ++ name)
    (hrounds : (before ++ name).length * ((before ++ behind).length + 2) + behind.length < rounds) :
    run rounds (behindStar before behind name atStart) =
      .ofBool ((before ++ behind).isSuffixOf (before ++ name)) := by
  induction rounds generalizing before behind name atStart with
  | zero => exact absurd hrounds (Nat.not_lt_zero _)
  | succ rounds ih =>
    have hbehind : ∀ b ∈ behind, IsPlain b := fun b hb => hplain b (List.mem_append_right _ hb)
    rw [run, name_behindStar]
    cases name with
    | nil =>
      rw [List.isEmpty_nil, if_pos rfl, rest_behindStar, matchEmpty_plain _ hbehind]
      congr 1
      cases behind with
      | nil => exact (List.isSuffixOf_iff_suffix.mpr List.suffix_rfl).symm
      | cons p behind =>
        rw [eq_comm, List.isEmpty_cons, Bool.eq_false_iff, Ne, List.isSuffixOf_iff_suffix]
        intro hsuffix
        have hlength := hsuffix.length_le
        simp only [List.length_append, List.length_cons, List.length_nil] at hlength
        omega
    | cons n name =>
      rw [List.isEmpty_cons, if_neg Bool.false_ne_true, round_behindStar hbehind]
      by_cases hfits : behind.head? = some n
      · obtain ⟨behind, rfl⟩ : ∃ rest, behind = n :: rest :=
          ⟨behind.tail, List.eq_cons_of_mem_head? hfits⟩
        rw [if_pos hfits]
        dsimp only [List.tail_cons]
        have hmove : ∀ more : Text, (before ++ [n]) ++ more = before ++ n :: more := by simp
        rw [ih, hmove, hmove]
        · rwa [hmove]
        · rwa [hmove]
        · rw [hmove, hmove]
          rw [List.length_cons] at hrounds
          omega
      · -- The mark takes one character more.
        rw [if_neg hfits]
        obtain ⟨b, t, hmark⟩ : ∃ b t, before ++ n :: name = b :: t :=
          List.exists_cons_of_ne_nil (by simp)
        have hb : b ≠ Byte.slash := by
          rintro rfl
          exact hslash (hmark ▸ List.mem_cons_self)
        have hne : before ++ behind ≠ b :: t := by
          rw [← hmark]
          intro heq
          have hbehind := List.append_cancel_left heq
          exact hfits (by rw [hbehind]; rfl)
        have hfirst := Character.first_bytes_append b t
        have hlength : (Character.first b t).2.length < (b :: t).length :=
          Nat.lt_succ_of_le (Character.first_rest_length b t)
        rw [back_behindStar hmark hb]
        dsimp only
        rw [ih, hmark, List.nil_append, List.nil_append,
          isSuffixOf_behind_first (fun c hc => (hplain c hc).1) hne]
        · exact hplain
        · rw [hmark, ← hfirst] at hslash
          exact fun hmem => hslash (List.mem_append_right _ hmem)
        · rw [hmark] at hrounds
          rw [List.nil_append, List.nil_append]
          have hle : ((Character.first b t).2.length + 1) * ((before ++ behind).length + 2) ≤
              (b :: t).length * ((before ++ behind).length + 2) :=
            Nat.mul_le_mul_right _ hlength
          rw [Nat.add_mul, Nat.one_mul] at hle
          omega

end Matching

theorem lt_roundLimit (ending name : Text) :
    name.length * (ending.length + 2) + ending.length + 1 <
      Matching.roundLimit (star :: ending) name := by
  have hpattern : ending.length + 3 ≤ (ending.length + 3) * (ending.length + 3) *
      ((ending.length + 3) * (ending.length + 3)) :=
    Nat.le_trans (Nat.le_mul_self _) (Nat.le_mul_self _)
  have hproduct := Nat.mul_le_mul hpattern (Nat.le_mul_self (name.length + 2))
  have hsmall : name.length * (ending.length + 2) + ending.length + 1 <
      (ending.length + 3) * (name.length + 2) := by
    rw [Nat.mul_comm name.length, Nat.add_mul, Nat.add_mul, Nat.mul_add]
    omega
  exact Nat.lt_of_lt_of_le hsmall hproduct

/-- A name matches `*` and an ending if it ends so. -/
theorem outcome_ending {ending name : Text} (h : ∀ b ∈ ending, IsPlain b)
    (hslash : Byte.slash ∉ name) :
    outcome (star :: ending) name = .ofBool (Text.endsWith ending name) := by
  obtain ⟨rounds, hlimit⟩ := Nat.exists_eq_add_one_of_ne_zero
    (Nat.ne_of_gt (Nat.zero_lt_of_lt (lt_roundLimit ending name)))
  have hrounds := lt_roundLimit ending name
  rw [hlimit] at hrounds
  rw [outcome, hlimit, Matching.run]
  dsimp only
  cases name with
  | nil =>
    show matchEmpty (star :: ending).length (star :: ending) = _
    rw [matchEmpty_ending _ h, Text.endsWith]
    congr 1
    rw [Bool.eq_iff_iff, List.isSuffixOf_iff_suffix, List.suffix_nil, List.isEmpty_iff]
  | cons n name =>
    have hhead : ending.head? ≠ some star := fun hstar =>
      (h star (List.mem_of_head? hstar)).ne_marks.1 rfl
    have hround : Matching.round ⟨star :: ending, 0, n :: name, true, none, none⟩ =
        .next (Matching.behindStar [] ending (n :: name) false) := by
      rw [Matching.round]
      show Matching.stars _ ending = _
      rw [Matching.stars, if_neg hhead]
      rfl
    rw [List.isEmpty_cons, if_neg Bool.false_ne_true, hround]
    dsimp only
    rw [Matching.run_behindStar h hslash]
    · rfl
    · rw [List.nil_append, List.nil_append]
      omega

example : outcome (bytes "*.xs") (bytes "a.xs.xs") = .matched := by decide +kernel

end XsPrep.Glob
