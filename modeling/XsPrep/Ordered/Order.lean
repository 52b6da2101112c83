import XsPrep.Text.Basic

/-!
# The order of texts

Texts are ordered by their first differing byte, and a text comes before its
continuations.  The order is strict and total: of two different texts exactly
one comes first.
-/

namespace XsPrep.Text

/-- Whether one text comes strictly before another. -/
def precedes : Text → Text → Bool
  | _, [] => false
  | [], _ :: _ => true
  | a :: s, b :: t => a < b || (a == b && precedes s t)

theorem not_precedes_self (s : Text) : precedes s s = false := by
  induction s with
  | nil => rfl
  | cons a s ih => simp [precedes, ih]

theorem precedes_trans {s t u : Text} (hst : precedes s t) (htu : precedes t u) :
    precedes s u := by
  induction s generalizing t u with
  | nil =>
    cases u with
    | nil => cases t <;> simp [precedes] at htu
    | cons c u => rfl
  | cons a s ih =>
    cases t with
    | nil => simp [precedes] at hst
    | cons b t =>
      cases u with
      | nil => simp [precedes] at htu
      | cons c u =>
        simp only [precedes, Bool.or_eq_true, decide_eq_true_eq, Bool.and_eq_true,
          beq_iff_eq] at hst htu ⊢
        rcases hst with hab | ⟨rfl, hst⟩
        · rcases htu with hbc | ⟨rfl, -⟩
          · exact .inl (UInt8.lt_trans hab hbc)
          · exact .inl hab
        · rcases htu with hac | ⟨rfl, htu⟩
          · exact .inl hac
          · exact .inr ⟨rfl, ih hst htu⟩

/-- Of two different texts one comes first. -/
theorem precedes_or_eq_or_precedes (s t : Text) : precedes s t ∨ s = t ∨ precedes t s := by
  induction s generalizing t with
  | nil => cases t <;> simp [precedes]
  | cons a s ih =>
    cases t with
    | nil => simp [precedes]
    | cons b t =>
      simp only [precedes, Bool.or_eq_true, decide_eq_true_eq, Bool.and_eq_true, beq_iff_eq,
        List.cons.injEq]
      rcases Nat.lt_trichotomy a.toNat b.toNat with h | h | h
      · exact .inl (.inl h)
      · obtain rfl := UInt8.toNat_inj.mp h
        rcases ih t with h | rfl | h
        · exact .inl (.inr ⟨rfl, h⟩)
        · exact .inr (.inl ⟨rfl, rfl⟩)
        · exact .inr (.inr (.inr ⟨rfl, h⟩))
      · exact .inr (.inr (.inl h))

end XsPrep.Text
