import Mathlib.Data.List.DropRight
import XsPrep.Proofs.Text.Decoding

/-!
# Text without white space around it

White space is dropped at both ends, character by character (`Character.trim`).  What is
left decodes to the characters that are left (`Text.characters_trimmed`), so dropping white
space again changes nothing.
-/

namespace XsPrep

namespace Character

/-- The characters without the white space at both ends. -/
def trim (cs : List Character) : List Character :=
  ((cs.dropWhile isSpace).reverse.dropWhile isSpace).reverse

/-- What is dropped stands before and behind. -/
theorem trim_infix (cs : List Character) : ∃ before after, cs = before ++ (trim cs ++ after) := by
  refine ⟨cs.takeWhile isSpace, ((cs.dropWhile isSpace).reverse.takeWhile isSpace).reverse, ?_⟩
  rw [trim, ← List.reverse_append, List.takeWhile_append_dropWhile, List.reverse_reverse,
    List.takeWhile_append_dropWhile]

theorem trim_head {cs ds : List Character} {c : Character} (h : trim cs = c :: ds) :
    c.isSpace = false := by
  have hbehind : cs.dropWhile isSpace =
      trim cs ++ ((cs.dropWhile isSpace).reverse.takeWhile isSpace).reverse := by
    rw [trim, ← List.reverse_append, List.takeWhile_append_dropWhile, List.reverse_reverse]
  have hhead := List.head?_dropWhile_not isSpace cs
  rw [hbehind, h] at hhead
  simpa using hhead

theorem trim_trim (cs : List Character) : trim (trim cs) = trim cs := by
  have hfront : (trim cs).dropWhile isSpace = trim cs := by
    cases htrim : trim cs with
    | nil => rfl
    | cons c ds => rw [List.dropWhile_cons_of_neg (by simp [trim_head htrim])]
  rw [trim, hfront, trim, List.reverse_reverse, List.dropWhile_idempotent]

/-- White space at the end makes no difference. -/
theorem trim_concat (cs : List Character) {c : Character} (hc : c.isSpace = true) :
    trim (cs ++ [c]) = trim cs := by
  rw [trim, trim, List.dropWhile_append]
  split
  · rename_i hempty
    rw [List.isEmpty_iff.mp hempty, List.dropWhile_cons_of_pos hc]
    rfl
  · rw [List.reverse_append, List.reverse_singleton, List.singleton_append,
      List.dropWhile_cons_of_pos hc]

end Character

namespace Text

theorem trimmed_eq (t : Text) : t.trimmed = ofCharacters (Character.trim t.characters) := rfl

theorem characters_trimmed (t : Text) : t.trimmed.characters = Character.trim t.characters := by
  obtain ⟨before, after, hsplit⟩ := Character.trim_infix t.characters
  have hinner := (characters_of_append hsplit).2
  exact (characters_of_append hinner).1

theorem newline_notMem_trimmed {t : Text} (h : Byte.newline ∉ t) : Byte.newline ∉ t.trimmed := by
  rw [newline_notMem_iff] at h ⊢
  obtain ⟨before, after, hsplit⟩ := Character.trim_infix t.characters
  intro c hc
  rw [characters_trimmed] at hc
  exact h c (by rw [hsplit]; simp [hc])

theorem trimmed_trimmed (t : Text) : t.trimmed.trimmed = t.trimmed := by
  rw [trimmed_eq t.trimmed, characters_trimmed, Character.trim_trim]
  rfl

end Text

end XsPrep
