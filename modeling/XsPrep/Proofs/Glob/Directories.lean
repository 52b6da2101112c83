import XsPrep.Proofs.Files.Normal
import XsPrep.Proofs.Glob.Components

/-!
# Directories in front of a pattern

A directory can be put in front of a pattern and of a name, and the name matches as before
(`outcome_below`), if each part of its path matches itself.  All parts without a backslash, a brace
or an opening bracket do so, except `**`, which stands for any number of components.  Behind such a
directory a pattern is valid exactly if it is so alone (`isValid_below`).
-/

namespace XsPrep.Glob

/-! ## Directories in front -/

/-- A part of a path that matches itself in front of a pattern.  A `*` or a `?` does so, but not
the part `**`. -/
def MatchesItself (part : Text) : Prop :=
  part ≠ [star, star] ∧
    ∀ b ∈ part, b ∉ [openClass, openAlternatives, closeAlternatives, Byte.backslash]

instance (part : Text) : Decidable (MatchesItself part) := inferInstanceAs (Decidable (_ ∧ _))

/-- A part of a path, as a component in front. -/
def Component.ofPart (part : Text) (hslash : Byte.slash ∉ part) (h : MatchesItself part) :
    Component where
  characters := part.characters ++ [⟨Code.slash, [Byte.slash]⟩]
  readBack := Character.readBack_slash part
  slash_iff := by
    intro d t hsuffix
    rcases List.suffix_concat_iff.mp hsuffix with hnil | ⟨u, hu, hinner⟩
    · cases hnil
    cases u with
    | nil =>
      obtain ⟨rfl, rfl⟩ := List.cons.inj hu
      exact iff_of_true rfl rfl
    | cons e u =>
      obtain ⟨rfl, rfl⟩ := List.cons.inj hu
      refine iff_of_false (fun hcode => hslash ?_) (by simp)
      exact Text.mem_of_code (hinner.subset List.mem_cons_self) (by decide) hcode
  plain := by
    intro d hd x hx hcode
    have hcases : x = openClass ∨ x = openAlternatives ∨ x = Byte.backslash := by simpa using hx
    rcases List.mem_append.mp hd with hd | hd
    · have hlow : x < 0x80 := by rcases hcases with rfl | rfl | rfl <;> decide
      refine h.2 x (Text.mem_of_code hd hlow hcode) ?_
      rcases hcases with rfl | rfl | rfl <;> simp
    · rw [List.mem_singleton.mp hd] at hcode
      rcases hcases with rfl | rfl | rfl <;> exact absurd hcode (by decide)
  single := by
    intro hcodes
    rw [List.map_append] at hcodes
    have hlow : ∀ b ∈ [star, star], b < 0x80 :=
      List.forall_mem_cons.mpr ⟨by decide, List.forall_mem_singleton.mpr (by decide)⟩
    exact h.1 (Text.eq_of_codes hlow (List.append_inj_left' hcodes rfl))

theorem Component.text_ofPart {part : Text} (hslash : Byte.slash ∉ part) (h : MatchesItself part)
    (behind : Text) :
    (ofPart part hslash h).text ++ behind = part ++ Byte.slash :: behind := by
  rw [text, ofPart, Text.ofCharacters_append, Text.ofCharacters_characters, List.append_assoc]
  rfl

/-- A part of a path in front of pattern and name does not change the outcome. -/
theorem outcome_part {part : Text} (hslash : Byte.slash ∉ part) (h : MatchesItself part)
    (pattern name : Text) :
    outcome (part ++ Byte.slash :: pattern) (part ++ Byte.slash :: name) =
      outcome pattern name := by
  rw [← Component.text_ofPart hslash h, ← Component.text_ofPart hslash h]
  exact Component.outcome_text (.ofPart part hslash h) pattern name

variable {directory : Text}

/-- Below a directory, a pattern matches the names it matches in it. -/
theorem outcome_below (h : ∀ part ∈ Path.parts directory, MatchesItself part)
    (pattern name : Text) :
    outcome (directory ++ Byte.slash :: pattern) (directory ++ Byte.slash :: name) =
      outcome pattern name := by
  have hslash : ∀ part ∈ Path.parts directory, Byte.slash ∉ part :=
    fun part hpart => Text.notMem_of_mem_split hpart
  have hne : Path.parts directory ≠ [] := Text.split_ne_nil _ _
  rw [← Text.joined_split Byte.slash directory, ← Path.parts]
  generalize Path.parts directory = parts at h hslash hne
  induction parts with
  | nil => exact absurd rfl hne
  | cons part parts ih =>
    obtain ⟨hpart, hparts⟩ := List.forall_mem_cons.mp h
    obtain ⟨hfree, hfrees⟩ := List.forall_mem_cons.mp hslash
    cases parts with
    | nil =>
      rw [Text.joined, List.intercalate_singleton]
      exact outcome_part hfree hpart pattern name
    | cons next parts =>
      have hcons : ∀ behind, Text.joined [Byte.slash] (part :: next :: parts) ++ behind =
          part ++ Byte.slash :: (Text.joined [Byte.slash] (next :: parts) ++ behind) := by
        intro behind
        rw [Text.joined, List.intercalate_cons_cons, ← Text.joined, List.append_assoc,
          List.append_assoc, List.singleton_append]
      rw [hcons, hcons, outcome_part hfree hpart]
      exact ih hparts hfrees (List.cons_ne_nil next parts)

/-! ## Validity -/

theorem foldlM_validStep {t : Text}
    (h : ∀ b ∈ t, b ∉ [openClass, openAlternatives, closeAlternatives, Byte.backslash])
    (depth : Nat) : t.foldlM validStep (.plain, depth) = some (.plain, depth) := by
  induction t with
  | nil => rfl
  | cons b t ih =>
    obtain ⟨hb, ht⟩ := List.forall_mem_cons.mp h
    have hstep : validStep (.plain, depth) b = some (.plain, depth) := by
      obtain ⟨hclass, hopen, hclose, hbackslash⟩ :
          b ≠ openClass ∧ b ≠ openAlternatives ∧ b ≠ closeAlternatives ∧ b ≠ Byte.backslash := by
        simpa using hb
      simp [validStep, hclass, hopen, hclose, hbackslash]
    rw [List.foldlM_cons, hstep]
    exact ih ht

/-- Below a directory, the same patterns are valid. -/
theorem isValid_below (h : ∀ part ∈ Path.parts directory, MatchesItself part) (pattern : Text) :
    isValid (directory ++ Byte.slash :: pattern) = isValid pattern := by
  have hbytes : ∀ b ∈ directory ++ [Byte.slash],
      b ∉ [openClass, openAlternatives, closeAlternatives, Byte.backslash] := by
    intro b hb
    rcases List.mem_append.mp hb with hb | hb
    · rw [← Text.joined_split Byte.slash directory] at hb
      rcases Text.mem_joined hb with rfl | ⟨part, hpart, hb⟩
      · decide
      · exact (h part hpart).2 b hb
    · rw [List.mem_singleton.mp hb]
      decide
  rw [isValid, isValid, List.append_cons, List.foldlM_append, foldlM_validStep hbytes]
  rfl

end XsPrep.Glob
