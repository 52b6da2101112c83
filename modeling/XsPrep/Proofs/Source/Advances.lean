import XsPrep.Proofs.Source.Positions

/-!
# Moving over texts at once

Moving over a text at once is moving over its characters one by one.  So a position can be moved
over two texts, one behind the other, instead of over the whole, if no character of the whole is
cut apart between them (`Text.IsBoundary`).

A character that is cut apart comes out as more than one: the bytes that continued it are stray
behind the cut (`Text.characters_append_or_lt`).  Offsets and lines are the same anyway, since they
count bytes.  Only the column tells the difference, and only up to the next line end, where it is
counted anew.  Hence two moves are one move exactly if nothing is cut apart or a line end follows
(`Position.advance_append_iff`).

Numbers of a machine start again from zero at a bound.  Reducing them at the end or after every
character is the same (`Position.modulo_foldl_after`).
-/

namespace XsPrep

/-! ## Where texts meet -/

namespace Character

/-- A byte that continues a sequence begins none. -/
theorem first_of_isTail {b : UInt8} (h : isTail b = true) (t : Text) :
    first b t = (stray b, t) := by
  have hbounds := isTail_iff.mp h
  have hhigh : ¬b < 0x80 := by
    rw [UInt8.lt_iff_toNat_lt]
    exact Nat.not_lt.mpr hbounds.1
  have hlow : b < 0xC2 := by
    rw [UInt8.lt_iff_toNat_lt]
    exact Nat.lt_of_le_of_lt hbounds.2 (by decide)
  rw [first, if_neg hhigh, sequence?, if_pos hlow]
  rfl

/-- What is no sequence is none with fewer bytes behind it. -/
theorem sequence?_eq_none_of_append {a : UInt8} {s t : Text}
    (h : sequence? a (s ++ t) = none) : sequence? a s = none := by
  cases hs : sequence? a s with
  | none => rfl
  | some result =>
    obtain ⟨c, rest⟩ := result
    obtain ⟨tails, rfl, hcompletes⟩ := completes_of_sequence? hs
    rw [List.append_assoc, hcompletes.sequence?_eq] at h
    cases h

end Character

namespace Text

/-- No character of the whole is cut apart where the two texts meet: the first one ends where one
of the characters ends. -/
def IsBoundary (s t : Text) : Prop := ∃ n, s = ofCharacters ((s ++ t).characters.take n)

theorem isBoundary_iff {s t : Text} :
    IsBoundary s t ↔ (s ++ t).characters = s.characters ++ t.characters := by
  constructor
  · rintro ⟨n, hs⟩
    have hsplit := (List.take_append_drop n (s ++ t).characters).symm
    have ht : t = ofCharacters ((s ++ t).characters.drop n) := by
      have hwhole := ofCharacters_characters (s ++ t)
      rw [hsplit, ofCharacters_append, ← hs] at hwhole
      exact (List.append_cancel_left hwhole).symm
    obtain ⟨hbefore, hbehind⟩ := characters_of_append hsplit
    rw [← hs] at hbefore
    rw [← ht] at hbehind
    rw [hbefore, hbehind, ← hsplit]
  · intro h
    refine ⟨s.characters.length, ?_⟩
    rw [h, List.take_left, ofCharacters_characters]

theorem characters_tails {tails : Text} (h : ∀ b ∈ tails, Character.isTail b = true) (t : Text) :
    characters (tails ++ t) = tails.map Character.stray ++ characters t := by
  induction tails with
  | nil => rfl
  | cons b tails ih =>
    obtain ⟨hb, htails⟩ := List.forall_mem_cons.mp h
    rw [List.cons_append, characters_cons, Character.first_of_isTail hb, ih htails]
    rfl

/-- Two texts decode to the characters of the whole, or to more. -/
theorem characters_append_or_lt (s t : Text) :
    (s ++ t).characters = s.characters ++ t.characters ∨
      (s ++ t).characters.length < s.characters.length + t.characters.length := by
  induction s using characterInduction with
  | nil =>
    rw [characters_nil]
    exact .inl rfl
  | cons a s ih =>
    -- A first character that both have leaves the question to what is behind it.
    have hsame : ∀ c rest, Character.first a s = (c, rest) →
        Character.first a (s ++ t) = (c, rest ++ t) →
        characters (a :: s ++ t) = characters (a :: s) ++ t.characters ∨
          (characters (a :: s ++ t)).length <
            (characters (a :: s)).length + t.characters.length := by
      intro c rest hs hwhole
      rw [hs] at ih
      rw [List.cons_append, characters_cons, characters_cons, hs, hwhole]
      refine ih.imp (fun heq => congrArg (c :: ·) heq) fun hlt => ?_
      simp only [List.length_cons] at hlt ⊢
      omega
    cases Character.first_cases a (s ++ t) with
    | ascii ha hfirst => exact hsame _ s (if_pos ha) hfirst
    | stray ha hnone hfirst =>
      refine hsame _ s ?_ hfirst
      rw [Character.first, if_neg ha, Character.sequence?_eq_none_of_append hnone]
      rfl
    | sequence tails rest c ha hsplit hcompletes hfirst =>
      rcases List.append_eq_append_iff.mp hsplit with ⟨more, htails, ht⟩ | ⟨more, hs, hrest⟩
      · by_cases hmore : more = []
        · subst hmore
          rw [List.append_nil] at htails
          rw [List.nil_append] at ht
          have hs := Character.first_of_completes hcompletes ha []
          rw [List.append_nil, htails] at hs
          exact hsame c [] hs (by rw [hfirst, ht]; rfl)
        · -- The cut goes through this character.
          right
          have hstray : ∀ b ∈ more, Character.isTail b = true := fun b hb =>
            hcompletes.isTail b (htails ▸ List.mem_append_right s hb)
          have hpos := List.length_pos_iff.mpr hmore
          rw [List.cons_append, characters_cons, hfirst, ht, characters_tails hstray,
            characters_cons a s]
          simp only [List.length_cons, List.length_append, List.length_map]
          omega
      · subst hs
        refine hsame c more (Character.first_of_completes hcompletes ha more) ?_
        rw [hfirst, hrest]

theorem length_characters_append {s t : Text} :
    (s ++ t).characters.length = s.characters.length + t.characters.length ↔ IsBoundary s t := by
  rw [isBoundary_iff]
  constructor
  · intro h
    exact (characters_append_or_lt s t).resolve_right (by omega)
  · intro h
    rw [h, List.length_append]

/-- Whole lines in front make no difference to where texts meet. -/
theorem isBoundary_of_lines {front s t : Text} (hfront : front.IsLines) :
    IsBoundary (front ++ s) t ↔ IsBoundary s t := by
  rw [isBoundary_iff, isBoundary_iff, List.append_assoc, characters_append hfront,
    characters_append hfront, List.append_assoc]
  exact List.append_right_inj _

/-- A text without a stray byte or a replacement character ends where its last character ends,
whatever is behind it. -/
theorem isBoundary_of_forall {s : Text} (h : ∀ c ∈ s.characters, c.code ≠ Code.replacement)
    (t : Text) : IsBoundary s t := by
  rw [isBoundary_iff]
  induction s using characterInduction with
  | nil =>
    rw [characters_nil]
    rfl
  | cons a s ih =>
    rw [characters_cons] at h
    obtain ⟨hfirst, hrest⟩ := List.forall_mem_cons.mp h
    have hbehind := ih hrest
    rw [List.cons_append, characters_cons, characters_cons]
    cases Character.first_cases a s with
    | ascii ha hs =>
      have hwhole : Character.first a (s ++ t) = (⟨a.toNat, [a]⟩, s ++ t) := if_pos ha
      rw [hs] at hbehind
      rw [hwhole, hs, hbehind]
      rfl
    | sequence tails rest c ha hsplit hcompletes hs =>
      rw [hs] at hbehind
      rw [hs, hsplit, List.append_assoc, Character.first_of_completes hcompletes ha, hbehind]
      rfl
    | stray ha hnone hs =>
      rw [hs] at hfirst
      exact absurd rfl hfirst

end Text

/-! ## Moves -/

namespace Position

theorem offset_advance (p : Position) (t : Text) : (p.advance t).offset = p.offset + t.length := by
  unfold advance
  split <;> rfl

theorem line_advance (p : Position) (t : Text) :
    (p.advance t).line = p.line + t.count Byte.newline := by
  unfold advance
  split
  · rename_i hcount
    rw [hcount, Nat.add_zero]
  · rename_i lines hcount
    rw [hcount]

theorem column_advance (p : Position) (t : Text) :
    (p.advance t).column =
      (if Byte.newline ∈ t then 1 else p.column) + (lastLine t).characterCount := by
  unfold advance
  split
  · rename_i hcount
    rw [if_neg (List.count_eq_zero.mp hcount)]
  · rename_i lines hcount
    have hmem : Byte.newline ∈ t := List.count_pos_iff.mp (by rw [hcount]; exact Nat.succ_pos lines)
    rw [if_pos hmem]

theorem lastLine_append_of_mem (s : Text) {t : Text} (h : Byte.newline ∈ t) :
    lastLine (s ++ t) = lastLine t := by
  have hstop : ∃ b ∈ t.reverse, ¬(b != Byte.newline) = true :=
    ⟨Byte.newline, List.mem_reverse.mpr h, by simp⟩
  have hshort : (t.reverse.takeWhile (· != Byte.newline)).length ≠ t.reverse.length := by
    intro hlength
    obtain ⟨b, hb, hno⟩ := hstop
    have hall := (List.takeWhile_prefix (· != Byte.newline)).eq_of_length hlength
    exact hno (List.takeWhile_eq_self_iff.mp hall b hb)
  rw [lastLine, lastLine, List.reverse_append, List.takeWhile_append, if_neg hshort]

theorem lastLine_append_of_notMem (s : Text) {t : Text} (h : Byte.newline ∉ t) :
    lastLine (s ++ t) = lastLine s ++ t := by
  have hall : ∀ b ∈ t.reverse, (b != Byte.newline) = true := by
    intro b hb
    rw [bne_iff_ne]
    rintro rfl
    exact h (List.mem_reverse.mp hb)
  rw [lastLine, lastLine, List.reverse_append, List.takeWhile_append_of_pos hall,
    List.reverse_append, List.reverse_reverse]

/-- In front of the last line there are whole lines. -/
theorem exists_lines (t : Text) : ∃ front : Text, front.IsLines ∧ t = front ++ lastLine t := by
  refine ⟨(t.reverse.dropWhile (· != Byte.newline)).reverse, ?_, ?_⟩
  · have hhead := List.head?_dropWhile_not (· != Byte.newline) t.reverse
    rw [Text.IsLines, List.getLast?_reverse, List.reverse_eq_nil_iff]
    cases hrest : t.reverse.dropWhile (· != Byte.newline) with
    | nil => exact .inl rfl
    | cons b rest =>
      rw [hrest] at hhead
      exact .inr (by simpa using hhead)
  · rw [lastLine, ← List.reverse_append, List.takeWhile_append_dropWhile, List.reverse_reverse]

/-- Without a line end in the second text, the columns agree exactly if no character is cut
apart. -/
theorem column_advance_append (p : Position) {s t : Text} (h : Byte.newline ∉ t) :
    (p.advance (s ++ t)).column = ((p.advance s).advance t).column ↔ Text.IsBoundary s t := by
  obtain ⟨front, hfront, hs⟩ := exists_lines s
  have hmeet := Text.isBoundary_of_lines (s := lastLine s) (t := t) hfront
  rw [← hs] at hmeet
  have hlast : lastLine t = t := by simpa [lastLine] using lastLine_append_of_notMem [] h
  rw [hmeet, ← Text.length_characters_append, column_advance, column_advance, column_advance,
    lastLine_append_of_notMem s h, hlast, if_neg h]
  simp only [List.mem_append, h, or_false, Text.characterCount_eq]
  omega

/-- Moving over one text and then over the next is moving over both at once, unless a character is
cut apart between them and no line end follows. -/
theorem advance_append_iff (p : Position) (s t : Text) :
    p.advance (s ++ t) = (p.advance s).advance t ↔ Text.IsBoundary s t ∨ Byte.newline ∈ t := by
  have hsame : p.advance (s ++ t) = (p.advance s).advance t ↔
      (p.advance (s ++ t)).column = ((p.advance s).advance t).column := by
    refine ⟨fun h => by rw [h], fun h => ?_⟩
    have hoffset : (p.advance (s ++ t)).offset = ((p.advance s).advance t).offset := by
      simp only [offset_advance, List.length_append, Nat.add_assoc]
    have hline : (p.advance (s ++ t)).line = ((p.advance s).advance t).line := by
      simp only [line_advance, List.count_append, Nat.add_assoc]
    revert hoffset hline h
    cases p.advance (s ++ t)
    cases (p.advance s).advance t
    rintro rfl rfl rfl
    rfl
  rw [hsame]
  by_cases h : Byte.newline ∈ t
  · rw [column_advance, column_advance _ t, lastLine_append_of_mem s h, if_pos h,
      if_pos (List.mem_append_right s h)]
    simp [h]
  · rw [column_advance_append p h]
    simp [h]

/-! ## Numbers with a bound -/

/-- The position in numbers that start again from zero at `bound`. -/
def modulo (bound : Nat) (p : Position) : Position :=
  ⟨p.offset % bound, p.line % bound, p.column % bound⟩

theorem modulo_after (bound : Nat) (p : Position) (c : Character) :
    ((p.modulo bound).after c).modulo bound = (p.after c).modulo bound := by
  unfold after modulo
  split <;> simp

theorem modulo_foldl_after (bound : Nat) (cs : List Character) (p : Position) :
    cs.foldl (fun q c => (q.after c).modulo bound) (p.modulo bound) =
      (cs.foldl after p).modulo bound := by
  induction cs generalizing p with
  | nil => rfl
  | cons c cs ih => rw [List.foldl_cons, List.foldl_cons, modulo_after, ih]

/-- A position moves over a text at once as over its characters one by one, also if its numbers
start again at a bound.  It moves over two texts as over the whole exactly if no character is cut
apart between them or a line end follows. -/
theorem moves_agree (p : Position) (s t : Text) (bound : Nat) :
    p.advance t = t.characters.foldl after p ∧
    (p.advance t).modulo bound =
      t.characters.foldl (fun q c => (q.after c).modulo bound) (p.modulo bound) ∧
    (p.advance (s ++ t) = (p.advance s).advance t ↔ Text.IsBoundary s t ∨ Byte.newline ∈ t) := by
  refine ⟨advance_eq_foldl p t, ?_, advance_append_iff p s t⟩
  rw [modulo_foldl_after, advance_eq_foldl]

/-- A cut through a character of two bytes leaves two stray bytes, and so one column more. -/
example : start.advance [0xC3, 0xA9] = ⟨2, 1, 2⟩ ∧
    (start.advance [0xC3]).advance [0xA9] = ⟨2, 1, 3⟩ := by decide +kernel

end Position

end XsPrep
