import XsPrep.Source.Includes
import XsPrep.Proofs.Text.Decoding

/-!
# What a reader reads

Every operation on readers reads a run of characters: the reader behind it holds
what is left, and its position is the old one moved over each character of the
run.  `Reads r cs r'` says so, and it composes (`Reads.trans`), so each construct
of the language, each skipped line and each round of a listing reads one run of
the text.

Two readers that reading leads to from the same one, and that have the same
amount left, are the same (`LeadsTo.unique`).  So the readers of one text are its
places, and the amount left orders them.  Offsets order them too, since no
character is without bytes (`LeadsTo.offset_lt`).
-/

namespace XsPrep

namespace Reader

/-- From `r`, reading exactly the characters `cs` leads to `r'`. -/
structure Reads (r : Reader) (cs : List Character) (r' : Reader) : Prop where
  /-- The characters stand at `r`, and behind them is what `r'` holds. -/
  rest_eq : r.rest = cs ++ r'.rest
  /-- The position moved over each of them. -/
  position_eq : r'.position = cs.foldl Position.after r.position

namespace Reads

theorem refl (r : Reader) : Reads r [] r := ⟨rfl, rfl⟩

theorem trans {r₁ r₂ r₃ : Reader} {cs ds : List Character} (h₁ : Reads r₁ cs r₂)
    (h₂ : Reads r₂ ds r₃) : Reads r₁ (cs ++ ds) r₃ := by
  constructor
  · rw [h₁.rest_eq, h₂.rest_eq, List.append_assoc]
  · rw [h₂.position_eq, h₁.position_eq, List.foldl_append]

theorem length_eq {r r' : Reader} {cs : List Character} (h : Reads r cs r') :
    r.rest.length = cs.length + r'.rest.length := by
  rw [h.rest_eq, List.length_append]

theorem length_le {r r' : Reader} {cs : List Character} (h : Reads r cs r') :
    r'.rest.length ≤ r.rest.length := by
  have := h.length_eq
  omega

/-- Reading something leaves less. -/
theorem ne_nil_of_shorter {r r' : Reader} {cs : List Character} (h : Reads r cs r')
    (hlt : r'.rest.length < r.rest.length) : cs ≠ [] := by
  rintro rfl
  have := h.length_eq
  simp at this
  omega

/-- The run that was read and the reader behind it are known from how much is
left. -/
theorem unique {r r₁ r₂ : Reader} {cs ds : List Character} (h₁ : Reads r cs r₁)
    (h₂ : Reads r ds r₂) (hlen : r₁.rest.length = r₂.rest.length) : cs = ds ∧ r₁ = r₂ := by
  have hrest : cs ++ r₁.rest = ds ++ r₂.rest := by rw [← h₁.rest_eq, ← h₂.rest_eq]
  obtain ⟨hcs, hr⟩ := List.append_inj' hrest hlen
  subst hcs
  refine ⟨rfl, ?_⟩
  cases r₁
  cases r₂
  have hp := h₁.position_eq
  have hq := h₂.position_eq
  simp only at hp hq hr
  rw [hr, hp, hq]

end Reads

/-- Reading some characters leads from `r` to `r'`. -/
def LeadsTo (r r' : Reader) : Prop := ∃ cs, Reads r cs r'

namespace LeadsTo

theorem refl (r : Reader) : LeadsTo r r := ⟨[], .refl r⟩

theorem trans {r₁ r₂ r₃ : Reader} (h₁ : LeadsTo r₁ r₂) (h₂ : LeadsTo r₂ r₃) : LeadsTo r₁ r₃ := by
  obtain ⟨cs, h₁⟩ := h₁
  obtain ⟨ds, h₂⟩ := h₂
  exact ⟨cs ++ ds, h₁.trans h₂⟩

theorem length_le {r r' : Reader} (h : LeadsTo r r') : r'.rest.length ≤ r.rest.length := by
  obtain ⟨cs, h⟩ := h
  exact h.length_le

/-- From one reader there is one way to each place. -/
theorem rest_subset {r r' : Reader} (h : LeadsTo r r') : r'.rest ⊆ r.rest := by
  obtain ⟨cs, hreads⟩ := h
  rw [hreads.rest_eq]
  exact List.subset_append_right cs _

theorem unique {r r₁ r₂ : Reader} (h₁ : LeadsTo r r₁) (h₂ : LeadsTo r r₂)
    (hlen : r₁.rest.length = r₂.rest.length) : r₁ = r₂ := by
  obtain ⟨cs, h₁⟩ := h₁
  obtain ⟨ds, h₂⟩ := h₂
  exact (h₁.unique h₂ hlen).2

/-- Of two places, reading leads from the one with more left to the other. -/
theorem of_length_le {r r₁ r₂ : Reader} (h₁ : LeadsTo r r₁) (h₂ : LeadsTo r r₂)
    (hle : r₂.rest.length ≤ r₁.rest.length) : LeadsTo r₁ r₂ := by
  obtain ⟨cs, h₁⟩ := h₁
  obtain ⟨ds, h₂⟩ := h₂
  have hrest : cs ++ r₁.rest = ds ++ r₂.rest := by rw [← h₁.rest_eq, ← h₂.rest_eq]
  rcases List.append_eq_append_iff.mp hrest with ⟨es, hds, hr₁⟩ | ⟨es, hcs, hr₂⟩
  · refine ⟨es, hr₁, ?_⟩
    rw [h₂.position_eq, h₁.position_eq, hds, List.foldl_append]
  · have hes : es = [] := by
      have hlength := congrArg List.length hr₂
      rw [List.length_append] at hlength
      exact List.length_eq_zero_iff.mp (by omega)
    subst hes
    have heq := (h₁.unique h₂ (by rw [hr₂]; rfl)).2
    exact heq ▸ refl r₁

/-- What is left of whole lines is whole lines. -/
theorem areLines {r r' : Reader} (h : LeadsTo r r') (hlines : Character.AreLines r.rest) :
    Character.AreLines r'.rest := by
  obtain ⟨cs, hreads⟩ := h
  rw [hreads.rest_eq] at hlines
  exact hlines.of_append

end LeadsTo

/-! ## Offsets -/

theorem offset_foldl_after (cs : List Character) (p : Position) :
    (cs.foldl Position.after p).offset = p.offset + (Text.ofCharacters cs).length := by
  induction cs generalizing p with
  | nil => rfl
  | cons c cs ih =>
    have hafter : (p.after c).offset = p.offset + c.bytes.length := by
      unfold Position.after
      split <;> rfl
    rw [List.foldl_cons, ih, hafter, Text.ofCharacters, Text.ofCharacters, List.flatMap_cons,
      List.length_append, Nat.add_assoc]

theorem mem_characters_of_leadsTo {t : Text} {r : Reader} (h : LeadsTo (ofText t) r)
    {c : Character} (hc : c ∈ r.rest) : c ∈ t.characters := by
  obtain ⟨cs, h⟩ := h
  have hrest : t.characters = cs ++ r.rest := h.rest_eq
  rw [hrest]
  exact List.mem_append_right cs hc

theorem LeadsTo.spelled {t : Text} {r : Reader} (h : LeadsTo (ofText t) r) :
    ∀ c ∈ r.rest, c.Spelled := by
  intro c hc
  exact Text.spelled_of_mem (mem_characters_of_leadsTo h hc)

/-- The text as what was read and what is left. -/
theorem Reads.text_eq {t : Text} {r : Reader} {cs : List Character}
    (h : Reads (ofText t) cs r) :
    t = Text.ofCharacters cs ++ Text.ofCharacters r.rest := by
  have hcharacters : t.characters = cs ++ r.rest := h.rest_eq
  rw [← Text.ofCharacters_append, ← hcharacters, Text.ofCharacters_characters]

theorem Reads.offset_eq {t : Text} {r : Reader} {cs : List Character}
    (h : Reads (ofText t) cs r) :
    r.position.offset = (Text.ofCharacters cs).length := by
  rw [h.position_eq, offset_foldl_after]
  exact Nat.zero_add _

/-- At the end of a text everything is before. -/
theorem LeadsTo.offset_of_end {t : Text} {r : Reader} (h : LeadsTo (ofText t) r)
    (hend : r.rest = []) : r.position.offset = t.length := by
  obtain ⟨cs, hreads⟩ := h
  have htext := hreads.text_eq
  rw [hend] at htext
  rw [hreads.offset_eq, htext]
  exact congrArg List.length (List.append_nil _).symm

/-- In a text, reading something moves the offset forward. -/
theorem LeadsTo.offset_lt {t : Text} {r r' : Reader} (hin : LeadsTo (ofText t) r)
    (h : LeadsTo r r') (hlt : r'.rest.length < r.rest.length) :
    r.position.offset < r'.position.offset := by
  obtain ⟨cs, h⟩ := h
  obtain ⟨c, cs, rfl⟩ := List.exists_cons_of_ne_nil (h.ne_nil_of_shorter hlt)
  have hc : c ∈ r.rest := by rw [h.rest_eq]; exact List.mem_cons_self
  have hbytes := Text.bytes_ne_nil_of_mem (mem_characters_of_leadsTo hin hc)
  have hpos := List.length_pos_iff.mpr hbytes
  rw [h.position_eq, offset_foldl_after, Text.ofCharacters, List.flatMap_cons,
    List.length_append]
  omega

/-- In a text, places are known by their offsets. -/
theorem LeadsTo.eq_of_offset {t : Text} {r₁ r₂ : Reader} (h₁ : LeadsTo (ofText t) r₁)
    (h₂ : LeadsTo (ofText t) r₂) (h : r₁.position.offset = r₂.position.offset) : r₁ = r₂ := by
  rcases Nat.lt_trichotomy r₁.rest.length r₂.rest.length with hlt | heq | hlt
  · have := h₂.offset_lt (h₂.of_length_le h₁ (Nat.le_of_lt hlt)) hlt
    omega
  · exact h₁.unique h₂ heq
  · have := h₁.offset_lt (h₁.of_length_le h₂ (Nat.le_of_lt hlt)) hlt
    omega

/-! ## Operations -/

theorem reads_skip (n : Nat) (r : Reader) : Reads r (r.rest.take n) (r.skip n) :=
  ⟨by rw [skip_rest, List.take_append_drop], rfl⟩

theorem skipWhile_go_position (p : Character → Bool) (cs : List Character) (position : Position) :
    (skipWhile.go p position cs).position =
      (cs.takeWhile p).foldl Position.after position := by
  induction cs generalizing position with
  | nil => rfl
  | cons c cs ih =>
    by_cases h : p c
    · rw [skipWhile.go, if_pos h, ih, List.takeWhile_cons_of_pos h, List.foldl_cons]
    · rw [skipWhile.go, if_neg h, List.takeWhile_cons_of_neg h, List.foldl_nil]

theorem reads_skipWhile (p : Character → Bool) (r : Reader) :
    Reads r (r.rest.takeWhile p) (r.skipWhile p) :=
  ⟨by rw [skipWhile_rest, List.takeWhile_append_dropWhile], skipWhile_go_position p _ _⟩

theorem leadsTo_skip (n : Nat) (r : Reader) : LeadsTo r (r.skip n) := ⟨_, reads_skip n r⟩

theorem leadsTo_skipWhile (p : Character → Bool) (r : Reader) : LeadsTo r (r.skipWhile p) :=
  ⟨_, reads_skipWhile p r⟩

theorem leadsTo_skipBlanks (r : Reader) : LeadsTo r r.skipBlanks := leadsTo_skipWhile _ r

theorem leadsTo_readIdentifier (r : Reader) : LeadsTo r r.readIdentifier.2 :=
  leadsTo_skipWhile _ r

theorem leadsTo_readLine (r : Reader) : LeadsTo r r.readLine.2 := leadsTo_skipWhile _ r

theorem leadsTo_skipLine (r : Reader) : LeadsTo r r.skipLine :=
  (leadsTo_skipWhile _ r).trans (leadsTo_skip 1 _)

theorem leadsTo_readKeyword (r : Reader) : LeadsTo r r.readKeyword.2 :=
  ((leadsTo_skip 1 r).trans (leadsTo_skipBlanks _)).trans (leadsTo_readIdentifier _)

theorem leadsTo_readLiteral (r : Reader) : LeadsTo r r.readLiteral.2 := by
  unfold readLiteral
  split
  · split
    · exact leadsTo_skip _ r
    · exact leadsTo_skipWhile _ r
  · exact .refl r

theorem leadsTo_skipComment (r : Reader) : LeadsTo r r.skipComment.2 := by
  unfold skipComment
  split
  · split
    · exact leadsTo_skip _ r
    · exact leadsTo_skipWhile _ r
  · exact .refl r

end Reader

/-! ## Constructs -/

namespace Construct

open Reader

theorem leadsTo_readDefine {r r' : Reader} {c : Construct} (h : readDefine r = .ok (c, r')) :
    LeadsTo r r' := by
  unfold readDefine at h
  dsimp only at h
  split at h
  · cases h
  · rename_i name behind _ heq
    simp only [Except.ok.injEq, Prod.mk.injEq] at h
    obtain ⟨-, rfl⟩ := h
    have hname := leadsTo_readIdentifier r.skipBlanks
    rw [heq] at hname
    exact (leadsTo_skipBlanks r).trans (hname.trans ((leadsTo_skipBlanks behind).trans
      ((leadsTo_readLine _).trans (leadsTo_skipLine _))))

theorem leadsTo_readUndefine (r : Reader) : LeadsTo r (readUndefine r).2 :=
  (leadsTo_skipBlanks r).trans ((leadsTo_readIdentifier _).trans (leadsTo_skipLine _))

theorem leadsTo_readOpening {place : Position} {r r' : Reader} {c : Construct}
    (h : readOpening place r = .ok (c, r')) : LeadsTo r r' := by
  unfold readOpening at h
  dsimp only at h
  split at h
  · cases h
  · rename_i name behind _ heq
    simp only [Except.ok.injEq, Prod.mk.injEq] at h
    obtain ⟨-, rfl⟩ := h
    have hname := leadsTo_readIdentifier r.skipBlanks
    rw [heq] at hname
    exact (leadsTo_skipBlanks r).trans (hname.trans (leadsTo_skipLine behind))

theorem leadsTo_readInclude {r r' : Reader} {c : Construct} (h : readInclude r = .ok (c, r')) :
    LeadsTo r r' := by
  unfold readInclude at h
  dsimp only at h
  split at h
  · cases h
  · rename_i literal behind heq
    split at h
    · cases h
    · simp only [Except.ok.injEq, Prod.mk.injEq] at h
      obtain ⟨-, rfl⟩ := h
      have hliteral := leadsTo_readLiteral r.skipBlanks
      rw [heq] at hliteral
      exact (leadsTo_skipBlanks r).trans (hliteral.trans (leadsTo_skipLine behind))

theorem leadsTo_readDirective {r r' : Reader} {c : Construct}
    (h : readDirective r = .ok (c, r')) : LeadsTo r r' := by
  refine (leadsTo_readKeyword r).trans ?_
  unfold readDirective at h
  dsimp only at h
  split at h
  · cases h
  · exact leadsTo_readInclude h
  · exact leadsTo_readDefine h
  · have hundefine := leadsTo_readUndefine r.readKeyword.2
    simp only [Except.ok.injEq] at h
    rwa [h] at hundefine
  · exact leadsTo_readOpening h
  · simp only [Except.ok.injEq, Prod.mk.injEq] at h
    obtain ⟨-, rfl⟩ := h
    exact leadsTo_skipLine _

theorem leadsTo_readExpansion {r r' : Reader} {c : Construct}
    (h : readExpansion r = .ok (c, r')) : LeadsTo r r' := by
  unfold readExpansion at h
  dsimp only at h
  split at h
  · cases h
  · rename_i name behind _ heq
    have hname := leadsTo_readIdentifier (r.skip 1)
    rw [heq] at hname
    split at h
    · simp only [Except.ok.injEq, Prod.mk.injEq] at h
      obtain ⟨-, rfl⟩ := h
      exact (leadsTo_skip 1 r).trans (hname.trans (leadsTo_skip 1 behind))
    · cases h

/-- What a construct can be, by what its reader sees. -/
inductive Origin (r : Reader) : Construct → Reader → Prop where
  | directive {c : Construct} {r' : Reader} (hhash : r.sees Code.hash = true)
      (hread : readDirective r = .ok (c, r')) : Origin r c r'
  | expansion {c : Construct} {r' : Reader} (hhash : r.sees Code.hash = false)
      (hat : r.sees Code.atSign = true) (hread : readExpansion r = .ok (c, r')) : Origin r c r'
  | literal {quoted : Literal} {r' : Reader} (hhash : r.sees Code.hash = false)
      (hat : r.sees Code.atSign = false) (hquote : r.sees Code.quote = true)
      (hread : r.readLiteral = (.ok quoted, r')) : Origin r (.literal quoted.raw) r'
  | lineComment (hhash : r.sees Code.hash = false) (hat : r.sees Code.atSign = false)
      (hquote : r.sees Code.quote = false) (hline : r.seesPair Code.slash Code.slash = true) :
      Origin r .comment r.skipLine
  | blockComment {r' : Reader} (hhash : r.sees Code.hash = false)
      (hat : r.sees Code.atSign = false) (hquote : r.sees Code.quote = false)
      (hline : r.seesPair Code.slash Code.slash = false)
      (hblock : r.seesPair Code.slash Code.star = true)
      (hread : r.skipComment = (.ok (), r')) : Origin r .comment r'
  | character (hhash : r.sees Code.hash = false) (hat : r.sees Code.atSign = false)
      (hquote : r.sees Code.quote = false) (hline : r.seesPair Code.slash Code.slash = false)
      (hblock : r.seesPair Code.slash Code.star = false) :
      Origin r (.character (Text.ofCharacters (r.rest.take 1))) (r.skip 1)

theorem origin_of_read {r r' : Reader} {c : Construct} (h : read r = .ok (c, r')) :
    Origin r c r' := by
  unfold read at h
  cases hhash : r.sees Code.hash with
  | true => exact .directive hhash (by simpa [hhash] using h)
  | false =>
  cases hat : r.sees Code.atSign with
  | true => exact .expansion hhash hat (by simpa [hhash, hat] using h)
  | false =>
  cases hquote : r.sees Code.quote with
  | true =>
    cases hliteral : r.readLiteral with
    | mk result behind =>
      cases result with
      | error e => simp [hhash, hat, hquote, hliteral] at h
      | ok quoted =>
        simp only [hhash, hat, hquote, hliteral, Bool.false_eq_true, if_false, if_true] at h
        cases h
        exact .literal hhash hat hquote hliteral
  | false =>
  cases hline : r.seesPair Code.slash Code.slash with
  | true =>
    simp only [hhash, hat, hquote, hline, Bool.false_eq_true, if_false, if_true] at h
    cases h
    exact .lineComment hhash hat hquote hline
  | false =>
  cases hblock : r.seesPair Code.slash Code.star with
  | true =>
    cases hcomment : r.skipComment with
    | mk result behind =>
      cases result with
      | error e => simp [hhash, hat, hquote, hline, hblock, hcomment] at h
      | ok =>
        simp only [hhash, hat, hquote, hline, hblock, hcomment, Bool.false_eq_true, if_false,
          if_true] at h
        cases h
        exact .blockComment hhash hat hquote hline hblock hcomment
  | false =>
    simp only [hhash, hat, hquote, hline, hblock, Bool.false_eq_true, if_false] at h
    cases h
    exact .character hhash hat hquote hline hblock

/-- A construct is a run of characters. -/
theorem leadsTo_read {r r' : Reader} {c : Construct} (h : read r = .ok (c, r')) :
    LeadsTo r r' := by
  cases origin_of_read h with
  | directive _ hread => exact leadsTo_readDirective hread
  | expansion _ _ hread => exact leadsTo_readExpansion hread
  | literal _ _ _ hread =>
    have hliteral := leadsTo_readLiteral r
    rwa [hread] at hliteral
  | lineComment => exact leadsTo_skipLine r
  | blockComment _ _ _ _ _ hread =>
    have hcomment := leadsTo_skipComment r
    rwa [hread] at hcomment
  | character => exact leadsTo_skip 1 r

end Construct

/-- A skipped line is a run of characters. -/
theorem SkippedLine.leadsTo_read (r : Reader) : Reader.LeadsTo r (SkippedLine.read r).2 := by
  refine (Reader.leadsTo_skipBlanks r).trans ?_
  have hdirective := (Reader.leadsTo_readKeyword r.skipBlanks).trans
    (Reader.leadsTo_skipLine r.skipBlanks.readKeyword.2)
  unfold SkippedLine.read
  dsimp only
  split
  · split <;> exact hdirective
  · exact Reader.leadsTo_skipLine _

/-- A round of a listing reads a run of characters. -/
theorem Listing.leadsTo_look (r : Reader) : Reader.LeadsTo r (look r).2 := by
  unfold look
  split
  · have hliteral := Reader.leadsTo_readLiteral r
    split <;> (rename_i heq; rw [heq] at hliteral; exact hliteral)
  split
  · exact Reader.leadsTo_skipLine r
  split
  · have hcomment := Reader.leadsTo_skipComment r
    split <;> (rename_i heq; rw [heq] at hcomment; exact hcomment)
  split
  · refine (Reader.leadsTo_readKeyword r).trans ?_
    unfold lookDirective
    dsimp only
    split
    · exact Reader.leadsTo_skipLine _
    · exact Reader.leadsTo_skipLine _
    · refine (Reader.leadsTo_skipBlanks _).trans ?_
      have hliteral := Reader.leadsTo_readLiteral r.readKeyword.2.skipBlanks
      split
      · rename_i heq
        rw [heq] at hliteral
        exact hliteral
      · rename_i literal behind heq
        rw [heq] at hliteral
        split <;> exact hliteral.trans (Reader.leadsTo_skipLine behind)
    · exact Reader.leadsTo_skipLine _
  · exact Reader.leadsTo_skip 1 r

end XsPrep
