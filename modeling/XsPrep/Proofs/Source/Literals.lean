import XsPrep.Proofs.Source.Positions

/-!
# Literals in bytes

A literal is read character by character.  What it is can also be told byte by byte.  Behind
the opening quote an unhidden backslash hides the one byte behind it (`IsHidden`), and the first
quote that is not hidden closes the literal (`ClosesFirst`).  Both ways agree, although a hidden
character may have several bytes: behind its first byte there is no quote and no backslash.

`StandsFor` carries the argument.  Bytes stand for a value if, whatever is behind them, none of
them closes the literal, they hide nothing behind them, and they add just this value.  Such bytes
can be put one behind the other, so it is enough to look at single characters and at characters
behind a backslash.

Hence the bytes tell whether a literal is read, how far it goes and what its value is
(`readLiteral_by_bytes`), and every way of writing a text between quotes is undone
(`readLiteral_undoes_writing`).
-/

namespace XsPrep

/-- The byte of `"`. -/
abbrev Byte.quote : UInt8 := 0x22

namespace Character.Spelled

theorem bytes_of_quote {c : Character} (h : c.Spelled) (hcode : c.code = Code.quote) :
    c.bytes = [Byte.quote] :=
  h.bytes_of_ascii (by decide) hcode

theorem bytes_of_backslash {c : Character} (h : c.Spelled) (hcode : c.code = Code.backslash) :
    c.bytes = [Byte.backslash] :=
  h.bytes_of_ascii (by decide) hcode

end Character.Spelled

namespace Literal

/-! ## Hidden bytes -/

/-- Of the bytes behind an opening quote, number `n` is hidden: the byte before it is a backslash
that is not hidden itself. -/
def IsHidden (inside : Text) : Nat → Prop
  | 0 => False
  | n + 1 => inside[n]? = some Byte.backslash ∧ ¬IsHidden inside n

instance decidableIsHidden (inside : Text) : (n : Nat) → Decidable (IsHidden inside n)
  | 0 => inferInstanceAs (Decidable False)
  | n + 1 =>
    have := decidableIsHidden inside n
    inferInstanceAs (Decidable (_ ∧ ¬_))

/-- Of the bytes behind an opening quote, number `n` is a quote that is not hidden. -/
def ClosesAt (inside : Text) (n : Nat) : Prop :=
  inside[n]? = some Byte.quote ∧ ¬IsHidden inside n

instance (inside : Text) (n : Nat) : Decidable (ClosesAt inside n) :=
  inferInstanceAs (Decidable (_ ∧ _))

/-- Of the bytes behind an opening quote, number `n` is the first quote that is not hidden. -/
def ClosesFirst (inside : Text) (n : Nat) : Prop :=
  ClosesAt inside n ∧ ∀ m < n, ¬ClosesAt inside m

instance (inside : Text) (n : Nat) : Decidable (ClosesFirst inside n) :=
  inferInstanceAs (Decidable (_ ∧ _))

theorem ClosesFirst.unique {inside : Text} {m n : Nat} (hm : ClosesFirst inside m)
    (hn : ClosesFirst inside n) : m = n := by
  rcases Nat.lt_trichotomy m n with hlt | heq | hlt
  · exact absurd hm.1 (hn.2 m hlt)
  · exact heq
  · exact absurd hn.1 (hm.2 n hlt)

/-- The value of the bytes between the quotes. -/
def unhidden : Text → Text
  | [] => []
  | b :: t =>
    if b = Byte.backslash then
      match t with
      | [] => []
      | hidden :: t => hiddenValue ⟨hidden.toNat, [hidden]⟩ ++ unhidden t
    else b :: unhidden t

/-! ## Bytes that stand between quotes -/

/-- The bytes can stand between quotes, whatever is behind them, and add a value to that of what
is behind them. -/
structure StandsFor (front value : Text) : Prop where
  not_hidden : ∀ behind, ¬IsHidden (front ++ behind) front.length
  not_closes : ∀ behind, ∀ n < front.length, ¬ClosesAt (front ++ behind) n
  unhidden_eq : ∀ behind, unhidden (front ++ behind) = value ++ unhidden behind

namespace StandsFor

variable {front value : Text}

theorem isHidden_behind (h : StandsFor front value) (behind : Text) (n : Nat) :
    IsHidden (front ++ behind) (front.length + n) ↔ IsHidden behind n := by
  induction n with
  | zero => exact iff_of_false (h.not_hidden behind) id
  | succ n ih =>
    rw [← Nat.add_assoc, IsHidden, IsHidden, ih,
      List.getElem?_append_right (Nat.le_add_right _ _), Nat.add_sub_cancel_left]

theorem closesAt_behind (h : StandsFor front value) (behind : Text) (n : Nat) :
    ClosesAt (front ++ behind) (front.length + n) ↔ ClosesAt behind n := by
  rw [ClosesAt, ClosesAt, h.isHidden_behind, List.getElem?_append_right (Nat.le_add_right _ _),
    Nat.add_sub_cancel_left]

theorem nil : StandsFor [] [] where
  not_hidden _ h := h
  not_closes _ _ h := nomatch h
  unhidden_eq _ := rfl

theorem append {front' value' : Text} (h : StandsFor front value) (h' : StandsFor front' value') :
    StandsFor (front ++ front') (value ++ value') where
  not_hidden behind := by
    rw [List.append_assoc, List.length_append, h.isHidden_behind]
    exact h'.not_hidden behind
  not_closes behind n hn := by
    rw [List.append_assoc]
    rcases Nat.lt_or_ge n front.length with hlt | hge
    · exact h.not_closes _ n hlt
    · obtain ⟨m, rfl⟩ := Nat.exists_eq_add_of_le hge
      rw [List.length_append] at hn
      rw [h.closesAt_behind]
      exact h'.not_closes behind m (by omega)
  unhidden_eq behind := by
    rw [List.append_assoc, h.unhidden_eq, h'.unhidden_eq, List.append_assoc]

theorem plain {b : UInt8} (hquote : b ≠ Byte.quote) (hbackslash : b ≠ Byte.backslash) :
    StandsFor [b] [b] where
  not_hidden behind h := hbackslash (by simpa using h.1)
  not_closes behind n hn h := by
    obtain rfl : n = 0 := by simpa using hn
    exact hquote (by simpa using h.1)
  unhidden_eq behind := by
    rw [List.singleton_append, unhidden.eq_def]
    exact if_neg hbackslash

theorem plains {bs : Text} (hquote : Byte.quote ∉ bs) (hbackslash : Byte.backslash ∉ bs) :
    StandsFor bs bs := by
  induction bs with
  | nil => exact .nil
  | cons b bs ih =>
    obtain ⟨hb, hbs⟩ := not_or.mp (List.mem_cons.not.mp hquote)
    obtain ⟨hb', hbs'⟩ := not_or.mp (List.mem_cons.not.mp hbackslash)
    exact (plain (Ne.symm hb) (Ne.symm hb')).append (ih hbs hbs')

theorem hidden (b : UInt8) :
    StandsFor [Byte.backslash, b] (hiddenValue ⟨b.toNat, [b]⟩) where
  -- The byte in the middle is hidden, so it neither closes nor hides.
  not_hidden behind h := h.2 ⟨rfl, id⟩
  not_closes behind n hn h := by
    match n with
    | 0 => cases h.1
    | 1 => exact h.2 ⟨rfl, id⟩
    | n + 2 => exact absurd hn (by simp)
  unhidden_eq behind := rfl

theorem unhidden_self (h : StandsFor front value) : unhidden front = value := by
  have heq := h.unhidden_eq []
  rwa [List.append_nil, unhidden, List.append_nil] at heq

/-- A quote behind bytes that stand between quotes is the first that is not hidden. -/
theorem closesFirst (h : StandsFor front value) (behind : Text) :
    ClosesFirst (front ++ Byte.quote :: behind) front.length :=
  ⟨(h.closesAt_behind _ 0).mpr ⟨rfl, id⟩, h.not_closes _⟩

theorem not_closesAt (h : StandsFor front value) (n : Nat) : ¬ClosesAt front n := by
  intro hcloses
  have hlt : n < front.length := (List.getElem?_eq_some_iff.mp hcloses.1).1
  exact h.not_closes [] n hlt (by rwa [List.append_nil])

end StandsFor

/-! ## Characters between quotes -/

theorem standsFor_plain {c : Character} (h : c.Spelled) (hquote : c.code ≠ Code.quote)
    (hbackslash : c.code ≠ Code.backslash) : StandsFor c.bytes c.bytes :=
  .plains (h.notMem_bytes (by decide) hquote) (h.notMem_bytes (by decide) hbackslash)

theorem hiddenValue_of_high {c : Character} (h : 0x80 ≤ c.code) : hiddenValue c = c.bytes := by
  unfold hiddenValue
  repeat rw [if_neg (by omega)]

/-- A hidden character has no quote and no backslash behind its first byte. -/
theorem standsFor_hidden {c : Character} (h : c.Spelled) :
    StandsFor (Byte.backslash :: c.bytes) (hiddenValue c) := by
  cases h with
  | @ascii b hb => exact .hidden b
  | high hcode hne hbytes =>
    have hhigh : ∀ b : UInt8, ¬b < 0x80 → 0x80 ≤ b.toNat := fun b hb =>
      Nat.not_lt.mp (UInt8.lt_iff_toNat_lt.not.mp hb)
    obtain ⟨b, bs, heq⟩ := List.exists_cons_of_ne_nil hne
    rw [heq] at hbytes
    obtain ⟨hb, hbs⟩ := List.forall_mem_cons.mp hbytes
    have hrest : StandsFor bs bs :=
      .plains (fun hquote => hbs _ hquote (by decide)) fun hbackslash =>
        hbs _ hbackslash (by decide)
    have hfirst := StandsFor.hidden b
    rw [hiddenValue_of_high (hhigh b hb)] at hfirst
    rw [hiddenValue_of_high hcode, heq]
    exact hfirst.append hrest

/-- What is between the quotes stands for the value of the literal. -/
theorem Body.standsFor {body : List Character} (h : Body body)
    (hspelled : ∀ c ∈ body, c.Spelled) (pieces : List Text) :
    ∃ value, valueFrom pieces body = pieces.reverse.flatten ++ value ∧
      StandsFor (Text.ofCharacters body) value := by
  -- Each round puts a piece in front of those it was given, so these have to be any.
  induction h generalizing pieces with
  | nil => exact ⟨[], (List.append_nil _).symm, .nil⟩
  | @plain c cs hquote hbackslash _ ih =>
    obtain ⟨hc, hcs⟩ := List.forall_mem_cons.mp hspelled
    obtain ⟨value, hvalue, hstands⟩ := ih hcs (c.bytes :: pieces)
    refine ⟨c.bytes ++ value, ?_, (standsFor_plain hc hquote hbackslash).append hstands⟩
    rw [valueFrom.eq_def]
    simp only [if_neg hbackslash]
    rw [hvalue]
    simp
  | @hidden backslash c cs hbackslash _ ih =>
    obtain ⟨hfirst, hrest⟩ := List.forall_mem_cons.mp hspelled
    obtain ⟨hc, hcs⟩ := List.forall_mem_cons.mp hrest
    obtain ⟨value, hvalue, hstands⟩ := ih hcs (hiddenValue c :: pieces)
    refine ⟨hiddenValue c ++ value, ?_, ?_⟩
    · rw [valueFrom, if_pos hbackslash, hvalue]
      simp
    · have hboth := (standsFor_hidden hc).append hstands
      rw [Text.ofCharacters, List.flatMap_cons, List.flatMap_cons,
        hfirst.bytes_of_backslash hbackslash]
      exact hboth

theorem Unclosed.not_closesAt {cs : List Character} (h : Unclosed cs)
    (hspelled : ∀ c ∈ cs, c.Spelled) (n : Nat) : ¬ClosesAt (Text.ofCharacters cs) n := by
  rcases h with hbody | ⟨body, backslash, hbody, hbackslash, rfl⟩
  · obtain ⟨value, -, hstands⟩ := hbody.standsFor hspelled []
    exact hstands.not_closesAt n
  · obtain ⟨hinner, hlast⟩ := List.forall_mem_append.mp hspelled
    obtain ⟨value, -, hstands⟩ := hbody.standsFor hinner []
    have hbytes := (hlast backslash (List.mem_singleton_self _)).bytes_of_backslash hbackslash
    have htext : Text.ofCharacters (body ++ [backslash]) =
        Text.ofCharacters body ++ [Byte.backslash] := by
      simp [Text.ofCharacters, hbytes]
    rw [htext]
    rcases Nat.lt_or_ge n (Text.ofCharacters body).length with hlt | hge
    · exact hstands.not_closes _ n hlt
    · -- Behind the body there is only the backslash, which is no quote.
      obtain ⟨m, rfl⟩ := Nat.exists_eq_add_of_le hge
      rw [hstands.closesAt_behind]
      rintro ⟨hquote, -⟩
      cases m with
      | zero => cases hquote
      | succ m => cases hquote

end Literal

/-! ## Reading a literal -/

namespace Reader

open Literal

variable {t inside : Text} {r : Reader}

theorem opening_of_unread (hplace : (ofText t).LeadsTo r)
    (hunread : t.drop r.position.offset = Byte.quote :: inside) :
    ∃ opening cs, r.rest = opening :: cs ∧ opening.code = Code.quote ∧
      opening.bytes = [Byte.quote] ∧ Text.ofCharacters cs = inside := by
  have htext := hplace.ofCharacters_rest
  have hspelled := hplace.spelled
  rw [hunread] at htext
  cases hrest : r.rest with
  | nil =>
    rw [hrest] at htext
    cases htext
  | cons opening cs =>
    rw [hrest] at htext hspelled
    have hopening := hspelled opening List.mem_cons_self
    have hhead : (Text.ofCharacters (opening :: cs)).head? = some Byte.quote := by rw [htext]; rfl
    have hcode : opening.code = Code.quote :=
      Option.some.inj ((Text.head?_ofCharacters hspelled (by decide)).mp hhead)
    have hbytes := hopening.bytes_of_quote hcode
    refine ⟨opening, cs, rfl, hcode, hbytes, ?_⟩
    rw [Text.ofCharacters, List.flatMap_cons, hbytes] at htext
    exact (List.cons.inj htext).2

theorem readLiteral_of_no_quote (hplace : (ofText t).LeadsTo r)
    (hhead : (t.drop r.position.offset).head? ≠ some Byte.quote) :
    r.readLiteral = (.error ⟨r.position, .missingQuote⟩, r) := by
  rw [← hplace.ofCharacters_rest, Ne, Text.head?_ofCharacters hplace.spelled (by decide)] at hhead
  have hno : r.sees Code.quote = false := by
    rw [sees, beq_eq_false_iff_ne]
    exact hhead
  rw [readLiteral, hno]
  rfl

/-- Behind an opening quote, the first quote that is not hidden closes the literal.  Without one
the literal has no end. -/
theorem readLiteral_of_unread (hplace : (ofText t).LeadsTo r)
    (hunread : t.drop r.position.offset = Byte.quote :: inside) :
    (∃ n r', ClosesFirst inside n ∧
      r.readLiteral = (.ok ⟨unhidden (inside.take n), Byte.quote :: inside.take (n + 1)⟩, r') ∧
      r'.position = r.position.advance (Byte.quote :: inside.take (n + 1)) ∧
      Text.ofCharacters r'.rest = inside.drop (n + 1)) ∨
    (∀ n, ¬ClosesAt inside n) ∧
      r.readLiteral = (.error ⟨r.position, .unterminatedLiteral⟩, r.toEnd) := by
  obtain ⟨opening, cs, hrest, hopening, hbytes, rfl⟩ := opening_of_unread hplace hunread
  have hspelled : ∀ c ∈ cs, c.Spelled := fun c hc =>
    hplace.spelled c (hrest ▸ List.mem_cons_of_mem _ hc)
  rcases closed_or_unclosed [] cs with ⟨body, closing, rest, hbody, hclosing, rfl⟩ | hunclosed
  · refine .inl ⟨(Text.ofCharacters body).length, r.skip (body.length + 2), ?_⟩
    obtain ⟨hinner, hbehind⟩ := List.forall_mem_append.mp hspelled
    obtain ⟨value, hvalue, hstands⟩ := hbody.standsFor hinner []
    have hquote := (hbehind closing List.mem_cons_self).bytes_of_quote hclosing
    have htext : Text.ofCharacters (body ++ closing :: rest) =
        (Text.ofCharacters body ++ [Byte.quote]) ++ Text.ofCharacters rest := by
      simp [Text.ofCharacters, hquote]
    have hraw : Text.ofCharacters (opening :: (body ++ [closing])) =
        Byte.quote :: (Text.ofCharacters body ++ [Byte.quote]) := by
      simp [Text.ofCharacters, hbytes, hquote]
    have hlength : (Text.ofCharacters body ++ [Byte.quote]).length =
        (Text.ofCharacters body).length + 1 := by
      rw [List.length_append, List.length_singleton]
    obtain ⟨hread, hskip⟩ := readLiteral_closed hopening hbody hclosing hrest
    have hreads : r.Reads (opening :: (body ++ [closing])) (r.skip (body.length + 2)) := by
      have hsplit : r.rest = (opening :: (body ++ [closing])) ++ rest := by simp [hrest]
      have hreads := reads_skip (body.length + 2) r
      rwa [hsplit, List.take_left' (by simp)] at hreads
    rw [htext, List.take_left' hlength, List.drop_left' hlength, List.append_assoc, List.take_left,
      hstands.unhidden_self, ← hraw]
    refine ⟨hstands.closesFirst _, ?_, hreads.position_eq_advance hplace,
      congrArg Text.ofCharacters hskip⟩
    rw [hread, hvalue]
    rfl
  · exact .inr ⟨hunclosed.not_closesAt hspelled, readLiteral_unclosed hopening hunclosed hrest⟩

/-- The bytes that are not read yet tell what is read as a literal.  One is read if they start with
a quote and have one more that is not hidden.  It ends right behind the first such quote.  Else
reading fails: at the opening quote, behind the whole text, or, without an opening quote, where it
started. -/
theorem readLiteral_by_bytes (hplace : (ofText t).LeadsTo r) :
    ((∃ literal r', r.readLiteral = (.ok literal, r')) ↔
      ∃ inside n, t.drop r.position.offset = Byte.quote :: inside ∧ ClosesAt inside n) ∧
    (∀ inside n, t.drop r.position.offset = Byte.quote :: inside → ClosesFirst inside n →
      ∃ r', r.readLiteral =
          (.ok ⟨unhidden (inside.take n), Byte.quote :: inside.take (n + 1)⟩, r') ∧
        r'.position = r.position.advance (Byte.quote :: inside.take (n + 1)) ∧
        r'.position.offset = r.position.offset + (n + 2) ∧
        Text.ofCharacters r'.rest = inside.drop (n + 1)) ∧
    (∀ inside, t.drop r.position.offset = Byte.quote :: inside → (∀ n, ¬ClosesAt inside n) →
      r.readLiteral = (.error ⟨r.position, .unterminatedLiteral⟩, r.toEnd) ∧
        r.toEnd.position.offset = t.length) ∧
    ((t.drop r.position.offset).head? ≠ some Byte.quote →
      r.readLiteral = (.error ⟨r.position, .missingQuote⟩, r)) := by
  have hmissing := readLiteral_of_no_quote hplace
  refine ⟨⟨?_, ?_⟩, ?_, ?_, hmissing⟩
  · rintro ⟨literal, r', hread⟩
    by_cases hhead : (t.drop r.position.offset).head? = some Byte.quote
    · obtain ⟨inside, hunread⟩ := List.head?_eq_some_iff.mp hhead
      rcases readLiteral_of_unread hplace hunread with ⟨n, -, hfirst, -⟩ | ⟨-, herror⟩
      · exact ⟨inside, n, hunread, hfirst.1⟩
      · rw [herror] at hread
        cases hread
    · rw [hmissing hhead] at hread
      cases hread
  · rintro ⟨inside, n, hunread, hcloses⟩
    rcases readLiteral_of_unread hplace hunread with ⟨_, r', -, hread, -⟩ | ⟨hnone, -⟩
    · exact ⟨_, r', hread⟩
    · exact absurd hcloses (hnone n)
  · intro inside n hunread hfirst
    rcases readLiteral_of_unread hplace hunread with
      ⟨m, r', hm, hread, hposition, hbehind⟩ | ⟨hnone, -⟩
    · obtain rfl := hm.unique hfirst
      have hlt : m < inside.length := (List.getElem?_eq_some_iff.mp hfirst.1.1).1
      refine ⟨r', hread, hposition, ?_, hbehind⟩
      rw [hposition, Position.advance_eq_foldl, offset_foldl_after, Text.ofCharacters_characters,
        List.length_cons, List.length_take, Nat.min_eq_left hlt]
    · exact absurd hfirst.1 (hnone n)
  · intro inside hunread hnone
    rcases readLiteral_of_unread hplace hunread with ⟨n, -, hfirst, -⟩ | ⟨-, hread⟩
    · exact absurd hfirst.1 (hnone n)
    · exact ⟨hread, (hplace.trans (leadsTo_skipWhile _ r)).offset_of_end (toEnd_rest r)⟩

/-- A hidden character of two bytes, a stray byte, a hidden backslash and a hidden quote between
quotes, with a letter before them and one behind. -/
def maze : Text := [0x78, 0x22, 0x5C, 0xC3, 0xA9, 0xE2, 0x5C, 0x5C, 0x5C, 0x22, 0x22, 0x79]

theorem readLiteral_by_bytes_maze :
    (ofText maze).LeadsTo ((ofText maze).skip 1) ∧
    ∃ r', ((ofText maze).skip 1).readLiteral = (.ok ⟨[0xC3, 0xA9, 0xE2, 0x5C, 0x22],
        [0x22, 0x5C, 0xC3, 0xA9, 0xE2, 0x5C, 0x5C, 0x5C, 0x22, 0x22]⟩, r') ∧
      r'.position.offset = 11 ∧ Text.ofCharacters r'.rest = [0x79] := by
  have hplace := leadsTo_skip 1 (ofText maze)
  have hunread : maze.drop ((ofText maze).skip 1).position.offset =
      Byte.quote :: [0x5C, 0xC3, 0xA9, 0xE2, 0x5C, 0x5C, 0x5C, 0x22, 0x22, 0x79] := by
    decide +kernel
  obtain ⟨-, hclosed, -⟩ := readLiteral_by_bytes hplace
  obtain ⟨r', hread, -, hoffset, hbehind⟩ := hclosed _ 8 hunread (by decide)
  refine ⟨hplace, r', hread, ?_, hbehind⟩
  rw [hoffset]
  decide +kernel

end Reader

/-! ## Writing a text between quotes -/

namespace Literal

/-- The letters that stand for a control character behind a backslash, and its code point. -/
def letters : List (UInt8 × Nat) :=
  [(Text.ofAscii 'n', 0x0A), (Text.ofAscii 't', 0x09), (Text.ofAscii 'r', 0x0D),
    (Text.ofAscii '0', 0x00)]

/-- How a character can be written between quotes. -/
inductive Spelling : Character → Text → Prop where
  /-- All but the quote and the backslash can stand for themselves. -/
  | plain {c : Character} (hquote : c.code ≠ Code.quote) (hbackslash : c.code ≠ Code.backslash) :
      Spelling c c.bytes
  /-- Control characters have a letter. -/
  | letter {c : Character} {letter : UInt8} (h : (letter, c.code) ∈ letters) :
      Spelling c [Byte.backslash, letter]
  /-- All but the letters can stand for themselves behind a backslash. -/
  | hidden {c : Character} (h : ∀ entry ∈ letters, c.code ≠ entry.1.toNat) :
      Spelling c (Byte.backslash :: c.bytes)

/-- The text is written as `written` between quotes, character by character. -/
def Writes (value written : Text) : Prop :=
  ∃ pieces, List.Forall₂ Spelling value.characters pieces ∧ written = pieces.flatten

theorem Spelling.standsFor {c : Character} {piece : Text} (h : Spelling c piece)
    (hspelled : c.Spelled) : StandsFor piece c.bytes := by
  cases h with
  | plain hquote hbackslash => exact standsFor_plain hspelled hquote hbackslash
  | @letter letter h =>
    have hvalue : hiddenValue ⟨letter.toNat, [letter]⟩ = c.bytes := by
      simp only [letters, List.mem_cons, List.not_mem_nil, or_false, Prod.mk.injEq] at h
      rcases h with ⟨rfl, hcode⟩ | ⟨rfl, hcode⟩ | ⟨rfl, hcode⟩ | ⟨rfl, hcode⟩
      · exact (hspelled.bytes_of_ascii (b := 0x0A) (by decide) hcode).symm
      · exact (hspelled.bytes_of_ascii (b := 0x09) (by decide) hcode).symm
      · exact (hspelled.bytes_of_ascii (b := 0x0D) (by decide) hcode).symm
      · exact (hspelled.bytes_of_ascii (b := 0x00) (by decide) hcode).symm
    exact hvalue ▸ StandsFor.hidden letter
  | hidden h =>
    have hvalue : hiddenValue c = c.bytes := by
      simp only [letters, List.forall_mem_cons] at h
      obtain ⟨hn, ht, hr, hzero, -⟩ := h
      exact (if_neg hn).trans ((if_neg ht).trans ((if_neg hr).trans (if_neg hzero)))
    exact hvalue ▸ standsFor_hidden hspelled

theorem standsFor_of_spellings {cs : List Character} {pieces : List Text}
    (h : List.Forall₂ Spelling cs pieces) (hspelled : ∀ c ∈ cs, c.Spelled) :
    StandsFor pieces.flatten (Text.ofCharacters cs) := by
  induction h with
  | nil => exact .nil
  | cons hpiece _ ih =>
    obtain ⟨hc, hcs⟩ := List.forall_mem_cons.mp hspelled
    exact (hpiece.standsFor hc).append (ih hcs)

theorem Writes.standsFor {value written : Text} (h : Writes value written) :
    StandsFor written value := by
  obtain ⟨pieces, hpieces, rfl⟩ := h
  have hstands := standsFor_of_spellings hpieces fun c hc => Text.spelled_of_mem hc
  rwa [Text.ofCharacters_characters] at hstands

end Literal

namespace Reader

open Literal

/-- Reading undoes every way of writing a text between quotes, and leaves what is behind. -/
theorem readLiteral_undoes_writing {t value written tail : Text} {r : Reader}
    (hplace : (ofText t).LeadsTo r)
    (hunread : t.drop r.position.offset = Byte.quote :: (written ++ Byte.quote :: tail))
    (hwrites : Writes value written) :
    ∃ r', r.readLiteral = (.ok ⟨value, Byte.quote :: (written ++ [Byte.quote])⟩, r') ∧
      Text.ofCharacters r'.rest = tail := by
  have hstands := hwrites.standsFor
  have hfirst := hstands.closesFirst tail
  have hlength : (written ++ [Byte.quote]).length = written.length + 1 := by
    rw [List.length_append, List.length_singleton]
  rcases readLiteral_of_unread hplace hunread with ⟨n, r', hn, hread, -, hrest⟩ | ⟨hnone, -⟩
  · obtain rfl := hn.unique hfirst
    rw [List.take_left, List.append_cons, List.take_left' hlength, hstands.unhidden_self] at hread
    rw [List.append_cons, List.drop_left' hlength] at hrest
    exact ⟨r', hread, hrest⟩
  · exact absurd hfirst.1 (hnone _)

/-- A line end, a tabulator, a quote, a backslash, the letter `n`, characters of two and three
bytes and stray bytes. -/
def motley : Text :=
  [0x0A, 0x09, 0x22, 0x5C, 0x6E, 0xC3, 0xA9, 0xE2, 0xEF, 0xBF, 0xBD, 0x82]

/-- The same text as it can be written between quotes. -/
def motleyWritten : Text :=
  [0x5C, 0x6E, 0x09, 0x5C, 0x22, 0x5C, 0x5C, 0x6E, 0x5C, 0xC3, 0xA9, 0x5C, 0xE2, 0x5C, 0xEF, 0xBF,
    0xBD, 0x82]

theorem motley_written : Writes motley motleyWritten := by
  have hcharacters : motley.characters = [⟨0x0A, [0x0A]⟩, ⟨0x09, [0x09]⟩, ⟨0x22, [0x22]⟩,
      ⟨0x5C, [0x5C]⟩, ⟨0x6E, [0x6E]⟩, ⟨0xE9, [0xC3, 0xA9]⟩, ⟨0xFFFD, [0xE2]⟩,
      ⟨0xFFFD, [0xEF, 0xBF, 0xBD]⟩, ⟨0xFFFD, [0x82]⟩] := by
    decide +kernel
  refine ⟨[[0x5C, 0x6E], [0x09], [0x5C, 0x22], [0x5C, 0x5C], [0x6E], [0x5C, 0xC3, 0xA9],
    [0x5C, 0xE2], [0x5C, 0xEF, 0xBF, 0xBD], [0x82]], ?_, rfl⟩
  rw [hcharacters]
  refine .cons (.letter (by decide)) (.cons (.plain (by decide) (by decide)) ?_)
  refine .cons (.hidden (by decide)) (.cons (.hidden (by decide)) ?_)
  refine .cons (.plain (by decide) (by decide)) (.cons (.hidden (by decide)) ?_)
  refine .cons (.hidden (by decide)) (.cons (.hidden (by decide)) ?_)
  exact .cons (.plain (by decide) (by decide)) .nil

/-- Behind the closing quote there is a byte that could continue a character. -/
theorem readLiteral_undoes_writing_motley :
    Writes motley motleyWritten ∧
    ∃ r', (ofText (Byte.quote :: (motleyWritten ++ [Byte.quote, 0xA9]))).readLiteral =
        (.ok ⟨motley, Byte.quote :: (motleyWritten ++ [Byte.quote])⟩, r') ∧
      Text.ofCharacters r'.rest = [0xA9] :=
  ⟨motley_written, readLiteral_undoes_writing (.refl _) rfl motley_written⟩

end Reader

end XsPrep
