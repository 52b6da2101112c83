import XsPrep.Source.Reader
import Mathlib.Data.List.Basic

/-!
# Decoding a text

The characters of a text are its first character and the characters of the rest
(`characters_cons`).  Every character has at least one byte, and the bytes of all
of them are the text again (`ofCharacters_characters`).

A sequence of several bytes is known by its own bytes (`completes_of_sequence?`), and
all but the first of them continue it.  So a text may be cut before any other byte:
decoding the two parts and decoding the whole is the same (`characters_append_fresh`).
In particular it may be cut at a line end (`characters_newline`, `characters_append`).
It may also be cut wherever one of its characters ends (`characters_of_append`).

Characters that end with a slash are read back from their bytes whatever is behind these, and so is
every end of them (`Character.ReadBack`).
-/

namespace XsPrep

namespace Text

/-! ## Characters one by one -/

/-- Induction over a text by its first character. -/
@[elab_as_elim]
theorem characterInduction {motive : Text → Prop} (nil : motive [])
    (cons : ∀ a t, motive (Character.first a t).2 → motive (a :: t)) (t : Text) : motive t := by
  induction hn : t.length using Nat.strongRecOn generalizing t with
  | _ n ih =>
    cases t with
    | nil => exact nil
    | cons a t =>
      have hlen := Character.first_rest_length a t
      rw [List.length_cons] at hn
      exact cons a t (ih _ (by omega) _ rfl)

theorem foldCharacters_collect (t : Text) (read : List Character) :
    foldCharacters (fun read c => c :: read) read t =
      foldCharacters (fun read c => c :: read) [] t ++ read := by
  induction t using characterInduction generalizing read with
  | nil => rw [foldCharacters, foldCharacters, List.nil_append]
  | cons a t ih =>
    rw [foldCharacters, foldCharacters, ih, ih [_], List.append_assoc, List.singleton_append]

@[simp] theorem characters_nil : characters [] = [] := by
  rw [characters, foldCharacters, List.reverse_nil]

theorem characters_cons (a : UInt8) (t : Text) :
    characters (a :: t) = (Character.first a t).1 :: characters (Character.first a t).2 := by
  rw [characters, foldCharacters, foldCharacters_collect, List.reverse_append]
  rfl

theorem length_characters_le (t : Text) : t.characters.length ≤ t.length := by
  induction t using characterInduction with
  | nil => rw [characters_nil]; exact Nat.le_refl _
  | cons a t ih =>
    rw [characters_cons]
    exact Nat.succ_le_succ (Nat.le_trans ih (Character.first_rest_length a t))

/-- Texts of single bytes in front decode by themselves. -/
theorem characters_append_ascii {s : Text} (hs : ∀ b ∈ s, b < 0x80) (t : Text) :
    characters (s ++ t) = characters s ++ characters t := by
  induction s with
  | nil => rw [characters_nil, List.nil_append, List.nil_append]
  | cons b s ih =>
    obtain ⟨hb, hs⟩ := List.forall_mem_cons.mp hs
    have hfirst : ∀ t, Character.first b t = (⟨b.toNat, [b]⟩, t) := fun t => if_pos hb
    rw [List.cons_append, characters_cons, characters_cons, hfirst, hfirst, ih hs,
      List.cons_append]

theorem ofCharacters_append (cs ds : List Character) :
    ofCharacters (cs ++ ds) = ofCharacters cs ++ ofCharacters ds :=
  List.flatMap_append

/-- Decoding loses nothing. -/
theorem ofCharacters_characters (t : Text) : ofCharacters t.characters = t := by
  induction t using characterInduction with
  | nil => rw [characters_nil]; rfl
  | cons a t ih =>
    rw [characters_cons, ofCharacters, List.flatMap_cons]
    rw [ofCharacters] at ih
    rw [ih, Character.first_bytes_append]

theorem first_bytes_ne_nil (a : UInt8) (t : Text) : (Character.first a t).1.bytes ≠ [] := by
  intro h
  have happend := Character.first_bytes_append a t
  have hlen := Character.first_rest_length a t
  rw [h, List.nil_append] at happend
  rw [happend, List.length_cons] at hlen
  omega

/-- A character of a text has at least one byte. -/
theorem bytes_ne_nil_of_mem {t : Text} {c : Character} (h : c ∈ t.characters) : c.bytes ≠ [] := by
  induction t using characterInduction with
  | nil => rw [characters_nil] at h; cases h
  | cons a t ih =>
    rw [characters_cons] at h
    rcases List.mem_cons.mp h with rfl | h
    · exact first_bytes_ne_nil a t
    · exact ih h

end Text

/-! ## Sequences -/

namespace Character

/-- The bytes `tails` behind `a` make the character `c`, whatever follows them. -/
structure Completes (a : UInt8) (tails : Text) (c : Character) : Prop where
  /-- These are the bytes of the character. -/
  bytes_eq : c.bytes = a :: tails
  /-- They all continue it. -/
  isTail : ∀ b ∈ tails, isTail b = true
  /-- It has no code point of a single byte. -/
  high : 0x80 ≤ c.code
  /-- It is read wherever they stand. -/
  sequence?_eq : ∀ rest, sequence? a (tails ++ rest) = some (c, rest)

theorem isTail_iff {b : UInt8} : isTail b = true ↔ 0x80 ≤ b.toNat ∧ b.toNat ≤ 0xBF := by
  simp [isTail, UInt8.le_iff_toNat_le]

/-- A second byte continues a sequence.  The bounds rule out a sequence that is longer
than its code point needs. -/
theorem of_isSecond {a b : UInt8} (h : isSecond a b = true) :
    isTail b = true ∧ (a.toNat = 0xE0 → 32 ≤ tailBits b) ∧
      (a.toNat = 0xF0 → 16 ≤ tailBits b) := by
  have hbounds : (0x80 ≤ b.toNat ∧ b.toNat ≤ 0xBF) ∧ (a = 0xE0 → 0xA0 ≤ b.toNat) ∧
      (a = 0xF0 → 0x90 ≤ b.toNat) := by
    unfold isSecond at h
    repeat' split at h
    all_goals
      simp only [isTail, Bool.and_eq_true, decide_eq_true_eq, UInt8.le_iff_toNat_le] at h
      grind
  refine ⟨isTail_iff.mpr hbounds.1, fun ha => ?_, fun ha => ?_⟩
  · exact Nat.le_sub_of_add_le (hbounds.2.1 (UInt8.toNat_inj.mp ha))
  · exact Nat.le_sub_of_add_le (hbounds.2.2 (UInt8.toNat_inj.mp ha))

variable {a : UInt8} {t rest : Text} {c : Character}

theorem completes_of_pair? (hlow : ¬a < 0xC2) (hhigh : a < 0xE0)
    (h : pair? a t = some (c, rest)) : ∃ tails, t = tails ++ rest ∧ Completes a tails c := by
  unfold pair? at h
  split at h
  · rename_i b u
    split at h
    · rename_i hb
      obtain ⟨rfl, rfl⟩ := Prod.mk.inj (Option.some.inj h)
      refine ⟨[b], rfl, rfl, by simpa using (of_isSecond hb).1, ?_, fun rest => ?_⟩
      · have hlow : 0xC2 ≤ a.toNat := Nat.not_lt.mp (UInt8.lt_iff_toNat_lt.not.mp hlow)
        dsimp only
        omega
      · simp [sequence?, pair?, hlow, hhigh, hb]
    · cases h
  · cases h

theorem completes_of_triple? (hlow : ¬a < 0xE0) (hhigh : a < 0xF0)
    (h : triple? a t = some (c, rest)) : ∃ tails, t = tails ++ rest ∧ Completes a tails c := by
  unfold triple? at h
  split at h
  · rename_i b d u
    split at h
    · rename_i hbytes
      obtain ⟨rfl, rfl⟩ := Prod.mk.inj (Option.some.inj h)
      obtain ⟨hb, hd⟩ := Bool.and_eq_true_iff.mp hbytes
      obtain ⟨htail, hleast, -⟩ := of_isSecond hb
      have hpair : ¬a < 0xC2 := fun hlt => hlow (UInt8.lt_trans hlt (by decide))
      refine ⟨[b, d], rfl, rfl, by simp [htail, hd], ?_, fun rest => ?_⟩
      · have hlow : 0xE0 ≤ a.toNat := Nat.not_lt.mp (UInt8.lt_iff_toNat_lt.not.mp hlow)
        dsimp only
        omega
      · simp [sequence?, triple?, hpair, hlow, hhigh, hb, hd]
    · cases h
  · cases h

theorem completes_of_quadruple? (hlow : ¬a < 0xF0) (hhigh : a < 0xF5)
    (h : quadruple? a t = some (c, rest)) : ∃ tails, t = tails ++ rest ∧ Completes a tails c := by
  unfold quadruple? at h
  split at h
  · rename_i b d e u
    split at h
    · rename_i hbytes
      obtain ⟨rfl, rfl⟩ := Prod.mk.inj (Option.some.inj h)
      simp only [Bool.and_eq_true] at hbytes
      obtain ⟨⟨hb, hd⟩, he⟩ := hbytes
      obtain ⟨htail, -, hleast⟩ := of_isSecond hb
      have hpair : ¬a < 0xC2 := fun hlt => hlow (UInt8.lt_trans hlt (by decide))
      have htriple : ¬a < 0xE0 := fun hlt => hlow (UInt8.lt_trans hlt (by decide))
      refine ⟨[b, d, e], rfl, rfl, by simp [htail, hd, he], ?_, fun rest => ?_⟩
      · have hlow : 0xF0 ≤ a.toNat := Nat.not_lt.mp (UInt8.lt_iff_toNat_lt.not.mp hlow)
        dsimp only
        omega
      · simp [sequence?, quadruple?, hpair, htriple, hlow, hhigh, hb, hd, he]
    · cases h
  · cases h

/-- A sequence is known by its own bytes. -/
theorem completes_of_sequence? (h : sequence? a t = some (c, rest)) :
    ∃ tails, t = tails ++ rest ∧ Completes a tails c := by
  unfold sequence? at h
  split at h
  · cases h
  split at h
  · exact completes_of_pair? ‹_› ‹_› h
  split at h
  · exact completes_of_triple? ‹_› ‹_› h
  split at h
  · exact completes_of_quadruple? ‹_› ‹_› h
  · cases h

theorem first_of_completes {tails : Text} (h : Completes a tails c) (ha : ¬a < 0x80)
    (rest : Text) : first a (tails ++ rest) = (c, rest) := by
  rw [first, if_neg ha, h.sequence?_eq]
  rfl

/-- What the first character of a text can be. -/
inductive First (a : UInt8) (t : Text) : Prop where
  /-- A single byte. -/
  | ascii (ha : a < 0x80) (hfirst : first a t = (⟨a.toNat, [a]⟩, t))
  /-- A sequence of several bytes. -/
  | sequence (tails rest : Text) (c : Character) (ha : ¬a < 0x80) (ht : t = tails ++ rest)
      (hcompletes : Completes a tails c) (hfirst : first a t = (c, rest))
  /-- A byte that begins no sequence. -/
  | stray (ha : ¬a < 0x80) (hnone : sequence? a t = none) (hfirst : first a t = (stray a, t))

theorem first_cases (a : UInt8) (t : Text) : First a t := by
  by_cases ha : a < 0x80
  · exact .ascii ha (if_pos ha)
  · cases hsequence : sequence? a t with
    | none => exact .stray ha hsequence (by rw [first, if_neg ha, hsequence]; rfl)
    | some result =>
      obtain ⟨c, rest⟩ := result
      obtain ⟨tails, rfl, hcompletes⟩ := completes_of_sequence? hsequence
      exact .sequence tails rest c ha rfl hcompletes (first_of_completes hcompletes ha rest)

/-- Either a single byte with its own code point, or bytes and a code point beyond
these. -/
inductive Spelled : Character → Prop where
  | ascii {b : UInt8} (hb : b < 0x80) : Spelled ⟨b.toNat, [b]⟩
  | high {c : Character} (hcode : 0x80 ≤ c.code) (hne : c.bytes ≠ [])
      (hbytes : ∀ b ∈ c.bytes, ¬b < 0x80) : Spelled c

theorem spelled_first (a : UInt8) (t : Text) : Spelled (first a t).1 := by
  cases first_cases a t with
  | ascii ha hfirst =>
    rw [hfirst]
    exact .ascii ha
  | sequence tails rest c ha ht hcompletes hfirst =>
    rw [hfirst]
    refine .high hcompletes.high (by simp [hcompletes.bytes_eq]) ?_
    rw [hcompletes.bytes_eq]
    refine List.forall_mem_cons.mpr ⟨ha, fun b hb => ?_⟩
    have htail := isTail_iff.mp (hcompletes.isTail b hb)
    rw [UInt8.lt_iff_toNat_lt, Nat.not_lt]
    exact htail.1
  | stray ha _ hfirst =>
    rw [hfirst]
    refine .high ?_ (List.cons_ne_nil a []) (by simpa [Character.stray] using ha)
    show 0x80 ≤ Code.replacement
    decide

namespace Spelled

theorem bytes_ne_nil {c : Character} (h : Spelled c) : c.bytes ≠ [] := by
  cases h with
  | ascii => exact List.cons_ne_nil _ _
  | high _ hne _ => exact hne

/-- The first byte of a character is below `0x80` only if it is the character. -/
theorem head?_bytes {c : Character} (h : Spelled c) {b : UInt8} (hb : b < 0x80) :
    c.bytes.head? = some b ↔ c.code = b.toNat := by
  cases h with
  | ascii => rw [List.head?_cons, Option.some.injEq, UInt8.toNat_inj]
  | high hcode _ hbytes =>
    constructor
    · intro hhead
      exact absurd hb (hbytes b (List.mem_of_head? hhead))
    · intro heq
      have hlow : b.toNat < 0x80 := UInt8.lt_iff_toNat_lt.mp hb
      omega

theorem bytes_of_ascii {c : Character} (h : Spelled c) {b : UInt8} (hb : b < 0x80)
    (hcode : c.code = b.toNat) : c.bytes = [b] := by
  have hhead := (h.head?_bytes hb).mpr hcode
  cases h with
  | ascii => rw [Option.some.inj hhead]
  | high _ _ hbytes => exact absurd hb (hbytes b (List.mem_of_head? hhead))

/-- A byte below `0x80` is in no other character. -/
theorem notMem_bytes {c : Character} (h : Spelled c) {b : UInt8} (hb : b < 0x80)
    (hcode : c.code ≠ b.toNat) : b ∉ c.bytes := by
  intro hmem
  cases h with
  | ascii => exact hcode (congrArg UInt8.toNat (List.mem_singleton.mp hmem).symm)
  | high _ _ hbytes => exact hbytes b hmem hb

theorem bytes_of_newline {c : Character} (h : Spelled c) (hcode : c.code = Code.newline) :
    c.bytes = [Byte.newline] :=
  h.bytes_of_ascii (by decide) hcode

/-- Only a line end has the byte of a line end. -/
theorem newline_notMem {c : Character} (h : Spelled c) (hcode : c.code ≠ Code.newline) :
    Byte.newline ∉ c.bytes :=
  h.notMem_bytes (by decide) hcode

end Spelled

/-- A byte below `0x80` is known by the code point of its character. -/
theorem code_first_iff {a b : UInt8} (hb : b < 0x80) (t : Text) :
    (first a t).1.code = b.toNat ↔ a = b := by
  have hhead : (first a t).1.bytes.head? = some a := by
    have hbytes := congrArg List.head? (first_bytes_append a t)
    rwa [List.head?_append_of_ne_nil _ (Text.first_bytes_ne_nil a t)] at hbytes
  rw [← (spelled_first a t).head?_bytes hb, hhead, Option.some_inj]

end Character

namespace Text

theorem spelled_of_mem {t : Text} {c : Character} (h : c ∈ t.characters) : c.Spelled := by
  induction t using characterInduction with
  | nil => rw [characters_nil] at h; cases h
  | cons a t ih =>
    rw [characters_cons] at h
    rcases List.mem_cons.mp h with rfl | h
    · exact Character.spelled_first a t
    · exact ih h

/-- A character with the code point of a byte below `0x80` is that byte. -/
theorem mem_of_code {t : Text} {d : Character} (h : d ∈ t.characters) {x : UInt8} (hx : x < 0x80)
    (hcode : d.code = x.toNat) : x ∈ t := by
  rw [← ofCharacters_characters t]
  refine List.mem_flatMap.mpr ⟨d, h, ?_⟩
  rw [(spelled_of_mem h).bytes_of_ascii hx hcode]
  exact List.mem_singleton_self x

/-- A text is known by its code points if all of them are below `0x80`. -/
theorem eq_of_codes {s t : Text} (hs : ∀ b ∈ s, b < 0x80)
    (h : t.characters.map Character.code = s.map UInt8.toNat) : t = s := by
  induction s generalizing t with
  | nil =>
    rw [← ofCharacters_characters t, List.map_eq_nil_iff.mp h]
    rfl
  | cons b s ih =>
    obtain ⟨hb, hlow⟩ := List.forall_mem_cons.mp hs
    cases t with
    | nil =>
      rw [characters_nil] at h
      cases h
    | cons a t =>
      rw [characters_cons] at h
      obtain ⟨hcode, hrest⟩ := List.cons.inj h
      obtain rfl := (Character.code_first_iff hb t).mp hcode
      rw [Character.first, if_pos hb] at hrest
      exact congrArg (List.cons a) (ih hlow hrest)

/-- A text has no line end exactly if it is without the byte of a line end. -/
theorem newline_notMem_iff {t : Text} :
    Byte.newline ∉ t ↔ ∀ c ∈ t.characters, c.code ≠ Code.newline := by
  have hbytes : Byte.newline ∈ t ↔ ∃ c ∈ t.characters, Byte.newline ∈ c.bytes := by
    rw [← List.mem_flatMap, ← ofCharacters, ofCharacters_characters]
  rw [hbytes]
  constructor
  · intro h c hc hcode
    refine h ⟨c, hc, ?_⟩
    rw [(spelled_of_mem hc).bytes_of_newline hcode]
    exact List.mem_singleton_self _
  · rintro h ⟨c, hc, hmem⟩
    exact (spelled_of_mem hc).newline_notMem (h c hc) hmem

/-! ## Cuts -/

/-- The text does not begin with a byte that continues a character. -/
def IsFresh (t : Text) : Prop := ∀ b, t.head? = some b → Character.isTail b = false

theorem IsFresh.nil : IsFresh [] := by
  intro b hb
  cases hb

theorem IsFresh.of_ascii {b : UInt8} (hb : b < 0x80) (t : Text) : IsFresh (b :: t) := by
  intro c hc
  obtain rfl : b = c := Option.some.inj hc
  rw [Bool.eq_false_iff]
  intro htail
  have hge := (Character.isTail_iff.mp htail).1
  rw [UInt8.lt_iff_toNat_lt] at hb
  have hvalue : (0x80 : UInt8).toNat = 0x80 := rfl
  omega

/-- No sequence reaches into a text that begins a character. -/
theorem sequence?_append {t : Text} (ht : t.IsFresh) (a : UInt8) (s : Text) :
    Character.sequence? a (s ++ t) =
      (Character.sequence? a s).map fun r => (r.1, r.2 ++ t) := by
  cases hs : Character.sequence? a s with
  | some result =>
    obtain ⟨c, rest⟩ := result
    obtain ⟨tails, rfl, hcompletes⟩ := Character.completes_of_sequence? hs
    rw [List.append_assoc, hcompletes.sequence?_eq]
    rfl
  | none =>
    cases hwhole : Character.sequence? a (s ++ t) with
    | none => rfl
    | some result =>
      obtain ⟨c, rest⟩ := result
      obtain ⟨tails, hsplit, hcompletes⟩ := Character.completes_of_sequence? hwhole
      rcases List.append_eq_append_iff.mp hsplit with ⟨more, htails, ht'⟩ | ⟨more, rfl, -⟩
      · -- The sequence ends behind the cut, so a continuing byte stands there.
        cases more with
        | nil =>
          rw [List.append_nil] at htails
          have hread := hcompletes.sequence?_eq []
          rw [List.append_nil, htails, hs] at hread
          cases hread
        | cons b more =>
          have hfresh := ht b (by rw [ht']; rfl)
          rw [hcompletes.isTail b (by rw [htails]; simp)] at hfresh
          cases hfresh
      · rw [hcompletes.sequence?_eq] at hs
        cases hs

theorem first_append {t : Text} (ht : t.IsFresh) (a : UInt8) (s : Text) :
    Character.first a (s ++ t) = ((Character.first a s).1, (Character.first a s).2 ++ t) := by
  unfold Character.first
  split
  · rfl
  · rw [sequence?_append ht]
    cases Character.sequence? a s with
    | none => rfl
    | some r => rfl

/-- A text may be cut before a character begins that no byte continues. -/
theorem characters_append_fresh {t : Text} (ht : t.IsFresh) (s : Text) :
    characters (s ++ t) = characters s ++ characters t := by
  induction s using characterInduction with
  | nil => rw [characters_nil, List.nil_append, List.nil_append]
  | cons a s ih =>
    rw [List.cons_append, characters_cons, first_append ht, ih, characters_cons,
      List.cons_append]

theorem characters_ascii {b : UInt8} (hb : b < 0x80) (t : Text) :
    characters (b :: t) = ⟨b.toNat, [b]⟩ :: characters t := by
  rw [characters_cons, Character.first, if_pos hb]

/-- A text decodes by its lines. -/
theorem characters_newline (s t : Text) :
    characters (s ++ Byte.newline :: t) =
      characters s ++ ⟨Code.newline, [Byte.newline]⟩ :: characters t := by
  rw [characters_append_fresh (.of_ascii (by decide) t), characters_ascii (by decide)]
  rfl

/-- A text may be cut wherever one of its characters ends: what is before and what is
behind decode to the characters before and behind. -/
theorem characters_of_append {t : Text} {cs ds : List Character}
    (h : t.characters = cs ++ ds) :
    (ofCharacters cs).characters = cs ∧ (ofCharacters ds).characters = ds := by
  induction t using characterInduction generalizing cs with
  | nil =>
    obtain ⟨rfl, rfl⟩ := List.append_eq_nil_iff.mp (h.symm.trans characters_nil)
    exact ⟨characters_nil, characters_nil⟩
  | cons a t ih =>
    cases cs with
    | nil =>
      rw [List.nil_append] at h
      rw [← h, ofCharacters_characters]
      exact ⟨characters_nil, rfl⟩
    | cons c cs =>
      rw [characters_cons, List.cons_append] at h
      obtain ⟨rfl, hrest⟩ := List.cons.inj h
      obtain ⟨hbefore, hbehind⟩ := ih hrest
      refine ⟨?_, hbehind⟩
      have hbytes : ofCharacters cs ++ ofCharacters ds = (Character.first a t).2 := by
        rw [← ofCharacters_append, ← hrest, ofCharacters_characters]
      rw [ofCharacters, List.flatMap_cons]
      rw [ofCharacters] at hbefore hbytes
      cases Character.first_cases a t with
      | ascii ha hfirst =>
        rw [hfirst]
        show characters (a :: cs.flatMap Character.bytes) = _
        rw [characters_ascii ha, hbefore]
      | sequence tails rest c ha _ hcompletes hfirst =>
        rw [hfirst]
        dsimp only
        rw [hcompletes.bytes_eq, List.cons_append, characters_cons,
          Character.first_of_completes hcompletes ha, hbefore]
      | stray ha hnone hfirst =>
        -- Fewer bytes behind it do not complete what is no sequence.
        rw [hfirst] at hbytes ⊢
        dsimp only at hbytes
        have hstray : Character.sequence? a (cs.flatMap Character.bytes) = none := by
          cases hsome : Character.sequence? a (cs.flatMap Character.bytes) with
          | none => rfl
          | some result =>
            obtain ⟨d, rest⟩ := result
            obtain ⟨tails, htails, hcompletes⟩ := Character.completes_of_sequence? hsome
            rw [← hbytes, htails, List.append_assoc, hcompletes.sequence?_eq] at hnone
            cases hnone
        have hshort : Character.first a (cs.flatMap Character.bytes) =
            (Character.stray a, cs.flatMap Character.bytes) := by
          rw [Character.first, if_neg ha, hstray]
          rfl
        show characters (a :: cs.flatMap Character.bytes) = _
        rw [characters_cons, hshort, hbefore]

end Text

/-! ## Characters that are read back -/

namespace Character

/-- The characters are read back from their bytes, whatever is behind them. -/
def ReadBack (cs : List Character) : Prop :=
  ∀ behind : Text, (Text.ofCharacters cs ++ behind).characters = cs ++ behind.characters

namespace ReadBack

variable {c : Character} {cs ds : List Character}

theorem suffix (h : ReadBack cs) (hsuffix : ds <:+ cs) : ReadBack ds := by
  intro behind
  obtain ⟨es, rfl⟩ := hsuffix
  have hread := h behind
  rw [List.append_assoc] at hread
  have hbehind := (Text.characters_of_append hread).2
  rwa [Text.ofCharacters_append, Text.ofCharacters_characters] at hbehind

/-- The first of them is the first character of the text. -/
theorem first (h : ReadBack (c :: cs)) (behind : Text) :
    ∃ b t, Text.ofCharacters (c :: cs) ++ behind = b :: t ∧
      Character.first b t = (c, Text.ofCharacters cs ++ behind) := by
  have hread := h behind
  cases htext : Text.ofCharacters (c :: cs) ++ behind with
  | nil =>
    rw [htext, Text.characters_nil] at hread
    cases hread
  | cons b t =>
    rw [htext, Text.characters_cons, List.cons_append] at hread
    obtain ⟨hfirst, hrest⟩ := List.cons.inj hread
    refine ⟨b, t, rfl, Prod.ext hfirst ?_⟩
    rw [← Text.ofCharacters_characters (Character.first b t).2, hrest, Text.ofCharacters_append,
      Text.ofCharacters_characters]

end ReadBack

/-- A slash is read back, and so are the characters of a text in front of it. -/
theorem readBack_slash (t : Text) :
    ReadBack (t.characters ++ [⟨Code.slash, [Byte.slash]⟩]) := by
  intro behind
  have hslash : Text.ofCharacters [⟨Code.slash, [Byte.slash]⟩] = [Byte.slash] := rfl
  rw [Text.ofCharacters_append, Text.ofCharacters_characters, hslash, List.append_assoc,
    List.singleton_append, Text.characters_append_fresh (.of_ascii (by decide) behind),
    Text.characters_ascii (by decide), List.append_assoc]
  rfl

end Character

namespace Text

/-! ## Lines -/

/-- A text is made of whole lines: it is empty or ends with a line end. -/
def IsLines (t : Text) : Prop := t = [] ∨ t.getLast? = some Byte.newline

instance (t : Text) : Decidable t.IsLines := inferInstanceAs (Decidable (_ ∨ _))

theorem IsLines.eq_nil_or_append {t : Text} (h : t.IsLines) :
    t = [] ∨ ∃ s, t = s ++ [Byte.newline] := by
  rcases h with h | h
  · exact .inl h
  · obtain ⟨s, rfl⟩ := List.getLast?_eq_some_iff.mp h
    exact .inr ⟨s, rfl⟩

/-- Whole lines in front decode by themselves. -/
theorem characters_append {s : Text} (hs : s.IsLines) (t : Text) :
    characters (s ++ t) = characters s ++ characters t := by
  rcases hs.eq_nil_or_append with rfl | ⟨u, rfl⟩
  · rw [characters_nil, List.nil_append, List.nil_append]
  · rw [List.append_assoc, List.singleton_append, characters_newline, characters_newline u [],
      characters_nil, List.append_assoc, List.singleton_append]

end Text

/-- Characters are whole lines: there are none, or the last one is a line end. -/
def Character.AreLines (cs : List Character) : Prop :=
  cs = [] ∨ cs.getLast?.map Character.code = some Code.newline

theorem Character.AreLines.of_append {cs ds : List Character} (h : AreLines (cs ++ ds)) :
    AreLines ds := by
  rcases h with h | h
  · exact .inl (List.append_eq_nil_iff.mp h).2
  · cases ds with
    | nil => exact .inl rfl
    | cons d ds =>
      rw [List.getLast?_append_of_ne_nil _ (List.cons_ne_nil d ds)] at h
      exact .inr h

/-- Whole lines decode to whole lines. -/
theorem Text.IsLines.characters {t : Text} (h : t.IsLines) : Character.AreLines t.characters := by
  rcases h.eq_nil_or_append with rfl | ⟨s, rfl⟩
  · exact .inl characters_nil
  · refine .inr ?_
    rw [characters_newline, characters_nil, List.getLast?_append_of_ne_nil _ (by simp)]
    rfl

end XsPrep
