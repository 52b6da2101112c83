import XsPrep.Proofs.Glob.Below
import Mathlib.Data.List.Infix

/-!
# Components in front of a pattern

A component that stands in front of a pattern and of a name is matched with itself, and what is
behind it is matched as if it stood alone (`Component.outcome_text`).  The component may have stars
in it, so the matching can take a long way.

A star first stands for nothing.  So the name lags behind the pattern, and while it does, the
pattern cannot pass the slash at the end of the component, as the slash is the last character of
both.  The matching goes back and the star takes one character more, until nothing lags behind
(`Component.IsOnCourse`).  Then the component and the slash are matched, and the rank of the
matching says that this takes only some number of rounds (`Component.exists_through`).

The mark of the last star is left.  If more is tried from there, then the name is ahead of the
pattern, with no star in front of the slash, and this fails at the slash at the latest
(`Component.run_ahead`).  So the mark does not change how the matching goes on
(`Component.run_leftover`).
-/

namespace XsPrep.Glob

/-! ## Rounds at single characters -/

/-- A `?` or a character without a meaning in patterns stands for a character of a name. -/
def Takes (d e : Character) : Prop :=
  d.code = e.code ∨ (d.code = question.toNat ∧ e.code ≠ Code.slash)

instance (d e : Character) : Decidable (Takes d e) := inferInstanceAs (Decidable (_ ∨ _))

theorem Takes.refl (d : Character) : Takes d d := .inl rfl

theorem takes_of_question {d e : Character} (hd : d.code = question.toNat) :
    Takes d e ↔ e.code ≠ Code.slash := by
  refine ⟨fun h => h.elim (fun hcode => ?_) And.right, fun h => .inr ⟨hd, h⟩⟩
  rw [← hcode, hd]
  decide

theorem takes_of_ne {d e : Character} (hd : d.code ≠ question.toNat) :
    Takes d e ↔ d.code = e.code :=
  or_iff_left fun h => hd h.1

/-- Only a slash stands for a slash. -/
theorem Takes.slash_iff {d e : Character} (h : Takes d e) :
    d.code = Code.slash ↔ e.code = Code.slash := by
  rcases h with hcode | ⟨hquestion, hslash⟩
  · rw [hcode]
  · rw [hquestion]
    exact iff_of_false (by decide) hslash

namespace Matching

variable {m m' : Matching}

theorem run_next (hname : m.name ≠ []) (h : m.round = .next m') (rounds : Nat) :
    run (rounds + 1) m = run rounds m' := by
  have hempty : m.name.isEmpty = false := by simpa using hname
  rw [run, hempty, h]
  rfl

theorem run_done {outcome : Outcome} (hname : m.name ≠ []) (h : m.round = .done outcome)
    (rounds : Nat) : run (rounds + 1) m = outcome := by
  have hempty : m.name.isEmpty = false := by simpa using hname
  rw [run, hempty, h]
  rfl

theorem round_question {n : UInt8} {behind name : Text} (hrest : m.rest = question :: behind)
    (hname : m.name = n :: name) :
    m.round =
      if n = Byte.slash then m.back else .next (m.advance 1 (Character.first n name).2 false) := by
  rw [round.eq_def, hrest, hname]
  exact (if_neg (by decide)).trans (if_pos rfl)

theorem round_literal {b n : UInt8} {behind name : Text} (hrest : m.rest = b :: behind)
    (hname : m.name = n :: name)
    (hb : ∀ x ∈ [Glob.star, question, openClass, openAlternatives, Byte.backslash], b ≠ x) :
    m.round = m.literal 0 (b :: behind) := by
  simp only [List.forall_mem_cons] at hb
  obtain ⟨hstar, hquestion, hclass, halternatives, hbackslash, -⟩ := hb
  rw [round.eq_def, hrest, hname]
  dsimp only
  rw [if_neg hstar, if_neg hquestion, if_neg hclass, if_neg halternatives, if_neg hbackslash]

/-- A round at a `?` or at a character without a meaning. -/
theorem round_character {b n : UInt8} {behind behind' name name' : Text} {d e : Character}
    (hrest : m.rest = b :: behind) (hname : m.name = n :: name)
    (hfirst : Character.first b behind = (d, behind'))
    (hread : Character.first n name = (e, name'))
    (hd : ∀ x ∈ [Glob.star, openClass, openAlternatives, Byte.backslash], d.code ≠ x.toNat) :
    m.round =
      if Takes d e then .next (m.advance d.bytes.length name' (d.code = Code.slash))
      else m.back := by
  have hbyte : ∀ x : UInt8, x < 0x80 → (d.code = x.toNat ↔ b = x) := by
    intro x hx
    rw [← Character.code_first_iff hx behind, hfirst]
  by_cases hquestion : b = question
  · subst hquestion
    obtain ⟨rfl, -⟩ := Prod.mk.inj hfirst
    have hslash : e.code = Code.slash ↔ n = Byte.slash := by
      rw [← Character.code_first_iff (by decide) name, hread]
      rfl
    rw [round_question hrest hname, hread]
    simp only [takes_of_question (d := ⟨question.toNat, [question]⟩) rfl, Ne, hslash, ite_not]
    rfl
  · have hcode := (hbyte question (by decide)).not.mpr hquestion
    have hplain : ∀ x ∈ [Glob.star, question, openClass, openAlternatives, Byte.backslash],
        b ≠ x := by
      simp only [List.forall_mem_cons] at hd ⊢
      obtain ⟨hstar, hclass, halternatives, hbackslash, -⟩ := hd
      exact ⟨(hbyte _ (by decide)).not.mp hstar, hquestion,
        (hbyte _ (by decide)).not.mp hclass, (hbyte _ (by decide)).not.mp halternatives,
        (hbyte _ (by decide)).not.mp hbackslash, nofun⟩
    rw [round_literal hrest hname hplain, literal.eq_def, hname]
    dsimp only
    rw [hfirst, hread, Nat.zero_add]
    simp only [takes_of_ne hcode]

theorem round_star {behind : Text} (hrest : m.rest = Glob.star :: behind) (hname : m.name ≠ []) :
    m.round = m.stars behind := by
  obtain ⟨n, name, hcons⟩ := List.exists_cons_of_ne_nil hname
  rw [round.eq_def, hrest, hcons]
  exact if_pos rfl

/-- Without marks there is nothing to go back to. -/
theorem back_unmarked (hdouble : m.doubleStar = none) (hstar : m.star = none) :
    m.back = .done .failed := by
  rw [back, retry?, hstar]
  simp [retryDoubleStar?, hdouble]

/-- Going back to a star, up to the next slash of the name. -/
theorem back_marked {place : Nat} {n : UInt8} {name : Text} (hdouble : m.doubleStar = none)
    (hstar : m.star = some (place, n :: name)) :
    m.back =
      if n = Byte.slash then .done .failed
      else .next { m with
        place
        name := (Character.first n name).2
        atStart := false
        star := some (place, (Character.first n name).2) } := by
  have hnone : m.retryDoubleStar? = none := by
    rw [retryDoubleStar?, hdouble]
  rw [back, retry?, hstar, hnone]
  dsimp only
  by_cases hslash : n = Byte.slash
  · rw [if_pos hslash, if_pos hslash]
  · rw [if_neg hslash, if_neg hslash]

end Matching

/-! ## Components in front -/

/-- A component that stands in front of a pattern and of a name.  Its characters are kept with the
slash behind them. -/
structure Component where
  /-- The characters. -/
  characters : List Character
  /-- They are read back in front of anything. -/
  readBack : Character.ReadBack characters
  /-- Only the last of them is a slash. -/
  slash_iff : ∀ {d t}, d :: t <:+ characters → (d.code = Code.slash ↔ t = [])
  /-- None of them begins a class or alternatives or takes the meaning from the next one. -/
  plain : ∀ d ∈ characters, ∀ x ∈ [openClass, openAlternatives, Byte.backslash], d.code ≠ x.toNat
  /-- The component is no `**`. -/
  single : characters.map Character.code ≠ [Code.star, Code.star, Code.slash]

/-- Where a matching is in a component.  The lists hold the characters that are left of it. -/
structure Inside where
  /-- Those that are left in the pattern. -/
  pattern : List Character
  /-- Those that are left in the name. -/
  name : List Character
  /-- Whether a component starts here. -/
  atStart : Bool
  /-- Those that are left in pattern and name at the last `*`. -/
  star : Option (List Character × List Character)

namespace Component

open Text (ofCharacters)

variable (c : Component)

/-- The bytes of the component and of the slash. -/
def text : Text := ofCharacters c.characters

/-- The number of bytes in front of what is left. -/
def offset (left : List Character) : Nat := c.text.length - (ofCharacters left).length

/-- The mark at which something is left of the component in the pattern and in the name. -/
def mark (name : Text) (left : List Character × List Character) : Mark :=
  (c.offset left.1, ofCharacters left.2 ++ name)

/-- The matching of the component with itself, in front of a pattern and a name. -/
def matching (pattern name : Text) (s : Inside) : Matching where
  pattern := c.text ++ pattern
  place := c.offset s.pattern
  name := ofCharacters s.name ++ name
  atStart := s.atStart
  star := s.star.map (c.mark name)
  doubleStar := none

variable {c} {d e : Character} {t u : List Character} (pattern name : Text)

theorem offset_cons (h : d :: t <:+ c.characters) :
    c.offset (d :: t) + d.bytes.length = c.offset t := by
  obtain ⟨front, hfront⟩ := h
  simp only [offset, text, ← hfront, ofCharacters, List.flatMap_append, List.flatMap_cons,
    List.length_append]
  omega

theorem drop_offset (h : t <:+ c.characters) :
    (c.text ++ pattern).drop (c.offset t) = ofCharacters t ++ pattern := by
  obtain ⟨front, hfront⟩ := h
  rw [offset, text, ← hfront, Text.ofCharacters_append, List.length_append, Nat.add_sub_cancel,
    List.append_assoc, List.drop_left]

theorem rest_matching {s : Inside} (h : s.pattern <:+ c.characters) :
    (c.matching pattern name s).rest = ofCharacters s.pattern ++ pattern :=
  drop_offset pattern h

/-- The first character of what is left, as bytes. -/
theorem first_of_suffix (h : d :: t <:+ c.characters) (behind : Text) :
    ∃ b rest, ofCharacters (d :: t) ++ behind = b :: rest ∧
      Character.first b rest = (d, ofCharacters t ++ behind) :=
  (c.readBack.suffix h).first behind

theorem ofCharacters_append_ne_nil (h : t <:+ c.characters) (ht : t ≠ []) (behind : Text) :
    ofCharacters t ++ behind ≠ [] := by
  obtain ⟨d, t, rfl⟩ := List.exists_cons_of_ne_nil ht
  obtain ⟨b, rest, htext, -⟩ := first_of_suffix h behind
  rw [htext]
  exact List.cons_ne_nil b rest

variable {atStart : Bool} {star : Option (List Character × List Character)}

/-- A round at a character that is no `*`. -/
theorem round_character (ht : d :: t <:+ c.characters) (hu : e :: u <:+ c.characters)
    (hd : d.code ≠ Code.star) :
    (c.matching pattern name ⟨d :: t, e :: u, atStart, star⟩).round =
      if Takes d e then .next (c.matching pattern name ⟨t, u, d.code = Code.slash, star⟩)
      else (c.matching pattern name ⟨d :: t, e :: u, atStart, star⟩).back := by
  obtain ⟨b, behind, hpattern, hfirst⟩ := first_of_suffix ht pattern
  obtain ⟨n, rest, hname, hread⟩ := first_of_suffix hu name
  have hplain : ∀ x ∈ [Glob.star, openClass, openAlternatives, Byte.backslash],
      d.code ≠ x.toNat := by
    rw [List.forall_mem_cons]
    exact ⟨hd, c.plain d (ht.subset List.mem_cons_self)⟩
  have hround := Matching.round_character
    (m := c.matching pattern name ⟨d :: t, e :: u, atStart, star⟩)
    ((rest_matching pattern name ht).trans hpattern) hname hfirst hread hplain
  rw [hround, Matching.advance, matching, matching, offset_cons ht]

/-- A byte below `0x80` is next exactly if its character is. -/
theorem head?_of_suffix (h : d :: t <:+ c.characters) {x : UInt8} (hx : x < 0x80) (behind : Text) :
    (ofCharacters (d :: t) ++ behind).head? = some x ↔ d.code = x.toNat := by
  obtain ⟨b, rest, htext, hfirst⟩ := first_of_suffix h behind
  have hcode := Character.code_first_iff (a := b) hx rest
  rw [hfirst] at hcode
  rw [htext, List.head?_cons, Option.some_inj]
  exact hcode.symm

/-- A `*` of the component is a single byte, and something is behind it. -/
theorem star_of_suffix (h : d :: t <:+ c.characters) (hd : d.code = Code.star) :
    ofCharacters (d :: t) = Glob.star :: ofCharacters t ∧
      c.offset (d :: t) + 1 = c.offset t ∧ t ≠ [] := by
  obtain ⟨b, rest, -, hfirst⟩ := first_of_suffix h []
  have hspelled : d.Spelled := (Prod.mk.inj hfirst).1 ▸ Character.spelled_first b rest
  have hbytes : d.bytes = [Glob.star] := hspelled.bytes_of_ascii (by decide) hd
  refine ⟨?_, ?_, ?_⟩
  · rw [ofCharacters, List.flatMap_cons, hbytes]
    rfl
  · rw [← offset_cons h, hbytes]
    rfl
  · rw [Ne, ← c.slash_iff h, hd]
    decide

theorem markStar_matching (left : List Character) :
    (c.matching pattern name ⟨t, u, atStart, star⟩).markStar (c.offset left) =
      c.matching pattern name ⟨left, u, false, some (left, u)⟩ := rfl

/-- Behind two stars that begin the component stands no slash. -/
theorem head?_behind_stars (h : d :: e :: t = c.characters) (hd : d.code = Code.star)
    (he : e.code = Code.star) (ht : t ≠ []) :
    (ofCharacters t ++ pattern).head? ≠ some Byte.slash := by
  obtain ⟨f, t, rfl⟩ := List.exists_cons_of_ne_nil ht
  have hsuffix : f :: t <:+ c.characters := ⟨[d, e], h⟩
  intro hslash
  have hf : f.code = Code.slash := (head?_of_suffix hsuffix (by decide) pattern).mp hslash
  obtain rfl := (c.slash_iff hsuffix).mp hf
  refine c.single ?_
  rw [← h, List.map_cons, List.map_cons, List.map_cons, hd, he, hf, List.map_nil]

/-- A round at a `*`, or at two of them, sets a mark for what is left behind. -/
theorem round_star (ht : d :: t <:+ c.characters) (hu : u <:+ c.characters) (hne : u ≠ [])
    (hd : d.code = Code.star) (hstart : atStart = true → d :: t = c.characters) :
    ∃ left, left <:+ t ∧ left ≠ [] ∧
      (c.matching pattern name ⟨d :: t, u, atStart, star⟩).round =
        .next (c.matching pattern name ⟨left, u, false, some (left, u)⟩) := by
  obtain ⟨hfirst, hplace, hrest⟩ := star_of_suffix ht hd
  have hround : (c.matching pattern name ⟨d :: t, u, atStart, star⟩).round =
      (c.matching pattern name ⟨d :: t, u, atStart, star⟩).stars (ofCharacters t ++ pattern) := by
    refine Matching.round_star ?_ (ofCharacters_append_ne_nil hu hne name)
    rw [rest_matching pattern name ht, hfirst]
    rfl
  have htail : t <:+ c.characters := (List.suffix_cons d t).trans ht
  obtain ⟨f, v, rfl⟩ := List.exists_cons_of_ne_nil hrest
  by_cases hf : f.code = Code.star
  · obtain ⟨hsecond, hplace', hv⟩ := star_of_suffix htail hf
    have hlast : v <:+ c.characters := (List.suffix_cons f v).trans htail
    -- The two stars are not the whole component, so they are read as one.
    have hinner : ¬(atStart = true ∧ (ofCharacters v ++ pattern).head? = some Byte.slash) :=
      fun hwhole => head?_behind_stars pattern (hstart hwhole.1) hd hf hv hwhole.2
    have hmore : ¬(atStart = true ∧ (ofCharacters v ++ pattern).isEmpty = true) :=
      fun hend => ofCharacters_append_ne_nil hlast hv pattern (List.isEmpty_iff.mp hend.2)
    refine ⟨v, List.suffix_cons f v, hv, ?_⟩
    rw [hround, Matching.stars, hsecond, ← markStar_matching, ← hplace', ← hplace]
    exact (if_pos rfl).trans ((if_neg hmore).trans (if_neg hinner))
  · have hsecond : (ofCharacters (f :: v) ++ pattern).head? ≠ some Glob.star :=
      (head?_of_suffix htail (by decide) pattern).not.mpr hf
    refine ⟨f :: v, List.suffix_refl _, hrest, ?_⟩
    rw [hround, Matching.stars, if_neg hsecond, ← markStar_matching, ← hplace]
    rfl

/-- Going back to a `*`. -/
theorem back_marked {m : Matching} (hu : e :: u <:+ c.characters)
    (hpattern : m.pattern = c.text ++ pattern) (hdouble : m.doubleStar = none)
    (hstar : m.star = some (c.mark name (t, e :: u))) :
    m.back =
      if u = [] then .done .failed
      else .next (c.matching pattern name ⟨t, u, false, some (t, u)⟩) := by
  obtain ⟨n, rest, hname, hread⟩ := first_of_suffix hu name
  have hslash : n = Byte.slash ↔ u = [] := by
    rw [← Character.code_first_iff (by decide) rest, hread]
    exact c.slash_iff hu
  rw [mark, hname] at hstar
  rw [Matching.back_marked hdouble hstar, hread, hpattern, hdouble]
  simp only [hslash]
  rfl

/-! ## A name ahead of its pattern -/

/-- Something of the component is left, and no star is in it. -/
structure IsLast (c : Component) (t : List Character) : Prop where
  suffix : t <:+ c.characters
  ne_nil : t ≠ []
  starless : ∀ d ∈ t, d.code ≠ Code.star

/-- Without more stars, `t` is left of the component in the pattern and less of it in the name. -/
structure IsAhead (c : Component) (t u : List Character) : Prop extends c.IsLast t where
  shorter : u <:+ t
  ne : u ≠ t
  name_ne : u ≠ []

namespace IsAhead

theorem of_isLast (h : c.IsLast (e :: u)) (hu : u ≠ []) : c.IsAhead (e :: u) u :=
  ⟨h, List.suffix_cons e u, List.ne_cons_self, hu⟩

/-- It is further ahead when the star takes a character more. -/
theorem drop (h : c.IsAhead t (e :: u)) (hu : u ≠ []) : c.IsAhead t u := by
  refine ⟨h.toIsLast, (List.suffix_cons e u).trans h.shorter, ?_, hu⟩
  rintro rfl
  exact absurd h.shorter.length_le (by simp)

theorem tail (h : c.IsAhead (d :: t) u) : u <:+ t := by
  rcases List.suffix_cons_iff.mp h.shorter with hsame | hshorter
  · exact absurd hsame h.ne
  · exact hshorter

/-- The next character of the pattern is no slash. -/
theorem inner (h : c.IsAhead (d :: t) u) : d.code ≠ Code.slash := by
  rw [Ne, c.slash_iff h.suffix]
  rintro rfl
  exact h.name_ne (List.suffix_nil.mp h.tail)

/-- It stays ahead when a character is taken. -/
theorem advance (h : c.IsAhead (d :: t) (e :: u)) (htakes : Takes d e) : c.IsAhead t u where
  suffix := (List.suffix_cons d t).trans h.suffix
  ne_nil := by
    rintro rfl
    exact List.cons_ne_nil e u (List.suffix_nil.mp h.tail)
  starless := fun f hf => h.starless f (List.mem_cons_of_mem d hf)
  shorter := (List.suffix_cons e u).trans h.tail
  ne := by
    rintro rfl
    exact absurd h.tail.length_le (by simp)
  name_ne := by
    rw [Ne, ← c.slash_iff (h.shorter.trans h.suffix), ← htakes.slash_iff]
    exact h.inner

end IsAhead

/-- A name that is ahead stays ahead until it fails at the slash. -/
theorem run_ahead {s : Inside} (h : c.IsAhead s.pattern s.name) (hstar : s.star = some (t, u))
    (hmark : c.IsAhead t u) (rounds : Nat) :
    Matching.run rounds (c.matching pattern name s) = .failed := by
  induction rounds generalizing s u with
  | zero => rfl
  | succ rounds ih =>
    obtain ⟨left, read, atStart, star⟩ := s
    dsimp only at h hstar
    obtain rfl := hstar
    have hread := h.shorter.trans h.suffix
    have hname := ofCharacters_append_ne_nil hread h.name_ne name
    obtain ⟨d, left, rfl⟩ := List.exists_cons_of_ne_nil h.ne_nil
    obtain ⟨e, read, rfl⟩ := List.exists_cons_of_ne_nil h.name_ne
    have hround : (c.matching pattern name
        ⟨d :: left, e :: read, atStart, some (t, u)⟩).round = _ :=
      round_character pattern name h.suffix hread (h.starless d List.mem_cons_self)
    by_cases htakes : Takes d e
    · rw [if_pos htakes] at hround
      rw [Matching.run_next hname hround]
      exact ih (h.advance htakes) rfl hmark
    · obtain ⟨f, u, rfl⟩ := List.exists_cons_of_ne_nil hmark.name_ne
      rw [if_neg htakes,
        back_marked pattern name (hmark.shorter.trans hmark.suffix) rfl rfl rfl] at hround
      by_cases hend : u = []
      · rw [if_pos hend] at hround
        exact Matching.run_done hname hround rounds
      · rw [if_neg hend] at hround
        rw [Matching.run_next hname hround]
        exact ih (hmark.drop hend) rfl (hmark.drop hend)

/-! ## The mark that is left behind a component -/

/-- Nothing is found by going back to the last star. -/
theorem IsLast.back {m : Matching} (h : c.IsLast t) (hpattern : m.pattern = c.text ++ pattern)
    (hdouble : m.doubleStar = none) (hstar : m.star = some (c.mark name (t, t))) :
    m.back = .done .failed ∨
      ∃ m', m.back = .next m' ∧ ∀ rounds, Matching.run rounds m' = .failed := by
  obtain ⟨e, t, rfl⟩ := List.exists_cons_of_ne_nil h.ne_nil
  rw [back_marked pattern name h.suffix hpattern hdouble hstar]
  by_cases hend : t = []
  · rw [if_pos hend]
    exact .inl rfl
  · have hahead := IsAhead.of_isLast h hend
    rw [if_neg hend]
    exact .inr ⟨_, rfl, run_ahead pattern name hahead rfl hahead⟩

/-- A matching behind the component, with the mark of the last star that is in it. -/
def leftover (c : Component) (name : Text) (t : List Character) (m : Matching) : Matching :=
  { m.below c.text with star := some (c.mark name (t, t)) }

theorem abreast_leftover (m : Matching) : m.Abreast (c.leftover name t m) :=
  ⟨Matching.rest_below c.text m, rfl, rfl⟩

theorem advance_leftover (m : Matching) (width : Nat) (rest : Text) (atStart : Bool) :
    (c.leftover name t m).advance width rest atStart =
      c.leftover name t (m.advance width rest atStart) :=
  congrArg (fun m : Matching => { m with star := some (c.mark name (t, t)) })
    (Matching.advance_below c.text m width rest atStart)

theorem choose_leftover (m : Matching) (choice rest : Text) :
    (c.leftover name t m).choose choice rest = c.leftover name t (m.choose choice rest) :=
  congrArg (fun m : Matching => { m with star := some (c.mark name (t, t)) })
    (Matching.choose_below c.text m choice rest)

/-- Behind the component, the mark that is left of it does not change how a matching ends. -/
theorem run_leftover (h : c.IsLast t) {m : Matching} (hstar : m.star = none)
    (hdouble : m.doubleStar = none) (rounds : Nat) :
    Matching.run rounds (c.leftover name t m) = Matching.run rounds m := by
  induction rounds generalizing m with
  | zero => rfl
  | succ rounds ih =>
    have habreast := abreast_leftover (c := c) (t := t) name m
    have hturn := habreast.round
    have hfailed := Matching.back_unmarked hdouble hstar
    have hback := h.back m.pattern name (m := c.leftover name t m) rfl
      (by rw [leftover, Matching.below, hdouble]; rfl) rfl
    rw [Matching.run, Matching.run, habreast.rest, habreast.name]
    split
    · rfl
    · generalize m.round = round, (c.leftover name t m).round = round' at hturn ⊢
      cases hturn with
      | back =>
        rw [hfailed]
        rcases hback with hend | ⟨m', hnext, hrun⟩
        · rw [hend]
        · rw [hnext]
          exact hrun rounds
      | done outcome => rfl
      | advance width rest atStart =>
        rw [advance_leftover]
        exact ih hstar hdouble
      | markStar width =>
        -- A new mark takes the place of the one that is left.
        exact (congrArg (Matching.run rounds) (Matching.markStar_below c.text m width)).trans
          (Matching.run_below c.text _ rounds)
      | markDoubleStar width =>
        exact (congrArg (Matching.run rounds) (Matching.markDoubleStar_below c.text m width)).trans
          (Matching.run_below c.text _ rounds)
      | choose choices rest =>
        simp only [List.foldl_map, choose_leftover]
        refine List.foldl_ext _ _ _ fun outcome choice _ => ?_
        rw [ih (m := m.choose choice rest) hstar hdouble]

/-! ## The way through a component -/

/-- The mark at which `t` is left of the component in the pattern and `u` in the name.  From there
on no star was met, and the name lags behind the pattern as much as it does now. -/
structure IsMarked (s : Inside) (t u : List Character) : Prop where
  ne_nil : t ≠ []
  suffix : t <:+ u
  passed : ∃ front, t = front ++ s.pattern ∧ ∀ d ∈ front, d.code ≠ Code.star
  lag : u.length + s.pattern.length = s.name.length + t.length

/-- A matching on its way through the component.  The name is where the pattern is, or it lags
behind since the last star. -/
structure IsOnCourse (c : Component) (s : Inside) : Prop where
  name : s.name <:+ c.characters
  pattern : s.pattern <:+ s.name
  atStart : s.atStart = true → s.pattern = c.characters ∨ s.pattern = []
  through : s.pattern = [] → s.name = [] ∧ s.atStart = true
  level : s.star = none → s.pattern = s.name
  marked : ∀ t u, s.star = some (t, u) → u <:+ c.characters ∧ IsMarked s t u

namespace IsOnCourse

variable {s : Inside}

/-- At a star the mark is moved. -/
theorem markStar (h : c.IsOnCourse s) (ht : t <:+ s.pattern) (hne : t ≠ []) :
    c.IsOnCourse ⟨t, s.name, false, some (t, s.name)⟩ where
  name := h.name
  pattern := ht.trans h.pattern
  atStart := nofun
  through := fun hnil => absurd hnil hne
  level := nofun
  marked := by
    rintro _ _ ⟨⟩
    exact ⟨h.name, hne, ht.trans h.pattern, ⟨[], rfl, nofun⟩, rfl⟩

/-- A star takes one character more. -/
theorem retry (h : c.IsOnCourse s) (hmark : s.star = some (t, e :: u)) (hne : t ≠ e :: u) :
    c.IsOnCourse ⟨t, u, false, some (t, u)⟩ := by
  obtain ⟨hu, hmarked⟩ := h.marked t _ hmark
  have hsuffix : t <:+ u := (List.suffix_cons_iff.mp hmarked.suffix).resolve_left hne
  have hread := (List.suffix_cons e u).trans hu
  exact {
    name := hread
    pattern := hsuffix
    atStart := nofun
    through := fun hnil => absurd hnil hmarked.ne_nil
    level := nofun
    marked := by
      rintro _ _ ⟨⟩
      exact ⟨hread, hmarked.ne_nil, hsuffix, ⟨[], rfl, nofun⟩, rfl⟩ }

/-- A character is taken. -/
theorem advance (h : c.IsOnCourse s) (hpattern : s.pattern = d :: t) (hname : s.name = e :: u)
    (hd : d.code ≠ Code.star) (htakes : Takes d e) :
    c.IsOnCourse ⟨t, u, d.code = Code.slash, s.star⟩ := by
  have hread : e :: u <:+ c.characters := hname ▸ h.name
  have hleft : d :: t <:+ e :: u := hpattern ▸ hname ▸ h.pattern
  have hend : t = [] ↔ d.code = Code.slash := (c.slash_iff (hleft.trans hread)).symm
  exact {
    name := (List.suffix_cons e u).trans hread
    pattern := by
      rcases List.suffix_cons_iff.mp hleft with hsame | hshorter
      · rw [(List.cons.inj hsame).2]
      · exact (List.suffix_cons d t).trans hshorter
    atStart := fun hslash => .inr (hend.mpr (of_decide_eq_true hslash))
    through := fun hnil =>
      ⟨(c.slash_iff hread).mp (htakes.slash_iff.mp (hend.mp hnil)), decide_eq_true (hend.mp hnil)⟩
    level := by
      intro hstar
      have hsame := h.level hstar
      rw [hpattern, hname] at hsame
      exact (List.cons.inj hsame).2
    marked := by
      intro t' u' hstar
      obtain ⟨hu', hmarked⟩ := h.marked t' u' hstar
      obtain ⟨front, hfront, hstarless⟩ := hmarked.passed
      have hlag := hmarked.lag
      rw [hpattern, hname, List.length_cons, List.length_cons] at hlag
      refine ⟨hu', hmarked.ne_nil, hmarked.suffix, ⟨front ++ [d], ?_, ?_⟩, ?_⟩
      · rw [hfront, hpattern, List.append_cons]
      · intro f hf
        rcases List.mem_append.mp hf with hf | hf
        · exact hstarless f hf
        · rwa [List.mem_singleton.mp hf]
      · dsimp only
        omega }

/-- If the next characters differ, then the name lags behind, and a star can take more of it. -/
theorem exists_mark (h : c.IsOnCourse s) (hne : s.pattern ≠ s.name) :
    ∃ t e u, s.star = some (t, e :: u) ∧ t ≠ e :: u ∧ e :: u <:+ c.characters ∧ u ≠ [] := by
  cases hstar : s.star with
  | none => exact absurd (h.level hstar) hne
  | some left =>
    obtain ⟨t, u⟩ := left
    obtain ⟨hu, hmarked⟩ := h.marked t u hstar
    have hlonger : t ≠ u := by
      rintro rfl
      have hlength := Nat.add_left_cancel (hmarked.lag.trans (Nat.add_comm _ _))
      exact hne (h.pattern.eq_of_length hlength)
    cases u with
    | nil => exact absurd (List.suffix_nil.mp hmarked.suffix) hmarked.ne_nil
    | cons e u =>
      refine ⟨t, e, u, rfl, hlonger, hu, ?_⟩
      rintro rfl
      rcases List.suffix_cons_iff.mp hmarked.suffix with hsame | hnil
      · exact hlonger hsame
      · exact hmarked.ne_nil (List.suffix_nil.mp hnil)

/-- A round leads on, until the component is matched. -/
theorem step (h : c.IsOnCourse s) (hne : s.pattern ≠ []) :
    ∃ s', (c.matching pattern name s).round = .next (c.matching pattern name s') ∧
      c.IsOnCourse s' := by
  obtain ⟨left, read, atStart, star⟩ := s
  obtain ⟨d, t, rfl⟩ := List.exists_cons_of_ne_nil hne
  have ht : d :: t <:+ c.characters := h.pattern.trans h.name
  obtain ⟨e, u, rfl⟩ : ∃ e u, read = e :: u :=
    List.exists_cons_of_ne_nil fun hnil => hne (List.suffix_nil.mp (hnil ▸ h.pattern))
  by_cases hd : d.code = Code.star
  · obtain ⟨left, hleft, hleftne, hround⟩ := round_star pattern name ht h.name
      (List.cons_ne_nil e u) hd fun hstart => (h.atStart hstart).resolve_right hne
    exact ⟨_, hround, h.markStar (hleft.trans (List.suffix_cons d t)) hleftne⟩
  have hround : (c.matching pattern name ⟨d :: t, e :: u, atStart, star⟩).round = _ :=
    round_character pattern name ht h.name hd
  by_cases htakes : Takes d e
  · rw [if_pos htakes] at hround
    exact ⟨_, hround, h.advance rfl rfl hd htakes⟩
  · have hdiffer : d :: t ≠ e :: u := fun hsame => htakes ((List.cons.inj hsame).1 ▸ Takes.refl d)
    obtain ⟨t', e', u', hstar, hlonger, hu', hmore⟩ := h.exists_mark hdiffer
    dsimp only at hstar
    rw [if_neg htakes, back_marked pattern name hu' rfl rfl (congrArg (Option.map _) hstar),
      if_neg hmore] at hround
    exact ⟨_, hround, h.retry hstar hlonger⟩

/-- At the end of the component, the mark is one for which nothing lags behind. -/
theorem isLast (h : c.IsOnCourse s) (hend : s.pattern = []) (hstar : s.star = some (t, u)) :
    t = u ∧ c.IsLast t := by
  obtain ⟨hu, hmarked⟩ := h.marked t u hstar
  obtain ⟨front, hfront, hstarless⟩ := hmarked.passed
  have hlag := hmarked.lag
  rw [hend, (h.through hend).1, List.length_nil, Nat.add_zero, Nat.zero_add] at hlag
  rw [hend, List.append_nil] at hfront
  have hsame := hmarked.suffix.eq_of_length hlag.symm
  exact ⟨hsame, hsame ▸ hu, hmarked.ne_nil, hfront ▸ hstarless⟩

end IsOnCourse

/-- The matching of the component with itself comes to its end, and leaves no mark but one from
which nothing is found. -/
theorem exists_through {places ends : Nat} {s : Inside} (h : c.IsOnCourse s)
    (horder : (c.matching pattern name s).InOrder places ends) :
    ∃ (more : Nat) (star : Option (List Character × List Character)),
      (∀ t u, star = some (t, u) → t = u ∧ c.IsLast t) ∧
      ∀ rounds, Matching.run (rounds + more) (c.matching pattern name s) =
        Matching.run rounds (c.matching pattern name ⟨[], [], true, star⟩) := by
  induction hrank : (c.matching pattern name s).rank places ends using Nat.strongRecOn
    generalizing s with
  | _ rank ih =>
    by_cases hend : s.pattern = []
    · obtain ⟨left, read, atStart, star⟩ := s
      obtain ⟨rfl, rfl⟩ := h.through hend
      obtain rfl := hend
      exact ⟨0, star, fun t u hstar => h.isLast rfl hstar, fun rounds => rfl⟩
    · obtain ⟨s', hround, h'⟩ := h.step pattern name hend
      have hmove : (c.matching pattern name s).Move (c.matching pattern name s') :=
        Matching.move_of_mem_round (by rw [hround]; exact List.mem_singleton_self _)
      obtain ⟨more, star, hstar, hrun⟩ := ih _ (hrank ▸ hmove.rank_lt horder) h'
        (hmove.inOrder horder) rfl
      refine ⟨more + 1, star, hstar, fun rounds => ?_⟩
      have hname : (c.matching pattern name s).name ≠ [] :=
        ofCharacters_append_ne_nil h.name
          (fun hnil => hend (List.suffix_nil.mp (hnil ▸ h.pattern))) name
      rw [← Nat.add_assoc, Matching.run_next hname hround]
      exact hrun rounds

theorem isOnCourse_start (c : Component) :
    c.IsOnCourse ⟨c.characters, c.characters, true, none⟩ where
  name := List.suffix_refl _
  pattern := List.suffix_refl _
  atStart := fun _ => .inl rfl
  through := fun hnil => ⟨hnil, rfl⟩
  level := fun _ => rfl
  marked := nofun

theorem matching_start (c : Component) (pattern name : Text) :
    c.matching pattern name ⟨c.characters, c.characters, true, none⟩ =
      Matching.start (c.text ++ pattern) (c.text ++ name) true := by
  rw [matching, offset, ← text, Nat.sub_self]
  rfl

/-- Behind the component, a matching ends as one that starts there. -/
theorem run_through {star : Option (List Character × List Character)}
    (h : ∀ t u, star = some (t, u) → t = u ∧ c.IsLast t) (rounds : Nat) :
    Matching.run rounds (c.matching pattern name ⟨[], [], true, star⟩) =
      Matching.run rounds (Matching.start pattern name true) := by
  cases star with
  | none => exact Matching.run_below c.text (Matching.start pattern name true) rounds
  | some left =>
    obtain ⟨t, u⟩ := left
    obtain ⟨rfl, hlast⟩ := h t u rfl
    exact run_leftover name hlast (m := Matching.start pattern name true) rfl rfl rounds

/-- A component in front of pattern and name does not change the outcome. -/
theorem outcome_text (c : Component) (pattern name : Text) :
    outcome (c.text ++ pattern) (c.text ++ name) = outcome pattern name := by
  have horder := Matching.inOrder_start (c.text ++ pattern) (c.text ++ name) true
  rw [← matching_start] at horder
  obtain ⟨more, star, hstar, hrun⟩ := exists_through pattern name c.isOnCourse_start horder
  let rounds := Matching.roundLimit pattern name +
    Matching.roundLimit (c.text ++ pattern) (c.text ++ name)
  calc outcome (c.text ++ pattern) (c.text ++ name)
      = Matching.run (rounds + more)
          (c.matching pattern name ⟨c.characters, c.characters, true, none⟩) := by
        rw [matching_start]
        exact (run_start (Nat.le_add_right_of_le (Nat.le_add_left _ _))).symm
    _ = Matching.run rounds (c.matching pattern name ⟨[], [], true, star⟩) := hrun rounds
    _ = Matching.run rounds (Matching.start pattern name true) :=
        run_through pattern name hstar rounds
    _ = outcome pattern name := run_start (Nat.le_add_right _ _)

end Component

end XsPrep.Glob
