import XsPrep.Glob.Match
import XsPrep.Proofs.Files.Addresses
import XsPrep.Proofs.Text.Decoding

/-!
# The rounds of a matching

A matching is run for a limited number of rounds, and the limit is never what ends it: with more
rounds the outcome is the same (`run_start`).

A round that does not end the matching moves it on in one of six ways (`Move`).  No place that a
move goes to is in front of a mark that stays, and no name is longer than at such a mark
(`InOrder`).  So a move shortens the name at a mark, or sets a mark further on, or goes forward in
the pattern, or shortens the pattern.  The rank of a matching counts this down (`Move.rank_lt`).
-/

namespace XsPrep.Glob

/-! ## Alternatives -/

theorem rest_length_of_alternativesFrom {depth : Nat} {read : Text} {done choices : List Text}
    {t rest : Text} (h : alternativesFrom depth read done t = some (choices, rest)) :
    rest.length < t.length := by
  fun_induction alternativesFrom depth read done t generalizing choices rest with
  | case1 => cases h
  | case2 => cases h
  | case3 depth read done c t ih => exact Nat.lt_succ_of_lt (Nat.lt_succ_of_lt (ih h))
  | case5 read done t hbackslash hopen =>
    rw [(Prod.mk.inj (Option.some.inj h)).2]
    exact Nat.lt_succ_self _
  | case4 depth read done t hbackslash ih
  | case6 read done t depth hbackslash hopen ih
  | case7 depth read done b t hb hopen hclose hcomma ih
  | case8 depth read done b t hb hopen hclose hcomma ih => exact Nat.lt_succ_of_lt (ih h)

/-- An alternative and what stands behind all of them are shorter than what they are read from. -/
theorem length_of_mem_alternativesFrom {depth : Nat} {read : Text} {done choices : List Text}
    {t rest choice : Text} (h : alternativesFrom depth read done t = some (choices, rest))
    (hmem : choice ∈ choices) :
    choice ∈ done ∨ choice.length + rest.length < read.length + t.length := by
  fun_induction alternativesFrom depth read done t generalizing choices rest with
  | case1 => cases h
  | case2 => cases h
  | case3 depth read done c t ih =>
    refine (ih h hmem).imp_right fun hlength => ?_
    simp only [List.length_cons] at hlength ⊢
    omega
  | case5 read done t hbackslash hopen =>
    obtain ⟨rfl, rfl⟩ := Prod.mk.inj (Option.some.inj h)
    rw [List.mem_reverse, List.mem_cons] at hmem
    refine hmem.symm.imp_right fun heq => ?_
    rw [heq, List.length_reverse, List.length_cons]
    omega
  | case7 depth read done b t hb hopen hclose hcomma ih =>
    have hrest := rest_length_of_alternativesFrom h
    rcases ih h hmem with hdone | hlength
    · refine (List.mem_cons.mp hdone).symm.imp_right fun heq => ?_
      rw [heq, List.length_reverse, List.length_cons]
      omega
    · right
      simp only [List.length_cons, List.length_nil] at hlength ⊢
      omega
  | case4 depth read done t hbackslash ih
  | case6 read done t depth hbackslash hopen ih
  | case8 depth read done b t hb hopen hclose hcomma ih =>
    refine (ih h hmem).imp_right fun hlength => ?_
    simp only [List.length_cons] at hlength ⊢
    omega

theorem length_of_mem_alternatives {t rest choice : Text} {choices : List Text}
    (h : alternatives? t = some (choices, rest)) (hmem : choice ∈ choices) :
    choice.length + rest.length < t.length := by
  rcases length_of_mem_alternativesFrom h hmem with hnil | hlength
  · cases hnil
  · simpa using hlength

namespace Matching

/-! ## Moves -/

/-- What one round can do if it does not end the matching. -/
inductive Move (m : Matching) : Matching → Prop where
  /-- Some of the pattern fits the first character of the name. -/
  | advance {width : Nat} {name : Text} {atStart : Bool} (hplace : m.place < m.pattern.length)
      (hwidth : 0 < width) (hname : name.length ≤ m.name.length) :
      Move m (m.advance width name atStart)
  /-- A `*` is met. -/
  | markStar {place : Nat} (hplace : m.place < m.pattern.length) (hmark : m.place < place) :
      Move m (m.markStar place)
  /-- A `**` is met. -/
  | markDoubleStar {place : Nat} (hplace : m.place < m.pattern.length) (hmark : m.place < place) :
      Move m (m.markDoubleStar place)
  /-- The last `*` takes more of the name. -/
  | retryStar {place : Nat} {before name : Text} (hmark : m.star = some (place, before))
      (hname : name.length < before.length) :
      Move m { m with place, name, atStart := false, star := some (place, name) }
  /-- The last `**` takes more of the name. -/
  | retryDoubleStar {place : Nat} {before name : Text}
      (hmark : m.doubleStar = some (place, before)) (hname : name.length < before.length) :
      Move m { m with place, name, atStart := true, star := none, doubleStar := some (place, name) }
  /-- A brace is replaced by one of its alternatives. -/
  | choose {choice rest : Text}
      (hpattern : m.place + choice.length + rest.length < m.pattern.length) :
      Move m (m.choose choice rest)

/-- The matchings that a round goes on with. -/
def Round.successors : Round → List Matching
  | .done _ => []
  | .next m => [m]
  | .choice ms => ms

variable {m m' : Matching}

theorem behindSlash?_length {name rest : Text} (h : behindSlash? name = some rest) :
    rest.length < name.length := by
  rw [behindSlash?] at h
  rcases Text.cut_cases Byte.slash name with hcut | ⟨before, after, hcut, hname⟩
  · rw [hcut] at h
    cases h
  · rw [hcut] at h
    obtain rfl : after = rest := Option.some.inj h
    rw [hname, List.length_append, List.length_cons]
    omega

theorem move_of_retryDoubleStar? (h : m.retryDoubleStar? = some m') : Move m m' := by
  rw [retryDoubleStar?] at h
  split at h
  · cases h
  · rename_i place name hmark
    obtain ⟨rest, hrest, rfl⟩ := Option.map_eq_some_iff.mp h
    exact .retryDoubleStar hmark (behindSlash?_length hrest)

theorem move_of_retry? (h : m.retry? = some m') : Move m m' := by
  unfold retry? at h
  split at h
  · rename_i place b name hmark
    split at h
    · exact move_of_retryDoubleStar? h
    · obtain rfl := Option.some.inj h
      exact .retryStar hmark (Nat.lt_succ_of_le (Character.first_rest_length b name))
  · exact move_of_retryDoubleStar? h

theorem move_of_mem_back (h : m' ∈ m.back.successors) : Move m m' := by
  rw [back] at h
  split at h
  · rename_i next hretry
    rw [List.mem_singleton.mp h]
    exact move_of_retry? hretry
  · cases h

theorem move_of_mem_literal {skipped : Nat} {pattern : Text}
    (hplace : m.place < m.pattern.length) (h : m' ∈ (m.literal skipped pattern).successors) :
    Move m m' := by
  rw [literal.eq_def] at h
  split at h
  · rename_i p pattern n name hname
    dsimp only at h
    split at h
    · rw [List.mem_singleton.mp h]
      refine .advance hplace ?_ ?_
      · have hbytes := List.length_pos_iff.mpr (Text.first_bytes_ne_nil p pattern)
        omega
      · rw [hname]
        exact Nat.le_succ_of_le (Character.first_rest_length n name)
    · exact move_of_mem_back h
  · cases h
  · cases h

theorem move_of_mem_stars {behind : Text} (hplace : m.place < m.pattern.length)
    (h : m' ∈ (m.stars behind).successors) : Move m m' := by
  rw [stars] at h
  split at h
  · dsimp only at h
    split at h
    · cases h
    · split at h
      · rw [List.mem_singleton.mp h]
        exact .markDoubleStar hplace (by omega)
      · rw [List.mem_singleton.mp h]
        exact .markStar hplace (by omega)
  · rw [List.mem_singleton.mp h]
    exact .markStar hplace (by omega)

theorem length_of_rest {p : UInt8} {behind : Text} (h : m.rest = p :: behind) :
    m.pattern.length = m.place + behind.length + 1 := by
  have hlength := congrArg List.length h
  rw [rest, List.length_drop, List.length_cons] at hlength
  omega

/-- Whatever a round goes on with is a move away. -/
theorem move_of_mem_round (h : m' ∈ m.round.successors) : Move m m' := by
  rw [round.eq_def] at h
  split at h
  · exact move_of_mem_back h
  · cases h
  · rename_i p behind n name hrest hname
    have hlength := length_of_rest hrest
    have hplace : m.place < m.pattern.length := by omega
    have hfirst : (Character.first n name).2.length ≤ m.name.length := by
      rw [hname]
      exact Nat.le_succ_of_le (Character.first_rest_length n name)
    dsimp only at h
    -- The pattern goes on with a star, a question mark, a class, a brace, or a character.
    split at h
    · exact move_of_mem_stars hplace h
    split at h
    · split at h
      · exact move_of_mem_back h
      · rw [List.mem_singleton.mp h]
        exact .advance hplace Nat.zero_lt_one hfirst
    split at h
    · split at h
      · cases h
      · rw [List.mem_singleton.mp h]
        exact .advance hplace (by omega) hfirst
      · exact move_of_mem_back h
    split at h
    · split at h
      · cases h
      · rename_i choices rest halternatives
        obtain ⟨choice, hchoice, rfl⟩ := List.mem_map.mp h
        have hshorter := length_of_mem_alternatives halternatives hchoice
        exact .choose (by omega)
    split at h
    · exact move_of_mem_literal hplace h
    · exact move_of_mem_literal hplace h

theorem length_choose {choice rest : Text}
    (h : m.place + choice.length + rest.length < m.pattern.length) :
    (m.choose choice rest).pattern.length < m.pattern.length := by
  rw [choose]
  simp only [List.length_append, List.length_take]
  omega

/-! ## Marks -/

/-- One mark stands no further on than another, with no less of the name left. -/
def IsBefore (mark later : Mark) : Prop := mark.1 ≤ later.1 ∧ later.2.length ≤ mark.2.length

theorem IsBefore.refl (mark : Mark) : IsBefore mark mark := ⟨Nat.le_refl _, Nat.le_refl _⟩

theorem IsBefore.trans {first second third : Mark} (h : IsBefore first second)
    (hnext : IsBefore second third) : IsBefore first third :=
  ⟨Nat.le_trans h.1 hnext.1, Nat.le_trans hnext.2 h.2⟩

/-- Where a matching is. -/
def position (m : Matching) : Mark := (m.place, m.name)

/-- The marks of a matching are before its position, and the `**` is before the `*`.  `places` and
`ends` bound the lengths of the pattern and of the names. -/
structure InOrder (places ends : Nat) (m : Matching) : Prop where
  pattern : m.pattern.length < places
  name : m.name.length < ends
  star : ∀ mark, m.star = some mark → IsBefore mark m.position ∧ mark.2.length < ends
  doubleStar : ∀ mark, m.doubleStar = some mark → IsBefore mark m.position ∧ mark.2.length < ends
  nested : ∀ mark outer, m.star = some mark → m.doubleStar = some outer → IsBefore outer mark

variable {places ends : Nat}

theorem Move.inOrder (hmove : Move m m') (h : m.InOrder places ends) : m'.InOrder places ends := by
  obtain ⟨hpattern, hname, hstar, hdouble, hnested⟩ := h
  cases hmove with
  | @advance width name atStart hplace hwidth hshorter =>
    have hlater : IsBefore m.position (m.advance width name atStart).position :=
      ⟨Nat.le_add_right _ _, hshorter⟩
    refine ⟨hpattern, Nat.lt_of_le_of_lt hshorter hname, ?_, ?_, hnested⟩
    · intro mark hmark
      exact ⟨(hstar mark hmark).1.trans hlater, (hstar mark hmark).2⟩
    · intro mark hmark
      exact ⟨(hdouble mark hmark).1.trans hlater, (hdouble mark hmark).2⟩
  | @markStar place hplace hfurther =>
    have hlater : IsBefore m.position (m.markStar place).position :=
      ⟨Nat.le_of_lt hfurther, Nat.le_refl _⟩
    refine ⟨hpattern, hname, ?_, ?_, ?_⟩
    · intro mark hmark
      obtain rfl := Option.some.inj hmark
      exact ⟨.refl _, hname⟩
    · intro mark hmark
      exact ⟨(hdouble mark hmark).1.trans hlater, (hdouble mark hmark).2⟩
    · intro mark outer hmark houter
      obtain rfl := Option.some.inj hmark
      exact (hdouble outer houter).1.trans hlater
  | markDoubleStar hplace hfurther =>
    refine ⟨hpattern, hname, nofun, ?_, nofun⟩
    intro mark hmark
    obtain rfl := Option.some.inj hmark
    exact ⟨.refl _, hname⟩
  | @retryStar place before name hmark hshorter =>
    have hlater : IsBefore (place, before) (place, name) := ⟨Nat.le_refl _, Nat.le_of_lt hshorter⟩
    have hends := Nat.lt_trans hshorter (hstar _ hmark).2
    refine ⟨hpattern, hends, ?_, ?_, ?_⟩
    · intro mark hnew
      obtain rfl := Option.some.inj hnew
      exact ⟨.refl _, hends⟩
    · intro outer houter
      exact ⟨(hnested _ outer hmark houter).trans hlater, (hdouble outer houter).2⟩
    · intro mark outer hnew houter
      obtain rfl := Option.some.inj hnew
      exact (hnested _ outer hmark houter).trans hlater
  | @retryDoubleStar place before name hmark hshorter =>
    have hends := Nat.lt_trans hshorter (hdouble _ hmark).2
    refine ⟨hpattern, hends, nofun, ?_, nofun⟩
    intro mark hnew
    obtain rfl := Option.some.inj hnew
    exact ⟨.refl _, hends⟩
  | choose hshorter =>
    exact ⟨Nat.lt_trans (length_choose hshorter) hpattern, hname, hstar, hdouble, hnested⟩

/-! ## Ranks -/

/-- A rank for the mark of a star.  It is greatest without a mark.  A mark ranks lower with less of
the name left, and with as much of it if it stands further on. -/
def markRank (places ends length : Nat) : Option Mark → Nat
  | none => ends * places
  | some (place, name) => name.length * places + (length - place)

/-- One more than the greatest rank of a mark. -/
def rankCount (places ends : Nat) : Nat := ends * places + 1

/-- A rank for a matching.  The mark of the `**` counts first, then that of the `*`, and then how
much of the pattern is left. -/
def rank (places ends : Nat) (m : Matching) : Nat :=
  (markRank places ends m.pattern.length m.doubleStar * rankCount places ends +
    markRank places ends m.pattern.length m.star) * places + (m.pattern.length - m.place)

theorem digits_lt_mul {high high' low base : Nat} (hhigh : high' < high) (hlow : low < base) :
    high' * base + low < high * base := by
  have hstep : (high' + 1) * base ≤ high * base := Nat.mul_le_mul_right base hhigh
  rw [Nat.add_mul, Nat.one_mul] at hstep
  omega

theorem digits_lt {high low high' low' base : Nat} (hhigh : high' < high) (hlow : low' < base) :
    high' * base + low' < high * base + low :=
  Nat.lt_add_right low (digits_lt_mul hhigh hlow)

variable {length : Nat} {mark : Option Mark}

theorem markRank_lt_rankCount (hlength : length < places)
    (h : ∀ last, mark = some last → last.2.length < ends) :
    markRank places ends length mark < rankCount places ends := by
  cases mark with
  | none => exact Nat.lt_succ_self _
  | some last =>
    exact Nat.lt_succ_of_lt
      (digits_lt_mul (h last rfl) (Nat.lt_of_le_of_lt (Nat.sub_le _ _) hlength))

theorem markRank_mono (mark : Option Mark) {shorter : Nat} (h : shorter ≤ length) :
    markRank places ends shorter mark ≤ markRank places ends length mark := by
  cases mark with
  | none => exact Nat.le_refl _
  | some last => exact Nat.add_le_add_left (Nat.sub_le_sub_right h _) _

/-- A new mark further on ranks lower than the last one. -/
theorem markRank_new_lt {position : Mark} {place : Nat} (hlength : length < places)
    (hname : position.2.length < ends)
    (h : ∀ last, mark = some last → IsBefore last position) (hplace : position.1 < length)
    (hfurther : position.1 < place) :
    markRank places ends length (some (place, position.2)) < markRank places ends length mark := by
  cases mark with
  | none => exact digits_lt_mul hname (Nat.lt_of_le_of_lt (Nat.sub_le _ _) hlength)
  | some last =>
    obtain ⟨hbefore, hlonger⟩ := h last rfl
    exact Nat.add_lt_add_of_le_of_lt (Nat.mul_le_mul_right _ hlonger) (by omega)

/-- A mark that takes more of the name ranks lower. -/
theorem markRank_retry_lt (ends : Nat) {place : Nat} {before name : Text}
    (hlength : length < places) (hmark : mark = some (place, before))
    (hshorter : name.length < before.length) :
    markRank places ends length (some (place, name)) < markRank places ends length mark := by
  rw [hmark]
  exact digits_lt hshorter (Nat.lt_of_le_of_lt (Nat.sub_le _ _) hlength)

theorem InOrder.place_lt (h : m.InOrder places ends) : m.pattern.length - m.place < places :=
  Nat.lt_of_le_of_lt (Nat.sub_le _ _) h.pattern

theorem InOrder.star_lt (h : m.InOrder places ends) :
    markRank places ends m.pattern.length m.star < rankCount places ends :=
  markRank_lt_rankCount h.pattern fun last hlast => (h.star last hlast).2

theorem InOrder.doubleStar_lt (h : m.InOrder places ends) :
    markRank places ends m.pattern.length m.doubleStar < rankCount places ends :=
  markRank_lt_rankCount h.pattern fun last hlast => (h.doubleStar last hlast).2

theorem InOrder.rank_lt (h : m.InOrder places ends) :
    m.rank places ends < rankCount places ends * rankCount places ends * places :=
  digits_lt_mul (digits_lt_mul h.doubleStar_lt h.star_lt) h.place_lt

/-- Every move lowers the rank. -/
theorem Move.rank_lt (hmove : Move m m') (h : m.InOrder places ends) :
    m'.rank places ends < m.rank places ends := by
  have h' := hmove.inOrder h
  have hstar := fun last hlast => (h.star last hlast).1
  have hdouble := fun last hlast => (h.doubleStar last hlast).1
  -- The rank falls at one of its three digits, and those before it do not rise.
  cases hmove with
  | advance hplace hwidth hshorter =>
    refine Nat.add_lt_add_left ?_ _
    show m.pattern.length - (m.place + _) < m.pattern.length - m.place
    omega
  | markStar hplace hfurther =>
    have hlower := markRank_new_lt h.pattern h.name hstar hplace hfurther
    exact digits_lt (Nat.add_lt_add_left hlower _) h'.place_lt
  | markDoubleStar hplace hfurther =>
    have hlower := markRank_new_lt h.pattern h.name hdouble hplace hfurther
    exact digits_lt (digits_lt hlower h'.star_lt) h'.place_lt
  | retryStar hmark hshorter =>
    have hlower := markRank_retry_lt ends h.pattern hmark hshorter
    exact digits_lt (Nat.add_lt_add_left hlower _) h'.place_lt
  | retryDoubleStar hmark hshorter =>
    have hlower := markRank_retry_lt ends h.pattern hmark hshorter
    exact digits_lt (digits_lt hlower h'.star_lt) h'.place_lt
  | @choose choice rest hshorter =>
    have hpattern := length_choose hshorter
    have hmarks : ∀ mark, markRank places ends (m.choose choice rest).pattern.length mark ≤
        markRank places ends m.pattern.length mark :=
      fun mark => markRank_mono mark (Nat.le_of_lt hpattern)
    refine Nat.add_lt_add_of_le_of_lt (Nat.mul_le_mul_right places
      (Nat.add_le_add (Nat.mul_le_mul_right _ (hmarks m.doubleStar)) (hmarks m.star))) ?_
    show (m.choose choice rest).pattern.length - m.place < m.pattern.length - m.place
    omega

/-! ## Rounds -/

/-- Two numbers of rounds give the same outcome if they do so wherever the first round leads. -/
theorem run_congr {rounds rounds' : Nat}
    (h : ∀ m' ∈ m.round.successors, run rounds m' = run rounds' m') :
    run (rounds + 1) m = run (rounds' + 1) m := by
  rw [run, run]
  split
  · rfl
  · cases hround : m.round with
    | done outcome => rfl
    | next m' => exact h m' (by rw [hround]; exact List.mem_singleton_self _)
    | choice ms =>
      rw [hround] at h
      refine List.foldl_ext _ _ _ fun outcome m' hm' => ?_
      rw [h m' hm']

/-- As many rounds as the rank tells are enough, and more do not change the outcome. -/
theorem run_eq_of_rank_lt {rounds rounds' : Nat} (h : m.InOrder places ends)
    (hrounds : m.rank places ends < rounds) (hrounds' : m.rank places ends < rounds') :
    run rounds m = run rounds' m := by
  induction rounds generalizing rounds' m with
  | zero => exact absurd hrounds (Nat.not_lt_zero _)
  | succ rounds ih =>
    obtain ⟨rounds', rfl⟩ := Nat.exists_eq_add_one_of_ne_zero (Nat.ne_zero_of_lt hrounds')
    refine run_congr fun m' hm' => ?_
    have hmove := move_of_mem_round hm'
    have hlower := hmove.rank_lt h
    exact ih (hmove.inOrder h) (by omega) (by omega)

/-- A matching with nothing matched. -/
def start (pattern name : Text) (atStart : Bool) : Matching :=
  ⟨pattern, 0, name, atStart, none, none⟩

theorem inOrder_start (pattern name : Text) (atStart : Bool) :
    (start pattern name atStart).InOrder (pattern.length + 1) (name.length + 1) :=
  ⟨Nat.lt_succ_self _, Nat.lt_succ_self _, nofun, nofun, nofun⟩

theorem rank_start_lt (pattern name : Text) (atStart : Bool) :
    (start pattern name atStart).rank (pattern.length + 1) (name.length + 1) <
      roundLimit pattern name := by
  refine Nat.lt_of_lt_of_le (inOrder_start pattern name atStart).rank_lt ?_
  have hcount : rankCount (pattern.length + 1) (name.length + 1) ≤
      (name.length + 2) * (pattern.length + 2) := by
    rw [rankCount, Nat.succ_mul (name.length + 1)]
    exact Nat.add_le_add (Nat.mul_le_mul_left _ (Nat.le_succ _)) (Nat.succ_le_succ (Nat.zero_le _))
  have hplaces : pattern.length + 1 ≤ (pattern.length + 2) * (pattern.length + 2) :=
    Nat.le_trans (Nat.le_succ _) (Nat.le_mul_self _)
  calc rankCount _ _ * rankCount _ _ * (pattern.length + 1)
      ≤ (name.length + 2) * (pattern.length + 2) * ((name.length + 2) * (pattern.length + 2)) *
          ((pattern.length + 2) * (pattern.length + 2)) :=
        Nat.mul_le_mul (Nat.mul_le_mul hcount hcount) hplaces
    _ = roundLimit pattern name := by
        rw [roundLimit]
        ac_rfl

end Matching

/-- The limit is enough rounds for a matching, and more do not change its outcome. -/
theorem run_start {rounds : Nat} {pattern name : Text}
    (h : Matching.roundLimit pattern name ≤ rounds) :
    Matching.run rounds (Matching.start pattern name true) = outcome pattern name :=
  Matching.run_eq_of_rank_lt (Matching.inOrder_start pattern name true)
    (Nat.lt_of_lt_of_le (Matching.rank_start_lt pattern name true) h)
    (Matching.rank_start_lt pattern name true)

end XsPrep.Glob
