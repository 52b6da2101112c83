import XsPrep.Proofs.Glob.Rounds

/-!
# More pattern in front

A matching never looks at the pattern before its place and its marks.  A round is decided by what
is left of pattern and name (`Matching.Abreast.round`).  So with more pattern in front of all that,
a matching runs as it does without (`Matching.run_below`).
-/

namespace XsPrep.Glob

namespace Matching

/-! ## Rounds side by side -/

/-- Two matchings have the same left of pattern and name. -/
structure Abreast (m m' : Matching) : Prop where
  rest : m'.rest = m.rest
  name : m'.name = m.name
  atStart : m'.atStart = m.atStart

/-- Two matchings do the same in a round, each with its own marks. -/
inductive SameTurn (m m' : Matching) : Round → Round → Prop where
  /-- They go back. -/
  | back : SameTurn m m' m.back m'.back
  /-- They end. -/
  | done (outcome : Outcome) : SameTurn m m' (.done outcome) (.done outcome)
  /-- They go forward in pattern and name. -/
  | advance (width : Nat) (name : Text) (atStart : Bool) :
      SameTurn m m' (.next (m.advance width name atStart)) (.next (m'.advance width name atStart))
  /-- They set a mark for a `*`. -/
  | markStar (width : Nat) :
      SameTurn m m' (.next (m.markStar (m.place + width))) (.next (m'.markStar (m'.place + width)))
  /-- They set a mark for a `**`. -/
  | markDoubleStar (width : Nat) :
      SameTurn m m' (.next (m.markDoubleStar (m.place + width)))
        (.next (m'.markDoubleStar (m'.place + width)))
  /-- They put the same alternatives into the pattern. -/
  | choose (choices : List Text) (rest : Text) :
      SameTurn m m' (.choice (choices.map fun choice => m.choose choice rest))
        (.choice (choices.map fun choice => m'.choose choice rest))

namespace Abreast

variable {m m' : Matching}

theorem literal (h : m.Abreast m') (skipped : Nat) (pattern : Text) :
    SameTurn m m' (m.literal skipped pattern) (m'.literal skipped pattern) := by
  rw [literal.eq_def, literal.eq_def, h.name]
  split
  · dsimp only
    split
    · exact .advance _ _ _
    · exact .back
  · exact .done _
  · exact .done _

theorem stars (h : m.Abreast m') (behind : Text) :
    SameTurn m m' (m.stars behind) (m'.stars behind) := by
  rw [Matching.stars, Matching.stars, h.atStart]
  split
  · dsimp only
    split
    · exact .done _
    · split
      · exact .markDoubleStar 3
      · exact .markStar 2
  · exact .markStar 1

/-- What is left decides what a round does. -/
theorem round (h : m.Abreast m') : SameTurn m m' m.round m'.round := by
  rw [round.eq_def, round.eq_def, h.rest, h.name]
  split
  · exact .back
  · exact .done _
  · dsimp only
    split
    · exact h.stars _
    split
    · split
      · exact .back
      · exact .advance _ _ _
    split
    · split
      · exact .done _
      · exact .advance _ _ _
      · exact .back
    split
    · split
      · exact .done _
      · exact .choose _ _
    split
    · exact h.literal 1 _
    · exact h.literal 0 _

end Abreast

/-! ## More pattern in front -/

/-- A mark with more pattern in front of it. -/
def markBelow (front : Text) (mark : Mark) : Mark := (front.length + mark.1, mark.2)

/-- A matching with more pattern in front, all of it matched. -/
def below (front : Text) (m : Matching) : Matching :=
  { m with
    pattern := front ++ m.pattern
    place := front.length + m.place
    star := m.star.map (markBelow front)
    doubleStar := m.doubleStar.map (markBelow front) }

/-- What a round does with more pattern in front. -/
def Round.below (front : Text) : Round → Round
  | .done outcome => .done outcome
  | .next m => .next (m.below front)
  | .choice ms => .choice (ms.map (Matching.below front))

variable (front : Text) (m : Matching)

@[simp] theorem name_below : (m.below front).name = m.name := rfl

@[simp] theorem atStart_below : (m.below front).atStart = m.atStart := rfl

@[simp] theorem place_below : (m.below front).place = front.length + m.place := rfl

@[simp] theorem rest_below : (m.below front).rest = m.rest := by
  rw [rest, below, rest, List.drop_append, List.drop_eq_nil_of_le (Nat.le_add_right _ _),
    List.nil_append, Nat.add_sub_cancel_left]

theorem advance_below (width : Nat) (name : Text) (atStart : Bool) :
    (m.below front).advance width name atStart = (m.advance width name atStart).below front := by
  simp [advance, below, Nat.add_assoc]

theorem markStar_below (width : Nat) :
    (m.below front).markStar (front.length + m.place + width) =
      (m.markStar (m.place + width)).below front := by
  simp [markStar, below, markBelow, Nat.add_assoc]

theorem markDoubleStar_below (width : Nat) :
    (m.below front).markDoubleStar (front.length + m.place + width) =
      (m.markDoubleStar (m.place + width)).below front := by
  simp [markDoubleStar, below, markBelow, Nat.add_assoc]

theorem choose_below (choice rest : Text) :
    (m.below front).choose choice rest = (m.choose choice rest).below front := by
  simp [choose, below, List.take_append]

theorem retryDoubleStar?_below :
    (m.below front).retryDoubleStar? = m.retryDoubleStar?.map (Matching.below front) := by
  cases hmark : m.doubleStar with
  | none => simp [retryDoubleStar?, below, hmark]
  | some mark =>
    simp only [retryDoubleStar?, below, hmark, Option.map_some, markBelow, Option.map_map]
    rfl

theorem retry?_below : retry? (m.below front) = m.retry?.map (Matching.below front) := by
  have hdouble := retryDoubleStar?_below front m
  have hstar : (m.below front).star = m.star.map (markBelow front) := rfl
  unfold retry?
  rw [hstar]
  cases m.star with
  | none => exact hdouble
  | some mark =>
    obtain ⟨place, name⟩ := mark
    cases name with
    | nil => exact hdouble
    | cons b name =>
      dsimp only [Option.map_some, markBelow]
      split
      · exact hdouble
      · rfl

theorem back_below : (m.below front).back = m.back.below front := by
  rw [back, back, retry?_below]
  cases m.retry? with
  | none => rfl
  | some next => rfl

/-- A round does the same with more pattern in front. -/
theorem round_below : (m.below front).round = m.round.below front := by
  have habreast : m.Abreast (m.below front) :=
    ⟨rest_below front m, name_below front m, atStart_below front m⟩
  have hturn := habreast.round
  generalize m.round = round, (m.below front).round = round' at hturn ⊢
  cases hturn with
  | back => exact back_below front m
  | done outcome => rfl
  | advance width name atStart =>
    rw [advance_below]
    rfl
  | markStar width =>
    rw [place_below, markStar_below]
    rfl
  | markDoubleStar width =>
    rw [place_below, markDoubleStar_below]
    rfl
  | choose choices rest =>
    simp only [Round.below, choose_below, List.map_map, Function.comp_def]

/-- A matching ends the same with more pattern in front. -/
theorem run_below (rounds : Nat) : run rounds (m.below front) = run rounds m := by
  induction rounds generalizing m with
  | zero => rfl
  | succ rounds ih =>
    rw [run, run, rest_below, name_below, round_below]
    split
    · rfl
    · cases m.round with
      | done outcome => rfl
      | next m' => exact ih m'
      | choice ms =>
        simp only [Round.below, List.foldl_map, ih]

end Matching

end XsPrep.Glob
