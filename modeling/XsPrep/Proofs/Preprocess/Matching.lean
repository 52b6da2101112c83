import XsPrep.Proofs.Preprocess.Structure

/-!
# Openings without closings

Blocks are opened and closed in text that is read and in text that is skipped, in any file
of a run.  The marks of a run are these openings and closings, in the order in which the
run comes upon them (`Session.marks`).  They are brackets: a closing belongs to the last
opening before it that has none yet (`Mark.Closed`).

The open blocks of a run are a stack over its marks (`Mark.Leads`), and no closing finds
the stack empty (`Steps.leads`).  An opening leaves the stack exactly if it is closed
(`Leads.closed_or_kept`), so the outermost open block at the end is the first opening that
is not (`Leads.outermost`), and that is the one the warning at the end points at.
-/

namespace XsPrep

/-! ## Marks -/

/-- An opening or a closing of a block. -/
inductive Mark where
  /-- An opening, with the place of its `#`. -/
  | opens (place : Place)
  /-- A closing. -/
  | closes
deriving DecidableEq, Repr

/-- Whether it is an opening. -/
def Mark.isOpening : Mark → Bool
  | .opens _ => true
  | .closes => false

namespace Passage

/-- Where a directive has to begin to be seen by a passage.  A skipped line may have white
space before it. -/
def beginning (passage : Passage) : Reader :=
  match passage.reading with
  | .construct _ => passage.reader
  | .line _ => passage.reader.skipBlanks

/-- The directive that a passage comes upon. -/
def directive? (passage : Passage) : Option Directive :=
  if passage.beginning.sees Code.hash then
    Directive.ofKeyword? passage.beginning.readKeyword.1
  else none

/-- The opening or closing that a passage comes upon. -/
def mark? (passage : Passage) : Option Mark :=
  match passage.directive? with
  | some .ifDefined =>
    let position := passage.beginning.position
    some (.opens ⟨passage.file.path, position.line, position.column⟩)
  | some .endIf => some .closes
  | _ => none

end Passage

/-- The openings and closings of a run, in the order in which it comes upon them. -/
def Session.marks (session : Session) (disk : Files.Disk) (root : Text) : List Mark :=
  (session.passages disk root).filterMap Passage.mark?

/-- What a line is to the blocks, as a mark. -/
def SkippedLine.mark? (file : Files.Address) : SkippedLine → Option Mark
  | .opens position => some (.opens ⟨file.path, position.line, position.column⟩)
  | .closes => some .closes
  | .other => none

theorem SkippedLine.mark?_passage (file : Files.Address) (r : Reader) :
    Passage.mark? ⟨file, r, .line (read r).1⟩ = (read r).1.mark? file := by
  rw [Passage.mark?, Passage.directive?, Passage.beginning, read]
  dsimp only
  cases hhash : r.skipBlanks.sees Code.hash with
  | false => rfl
  | true =>
    cases hkeyword : Directive.ofKeyword? r.skipBlanks.readKeyword.1 with
    | none => simp [mark?]
    | some directive => cases directive <;> simp [mark?]

theorem Construct.mark?_passage {r r' : Reader} {c : Construct} (file : Files.Address)
    (h : read r = .ok (c, r')) :
    Passage.mark? ⟨file, r, .construct c⟩ = c.asLine.mark? file := by
  rw [Passage.mark?, Passage.directive?, Passage.beginning]
  dsimp only
  cases origin_of_read h with
  | directive hhash hread =>
    rw [readDirective] at hread
    dsimp only at hread
    rw [if_pos hhash]
    cases hkeyword : Directive.ofKeyword? r.readKeyword.1 with
    | none =>
      rw [hkeyword] at hread
      cases hread
    | some directive =>
      rw [hkeyword] at hread
      cases directive with
      | includeFile =>
        rw [readInclude] at hread
        dsimp only at hread
        split at hread
        · cases hread
        · split at hread <;> cases hread
          rfl
      | define =>
        obtain ⟨⟨name, value, rfl⟩, -⟩ := readDefine_eq_ok hread
        rfl
      | undefine =>
        rw [readUndefine_eq] at hread
        cases hread
        rfl
      | ifDefined =>
        obtain ⟨⟨name, rfl⟩, -⟩ := readOpening_eq_ok hread
        rfl
      | endIf =>
        cases hread
        rfl
  | expansion hhash hat hread =>
    obtain ⟨⟨name, rfl⟩, -⟩ := readExpansion_eq_ok hat hread
    rw [hhash]
    rfl
  | literal hhash => rw [hhash]; rfl
  | lineComment hhash => rw [hhash]; rfl
  | blockComment hhash => rw [hhash]; rfl
  | character hhash => rw [hhash]; rfl

namespace Mark

/-! ## Brackets -/

/-- Every opening has its closing, and every closing its opening. -/
inductive Balanced : List Mark → Prop where
  | nil : Balanced []
  | block (place : Place) {inner rest : List Mark} (hinner : Balanced inner)
      (hrest : Balanced rest) : Balanced (.opens place :: (inner ++ .closes :: rest))

/-- With these marks behind it, an opening is closed: by the first closing that does not
belong to an opening in between. -/
def Closed (behind : List Mark) : Prop :=
  ∃ inner rest, Balanced inner ∧ behind = inner ++ .closes :: rest

/-- Where a balanced part ends before a closing is known from the marks. -/
theorem Balanced.unique {inner inner' rest rest' : List Mark} (h : Balanced inner)
    (h' : Balanced inner') (heq : inner ++ .closes :: rest = inner' ++ .closes :: rest') :
    inner = inner' ∧ rest = rest' := by
  induction h generalizing inner' rest rest' with
  | nil =>
    cases h' with
    | nil => exact ⟨rfl, (List.cons.inj heq).2⟩
    | block => cases (List.cons.inj heq).1
  | block place _ _ ihinner ihrest =>
    cases h' with
    | nil => cases (List.cons.inj heq).1
    | block place' hinner' hrest' =>
      simp only [List.cons_append, List.append_assoc, List.cons.injEq, opens.injEq] at heq
      obtain ⟨rfl, hbehind⟩ := heq
      obtain ⟨rfl, hlater⟩ := ihinner hinner' hbehind
      obtain ⟨rfl, rfl⟩ := ihrest hrest' hlater
      exact ⟨rfl, rfl⟩

/-- In a balanced part every opening is closed, whatever stands behind the part. -/
theorem Balanced.closed {marks : List Mark} (h : Balanced marks) {before between : List Mark}
    {place : Place} (heq : marks = before ++ .opens place :: between) (behind : List Mark) :
    Closed (between ++ behind) := by
  induction h generalizing before between behind with
  | nil => cases List.append_eq_nil_iff.mp heq.symm |>.2
  | @block first inner rest hinner hrest ihinner ihrest =>
    cases before with
    | nil =>
      obtain ⟨-, rfl⟩ := List.cons.inj heq
      exact ⟨inner, rest ++ behind, hinner, by simp⟩
    | cons mark before =>
      obtain ⟨-, heq⟩ := List.cons.inj heq
      rcases List.append_eq_append_iff.mp heq with ⟨skipped, -, heq⟩ | ⟨skipped, heq, hmarks⟩
      · -- The opening stands behind the closing of the first one.
        cases skipped with
        | nil => cases (List.cons.inj heq).1
        | cons _ skipped =>
          obtain ⟨-, heq⟩ := List.cons.inj heq
          exact ihrest heq behind
      · cases skipped with
        | nil => cases (List.cons.inj hmarks).1
        | cons _ skipped =>
          obtain ⟨rfl, hbetween⟩ := List.cons.inj hmarks
          have hclosed := ihinner heq (.closes :: rest ++ behind)
          have hall : between ++ behind = skipped ++ (.closes :: rest ++ behind) := by
            rw [hbetween]
            exact List.append_assoc ..
          rwa [hall]

/-- An opening behind an opening has to be closed first. -/
theorem Closed.of_opens {place : Place} {behind : List Mark} (h : Closed (.opens place :: behind)) :
    ∃ inner rest, Balanced inner ∧ behind = inner ++ .closes :: rest ∧ Closed rest := by
  obtain ⟨inner, rest, hinner, heq⟩ := h
  cases hinner with
  | nil => cases (List.cons.inj heq).1
  | @block _ first later hfirst hlater =>
    obtain ⟨-, rfl⟩ := List.cons.inj heq
    exact ⟨first, later ++ .closes :: rest, hfirst, by simp, later, rest, hlater, rfl⟩

/-! ## Stacks over marks -/

/-- Over the marks, the open blocks go from the first places to the last.  Places are
innermost first. -/
inductive Leads : List Place → List Mark → List Place → Prop where
  | nil (places : List Place) : Leads places [] places
  | opens {place : Place} {places last : List Place} {marks : List Mark}
      (h : Leads (place :: places) marks last) : Leads places (.opens place :: marks) last
  | closes {place : Place} {places last : List Place} {marks : List Mark}
      (h : Leads places marks last) : Leads (place :: places) (.closes :: marks) last

namespace Leads

variable {places last : List Place} {place : Place} {marks : List Mark}

theorem trans {middle : List Place} {more : List Mark} (h : Leads places marks middle)
    (h' : Leads middle more last) : Leads places (marks ++ more) last := by
  induction h with
  | nil => exact h'
  | opens _ ih => exact .opens (ih h')
  | closes _ ih => exact .closes (ih h')

theorem length_eq (h : Leads places marks last) :
    last.length + marks.count .closes = places.length + marks.countP isOpening := by
  induction h with
  | nil => rfl
  | opens _ ih =>
    rw [List.count_cons_of_ne Mark.noConfusion, List.countP_cons_of_pos rfl]
    rw [List.length_cons] at ih
    omega
  | closes _ ih =>
    rw [List.count_cons_self, List.countP_cons_of_neg (by decide), List.length_cons]
    omega

/-- An opening leaves the stack if it is closed, and only then. -/
theorem closed_or_kept (h : Leads (place :: places) marks last) :
    (∃ inner rest, Balanced inner ∧ marks = inner ++ .closes :: rest ∧ Leads places rest last) ∨
      ¬Closed marks ∧ ∃ above, last = above ++ place :: places := by
  induction hn : marks.length using Nat.strongRecOn generalizing place places marks with
  | _ n ih =>
    subst hn
    cases h with
    | nil =>
      refine .inr ⟨?_, [], rfl⟩
      rintro ⟨inner, rest, -, heq⟩
      cases List.append_eq_nil_iff.mp heq.symm |>.2
    | @closes _ _ _ rest h => exact .inl ⟨[], rest, .nil, rfl, h⟩
    | @opens next _ _ rest h =>
      rcases ih rest.length (Nat.lt_succ_self _) h rfl with
        ⟨inner, later, hinner, rfl, hlater⟩ | ⟨hopen, above, rfl⟩
      · -- The opening behind it is closed, so the stack is what it was.
        have hshorter : later.length < (Mark.opens next :: (inner ++ .closes :: later)).length := by
          simp only [List.length_cons, List.length_append]
          omega
        rcases ih later.length hshorter hlater rfl with
          ⟨inner', later', hinner', rfl, hlater'⟩ | ⟨hopen, hkept⟩
        · refine .inl ⟨_, later', .block next hinner hinner', ?_, hlater'⟩
          simp
        · refine .inr ⟨fun hclosed => hopen ?_, hkept⟩
          obtain ⟨first, behind, hfirst, heq, hbehind⟩ := hclosed.of_opens
          obtain ⟨-, rfl⟩ := hinner.unique hfirst heq
          exact hbehind
      · refine .inr ⟨fun hclosed => hopen ?_, above ++ [next], by simp⟩
        obtain ⟨first, behind, hfirst, heq, -⟩ := hclosed.of_opens
        exact ⟨first, behind, hfirst, heq⟩

/-- The outermost open block is the first opening that is not closed. -/
theorem outermost (h : Leads [] marks last) (hplace : last.getLast? = some place) :
    ∃ before behind, marks = before ++ .opens place :: behind ∧ Balanced before ∧
      ¬Closed behind := by
  induction hn : marks.length using Nat.strongRecOn generalizing marks with
  | _ n ih =>
    subst hn
    cases h with
    | nil => cases hplace
    | @opens first _ _ rest h =>
      rcases h.closed_or_kept with ⟨inner, later, hinner, rfl, hlater⟩ | ⟨hopen, above, rfl⟩
      · have hshorter : later.length < (Mark.opens first :: (inner ++ .closes :: later)).length := by
          simp only [List.length_cons, List.length_append]
          omega
        obtain ⟨before, behind, rfl, hbefore, hbehind⟩ := ih later.length hshorter hlater rfl
        refine ⟨_, behind, ?_, .block first hinner hbefore, hbehind⟩
        simp
      · rw [List.getLast?_append_of_ne_nil _ (List.cons_ne_nil _ _)] at hplace
        cases hplace
        exact ⟨[], rest, rfl, .nil, hopen⟩

end Leads

end Mark

/-! ## The marks of a run -/

/-- A line moves the open blocks like its mark, if there is a block to close. -/
theorem SkippedLine.leads_places (file : Files.Address) {places : List Place} (line : SkippedLine)
    (hclosing : line = .closes → places ≠ []) :
    Mark.Leads places (line.mark? file).toList (line.places file places) := by
  cases line with
  | opens position => exact .opens (.nil _)
  | other => exact .nil _
  | closes =>
    obtain ⟨place, below, rfl⟩ := List.exists_cons_of_ne_nil (hclosing rfl)
    exact .closes (.nil _)

namespace Run

variable {disk : Files.Disk} {dirs : List Text} {run next last : Run}

/-- The marks of the states that a run goes through. -/
def marks (visited : List Run) : List Mark :=
  (visited.filterMap passage?).filterMap Passage.mark?

theorem marks_cons (run : Run) (visited : List Run) :
    marks (run :: visited) = marks [run] ++ marks visited := by
  simp only [marks, filterMap_passage?_cons, List.filterMap_append, List.filterMap_nil,
    List.append_nil]

theorem marks_of_passage? {passage : Passage} (h : run.passage? = some passage) :
    marks [run] = passage.mark?.toList := by
  simp only [marks, h, List.filterMap_cons, List.filterMap_nil]
  cases passage.mark? <;> rfl

theorem places_ne_nil_of_isSkipping (h : run.isSkipping = true) : run.places ≠ [] := by
  rw [isSkipping, Stack.top?] at h
  rw [places]
  cases helements : run.blocks.elements with
  | nil =>
    rw [helements] at h
    cases h
  | cons top below => exact List.cons_ne_nil _ _

theorem places_ne_nil_of_close {frame : Frame} {position : Position}
    (h : run.execute disk dirs frame (.closeBlock position) = .ok next) : run.places ≠ [] := by
  simp only [execute] at h
  split at h
  · rename_i block blocks hpop
    rw [places, elements_of_pop? hpop]
    exact List.cons_ne_nil _ _
  · cases h

/-- A step moves the open blocks like its mark. -/
theorem step_leads (hrun : run.frames ≠ []) (h : run.step disk dirs = .ok next) :
    Mark.Leads run.places (marks [run]) next.places := by
  obtain ⟨frame, outer, hframes⟩ := List.exists_cons_of_ne_nil hrun
  cases step_move hframes h with
  | leave hend =>
    have hnone : marks [run] = [] := by
      simp [marks, passage?_of_end hframes hend]
    rw [hnone]
    exact .nil _
  | @skip line reader hrest hskip hread =>
    have hline : line = (SkippedLine.read frame.reader).1 := by rw [hread]
    rw [marks_of_passage? (passage?_of_skipping hframes hrest hskip), SkippedLine.mark?_passage,
      skipLine_places, ← hline]
    exact line.leads_places frame.file fun _ => places_ne_nil_of_isSkipping hskip
  | @read c reader next hrest hskip hread hexecute =>
    rw [marks_of_passage? (passage?_of_construct hframes hrest hskip hread),
      Construct.mark?_passage frame.file hread, execute_places hexecute]
    refine c.asLine.leads_places frame.file ?_
    intro hclosing
    cases c with
    | closeBlock position =>
      have hblocks := places_ne_nil_of_close hexecute
      exact hblocks
    | _ => cases hclosing

theorem Steps.leads {visited : List Run} (h : Steps disk dirs run visited last) :
    Mark.Leads run.places (marks visited) last.places := by
  induction h with
  | refl run => exact .nil _
  | head hrun hstep _ ih =>
    rw [marks_cons]
    exact (step_leads hrun hstep).trans ih

/-- What the end of a run adds to its warnings. -/
theorem warnUnclosed_warnings (run : Run) :
    run.warnUnclosed.warnings = run.warnings ++
      (run.places.getLast?.map (Advice.unclosedBlocks run.places.length).warning).toList := by
  rw [length_places, places, List.getLast?_map, warnings, warnUnclosed, Stack.bottom?]
  cases run.blocks.elements.getLast? with
  | none => exact (List.append_nil _).symm
  | some outermost => exact List.reverse_cons

end Run

namespace Session

theorem marks_of_steps {session : Session} {disk : Files.Disk} {root : Text} {start last : Run}
    {visited : List Run} (hopened : session.opened disk root = .ok start)
    (hsteps : Run.Steps disk session.settings.includeDirectories start visited last)
    (hlast : last.frames = []) : session.marks disk root = Run.marks visited := by
  rw [marks, passages, states_of_steps hopened hsteps (.inl hlast), List.dropLast_concat]
  rfl

/-- A successful run warns about open blocks at the end exactly if it came upon more openings
than closings.  The warning is the last one, it counts the difference, and it points at the
first opening that is not closed. -/
theorem unclosed_blocks_reported (session : Session) (disk : Files.Disk) (root : Text)
    (hsuccess : (session.process disk root).1 = none) :
    ((∃ d ∈ (session.process disk root).2.run.warnings, d.isUnclosed = true) ↔
      (session.marks disk root).count .closes < (session.marks disk root).countP Mark.isOpening) ∧
    ((session.marks disk root).count .closes < (session.marks disk root).countP Mark.isOpening →
      ∃ earlier place before behind,
        (session.process disk root).2.run.warnings = earlier ++
          [(Advice.unclosedBlocks ((session.marks disk root).countP Mark.isOpening -
            (session.marks disk root).count .closes)).warning place] ∧
        (∀ d ∈ earlier, d.isUnclosed = false) ∧
        session.marks disk root = before ++ .opens place :: behind ∧
        ¬Mark.Closed behind ∧
        ∀ front other between, before = front ++ .opens other :: between →
          Mark.Closed (between ++ .opens place :: behind)) := by
  cases session.course disk root with
  | unopened failure hopened hprocess =>
    rw [hprocess] at hsuccess
    cases hsuccess
  | stopped start last visited stop hopened hsteps hframes hstop hprocess =>
    rw [hprocess] at hsuccess
    cases hsuccess
  | finished start last visited hopened hsteps hframes hprocess =>
    obtain ⟨file, content, -, hstart⟩ := eq_of_opened hopened
    have hplaces : start.places = [] := by rw [hstart]; rfl
    have hnothing : start.NothingReported := by rw [hstart]; exact fun _ hd => nomatch hd
    have hearlier : ∀ d ∈ last.warnings, d.isUnclosed = false :=
      fun d hd => hnothing.of_steps hsteps d (List.mem_reverse.mp hd)
    have hleads := hsteps.leads
    rw [hplaces] at hleads
    have hlength := hleads.length_eq
    rw [List.length_nil, Nat.zero_add] at hlength
    rw [hprocess, marks_of_steps hopened hsteps hframes, Run.warnUnclosed_warnings]
    cases hlast : last.places.getLast? with
    | none =>
      have hclosed : last.places = [] := List.getLast?_eq_none_iff.mp hlast
      rw [hclosed, List.length_nil, Nat.zero_add] at hlength
      have hno : ¬(Run.marks visited).count .closes <
          (Run.marks visited).countP Mark.isOpening := by omega
      refine ⟨iff_of_false ?_ hno, fun hmore => absurd hmore hno⟩
      rintro ⟨d, hd, hunclosed⟩
      rw [hearlier d (by simpa using hd)] at hunclosed
      cases hunclosed
    | some place =>
      have hopen : 0 < last.places.length := by
        rw [List.length_pos_iff]
        rintro hnone
        rw [hnone] at hlast
        cases hlast
      have hcount : (Run.marks visited).countP Mark.isOpening -
          (Run.marks visited).count .closes = last.places.length := by omega
      have hreported := Advice.isUnclosed_warning (.unclosedBlocks last.places.length) place
      obtain ⟨before, behind, hmarks, hbefore, hbehind⟩ := hleads.outermost hlast
      refine ⟨iff_of_true ⟨_, List.mem_append_right _ (List.mem_singleton_self _), hreported⟩
        (by omega), fun _ => ?_⟩
      rw [hcount]
      exact ⟨last.warnings, place, before, behind, rfl, hearlier, hmarks, hbehind,
        fun front other between heq => hbefore.closed heq _⟩

/-- A file with a block that is closed and one that is not.  Inside the second one it
includes a file that opens a skipped block, with a closed block in it. -/
def openAcross : Files.Disk where
  nodes := [
    ([bytes "w"], .directory),
    ([bytes "w", bytes "main.xs"], .file
      (bytes "#ifdef A\n#endif\n#undef X\n #ifdef A\n#include \"./a.xs\"\n#endif x\n")),
    ([bytes "w", bytes "a.xs"], .file
      (bytes "#ifdef B\n  #ifdef A\n\t# endif\n/* #endif */\n#ifdef A\n"))]
  workingDirectory := [bytes "w"]

theorem unclosed_blocks_reported_across :
    ((new openAcross [] (.ofList [(bytes "A", [])])).process openAcross (bytes "main.xs")).1 =
      none ∧
    ((new openAcross [] (.ofList [(bytes "A", [])])).process openAcross
      (bytes "main.xs")).2.run.warnings =
      [⟨.warning, ⟨bytes "/w/main.xs", 3, 8⟩, bytes "attempted to undefine undefined macro \"X\""⟩,
        ⟨.warning, ⟨bytes "/w/main.xs", 4, 2⟩,
          bytes "2 #ifdef block(s) not closed by #endif at end of input"⟩] ∧
    (new openAcross [] (.ofList [(bytes "A", [])])).marks openAcross (bytes "main.xs") =
      [.opens ⟨bytes "/w/main.xs", 1, 1⟩, .closes, .opens ⟨bytes "/w/main.xs", 4, 2⟩,
        .opens ⟨bytes "/w/a.xs", 1, 1⟩, .opens ⟨bytes "/w/a.xs", 2, 3⟩, .closes,
        .opens ⟨bytes "/w/a.xs", 5, 1⟩, .closes] ∧
    ∃ d ∈ ((new openAcross [] (.ofList [(bytes "A", [])])).process openAcross
      (bytes "main.xs")).2.run.warnings, d.isUnclosed = true := by
  refine ⟨by decide +kernel, by decide +kernel, by decide +kernel, ?_⟩
  refine (unclosed_blocks_reported _ openAcross (bytes "main.xs") ?_).1.mpr ?_
  · decide +kernel
  · decide +kernel

end Session

end XsPrep
