import XsPrep.Proofs.Preprocess.Steps
import XsPrep.Proofs.Source.Relocation
import XsPrep.Proofs.Files.Addresses

/-!
# An include stands for the text of its file

A run that includes a file of whole lines does what a run over the text with
these lines in the place of the include does.  The two runs are compared step by
step.  They are alike if they agree in the macros, the output and which open
blocks are skipped (`Alike`), and they go side by side if the innermost file of
the one is what the other has left, up to some lines behind it (`Parallel`).

Runs side by side take the same steps (`Parallel.step`).  So the one comes to the
end of its file while the other comes to the lines behind it
(`Parallel.through`), and if there are none the two end in the same way
(`Parallel.finish`).
-/

namespace XsPrep

namespace Run

/-! ## Runs that agree -/

/-- The runs agree in everything but places and files. -/
structure Alike (run run' : Run) : Prop where
  macros : run'.macros = run.macros
  emitted : run'.emitted = run.emitted
  active : run'.blocks.elements.map Block.active = run.blocks.elements.map Block.active

/-- Two results of a step are both runs with `R`, or they are the same problem. -/
inductive Both (R : Run → Run → Prop) : Except Stop Run → Except Stop Run → Prop where
  | ok {next next' : Run} (h : R next next') : Both R (.ok next) (.ok next')
  | error {stop stop' : Stop} (h : stop'.problem = stop.problem) :
      Both R (.error stop) (.error stop')

/-- Two outcomes are runs that agree, or they are the same problem. -/
inductive SameEnd : Except (Stop × Run) Run → Except (Stop × Run) Run → Prop where
  | ok {last last' : Run} (h : Alike last last') : SameEnd (.ok last) (.ok last')
  | error {stop stop' : Stop} {last last' : Run} (h : stop'.problem = stop.problem) :
      SameEnd (.error (stop, last)) (.error (stop', last'))

theorem Both.imp {R S : Run → Run → Prop} {result result' : Except Stop Run}
    (h : Both R result result')
    (himp : ∀ next next', result = .ok next → result' = .ok next' → R next next' → S next next') :
    Both S result result' := by
  cases h with
  | ok h => exact .ok (himp _ _ rfl rfl h)
  | error h => exact .error h

namespace Alike

variable {run run' run'' : Run}

theorem symm (h : Alike run run') : Alike run' run :=
  ⟨h.macros.symm, h.emitted.symm, h.active.symm⟩

theorem trans (h : Alike run run') (h' : Alike run' run'') : Alike run run'' :=
  ⟨h'.macros.trans h.macros, h'.emitted.trans h.emitted, h'.active.trans h.active⟩

theorem isSkipping_eq (h : Alike run run') : run'.isSkipping = run.isSkipping := by
  have hany : ∀ run : Run,
      run.isSkipping = (run.blocks.elements.map Block.active).head?.any (!·) := by
    intro run
    rw [isSkipping, Stack.top?, List.head?_map, Option.any_map]
  rw [hany, hany, h.active]

theorem withFrames (h : Alike run run') (frames frames' : List Frame) :
    Alike { run with frames } { run' with frames := frames' } :=
  ⟨h.macros, h.emitted, h.active⟩

theorem openBlock (h : Alike run run') (active : Bool) (place place' : Place) :
    Alike (run.openBlock ⟨active, place⟩) (run'.openBlock ⟨active, place'⟩) := by
  refine ⟨h.macros, h.emitted, ?_⟩
  show active :: run'.blocks.elements.map Block.active =
    active :: run.blocks.elements.map Block.active
  rw [h.active]

theorem warn (h : Alike run run') (advice advice' : Advice) (place place' : Place) :
    Alike (run.warn advice place) (run'.warn advice' place') :=
  ⟨h.macros, h.emitted, h.active⟩

theorem undefine (h : Alike run run') (name : Text) (place place' : Place) :
    Alike (run.undefine name place) (run'.undefine name place') := by
  unfold Run.undefine
  rw [h.macros]
  split
  · exact h.warn _ _ _ _
  · split
    · exact ⟨rfl, h.emitted, h.active⟩
    · exact h.warn _ _ _ _

/-- Closing a block is possible in both or in none. -/
theorem pop?_cases (h : Alike run run') :
    (run.blocks.pop? = none ∧ run'.blocks.pop? = none) ∨
    ∃ block block' blocks blocks', run.blocks.pop? = some (block, blocks) ∧
      run'.blocks.pop? = some (block', blocks') ∧
      Alike { run with blocks } { run' with blocks := blocks' } := by
  have hactive := h.active
  rw [Stack.pop?, Stack.pop?]
  cases helements : run.blocks.elements with
  | nil =>
    rw [helements, List.map_nil, List.map_eq_nil_iff] at hactive
    rw [hactive]
    exact .inl ⟨rfl, rfl⟩
  | cons block below =>
    rw [helements, List.map_cons] at hactive
    obtain ⟨block', below', helements', -, hbelow⟩ := List.map_eq_cons_iff.mp hactive
    rw [helements']
    exact .inr ⟨block, block', ⟨below⟩, ⟨below'⟩, rfl, rfl, h.macros, h.emitted, hbelow⟩

theorem skipLine (h : Alike run run') {line line' : SkippedLine} (hline : line.Alike line')
    (frame frame' : Frame) : Alike (run.skipLine frame line) (run'.skipLine frame' line') := by
  cases hline with
  | opens p q => exact h.openBlock false _ _
  | other => exact h
  | closes =>
    unfold Run.skipLine
    rcases h.pop?_cases with ⟨hpop, hpop'⟩ | ⟨block, block', blocks, blocks', hpop, hpop', halike⟩
    · rw [hpop, hpop']
      exact h
    · rw [hpop, hpop']
      exact halike

/-- Constructs that are no includes do the same to both. -/
theorem execute (h : Alike run run') {disk disk' : Files.Disk} {dirs dirs' : List Text}
    {construct construct' : Construct} (hconstruct : construct.Alike construct')
    (hno : ∀ name position, construct ≠ .includeFile name position) (frame frame' : Frame) :
    Both Alike (run.execute disk dirs frame construct)
      (run'.execute disk' dirs' frame' construct') := by
  cases hconstruct with
  | includeFile name p q => exact absurd rfl (hno name p)
  | literal raw => exact .ok ⟨h.macros, by simp [emit, h.emitted], h.active⟩
  | comment => exact .ok h
  | character raw => exact .ok ⟨h.macros, by simp [emit, h.emitted], h.active⟩
  | expansion name =>
    unfold Run.execute
    rw [h.macros]
    dsimp only
    split
    · exact .ok ⟨h.macros, by simp [emit, h.emitted], h.active⟩
    · exact .ok h
  | define name value => exact .ok ⟨by rw [h.macros], h.emitted, h.active⟩
  | undefine name p q => exact .ok (h.undefine name _ _)
  | openBlock name p q =>
    unfold Run.execute
    rw [h.macros]
    exact .ok (h.openBlock _ _ _)
  | closeBlock p q =>
    unfold Run.execute
    rcases h.pop?_cases with ⟨hpop, hpop'⟩ | ⟨block, block', blocks, blocks', hpop, hpop', halike⟩
    · rw [hpop, hpop']
      exact .error rfl
    · rw [hpop, hpop']
      exact .ok halike

end Alike

theorem alike_warnUnclosed (run : Run) : Alike run run.warnUnclosed := by
  unfold warnUnclosed
  split
  · exact ⟨rfl, rfl, rfl⟩
  · exact ⟨rfl, rfl, rfl⟩

/-! ## Runs side by side -/

/-- The runs are alike, and what is left of `frame'` is what is left of `frame`,
with `behind` behind it.  If `behind` is not empty it begins a line. -/
structure Parallel (behind : List Character) (outer outer' : List Frame)
    (entered' : List Files.Address) (frame frame' : Frame) (run run' : Run) : Prop where
  alike : Alike run run'
  frames_eq : run.frames = frame :: outer
  frames_eq' : run'.frames = frame' :: outer'
  processed_eq' : run'.processed = entered'
  rest_eq : frame'.reader.rest = frame.reader.rest ++ behind
  lines : behind = [] ∨ Character.AreLines frame.reader.rest

/-- The runs are side by side somewhere in two files. -/
def SideBySide (behind : List Character) (outer outer' : List Frame)
    (entered' : List Files.Address) (file file' : Files.Address) (run run' : Run) : Prop :=
  ∃ reader reader', Parallel behind outer outer' entered' ⟨file, reader⟩ ⟨file', reader'⟩ run run'

namespace Parallel

variable {behind : List Character} {outer outer' : List Frame} {entered' : List Files.Address}
  {frame frame' : Frame} {run run' : Run} {disk disk' : Files.Disk} {dirs dirs' : List Text}

theorem extends_reader (h : Parallel behind outer outer' entered' frame frame' run run')
    (hrest : frame.reader.rest ≠ []) : frame.reader.Extends behind frame'.reader :=
  ⟨h.rest_eq, h.lines.imp_right fun hlines => hlines.resolve_left hrest⟩

theorem frames_ne_nil (h : Parallel behind outer outer' entered' frame frame' run run') :
    run.frames ≠ [] ∧ run'.frames ≠ [] := by
  rw [h.frames_eq, h.frames_eq']
  exact ⟨List.cons_ne_nil _ _, List.cons_ne_nil _ _⟩

theorem rest_ne_nil (h : Parallel behind outer outer' entered' frame frame' run run')
    (hrest : frame.reader.rest ≠ []) : frame'.reader.rest ≠ [] := by
  rw [h.rest_eq]
  exact List.append_ne_nil_of_left_ne_nil hrest behind

/-- What is left of lines is lines. -/
theorem lines_of_leadsTo (h : Parallel behind outer outer' entered' frame frame' run run')
    {reader : Reader} (hleads : frame.reader.LeadsTo reader) :
    behind = [] ∨ Character.AreLines reader.rest :=
  h.lines.imp_right hleads.areLines

theorem read_same (h : Parallel behind outer outer' entered' frame frame' run run')
    (hrest : frame.reader.rest ≠ []) (hskip : run.isSkipping = false)
    (hok : behind = [] ∨ ∃ next, run.step disk dirs = .ok next) :
    Construct.SameRead behind (Construct.read frame.reader) (Construct.read frame'.reader) := by
  refine Construct.read_extends (h.extends_reader hrest) hrest (hok.imp_right ?_)
  rintro ⟨next, hstep⟩
  cases hread : Construct.read frame.reader with
  | ok x => exact ⟨x, rfl⟩
  | error e =>
    rw [step_of_flaw h.frames_eq hrest hskip hread] at hstep
    cases hstep

/-- Where the one comes upon an include, so does the other. -/
theorem atInclude (h : Parallel behind outer outer' entered' frame frame' run run')
    (hok : behind = [] ∨ ∃ next, run.step disk dirs = .ok next) (hat : run.atInclude = true) :
    run'.atInclude = true := by
  obtain ⟨hrest, hskip, name, position, reader, hread⟩ := (atInclude_iff h.frames_eq).mp hat
  have hsame := h.read_same hrest hskip hok
  rw [hread] at hsame
  generalize hread' : Construct.read frame'.reader = result' at hsame
  cases hsame with
  | ok hconstruct _ =>
    cases hconstruct with
    | includeFile _ _ q =>
      exact (atInclude_iff h.frames_eq').mpr ⟨h.rest_ne_nil hrest,
        h.alike.isSkipping_eq.trans hskip, name, q, _, hread'⟩

theorem step_skipping (h : Parallel behind outer outer' entered' frame frame' run run')
    (hrest : frame.reader.rest ≠ []) (hskip : run.isSkipping = true) :
    Both (SideBySide behind outer outer' entered' frame.file frame'.file) (run.step disk dirs)
      (run'.step disk' dirs') := by
  have hskip' : run'.isSkipping = true := h.alike.isSkipping_eq.trans hskip
  obtain ⟨hline, hbehind⟩ := SkippedLine.read_extends (h.extends_reader hrest)
  rw [step_of_skipping h.frames_eq hrest hskip,
    step_of_skipping h.frames_eq' (h.rest_ne_nil hrest) hskip']
  refine .ok ⟨_, _, (h.alike.withFrames _ _).skipLine hline _ _, skipLine_frames _ _ _,
    skipLine_frames _ _ _, ?_, hbehind, ?_⟩
  · rw [skipLine_processed]
    exact h.processed_eq'
  · exact h.lines_of_leadsTo (SkippedLine.leadsTo_read frame.reader)

/-- Constructs that differ in positions at most lead on side by side. -/
theorem execute (h : Parallel behind outer outer' entered' frame frame' run run')
    {construct construct' : Construct} {q q' : Reader} (hconstruct : construct.Alike construct')
    (hno : ∀ name position, construct ≠ .includeFile name position)
    (hleads : frame.reader.LeadsTo q) (hbehind : q'.rest = q.rest ++ behind) :
    Both (SideBySide behind outer outer' entered' frame.file frame'.file)
      ({ run with frames := { frame with reader := q } :: outer }.execute disk dirs frame construct)
      ({ run' with frames := { frame' with reader := q' } :: outer' }.execute disk' dirs' frame'
        construct') := by
  have hno' : ∀ name position, construct' ≠ .includeFile name position := by
    rintro name position rfl
    cases hconstruct with
    | includeFile _ p _ => exact hno name p rfl
  refine ((h.alike.withFrames _ _).execute hconstruct hno frame frame').imp ?_
  intro next next' hnext hnext' halike
  obtain ⟨hframes, -⟩ := execute_files hno hnext
  obtain ⟨hframes', hprocessed'⟩ := execute_files hno' hnext'
  exact ⟨q, q', halike, hframes, hframes', hprocessed'.trans h.processed_eq', hbehind,
    h.lines_of_leadsTo hleads⟩

theorem atInclude_eq_false (h : Parallel behind outer outer' entered' frame frame' run run')
    (hok : behind = [] ∨ ∃ next, run.step disk dirs = .ok next)
    (hno : run.atInclude = true → run'.atInclude = false) : run.atInclude = false := by
  cases hat : run.atInclude with
  | false => rfl
  | true =>
    have hfalse := hno hat
    rw [h.atInclude hok hat] at hfalse
    cases hfalse

/-- Away from includes the runs take the same step, if what the step reads is
complete. -/
theorem step (h : Parallel behind outer outer' entered' frame frame' run run')
    (hno : run.atInclude = false) (hrest : frame.reader.rest ≠ [])
    (hok : behind = [] ∨ ∃ next, run.step disk dirs = .ok next) :
    Both (SideBySide behind outer outer' entered' frame.file frame'.file) (run.step disk dirs)
      (run'.step disk' dirs') := by
  cases hskip : run.isSkipping with
  | true => exact h.step_skipping hrest hskip
  | false =>
    have hskip' : run'.isSkipping = false := h.alike.isSkipping_eq.trans hskip
    have hrest' := h.rest_ne_nil hrest
    have hsame := h.read_same hrest hskip hok
    generalize hread : Construct.read frame.reader = result at hsame
    generalize hread' : Construct.read frame'.reader = result' at hsame
    cases hsame with
    | error hflaw =>
      rw [step_of_flaw h.frames_eq hrest hskip hread,
        step_of_flaw h.frames_eq' hrest' hskip' hread']
      exact .error (by rw [hflaw])
    | ok hconstruct hbehind =>
      rw [step_of_construct h.frames_eq hrest hskip hread,
        step_of_construct h.frames_eq' hrest' hskip' hread']
      refine h.execute hconstruct ?_ (Construct.leadsTo_read hread) hbehind
      rintro name position rfl
      rw [(atInclude_iff h.frames_eq).mpr ⟨hrest, hskip, name, position, _, hread⟩] at hno
      cases hno

end Parallel

namespace SideBySide

variable {behind : List Character} {outer outer' : List Frame} {entered' : List Files.Address}
  {file file' : Files.Address} {run run' last : Run} {disk disk' : Files.Disk}
  {dirs dirs' : List Text}

/-- If steps lead the one run out of its file, they lead the other to what is
behind, unless the two come upon an include together. -/
theorem through (h : SideBySide behind outer outer' entered' file file' run run')
    {visited : List Run} (hsteps : Steps disk dirs run visited last)
    (hleft : ∀ reader, last.frames ≠ ⟨file, reader⟩ :: outer)
    (hno : ∀ state ∈ visited, ∀ visited' state', Steps disk' dirs' run' visited' state' →
      state.atInclude = true → state'.atInclude = false) :
    ∃ passed passed' ending ending' reader reader',
      Steps disk dirs run passed ending ∧ Steps disk' dirs' run' passed' ending' ∧
      Parallel behind outer outer' entered' ⟨file, reader⟩ ⟨file', reader'⟩ ending ending' ∧
      reader.rest = [] ∧ ∀ state ∈ passed ++ [ending], state.atInclude = false := by
  induction hsteps generalizing run' with
  | refl run =>
    obtain ⟨reader, reader', h⟩ := h
    exact absurd h.frames_eq (hleft reader)
  | @head run next last visited hframes hstep hsteps ih =>
    obtain ⟨reader, reader', h⟩ := h
    have hhere := h.atInclude_eq_false (.inr ⟨next, hstep⟩)
      (hno run List.mem_cons_self [] run' (.refl run'))
    by_cases hrest : reader.rest = []
    · refine ⟨[], [], run, run', reader, reader', .refl run, .refl run', h, hrest, ?_⟩
      simpa using hhere
    · have hboth : Both (SideBySide behind outer outer' entered' file file') (run.step disk dirs)
          (run'.step disk' dirs') := h.step hhere hrest (.inr ⟨next, hstep⟩)
      rw [hstep] at hboth
      generalize hstep' : run'.step disk' dirs' = result' at hboth
      cases hboth with
      | @ok _ next' hnext =>
        have hframes' : run'.frames ≠ [] := by
          rw [h.frames_eq']
          exact List.cons_ne_nil _ _
        obtain ⟨passed, passed', ending, ending', r, r', hpassed, hpassed', hending, hend, hnone⟩ :=
          ih hnext hleft fun state hstate visited' state' hvisited' =>
            hno state (List.mem_cons_of_mem _ hstate) _ state' (.head hframes' hstep' hvisited')
        exact ⟨run :: passed, run' :: passed', ending, ending', r, r',
          .head hframes hstep hpassed, .head hframes' hstep' hpassed', hending, hend,
          List.forall_mem_cons.mpr ⟨hhere, hnone⟩⟩

/-- Two runs side by side with one that leads out of its file come to what is
behind in each, and are alike there. -/
theorem through_both {behind₁ behind₂ : List Character} {entered₁ entered₂ : List Files.Address}
    {file₁ file₂ : Files.Address} {run₁ run₂ : Run} {disk₁ : Files.Disk} (disk₂ : Files.Disk)
    {dirs₁ : List Text} (dirs₂ : List Text) {visited : List Run}
    (h₁ : SideBySide behind₁ [] [] entered₁ file file₁ run run₁)
    (h₂ : SideBySide behind₂ [] [] entered₂ file file₂ run run₂)
    (hsteps : Steps disk dirs run visited last) (hframes : last.frames = [])
    (hno : ∀ visited₁ state₁, Steps disk₁ dirs₁ run₁ visited₁ state₁ →
      state₁.atInclude = false) :
    ∃ passed₁ passed₂ ending₁ ending₂ reader₁ reader₂,
      Steps disk₁ dirs₁ run₁ passed₁ ending₁ ∧ Steps disk₂ dirs₂ run₂ passed₂ ending₂ ∧
      Alike ending₁ ending₂ ∧ ending₂.isSkipping = last.isSkipping ∧
      (ending₁.frames = [⟨file₁, reader₁⟩] ∧ reader₁.rest = behind₁ ∧
        ending₁.processed = entered₁) ∧
      (ending₂.frames = [⟨file₂, reader₂⟩] ∧ reader₂.rest = behind₂ ∧
        ending₂.processed = entered₂) := by
  have hleft : ∀ reader, last.frames ≠ ⟨file, reader⟩ :: [] := by
    intro reader
    rw [hframes]
    exact (List.cons_ne_nil _ _).symm
  obtain ⟨passed, passed₁, ending, ending₁, reader, reader₁, hpassed, hpassed₁, hpar₁, hend,
    hnone⟩ := h₁.through hsteps hleft fun _ _ visited₁ state₁ hvisited _ =>
      hno visited₁ state₁ hvisited
  -- The one run leaves its file where it is at the end of it.
  have hleave : ∀ {passed : List Run} {ending : Run} {reader : Reader},
      Steps disk dirs run passed ending → ending.frames = [⟨file, reader⟩] → reader.rest = [] →
      passed ++ [ending] = visited ∧ { ending with frames := [] } = last := by
    intro passed ending reader hpassed hending hend
    have hout : Steps disk dirs ending [ending] { ending with frames := [] } :=
      .single (by rw [hending]; exact List.cons_ne_nil _ _) (step_of_end hending hend)
    exact (hpassed.trans hout).eq_of_halted (.inl rfl) hsteps (.inl hframes)
  obtain ⟨hvisited, hlast⟩ := hleave hpassed hpar₁.frames_eq hend
  have hno₂ : ∀ state ∈ visited, ∀ visited₂ state₂, Steps disk₂ dirs₂ run₂ visited₂ state₂ →
      state.atInclude = true → state₂.atInclude = false := by
    intro state hstate _ _ _ hat
    rw [hnone state (by rw [hvisited]; exact hstate)] at hat
    cases hat
  obtain ⟨passed', passed₂, ending', ending₂, reader', reader₂, hpassed', hpassed₂, hpar₂, hend',
    -⟩ := h₂.through hsteps hleft hno₂
  obtain ⟨hvisited', -⟩ := hleave hpassed' hpar₂.frames_eq hend'
  obtain ⟨-, hsame⟩ := List.append_inj' (hvisited.trans hvisited'.symm) rfl
  cases hsame
  refine ⟨passed₁, passed₂, ending₁, ending₂, reader₁, reader₂, hpassed₁, hpassed₂,
    hpar₁.alike.symm.trans hpar₂.alike, ?_, ⟨hpar₁.frames_eq', ?_, hpar₁.processed_eq'⟩,
    ⟨hpar₂.frames_eq', ?_, hpar₂.processed_eq'⟩⟩
  · rw [hpar₂.alike.isSkipping_eq, ← hlast]
    rfl
  · rw [hpar₁.rest_eq, hend, List.nil_append]
  · rw [hpar₂.rest_eq, hend', List.nil_append]

/-- Side by side with nothing behind, the two runs end in the same way. -/
theorem finish (h : SideBySide [] [] [] entered' file file' run run')
    (hno : ∀ visited' state', Steps disk' dirs' run' visited' state' →
      state'.atInclude = false) :
    SameEnd (run.finish disk dirs) (run'.finish disk' dirs') := by
  obtain ⟨visited, last, hsteps, hhalted⟩ := exists_steps_halted disk dirs run
  induction hsteps generalizing run' with
  | refl run =>
    obtain ⟨reader, reader', h⟩ := h
    obtain ⟨hframes, hframes'⟩ := h.frames_ne_nil
    rcases hhalted with hend | ⟨stop, hstop⟩
    · exact absurd hend hframes
    · have hok : ([] : List Character) = [] ∨ ∃ next, run.step disk dirs = .ok next := .inl rfl
      have hhere := h.atInclude_eq_false hok fun _ => hno [] run' (.refl run')
      have hrest : reader.rest ≠ [] := by
        intro hrest
        rw [step_of_end h.frames_eq hrest] at hstop
        cases hstop
      have hboth : Both (SideBySide [] [] [] entered' file file') (run.step disk dirs)
          (run'.step disk' dirs') := h.step hhere hrest (.inl rfl)
      rw [hstop] at hboth
      generalize hstop' : run'.step disk' dirs' = result' at hboth
      cases hboth with
      | error hproblem =>
        rw [finish_of_stop hframes hstop, finish_of_stop hframes' hstop']
        exact .error hproblem
  | @head run next last visited _ hstep hsteps ih =>
    obtain ⟨reader, reader', h⟩ := h
    obtain ⟨hframes, hframes'⟩ := h.frames_ne_nil
    have hhere := h.atInclude_eq_false (.inr ⟨next, hstep⟩) fun _ => hno [] run' (.refl run')
    by_cases hrest : reader.rest = []
    · -- Both leave their last file.
      have hrest' : reader'.rest = [] := by rw [h.rest_eq, hrest, List.append_nil]
      rw [finish_of_step hframes (step_of_end h.frames_eq hrest), finish_of_end rfl,
        finish_of_step hframes' (step_of_end h.frames_eq' hrest'), finish_of_end rfl]
      exact .ok (h.alike.withFrames [] [])
    · have hboth : Both (SideBySide [] [] [] entered' file file') (run.step disk dirs)
          (run'.step disk' dirs') := h.step hhere hrest (.inl rfl)
      rw [hstep] at hboth
      generalize hstep' : run'.step disk' dirs' = result' at hboth
      cases hboth with
      | ok hnext =>
        rw [finish_of_step hframes hstep, finish_of_step hframes' hstep']
        exact ih hnext (fun visited' state' hvisited' =>
          hno _ state' (.head hframes' hstep' hvisited')) hhalted

/-- If what is behind is what is left of the including file, and steps lead out of
the included one, the two runs end in the same way. -/
theorem finish_through (frame : Frame)
    (h : SideBySide frame.reader.rest [frame] [] entered' file file' run run')
    {visited : List Run} (hsteps : Steps disk dirs run visited last)
    (hleft : file ∉ last.frames.map Frame.file)
    (hno : ∀ visited' state', Steps disk' dirs' run' visited' state' →
      state'.atInclude = false) :
    SameEnd (run.finish disk dirs) (run'.finish disk' dirs') := by
  have hout : ∀ reader, last.frames ≠ ⟨file, reader⟩ :: [frame] := by
    intro reader hframes
    rw [hframes] at hleft
    exact hleft List.mem_cons_self
  obtain ⟨passed, passed', ending, ending', reader, reader', hpassed, hpassed', hpar, hend, -⟩ :=
    h.through hsteps hout fun _ _ visited' state' hvisited' _ => hno visited' state' hvisited'
  have hback : SideBySide [] [] [] entered' frame.file file' { ending with frames := [frame] }
      ending' := by
    refine ⟨frame.reader, reader', hpar.alike.withFrames [frame] ending'.frames, rfl,
      hpar.frames_eq', hpar.processed_eq', ?_, .inl rfl⟩
    rw [hpar.rest_eq, hend, List.nil_append, List.append_nil]
  have hreturn : Steps disk dirs ending [ending] { ending with frames := [frame] } :=
    .single hpar.frames_ne_nil.1 (step_of_end hpar.frames_eq hend)
  rw [finish_eq_of_steps (hpassed.trans hreturn), finish_eq_of_steps hpassed']
  exact hback.finish fun visited' state' hvisited' =>
    hno _ state' (hpassed'.trans hvisited')

end SideBySide

/-! ## Including a sibling -/

variable {disk : Files.Disk} {dirs : List Text} {run next last : Run}

/-- A file that was left is not entered again. -/
theorem Steps.stays_left {visited : List Run} (h : Steps disk dirs run visited last)
    {file : Files.Address} (hfile : file ∈ run.processed)
    (hleft : file ∉ run.frames.map Frame.file) : file ∉ last.frames.map Frame.file := by
  refine (h.invariant
    (P := fun run => file ∈ run.processed ∧ file ∉ run.frames.map Frame.file) ?_
    ⟨hfile, hleft⟩).2.2
  rintro run next ⟨hfile, hleft⟩ hrun hstep
  obtain ⟨frame, outer, hframes⟩ := List.exists_cons_of_ne_nil hrun
  rw [hframes, List.map_cons, List.mem_cons, not_or] at hleft
  cases step_fileMove hframes hstep with
  | leave _ _ hnext hprocessed =>
    rw [hnext, hprocessed]
    exact ⟨hfile, hleft.2⟩
  | advance _ _ _ _ _ hnext hprocessed =>
    rw [hnext, hprocessed, List.map_cons, List.mem_cons, not_or]
    exact ⟨hfile, hleft⟩
  | enter _ _ other _ _ _ _ _ hnew hnext hprocessed =>
    have hne : file ≠ other := by
      rintro rfl
      exact hnew hfile
    refine ⟨?_, ?_⟩
    · rw [hprocessed]
      exact List.mem_cons_of_mem _ hfile
    · rw [hnext]
      simpa [hne] using hleft

end Run

/-- The line that includes a file of the same directory. -/
def includeLine : Text := bytes "#include \"./f.xs\"\n"

theorem read_includeLine {r : Reader} {behind : List Character}
    (hrest : r.rest = includeLine.characters ++ behind) :
    ∃ position q, Construct.read r = .ok (.includeFile (bytes "./f.xs") position, q) ∧
      q.rest = behind := by
  have hline : Construct.read (.ofText includeLine) =
      .ok (.includeFile (bytes "./f.xs") ⟨9, 1, 10⟩, ⟨⟨18, 2, 1⟩, []⟩) := by decide +kernel
  have hlines : Character.EndLine includeLine.characters := by
    rw [Character.EndLine]
    decide +kernel
  have hextends : (Reader.ofText includeLine).Extends behind r := ⟨hrest, .inr hlines⟩
  have hsame := Construct.read_extends hextends hlines.ne_nil (.inr ⟨_, hline⟩)
  rw [hline] at hsame
  generalize hread : Construct.read r = result at hsame
  cases hsame with
  | ok hconstruct hbehind =>
    cases hconstruct with
    | includeFile _ _ position => exact ⟨position, _, rfl, hbehind⟩

/-- A name with the local mark is found in the directory of the including file. -/
theorem Lookup.find_sibling {disk : Files.Disk} (hdisk : disk.WellFormed)
    {directory : Files.Address} {name content text : Text} (dirs : List Text)
    (hfile : (directory ++ [name], content) ∈ disk.files)
    (hsibling : (directory ++ [bytes "f.xs"], text) ∈ disk.files) :
    Lookup.find disk (Path.directory (Files.Address.path (directory ++ [name]))) dirs
      (bytes "./f.xs") = .ok (directory ++ [bytes "f.xs"], text) := by
  have hproper : Files.Address.Proper (directory ++ [name]) :=
    hdisk.proper _ (Files.Disk.mem_files_iff.mp hfile)
  have hdirectory : Files.Address.Proper directory := fun part hpart =>
    hproper part (List.mem_append_left _ hpart)
  have hname : Path.IsName name :=
    hproper name (List.mem_append_right _ (List.mem_singleton_self name))
  have hcandidates : candidates (Files.Address.path directory) dirs (bytes "./f.xs") =
      [Path.join [Files.Address.path directory, bytes "f.xs"]] := rfl
  rw [hdirectory.directory_path hname, find, hcandidates,
    hdirectory.join_path (by decide : Path.IsName (bytes "f.xs"))]
  simp [hdisk.regularFile?_path hsibling]

namespace Session

variable {session : Session} {disk flatDisk preDisk : Files.Disk} {root flatRoot preRoot : Text}
  {directory flatFile preFile : Files.Address} {name pre text post : Text}

/-- Where the include stands, the run is inside the included file after one
step. -/
theorem step_includeLine {run : Run} {dirs : List Text} {reader : Reader}
    {behind : List Character} {content : Text} (hdisk : disk.WellFormed)
    (hfile : (directory ++ [name], content) ∈ disk.files)
    (hsibling : (directory ++ [bytes "f.xs"], text) ∈ disk.files) (hname : name ≠ bytes "f.xs")
    (hframes : run.frames = [⟨directory ++ [name], reader⟩])
    (hprocessed : run.processed = [directory ++ [name]]) (hskip : run.isSkipping = false)
    (hrest : reader.rest = includeLine.characters ++ behind) :
    ∃ q : Reader, q.rest = behind ∧ run.step disk dirs =
      .ok ({ run with frames := [⟨directory ++ [name], q⟩] }.enter (directory ++ [bytes "f.xs"])
        text) := by
  obtain ⟨position, q, hread, hq⟩ := read_includeLine hrest
  have hne : reader.rest ≠ [] := by
    rw [hrest]
    have hline : includeLine.characters ≠ [] := by decide +kernel
    exact List.append_ne_nil_of_left_ne_nil hline behind
  have hnew : run.processed.contains (directory ++ [bytes "f.xs"]) = false := by
    rw [hprocessed]
    simpa using Ne.symm hname
  refine ⟨q, hq, ?_⟩
  rw [Run.step_of_construct hframes hne hskip hread]
  simp only [Run.execute, Run.includeFile, Lookup.find_sibling hdisk dirs hfile hsibling, hnew]
  rfl

/-- Runs that end in the same way show the same result. -/
theorem process_eq_of_finish {start flatStart : Run}
    (hopened : session.opened disk root = .ok start)
    (hflat : session.opened flatDisk flatRoot = .ok flatStart)
    (h : Run.SameEnd (start.finish disk session.settings.includeDirectories)
      (flatStart.finish flatDisk session.settings.includeDirectories)) :
    (session.process disk root).1.map Stop.problem =
        (session.process flatDisk flatRoot).1.map Stop.problem ∧
      ((session.process disk root).1 = none →
        (session.process disk root).2.run.Alike (session.process flatDisk flatRoot).2.run) := by
  rw [process_of_opened hopened, process_of_opened hflat]
  generalize start.finish disk session.settings.includeDirectories = outcome at h
  generalize flatStart.finish flatDisk session.settings.includeDirectories = outcome' at h
  cases h with
  | @ok last last' halike =>
    refine ⟨rfl, fun _ => ?_⟩
    exact (last.alike_warnUnclosed.symm.trans halike).trans last'.alike_warnUnclosed
  | error hproblem =>
    refine ⟨?_, fun hnone => nomatch hnone⟩
    exact congrArg some hproblem.symm

/-- Including a sibling is the same as having its text in the place of the
include.  Let a file hold `pre`, the include and `post`, and let its sibling hold
`text`, where `pre` and `text` are whole lines.  Suppose that a run over `pre`
alone succeeds and does not end in a skipped block, that a run over `pre`, `text`
and `post` together carries out no include, and that the run over the file gets
out of the sibling again.  Then the latter two runs fail with the same problem, or
both succeed with the same output, the same macros and the same blocks open. -/
theorem include_eq_inlining (hdisk : disk.WellFormed)
    (hroot : disk.fetch (disk.canonical root) =
      .ok (directory ++ [name], pre ++ includeLine ++ post))
    (hsibling : (directory ++ [bytes "f.xs"], text) ∈ disk.files) (hname : name ≠ bytes "f.xs")
    (hflat : flatDisk.fetch (flatDisk.canonical flatRoot) = .ok (flatFile, pre ++ text ++ post))
    (hpre : preDisk.fetch (preDisk.canonical preRoot) = .ok (preFile, pre))
    (hpreLines : pre.IsLines) (htextLines : text.IsLines)
    (hno : ∀ state ∈ session.states flatDisk flatRoot, state.atInclude = false)
    (hsuccess : (session.process preDisk preRoot).1 = none)
    (hactive : (session.process preDisk preRoot).2.run.isSkipping = false)
    (hthrough : ∃ state ∈ session.states disk root,
      directory ++ [bytes "f.xs"] ∈ state.processed ∧
      directory ++ [bytes "f.xs"] ∉ state.frames.map Frame.file) :
    (session.process disk root).1.map Stop.problem =
        (session.process flatDisk flatRoot).1.map Stop.problem ∧
      ((session.process disk root).1 = none →
        (session.process disk root).2.run.output =
          (session.process flatDisk flatRoot).2.run.output ∧
        (session.process disk root).2.run.macros =
          (session.process flatDisk flatRoot).2.run.macros ∧
        (session.process disk root).2.run.blocks.elements.map Block.active =
          (session.process flatDisk flatRoot).2.run.blocks.elements.map Block.active) := by
  have hopened := opened_of_fetch session hroot
  have hopenedFlat := opened_of_fetch session hflat
  have hopenedPre := opened_of_fetch session hpre
  have hreach : ∀ visited state, Run.Steps flatDisk session.settings.includeDirectories
      ((Run.ofMacros session.settings.predefined).enter flatFile (pre ++ text ++ post)) visited
      state → state.atInclude = false :=
    fun visited state hsteps => hno state ((mem_states_iff hopenedFlat).mpr ⟨visited, hsteps⟩)
  obtain ⟨visited, last, hsteps, hframes, hlast⟩ := steps_of_success hopenedPre hsuccess
  -- Both runs come to the end of what stands before the include.
  have hside₁ : Run.SideBySide (text.characters ++ post.characters) [] [] [flatFile] preFile
      flatFile ((Run.ofMacros session.settings.predefined).enter preFile pre)
      ((Run.ofMacros session.settings.predefined).enter flatFile (pre ++ text ++ post)) := by
    refine ⟨_, _, ⟨rfl, rfl, rfl⟩, rfl, rfl, rfl, ?_, .inr hpreLines.characters⟩
    show (pre ++ text ++ post).characters = pre.characters ++ (text.characters ++ post.characters)
    rw [List.append_assoc, Text.characters_append hpreLines, Text.characters_append htextLines]
  have hside₂ : Run.SideBySide (includeLine.characters ++ post.characters) [] []
      [directory ++ [name]] preFile (directory ++ [name])
      ((Run.ofMacros session.settings.predefined).enter preFile pre)
      ((Run.ofMacros session.settings.predefined).enter (directory ++ [name])
        (pre ++ includeLine ++ post)) := by
    refine ⟨_, _, ⟨rfl, rfl, rfl⟩, rfl, rfl, rfl, ?_, .inr hpreLines.characters⟩
    show (pre ++ includeLine ++ post).characters =
      pre.characters ++ (includeLine.characters ++ post.characters)
    rw [List.append_assoc, Text.characters_append hpreLines,
      Text.characters_append (by decide : includeLine.IsLines)]
  obtain ⟨passed₁, passed₂, flat, run, reader₁, reader₂, hflatSteps, hrunSteps, halike, hskip,
    ⟨hframes₁, hrest₁, hprocessed₁⟩, ⟨hframes₂, hrest₂, hprocessed₂⟩⟩ :=
    hside₁.through_both disk session.settings.includeDirectories hside₂ hsteps hframes hreach
  have hreading : run.isSkipping = false := by
    rw [hlast, last.alike_warnUnclosed.isSkipping_eq] at hactive
    exact hskip.trans hactive
  -- The one run enters the included file.
  have hfile := Files.Disk.mem_files_of_content? (Files.Disk.content?_of_fetch hroot)
  obtain ⟨q, hq, hstep⟩ := step_includeLine hdisk hfile hsibling hname hframes₂ hprocessed₂
    hreading hrest₂
  have henter := hrunSteps.trans (.single (by rw [hframes₂]; exact List.cons_ne_nil _ _) hstep)
  -- It gets out of this file, and from there on the two have the same text left.
  obtain ⟨state, hstate, hmem, hout⟩ := hthrough
  obtain ⟨before, hbefore⟩ := (mem_states_iff hopened).mp hstate
  obtain ⟨after, hafter⟩ := (henter.linear hbefore).resolve_right (by
    rintro ⟨between, hbetween⟩
    exact hbetween.stays_left hmem hout List.mem_cons_self)
  have hinside : Run.SideBySide q.rest [⟨directory ++ [name], q⟩] [] [flatFile]
      (directory ++ [bytes "f.xs"]) flatFile
      ({ run with frames := [⟨directory ++ [name], q⟩] }.enter (directory ++ [bytes "f.xs"]) text)
      flat := by
    refine ⟨_, reader₁, ⟨halike.symm.macros, halike.symm.emitted, halike.symm.active⟩, rfl,
      hframes₁, hprocessed₁, ?_, .inr htextLines.characters⟩
    rw [hrest₁, hq]
    rfl
  have houtcome := Run.SideBySide.finish_through ⟨directory ++ [name], q⟩ hinside hafter hout
    fun _ state hvisited => hreach _ state (hflatSteps.trans hvisited)
  rw [← Run.finish_eq_of_steps henter, ← Run.finish_eq_of_steps hflatSteps] at houtcome
  obtain ⟨hproblem, hresult⟩ := process_eq_of_finish hopened hopenedFlat houtcome
  refine ⟨hproblem, fun hnone => ?_⟩
  have hsame := hresult hnone
  refine ⟨?_, hsame.macros.symm, hsame.active.symm⟩
  rw [Run.output, Run.output, Run.fragments, Run.fragments, hsame.emitted]

/-- An included file that closes a block of the including one and opens another.
The same text stands in a third file without the include. -/
def crossing : Files.Disk where
  nodes := [
    ([bytes "w"], .directory),
    ([bytes "w", bytes "main.xs"], .file
      (bytes "#define A 1\n#ifdef A\nx\n" ++ includeLine ++ bytes "y\n#endif\nz\n")),
    ([bytes "w", bytes "f.xs"], .file (bytes "@A@\n#endif\n#ifdef B\n")),
    ([bytes "w", bytes "flat.xs"], .file
      (bytes "#define A 1\n#ifdef A\nx\n" ++ bytes "@A@\n#endif\n#ifdef B\n" ++
        bytes "y\n#endif\nz\n")),
    ([bytes "w", bytes "pre.xs"], .file (bytes "#define A 1\n#ifdef A\nx\n"))]
  workingDirectory := [bytes "w"]

theorem include_eq_inlining_crossing :
    ((new crossing [] .empty).process crossing (bytes "main.xs")).1 = none ∧
    ((new crossing [] .empty).process crossing (bytes "main.xs")).2.run.output =
      ((new crossing [] .empty).process crossing (bytes "flat.xs")).2.run.output ∧
    ((new crossing [] .empty).process crossing (bytes "flat.xs")).2.run.output =
      bytes "x\n1\nz\n" := by
  have hsuccess : ((new crossing [] .empty).process crossing (bytes "main.xs")).1 = none := by
    decide +kernel
  have hinlining := @include_eq_inlining (new crossing [] .empty) crossing crossing crossing
    (bytes "main.xs") (bytes "flat.xs") (bytes "pre.xs") [bytes "w"]
    [bytes "w", bytes "flat.xs"] [bytes "w", bytes "pre.xs"] (bytes "main.xs")
    (bytes "#define A 1\n#ifdef A\nx\n") (bytes "@A@\n#endif\n#ifdef B\n")
    (bytes "y\n#endif\nz\n") (by decide +kernel) (by decide +kernel) (by decide +kernel)
    (by decide +kernel) (by decide +kernel) (by decide +kernel) (by decide +kernel)
    (by decide +kernel) (by decide +kernel) (by decide +kernel) (by decide +kernel)
    (by decide +kernel)
  exact ⟨hsuccess, (hinlining.2 hsuccess).1, by decide +kernel⟩

end Session

end XsPrep
