import XsPrep.Proofs.Source.LineEnds
import XsPrep.Proofs.Files.Contents
import XsPrep.Proofs.Preprocess.Coverage
import XsPrep.Proofs.Preprocess.Inlining
import XsPrep.Proofs.Preprocess.Opacity

/-!
# Runs over files with line ends of two characters

Two runs go over the same files, and those of the second have a carriage return before every
line end.  The second run does what the first does, step by step, and its output has the
carriage returns of the files (`Run.Crlf`).  Only a line end that is text takes it two steps,
one for the carriage return (`Run.Crlf.step_lineEnd`).

Macros do not see the difference, because their values end before the line end.  So a
carriage return in the output is never one of a value, as long as no value has a line end in
it (`Run.ValuesInLine`).
-/

namespace XsPrep

/-! ## Values -/

/-- Only a definition binds a name. -/
theorem Construct.eq_define {construct : Construct} {name value : Text}
    (h : (Reading.construct construct).rebinding? name = some (some value)) :
    construct = .define name value := by
  cases construct with
  | define other bound =>
    simp only [Reading.rebinding?] at h
    split at h
    · rename_i hother
      cases h
      rw [hother]
    · cases h
  | undefine other place =>
    simp only [Reading.rebinding?] at h
    split at h <;> cases h
  | _ => cases h

namespace Run

variable {disk : Files.Disk} {dirs : List Text} {run next : Run} {frame : Frame}
  {outer : List Frame}

/-- No macro has a value with a line end. -/
def ValuesInLine (run : Run) : Prop :=
  ∀ name value, run.macros.get? name = some value → Byte.newline ∉ value

theorem Sound.spelled (h : run.Sound disk) (hframes : run.frames = frame :: outer) :
    ∀ c ∈ frame.reader.rest, c.Spelled := by
  obtain ⟨content, -, hreached⟩ := h.reached frame (by rw [hframes]; exact List.mem_cons_self)
  exact hreached.spelled

theorem ValuesInLine.step (h : run.ValuesInLine) (hsound : run.Sound disk)
    (hrun : run.frames ≠ []) (hstep : run.step disk dirs = .ok next) : next.ValuesInLine := by
  obtain ⟨frame, outer, hframes⟩ := List.exists_cons_of_ne_nil hrun
  intro name value hvalue
  cases step_move hframes hstep with
  | leave hend => exact h name value hvalue
  | skip hrest hskip hread =>
    rw [skipLine_macros] at hvalue
    exact h name value hvalue
  | @read construct reader _ hrest hskip hread hexecute =>
    rw [execute_get? hexecute] at hvalue
    cases hrebinding : (Reading.construct construct).rebinding? name with
    | none =>
      rw [hrebinding] at hvalue
      exact h name value hvalue
    | some bound =>
      rw [hrebinding] at hvalue
      obtain rfl : bound = some value := hvalue
      rw [Construct.eq_define hrebinding] at hread
      exact Construct.newline_notMem_of_define hread (hsound.spelled hframes)

end Run

/-! ## Runs side by side -/

/-- The frames are at the same place of a file, in the second with carriage returns. -/
structure Frame.Crlf (frame frame' : Frame) : Prop where
  file : frame'.file = frame.file
  rest : frame'.reader.rest = Character.crlf frame.reader.rest

namespace Run

variable {disk : Files.Disk} {dirs : List Text} {run run' next last : Run}
  {frame frame' : Frame} {outer : List Frame}

/-- The second run is as far as the first, with carriage returns. -/
structure Crlf (run run' : Run) : Prop where
  macros : run'.macros = run.macros
  output : run'.output = Text.crlf run.output
  active : run'.blocks.elements.map Block.active = run.blocks.elements.map Block.active
  processed : run'.processed = run.processed
  frames : List.Forall₂ Frame.Crlf run.frames run'.frames

@[simp] theorem output_emit (run : Run) (fragment : Text) :
    (run.emit fragment).output = run.output ++ fragment := by
  simp [output, fragments, emit]

namespace Crlf

/-- But for the output and the files, the runs agree. -/
theorem alike (h : Crlf run run') :
    Alike { run with emitted := [] } { run' with emitted := [] } :=
  ⟨h.macros, rfl, h.active⟩

theorem isSkipping_eq (h : Crlf run run') : run'.isSkipping = run.isSkipping :=
  h.alike.isSkipping_eq

theorem withFrames (h : Crlf run run') {frames frames' : List Frame}
    (hframes : List.Forall₂ Frame.Crlf frames frames') :
    Crlf { run with frames } { run' with frames := frames' } :=
  ⟨h.macros, h.output, h.active, h.processed, hframes⟩

theorem advance (h : Crlf run run') (hfile : frame'.file = frame.file) {outer' : List Frame}
    (houter : List.Forall₂ Frame.Crlf outer outer') {q q' : Reader}
    (hrest : q'.rest = Character.crlf q.rest) :
    Crlf { run with frames := { frame with reader := q } :: outer }
      { run' with frames := { frame' with reader := q' } :: outer' } :=
  h.withFrames (.cons ⟨hfile, hrest⟩ houter)

theorem emit (h : Crlf run run') (fragment : Text) :
    Crlf (run.emit fragment) (run'.emit (Text.crlf fragment)) := by
  refine ⟨h.macros, ?_, h.active, h.processed, h.frames⟩
  rw [output_emit, output_emit, h.output, Text.crlf_append]

theorem warn (h : Crlf run run') (advice advice' : Advice) (place place' : Place) :
    Crlf (run.warn advice place) (run'.warn advice' place') :=
  ⟨h.macros, h.output, h.active, h.processed, h.frames⟩

theorem openBlock (h : Crlf run run') (active : Bool) (place place' : Place) :
    Crlf (run.openBlock ⟨active, place⟩) (run'.openBlock ⟨active, place'⟩) :=
  ⟨h.macros, h.output, congrArg (active :: ·) h.active, h.processed, h.frames⟩

theorem undefine (h : Crlf run run') (name : Text) (place place' : Place) :
    Crlf (run.undefine name place) (run'.undefine name place') := by
  rw [Run.undefine, Run.undefine, h.macros]
  split
  · exact h.warn _ _ _ _
  · split
    · exact ⟨rfl, h.output, h.active, h.processed, h.frames⟩
    · exact h.warn _ _ _ _

/-- Closing a block is possible in both or in none. -/
theorem pop?_cases (h : Crlf run run') :
    (run.blocks.pop? = none ∧ run'.blocks.pop? = none) ∨
    ∃ block block' blocks blocks', run.blocks.pop? = some (block, blocks) ∧
      run'.blocks.pop? = some (block', blocks') ∧
      Crlf { run with blocks } { run' with blocks := blocks' } := by
  rcases h.alike.pop?_cases with hnone | ⟨block, block', blocks, blocks', hpop, hpop', halike⟩
  · exact .inl hnone
  · exact .inr ⟨block, block', blocks, blocks', hpop, hpop', h.macros, h.output, halike.active,
      h.processed, h.frames⟩

theorem skipLine (h : Crlf run run') {line line' : SkippedLine} (hline : line.Alike line')
    (frame frame' : Frame) : Crlf (run.skipLine frame line) (run'.skipLine frame' line') := by
  cases hline with
  | opens p q => exact h.openBlock false _ _
  | other => exact h
  | closes =>
    rw [Run.skipLine, Run.skipLine]
    rcases h.pop?_cases with ⟨hpop, hpop'⟩ | ⟨block, block', blocks, blocks', hpop, hpop', hcrlf⟩
    · rw [hpop, hpop']
      exact h
    · rw [hpop, hpop']
      exact hcrlf

theorem includeFile (h : Crlf run run') (hfile : frame'.file = frame.file) (name : Text)
    (place place' : Place) :
    Both Crlf (run.includeFile disk dirs frame name place)
      (run'.includeFile (disk.rewrite fun _ => Text.crlf) dirs frame' name place') := by
  rw [Run.includeFile, Run.includeFile, hfile, Lookup.rewrite_find]
  cases Lookup.find disk (Path.directory frame.file.path) dirs name with
  | error problem => exact .error rfl
  | ok found =>
    obtain ⟨file, content⟩ := found
    dsimp only [Except.map]
    rw [h.processed]
    split
    · exact .ok (h.warn _ _ _ _)
    · exact .ok ⟨h.macros, h.output, h.active, congrArg (file :: ·) h.processed,
        .cons ⟨rfl, Text.characters_crlf content⟩ h.frames⟩

/-- Constructs do the same in both runs. -/
theorem execute (h : Crlf run run') (hvalues : run.ValuesInLine)
    {construct construct' : Construct} (hconstruct : construct.crlf.Alike construct')
    (hfile : frame'.file = frame.file) :
    Both Crlf (run.execute disk dirs frame construct)
      (run'.execute (disk.rewrite fun _ => Text.crlf) dirs frame' construct') := by
  cases construct with
  | literal raw =>
    cases hconstruct
    exact .ok (h.emit raw)
  | character raw =>
    cases hconstruct
    exact .ok (h.emit raw)
  | comment =>
    cases hconstruct
    exact .ok h
  | expansion name =>
    cases hconstruct
    rw [Run.execute, Run.execute, h.macros]
    cases hvalue : run.macros.get? name with
    | none => exact .ok h
    | some value =>
      have hemit := h.emit value
      rw [Text.crlf_of_notMem (hvalues name value hvalue)] at hemit
      exact .ok hemit
  | define name value =>
    cases hconstruct
    exact .ok ⟨congrArg (Macros.define · name value) h.macros, h.output, h.active, h.processed,
      h.frames⟩
  | undefine name position =>
    cases hconstruct
    exact .ok (h.undefine name _ _)
  | openBlock name position =>
    cases hconstruct
    rw [Run.execute, Run.execute, h.macros]
    exact .ok (h.openBlock _ _ _)
  | closeBlock position =>
    cases hconstruct
    rw [Run.execute, Run.execute]
    rcases h.pop?_cases with ⟨hpop, hpop'⟩ | ⟨block, block', blocks, blocks', hpop, hpop', hcrlf⟩
    · rw [hpop, hpop']
      exact .error rfl
    · rw [hpop, hpop']
      exact .ok hcrlf
  | includeFile name position =>
    cases hconstruct
    exact h.includeFile hfile name _ _

/-! ## Steps side by side -/

theorem exists_frames (h : Crlf run run') (hframes : run.frames = frame :: outer) :
    ∃ frame' outer', run'.frames = frame' :: outer' ∧ frame.Crlf frame' ∧
      List.Forall₂ Frame.Crlf outer outer' := by
  have hboth := h.frames
  rw [hframes] at hboth
  obtain ⟨frame', outer', hframe, houter, hframes'⟩ := List.forall₂_cons_left_iff.mp hboth
  exact ⟨frame', outer', hframes', hframe, houter⟩

end Crlf

/-- A character of a line end is text. -/
theorem step_of_lineEnd {c : Character} {cs : List Character}
    (hframes : run.frames = frame :: outer) (hrest : frame.reader.rest = c :: cs)
    (hcode : c.code = Code.newline ∨ c.code = 0x0D) (hspelled : ∀ c ∈ frame.reader.rest, c.Spelled)
    (hskip : run.isSkipping = false) (disk : Files.Disk) (dirs : List Text) :
    ∃ q, run.step disk dirs =
      .ok ({ run with frames := { frame with reader := q } :: outer }.emit c.bytes) ∧
      q.rest = cs := by
  obtain ⟨q, hread, hq⟩ := Construct.read_lineEnd hrest hcode hspelled
  have hne : frame.reader.rest ≠ [] := by rw [hrest]; exact List.cons_ne_nil _ _
  exact ⟨q, step_of_construct hframes hne hskip hread, hq⟩

/-- The include that the next step carries out. -/
def included? (run : Run) : Option Mention := run.passage?.bind Passage.mention?

/-- The next step includes no file with a line end in its name. -/
def NameInLine (run : Run) : Prop :=
  ∀ mention, run.included? = some mention → Byte.newline ∉ mention.name

namespace Crlf

/-- Where a line end is text, the second run takes a step for the carriage return and one for
the line end. -/
theorem step_lineEnd (h : Crlf run run') (hframes : run.frames = frame :: outer)
    (hspelled : ∀ c ∈ frame.reader.rest, c.Spelled) (hskip : run.isSkipping = false)
    (hnewline : frame.reader.sees Code.newline = true) (disk disk' : Files.Disk)
    (dirs : List Text) :
    ∃ next visited' next', run.step disk dirs = .ok next ∧ Steps disk' dirs run' visited' next' ∧
      Crlf next next' := by
  obtain ⟨⟨file, reader'⟩, outer', hframes', ⟨rfl, hrest'⟩, houter⟩ := h.exists_frames hframes
  obtain ⟨c, cs, hrest, hc⟩ := Reader.rest_of_sees hnewline
  have hbytes := (hspelled c (by simp [hrest])).bytes_of_newline hc
  have hskip' : run'.isSkipping = false := h.isSkipping_eq.trans hskip
  have hspelled' : ∀ c ∈ reader'.rest, c.Spelled := hrest' ▸ Character.spelled_crlf hspelled
  replace hrest' : reader'.rest = Character.carriageReturn :: c :: Character.crlf cs := by
    rw [hrest', hrest, Character.crlf_cons_newline hc]
  obtain ⟨q, hstep, hq⟩ := step_of_lineEnd hframes hrest (.inl hc) hspelled hskip disk dirs
  obtain ⟨between, hreturn, hbetween⟩ :=
    step_of_lineEnd hframes' hrest' (.inr rfl) hspelled' hskip' disk' dirs
  have hspelledBetween : ∀ d ∈ between.rest, d.Spelled := by
    rw [hrest'] at hspelled'
    rw [hbetween]
    exact (List.forall_mem_cons.mp hspelled').2
  have hframesBetween : ({ run' with frames := ⟨frame.file, between⟩ :: outer' }.emit
      Character.carriageReturn.bytes).frames = ⟨frame.file, between⟩ :: outer' := rfl
  obtain ⟨q', hstep', hq'⟩ :=
    step_of_lineEnd hframesBetween hbetween (.inl hc) hspelledBetween hskip' disk' dirs
  refine ⟨_, _, _, hstep, .head (by rw [hframes']; exact List.cons_ne_nil _ _) hreturn
    (.single (List.cons_ne_nil _ _) hstep'), h.macros, ?_, h.active, h.processed,
    .cons ⟨rfl, by rw [hq', hq]⟩ houter⟩
  rw [output_emit, output_emit]
  show (run'.emit [0x0D]).output ++ c.bytes = Text.crlf (run.output ++ c.bytes)
  rw [output_emit, h.output, Text.crlf_append, hbytes, List.append_assoc]
  rfl

/-- Everywhere else the two runs take one step each. -/
theorem step_same (h : Crlf run run') (hvalues : run.ValuesInLine) (hname : run.NameInLine)
    (hframes : run.frames = frame :: outer) (hspelled : ∀ c ∈ frame.reader.rest, c.Spelled)
    (hline : run.isSkipping = true ∨ frame.reader.sees Code.newline = false)
    (disk : Files.Disk) (dirs : List Text) :
    Both Crlf (run.step disk dirs) (run'.step (disk.rewrite fun _ => Text.crlf) dirs) := by
  obtain ⟨frame', outer', hframes', ⟨hfile, hrest'⟩, houter⟩ := h.exists_frames hframes
  by_cases hrest : frame.reader.rest = []
  · rw [hrest, Character.crlf_nil] at hrest'
    rw [step_of_end hframes hrest, step_of_end hframes' hrest']
    exact .ok (h.withFrames houter)
  have hne' : frame'.reader.rest ≠ [] := hrest' ▸ Character.crlf_ne_nil hrest
  have hskips := h.isSkipping_eq
  cases hskip : run.isSkipping with
  | true =>
    obtain ⟨hlines, hbehind⟩ := SkippedLine.read_crlf hrest'
    rw [step_of_skipping hframes hrest hskip,
      step_of_skipping hframes' hne' (hskips.trans hskip)]
    exact .ok ((h.advance hfile houter hbehind).skipLine hlines _ _)
  | false =>
    have hnewline := hline.resolve_left (by simp [hskip])
    have hread : Construct.CrlfRead (Construct.read frame.reader)
        (Construct.read frame'.reader) := by
      refine Construct.read_crlf hrest' hrest hspelled hnewline ?_
      intro name p q hinclude
      refine hname ⟨name, p⟩ ?_
      rw [included?, passage?_of_construct hframes hrest hskip hinclude]
      rfl
    generalize hresult : Construct.read frame.reader = result at hread
    generalize hresult' : Construct.read frame'.reader = result' at hread
    cases hread with
    | error hflaw =>
      rw [step_of_flaw hframes hrest hskip hresult,
        step_of_flaw hframes' hne' (hskips.trans hskip) hresult']
      exact .error (congrArg Problem.flawed hflaw)
    | ok halike hbehind =>
      rw [step_of_construct hframes hrest hskip hresult,
        step_of_construct hframes' hne' (hskips.trans hskip) hresult']
      exact (h.advance hfile houter hbehind).execute hvalues halike hfile

/-- The second run follows each step of the first, and fails where the first fails. -/
theorem step (h : Crlf run run') (hsound : run.Sound disk) (hvalues : run.ValuesInLine)
    (hname : run.NameInLine) (hrun : run.frames ≠ []) (dirs : List Text) :
    (∃ next visited' next', run.step disk dirs = .ok next ∧
      Steps (disk.rewrite fun _ => Text.crlf) dirs run' visited' next' ∧ Crlf next next') ∨
    ∃ stop stop', run.step disk dirs = .error stop ∧
      run'.step (disk.rewrite fun _ => Text.crlf) dirs = .error stop' ∧
      stop'.problem = stop.problem := by
  obtain ⟨frame, outer, hframes⟩ := List.exists_cons_of_ne_nil hrun
  have hspelled := hsound.spelled hframes
  by_cases hline : run.isSkipping = true ∨ frame.reader.sees Code.newline = false
  · have hboth := h.step_same hvalues hname hframes hspelled hline disk dirs
    generalize hstep : run.step disk dirs = result at hboth
    generalize hstep' : run'.step (disk.rewrite fun _ => Text.crlf) dirs = result' at hboth
    cases hboth with
    | ok hnext =>
      obtain ⟨frame', outer', hframes', -⟩ := h.exists_frames hframes
      exact .inl ⟨_, _, _, rfl, .single (by rw [hframes']; exact List.cons_ne_nil _ _) hstep',
        hnext⟩
    | error hproblem => exact .inr ⟨_, _, rfl, rfl, hproblem⟩
  · rw [not_or, Bool.not_eq_true, Bool.not_eq_false] at hline
    exact .inl (h.step_lineEnd hframes hspelled hline.1 hline.2 _ _ dirs)

/-- The second run follows the first all the way. -/
theorem steps {visited : List Run} (hsteps : Steps disk dirs run visited last)
    (h : Crlf run run') (hsound : run.Sound disk) (hvalues : run.ValuesInLine)
    (hnames : ∀ state ∈ visited, state.NameInLine) :
    ∃ visited' last', Steps (disk.rewrite fun _ => Text.crlf) dirs run' visited' last' ∧
      Crlf last last' ∧ last.ValuesInLine := by
  induction hsteps generalizing run' with
  | refl run => exact ⟨[], run', .refl run', h, hvalues⟩
  | @head run next last visited hrun hstep _ ih =>
    obtain ⟨hname, hnames⟩ := List.forall_mem_cons.mp hnames
    rcases h.step hsound hvalues hname hrun dirs with
      ⟨reached, before, next', hreached, hbefore, hnext⟩ | ⟨stop, stop', hstop, -⟩
    · obtain rfl : next = reached := Except.ok.inj (hstep.symm.trans hreached)
      obtain ⟨after, last', hafter, hlast⟩ :=
        ih hnext (hsound.step hrun hstep) (hvalues.step hsound hrun hstep) hnames
      exact ⟨before ++ after, last', hbefore.trans hafter, hlast⟩
    · rw [hstep] at hstop
      cases hstop

theorem warnUnclosed (h : Crlf run run') :
    run'.warnUnclosed.output = Text.crlf run.warnUnclosed.output ∧
      run'.warnUnclosed.macros = run.warnUnclosed.macros := by
  have halike := run.alike_warnUnclosed
  have halike' := run'.alike_warnUnclosed
  refine ⟨?_, by rw [halike'.macros, h.macros, halike.macros]⟩
  rw [Run.output, Run.output, warnUnclosed_fragments, warnUnclosed_fragments]
  exact h.output

theorem frames_nil_iff (h : Crlf run run') : run'.frames = [] ↔ run.frames = [] := by
  rw [← List.length_eq_zero_iff, ← List.length_eq_zero_iff, h.frames.length_eq]

end Crlf

end Run

/-! ## Whole runs -/

namespace Session

variable (session : Session) (disk : Files.Disk) (root : Text)

/-- The includes that the run over a root file carries out.  It may fail at the last. -/
def included : List Mention := (session.states disk root).filterMap Run.included?

theorem crlf_opened {start : Run} (hopened : session.opened disk root = .ok start) :
    ∃ start', session.opened (disk.rewrite fun _ => Text.crlf) root = .ok start' ∧
      start.Crlf start' := by
  rw [rewrite_opened]
  cases hfetch : disk.fetch (disk.canonical root) with
  | error failure =>
    rw [opened, hfetch] at hopened
    cases hopened
  | ok file =>
    rw [opened, hfetch] at hopened
    cases hopened
    exact ⟨_, rfl, rfl, rfl, rfl, rfl, .cons ⟨rfl, Text.characters_crlf file.2⟩ .nil⟩

/-- Line ends of two characters make no difference but for themselves.  Let no predefined
value and no name of an include that is carried out have a line end in it, and put a carriage
return before every line end of every file.  Then the run fails as before, with the same
problem, or it succeeds as before, with the same macros and with a carriage return before
every line end of the output. -/
theorem line_ends_equivariant
    (hpredefined : ∀ entry ∈ session.settings.predefined.entries, Byte.newline ∉ entry.2)
    (hnames : ∀ mention ∈ session.included disk root, Byte.newline ∉ mention.name) :
    (session.process (disk.rewrite fun _ => Text.crlf) root).1.map Stop.problem =
        (session.process disk root).1.map Stop.problem ∧
      ((session.process disk root).1 = none →
        (session.process (disk.rewrite fun _ => Text.crlf) root).2.run.output =
          Text.crlf (session.process disk root).2.run.output ∧
        (session.process (disk.rewrite fun _ => Text.crlf) root).2.run.macros =
          (session.process disk root).2.run.macros) := by
  have hinline : ∀ {visited last start}, session.opened disk root = .ok start →
      Run.Steps disk session.settings.includeDirectories start visited last →
      ∀ state ∈ visited ++ [last], state.NameInLine := by
    intro visited last start hopened hsteps state hstate mention hmention
    have hmem := (mem_states_iff hopened).mpr (hsteps.split hstate)
    exact hnames mention (List.mem_filterMap.mpr ⟨state, hmem, hmention⟩)
  have hvalues : ∀ {start}, session.opened disk root = .ok start → start.ValuesInLine := by
    intro start hopened
    obtain ⟨file, content, -, rfl⟩ := eq_of_opened hopened
    intro name value hvalue
    exact hpredefined (name, value) (Table.mem_of_find? hvalue)
  cases session.course disk root with
  | unopened failure hopened hprocess =>
    rw [process_of_unopened (rewrite_unopened _ hopened), hprocess]
    refine ⟨?_, fun hnone => nomatch hnone⟩
    show some (Problem.unreadable failure) = some (Problem.unreadable failure)
    rfl
  | finished start last visited hopened hsteps hframes hprocess =>
    obtain ⟨start', hopened', hstart⟩ := crlf_opened session disk root hopened
    obtain ⟨visited', last', hsteps', hlast, -⟩ :=
      Run.Crlf.steps hsteps hstart (.of_opened hopened) (hvalues hopened)
        fun state hstate => hinline hopened hsteps state (List.mem_append_left _ hstate)
    have hfinish := Run.finish_eq_ok_iff.mpr ⟨visited', hsteps', hlast.frames_nil_iff.mpr hframes⟩
    rw [process_of_opened hopened', hfinish, hprocess]
    exact ⟨rfl, fun _ => hlast.warnUnclosed⟩
  | stopped start last visited stop hopened hsteps hframes hstop hprocess =>
    obtain ⟨start', hopened', hstart⟩ := crlf_opened session disk root hopened
    obtain ⟨visited', last', hsteps', hlast, hlastValues⟩ :=
      Run.Crlf.steps hsteps hstart (.of_opened hopened) (hvalues hopened)
        fun state hstate => hinline hopened hsteps state (List.mem_append_left _ hstate)
    have hsound := ((Run.Sound.of_opened hopened).of_steps hsteps).2
    rcases hlast.step hsound hlastValues (hinline hopened hsteps last (by simp)) hframes
      session.settings.includeDirectories with
      ⟨next, -, -, hnext, -⟩ | ⟨found, stop', hfound, hstop', hproblem⟩
    · rw [hstop] at hnext
      cases hnext
    · obtain rfl : stop = found := Except.error.inj (hstop.symm.trans hfound)
      have hfinish := Run.finish_eq_error_iff.mpr
        ⟨visited', hsteps', mt hlast.frames_nil_iff.mp hframes, hstop'⟩
      rw [process_of_opened hopened', hfinish, hprocess]
      exact ⟨congrArg some hproblem, fun hnone => nomatch hnone⟩

/-- Line ends in a literal, behind a backslash, in a comment, in skipped text and behind every
kind of directive. -/
def mixed : Files.Disk where
  nodes := [
    ([bytes "w"], .directory),
    ([bytes "w", bytes "main.xs"], .file
      (bytes "#define A 1 \n#ifdef A\n#include \"b.xs\" x\n#endif\n// c\n@A@/* d\n */\n" ++
        bytes "\"e\\\n\"\n#ifdef B\n f\n#endif\n#undef B\n")),
    ([bytes "w", bytes "b.xs"], .file (bytes "#define C\n\n@C@@P@\n"))]
  workingDirectory := [bytes "w"]

theorem line_ends_equivariant_mixed :
    let session := new mixed [] (.ofList [(bytes "P", bytes "p")])
    (session.process mixed (bytes "main.xs")).1 = none ∧
    session.included mixed (bytes "main.xs") = [⟨bytes "b.xs", ⟨31, 3, 10⟩⟩] ∧
    (session.process mixed (bytes "main.xs")).2.run.output =
      bytes "\np\n1\n\"e\\\n\"\n" ∧
    (session.process (mixed.rewrite fun _ => Text.crlf) (bytes "main.xs")).1.map Stop.problem =
      none ∧
    (session.process (mixed.rewrite fun _ => Text.crlf) (bytes "main.xs")).2.run.output =
      bytes "\r\np\r\n1\r\n\"e\\\r\n\"\r\n" := by
  intro session
  have hsuccess : (session.process mixed (bytes "main.xs")).1 = none := by decide +kernel
  have houtput : (session.process mixed (bytes "main.xs")).2.run.output =
      bytes "\np\n1\n\"e\\\n\"\n" := by decide +kernel
  obtain ⟨hstop, hresult⟩ := line_ends_equivariant session mixed (bytes "main.xs")
    (by decide +kernel) (by decide +kernel)
  refine ⟨hsuccess, by decide +kernel, houtput, ?_, ?_⟩
  · rw [hstop, hsuccess]
    rfl
  · rw [(hresult hsuccess).1, houtput]
    decide +kernel

end Session

end XsPrep
