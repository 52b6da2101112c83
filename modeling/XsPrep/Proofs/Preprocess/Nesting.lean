import XsPrep.Proofs.Files.Contents
import XsPrep.Proofs.Preprocess.Turns

/-!
# Scanning a text by itself

A run does not look at the files around the one it is in.  With other files around it, it takes
the same steps until it has left its own files (`Run.step_inside`), and then it goes on with the
others (`Run.finish_inside`).  So what becomes of the text of one file can be said by itself:
`Run.scanText` starts from any state, goes over a text and all it includes, and stops behind the
text or at a failure.

An include of a new file is the scan of its text and then the rest (`Run.finish_enter`), and the
run of a session is the scan of its root file (`Session.process_of_fetch`).  A file that has been
entered is not read again, so the scan does not depend on what the disk has for it
(`Run.finish_holding`).
-/

namespace XsPrep

namespace Files.Disk

/-- The disk with a text in one of its files. -/
def holding (disk : Disk) (file : Address) (text : Text) : Disk :=
  disk.rewrite fun address content => if address = file then text else content

end Files.Disk

namespace Run

variable {disk : Files.Disk} {dirs : List Text} {run next last : Run} {frame : Frame}
  {outer : List Frame} {file : Files.Address} {text : Text}

/-! ## Inside other files -/

/-- The run with other files around the ones it is in. -/
def inside (outer : List Frame) (run : Run) : Run := { run with frames := run.frames ++ outer }

theorem inside_undefine (outer : List Frame) (run : Run) (name : Text) (place : Place) :
    (run.inside outer).undefine name place = (run.undefine name place).inside outer := by
  have hmacros : (run.inside outer).macros = run.macros := rfl
  rw [undefine, undefine, hmacros]
  split
  · rfl
  · cases run.macros.undefine? name with
    | none => rfl
    | some macros => rfl

theorem inside_skipLine (outer : List Frame) (run : Run) (frame : Frame) (line : SkippedLine) :
    (run.inside outer).skipLine frame line = (run.skipLine frame line).inside outer := by
  have hblocks : (run.inside outer).blocks = run.blocks := rfl
  cases line with
  | opens position => rfl
  | other => rfl
  | closes =>
    rw [skipLine, skipLine, hblocks]
    cases run.blocks.pop? with
    | none => rfl
    | some popped => rfl

theorem inside_includeFile (outer : List Frame) (run : Run) (frame : Frame) (name : Text)
    (place : Place) :
    (run.inside outer).includeFile disk dirs frame name place =
      (run.includeFile disk dirs frame name place).map (inside outer) := by
  have hprocessed : (run.inside outer).processed = run.processed := rfl
  rw [includeFile, includeFile, hprocessed]
  cases Lookup.find disk (Path.directory frame.file.path) dirs name with
  | error problem => rfl
  | ok found =>
    dsimp only
    split
    · rfl
    · rfl

theorem inside_execute (outer : List Frame) (run : Run) (frame : Frame) (construct : Construct) :
    (run.inside outer).execute disk dirs frame construct =
      (run.execute disk dirs frame construct).map (inside outer) := by
  have hmacros : (run.inside outer).macros = run.macros := rfl
  have hblocks : (run.inside outer).blocks = run.blocks := rfl
  cases construct with
  | literal raw => rfl
  | comment => rfl
  | character raw => rfl
  | define name value => rfl
  | openBlock name position => rfl
  | expansion name =>
    rw [execute, execute, hmacros]
    cases run.macros.get? name with
    | none => rfl
    | some value => rfl
  | undefine name position =>
    rw [execute, execute, inside_undefine]
    rfl
  | closeBlock position =>
    rw [execute, execute, hblocks]
    cases run.blocks.pop? with
    | none => rfl
    | some popped => rfl
  | includeFile name position => exact inside_includeFile ..

/-- A step does not depend on the files around. -/
theorem step_inside (hrun : run.frames ≠ []) (outer : List Frame) :
    (run.inside outer).step disk dirs = (run.step disk dirs).map (inside outer) := by
  obtain ⟨frame, inner, hframes⟩ := List.exists_cons_of_ne_nil hrun
  have hframes' : (run.inside outer).frames = frame :: (inner ++ outer) := by
    rw [inside, hframes, List.cons_append]
  by_cases hrest : frame.reader.rest = []
  · rw [step_of_end hframes hrest, step_of_end hframes' hrest]
    rfl
  cases hskip : run.isSkipping with
  | true =>
    rw [step_of_skipping hframes hrest hskip, step_of_skipping hframes' hrest hskip]
    exact congrArg Except.ok (inside_skipLine outer
      { run with frames := { frame with reader := (SkippedLine.read frame.reader).2 } :: inner }
      frame _)
  | false =>
    cases hread : Construct.read frame.reader with
    | error e =>
      rw [step_of_flaw hframes hrest hskip hread, step_of_flaw hframes' hrest hskip hread]
      rfl
    | ok result =>
      obtain ⟨construct, reader⟩ := result
      rw [step_of_construct hframes hrest hskip hread, step_of_construct hframes' hrest hskip hread]
      exact inside_execute outer { run with frames := { frame with reader } :: inner } frame
        construct

theorem inside_frames_ne_nil (hrun : run.frames ≠ []) (outer : List Frame) :
    (run.inside outer).frames ≠ [] :=
  List.append_ne_nil_of_left_ne_nil hrun outer

theorem Steps.inside {visited : List Run} (h : Steps disk dirs run visited last)
    (outer : List Frame) :
    Steps disk dirs (run.inside outer) (visited.map (Run.inside outer)) (last.inside outer) := by
  induction h with
  | refl run => exact .refl _
  | head hrun hstep _ ih =>
    refine .head (inside_frames_ne_nil hrun outer) ?_ ih
    rw [step_inside hrun, hstep]
    rfl

/-- A run that gets through its files goes on with the files around them. -/
theorem finish_inside (outer : List Frame) (h : run.finish disk dirs = .ok last) :
    (run.inside outer).finish disk dirs = { last with frames := outer }.finish disk dirs := by
  obtain ⟨visited, hsteps, hlast⟩ := finish_eq_ok_iff.mp h
  rw [finish_eq_of_steps (hsteps.inside outer), Run.inside, hlast, List.nil_append]

/-- A run that fails in its files fails inside other files too. -/
theorem finish_inside_error (outer : List Frame) {stop : Stop}
    (h : run.finish disk dirs = .error (stop, last)) :
    (run.inside outer).finish disk dirs = .error (stop, last.inside outer) := by
  obtain ⟨visited, hsteps, hlast, hstop⟩ := finish_eq_error_iff.mp h
  refine finish_eq_error_iff.mpr ⟨_, hsteps.inside outer, inside_frames_ne_nil hlast outer, ?_⟩
  rw [step_inside hlast, hstop]
  rfl

/-! ## Files that have been entered -/

theorem includeFile_holding (hmem : file ∈ run.processed) (frame : Frame) (name : Text)
    (place : Place) :
    run.includeFile (disk.holding file text) dirs frame name place =
      run.includeFile disk dirs frame name place := by
  rw [includeFile, includeFile, Files.Disk.holding, Lookup.rewrite_find]
  cases Lookup.find disk (Path.directory frame.file.path) dirs name with
  | error problem => rfl
  | ok found =>
    obtain ⟨found, content⟩ := found
    dsimp only [Except.map]
    split
    · rfl
    · rename_i hnew
      have hother : found ≠ file := by
        rintro rfl
        exact hnew (by simpa using hmem)
      rw [if_neg hother]

theorem step_holding (hmem : file ∈ run.processed) (hrun : run.frames ≠ []) :
    run.step (disk.holding file text) dirs = run.step disk dirs := by
  obtain ⟨frame, outer, hframes⟩ := List.exists_cons_of_ne_nil hrun
  by_cases hrest : frame.reader.rest = []
  · rw [step_of_end hframes hrest, step_of_end hframes hrest]
  cases hskip : run.isSkipping with
  | true => rw [step_of_skipping hframes hrest hskip, step_of_skipping hframes hrest hskip]
  | false =>
    cases hread : Construct.read frame.reader with
    | error e =>
      rw [step_of_flaw hframes hrest hskip hread, step_of_flaw hframes hrest hskip hread]
    | ok result =>
      obtain ⟨construct, reader⟩ := result
      rw [step_of_construct hframes hrest hskip hread, step_of_construct hframes hrest hskip hread]
      cases construct with
      | includeFile name position =>
        have hmem' : file ∈ { run with frames := { frame with reader } :: outer }.processed := hmem
        exact includeFile_holding hmem' frame name (frame.place position)
      | _ => rfl

theorem Steps.holding {visited : List Run} (h : Steps disk dirs run visited last)
    (hmem : file ∈ run.processed) (text : Text) :
    Steps (disk.holding file text) dirs run visited last := by
  induction h with
  | refl run => exact .refl run
  | head hrun hstep _ ih =>
    have hkept := (Steps.single hrun hstep).processed_suffix.subset hmem
    exact .head hrun ((step_holding hmem hrun).trans hstep) (ih hkept)

theorem Halted.holding (h : run.Halted disk dirs) (hmem : file ∈ run.processed) (text : Text) :
    run.Halted (disk.holding file text) dirs := by
  by_cases hrun : run.frames = []
  · exact .inl hrun
  · obtain ⟨stop, hstop⟩ := h.resolve_left hrun
    exact .inr ⟨stop, (step_holding hmem hrun).trans hstop⟩

/-- What the disk has for a file that has been entered does not matter. -/
theorem finish_holding (hmem : file ∈ run.processed) :
    run.finish (disk.holding file text) dirs = run.finish disk dirs := by
  obtain ⟨visited, last, hsteps, hhalted⟩ := exists_steps_halted disk dirs run
  have hkept := hsteps.processed_suffix.subset hmem
  rw [finish_eq_of_steps hsteps, finish_eq_of_steps (hsteps.holding hmem text)]
  by_cases hlast : last.frames = []
  · rw [finish_of_end hlast, finish_of_end hlast]
  · obtain ⟨stop, hstop⟩ := hhalted.resolve_left hlast
    rw [finish_of_stop hlast hstop, finish_of_stop hlast ((step_holding hkept hlast).trans hstop)]

theorem states_holding (hmem : file ∈ run.processed) :
    run.states (disk.holding file text) dirs = run.states disk dirs := by
  obtain ⟨visited, last, hsteps, hhalted⟩ := exists_steps_halted disk dirs run
  have hkept := hsteps.processed_suffix.subset hmem
  rw [states_eq_of_steps hsteps hhalted,
    states_eq_of_steps (hsteps.holding hmem text) (hhalted.holding hkept text)]

/-! ## Texts -/

/-- The run at the beginning of a text, as the text of a file and with no file around it. -/
def scanning (run : Run) (file : Files.Address) (text : Text) : Run :=
  { run with
    processed := run.processed.insert file
    frames := [⟨file, .ofText text⟩] }

/-- The outcome of a run, with the run back in some files. -/
def backIn (frames : List Frame) : Except (Stop × Run) Run → Except (Stop × Run) Run
  | .ok last => .ok { last with frames }
  | .error (stop, last) => .error (stop, { last with frames })

/-- Goes over a text, as the text of a file, and over all it includes.  The result is the state
behind the text, or a problem and the state at it, in the files that the run was in. -/
def scanText (disk : Files.Disk) (dirs : List Text) (run : Run) (file : Files.Address)
    (text : Text) : Except (Stop × Run) Run :=
  backIn run.frames ((run.scanning file text).finish (disk.holding file text) dirs)

theorem mem_processed_scanning (run : Run) (file : Files.Address) (text : Text) :
    file ∈ (run.scanning file text).processed :=
  List.mem_insert_self

theorem scanText_eq (run : Run) (file : Files.Address) (text : Text) :
    run.scanText disk dirs file text =
      backIn run.frames ((run.scanning file text).finish disk dirs) := by
  rw [scanText, finish_holding (mem_processed_scanning run file text)]

theorem scanText_eq_ok_iff :
    run.scanText disk dirs file text = .ok next ↔
      ∃ last, (run.scanning file text).finish disk dirs = .ok last ∧
        next = { last with frames := run.frames } := by
  rw [scanText_eq]
  cases (run.scanning file text).finish disk dirs with
  | ok last => simp [backIn, eq_comm]
  | error failure => simp [backIn]

theorem scanText_eq_error_iff {stop : Stop} :
    run.scanText disk dirs file text = .error (stop, next) ↔
      ∃ last, (run.scanning file text).finish disk dirs = .error (stop, last) ∧
        next = { last with frames := run.frames } := by
  rw [scanText_eq]
  cases (run.scanning file text).finish disk dirs with
  | ok last => simp [backIn]
  | error failure => simp [backIn, Prod.ext_iff, eq_comm]

theorem enter_eq (hnew : file ∉ run.processed) (text : Text) :
    run.enter file text = (run.scanning file text).inside run.frames := by
  rw [enter, inside, scanning, List.insert_of_not_mem hnew]
  rfl

/-- A run that enters a file scans its text and goes on behind the include. -/
theorem finish_enter (hnew : file ∉ run.processed)
    (h : run.scanText disk dirs file text = .ok next) :
    (run.enter file text).finish disk dirs = next.finish disk dirs := by
  obtain ⟨last, hlast, rfl⟩ := scanText_eq_ok_iff.mp h
  rw [enter_eq hnew, finish_inside run.frames hlast]

/-- A run that enters a file fails if the scan of its text fails. -/
theorem finish_enter_error (hnew : file ∉ run.processed) {stop : Stop}
    (h : run.scanText disk dirs file text = .error (stop, next)) :
    ∃ frames, (run.enter file text).finish disk dirs = .error (stop, { next with frames }) := by
  obtain ⟨last, hlast, rfl⟩ := scanText_eq_error_iff.mp h
  exact ⟨_, (enter_eq hnew text).symm ▸ finish_inside_error run.frames hlast⟩

end Run

/-- The run of a session scans the root file. -/
theorem Session.process_of_fetch {session : Session} {disk : Files.Disk} {root : Text}
    {file : Files.Address} {content : Text}
    (hfetch : disk.fetch (disk.canonical root) = .ok (file, content)) :
    session.process disk root =
      match (Run.ofMacros session.settings.predefined).scanText disk
        session.settings.includeDirectories file content with
      | .ok run => (none, { session with run := run.warnUnclosed })
      | .error (stop, run) => (some stop, { session with run := run.abandon }) := by
  have hstart : (Run.ofMacros session.settings.predefined).enter file content =
      (Run.ofMacros session.settings.predefined).scanning file content := rfl
  rw [process_of_opened (opened_of_fetch session hfetch), hstart, Run.scanText_eq]
  cases hfinish : ((Run.ofMacros session.settings.predefined).scanning file content).finish disk
      session.settings.includeDirectories with
  | error failure => rfl
  | ok last =>
    obtain ⟨-, -, hlast⟩ := Run.finish_eq_ok_iff.mp hfinish
    have hframes : { last with frames := [] } = last := by rw [← hlast]
    show _ = (none, { session with run := ({ last with frames := [] } : Run).warnUnclosed })
    rw [hframes]

end XsPrep
