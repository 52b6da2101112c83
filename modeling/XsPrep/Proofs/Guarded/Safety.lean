import XsPrep.Proofs.Guarded.Machine
import XsPrep.Proofs.Preprocess.Termination

/-!
# Guarded runs are safe

A guarded run reads each file in a loop, and an included file in the middle of a round of the
loop over the including one.  Reading a file to its end takes the run through steps that lead
out of the file, or to a step that fails (`Ends`).  So a whole guarded run is never misused,
whatever the files are, and it leaves what the run of a session leaves (`process_safe`).
-/

namespace XsPrep.Guarded

open Scanner

/-! ## Whole runs -/

/-- Enters a file, reads it to its end with `read`, and leaves it however that went. -/
def processFile (read : Machine → Scanner → Except Misuse (Option Stop × Machine)) : Enter :=
  fun m file content => do
    let m ← m.markProcessed file
    let m := m.pushFrame file
    let _ ← top m.frames
    let (stop, m) ← read m (.ofText content)
    let m ← m.popFrame
    .ok (stop, m)

/-- Reads the innermost file to its end in at most `rounds` rounds. -/
def readFile (disk : Files.Disk) (dirs : List Text) :
    (rounds : Nat) → Machine → Scanner → Except Misuse (Option Stop × Machine)
  | 0, _, _ => .error .endlessLoop
  | rounds + 1, m, s =>
    if s.atEnd then .ok (none, m)
    else do
      let (stop, m, s) ← step disk dirs (processFile (readFile disk dirs rounds)) m s
      match stop with
      | some stop => .ok (some stop, m)
      | none => readFile disk dirs rounds m s

namespace Machine

/-- The machine before a run.  The predefined macros may be missing. -/
def reset (m : Machine) (predefined : Option Macros) : Machine :=
  { m with
    macros := some (predefined.getD .empty)
    blocks := .empty
    processed := some []
    frames := .empty
    emitted := []
    warned := []
    reported := [] }

/-- Runs over a root file and everything it includes, each file in at most `rounds` rounds. -/
def process (m : Machine) (predefined : Option Macros) (dirs : List Text) (disk : Files.Disk)
    (root : Text) (rounds : Nat) : Except Misuse (Option Stop × Machine) := do
  let m := m.reset predefined
  let path := disk.canonical root
  match disk.fetch path with
  | .error failure => .ok (some ⟨.ofFile path, .unreadable failure⟩, { m with emitted := [] })
  | .ok (file, content) =>
    let (stop, m) ← processFile (readFile disk dirs rounds) m file content
    match stop with
    | some stop => .ok (some stop, { m with emitted := [] })
    | none =>
      if m.blocks.size > 0 then
        let outermost ← bottom m.blocks
        .ok (none, m.warn (.unclosedBlocks m.blocks.size) outermost.opened)
      else .ok (none, m)

end Machine

/-! ## Files -/

/-- How reading a file in at most `rounds` rounds ends, if `run` is in the middle of it.  The
file was entered from `outer`, and `files` are the files that are open afterwards. -/
inductive Ends (disk : Files.Disk) (dirs : List Text) (rounds : Nat) (run : Run)
    (outer : List Frame) (files : List Files.Address) :
    Except Misuse (Option Stop × Machine) → Prop where
  /-- Steps lead out of the file. -/
  | done {visited : List Run} {next : Run} (hsteps : Run.Steps disk dirs run visited next)
      (hframes : next.frames = outer) :
      Ends disk dirs rounds run outer files (.ok (none, .ofRun next files))
  /-- Steps lead to a step that fails. -/
  | failed {visited : List Run} {last : Run} {stop : Stop}
      (hsteps : Run.Steps disk dirs run visited last) (hframes : last.frames ≠ [])
      (hstop : last.step disk dirs = .error stop) :
      Ends disk dirs rounds run outer files (.ok (some stop, .ofRun last files))
  /-- There are fewer rounds than there is to read. -/
  | cut (hrounds : rounds ≤ run.workLeft disk) :
      Ends disk dirs rounds run outer files (.error .endlessLoop)

variable {disk : Files.Disk} {dirs : List Text} {run next : Run}
  {outer : List Frame} {files : List Files.Address} {rounds : Nat}

/-- An end that is reached after some steps, with a round for each of them. -/
theorem Ends.of_steps {visited : List Run} {total : Nat}
    {result : Except Misuse (Option Stop × Machine)}
    (hsteps : Run.Steps disk dirs run visited next) (htotal : total ≤ visited.length + rounds)
    (hends : Ends disk dirs rounds next outer files result) :
    Ends disk dirs total run outer files result := by
  cases hends with
  | done hrest hframes => exact .done (hsteps.trans hrest) hframes
  | failed hrest hframes hstop => exact .failed (hsteps.trans hrest) hframes hstop
  | cut hrounds =>
    have hwork := hsteps.length_add_workLeft_le
    exact .cut (by omega)

/-- A file is left however reading it ends. -/
theorem processFile_ends {read : Machine → Scanner → Except Misuse (Option Stop × Machine)}
    {file : Files.Address} {content : Text}
    (hread : Ends disk dirs rounds (run.enter file content) run.frames (file :: files)
      (read (.ofRun (run.enter file content) (file :: files)) (.ofText content))) :
    Ends disk dirs rounds (run.enter file content) run.frames files
      (processFile read (.ofRun run files) file content) := by
  have hopen : processFile read (.ofRun run files) file content = (do
      let (stop, m) ← read (.ofRun (run.enter file content) (file :: files)) (.ofText content)
      let m ← m.popFrame
      .ok (stop, m)) := rfl
  rw [hopen]
  generalize read (.ofRun (run.enter file content) (file :: files)) (.ofText content) = result
    at hread ⊢
  cases hread with
  | done hsteps hframes => exact .done hsteps hframes
  | failed hsteps hframes hstop => exact .failed hsteps hframes hstop
  | cut hrounds => exact .cut hrounds

/-- Reading the rest of a file ends with the file, in a failing step or for lack of rounds. -/
theorem readFile_ends {t : Text} (frame : Frame) (hframes : run.frames = frame :: outer)
    (hleads : (Reader.ofText t).LeadsTo frame.reader) :
    Ends disk dirs rounds run outer (frame.file :: files)
      (readFile disk dirs rounds (.ofRun run (frame.file :: files)) (ofReader t frame.reader)) := by
  induction rounds generalizing run frame outer files t with
  | zero => exact .cut (Nat.zero_le _)
  | succ rounds ih =>
    have hne : run.frames ≠ [] := by simp [hframes]
    rw [readFile, atEnd_ofReader hleads]
    by_cases hrest : frame.reader.rest = []
    · have hleave : run.step disk dirs = .ok { run with frames := outer } :=
        Run.step_of_end hframes hrest
      rw [hrest, if_pos List.isEmpty_nil, Machine.ofRun_frames run outer]
      exact .done (.single hne hleave) rfl
    · have hfollows : Follows (processFile (readFile disk dirs rounds)) t run frame outer files
          (run.step disk dirs) _ := step_follows hframes hrest hleads
      rw [if_neg (by simpa using hrest)]
      generalize hstep : run.step disk dirs = result at hfollows
      generalize step disk dirs _ _ _ = outcome at hfollows ⊢
      cases hfollows with
      | failed stop s => exact .failed (.refl run) hne hstep
      | @moved next reader hbehind hnext =>
        refine (ih _ hnext hbehind).of_steps (.single hne hstep) ?_
        rw [List.length_singleton, Nat.add_comm]
      | @entered reader file content hbehind =>
        -- The included file is read first.  If it comes to its end, the run is back behind
        -- the include.
        have hinner : Ends disk dirs rounds
            ({ run with frames := { frame with reader } :: outer }.enter file content)
            ({ frame with reader } :: outer) (frame.file :: files)
            (processFile (readFile disk dirs rounds) (.ofRun run (frame.file :: files)) file
              content) :=
          processFile_ends (ih ⟨file, .ofText content⟩ rfl (.refl _))
        generalize processFile (readFile disk dirs rounds) (.ofRun run (frame.file :: files)) file
          content = inner at hinner ⊢
        cases hinner with
        | done hsteps hnext =>
          refine (ih _ hnext hbehind).of_steps (.head hne hstep hsteps) ?_
          rw [List.length_cons]
          omega
        | failed hsteps hframes' hstop => exact .failed (.head hne hstep hsteps) hframes' hstop
        | cut hrounds => exact .cut (Nat.lt_of_le_of_lt hrounds (Run.step_workLeft hne hstep))

/-! ## Safety -/

namespace Machine

theorem warnUnclosed_ofRun (run : Run) :
    (if (ofRun run []).blocks.size > 0 then do
        let outermost ← bottom (ofRun run []).blocks
        .ok ((none : Option Stop),
          (ofRun run []).warn (.unclosedBlocks (ofRun run []).blocks.size) outermost.opened)
      else .ok (none, ofRun run [])) = .ok (none, ofRun run.warnUnclosed []) := by
  have hblocks : (ofRun run []).blocks = run.blocks := rfl
  rw [hblocks, bottom, Run.warnUnclosed]
  cases hbottom : run.blocks.bottom? with
  | none =>
    have hempty : run.blocks.size = 0 := by
      simpa [Stack.bottom?, Stack.size, List.getLast?_eq_none_iff] using hbottom
    rw [hempty, if_neg (Nat.lt_irrefl 0)]
  | some outermost =>
    have hpos : run.blocks.size > 0 := by
      refine List.length_pos_iff.mpr fun hnil => ?_
      rw [Stack.bottom?, hnil] at hbottom
      cases hbottom
    rw [if_pos hpos]
    rfl

/-- A guarded run leaves what the run of a session leaves, if there are enough rounds for it. -/
theorem process_or_cut (m : Machine) (predefined : Option Macros) (session : Session)
    (hpredefined : session.settings.predefined = predefined.getD .empty) (disk : Files.Disk)
    (root : Text) (rounds : Nat) :
    m.process predefined session.settings.includeDirectories disk root rounds =
        .ok ((session.process disk root).1, .ofRun (session.process disk root).2.run []) ∨
      rounds ≤ disk.readingWork ∧
        m.process predefined session.settings.includeDirectories disk root rounds =
          .error .endlessLoop := by
  unfold process
  dsimp only
  cases hfetch : disk.fetch (disk.canonical root) with
  | error failure =>
    have hopened : session.opened disk root = .error failure := by
      rw [Session.opened, hfetch]
      rfl
    rw [Session.process_of_unopened hopened]
    have hreset : ofRun session.reset.run [] = { m.reset predefined with emitted := [] } := by
      rw [Session.reset, hpredefined]
      rfl
    rw [hreset]
    exact .inl rfl
  | ok result =>
    obtain ⟨file, content⟩ := result
    have hopened := session.opened_of_fetch hfetch
    have hreset : m.reset predefined = ofRun (.ofMacros session.settings.predefined) [] := by
      rw [hpredefined]
      rfl
    have hends : Ends disk session.settings.includeDirectories rounds
        ((Run.ofMacros session.settings.predefined).enter file content) [] []
        (processFile (readFile disk session.settings.includeDirectories rounds)
          (m.reset predefined) file content) := by
      rw [hreset]
      exact processFile_ends (readFile_ends ⟨file, .ofText content⟩ rfl (.refl _))
    rw [Session.process_of_opened hopened]
    dsimp only
    generalize processFile (readFile disk session.settings.includeDirectories rounds)
      (m.reset predefined) file content = result at hends ⊢
    cases hends with
    | done hsteps hframes =>
      rw [Run.finish_eq_ok_iff.mpr ⟨_, hsteps, hframes⟩, ok_bind]
      exact .inl (warnUnclosed_ofRun _)
    | failed hsteps hframes hstop =>
      rw [Run.finish_eq_error_iff.mpr ⟨_, hsteps, hframes, hstop⟩, ok_bind]
      exact .inl rfl
    | cut hrounds => exact .inr ⟨Nat.le_trans hrounds (Run.workLeft_opened_le hopened), rfl⟩

/-- A guarded run is never misused, whatever the options, the files and the state left by
earlier runs are: all that can happen is that it is given too few rounds for the characters and
ends of its files.  With more rounds it comes to its end, successful or not, and it leaves what
the run of a session leaves. -/
theorem process_safe (m : Machine) (predefined : Option Macros) (dirs : List Text) (earlier : Run)
    (disk : Files.Disk) (root : Text) :
    (∀ rounds misuse, m.process predefined dirs disk root rounds = .error misuse →
      misuse = .endlessLoop ∧ rounds ≤ disk.readingWork) ∧
    ∀ extra,
      let session : Session := ⟨⟨dirs, predefined.getD .empty⟩, earlier⟩
      m.process predefined dirs disk root (disk.readingWork + 1 + extra) =
        .ok ((session.process disk root).1, .ofRun (session.process disk root).2.run []) := by
  have hprocess := process_or_cut m predefined ⟨⟨dirs, predefined.getD .empty⟩, earlier⟩ rfl disk
    root
  refine ⟨fun rounds misuse hmisuse => ?_, fun extra => ?_⟩
  · rcases hprocess rounds with hok | ⟨hcut, herror⟩
    · rw [hok] at hmisuse
      cases hmisuse
    · rw [herror] at hmisuse
      cases hmisuse
      exact ⟨rfl, hcut⟩
  · rcases hprocess (disk.readingWork + 1 + extra) with hok | ⟨hcut, -⟩
    · exact hok
    · omega

end Machine

end XsPrep.Guarded
