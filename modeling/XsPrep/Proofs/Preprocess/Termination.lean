import XsPrep.Proofs.Preprocess.Entered
import Mathlib.Data.List.Dedup
import Mathlib.Data.List.Perm.Subperm

/-!
# Runs end

The work that is left bounds the steps that are left, and at first it is one step
for every character of every file and one more for every file
(`Disk.readingWork`).  The files that a run is in the middle of are distinct, so
includes are nested at most as deep as there are files.  Both bounds hold
whatever the files include, also themselves and each other.
-/

namespace XsPrep

namespace Files.Disk

/-- The number of regular files. -/
def fileCount (disk : Disk) : Nat := (disk.files.map Prod.fst).dedup.length

/-- One step for each character of each file, and one for each file. -/
def readingWork (disk : Disk) : Nat :=
  disk.files.foldr (fun file work => file.2.characters.length + 1 + work) 0

end Files.Disk

namespace Run

variable {disk : Files.Disk} {dirs : List Text} {run next last : Run} {frame : Frame}
  {outer : List Frame}

theorem unreadWork_nil (files : List (Files.Address × Text)) :
    unreadWork [] files =
      files.foldr (fun file work => file.2.characters.length + 1 + work) 0 := by
  induction files with
  | nil => rfl
  | cons e files ih =>
    obtain ⟨file, content⟩ := e
    rw [unreadWork, ih]
    rfl

/-- Each step takes at least one off the work that is left. -/
theorem Steps.length_add_workLeft_le {visited : List Run}
    (h : Steps disk dirs run visited last) :
    visited.length + last.workLeft disk ≤ run.workLeft disk := by
  induction h with
  | refl run => simp
  | head hframes hstep _ ih =>
    have hless := step_workLeft hframes hstep
    rw [List.length_cons]
    omega

/-- The work of a run at its beginning. -/
theorem workLeft_opened_le {session : Session} {root : Text}
    (hopened : session.opened disk root = .ok run) : run.workLeft disk ≤ disk.readingWork := by
  obtain ⟨file, content, hcontent, rfl⟩ := Session.eq_of_opened hopened
  have henter : unreadWork [file] disk.files + fileWork content ≤ unreadWork [] disk.files :=
    unreadWork_enter (Files.Disk.mem_files_of_content? hcontent) rfl
  rw [unreadWork_nil] at henter
  simp only [workLeft, enter, ofMacros, frameWork, Reader.ofText, fileWork,
    Files.Disk.readingWork] at henter ⊢
  omega

/-- Includes are nested at most as deep as there are files. -/
theorem Sound.length_frames_le (h : run.Sound disk) : run.frames.length ≤ disk.fileCount := by
  have hknown : run.frames.map Frame.file ⊆ (disk.files.map Prod.fst).dedup := by
    intro file hfile
    obtain ⟨content, hcontent⟩ := h.known file (h.entered.subset hfile)
    exact List.mem_dedup.mpr
      (List.mem_map_of_mem (f := Prod.fst) (Files.Disk.mem_files_of_content? hcontent))
  have hlength := (List.Nodup.subperm h.frames_nodup hknown).length_le
  rwa [List.length_map] at hlength

/-- A step inside a file moves forward in it, and at most enters one more file. -/
theorem Sound.step_forward (h : run.Sound disk) (hframes : run.frames = frame :: outer)
    (hrest : frame.reader.rest ≠ []) (hstep : run.step disk dirs = .ok next) :
    ∃ reader entered, next.frames = entered ++ { frame with reader } :: outer ∧
      entered.length ≤ 1 ∧ frame.reader.position.offset < reader.position.offset := by
  cases step_fileMove hframes hstep with
  | leave hend _ _ _ => exact absurd hend hrest
  | advance _ reader _ _ hat hnext _ =>
    exact ⟨reader, [], hnext, Nat.zero_le 1, h.offset_lt hframes hat.leadsTo (hat.shorter hrest)⟩
  | enter _ reader file content _ _ hat _ _ hnext _ =>
    exact ⟨reader, [⟨file, .ofText content⟩], hnext, Nat.le_refl 1,
      h.offset_lt hframes hat.leadsTo (hat.shorter hrest)⟩

end Run

/-- Whether a run succeeds is decided in the state it halts in. -/
theorem Session.process_none_iff {session : Session} {disk : Files.Disk} {root : Text}
    {start last : Run} {visited : List Run} (hopened : session.opened disk root = .ok start)
    (hsteps : Run.Steps disk session.settings.includeDirectories start visited last)
    (hhalted : last.Halted disk session.settings.includeDirectories) :
    (session.process disk root).1 = none ↔ last.frames = [] := by
  cases session.course disk root with
  | unopened failure hfailed _ =>
    rw [hfailed] at hopened
    cases hopened
  | finished start' last' visited' hopened' hsteps' hframes hprocess =>
    rw [hopened] at hopened'
    cases hopened'
    obtain ⟨-, rfl⟩ := hsteps.eq_of_halted hhalted hsteps' (.inl hframes)
    rw [hprocess]
    exact iff_of_true rfl hframes
  | stopped start' last' visited' stop hopened' hsteps' hframes hstop hprocess =>
    rw [hopened] at hopened'
    cases hopened'
    obtain ⟨-, rfl⟩ := hsteps.eq_of_halted hhalted hsteps' (.inr ⟨stop, hstop⟩)
    rw [hprocess]
    exact iff_of_false (Option.some_ne_none stop) hframes

/-- Every run ends, on every disk.  If the root file can be read, steps lead to a
state in which the run halts and its success is decided.  No way from the
beginning has more steps than the files have characters and ends, in all states
on it includes are nested at most as deep as there are files, and each step
inside a file moves forward in that file. -/
theorem Session.run_ends (session : Session) (disk : Files.Disk) (root : Text) :
    (∃ failure, session.opened disk root = .error failure) ∨
    ∃ start, session.opened disk root = .ok start ∧
      (∃ visited last, Run.Steps disk session.settings.includeDirectories start visited last ∧
        last.Halted disk session.settings.includeDirectories ∧
        ((session.process disk root).1 = none ↔ last.frames = [])) ∧
      ∀ visited state, Run.Steps disk session.settings.includeDirectories start visited state →
        visited.length ≤ disk.readingWork ∧
        state.frames.length ≤ disk.fileCount ∧
        ∀ frame outer next, state.frames = frame :: outer → frame.reader.rest ≠ [] →
          state.step disk session.settings.includeDirectories = .ok next →
          ∃ reader entered, next.frames = entered ++ { frame with reader } :: outer ∧
            entered.length ≤ 1 ∧ frame.reader.position.offset < reader.position.offset := by
  cases hopened : session.opened disk root with
  | error failure => exact .inl ⟨failure, rfl⟩
  | ok start =>
    refine .inr ⟨start, rfl, ?_, ?_⟩
    · obtain ⟨visited, last, hsteps, hhalted⟩ :=
        Run.exists_steps_halted disk session.settings.includeDirectories start
      exact ⟨visited, last, hsteps, hhalted, process_none_iff hopened hsteps hhalted⟩
    · intro visited state hsteps
      have hsound := ((Run.Sound.of_opened hopened).of_steps hsteps).2
      refine ⟨?_, hsound.length_frames_le, ?_⟩
      · have hlength := hsteps.length_add_workLeft_le
        have hwork := Run.workLeft_opened_le hopened
        omega
      · intro frame outer next hframes hrest hstep
        exact hsound.step_forward hframes hrest hstep

end XsPrep
