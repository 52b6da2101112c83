import XsPrep.Proofs.Preprocess.Steps

/-!
# What a run keeps

A run that fails drops its output.  It keeps a ledger: the macros, the files it entered and the
warnings.  A passage makes at most one entry in the ledger, and what the entry is depends on the
ledger and the disk alone (`Ledger.enter`).  A step writes the entry of its passage and nothing
else (`Run.ledger_step`), so the ledger of a run is that of its passages, one after the other
(`Run.Steps.ledger_eq`).
-/

namespace XsPrep

/-- A position in the file of a passage. -/
def Passage.place (passage : Passage) (position : Position) : Place :=
  ⟨passage.file.path, position.line, position.column⟩

/-- The macros, the files entered and the warnings, the last two newest first. -/
structure Ledger where
  /-- The macros. -/
  macros : Macros
  /-- The files entered. -/
  processed : List Files.Address
  /-- The warnings. -/
  warned : List Diagnostic

namespace Ledger

/-- The ledger with one more warning. -/
def warn (ledger : Ledger) (advice : Advice) (place : Place) : Ledger :=
  { ledger with warned := advice.warning place :: ledger.warned }

/-- The ledger with the entry of a passage. -/
def enter (disk : Files.Disk) (dirs : List Text) (ledger : Ledger) (passage : Passage) : Ledger :=
  match passage.reading with
  | .construct (.define name value) => { ledger with macros := ledger.macros.define name value }
  | .construct (.undefine name position) =>
    if name.isEmpty then ledger.warn .nothingToUndefine (passage.place position)
    else
      match ledger.macros.undefine? name with
      | some macros => { ledger with macros }
      | none => ledger.warn (.notDefined name) (passage.place position)
  | .construct (.includeFile name position) =>
    match Lookup.find disk (Path.directory passage.file.path) dirs name with
    | .error _ => ledger
    | .ok (file, _) =>
      if ledger.processed.contains file then
        ledger.warn (.alreadyIncluded file.path) (passage.place position)
      else { ledger with processed := file :: ledger.processed }
  | _ => ledger

end Ledger

namespace Run

variable {disk : Files.Disk} {dirs : List Text} {run next last : Run} {frame : Frame}
  {outer : List Frame}

/-- The ledger of a run. -/
def ledger (run : Run) : Ledger := ⟨run.macros, run.processed, run.warned⟩

theorem skipLine_ledger (run : Run) (frame : Frame) (line : SkippedLine) :
    (run.skipLine frame line).ledger = run.ledger := by
  unfold skipLine
  split
  · rfl
  · split <;> rfl
  · rfl

/-- A construct writes its entry. -/
theorem execute_ledger {construct : Construct} (reader : Reader)
    (h : run.execute disk dirs frame construct = .ok next) :
    next.ledger = run.ledger.enter disk dirs ⟨frame.file, reader, .construct construct⟩ := by
  cases construct with
  | undefine name position =>
    cases h
    simp only [undefine, Ledger.enter]
    split
    · rfl
    · have hmacros : run.ledger.macros = run.macros := rfl
      rw [hmacros]
      cases run.macros.undefine? name with
      | none => rfl
      | some macros => rfl
  | includeFile name position =>
    have hprocessed : run.ledger.processed = run.processed := rfl
    obtain ⟨file, content, hfind, hcases⟩ := execute_include h
    simp only [Ledger.enter, hfind, hprocessed]
    rcases hcases with ⟨hknown, rfl⟩ | ⟨hnew, rfl⟩
    · rw [if_pos (by simpa using hknown)]
      rfl
    · rw [if_neg (by simpa using hnew)]
      rfl
  | expansion name =>
    simp only [execute] at h
    split at h <;> (cases h; rfl)
  | closeBlock position =>
    simp only [execute] at h
    split at h
    · cases h
      rfl
    · cases h
  | _ =>
    cases h
    rfl

/-- A step writes the entry of its passage. -/
theorem ledger_step (hrun : run.frames ≠ []) (h : run.step disk dirs = .ok next) :
    next.ledger = run.passage?.toList.foldl (Ledger.enter disk dirs) run.ledger := by
  obtain ⟨frame, outer, hframes⟩ := List.exists_cons_of_ne_nil hrun
  cases step_move hframes h with
  | leave hend =>
    rw [passage?_of_end hframes hend]
    rfl
  | skip hrest hskip hread =>
    rw [passage?_of_skipping hframes hrest hskip]
    exact skipLine_ledger ..
  | read hrest hskip hread hexecute =>
    rw [passage?_of_construct hframes hrest hskip hread, execute_ledger frame.reader hexecute]
    rfl

/-- The ledger of a run has the entries of the passages on its way. -/
theorem Steps.ledger_eq {visited : List Run} (h : Steps disk dirs run visited last) :
    last.ledger = (visited.filterMap passage?).foldl (Ledger.enter disk dirs) run.ledger := by
  induction h with
  | refl run => rfl
  | head hframes hstep _ ih =>
    rw [filterMap_passage?_cons, List.foldl_append, ← ledger_step hframes hstep, ih]

end Run

namespace Session

/-- The ledger of a run before its first passage: the predefined macros and the root file, if it
can be read. -/
def firstLedger (session : Session) (disk : Files.Disk) (root : Text) : Ledger where
  macros := session.settings.predefined
  processed := (disk.fetch (disk.canonical root)).toOption.toList.map Prod.fst
  warned := []

/-- The ledger of a run with the entries of all its passages. -/
def ledger (session : Session) (disk : Files.Disk) (root : Text) : Ledger :=
  (session.passages disk root).foldl (Ledger.enter disk session.settings.includeDirectories)
    (session.firstLedger disk root)

theorem ledger_opened {session : Session} {disk : Files.Disk} {root : Text} {start : Run}
    (hopened : session.opened disk root = .ok start) :
    start.ledger = session.firstLedger disk root := by
  unfold opened at hopened
  unfold firstLedger
  cases hfetch : disk.fetch (disk.canonical root) with
  | error failure =>
    rw [hfetch] at hopened
    cases hopened
  | ok file =>
    rw [hfetch] at hopened
    cases hopened
    rfl

theorem fetch_of_unopened {session : Session} {disk : Files.Disk} {root : Text}
    {failure : Files.Failure} (hopened : session.opened disk root = .error failure) :
    disk.fetch (disk.canonical root) = .error failure := by
  unfold opened at hopened
  cases hfetch : disk.fetch (disk.canonical root) with
  | error failure' =>
    rw [hfetch] at hopened
    cases hopened
    rfl
  | ok file =>
    rw [hfetch] at hopened
    cases hopened

/-- What a failing run leaves is the ledger of its passages.  The failing step has none. -/
theorem ledger_of_failure {session : Session} {disk : Files.Disk} {root : Text} {stop : Stop}
    (hstop : (session.process disk root).1 = some stop) :
    (session.process disk root).2.run.ledger = session.ledger disk root := by
  cases session.course disk root with
  | unopened failure hopened hprocess =>
    rw [hprocess, ledger, passages, states_of_unopened hopened, firstLedger,
      fetch_of_unopened hopened]
    rfl
  | finished start last visited hopened hsteps hframes hprocess =>
    rw [hprocess] at hstop
    cases hstop
  | stopped start last visited found hopened hsteps hframes hfound hprocess =>
    have habandon : last.abandon.ledger = last.ledger := rfl
    rw [hprocess, ledger, passages, states_of_steps hopened hsteps (.inr ⟨found, hfound⟩),
      List.dropLast_concat, ← ledger_opened hopened, habandon]
    exact hsteps.ledger_eq

end Session

end XsPrep
