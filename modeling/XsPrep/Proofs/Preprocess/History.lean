import XsPrep.Proofs.Preprocess.Steps

/-!
# Earlier runs

A session keeps the state that its last run left, and a run reads the settings alone
(`Session.process_eq_of_settings`).  No run changes the settings
(`Session.process_settings`) or leaves a file open (`Session.process_frames`), so after
any number of runs, over whatever files, a session does what a new one does
(`Session.history_forgotten`).
-/

namespace XsPrep

@[simp] theorem Run.warnUnclosed_frames (run : Run) : run.warnUnclosed.frames = run.frames := by
  unfold warnUnclosed
  split <;> rfl

namespace Session

variable {session session' : Session}

/-! ## One run -/

/-- What a run does and leaves depends on the settings alone. -/
theorem process_eq_of_settings (h : session.settings = session'.settings) (disk : Files.Disk)
    (root : Text) : session.process disk root = session'.process disk root := by
  have hreset : session.reset = session'.reset := by
    rw [reset, reset, h]
  rw [process, process, hreset]

theorem process_settings (session : Session) (disk : Files.Disk) (root : Text) :
    (session.process disk root).2.settings = session.settings := by
  cases session.course disk root with
  | unopened _ _ hprocess => rw [hprocess]; rfl
  | finished _ _ _ _ _ _ hprocess => rw [hprocess]
  | stopped _ _ _ _ _ _ _ _ hprocess => rw [hprocess]

/-- A run leaves all files, whether it succeeds or not. -/
theorem process_frames (session : Session) (disk : Files.Disk) (root : Text) :
    (session.process disk root).2.run.frames = [] := by
  cases session.course disk root with
  | unopened _ _ hprocess => rw [hprocess]; rfl
  | finished _ last _ _ _ hframes hprocess =>
    rw [hprocess, Run.warnUnclosed_frames, hframes]
  | stopped _ _ _ _ _ _ _ _ hprocess => rw [hprocess]; rfl

/-! ## Many runs -/

/-- The session after runs over root files, each with the files as they were then. -/
def processAll (session : Session) (calls : List (Files.Disk × Text)) : Session :=
  calls.foldl (fun session call => (session.process call.1 call.2).2) session

theorem processAll_settings (session : Session) (calls : List (Files.Disk × Text)) :
    (session.processAll calls).settings = session.settings := by
  induction calls generalizing session with
  | nil => rfl
  | cons call calls ih =>
    have hcalls := ih (session.process call.1 call.2).2
    exact hcalls.trans (process_settings session call.1 call.2)

theorem processAll_frames (h : session.run.frames = []) (calls : List (Files.Disk × Text)) :
    (session.processAll calls).run.frames = [] := by
  induction calls generalizing session with
  | nil => exact h
  | cons call calls ih => exact ih (process_frames session call.1 call.2)

/-- A session has no memory.  Whatever it was run over before, with the files as they
were then, a further run gives the result and leaves the state that it gives and leaves
in a new session with the same include directories and macros.  The directories are the
same ones as long as their paths are absolute or the working directory stays.  After
every run no file is open. -/
theorem history_forgotten (first disk : Files.Disk) (includeDirectories : List Text)
    (predefined : Macros) (calls : List (Files.Disk × Text)) (root : Text)
    (hsame : includeDirectories.map disk.absolute = includeDirectories.map first.absolute) :
    ((new first includeDirectories predefined).processAll calls).process disk root =
      (new disk includeDirectories predefined).process disk root ∧
    ((new first includeDirectories predefined).processAll calls).run.frames = [] ∧
    (((new first includeDirectories predefined).processAll calls).process disk
      root).2.run.frames = [] := by
  refine ⟨process_eq_of_settings ?_ disk root, processAll_frames rfl calls, process_frames ..⟩
  rw [processAll_settings, new, new, hsame]

/-- The run over the main file fails in the file that it includes, with blocks open and
macros bound and unbound. -/
def broken : Files.Disk where
  nodes := [
    ([bytes "w"], .directory),
    ([bytes "w", bytes "lib"], .directory),
    ([bytes "w", bytes "main.xs"],
      .file (bytes "#define B\n#undef A\n#undef A\n#ifdef B\n#include \"i.xs\"\n")),
    ([bytes "w", bytes "lib", bytes "i.xs"], .file (bytes "x#ifdef C\n#endif\n#ifdef B\n\""))]
  workingDirectory := [bytes "w"]

/-- The same files after they were changed. -/
def repaired : Files.Disk where
  nodes := [
    ([bytes "w"], .directory),
    ([bytes "w", bytes "lib"], .directory),
    ([bytes "w", bytes "main.xs"], .file (bytes "#include \"i.xs\"\n#ifdef B\n!\n#endif\n@A@")),
    ([bytes "w", bytes "lib", bytes "i.xs"], .file (bytes "i"))]
  workingDirectory := [bytes "w"]

theorem history_forgotten_repaired :
    (((new broken [bytes "lib"] (.ofList [(bytes "A", bytes "a")])).process broken
      (bytes "main.xs")).2.run.blocks.size = 2) ∧
    ((new broken [bytes "lib"] (.ofList [(bytes "A", bytes "a")])).processAll
        [(broken, bytes "main.xs"), (repaired, bytes "none.xs"), (broken, bytes "main.xs")]).process
        repaired (bytes "main.xs") =
      (new repaired [bytes "lib"] (.ofList [(bytes "A", bytes "a")])).process repaired
        (bytes "main.xs") ∧
    ((new repaired [bytes "lib"] (.ofList [(bytes "A", bytes "a")])).process repaired
      (bytes "main.xs")).2.run.output = bytes "ia" := by
  refine ⟨by decide +kernel, ?_, by decide +kernel⟩
  exact (history_forgotten broken repaired [bytes "lib"] (.ofList [(bytes "A", bytes "a")])
    [(broken, bytes "main.xs"), (repaired, bytes "none.xs"), (broken, bytes "main.xs")]
    (bytes "main.xs") rfl).1

end Session

end XsPrep
