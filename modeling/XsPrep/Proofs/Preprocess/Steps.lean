import XsPrep.Preprocess.Session
import XsPrep.Proofs.Source.Reading

/-!
# The steps of a run

A step leaves a file, passes a skipped line or carries out a construct
(`Move`), and that is all it can do (`step_move`).  `Steps run visited last` says
that steps lead from `run` through the states `visited` to `last`.  A run halts
where no file is left or a step fails, every run gets there
(`exists_steps_halted`), and the outcome of a run is decided there
(`finish_eq_of_steps`).

The states of a session's run are the ones on this way (`Session.states`).  What
the run read is a list of passages: where in which file a step began, and what
stood there (`Session.passages`).
-/

namespace XsPrep

namespace Files.Disk

/-- The content of the regular file at an address. -/
def content? (disk : Disk) (address : Address) : Option Text :=
  (disk.files.find? fun e => e.1 == address).map Prod.snd

theorem content?_of_find? {disk : Disk} {address file : Address} {content : Text}
    (h : (disk.files.find? fun e => e.1 == address) = some (file, content)) :
    file = address ∧ disk.content? file = some content := by
  have haddress : file = address := by simpa using List.find?_some h
  subst haddress
  exact ⟨rfl, by rw [content?, h]; rfl⟩

theorem content?_of_regularFile? {disk : Disk} {path : Text} {file : Address} {content : Text}
    (h : disk.regularFile? path = some (file, content)) : disk.content? file = some content := by
  unfold regularFile? at h
  split at h
  · exact (content?_of_find? h).2
  · cases h

theorem content?_of_fetch {disk : Disk} {path : Text} {file : Address} {content : Text}
    (h : disk.fetch path = .ok (file, content)) : disk.content? file = some content := by
  unfold fetch at h
  split at h
  · cases h
  · split at h
    · rename_i hfound
      cases h
      exact (content?_of_find? hfound).2
    · cases h

theorem mem_files_of_content? {disk : Disk} {file : Address} {content : Text}
    (h : disk.content? file = some content) : (file, content) ∈ disk.files := by
  obtain ⟨e, he, rfl⟩ := Option.map_eq_some_iff.mp h
  have haddress : e.1 = file := by simpa using List.find?_some he
  subst haddress
  exact List.mem_of_find?_eq_some he

end Files.Disk

/-- What stands where a step begins. -/
inductive Reading where
  /-- A construct, in text that is read. -/
  | construct (c : Construct)
  /-- A line, in text that is skipped. -/
  | line (l : SkippedLine)
deriving DecidableEq, Repr

namespace Reading

/-- The reading stands at `r`, up to `r'`. -/
inductive At (r : Reader) : Reading → Reader → Prop where
  | construct {c : Construct} {r' : Reader} (hread : Construct.read r = .ok (c, r')) :
      At r (.construct c) r'
  | line {l : SkippedLine} {r' : Reader} (hread : SkippedLine.read r = (l, r')) :
      At r (.line l) r'

theorem At.leadsTo {r r' : Reader} {reading : Reading} (h : At r reading r') : r.LeadsTo r' := by
  cases h with
  | construct hread => exact Construct.leadsTo_read hread
  | line hread =>
    have hleads := SkippedLine.leadsTo_read r
    rwa [hread] at hleads

theorem At.shorter {r r' : Reader} {reading : Reading} (h : At r reading r')
    (hrest : r.rest ≠ []) : r'.rest.length < r.rest.length := by
  cases h with
  | construct hread => exact Construct.read_shorter hrest hread
  | line hread =>
    have hshorter := SkippedLine.read_shorter hrest
    rwa [hread] at hshorter

end Reading

/-- A step inside a file: where it begins, and what it reads there. -/
structure Passage where
  /-- The file. -/
  file : Files.Address
  /-- Where the step begins. -/
  reader : Reader
  /-- What it reads. -/
  reading : Reading
deriving DecidableEq, Repr

/-- Whether a passage is an include that is carried out. -/
def Passage.isInclude (passage : Passage) : Bool :=
  match passage.reading with
  | .construct (.includeFile _ _) => true
  | _ => false

namespace Run

variable {disk : Files.Disk} {dirs : List Text} {run next last : Run} {frame : Frame}
  {outer : List Frame}

/-! ## One step -/

/-- What a step does to a run whose innermost file is that of `frame`. -/
inductive Move (disk : Files.Disk) (dirs : List Text) (run : Run) (frame : Frame)
    (outer : List Frame) : Run → Prop where
  /-- It leaves a file that is at its end. -/
  | leave (hend : frame.reader.rest = []) :
      Move disk dirs run frame outer { run with frames := outer }
  /-- It passes a line of a skipped block. -/
  | skip {line : SkippedLine} {reader : Reader} (hrest : frame.reader.rest ≠ [])
      (hskip : run.isSkipping = true) (hread : SkippedLine.read frame.reader = (line, reader)) :
      Move disk dirs run frame outer
        ({ run with frames := { frame with reader } :: outer }.skipLine frame line)
  /-- It carries out a construct. -/
  | read {construct : Construct} {reader : Reader} {next : Run} (hrest : frame.reader.rest ≠ [])
      (hskip : run.isSkipping = false)
      (hread : Construct.read frame.reader = .ok (construct, reader))
      (hexecute : { run with frames := { frame with reader } :: outer }.execute disk dirs frame
        construct = .ok next) :
      Move disk dirs run frame outer next

theorem step_of_end (hframes : run.frames = frame :: outer) (hend : frame.reader.rest = []) :
    run.step disk dirs = .ok { run with frames := outer } := by
  rw [step, hframes]
  simp [hend]

theorem step_of_skipping (hframes : run.frames = frame :: outer)
    (hrest : frame.reader.rest ≠ []) (hskip : run.isSkipping = true) :
    run.step disk dirs =
      .ok ({ run with frames := { frame with reader := (SkippedLine.read frame.reader).2 } :: outer
        }.skipLine frame (SkippedLine.read frame.reader).1) := by
  rw [step, hframes]
  simp [hrest, hskip]

theorem step_of_flaw (hframes : run.frames = frame :: outer) (hrest : frame.reader.rest ≠ [])
    (hskip : run.isSkipping = false) {e : SourceError}
    (hread : Construct.read frame.reader = .error e) :
    run.step disk dirs = .error ⟨frame.place e.position, .flawed e.flaw⟩ := by
  rw [step, hframes]
  simp [hrest, hskip, hread]

theorem step_of_construct (hframes : run.frames = frame :: outer)
    (hrest : frame.reader.rest ≠ []) (hskip : run.isSkipping = false) {construct : Construct}
    {reader : Reader} (hread : Construct.read frame.reader = .ok (construct, reader)) :
    run.step disk dirs =
      { run with frames := { frame with reader } :: outer }.execute disk dirs frame
        construct := by
  rw [step, hframes]
  simp [hrest, hskip, hread]

/-- A step is one of the three moves. -/
theorem step_move (hframes : run.frames = frame :: outer) (h : run.step disk dirs = .ok next) :
    Move disk dirs run frame outer next := by
  by_cases hrest : frame.reader.rest = []
  · rw [step_of_end hframes hrest] at h
    cases h
    exact .leave hrest
  · cases hskip : run.isSkipping with
    | true =>
      rw [step_of_skipping hframes hrest hskip] at h
      cases h
      exact .skip hrest hskip rfl
    | false =>
      cases hread : Construct.read frame.reader with
      | error e =>
        rw [step_of_flaw hframes hrest hskip hread] at h
        cases h
      | ok result =>
        obtain ⟨construct, reader⟩ := result
        rw [step_of_construct hframes hrest hskip hread] at h
        exact .read hrest hskip hread h

/-- The passage of the next step.  There is none where the run is at the end of a
file or at a flaw. -/
def passage? (run : Run) : Option Passage :=
  match run.frames with
  | [] => none
  | frame :: _ =>
    if frame.reader.rest.isEmpty then none
    else if run.isSkipping then
      some ⟨frame.file, frame.reader, .line (SkippedLine.read frame.reader).1⟩
    else
      match Construct.read frame.reader with
      | .error _ => none
      | .ok (construct, _) => some ⟨frame.file, frame.reader, .construct construct⟩

theorem passage?_of_end (hframes : run.frames = frame :: outer) (hend : frame.reader.rest = []) :
    run.passage? = none := by
  rw [passage?, hframes]
  simp [hend]

theorem passage?_of_skipping (hframes : run.frames = frame :: outer)
    (hrest : frame.reader.rest ≠ []) (hskip : run.isSkipping = true) :
    run.passage? =
      some ⟨frame.file, frame.reader, .line (SkippedLine.read frame.reader).1⟩ := by
  rw [passage?, hframes]
  simp [hrest, hskip]

theorem passage?_of_construct (hframes : run.frames = frame :: outer)
    (hrest : frame.reader.rest ≠ []) (hskip : run.isSkipping = false) {construct : Construct}
    {reader : Reader} (hread : Construct.read frame.reader = .ok (construct, reader)) :
    run.passage? = some ⟨frame.file, frame.reader, .construct construct⟩ := by
  rw [passage?, hframes]
  simp [hrest, hskip, hread]

/-- Whether the next step is an include. -/
def atInclude (run : Run) : Bool := run.passage?.any Passage.isInclude

theorem atInclude_iff (hframes : run.frames = frame :: outer) :
    run.atInclude = true ↔ frame.reader.rest ≠ [] ∧ run.isSkipping = false ∧
      ∃ name position reader,
        Construct.read frame.reader = .ok (.includeFile name position, reader) := by
  rw [atInclude]
  by_cases hrest : frame.reader.rest = []
  · rw [passage?_of_end hframes hrest]
    simp [hrest]
  · cases hskip : run.isSkipping with
    | true =>
      rw [passage?_of_skipping hframes hrest hskip]
      simp [Passage.isInclude]
    | false =>
      cases hread : Construct.read frame.reader with
      | error e =>
        rw [passage?, hframes]
        simp [hrest, hskip, hread]
      | ok result =>
        obtain ⟨construct, reader⟩ := result
        rw [passage?_of_construct hframes hrest hskip hread]
        cases construct <;> simp [Passage.isInclude, hrest]

theorem filterMap_passage?_cons (run : Run) (visited : List Run) :
    (run :: visited).filterMap passage? =
      run.passage?.toList ++ visited.filterMap passage? := by
  rw [List.filterMap_cons]
  cases run.passage? <;> rfl

/-! ## What a step does to the files -/

@[simp] theorem skipLine_frames (run : Run) (frame : Frame) (line : SkippedLine) :
    (run.skipLine frame line).frames = run.frames := by
  unfold skipLine
  split
  · rfl
  · split <;> rfl
  · rfl

@[simp] theorem skipLine_processed (run : Run) (frame : Frame) (line : SkippedLine) :
    (run.skipLine frame line).processed = run.processed := by
  unfold skipLine
  split
  · rfl
  · split <;> rfl
  · rfl

theorem skipLine_warned (run : Run) (frame : Frame) (line : SkippedLine) :
    (run.skipLine frame line).warned = run.warned := by
  unfold skipLine
  split
  · rfl
  · split <;> rfl
  · rfl

theorem undefine_frames (run : Run) (name : Text) (place : Place) :
    (run.undefine name place).frames = run.frames := by
  unfold undefine
  split
  · rfl
  · split <;> rfl

theorem undefine_processed (run : Run) (name : Text) (place : Place) :
    (run.undefine name place).processed = run.processed := by
  unfold undefine
  split
  · rfl
  · split <;> rfl

/-- A construct that is no include leaves the files alone. -/
theorem execute_files {construct : Construct}
    (hno : ∀ name position, construct ≠ .includeFile name position)
    (h : run.execute disk dirs frame construct = .ok next) :
    next.frames = run.frames ∧ next.processed = run.processed := by
  cases construct with
  | includeFile name position => exact absurd rfl (hno name position)
  | undefine name position =>
    simp only [execute, Except.ok.injEq] at h
    subst h
    exact ⟨undefine_frames .., undefine_processed ..⟩
  | expansion name =>
    simp only [execute] at h
    split at h <;> (cases h; exact ⟨rfl, rfl⟩)
  | closeBlock position =>
    simp only [execute] at h
    split at h
    · cases h; exact ⟨rfl, rfl⟩
    · cases h
  | _ =>
    simp only [execute, Except.ok.injEq] at h
    subst h
    exact ⟨rfl, rfl⟩

/-- An include finds a file.  It warns if the run was there before, and enters it
if not. -/
theorem execute_include {name : Text} {position : Position}
    (h : run.execute disk dirs frame (.includeFile name position) = .ok next) :
    ∃ file content, Lookup.find disk (Path.directory frame.file.path) dirs name
        = .ok (file, content) ∧
      ((file ∈ run.processed ∧
          next = run.warn (.alreadyIncluded file.path) (frame.place position)) ∨
        (file ∉ run.processed ∧ next = run.enter file content)) := by
  simp only [execute, includeFile] at h
  split at h
  · cases h
  · rename_i file content hfind
    refine ⟨file, content, hfind, ?_⟩
    split at h
    · rename_i hmem
      cases h
      exact .inl ⟨by simpa using hmem, rfl⟩
    · rename_i hmem
      cases h
      exact .inr ⟨by simpa using hmem, rfl⟩

/-- The contents of files are found by their addresses. -/
theorem content?_of_find {name : Text} {directory : Text} {file : Files.Address} {content : Text}
    (h : Lookup.find disk directory dirs name = .ok (file, content)) :
    disk.content? file = some content := by
  unfold Lookup.find at h
  split at h
  · rename_i found hfound
    cases h
    obtain ⟨path, -, hpath⟩ := List.exists_of_findSome?_eq_some hfound
    exact Files.Disk.content?_of_regularFile? hpath
  · cases h

/-- What a step does to the files: it leaves the innermost one, it goes forward
in it, or it also enters a file the run has not been in. -/
inductive FileMove (disk : Files.Disk) (run : Run) (frame : Frame) (outer : List Frame)
    (next : Run) : Prop where
  | leave (hend : frame.reader.rest = []) (hpassage : run.passage? = none)
      (hframes : next.frames = outer) (hprocessed : next.processed = run.processed)
  | advance (reading : Reading) (reader : Reader) (hrest : frame.reader.rest ≠ [])
      (hpassage : run.passage? = some ⟨frame.file, frame.reader, reading⟩)
      (hat : reading.At frame.reader reader)
      (hframes : next.frames = { frame with reader } :: outer)
      (hprocessed : next.processed = run.processed)
  | enter (reading : Reading) (reader : Reader) (file : Files.Address) (content : Text)
      (hrest : frame.reader.rest ≠ [])
      (hpassage : run.passage? = some ⟨frame.file, frame.reader, reading⟩)
      (hat : reading.At frame.reader reader)
      (hcontent : disk.content? file = some content) (hnew : file ∉ run.processed)
      (hframes : next.frames = ⟨file, Reader.ofText content⟩ :: { frame with reader } :: outer)
      (hprocessed : next.processed = file :: run.processed)

theorem step_fileMove (hframes : run.frames = frame :: outer)
    (h : run.step disk dirs = .ok next) : FileMove disk run frame outer next := by
  cases step_move hframes h with
  | leave hend => exact .leave hend (passage?_of_end hframes hend) rfl rfl
  | skip hrest hskip hread =>
    rename_i line reader
    have hpassage := passage?_of_skipping hframes hrest hskip
    rw [hread] at hpassage
    exact .advance _ reader hrest hpassage (.line hread) (skipLine_frames ..)
      (skipLine_processed ..)
  | read hrest hskip hread hexecute =>
    rename_i construct reader
    have hpassage := passage?_of_construct hframes hrest hskip hread
    by_cases hinclude : ∃ name position, construct = .includeFile name position
    · obtain ⟨name, position, rfl⟩ := hinclude
      obtain ⟨file, content, hfind, hcases⟩ := execute_include hexecute
      rcases hcases with ⟨-, rfl⟩ | ⟨hnew, rfl⟩
      · exact .advance _ reader hrest hpassage (.construct hread) rfl rfl
      · exact .enter _ reader file content hrest hpassage (.construct hread)
          (content?_of_find hfind) hnew rfl rfl
    · have hno : ∀ name position, construct ≠ .includeFile name position :=
        fun name position heq => hinclude ⟨name, position, heq⟩
      obtain ⟨hframes', hprocessed⟩ := execute_files hno hexecute
      exact .advance _ reader hrest hpassage (.construct hread) hframes' hprocessed

/-! ## Many steps -/

/-- Steps lead from `run` to `last`, and `visited` are the states they were taken
from. -/
inductive Steps (disk : Files.Disk) (dirs : List Text) : Run → List Run → Run → Prop where
  | refl (run : Run) : Steps disk dirs run [] run
  | head {run next last : Run} {visited : List Run} (hframes : run.frames ≠ [])
      (hstep : run.step disk dirs = .ok next) (hsteps : Steps disk dirs next visited last) :
      Steps disk dirs run (run :: visited) last

/-- No further step can be taken. -/
def Halted (disk : Files.Disk) (dirs : List Text) (run : Run) : Prop :=
  run.frames = [] ∨ ∃ stop, run.step disk dirs = .error stop

theorem Steps.trans {visited visited' : List Run} (h : Steps disk dirs run visited next)
    (h' : Steps disk dirs next visited' last) :
    Steps disk dirs run (visited ++ visited') last := by
  induction h with
  | refl run => exact h'
  | head hframes hstep _ ih => exact .head hframes hstep (ih h')

theorem Steps.single (hframes : run.frames ≠ []) (hstep : run.step disk dirs = .ok next) :
    Steps disk dirs run [run] next :=
  .head hframes hstep (.refl next)

/-- What every step keeps holds in all states on the way. -/
theorem Steps.invariant {P : Run → Prop}
    (hkeep : ∀ run next, P run → run.frames ≠ [] → run.step disk dirs = .ok next → P next)
    {visited : List Run} (h : Steps disk dirs run visited last) (hrun : P run) :
    (∀ state ∈ visited, P state) ∧ P last := by
  induction h with
  | refl run => exact ⟨by simp, hrun⟩
  | head hframes hstep _ ih =>
    obtain ⟨hvisited, hlast⟩ := ih (hkeep _ _ hrun hframes hstep)
    exact ⟨List.forall_mem_cons.mpr ⟨hrun, hvisited⟩, hlast⟩

/-- Every run comes to a halt. -/
theorem exists_steps_halted (disk : Files.Disk) (dirs : List Text) (run : Run) :
    ∃ visited last, Steps disk dirs run visited last ∧ last.Halted disk dirs := by
  induction hwork : run.workLeft disk using Nat.strongRecOn generalizing run with
  | _ work ih =>
    by_cases hframes : run.frames = []
    · exact ⟨[], run, .refl run, .inl hframes⟩
    · cases hstep : run.step disk dirs with
      | error stop => exact ⟨[], run, .refl run, .inr ⟨stop, hstep⟩⟩
      | ok next =>
        have hless := step_workLeft hframes hstep
        obtain ⟨visited, last, hsteps, hhalted⟩ := ih _ (hwork ▸ hless) next rfl
        exact ⟨run :: visited, last, .head hframes hstep hsteps, hhalted⟩

/-- Steps are determined: a run halts in one state only, by one way. -/
theorem Steps.eq_of_halted {visited visited' : List Run} {last' : Run}
    (h : Steps disk dirs run visited last) (hlast : last.Halted disk dirs)
    (h' : Steps disk dirs run visited' last') (hlast' : last'.Halted disk dirs) :
    visited = visited' ∧ last = last' := by
  induction h generalizing visited' with
  | refl run =>
    cases h' with
    | refl => exact ⟨rfl, rfl⟩
    | head hframes hstep _ =>
      rcases hlast with hlast | ⟨stop, hlast⟩
      · exact absurd hlast hframes
      · rw [hstep] at hlast; cases hlast
  | head hframes hstep _ ih =>
    cases h' with
    | refl =>
      rcases hlast' with hlast' | ⟨stop, hlast'⟩
      · exact absurd hlast' hframes
      · rw [hstep] at hlast'; cases hlast'
    | head _ hstep' hsteps' =>
      rw [hstep] at hstep'
      cases hstep'
      obtain ⟨rfl, rfl⟩ := ih hlast hsteps'
      exact ⟨rfl, rfl⟩

/-- Of two states that steps lead to, steps lead from the one to the other. -/
theorem Steps.linear {visited visited' : List Run} {last' : Run}
    (h : Steps disk dirs run visited last) (h' : Steps disk dirs run visited' last') :
    (∃ between, Steps disk dirs last between last') ∨
      ∃ between, Steps disk dirs last' between last := by
  induction h generalizing visited' with
  | refl run => exact .inl ⟨visited', h'⟩
  | head hframes hstep hsteps ih =>
    cases h' with
    | refl => exact .inr ⟨_, .head hframes hstep hsteps⟩
    | head _ hstep' hsteps' =>
      rw [hstep] at hstep'
      cases hstep'
      exact ih hsteps'

theorem Steps.mem_first {visited : List Run} (h : Steps disk dirs run visited last) :
    run ∈ visited ++ [last] := by
  cases h with
  | refl => exact List.mem_singleton_self run
  | head => exact List.mem_cons_self

theorem Steps.split {visited : List Run} (h : Steps disk dirs run visited last) {state : Run}
    (hstate : state ∈ visited ++ [last]) :
    ∃ before, Steps disk dirs run before state := by
  induction h with
  | refl run =>
    rw [List.nil_append, List.mem_singleton] at hstate
    subst hstate
    exact ⟨[], .refl state⟩
  | head hframes hstep _ ih =>
    rw [List.cons_append] at hstate
    rcases List.mem_cons.mp hstate with rfl | hstate
    · exact ⟨[], .refl _⟩
    · obtain ⟨before, hbefore⟩ := ih hstate
      exact ⟨_, .head hframes hstep hbefore⟩

/-- A way can be cut at each of its states. -/
theorem Steps.cut {visited : List Run} (h : Steps disk dirs run visited last)
    {earlier later : List Run} {state : Run}
    (hstates : visited ++ [last] = earlier ++ state :: later) :
    Steps disk dirs run earlier state ∧
      ∃ rest, Steps disk dirs state rest last ∧ state :: later = rest ++ [last] := by
  induction h generalizing earlier with
  | refl run =>
    obtain ⟨rfl, hstate⟩ := List.append_eq_singleton_iff.mp hstates.symm |>.resolve_right (by simp)
    cases hstate
    exact ⟨.refl _, [], .refl _, rfl⟩
  | @head run next last visited hrun hstep hsteps ih =>
    cases earlier with
    | nil =>
      cases hstates
      exact ⟨.refl _, _, .head hrun hstep hsteps, rfl⟩
    | cons first earlier =>
      cases List.cons.inj hstates with
      | intro hfirst hrest =>
        subst hfirst
        obtain ⟨hbefore, hafter⟩ := ih hrest
        exact ⟨.head hrun hstep hbefore, hafter⟩

/-! ## Outcomes -/

@[simp] theorem warnUnclosed_processed (run : Run) :
    run.warnUnclosed.processed = run.processed := by
  unfold warnUnclosed
  split <;> rfl

theorem finish_of_step (hframes : run.frames ≠ []) (hstep : run.step disk dirs = .ok next) :
    run.finish disk dirs = next.finish disk dirs := by
  rw [finish, dif_neg hframes]
  split
  · rename_i stop heq
    rw [hstep] at heq
    cases heq
  · rename_i next' heq
    rw [hstep] at heq
    cases heq
    rfl

theorem finish_of_end (hframes : run.frames = []) : run.finish disk dirs = .ok run := by
  rw [finish, dif_pos hframes]

theorem finish_of_stop (hframes : run.frames ≠ []) {stop : Stop}
    (hstep : run.step disk dirs = .error stop) : run.finish disk dirs = .error (stop, run) := by
  rw [finish, dif_neg hframes]
  split
  · rename_i stop' heq
    rw [hstep] at heq
    cases heq
    rfl
  · rename_i next heq
    rw [hstep] at heq
    cases heq

/-- The outcome of a run is that of every state on its way. -/
theorem finish_eq_of_steps {visited : List Run} (h : Steps disk dirs run visited last) :
    run.finish disk dirs = last.finish disk dirs := by
  induction h with
  | refl run => rfl
  | head hframes hstep _ ih => rw [finish_of_step hframes hstep, ih]

/-- A run succeeds exactly if steps lead out of all files. -/
theorem finish_eq_ok_iff :
    run.finish disk dirs = .ok last ↔
      ∃ visited, Steps disk dirs run visited last ∧ last.frames = [] := by
  constructor
  · intro h
    obtain ⟨visited, halted, hsteps, hhalted⟩ := exists_steps_halted disk dirs run
    rw [finish_eq_of_steps hsteps] at h
    by_cases hframes : halted.frames = []
    · rw [finish_of_end hframes] at h
      cases h
      exact ⟨visited, hsteps, hframes⟩
    · rcases hhalted with hend | ⟨stop, hstop⟩
      · exact absurd hend hframes
      · rw [finish_of_stop hframes hstop] at h
        cases h
  · rintro ⟨visited, hsteps, hframes⟩
    rw [finish_eq_of_steps hsteps, finish_of_end hframes]

/-- A run fails exactly if steps lead to a state whose step fails. -/
theorem finish_eq_error_iff {stop : Stop} :
    run.finish disk dirs = .error (stop, last) ↔
      ∃ visited, Steps disk dirs run visited last ∧ last.frames ≠ [] ∧
        last.step disk dirs = .error stop := by
  constructor
  · intro h
    obtain ⟨visited, halted, hsteps, hhalted⟩ := exists_steps_halted disk dirs run
    rw [finish_eq_of_steps hsteps] at h
    by_cases hframes : halted.frames = []
    · rw [finish_of_end hframes] at h
      cases h
    · rcases hhalted with hend | ⟨stop', hstop⟩
      · exact absurd hend hframes
      · rw [finish_of_stop hframes hstop] at h
        cases h
        exact ⟨visited, hsteps, hframes, hstop⟩
  · rintro ⟨visited, hsteps, hframes, hstop⟩
    rw [finish_eq_of_steps hsteps, finish_of_stop hframes hstop]

set_option linter.unusedVariables false in
/-- The states of a run, from the first to the one it halts in. -/
def states (disk : Files.Disk) (dirs : List Text) (run : Run) : List Run :=
  if hframes : run.frames = [] then [run]
  else
    match h : run.step disk dirs with
    | .error _ => [run]
    | .ok next => run :: states disk dirs next
termination_by run.workLeft disk
decreasing_by exact step_workLeft hframes h

theorem states_eq_of_steps {visited : List Run} (h : Steps disk dirs run visited last)
    (hlast : last.Halted disk dirs) : run.states disk dirs = visited ++ [last] := by
  induction h with
  | refl run =>
    rw [states]
    split
    · rfl
    · rename_i hframes
      split
      · rfl
      · rename_i next heq
        rcases hlast with hlast | ⟨stop, hlast⟩
        · exact absurd hlast hframes
        · rw [hlast] at heq; cases heq
  | head hframes hstep _ ih =>
    rw [states, dif_neg hframes]
    split
    · rename_i stop heq
      rw [hstep] at heq
      cases heq
    · rename_i next heq
      rw [hstep] at heq
      cases heq
      rw [ih hlast, List.cons_append]

end Run

/-! ## Sessions -/

namespace Session

/-- The state in which a run over a root file begins. -/
def opened (session : Session) (disk : Files.Disk) (root : Text) : Except Files.Failure Run :=
  (disk.fetch (disk.canonical root)).map fun file =>
    (Run.ofMacros session.settings.predefined).enter file.1 file.2

/-- The states of the run over a root file. -/
def states (session : Session) (disk : Files.Disk) (root : Text) : List Run :=
  match session.opened disk root with
  | .error _ => []
  | .ok run => run.states disk session.settings.includeDirectories

/-- The passages of the run over a root file.  The step that ends a failing run
is none. -/
def passages (session : Session) (disk : Files.Disk) (root : Text) : List Passage :=
  (session.states disk root).dropLast.filterMap Run.passage?

theorem states_of_opened {session : Session} {disk : Files.Disk} {root : Text} {start : Run}
    (hopened : session.opened disk root = .ok start) :
    session.states disk root = start.states disk session.settings.includeDirectories := by
  unfold states
  rw [hopened]

theorem states_of_unopened {session : Session} {disk : Files.Disk} {root : Text}
    {failure : Files.Failure} (hopened : session.opened disk root = .error failure) :
    session.states disk root = [] := by
  unfold states
  rw [hopened]

theorem states_of_steps {session : Session} {disk : Files.Disk} {root : Text} {start last : Run}
    {visited : List Run} (hopened : session.opened disk root = .ok start)
    (hsteps : Run.Steps disk session.settings.includeDirectories start visited last)
    (hhalted : last.Halted disk session.settings.includeDirectories) :
    session.states disk root = visited ++ [last] :=
  (states_of_opened hopened).trans (Run.states_eq_of_steps hsteps hhalted)

/-- The states of the run are the ones that steps lead to. -/
theorem mem_states_iff {session : Session} {disk : Files.Disk} {root : Text} {start state : Run}
    (hopened : session.opened disk root = .ok start) :
    state ∈ session.states disk root ↔
      ∃ visited, Run.Steps disk session.settings.includeDirectories start visited state := by
  obtain ⟨visited, last, hsteps, hhalted⟩ :=
    Run.exists_steps_halted disk session.settings.includeDirectories start
  rw [states_of_steps hopened hsteps hhalted]
  constructor
  · exact hsteps.split
  · rintro ⟨before, hbefore⟩
    obtain ⟨after, halted, hafter, hend⟩ :=
      Run.exists_steps_halted disk session.settings.includeDirectories state
    obtain ⟨rfl, rfl⟩ := hsteps.eq_of_halted hhalted (hbefore.trans hafter) hend
    cases hafter with
    | refl => simp
    | head => simp

theorem process_of_opened {session : Session} {disk : Files.Disk} {root : Text} {start : Run}
    (hopened : session.opened disk root = .ok start) :
    session.process disk root =
      match start.finish disk session.settings.includeDirectories with
      | .ok last => (none, ⟨session.settings, last.warnUnclosed⟩)
      | .error (stop, last) => (some stop, ⟨session.settings, last.abandon⟩) := by
  cases hfetch : disk.fetch (disk.canonical root) with
  | error failure => rw [opened, hfetch] at hopened; cases hopened
  | ok result =>
    rw [opened, hfetch] at hopened
    cases hopened
    simp only [process, hfetch]
    rfl

theorem process_of_unopened {session : Session} {disk : Files.Disk} {root : Text}
    {failure : Files.Failure} (hopened : session.opened disk root = .error failure) :
    session.process disk root =
      (some ⟨.ofFile (disk.canonical root), .unreadable failure⟩, session.reset) := by
  cases hfetch : disk.fetch (disk.canonical root) with
  | error failure' =>
    rw [opened, hfetch] at hopened
    cases hopened
    simp only [process, hfetch]
  | ok result =>
    rw [opened, hfetch] at hopened
    cases hopened

/-- How the run of a session over a root file can go. -/
inductive Course (session : Session) (disk : Files.Disk) (root : Text) : Prop where
  /-- The root file cannot be read. -/
  | unopened (failure : Files.Failure) (hopened : session.opened disk root = .error failure)
      (hprocess : session.process disk root =
        (some ⟨.ofFile (disk.canonical root), .unreadable failure⟩, session.reset))
  /-- The run goes through all files. -/
  | finished (start last : Run) (visited : List Run)
      (hopened : session.opened disk root = .ok start)
      (hsteps : Run.Steps disk session.settings.includeDirectories start visited last)
      (hframes : last.frames = [])
      (hprocess : session.process disk root = (none, ⟨session.settings, last.warnUnclosed⟩))
  /-- A step fails. -/
  | stopped (start last : Run) (visited : List Run) (stop : Stop)
      (hopened : session.opened disk root = .ok start)
      (hsteps : Run.Steps disk session.settings.includeDirectories start visited last)
      (hframes : last.frames ≠ [])
      (hstop : last.step disk session.settings.includeDirectories = .error stop)
      (hprocess : session.process disk root = (some stop, ⟨session.settings, last.abandon⟩))

theorem course (session : Session) (disk : Files.Disk) (root : Text) :
    Course session disk root := by
  cases hopened : session.opened disk root with
  | error failure => exact .unopened failure hopened (process_of_unopened hopened)
  | ok start =>
    have hprocess := process_of_opened hopened
    cases hfinish : start.finish disk session.settings.includeDirectories with
    | ok last =>
      rw [hfinish] at hprocess
      obtain ⟨visited, hsteps, hframes⟩ := Run.finish_eq_ok_iff.mp hfinish
      exact .finished start last visited hopened hsteps hframes hprocess
    | error failure =>
      obtain ⟨stop, last⟩ := failure
      rw [hfinish] at hprocess
      obtain ⟨visited, hsteps, hframes, hstop⟩ := Run.finish_eq_error_iff.mp hfinish
      exact .stopped start last visited stop hopened hsteps hframes hstop hprocess

theorem opened_of_fetch (session : Session) {disk : Files.Disk} {root : Text}
    {file : Files.Address} {content : Text}
    (hfetch : disk.fetch (disk.canonical root) = .ok (file, content)) :
    session.opened disk root =
      .ok ((Run.ofMacros session.settings.predefined).enter file content) := by
  rw [opened, hfetch]
  rfl

/-- A successful run leads out of all files. -/
theorem steps_of_success {session : Session} {disk : Files.Disk} {root : Text} {start : Run}
    (hopened : session.opened disk root = .ok start)
    (hsuccess : (session.process disk root).1 = none) :
    ∃ visited last, Run.Steps disk session.settings.includeDirectories start visited last ∧
      last.frames = [] ∧ (session.process disk root).2.run = last.warnUnclosed := by
  rw [process_of_opened hopened] at hsuccess ⊢
  cases hfinish : start.finish disk session.settings.includeDirectories with
  | error failure =>
    rw [hfinish] at hsuccess
    cases hsuccess
  | ok last =>
    obtain ⟨visited, hsteps, hframes⟩ := Run.finish_eq_ok_iff.mp hfinish
    exact ⟨visited, last, hsteps, hframes, rfl⟩

/-- The run begins inside the root file alone. -/
theorem eq_of_opened {session : Session} {disk : Files.Disk} {root : Text} {start : Run}
    (hopened : session.opened disk root = .ok start) :
    ∃ file content, disk.content? file = some content ∧
      start = (Run.ofMacros session.settings.predefined).enter file content := by
  cases hfetch : disk.fetch (disk.canonical root) with
  | error failure => rw [opened, hfetch] at hopened; cases hopened
  | ok result =>
    obtain ⟨file, content⟩ := result
    rw [opened, hfetch] at hopened
    cases hopened
    exact ⟨file, content, Files.Disk.content?_of_fetch hfetch, rfl⟩

end Session

end XsPrep
