import XsPrep.Source.Construct
import XsPrep.Macro.Macros
import XsPrep.Ordered.Stack
import XsPrep.Preprocess.Lookup

/-!
# Runs

A run reads a root file and the files it includes.  Its state is shared by all
of them: the macros, the open blocks, the fragments of output and the warnings.
The files it is in the middle of are frames, the innermost first.

A step takes one construct of the innermost file, or one line if the innermost
open block is skipped, or it leaves a file that is at its end.  An include
enters a file unless the run was there before.  A failing step has no effect at
all.

Every step leaves less work (`step_workLeft`): it reads some of a frame, or it
moves an unread file into a frame.  So a run ends on every disk, whatever the
files include.
-/

namespace XsPrep

/-- An open block. -/
structure Block where
  /-- Whether its text is read. -/
  active : Bool
  /-- The place of the `#` that opened it. -/
  opened : Place
deriving DecidableEq, Repr

/-- A file that is being read. -/
structure Frame where
  /-- The file. -/
  file : Files.Address
  /-- What is left of it. -/
  reader : Reader
deriving DecidableEq, Repr

/-- A position in the file of a frame. -/
def Frame.place (frame : Frame) (position : Position) : Place :=
  ⟨frame.file.path, position.line, position.column⟩

/-- The state of a run. -/
structure Run where
  /-- The macros. -/
  macros : Macros
  /-- The open blocks. -/
  blocks : Stack Block
  /-- The files entered so far, newest first. -/
  processed : List Files.Address
  /-- The files being read, innermost first. -/
  frames : List Frame
  /-- The fragments of output, newest first. -/
  emitted : List Text
  /-- The warnings, newest first. -/
  warned : List Diagnostic

namespace Run

/-- A run that has not entered a file. -/
def ofMacros (macros : Macros) : Run := ⟨macros, .empty, [], [], [], []⟩

/-- The output so far, as a sequence of fragments. -/
def fragments (run : Run) : List Text := run.emitted.reverse

/-- The output so far. -/
def output (run : Run) : Text := run.fragments.flatten

/-- The warnings so far. -/
def warnings (run : Run) : List Diagnostic := run.warned.reverse

/-- Whether the innermost open block is skipped. -/
def isSkipping (run : Run) : Bool := run.blocks.top?.any (!·.active)

/-- The run with one more fragment. -/
def emit (run : Run) (fragment : Text) : Run := { run with emitted := fragment :: run.emitted }

/-- The run with one more warning. -/
def warn (run : Run) (advice : Advice) (place : Place) : Run :=
  { run with warned := advice.warning place :: run.warned }

/-- The run with one more open block. -/
def openBlock (run : Run) (block : Block) : Run := { run with blocks := run.blocks.push block }

/-- The run inside one more file. -/
def enter (run : Run) (file : Files.Address) (content : Text) : Run :=
  { run with
    processed := file :: run.processed
    frames := ⟨file, Reader.ofText content⟩ :: run.frames }

/-! ## Steps -/

/-- Includes a file by name.  A file the run was in before is not entered
again. -/
def includeFile (disk : Files.Disk) (includeDirectories : List Text) (run : Run) (frame : Frame)
    (name : Text) (place : Place) : Except Stop Run :=
  match Lookup.find disk (Path.directory frame.file.path) includeDirectories name with
  | .error problem => .error ⟨place, problem⟩
  | .ok (file, content) =>
    if run.processed.contains file then .ok (run.warn (.alreadyIncluded file.path) place)
    else .ok (run.enter file content)

/-- Removes a macro. -/
def undefine (run : Run) (name : Text) (place : Place) : Run :=
  if name.isEmpty then run.warn .nothingToUndefine place
  else
    match run.macros.undefine? name with
    | some macros => { run with macros }
    | none => run.warn (.notDefined name) place

/-- Carries out a construct that was read from `frame`. -/
def execute (disk : Files.Disk) (includeDirectories : List Text) (run : Run) (frame : Frame) :
    Construct → Except Stop Run
  | .literal raw => .ok (run.emit raw)
  | .comment => .ok run
  | .character raw => .ok (run.emit raw)
  | .expansion name =>
    match run.macros.get? name with
    | some value => .ok (run.emit value)
    | none => .ok run
  | .define name value => .ok { run with macros := run.macros.define name value }
  | .undefine name position => .ok (run.undefine name (frame.place position))
  | .openBlock name position =>
    .ok (run.openBlock ⟨run.macros.contains name, frame.place position⟩)
  | .closeBlock position =>
    match run.blocks.pop? with
    | some (_, blocks) => .ok { run with blocks }
    | none => .error ⟨frame.place position, .unmatchedClosing⟩
  | .includeFile name position =>
    run.includeFile disk includeDirectories frame name (frame.place position)

/-- Carries out a skipped line that was read from `frame`.  A block opened in
skipped text is skipped itself. -/
def skipLine (run : Run) (frame : Frame) : SkippedLine → Run
  | .opens position => run.openBlock ⟨false, frame.place position⟩
  | .closes =>
    match run.blocks.pop? with
    | some (_, blocks) => { run with blocks }
    | none => run
  | .other => run

/-- One step of a run. -/
def step (disk : Files.Disk) (includeDirectories : List Text) (run : Run) : Except Stop Run :=
  match run.frames with
  | [] => .ok run
  | frame :: outer =>
    if frame.reader.rest.isEmpty then .ok { run with frames := outer }
    else if run.isSkipping then
      let read := SkippedLine.read frame.reader
      .ok ({ run with frames := { frame with reader := read.2 } :: outer }.skipLine frame read.1)
    else
      match Construct.read frame.reader with
      | .error e => .error ⟨frame.place e.position, .flawed e.flaw⟩
      | .ok (construct, reader) =>
        { run with frames := { frame with reader } :: outer }.execute disk includeDirectories
          frame construct

/-! ## Progress -/

/-- The work of reading a file with a number of characters: one step a
character at most, and one to leave the file. -/
def fileWork (content : Text) : Nat := content.characters.length + 1

/-- The work of the files a run has not entered. -/
def unreadWork (processed : List Files.Address) : List (Files.Address × Text) → Nat
  | [] => 0
  | (file, content) :: files =>
    (if processed.contains file then 0 else fileWork content) + unreadWork processed files

/-- The work left in frames. -/
def frameWork : List Frame → Nat
  | [] => 0
  | frame :: frames => frame.reader.rest.length + 1 + frameWork frames

/-- A bound on the steps a run can still take. -/
def workLeft (disk : Files.Disk) (run : Run) : Nat :=
  unreadWork run.processed disk.files + frameWork run.frames

theorem unreadWork_cons_le (file : Files.Address) (processed : List Files.Address)
    (files : List (Files.Address × Text)) :
    unreadWork (file :: processed) files ≤ unreadWork processed files := by
  induction files with
  | nil => exact Nat.le_refl _
  | cons e files ih =>
    obtain ⟨other, content⟩ := e
    simp only [unreadWork, List.contains_cons]
    by_cases h : processed.contains other
    · simp only [h, Bool.or_true, if_true]; omega
    · simp only [h, Bool.or_false, Bool.false_eq_true, if_false]
      split <;> omega

/-- Entering a file takes its work off the unread files. -/
theorem unreadWork_enter {file : Files.Address} {content : Text}
    {processed : List Files.Address} {files : List (Files.Address × Text)}
    (hmem : (file, content) ∈ files) (hnew : processed.contains file = false) :
    unreadWork (file :: processed) files + fileWork content ≤ unreadWork processed files := by
  induction files with
  | nil => cases hmem
  | cons e files ih =>
    obtain ⟨other, text⟩ := e
    rcases List.mem_cons.mp hmem with h | h
    · obtain ⟨rfl, rfl⟩ := Prod.mk.inj h
      have hle := unreadWork_cons_le file processed files
      simp only [unreadWork, List.contains_cons, beq_self_eq_true, Bool.true_or, if_true, hnew,
        Bool.false_eq_true, if_false]
      omega
    · have := ih h
      simp only [unreadWork, List.contains_cons]
      by_cases hp : processed.contains other
      · simp only [hp, Bool.or_true, if_true]; omega
      · simp only [hp, Bool.or_false, Bool.false_eq_true, if_false]
        split <;> omega

theorem regularFile?_mem {disk : Files.Disk} {path : Text} {file : Files.Address × Text}
    (h : disk.regularFile? path = some file) : file ∈ disk.files := by
  unfold Files.Disk.regularFile? at h
  split at h
  · exact List.mem_of_find?_eq_some h
  · cases h

/-- A file that is found is a file of the disk. -/
theorem find_mem {disk : Files.Disk} {directory : Text} {includeDirectories : List Text}
    {name : Text} {file : Files.Address × Text}
    (h : Lookup.find disk directory includeDirectories name = .ok file) : file ∈ disk.files := by
  unfold Lookup.find at h
  split at h
  · rename_i found hfound
    obtain ⟨path, -, hpath⟩ := List.exists_of_findSome?_eq_some hfound
    cases h
    exact regularFile?_mem hpath
  · cases h

theorem includeFile_workLeft {disk : Files.Disk} {includeDirectories : List Text}
    {run run' : Run} {frame : Frame} {name : Text} {place : Place}
    (h : run.includeFile disk includeDirectories frame name place = .ok run') :
    run'.workLeft disk ≤ run.workLeft disk := by
  unfold includeFile at h
  split at h
  · cases h
  · rename_i file content hfind
    split at h
    · cases h; exact Nat.le_refl _
    · rename_i hnew
      cases h
      have hwork := unreadWork_enter (find_mem hfind) (Bool.eq_false_iff.mpr hnew)
      simp only [workLeft, enter, frameWork, Reader.ofText, fileWork] at hwork ⊢
      omega

theorem execute_workLeft {disk : Files.Disk} {includeDirectories : List Text}
    {run run' : Run} {frame : Frame} {construct : Construct}
    (h : run.execute disk includeDirectories frame construct = .ok run') :
    run'.workLeft disk ≤ run.workLeft disk := by
  cases construct with
  | includeFile name position => exact includeFile_workLeft h
  | undefine name position =>
    simp only [execute, Except.ok.injEq] at h
    subst h
    unfold undefine
    split
    · exact Nat.le_refl _
    · split <;> exact Nat.le_refl _
  | expansion name =>
    simp only [execute] at h
    split at h <;> (cases h; exact Nat.le_refl _)
  | closeBlock position =>
    simp only [execute] at h
    split at h
    · cases h; exact Nat.le_refl _
    · cases h
  | _ =>
    simp only [execute, Except.ok.injEq] at h
    subst h
    exact Nat.le_refl _

theorem skipLine_workLeft (disk : Files.Disk) (run : Run) (frame : Frame) (line : SkippedLine) :
    (run.skipLine frame line).workLeft disk ≤ run.workLeft disk := by
  unfold skipLine
  split
  · exact Nat.le_refl _
  · split <;> exact Nat.le_refl _
  · exact Nat.le_refl _

/-- A step that does not fail leaves less work. -/
theorem step_workLeft {disk : Files.Disk} {includeDirectories : List Text} {run run' : Run}
    (hframes : run.frames ≠ []) (h : run.step disk includeDirectories = .ok run') :
    run'.workLeft disk < run.workLeft disk := by
  unfold step at h
  split at h
  · rename_i hnil; exact absurd hnil hframes
  · rename_i frame outer hcons
    split at h
    · cases h
      simp only [workLeft, hcons, frameWork]
      omega
    · rename_i hrest
      have hne : frame.reader.rest ≠ [] := by simpa using hrest
      split at h
      · obtain rfl := Except.ok.inj h
        refine Nat.lt_of_le_of_lt (skipLine_workLeft ..) ?_
        have hread := SkippedLine.read_shorter hne
        simp only [workLeft, hcons, frameWork]
        omega
      · split at h
        · cases h
        · rename_i construct reader hread
          refine Nat.lt_of_le_of_lt (execute_workLeft h) ?_
          have hlt := Construct.read_shorter hne hread
          simp only [workLeft, hcons, frameWork]
          omega

/-! ## Whole runs -/

set_option linter.unusedVariables false in
/-- Takes steps until no frame is left or a step fails.  A failure comes with
the run as it was before the failing step. -/
def finish (disk : Files.Disk) (includeDirectories : List Text) (run : Run) :
    Except (Stop × Run) Run :=
  if hframes : run.frames = [] then .ok run
  else
    match h : run.step disk includeDirectories with
    | .error stop => .error (stop, run)
    | .ok next => finish disk includeDirectories next
termination_by run.workLeft disk
decreasing_by exact step_workLeft hframes h

/-- The run with a warning if blocks are open.  It points at the outermost of
them. -/
def warnUnclosed (run : Run) : Run :=
  match run.blocks.bottom? with
  | some outermost => run.warn (.unclosedBlocks run.blocks.size) outermost.opened
  | none => run

/-- The run after a failure: the files are left and the output is dropped. -/
def abandon (run : Run) : Run := { run with frames := [], emitted := [] }

end Run

end XsPrep
