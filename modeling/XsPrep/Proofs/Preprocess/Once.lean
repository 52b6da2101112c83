import XsPrep.Proofs.Preprocess.Entered
import XsPrep.Proofs.Files.Addresses
import XsPrep.Proofs.Ordered.Tables
import Mathlib.Data.List.Nodup

/-!
# Every file is read once

Whatever path leads to a file, a run begins to read it at most once.  The files
it begins are the ones it counts as entered (`Session.begun_eq`), so their paths
are distinct and are the processed files that a session shows.

An include either enters a file or leaves one warning, and nothing else does
either (`step_tally`).  So the includes of a successful run are as many as the
files entered by an include and the warnings about files entered before.
-/

namespace XsPrep

/-! ## Warnings about files entered before -/

/-- Whether a diagnostic reports an include of a file entered before. -/
def Diagnostic.isCycle (d : Diagnostic) : Bool :=
  Text.startsWith (bytes "include cycle detected") d.message

/-- A number in decimal notation does not start with a letter. -/
theorem Text.decimal_head {n : Nat} {b : UInt8} {t : Text} (h : decimal n = b :: t) :
    b ≠ 0x69 := by
  intro hb
  have hmem : b ∈ (Nat.toDigits 10 n).map ofAscii := by
    rw [decimal] at h
    rw [h]
    exact List.mem_cons_self
  obtain ⟨c, hc, rfl⟩ := List.mem_map.mp hmem
  have hdigit := Nat.isDigit_of_mem_toDigits (by decide) (by decide) hc
  simp only [Char.isDigit, ge_iff_le, Bool.and_eq_true, decide_eq_true_eq, UInt32.le_iff_toNat_le]
    at hdigit
  have hle : c.toNat ≤ 57 := hdigit.2
  have hcode := congrArg UInt8.toNat hb
  simp only [ofAscii, Nat.toUInt8, UInt8.toNat_ofNat'] at hcode
  have hsmall : c.toNat % 2 ^ 8 = c.toNat := Nat.mod_eq_of_lt (by omega)
  rw [hsmall] at hcode
  have : (0x69 : UInt8).toNat = 105 := rfl
  omega

/-- Only an include of a file entered before is reported so. -/
theorem Advice.isCycle_warning (advice : Advice) (place : Place) :
    (advice.warning place).isCycle = match advice with
      | .alreadyIncluded _ => true
      | _ => false := by
  cases advice with
  | nothingToUndefine => rfl
  | notDefined name => rfl
  | alreadyIncluded path => rfl
  | unclosedBlocks count =>
    cases hdecimal : Text.decimal count with
    | nil =>
      simp only [Diagnostic.isCycle, Advice.warning, Advice.message, hdecimal]
      rfl
    | cons b t =>
      have hhead : (0x69 == b) = false := by simpa using Ne.symm (Text.decimal_head hdecimal)
      have hbytes : ∃ rest, bytes "include cycle detected" = 0x69 :: rest := ⟨_, rfl⟩
      obtain ⟨rest, hrest⟩ := hbytes
      simp only [Diagnostic.isCycle, Advice.warning, Advice.message, hdecimal, hrest,
        Text.startsWith, List.cons_append, List.isPrefixOf, hhead, Bool.false_and]

/-! ## Includes -/

namespace Run

variable {disk : Files.Disk} {dirs : List Text} {run next last : Run} {frame : Frame}
  {outer : List Frame}

/-- The files entered so far and the warnings about files entered before. -/
def tally (run : Run) : Nat := run.processed.length + run.warned.countP Diagnostic.isCycle

theorem tally_warn (run : Run) (advice : Advice) (place : Place) :
    (run.warn advice place).tally =
      run.tally + if (advice.warning place).isCycle then 1 else 0 := by
  simp only [tally, warn, List.countP_cons, Nat.add_assoc]

theorem tally_undefine (run : Run) (name : Text) (place : Place) :
    (run.undefine name place).tally = run.tally := by
  unfold undefine
  split
  · rw [tally_warn, Advice.isCycle_warning]; rfl
  · split
    · rfl
    · rw [tally_warn, Advice.isCycle_warning]; rfl

/-- A construct that is no include neither enters a file nor warns of one. -/
theorem tally_execute {construct : Construct}
    (hno : ∀ name position, construct ≠ .includeFile name position)
    (h : run.execute disk dirs frame construct = .ok next) : next.tally = run.tally := by
  cases construct with
  | includeFile name position => exact absurd rfl (hno name position)
  | undefine name position =>
    simp only [execute, Except.ok.injEq] at h
    subst h
    exact tally_undefine ..
  | expansion name =>
    simp only [execute] at h
    split at h <;> (cases h; rfl)
  | closeBlock position =>
    simp only [execute] at h
    split at h
    · cases h; rfl
    · cases h
  | _ =>
    simp only [execute, Except.ok.injEq] at h
    subst h
    rfl

/-- An include enters a file or warns of one. -/
theorem tally_include {name : Text} {position : Position}
    (h : run.execute disk dirs frame (.includeFile name position) = .ok next) :
    next.tally = run.tally + 1 := by
  obtain ⟨file, content, -, hcases⟩ := execute_include h
  rcases hcases with ⟨-, rfl⟩ | ⟨-, rfl⟩
  · rw [tally_warn, Advice.isCycle_warning]; rfl
  · simp only [tally, enter, List.length_cons]
    omega

/-- A step adds to the tally exactly if it carries out an include. -/
theorem step_tally (hrun : run.frames ≠ []) (hstep : run.step disk dirs = .ok next) :
    next.tally = run.tally + run.passage?.toList.countP Passage.isInclude := by
  obtain ⟨frame, outer, hframes⟩ := List.exists_cons_of_ne_nil hrun
  cases step_move hframes hstep with
  | leave hend =>
    rw [passage?_of_end hframes hend]
    rfl
  | skip hrest hskip hread =>
    rw [passage?_of_skipping hframes hrest hskip, tally, skipLine_warned, skipLine_processed]
    rfl
  | read hrest hskip hread hexecute =>
    rename_i construct reader
    rw [passage?_of_construct hframes hrest hskip hread]
    by_cases hinclude : ∃ name position, construct = .includeFile name position
    · obtain ⟨name, position, rfl⟩ := hinclude
      rw [tally_include hexecute]
      rfl
    · have hno : ∀ name position, construct ≠ .includeFile name position :=
        fun name position heq => hinclude ⟨name, position, heq⟩
      rw [tally_execute hno hexecute]
      cases construct with
      | includeFile name position => exact absurd rfl (hno name position)
      | _ => rfl

/-- Over many steps the tally grows by the includes carried out. -/
theorem Steps.tally {visited : List Run} (h : Steps disk dirs run visited last) :
    last.tally = run.tally + (visited.filterMap passage?).countP Passage.isInclude := by
  induction h with
  | refl run => rfl
  | head hframes hstep _ ih =>
    rw [ih, step_tally hframes hstep, filterMap_passage?_cons, List.countP_append, Nat.add_assoc]

/-- An include of a file entered before moves on and leaves a warning. -/
theorem step_of_known (hframes : run.frames = frame :: outer) (hskip : run.isSkipping = false)
    {name : Text} {position : Position} {reader : Reader} {file : Files.Address} {content : Text}
    (hread : Construct.read frame.reader = .ok (.includeFile name position, reader))
    (hfind : Lookup.find disk (Path.directory frame.file.path) dirs name = .ok (file, content))
    (hmem : file ∈ run.processed) :
    run.step disk dirs = .ok { run with
      frames := { frame with reader } :: outer
      warned := (Advice.alreadyIncluded file.path).warning (frame.place position) ::
        run.warned } := by
  have hrest : frame.reader.rest ≠ [] := by
    intro hend
    simp [Construct.read, Reader.sees, Reader.peek?, Reader.seesPair, hend] at hread
  rw [step_of_construct hframes hrest hskip hread, execute, includeFile, hfind]
  simp [hmem, warn]

/-! ## Beginnings -/

/-- The innermost file, if the run is at its beginning. -/
def beginning? (run : Run) : Option Files.Address :=
  match run.frames with
  | [] => none
  | frame :: _ => if frame.reader.position.offset = 0 then some frame.file else none

theorem beginning?_eq_none (h : ∀ frame ∈ run.frames, 0 < frame.reader.position.offset) :
    run.beginning? = none := by
  unfold beginning?
  split
  · rfl
  · rename_i frame outer hframes
    have hpos := h frame (by rw [hframes]; exact List.mem_cons_self)
    rw [if_neg (by omega)]

/-- A step enters a file exactly if it leads to its beginning. -/
theorem Sound.processed_step (h : run.Sound disk) (hrun : run.frames ≠ [])
    (hstep : run.step disk dirs = .ok next) :
    next.processed = next.beginning?.toList ++ run.processed := by
  obtain ⟨frame, outer, hframes⟩ := List.exists_cons_of_ne_nil hrun
  have hbegun := h.begun
  rw [hframes] at hbegun
  cases step_fileMove hframes hstep with
  | leave hend _ hnext hprocessed =>
    rw [beginning?_eq_none (by rw [hnext]; exact hbegun), hprocessed]
    rfl
  | advance reading reader hrest _ hat hnext hprocessed =>
    have hpos := Nat.zero_lt_of_lt (h.offset_lt hframes hat.leadsTo (hat.shorter hrest))
    rw [beginning?_eq_none (by rw [hnext]; exact List.forall_mem_cons.mpr ⟨hpos, hbegun⟩),
      hprocessed]
    rfl
  | enter reading reader file content hrest _ hat hcontent hnew hnext hprocessed =>
    rw [hprocessed, beginning?, hnext]
    rfl

theorem filterMap_beginning?_cons (run : Run) (visited : List Run) :
    ((run :: visited).filterMap beginning?).reverse =
      (visited.filterMap beginning?).reverse ++ run.beginning?.toList := by
  rw [List.filterMap_cons]
  cases run.beginning? <;> simp

/-- The files entered are those at whose beginning the run was, newest first. -/
theorem Steps.processed_eq {visited : List Run} (h : Steps disk dirs run visited last)
    (hsound : run.Sound disk) {older : List Files.Address}
    (hrun : run.processed = run.beginning?.toList ++ older) :
    last.processed = ((visited ++ [last]).filterMap beginning?).reverse ++ older := by
  induction h generalizing older with
  | refl run =>
    rw [List.nil_append, filterMap_beginning?_cons]
    exact hrun
  | head hframes hstep _ ih =>
    rw [ih (hsound.step hframes hstep) (hsound.processed_step hframes hstep), List.cons_append,
      filterMap_beginning?_cons, hrun, List.append_assoc]

end Run

namespace Session

/-- The files that the run over a root file begins to read, in order. -/
def begun (session : Session) (disk : Files.Disk) (root : Text) : List Files.Address :=
  (session.states disk root).filterMap Run.beginning?

variable {session : Session} {disk : Files.Disk} {root : Text}

theorem begun_of_steps {start last : Run} {visited : List Run}
    (hopened : session.opened disk root = .ok start)
    (hsteps : Run.Steps disk session.settings.includeDirectories start visited last)
    (hhalted : last.Halted disk session.settings.includeDirectories) :
    session.begun disk root = last.processed.reverse := by
  have hstart : start.processed = start.beginning?.toList ++ [] := by
    obtain ⟨file, content, -, rfl⟩ := eq_of_opened hopened
    rfl
  have hprocessed := hsteps.processed_eq (.of_opened hopened) hstart
  rw [begun, states_of_steps hopened hsteps hhalted, hprocessed, List.append_nil,
    List.reverse_reverse]

/-- The files entered are the files that were begun. -/
theorem begun_eq (session : Session) (disk : Files.Disk) (root : Text) :
    session.begun disk root = (session.process disk root).2.run.processed.reverse := by
  cases session.course disk root with
  | unopened failure hopened hprocess =>
    rw [begun, states_of_unopened hopened, hprocess]
    rfl
  | finished start last visited hopened hsteps hframes hprocess =>
    rw [begun_of_steps hopened hsteps (.inl hframes), hprocess, Run.warnUnclosed_processed]
  | stopped start last visited stop hopened hsteps hframes hstop hprocess =>
    rw [begun_of_steps hopened hsteps (.inr ⟨stop, hstop⟩), hprocess]
    rfl

/-- The state a run leaves is sound. -/
theorem processed_sound (session : Session) (disk : Files.Disk) (root : Text) :
    (session.process disk root).2.run.processed.Nodup ∧
      ∀ file ∈ (session.process disk root).2.run.processed,
        ∃ content, disk.content? file = some content := by
  cases session.course disk root with
  | unopened failure hopened hprocess =>
    rw [hprocess]
    exact ⟨List.Pairwise.nil, fun _ h => nomatch h⟩
  | finished start last visited hopened hsteps hframes hprocess =>
    have hsound := ((Run.Sound.of_opened hopened).of_steps hsteps).2
    rw [hprocess]
    simp only [Run.warnUnclosed_processed]
    exact ⟨hsound.nodup, hsound.known⟩
  | stopped start last visited stop hopened hsteps hframes hstop hprocess =>
    have hsound := ((Run.Sound.of_opened hopened).of_steps hsteps).2
    rw [hprocess]
    exact ⟨hsound.nodup, hsound.known⟩

/-- On a well-formed disk different files have different paths. -/
theorem begun_paths_nodup (hdisk : disk.WellFormed) (session : Session) (root : Text) :
    ((session.begun disk root).map Files.Address.path).Nodup := by
  obtain ⟨hnodup, hknown⟩ := session.processed_sound disk root
  rw [begun_eq]
  refine List.Nodup.map_on ?_ (List.nodup_reverse.mpr hnodup)
  have hproper : ∀ file ∈ (session.process disk root).2.run.processed.reverse,
      Files.Address.Proper file := by
    intro file hfile
    obtain ⟨content, hcontent⟩ := hknown file (List.mem_reverse.mp hfile)
    exact hdisk.proper _ (Files.Disk.mem_files_iff.mp (Files.Disk.mem_files_of_content? hcontent))
  intro file hfile other hother hpath
  exact (hproper file hfile).path_injective (hproper other hother) hpath

/-- The processed files are the paths of the files that were begun. -/
theorem mem_processedFiles (session : Session) (disk : Files.Disk) (root path : Text) :
    path ∈ (session.process disk root).2.processedFiles ↔
      path ∈ (session.begun disk root).map Files.Address.path := by
  rw [processedFiles, Table.mem_keys_ofList, begun_eq, List.map_map, List.map_reverse,
    List.mem_reverse]
  rfl

theorem processedFiles_perm (hdisk : disk.WellFormed) (session : Session) (root : Text) :
    (session.process disk root).2.processedFiles.Perm
      ((session.begun disk root).map Files.Address.path) :=
  (List.perm_ext_iff_of_nodup (Table.keys_nodup _) (begun_paths_nodup hdisk session root)).mpr
    (mem_processedFiles session disk root)

/-- The root file stays entered. -/
theorem processed_ne_nil {start last : Run} {visited : List Run}
    (hopened : session.opened disk root = .ok start)
    (hsteps : Run.Steps disk session.settings.includeDirectories start visited last) :
    last.processed ≠ [] := by
  refine (hsteps.invariant (P := fun run => run.processed ≠ []) ?_ ?_).2
  · intro run next hne hrun hstep
    obtain ⟨frame, outer, hframes⟩ := List.exists_cons_of_ne_nil hrun
    cases Run.step_fileMove hframes hstep with
    | leave _ _ _ hprocessed => rw [hprocessed]; exact hne
    | advance _ _ _ _ _ _ hprocessed => rw [hprocessed]; exact hne
    | enter _ _ _ _ _ _ _ _ _ _ hprocessed => rw [hprocessed]; exact List.cons_ne_nil _ _
  · obtain ⟨file, content, -, rfl⟩ := eq_of_opened hopened
    exact List.cons_ne_nil _ _

/-- The includes of a successful run, against the files entered and the warnings. -/
theorem includes_eq (hsuccess : (session.process disk root).1 = none) :
    (session.passages disk root).countP Passage.isInclude =
      ((session.begun disk root).length - 1) +
        (session.process disk root).2.run.warnings.countP Diagnostic.isCycle := by
  cases session.course disk root with
  | unopened failure hopened hprocess =>
    rw [hprocess] at hsuccess
    cases hsuccess
  | stopped start last visited stop hopened hsteps hframes hstop hprocess =>
    rw [hprocess] at hsuccess
    cases hsuccess
  | finished start last visited hopened hsteps hframes hprocess =>
    have htally := hsteps.tally
    have hstart : start.tally = 1 := by
      obtain ⟨file, content, -, rfl⟩ := eq_of_opened hopened
      rfl
    have hwarned : last.warnUnclosed.warned.countP Diagnostic.isCycle =
        last.warned.countP Diagnostic.isCycle := by
      unfold Run.warnUnclosed
      split
      · simp [Run.warn, Advice.isCycle_warning]
      · rfl
    rw [passages, states_of_steps hopened hsteps (.inl hframes), List.dropLast_concat,
      begun_of_steps hopened hsteps (.inl hframes), hprocess, Run.warnings,
      List.countP_reverse, hwarned, List.length_reverse]
    have hentered := List.length_pos_iff.mpr (processed_ne_nil hopened hsteps)
    simp only [Run.tally] at htally hstart
    omega

/-- Every file is read at most once, by whatever path it is reached: the files a
run begins have distinct paths, which are the processed files.  In a successful
run the includes are as many as the files begun by an include and the warnings
about files begun before.  An include of such a file moves on in the including
file and leaves that warning, and changes nothing else. -/
theorem files_read_once (hdisk : disk.WellFormed) (session : Session) (root : Text) :
    ((session.begun disk root).map Files.Address.path).Nodup ∧
    (session.process disk root).2.processedFiles.Perm
      ((session.begun disk root).map Files.Address.path) ∧
    ((session.process disk root).1 = none →
      (session.passages disk root).countP Passage.isInclude =
        ((session.process disk root).2.processedFiles.length - 1) +
          (session.process disk root).2.run.warnings.countP Diagnostic.isCycle) ∧
    ∀ (run : Run) frame outer name position reader file content,
      run.frames = frame :: outer → run.isSkipping = false →
      Construct.read frame.reader = .ok (.includeFile name position, reader) →
      Lookup.find disk (Path.directory frame.file.path) session.settings.includeDirectories name =
        .ok (file, content) →
      file ∈ run.processed →
      run.step disk session.settings.includeDirectories =
        .ok { run with
          frames := { frame with reader } :: outer
          warned := (Advice.alreadyIncluded file.path).warning (frame.place position) ::
            run.warned } := by
  have hperm := processedFiles_perm hdisk session root
  refine ⟨begun_paths_nodup hdisk session root, hperm, ?_, ?_⟩
  · intro hsuccess
    rw [includes_eq hsuccess, hperm.length_eq, List.length_map]
  · intro run frame outer name position reader file content hframes hskip hread hfind hmem
    exact Run.step_of_known hframes hskip hread hfind hmem

/-- A main file that reaches one file by its name, by a roundabout way and by a
link, and that this file includes again. -/
def roundabout : Files.Disk where
  nodes := [
    ([bytes "w"], .directory),
    ([bytes "w", bytes "main.xs"], .file (bytes
      "#include \"lib/a.xs\"\n#include \"./lib/../lib/a.xs\"\n#include \"lib/b.xs\"\n")),
    ([bytes "w", bytes "lib"], .directory),
    ([bytes "w", bytes "lib", bytes "a.xs"], .file (bytes "#include \"../main.xs\"\nx\n")),
    ([bytes "w", bytes "lib", bytes "b.xs"], .link (bytes "a.xs"))]
  workingDirectory := [bytes "w"]

theorem files_read_once_roundabout :
    roundabout.WellFormed ∧
    ((new roundabout [] .empty).process roundabout (bytes "main.xs")).1 = none ∧
    (((new roundabout [] .empty).begun roundabout (bytes "main.xs")).map
      Files.Address.path).Nodup ∧
    ((new roundabout [] .empty).passages roundabout (bytes "main.xs")).countP
      Passage.isInclude = (2 - 1) + 3 := by
  have hdisk : roundabout.WellFormed := by decide +kernel
  have hsuccess : ((new roundabout [] .empty).process roundabout (bytes "main.xs")).1 = none := by
    decide +kernel
  have hfiles : ((new roundabout [] .empty).process roundabout
      (bytes "main.xs")).2.processedFiles.length = 2 := by decide +kernel
  have hcycles : ((new roundabout [] .empty).process roundabout
      (bytes "main.xs")).2.run.warnings.countP Diagnostic.isCycle = 3 := by decide +kernel
  obtain ⟨hnodup, -, hcount, -⟩ :=
    files_read_once hdisk (new roundabout [] .empty) (bytes "main.xs")
  have hincludes := hcount hsuccess
  rw [hfiles, hcycles] at hincludes
  exact ⟨hdisk, hsuccess, hnodup, hincludes⟩

end Session

end XsPrep
