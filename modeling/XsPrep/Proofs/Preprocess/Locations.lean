import XsPrep.Proofs.Source.Positions
import XsPrep.Proofs.Preprocess.Coverage
import XsPrep.Proofs.Preprocess.Once
import XsPrep.Proofs.Preprocess.Structure

/-!
# Where findings are located

A step reports something about the innermost file only, at or behind the place it begins
at: a warning about the operand of the directive there (`Report`), or the problem that ends
the run (`Failing`).  When a file is left, the including file is the innermost one again,
at the place behind its include.

What is reported later has a place that was stored before: an open block remembers the `#`
that opened it.  So the places of the open blocks belong to the invariant (`Located`) along
with those of the warnings.  All of them are places in files that were entered, and these
files stay entered.
-/

namespace XsPrep

/-! ## Directives and their places -/

/-- The directive `d` stands at the reader. -/
def Reader.StandsAt (d : Directive) (r : Reader) : Prop :=
  r.sees Code.hash = true ∧ Directive.ofKeyword? r.readKeyword.1 = some d

namespace Construct

variable {r r' : Reader} {c : Construct}

/-- The positions that a construct read at `r` holds. -/
inductive Sited (r : Reader) : Construct → Prop where
  | undefine {name : Text} (h : r.StandsAt .undefine) :
      Sited r (.undefine name r.operand.position)
  | openBlock {name : Text} (h : r.StandsAt .ifDefined) : Sited r (.openBlock name r.position)
  | closeBlock (h : r.StandsAt .endIf) : Sited r (.closeBlock r.position)
  | includeFile {name : Text} (h : r.StandsAt .includeFile) :
      Sited r (.includeFile name r.operand.position)
  | define {name value : Text} : Sited r (.define name value)
  | literal {raw : Text} : Sited r (.literal raw)
  | comment : Sited r .comment
  | character {raw : Text} : Sited r (.character raw)
  | expansion {name : Text} : Sited r (.expansion name)

theorem sited_of_readDirective (hhash : r.sees Code.hash = true)
    (h : readDirective r = .ok (c, r')) : Sited r c := by
  rw [readDirective] at h
  dsimp only at h
  split at h
  · cases h
  · rename_i hkeyword
    rw [readInclude] at h
    split at h
    · cases h
    · split at h
      · cases h
      · cases h
        exact .includeFile ⟨hhash, hkeyword⟩
  · obtain ⟨⟨name, value, rfl⟩, -⟩ := readDefine_eq_ok h
    exact .define
  · rename_i hkeyword
    cases h
    exact .undefine ⟨hhash, hkeyword⟩
  · rename_i hkeyword
    obtain ⟨⟨name, rfl⟩, -⟩ := readOpening_eq_ok h
    exact .openBlock ⟨hhash, hkeyword⟩
  · rename_i hkeyword
    cases h
    exact .closeBlock ⟨hhash, hkeyword⟩

theorem sited_of_read (h : read r = .ok (c, r')) : Sited r c := by
  cases origin_of_read h with
  | directive hhash hread => exact sited_of_readDirective hhash hread
  | expansion _ hat hread =>
    obtain ⟨⟨name, rfl⟩, -⟩ := readExpansion_eq_ok hat hread
    exact .expansion
  | literal => exact .literal
  | lineComment => exact .comment
  | blockComment => exact .comment
  | character => exact .character

/-! ## Flaws and their places -/

theorem error_of_readLiteral {e : SourceError} {r' : Reader} (h : r.readLiteral = (.error e, r')) :
    e.position = r.position := by
  rw [Reader.readLiteral] at h
  split at h
  · split at h
    · cases h
    · cases h
      rfl
  · cases h
    rfl

theorem error_of_skipComment {e : SourceError} {r' : Reader} (h : r.skipComment = (.error e, r')) :
    e.position = r.position := by
  unfold Reader.skipComment at h
  split at h
  · split at h
    · cases h
    · cases h
      rfl
  · cases h

theorem error_of_readDirective {e : SourceError} (h : readDirective r = .error e) :
    e.position = r.position ∨ e.position = r.operand.position := by
  rw [readDirective] at h
  dsimp only at h
  split at h
  · cases h
    exact .inl rfl
  · right
    rw [readInclude] at h
    split at h
    · rename_i heq
      cases h
      exact error_of_readLiteral heq
    · split at h
      · cases h
        rfl
      · cases h
  · right
    rw [readDefine_eq] at h
    split at h
    · cases h
      rfl
    · cases h
  · cases h
  · right
    rw [readOpening_eq] at h
    split at h
    · cases h
      rfl
    · cases h
  · cases h

theorem error_of_readExpansion {e : SourceError} (h : readExpansion r = .error e) :
    ∃ q, r.LeadsTo q ∧ e.position = q.position := by
  rw [readExpansion] at h
  split at h
  · cases h
    exact ⟨_, Reader.leadsTo_skip 1 r, rfl⟩
  · rename_i name behind _ heq
    have hname := Reader.leadsTo_readIdentifier (r.skip 1)
    rw [heq] at hname
    split at h
    · cases h
    · cases h
      exact ⟨behind, (Reader.leadsTo_skip 1 r).trans hname, rfl⟩

/-- A flaw is at or behind the place where its construct begins. -/
theorem error_of_read {e : SourceError} (h : read r = .error e) :
    ∃ q, r.LeadsTo q ∧ e.position = q.position := by
  rw [read] at h
  split at h
  · rcases error_of_readDirective h with hplace | hplace
    · exact ⟨r, .refl r, hplace⟩
    · exact ⟨_, r.leadsTo_operand, hplace⟩
  split at h
  · exact error_of_readExpansion h
  split at h
  · split at h
    · rename_i heq
      cases h
      exact ⟨r, .refl r, error_of_readLiteral heq⟩
    · cases h
  split at h
  · cases h
  split at h
  · split at h
    · rename_i heq
      cases h
      exact ⟨r, .refl r, error_of_skipComment heq⟩
    · cases h
  · cases h

end Construct

/-- A line that opens a block has its `#` behind white space. -/
theorem SkippedLine.sited_of_opens {r r' : Reader} {place : Position}
    (h : SkippedLine.read r = (.opens place, r')) :
    r.skipBlanks.StandsAt .ifDefined ∧ place = r.skipBlanks.position := by
  rw [SkippedLine.read] at h
  dsimp only at h
  split at h
  · rename_i hhash
    split at h
    · rename_i hkeyword
      cases h
      exact ⟨⟨hhash, hkeyword⟩, rfl⟩
    · cases h
    · cases h
  · cases h

/-! ## What a step reports -/

namespace Frame

/-- The place where a frame is. -/
def here (frame : Frame) : Place := frame.place frame.reader.position

/-- The place of the operand of the directive where a frame is. -/
def operand (frame : Frame) : Place := frame.place frame.reader.operand.position

/-- The frame is at a place of one of the files. -/
structure In (disk : Files.Disk) (files : List Files.Address) (frame : Frame) : Prop where
  mem : frame.file ∈ files
  reached : ∃ content, disk.content? frame.file = some content ∧
    (Reader.ofText content).LeadsTo frame.reader

variable {disk : Files.Disk} {files files' : List Files.Address} {frame : Frame}

theorem In.mono (h : frame.In disk files) (hsubset : files ⊆ files') : frame.In disk files' :=
  ⟨hsubset h.mem, h.reached⟩

/-- Reading stays in the file. -/
theorem In.advance (h : frame.In disk files) {reader : Reader}
    (hleads : frame.reader.LeadsTo reader) : In disk files { frame with reader } := by
  obtain ⟨content, hcontent, hreached⟩ := h.reached
  exact ⟨h.mem, content, hcontent, hreached.trans hleads⟩

end Frame

/-- Whether a problem is a name without a file. -/
def Problem.isMissing : Problem → Bool
  | .localIncludeMissing _ => true
  | .includeMissing _ _ => true
  | _ => false

namespace Run

variable {disk : Files.Disk} {dirs : List Text} {run next last : Run} {frame : Frame}
  {outer : List Frame}

/-- What a step that begins at `frame` makes of the warnings. -/
inductive Report (frame : Frame) (warned : List Diagnostic) : List Diagnostic → Prop where
  | nothing : Report frame warned warned
  /-- A removal removes nothing. -/
  | removal {advice : Advice} (h : frame.reader.StandsAt .undefine)
      (hadvice : advice = .nothingToUndefine ∨ ∃ name, advice = .notDefined name) :
      Report frame warned (advice.warning frame.operand :: warned)
  /-- An include leads to a file entered before. -/
  | known {path : Text} (h : frame.reader.StandsAt .includeFile) :
      Report frame warned ((Advice.alreadyIncluded path).warning frame.operand :: warned)

/-- How a step that begins at `frame` fails. -/
inductive Failing (frame : Frame) : Stop → Prop where
  /-- The construct there has a flaw. -/
  | flawed {reader : Reader} {flaw : Flaw} (h : frame.reader.LeadsTo reader) :
      Failing frame ⟨frame.place reader.position, .flawed flaw⟩
  /-- No block is open to be closed. -/
  | closing (h : frame.reader.StandsAt .endIf) : Failing frame ⟨frame.here, .unmatchedClosing⟩
  /-- An include leads to no file. -/
  | missing {problem : Problem} (h : frame.reader.StandsAt .includeFile)
      (hproblem : problem.isMissing = true) : Failing frame ⟨frame.operand, problem⟩

theorem execute_report {construct : Construct} (hsited : construct.Sited frame.reader)
    (h : run.execute disk dirs frame construct = .ok next) :
    Report frame run.warned next.warned := by
  cases hsited with
  | undefine hstands =>
    cases h
    rw [undefine]
    split
    · exact .removal hstands (.inl rfl)
    · split
      · exact .nothing
      · exact .removal hstands (.inr ⟨_, rfl⟩)
  | includeFile hstands =>
    obtain ⟨file, content, -, ⟨-, rfl⟩ | ⟨-, rfl⟩⟩ := execute_include h
    · exact .known hstands
    · exact .nothing
  | expansion =>
    simp only [execute] at h
    split at h <;> (cases h; exact .nothing)
  | closeBlock =>
    simp only [execute] at h
    split at h
    · cases h
      exact .nothing
    · cases h
  | _ =>
    cases h
    exact .nothing

/-- A step warns of the directive it begins at, or of nothing. -/
theorem step_report (hframes : run.frames = frame :: outer) (h : run.step disk dirs = .ok next) :
    Report frame run.warned next.warned := by
  cases step_move hframes h with
  | leave => exact .nothing
  | skip =>
    rw [skipLine_warned]
    exact .nothing
  | read _ _ hread hexecute =>
    have hreport := execute_report (Construct.sited_of_read hread) hexecute
    exact hreport

theorem isMissing_of_find {directory name : Text} {problem : Problem}
    (h : Lookup.find disk directory dirs name = .error problem) : problem.isMissing = true := by
  rw [Lookup.find] at h
  split at h
  · cases h
  · cases h
    rw [Lookup.missing]
    split <;> rfl

theorem execute_failing {construct : Construct} {stop : Stop}
    (hsited : construct.Sited frame.reader)
    (h : run.execute disk dirs frame construct = .error stop) : Failing frame stop := by
  cases hsited with
  | includeFile hstands =>
    simp only [execute, includeFile] at h
    split at h
    · rename_i hfind
      cases h
      exact .missing hstands (isMissing_of_find hfind)
    · split at h <;> cases h
  | closeBlock hstands =>
    simp only [execute] at h
    split at h
    · cases h
    · cases h
      exact .closing hstands
  | expansion =>
    simp only [execute] at h
    split at h <;> cases h
  | _ => cases h

/-- A step fails at the construct it begins at. -/
theorem step_failing (hframes : run.frames = frame :: outer) {stop : Stop}
    (h : run.step disk dirs = .error stop) : Failing frame stop := by
  by_cases hrest : frame.reader.rest = []
  · rw [step_of_end hframes hrest] at h
    cases h
  cases hskip : run.isSkipping with
  | true =>
    rw [step_of_skipping hframes hrest hskip] at h
    cases h
  | false =>
    cases hread : Construct.read frame.reader with
    | error e =>
      rw [step_of_flaw hframes hrest hskip hread] at h
      cases h
      obtain ⟨reader, hleads, hposition⟩ := Construct.error_of_read hread
      rw [hposition]
      exact .flawed hleads
    | ok result =>
      obtain ⟨construct, reader⟩ := result
      rw [step_of_construct hframes hrest hskip hread] at h
      exact execute_failing (Construct.sited_of_read hread) h

/-- A block that a step opens has its `#` at or behind the place where the step begins. -/
theorem step_opened (hframes : run.frames = frame :: outer) (h : run.step disk dirs = .ok next)
    {block : Block} (hblock : block ∈ next.blocks.elements) :
    block ∈ run.blocks.elements ∨ ∃ reader, frame.reader.LeadsTo reader ∧
      reader.StandsAt .ifDefined ∧ block.opened = frame.place reader.position := by
  cases step_move hframes h with
  | leave => exact .inl hblock
  | @skip line reader hrest hskip hread =>
    rw [skipLine_blocks] at hblock
    cases line with
    | opens position =>
      obtain ⟨hstands, rfl⟩ := SkippedLine.sited_of_opens hread
      rcases List.mem_cons.mp hblock with rfl | hblock
      · exact .inr ⟨_, Reader.leadsTo_skipBlanks _, hstands, rfl⟩
      · exact .inl hblock
    | closes => exact .inl (List.mem_of_mem_tail hblock)
    | other => exact .inl hblock
  | @read construct reader next hrest hskip hread hexecute =>
    rw [execute_blocks hexecute] at hblock
    cases Construct.sited_of_read hread with
    | openBlock hstands =>
      rcases List.mem_cons.mp hblock with rfl | hblock
      · exact .inr ⟨_, .refl _, hstands, rfl⟩
      · exact .inl hblock
    | closeBlock => exact .inl (List.mem_of_mem_tail hblock)
    | _ => exact .inl hblock

theorem step_processed (hframes : run.frames = frame :: outer)
    (h : run.step disk dirs = .ok next) : run.processed ⊆ next.processed := by
  cases step_fileMove hframes h with
  | leave _ _ _ hprocessed => rw [hprocessed]; exact List.Subset.refl _
  | advance _ _ _ _ _ _ hprocessed => rw [hprocessed]; exact List.Subset.refl _
  | enter _ _ _ _ _ _ _ _ _ _ hprocessed => rw [hprocessed]; exact List.subset_cons_self _ _

end Run

/-! ## Whole runs -/

/-- The diagnostic is about a place of one of the files, and about the right one where it
reports an include of a file entered before, or open blocks. -/
structure Diagnostic.LocatedIn (disk : Files.Disk) (files : List Files.Address)
    (d : Diagnostic) : Prop where
  here : ∃ spot : Frame, spot.In disk files ∧ d.place = spot.here
  known : d.isCycle = true → ∃ spot : Frame, spot.In disk files ∧
    spot.reader.StandsAt .includeFile ∧ d.place = spot.operand
  unclosed : d.isUnclosed = true → ∃ spot : Frame, spot.In disk files ∧
    spot.reader.StandsAt .ifDefined ∧ d.place = spot.here

theorem Diagnostic.LocatedIn.mono {disk : Files.Disk} {files files' : List Files.Address}
    {d : Diagnostic} (h : d.LocatedIn disk files) (hsubset : files ⊆ files') :
    d.LocatedIn disk files' where
  here := by
    obtain ⟨spot, hin, hplace⟩ := h.here
    exact ⟨spot, hin.mono hsubset, hplace⟩
  known := by
    intro hcycle
    obtain ⟨spot, hin, hrest⟩ := h.known hcycle
    exact ⟨spot, hin.mono hsubset, hrest⟩
  unclosed := by
    intro hunclosed
    obtain ⟨spot, hin, hrest⟩ := h.unclosed hunclosed
    exact ⟨spot, hin.mono hsubset, hrest⟩

/-- The problem is reported at a place of one of the files, and at the name where this leads
to no file. -/
structure Stop.LocatedIn (disk : Files.Disk) (files : List Files.Address) (stop : Stop) :
    Prop where
  here : ∃ spot : Frame, spot.In disk files ∧ stop.place = spot.here
  missing : stop.problem.isMissing = true → ∃ spot : Frame, spot.In disk files ∧
    spot.reader.StandsAt .includeFile ∧ stop.place = spot.operand

namespace Run

variable {disk : Files.Disk} {dirs : List Text} {run next last : Run} {frame : Frame}
  {outer : List Frame} {files : List Files.Address}

/-- What a step reports is located. -/
theorem Report.locatedIn {warned warned' : List Diagnostic} (h : Report frame warned warned')
    (hframe : frame.In disk files) (hwarned : ∀ d ∈ warned, d.LocatedIn disk files) :
    ∀ d ∈ warned', d.LocatedIn disk files := by
  have hoperand : ∃ spot : Frame, spot.In disk files ∧ frame.operand = spot.here :=
    ⟨_, hframe.advance frame.reader.leadsTo_operand, rfl⟩
  cases h with
  | nothing => exact hwarned
  | @removal advice hstands hadvice =>
    have hcycle : (advice.warning frame.operand).isCycle = false := by
      rw [Advice.isCycle_warning]
      rcases hadvice with rfl | ⟨name, rfl⟩ <;> rfl
    have hunclosed : (advice.warning frame.operand).isUnclosed = false := by
      rw [Advice.isUnclosed_warning]
      rcases hadvice with rfl | ⟨name, rfl⟩ <;> rfl
    refine List.forall_mem_cons.mpr ⟨⟨hoperand, ?_, ?_⟩, hwarned⟩
    · intro h
      rw [hcycle] at h
      cases h
    · intro h
      rw [hunclosed] at h
      cases h
  | @known path hstands =>
    refine List.forall_mem_cons.mpr ⟨⟨hoperand, fun _ => ⟨frame, hframe, hstands, rfl⟩, ?_⟩, hwarned⟩
    intro h
    rw [Advice.isUnclosed_warning] at h
    cases h

/-- The problem that a step fails with is located. -/
theorem Failing.locatedIn {stop : Stop} (h : Failing frame stop) (hframe : frame.In disk files) :
    stop.LocatedIn disk files := by
  cases h with
  | flawed hleads => exact ⟨⟨_, hframe.advance hleads, rfl⟩, fun h => nomatch h⟩
  | closing => exact ⟨⟨frame, hframe, rfl⟩, fun h => nomatch h⟩
  | missing hstands =>
    exact ⟨⟨_, hframe.advance frame.reader.leadsTo_operand, rfl⟩,
      fun _ => ⟨frame, hframe, hstands, rfl⟩⟩

/-- The open blocks and the warnings have places in files that were entered. -/
structure Located (disk : Files.Disk) (run : Run) : Prop where
  blocks : ∀ block ∈ run.blocks.elements, ∃ spot : Frame, spot.In disk run.processed ∧
    spot.reader.StandsAt .ifDefined ∧ block.opened = spot.here
  warned : ∀ d ∈ run.warned, d.LocatedIn disk run.processed

theorem Sound.frame_in (h : run.Sound disk) (hframe : frame ∈ run.frames) :
    frame.In disk run.processed :=
  ⟨h.mem_processed hframe, h.reached frame hframe⟩

theorem Located.step (h : run.Located disk) (hsound : run.Sound disk) (hrun : run.frames ≠ [])
    (hstep : run.step disk dirs = .ok next) : next.Located disk := by
  obtain ⟨frame, outer, hframes⟩ := List.exists_cons_of_ne_nil hrun
  have hsubset := step_processed hframes hstep
  have hframe : frame.In disk next.processed :=
    (hsound.frame_in (by rw [hframes]; exact List.mem_cons_self)).mono hsubset
  constructor
  · intro block hblock
    rcases step_opened hframes hstep hblock with hold | ⟨reader, hleads, hstands, hopened⟩
    · obtain ⟨spot, hin, hrest⟩ := h.blocks block hold
      exact ⟨spot, hin.mono hsubset, hrest⟩
    · exact ⟨_, hframe.advance hleads, hstands, hopened⟩
  · exact (step_report hframes hstep).locatedIn hframe fun d hd =>
      (h.warned d hd).mono hsubset

theorem Located.of_steps {visited : List Run} (h : run.Located disk) (hsound : run.Sound disk)
    (hsteps : Steps disk dirs run visited last) : last.Located disk := by
  refine (hsteps.invariant (P := fun run => run.Located disk ∧ run.Sound disk) ?_
    ⟨h, hsound⟩).2.1
  intro run next hrun hframes hstep
  exact ⟨hrun.1.step hrun.2 hframes hstep, hrun.2.step hframes hstep⟩

/-- The blocks that are open at the end are reported at the outermost of them. -/
theorem Located.warnUnclosed (h : run.Located disk) : run.warnUnclosed.Located disk := by
  rw [Run.warnUnclosed]
  split
  · rename_i outermost hbottom
    obtain ⟨spot, hin, hstands, hopened⟩ := h.blocks outermost (List.mem_of_getLast? hbottom)
    refine ⟨h.blocks, List.forall_mem_cons.mpr ⟨⟨⟨spot, hin, hopened⟩, ?_, ?_⟩, h.warned⟩⟩
    · intro hcycle
      rw [Advice.isCycle_warning] at hcycle
      cases hcycle
    · intro _
      exact ⟨spot, hin, hstands, hopened⟩
  · exact h

end Run

namespace Session

variable {session : Session} {disk : Files.Disk} {root : Text}

/-- The place is a true position in a file that the last run entered. -/
def Shows (session : Session) (disk : Files.Disk) (place : Place) : Prop :=
  place.path ∈ session.processedFiles ∧
    ∃ file ∈ session.run.processed, ∃ content, ∃ position : Position,
      file.path = place.path ∧ disk.content? file = some content ∧ position.TrueIn content ∧
      place.line = position.line ∧ place.column = position.column

theorem shows_of_in {spot : Frame} (h : spot.In disk session.run.processed) {place : Place}
    (hplace : place = spot.here) : session.Shows disk place := by
  subst hplace
  obtain ⟨content, hcontent, hreached⟩ := h.reached
  refine ⟨?_, spot.file, h.mem, content, spot.reader.position, rfl, hcontent, hreached.trueIn,
    rfl, rfl⟩
  rw [processedFiles, Table.mem_keys_ofList, List.map_map]
  exact List.mem_map_of_mem h.mem

theorem located_of_steps {start last : Run} {visited : List Run}
    (hopened : session.opened disk root = .ok start)
    (hsteps : Run.Steps disk session.settings.includeDirectories start visited last) :
    last.Located disk := by
  have hstart : start.Located disk := by
    obtain ⟨file, content, -, rfl⟩ := eq_of_opened hopened
    exact ⟨fun _ h => (nomatch h), fun _ h => (nomatch h)⟩
  exact hstart.of_steps (.of_opened hopened) hsteps

/-- The state that a run leaves has its places in files that were entered. -/
theorem located_of_process (session : Session) (disk : Files.Disk) (root : Text) :
    (session.process disk root).2.run.Located disk := by
  cases session.course disk root with
  | unopened failure hopened hprocess =>
    rw [hprocess]
    exact ⟨fun _ h => (nomatch h), fun _ h => (nomatch h)⟩
  | finished start last visited hopened hsteps hframes hprocess =>
    rw [hprocess]
    exact (located_of_steps hopened hsteps).warnUnclosed
  | stopped start last visited stop hopened hsteps hframes hstop hprocess =>
    have hlast := located_of_steps hopened hsteps
    rw [hprocess]
    exact ⟨hlast.blocks, hlast.warned⟩

theorem stop_located {stop : Stop} (hstop : (session.process disk root).1 = some stop) :
    (stop.place = .ofFile (disk.canonical root) ∧
        ∃ failure, disk.fetch (disk.canonical root) = .error failure) ∨
      stop.LocatedIn disk (session.process disk root).2.run.processed := by
  cases session.course disk root with
  | unopened failure hopened hprocess =>
    rw [hprocess] at hstop
    cases hstop
    refine .inl ⟨rfl, ?_⟩
    cases hfetch : disk.fetch (disk.canonical root) with
    | error failure => exact ⟨failure, rfl⟩
    | ok result =>
      rw [opened, hfetch] at hopened
      cases hopened
  | finished start last visited hopened hsteps hframes hprocess =>
    rw [hprocess] at hstop
    cases hstop
  | stopped start last visited found hopened hsteps hframes hfound hprocess =>
    rw [hprocess] at hstop ⊢
    cases hstop
    obtain ⟨frame, outer, hlast⟩ := List.exists_cons_of_ne_nil hframes
    have hsound := ((Run.Sound.of_opened hopened).of_steps hsteps).2
    have hframe := hsound.frame_in (by rw [hlast]; exact List.mem_cons_self)
    exact .inr ((Run.step_failing hlast hfound).locatedIn hframe)

/-- Every warning of a run is about a true position in a file that the run entered, and so
is the problem that ends it, unless the root file cannot be read.  Includes are reported at
the name, open blocks at the `#` of the outermost one.  A step reports about the innermost
file only, and behind an included file that is the including one, where it was. -/
theorem diagnostics_located (session : Session) (disk : Files.Disk) (root : Text) :
    (∀ stop, (session.process disk root).1 = some stop →
      (stop.place = .ofFile (disk.canonical root) ∧
          ∃ failure, disk.fetch (disk.canonical root) = .error failure) ∨
        ((session.process disk root).2.Shows disk stop.place ∧
          stop.LocatedIn disk (session.process disk root).2.run.processed)) ∧
    (∀ d ∈ (session.process disk root).2.run.warnings,
      (session.process disk root).2.Shows disk d.place ∧
        d.LocatedIn disk (session.process disk root).2.run.processed) ∧
    ∀ state ∈ session.states disk root, ∀ frame outer, state.frames = frame :: outer →
      (∀ stop, state.step disk session.settings.includeDirectories = .error stop →
        Run.Failing frame stop) ∧
      ∀ next, state.step disk session.settings.includeDirectories = .ok next →
        Run.Report frame state.warned next.warned ∧ Run.FileMove disk state frame outer next := by
  refine ⟨fun stop hstop => ?_, fun d hd => ?_, fun state _ frame outer hframes => ⟨?_, ?_⟩⟩
  · rcases stop_located hstop with hunread | hlocated
    · exact .inl hunread
    · obtain ⟨spot, hin, hplace⟩ := hlocated.here
      exact .inr ⟨shows_of_in hin hplace, hlocated⟩
  · have hlocated := (located_of_process session disk root).warned d (List.mem_reverse.mp hd)
    obtain ⟨spot, hin, hplace⟩ := hlocated.here
    exact ⟨shows_of_in hin hplace, hlocated⟩
  · exact fun stop hstop => Run.step_failing hframes hstop
  · exact fun next hnext => ⟨Run.step_report hframes hnext, Run.step_fileMove hframes hnext⟩

end Session

end XsPrep
