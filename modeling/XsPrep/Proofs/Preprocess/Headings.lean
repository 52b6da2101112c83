import XsPrep.Proofs.Source.Margins
import XsPrep.Proofs.Files.Contents
import XsPrep.Proofs.Files.Addresses
import XsPrep.Proofs.Preprocess.Entered

/-!
# Runs over a file with a heading

Some lines are put above the text of one file.  A run that is already in this file, below
these lines, goes on like the run over the text alone: it takes the same steps with the same
effects, and only the places in this file are further down (`Run.step_below`).  So it also
ends the same (`Run.finish_below`).

The content of the file matters no more, since the file is not entered again.
-/

namespace XsPrep

/-- A file, and the lines above its text. -/
structure Heading where
  file : Files.Address
  margin : Margin
deriving DecidableEq, Repr

/-- The lines above the text of a file. -/
def Heading.marginOf (heading : Heading) (file : Files.Address) : Margin :=
  if file = heading.file then heading.margin else ⟨0, 0⟩

/-! ## Everything further down -/

/-- The place with the heading above it, if it is in the file. -/
def Place.below (heading : Heading) (place : Place) : Place :=
  if place.path = heading.file.path then { place with line := place.line + heading.margin.lines }
  else place

def Block.below (heading : Heading) (block : Block) : Block :=
  { block with opened := block.opened.below heading }

def Diagnostic.below (heading : Heading) (d : Diagnostic) : Diagnostic :=
  { d with place := d.place.below heading }

def Stop.below (heading : Heading) (stop : Stop) : Stop :=
  { stop with place := stop.place.below heading }

def Frame.below (heading : Heading) (frame : Frame) : Frame :=
  { frame with reader := frame.reader.below (heading.marginOf frame.file) }

/-- The run with the heading above the text of the file. -/
def Run.below (heading : Heading) (run : Run) : Run :=
  { run with
    blocks := ⟨run.blocks.elements.map (Block.below heading)⟩
    frames := run.frames.map (Frame.below heading)
    warned := run.warned.map (Diagnostic.below heading) }

/-- What a step leads to with the heading above the text of the file. -/
def Run.stepBelow (heading : Heading) : Except Stop Run → Except Stop Run
  | .error stop => .error (stop.below heading)
  | .ok run => .ok (run.below heading)

theorem Reader.below_zero (r : Reader) : r.below ⟨0, 0⟩ = r := rfl

theorem Frame.below_other {heading : Heading} {frame : Frame} (h : frame.file ≠ heading.file) :
    frame.below heading = frame := by
  rw [below, Heading.marginOf, if_neg h, Reader.below_zero]

theorem Frame.below_self (heading : Heading) (reader : Reader) :
    Frame.below heading ⟨heading.file, reader⟩ = ⟨heading.file, reader.below heading.margin⟩ := by
  have hmargin : heading.marginOf heading.file = heading.margin := if_pos rfl
  show Frame.mk _ (reader.below (heading.marginOf heading.file)) = _
  rw [hmargin]

/-- Only the file with the heading has another content. -/
def Heading.Confines (heading : Heading) (f : Files.Address → Text → Text) : Prop :=
  ∀ file content, file ≠ heading.file → f file content = content

/-- Only the file itself has its path. -/
def Heading.KnownByPath (heading : Heading) (file : Files.Address) : Prop :=
  file.path = heading.file.path → file = heading.file

/-- Positions in a file and places move together. -/
theorem Frame.place_below {heading : Heading} {frame : Frame}
    (hfile : heading.KnownByPath frame.file) (p : Position) :
    (frame.below heading).place (p.below (heading.marginOf frame.file)) =
      (frame.place p).below heading := by
  rw [Heading.marginOf, Place.below]
  by_cases h : frame.file = heading.file
  · have hpath : (frame.place p).path = heading.file.path := congrArg Files.Address.path h
    rw [if_pos h, if_pos hpath]
    rfl
  · have hpath : (frame.place p).path ≠ heading.file.path := fun hpath => h (hfile hpath)
    rw [if_neg h, if_neg hpath]
    rfl

namespace Run

variable {disk : Files.Disk} {dirs : List Text} {run next last : Run} {frame : Frame}
  {outer : List Frame} {heading : Heading} {f : Files.Address → Text → Text}

theorem below_isSkipping (heading : Heading) (run : Run) :
    (run.below heading).isSkipping = run.isSkipping := by
  rw [isSkipping, isSkipping, Stack.top?, Stack.top?, below, List.head?_map]
  cases run.blocks.elements.head? with
  | none => rfl
  | some block => rfl

theorem below_pop? (heading : Heading) (run : Run) :
    (run.below heading).blocks.pop? =
      run.blocks.pop?.map fun popped =>
        (popped.1.below heading, ⟨popped.2.elements.map (Block.below heading)⟩) := by
  rw [Stack.pop?, Stack.pop?, below]
  cases run.blocks.elements with
  | nil => rfl
  | cons block blocks => rfl

theorem below_undefine (heading : Heading) (run : Run) (name : Text) (place : Place) :
    (run.below heading).undefine name (place.below heading) =
      (run.undefine name place).below heading := by
  have hmacros : (run.below heading).macros = run.macros := rfl
  rw [undefine, undefine, hmacros]
  split
  · rfl
  · cases run.macros.undefine? name with
    | none => rfl
    | some macros => rfl

theorem below_skipLine (hfile : heading.KnownByPath frame.file) (run : Run)
    (line : SkippedLine) :
    (run.below heading).skipLine (frame.below heading)
        (line.below (heading.marginOf frame.file)) =
      (run.skipLine frame line).below heading := by
  cases line with
  | opens position =>
    rw [SkippedLine.below, skipLine, Frame.place_below hfile]
    rfl
  | other => rfl
  | closes =>
    show (run.below heading).skipLine _ .closes = _
    rw [skipLine, skipLine, below_pop?]
    cases run.blocks.pop? with
    | none => rfl
    | some popped => rfl

theorem below_enter {file : Files.Address} (hfile : file ≠ heading.file) (run : Run)
    (content : Text) :
    (run.below heading).enter file content = (run.enter file content).below heading := by
  have hframe : Frame.below heading ⟨file, .ofText content⟩ = ⟨file, .ofText content⟩ :=
    Frame.below_other hfile
  rw [enter, enter, below, below, List.map_cons, hframe]

theorem below_includeFile (hf : heading.Confines f)
    (hmem : heading.file ∈ run.processed) (disk : Files.Disk) (dirs : List Text) (frame : Frame)
    (name : Text) (place : Place) :
    (run.below heading).includeFile (disk.rewrite f) dirs (frame.below heading) name
        (place.below heading) =
      stepBelow heading (run.includeFile disk dirs frame name place) := by
  have hfind : Lookup.find (disk.rewrite f) (Path.directory (frame.below heading).file.path) dirs
      name = _ := Lookup.rewrite_find f disk (Path.directory frame.file.path) dirs name
  rw [includeFile, includeFile, hfind]
  cases Lookup.find disk (Path.directory frame.file.path) dirs name with
  | error problem => rfl
  | ok found =>
    obtain ⟨file, content⟩ := found
    show (if run.processed.contains file = true then _ else _) = _
    dsimp only
    by_cases hknown : run.processed.contains file = true
    · rw [if_pos hknown, if_pos hknown]
      rfl
    · have hother : file ≠ heading.file := by
        rintro rfl
        exact hknown (by simpa using hmem)
      rw [if_neg hknown, if_neg hknown, hf file content hother, below_enter hother]
      rfl

theorem below_execute (hf : heading.Confines f) (run : Run)
    (hmem : heading.file ∈ run.processed) (hfile : heading.KnownByPath frame.file)
    (disk : Files.Disk) (dirs : List Text) (construct : Construct) :
    (run.below heading).execute (disk.rewrite f) dirs (frame.below heading)
        (construct.below (heading.marginOf frame.file)) =
      stepBelow heading (run.execute disk dirs frame construct) := by
  cases construct with
  | literal raw => rfl
  | comment => rfl
  | character raw => rfl
  | define name value => rfl
  | expansion name =>
    have hmacros : (run.below heading).macros = run.macros := rfl
    show (run.below heading).execute _ dirs _ (.expansion name) = _
    rw [execute, execute, hmacros]
    cases run.macros.get? name with
    | none => rfl
    | some value => rfl
  | undefine name position =>
    rw [Construct.below, execute, Frame.place_below hfile, below_undefine]
    rfl
  | openBlock name position =>
    rw [Construct.below, execute, Frame.place_below hfile]
    rfl
  | closeBlock position =>
    rw [Construct.below, execute, execute, Frame.place_below hfile, below_pop?]
    cases run.blocks.pop? with
    | none => rfl
    | some popped => rfl
  | includeFile name position =>
    rw [Construct.below, execute, Frame.place_below hfile, below_includeFile hf hmem]
    rfl

/-! ## Steps -/

/-- Different files of a run have different paths. -/
theorem Sound.knownByPath (h : run.Sound disk) (hdisk : disk.WellFormed)
    (hmem : heading.file ∈ run.processed) (hframe : frame ∈ run.frames) :
    heading.KnownByPath frame.file := by
  have hproper : ∀ file ∈ run.processed, Files.Address.Proper file := by
    intro file hfile
    obtain ⟨content, hcontent⟩ := h.known file hfile
    exact hdisk.proper _ (Files.Disk.mem_files_iff.mp (Files.Disk.mem_files_of_content? hcontent))
  intro hpath
  exact (hproper _ (h.mem_processed hframe)).path_injective (hproper _ hmem) hpath

/-- A step does the same below the heading. -/
theorem step_below (dirs : List Text) (hf : heading.Confines f) (hdisk : disk.WellFormed)
    (hsound : run.Sound disk) (hmem : heading.file ∈ run.processed) (hrun : run.frames ≠ []) :
    (run.below heading).step (disk.rewrite f) dirs = stepBelow heading (run.step disk dirs) := by
  obtain ⟨frame, outer, hframes⟩ := List.exists_cons_of_ne_nil hrun
  have hfile : heading.KnownByPath frame.file :=
    hsound.knownByPath hdisk hmem (by rw [hframes]; exact List.mem_cons_self)
  have hbelow : (run.below heading).frames =
      frame.below heading :: outer.map (Frame.below heading) := by
    rw [below, hframes, List.map_cons]
  by_cases hrest : frame.reader.rest = []
  · rw [step_of_end hbelow hrest, step_of_end hframes hrest]
    rfl
  cases hskip : run.isSkipping with
  | true =>
    have hread := SkippedLine.read_below (heading.marginOf frame.file) frame.reader
    have hskipped := below_skipLine hfile
      { run with frames := { frame with reader := (SkippedLine.read frame.reader).2 } :: outer }
      (SkippedLine.read frame.reader).1
    rw [step_of_skipping hbelow hrest ((below_isSkipping heading run).trans hskip),
      step_of_skipping hframes hrest hskip, stepBelow, ← hskipped]
    have hreader : (frame.below heading).reader =
        frame.reader.below (heading.marginOf frame.file) := rfl
    rw [hreader, hread]
    rfl
  | false =>
    have hskip' := (below_isSkipping heading run).trans hskip
    have hread : Construct.read (frame.below heading).reader = _ :=
      Construct.read_below (heading.marginOf frame.file) frame.reader
    cases hconstruct : Construct.read frame.reader with
    | error e =>
      rw [hconstruct] at hread
      rw [step_of_flaw hbelow hrest hskip' hread, step_of_flaw hframes hrest hskip hconstruct,
        SourceError.below, Frame.place_below hfile]
      rfl
    | ok result =>
      obtain ⟨construct, reader⟩ := result
      rw [hconstruct] at hread
      have hexecute := below_execute hf { run with frames := { frame with reader } :: outer }
        hmem hfile disk dirs construct
      rw [step_of_construct hbelow hrest hskip' hread,
        step_of_construct hframes hrest hskip hconstruct, ← hexecute]
      rfl

theorem steps_below {visited : List Run} (h : Steps disk dirs run visited last)
    (hf : heading.Confines f) (hdisk : disk.WellFormed) (hsound : run.Sound disk)
    (hmem : heading.file ∈ run.processed) :
    Steps (disk.rewrite f) dirs (run.below heading) (visited.map (Run.below heading))
        (last.below heading) ∧ last.Sound disk ∧ heading.file ∈ last.processed := by
  induction h with
  | refl run => exact ⟨.refl _, hsound, hmem⟩
  | @head run next last visited hrun hstep _ ih =>
    have hnext := step_below dirs hf hdisk hsound hmem hrun
    rw [hstep] at hnext
    have hkept : heading.file ∈ next.processed := by
      obtain ⟨frame, outer, hframes⟩ := List.exists_cons_of_ne_nil hrun
      cases step_fileMove hframes hstep with
      | leave _ _ _ hprocessed => rwa [hprocessed]
      | advance _ _ _ _ _ _ hprocessed => rwa [hprocessed]
      | enter _ _ _ _ _ _ _ _ _ _ hprocessed =>
        rw [hprocessed]
        exact List.mem_cons_of_mem _ hmem
    obtain ⟨hsteps, hlast⟩ := ih (hsound.step hrun hstep) hkept
    refine ⟨.head ?_ hnext hsteps, hlast⟩
    simpa [Run.below] using hrun

/-! ## Outcomes -/

/-- What a run comes to with the heading above the text of the file. -/
def finishBelow (heading : Heading) : Except (Stop × Run) Run → Except (Stop × Run) Run
  | .error (stop, run) => .error (stop.below heading, run.below heading)
  | .ok run => .ok (run.below heading)

/-- A run ends the same below the heading. -/
theorem finish_below (dirs : List Text) (hf : heading.Confines f) (hdisk : disk.WellFormed)
    (hsound : run.Sound disk) (hmem : heading.file ∈ run.processed) :
    (run.below heading).finish (disk.rewrite f) dirs =
      finishBelow heading (run.finish disk dirs) := by
  obtain ⟨visited, last, hsteps, hhalted⟩ := exists_steps_halted disk dirs run
  obtain ⟨hbelow, hlast, hkept⟩ := steps_below hsteps hf hdisk hsound hmem
  rw [finish_eq_of_steps hsteps, finish_eq_of_steps hbelow]
  by_cases hframes : last.frames = []
  · have hframes' : (last.below heading).frames = [] := by rw [Run.below, hframes]; rfl
    rw [finish_of_end hframes, finish_of_end hframes']
    rfl
  · obtain ⟨stop, hstop⟩ := hhalted.resolve_left hframes
    have hstop' := step_below dirs hf hdisk hlast hkept hframes
    rw [hstop] at hstop'
    rw [finish_of_stop hframes hstop, finish_of_stop (by simpa [Run.below] using hframes) hstop']
    rfl

theorem below_warnUnclosed (heading : Heading) (run : Run) :
    (run.below heading).warnUnclosed = run.warnUnclosed.below heading := by
  have hbottom : (run.below heading).blocks.bottom? =
      run.blocks.bottom?.map (Block.below heading) := by
    rw [Stack.bottom?, Stack.bottom?, below, List.getLast?_map]
  have hsize : (run.below heading).blocks.size = run.blocks.size := List.length_map _
  rw [warnUnclosed, warnUnclosed, hbottom, hsize]
  cases run.blocks.bottom? with
  | none => rfl
  | some outermost => rfl

end Run

end XsPrep
