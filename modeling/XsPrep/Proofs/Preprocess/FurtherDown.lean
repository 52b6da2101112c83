import XsPrep.Proofs.Preprocess.Headings
import XsPrep.Proofs.Preprocess.Turns
import Mathlib.Data.List.DropRight

/-!
# Going on further down in a file

Two runs go over the same text of a file, the one at the beginning of the file and the other
further down, below a heading.  They started with the same open blocks and the same warnings, and
these stay where they are.  What is opened or reported since is further down in the other run
(`Run.FurtherDown`).

Each step keeps this (`Run.Lower.step`), so the two runs go on side by side to the end or to the
same problem (`Run.Lower.finish`).  A block from the start is known by its depth: it is open until
fewer blocks than its depth are open (`Run.lasting`).
-/

namespace XsPrep

/-! ## Open blocks -/

/-- The blocks in `kept` are the same in both stacks, and the others are further down in the
second one. -/
def Block.OpenedBelow (heading : Heading) (kept blocks blocks' : List Block) : Prop :=
  ∃ opened, blocks = opened ++ kept ∧ blocks' = opened.map (Block.below heading) ++ kept

namespace Block.OpenedBelow

variable {heading : Heading} {kept blocks blocks' : List Block}

theorem refl (heading : Heading) (blocks : List Block) :
    OpenedBelow heading blocks blocks blocks :=
  ⟨[], rfl, rfl⟩

theorem push (h : OpenedBelow heading kept blocks blocks') (block : Block) :
    OpenedBelow heading kept (block :: blocks) (block.below heading :: blocks') := by
  obtain ⟨opened, rfl, rfl⟩ := h
  exact ⟨block :: opened, rfl, rfl⟩

/-- Blocks that are still open are kept. -/
theorem rtake_eq (h : OpenedBelow heading kept blocks blocks') :
    kept.rtake blocks.length = kept := by
  obtain ⟨opened, rfl, -⟩ := h
  rw [List.rtake, List.length_append, Nat.sub_eq_zero_of_le (Nat.le_add_left _ _), List.drop_zero]

theorem map_active_eq (h : OpenedBelow heading kept blocks blocks') :
    blocks'.map Block.active = blocks.map Block.active := by
  obtain ⟨opened, rfl, rfl⟩ := h
  rw [List.map_append, List.map_append, List.map_map]
  rfl

/-- There is a block to close in both stacks or in none.  It may be one of those that were kept. -/
theorem pop_cases (h : OpenedBelow heading kept blocks blocks') :
    (blocks = [] ∧ blocks' = []) ∨
    ∃ block rest block' rest', blocks = block :: rest ∧ blocks' = block' :: rest' ∧
      OpenedBelow heading (kept.rtake rest.length) rest rest' := by
  obtain ⟨opened, rfl, rfl⟩ := h
  cases opened with
  | cons block opened =>
    have hrest : OpenedBelow heading kept (opened ++ kept)
        (opened.map (Block.below heading) ++ kept) := ⟨opened, rfl, rfl⟩
    refine .inr ⟨block, opened ++ kept, block.below heading,
      opened.map (Block.below heading) ++ kept, rfl, rfl, ?_⟩
    rwa [hrest.rtake_eq]
  | nil =>
    cases kept with
    | nil => exact .inl ⟨rfl, rfl⟩
    | cons block kept =>
      refine .inr ⟨block, kept, block, kept, rfl, rfl, ?_⟩
      rw [List.rtake, List.length_cons, Nat.add_sub_cancel_left]
      exact .refl heading kept

end Block.OpenedBelow

namespace Run

variable {disk : Files.Disk} {dirs : List Text} {run run' next last : Run} {frame : Frame}
  {outer : List Frame} {heading : Heading} {kept : List Block} {earlier : List Diagnostic}

/-! ## Runs further down -/

/-- The runs agree, but the second one is further down.  The blocks in `kept` were opened before
and the warnings in `earlier` were reported before, so they are the same. -/
structure FurtherDown (heading : Heading) (kept : List Block) (earlier : List Diagnostic)
    (run run' : Run) : Prop where
  macros : run'.macros = run.macros
  processed : run'.processed = run.processed
  emitted : run'.emitted = run.emitted
  blocks : Block.OpenedBelow heading kept run.blocks.elements run'.blocks.elements
  warned : ∃ reported, run.warned = reported ++ earlier ∧
    run'.warned = reported.map (Diagnostic.below heading) ++ earlier

/-- The second run is further down than the first one, in the same files.  The file with the
heading is not entered again, and no other file has its path. -/
structure Lower (heading : Heading) (kept : List Block) (earlier : List Diagnostic)
    (run run' : Run) : Prop extends FurtherDown heading kept earlier run run' where
  frames : run'.frames = run.frames.map (Frame.below heading)
  entered : heading.file ∈ run.processed
  known : ∀ frame ∈ run.frames, heading.KnownByPath frame.file

/-- What a step leads to in the one run and in the one further down. -/
inductive StepsLower (heading : Heading) (kept : List Block) (earlier : List Diagnostic) :
    Except Stop Run → Except Stop Run → Prop where
  | ok {next next' : Run}
      (h : Lower heading (kept.rtake next.blocks.size) earlier next next') :
      StepsLower heading kept earlier (.ok next) (.ok next')
  | error (stop : Stop) :
      StepsLower heading kept earlier (.error stop) (.error (stop.below heading))

theorem FurtherDown.alike (h : FurtherDown heading kept earlier run run') : Alike run run' :=
  ⟨h.macros, h.emitted, h.blocks.map_active_eq⟩

theorem FurtherDown.withFrames (h : FurtherDown heading kept earlier run run')
    (frames frames' : List Frame) :
    FurtherDown heading kept earlier { run with frames } { run' with frames := frames' } :=
  ⟨h.macros, h.processed, h.emitted, h.blocks, h.warned⟩

namespace Lower

theorem isSkipping_eq (h : Lower heading kept earlier run run') :
    run'.isSkipping = run.isSkipping :=
  h.alike.isSkipping_eq

/-- A step that closes no block keeps all of them. -/
theorem stays (h : Lower heading kept earlier run run') :
    StepsLower heading kept earlier (.ok run) (.ok run') := by
  refine .ok ?_
  have hkept : kept.rtake run.blocks.size = kept := h.blocks.rtake_eq
  rwa [hkept]

theorem withFrames (h : Lower heading kept earlier run run') {frames : List Frame}
    (hknown : ∀ frame ∈ frames, heading.KnownByPath frame.file) :
    Lower heading kept earlier { run with frames }
      { run' with frames := frames.map (Frame.below heading) } :=
  ⟨h.toFurtherDown.withFrames _ _, rfl, h.entered, hknown⟩

theorem emit (h : Lower heading kept earlier run run') (fragment : Text) :
    Lower heading kept earlier (run.emit fragment) (run'.emit fragment) :=
  ⟨⟨h.macros, h.processed, congrArg (fragment :: ·) h.emitted, h.blocks, h.warned⟩, h.frames,
    h.entered, h.known⟩

theorem withMacros (h : Lower heading kept earlier run run') (macros : Macros) :
    Lower heading kept earlier { run with macros } { run' with macros } :=
  ⟨⟨rfl, h.processed, h.emitted, h.blocks, h.warned⟩, h.frames, h.entered, h.known⟩

theorem warn (h : Lower heading kept earlier run run') (advice : Advice) (place : Place) :
    Lower heading kept earlier (run.warn advice place)
      (run'.warn advice (place.below heading)) := by
  obtain ⟨reported, hwarned, hwarned'⟩ := h.warned
  refine ⟨⟨h.macros, h.processed, h.emitted, h.blocks, advice.warning place :: reported, ?_, ?_⟩,
    h.frames, h.entered, h.known⟩
  · exact congrArg (advice.warning place :: ·) hwarned
  · exact congrArg (advice.warning (place.below heading) :: ·) hwarned'

theorem openBlock (h : Lower heading kept earlier run run') (active : Bool) (place : Place) :
    Lower heading kept earlier (run.openBlock ⟨active, place⟩)
      (run'.openBlock ⟨active, place.below heading⟩) :=
  ⟨⟨h.macros, h.processed, h.emitted, h.blocks.push _, h.warned⟩, h.frames, h.entered, h.known⟩

theorem undefine (h : Lower heading kept earlier run run') (name : Text) (place : Place) :
    Lower heading kept earlier (run.undefine name place)
      (run'.undefine name (place.below heading)) := by
  unfold Run.undefine
  rw [h.macros]
  split
  · exact h.warn _ place
  · split
    · exact h.withMacros _
    · exact h.warn _ place

/-- There is a block to close in both runs or in none. -/
theorem pop?_cases (h : Lower heading kept earlier run run') :
    (run.blocks.pop? = none ∧ run'.blocks.pop? = none) ∨
    ∃ block block' blocks blocks', run.blocks.pop? = some (block, blocks) ∧
      run'.blocks.pop? = some (block', blocks') ∧
      Lower heading (kept.rtake blocks.size) earlier { run with blocks }
        { run' with blocks := blocks' } := by
  rw [Stack.pop?, Stack.pop?]
  rcases h.blocks.pop_cases with ⟨hnil, hnil'⟩ | ⟨block, rest, block', rest', hcons, hcons', hrest⟩
  · rw [hnil, hnil']
    exact .inl ⟨rfl, rfl⟩
  · rw [hcons, hcons']
    exact .inr ⟨block, block', ⟨rest⟩, ⟨rest'⟩, rfl, rfl,
      ⟨h.macros, h.processed, h.emitted, hrest, h.warned⟩, h.frames, h.entered, h.known⟩

theorem skipLine (h : Lower heading kept earlier run run')
    (hfile : heading.KnownByPath frame.file) (line : SkippedLine) :
    StepsLower heading kept earlier (.ok (run.skipLine frame line))
      (.ok (run'.skipLine (frame.below heading) (line.below (heading.marginOf frame.file)))) := by
  cases line with
  | opens position =>
    rw [SkippedLine.below, Run.skipLine, Run.skipLine, Frame.place_below hfile]
    exact (h.openBlock false _).stays
  | other => exact h.stays
  | closes =>
    show StepsLower heading kept earlier _ (.ok (run'.skipLine _ .closes))
    rw [Run.skipLine, Run.skipLine]
    rcases h.pop?_cases with ⟨hpop, hpop'⟩ | ⟨block, block', blocks, blocks', hpop, hpop', hlower⟩
    · rw [hpop, hpop']
      exact h.stays
    · rw [hpop, hpop']
      exact .ok hlower

theorem enter (h : Lower heading kept earlier run run') {file : Files.Address}
    (hfile : file ≠ heading.file) (hknown : heading.KnownByPath file) (content : Text) :
    Lower heading kept earlier (run.enter file content) (run'.enter file content) := by
  refine ⟨⟨h.macros, congrArg (file :: ·) h.processed, h.emitted, h.blocks, h.warned⟩, ?_,
    List.mem_cons_of_mem _ h.entered, List.forall_mem_cons.mpr ⟨hknown, h.known⟩⟩
  have hframe : Frame.below heading ⟨file, .ofText content⟩ = ⟨file, .ofText content⟩ :=
    Frame.below_other hfile
  rw [Run.enter, Run.enter, List.map_cons, hframe, h.frames]

/-- An include finds the same file.  A file that is entered is another one, by its path too. -/
theorem includeFile (h : Lower heading kept earlier run run') (hdisk : disk.WellFormed)
    (hproper : Files.Address.Proper heading.file) (dirs : List Text) (frame : Frame) (name : Text)
    (place : Place) :
    StepsLower heading kept earlier (run.includeFile disk dirs frame name place)
      (run'.includeFile disk dirs (frame.below heading) name (place.below heading)) := by
  have hdirectory : Path.directory (frame.below heading).file.path =
      Path.directory frame.file.path := rfl
  rw [Run.includeFile, Run.includeFile, h.processed, hdirectory]
  cases hfind : Lookup.find disk (Path.directory frame.file.path) dirs name with
  | error problem => exact .error ⟨place, problem⟩
  | ok found =>
    obtain ⟨file, content⟩ := found
    dsimp only
    by_cases hold : run.processed.contains file = true
    · rw [if_pos hold, if_pos hold]
      exact (h.warn _ place).stays
    · have hother : file ≠ heading.file := by
        rintro rfl
        exact hold (by simpa using h.entered)
      have hfile : Files.Address.Proper file :=
        hdisk.proper _ (Files.Disk.mem_files_iff.mp (find_mem hfind))
      rw [if_neg hold, if_neg hold]
      exact (h.enter hother (fun hpath => hfile.path_injective hproper hpath) content).stays

theorem execute (h : Lower heading kept earlier run run') (hdisk : disk.WellFormed)
    (hproper : Files.Address.Proper heading.file) (hfile : heading.KnownByPath frame.file)
    (dirs : List Text) (construct : Construct) :
    StepsLower heading kept earlier (run.execute disk dirs frame construct)
      (run'.execute disk dirs (frame.below heading)
        (construct.below (heading.marginOf frame.file))) := by
  cases construct with
  | literal raw => exact (h.emit raw).stays
  | comment => exact h.stays
  | character raw => exact (h.emit raw).stays
  | define name value =>
    show StepsLower heading kept earlier _
      (.ok { run' with macros := run'.macros.define name value })
    rw [h.macros]
    exact (h.withMacros _).stays
  | expansion name =>
    show StepsLower heading kept earlier _ (run'.execute disk dirs _ (.expansion name))
    rw [Run.execute, Run.execute, h.macros]
    cases run.macros.get? name with
    | none => exact h.stays
    | some value => exact (h.emit value).stays
  | undefine name position =>
    rw [Construct.below, Run.execute, Run.execute, Frame.place_below hfile]
    exact (h.undefine name _).stays
  | openBlock name position =>
    rw [Construct.below, Run.execute, Run.execute, Frame.place_below hfile, h.macros]
    exact (h.openBlock _ _).stays
  | closeBlock position =>
    rw [Construct.below, Run.execute, Run.execute, Frame.place_below hfile]
    rcases h.pop?_cases with ⟨hpop, hpop'⟩ | ⟨block, block', blocks, blocks', hpop, hpop', hlower⟩
    · rw [hpop, hpop']
      exact .error ⟨frame.place position, .unmatchedClosing⟩
    · rw [hpop, hpop']
      exact .ok hlower
  | includeFile name position =>
    rw [Construct.below, Run.execute, Run.execute, Frame.place_below hfile]
    exact h.includeFile hdisk hproper dirs frame name _

/-! ## Steps -/

/-- The runs take the same step. -/
theorem step (h : Lower heading kept earlier run run') (hdisk : disk.WellFormed)
    (hproper : Files.Address.Proper heading.file) (hrun : run.frames ≠ []) (dirs : List Text) :
    StepsLower heading kept earlier (run.step disk dirs) (run'.step disk dirs) := by
  obtain ⟨frame, outer, hframes⟩ := List.exists_cons_of_ne_nil hrun
  have hframes' := h.frames
  have hknown := h.known
  rw [hframes] at hknown
  rw [hframes, List.map_cons] at hframes'
  obtain ⟨hfile, houter⟩ := List.forall_mem_cons.mp hknown
  -- Whatever is read next, both runs go on behind it.
  have hreader : (frame.below heading).reader =
      frame.reader.below (heading.marginOf frame.file) := rfl
  have hmoved : ∀ reader, Lower heading kept earlier
      { run with frames := { frame with reader } :: outer }
      { run' with frames :=
          { frame.below heading with reader := reader.below (heading.marginOf frame.file) } ::
            outer.map (Frame.below heading) } := by
    intro reader
    have hall : ∀ f ∈ { frame with reader } :: outer, heading.KnownByPath f.file :=
      List.forall_mem_cons.mpr ⟨hfile, houter⟩
    exact h.withFrames hall
  by_cases hrest : frame.reader.rest = []
  · rw [step_of_end hframes hrest, step_of_end hframes' hrest]
    exact (h.withFrames houter).stays
  cases hskip : run.isSkipping with
  | true =>
    have hread := SkippedLine.read_below (heading.marginOf frame.file) frame.reader
    rw [step_of_skipping hframes hrest hskip,
      step_of_skipping hframes' hrest (h.isSkipping_eq.trans hskip), hreader, hread]
    exact (hmoved _).skipLine hfile _
  | false =>
    have hskip' := h.isSkipping_eq.trans hskip
    have hread := Construct.read_below (heading.marginOf frame.file) frame.reader
    rw [← hreader] at hread
    cases hconstruct : Construct.read frame.reader with
    | error e =>
      rw [hconstruct] at hread
      rw [step_of_flaw hframes hrest hskip hconstruct, step_of_flaw hframes' hrest hskip' hread,
        SourceError.below, Frame.place_below hfile]
      exact .error ⟨frame.place e.position, .flawed e.flaw⟩
    | ok result =>
      obtain ⟨construct, reader⟩ := result
      rw [hconstruct] at hread
      rw [step_of_construct hframes hrest hskip hconstruct,
        step_of_construct hframes' hrest hskip' hread]
      exact (hmoved reader).execute hdisk hproper hfile dirs construct

end Lower

/-- Of some blocks that are open, the ones that stay open in all of the states. -/
def lasting (kept : List Block) (states : List Run) : List Block :=
  states.foldl (fun kept state => kept.rtake state.blocks.size) kept

/-- The first state keeps what it has kept already. -/
theorem lasting_rtake {visited : List Run} (h : Steps disk dirs run visited last)
    (kept : List Block) :
    lasting (kept.rtake run.blocks.size) (visited ++ [last]) =
      lasting kept (visited ++ [last]) := by
  have hagain : (kept.rtake run.blocks.size).rtake run.blocks.size =
      kept.rtake run.blocks.size := by
    rw [List.rtake, List.rtake, List.drop_drop, List.length_drop]
    congr 1
    omega
  cases h with
  | refl => rw [List.nil_append, lasting, lasting, List.foldl_cons, List.foldl_cons, hagain]
  | head => rw [List.cons_append, lasting, lasting, List.foldl_cons, List.foldl_cons, hagain]

namespace Lower

theorem frames_ne_nil (h : Lower heading kept earlier run run') (hrun : run.frames ≠ []) :
    run'.frames ≠ [] := by
  rw [h.frames]
  exact mt List.map_eq_nil_iff.mp hrun

/-- The runs go on side by side. -/
theorem steps {visited : List Run} (hsteps : Steps disk dirs run visited last)
    (h : Lower heading kept earlier run run') (hdisk : disk.WellFormed)
    (hproper : Files.Address.Proper heading.file) :
    ∃ visited' last', Steps disk dirs run' visited' last' ∧
      Lower heading (lasting kept (visited ++ [last])) earlier last last' := by
  induction hsteps generalizing run' kept with
  | refl run =>
    refine ⟨[], run', .refl run', ?_⟩
    have hkept : kept.rtake run.blocks.size = kept := h.blocks.rtake_eq
    rw [List.nil_append, lasting, List.foldl_cons, List.foldl_nil, hkept]
    exact h
  | @head run next last visited hrun hstep hsteps ih =>
    have hboth := h.step hdisk hproper hrun dirs
    rw [hstep] at hboth
    generalize hstep' : run'.step disk dirs = result' at hboth
    cases hboth with
    | @ok _ next' hnext =>
      obtain ⟨visited', last', hsteps', hlast⟩ := ih hnext
      refine ⟨run' :: visited', last', .head (h.frames_ne_nil hrun) hstep' hsteps', ?_⟩
      have hkept : kept.rtake run.blocks.size = kept := h.blocks.rtake_eq
      rw [List.cons_append, lasting, List.foldl_cons, hkept]
      rwa [lasting_rtake hsteps] at hlast

end Lower

/-! ## Outcomes -/

/-- The runs end in the same way. -/
inductive SameOutcome (heading : Heading) (kept : List Block) (earlier : List Diagnostic) :
    Except (Stop × Run) Run → Except (Stop × Run) Run → Prop where
  | ok {last last' : Run} (h : FurtherDown heading kept earlier last last') :
      SameOutcome heading kept earlier (.ok last) (.ok last')
  | error (stop : Stop) {last last' : Run} (h : FurtherDown heading kept earlier last last') :
      SameOutcome heading kept earlier (.error (stop, last)) (.error (stop.below heading, last'))

theorem Lower.finish (h : Lower heading kept earlier run run') (hdisk : disk.WellFormed)
    (hproper : Files.Address.Proper heading.file) (dirs : List Text) :
    SameOutcome heading (lasting kept (run.states disk dirs)) earlier (run.finish disk dirs)
      (run'.finish disk dirs) := by
  obtain ⟨visited, last, hsteps, hhalted⟩ := exists_steps_halted disk dirs run
  obtain ⟨visited', last', hsteps', hlast⟩ := Lower.steps hsteps h hdisk hproper
  rw [states_eq_of_steps hsteps hhalted, finish_eq_of_steps hsteps, finish_eq_of_steps hsteps']
  by_cases hframes : last.frames = []
  · have hframes' : last'.frames = [] := by rw [hlast.frames, hframes, List.map_nil]
    rw [finish_of_end hframes, finish_of_end hframes']
    exact .ok hlast.toFurtherDown
  · obtain ⟨stop, hstop⟩ := hhalted.resolve_left hframes
    have hboth := hlast.step hdisk hproper hframes dirs
    rw [hstop] at hboth
    generalize hstop' : last'.step disk dirs = result' at hboth
    cases hboth with
    | error =>
      rw [finish_of_stop hframes hstop, finish_of_stop (hlast.frames_ne_nil hframes) hstop']
      exact .error stop hlast.toFurtherDown

end Run

end XsPrep
