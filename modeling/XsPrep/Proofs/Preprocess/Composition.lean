import XsPrep.Proofs.Source.Positions
import XsPrep.Proofs.Preprocess.Nesting
import XsPrep.Proofs.Preprocess.FurtherDown
import XsPrep.Proofs.Preprocess.Unread

/-!
# Scanning line after line

The scan of some lines and a text behind them is the scan of the lines and then the scan of the
text.  Nothing in the lines is read differently because of the text behind them
(`Run.step_cutOff`): a construct that would reach beyond the last line lacks its closing mark
without the text, and so the scan of the lines alone fails.  Files that are included on the way
are read inside either text in the same way (`Run.step_inside`).

Behind the lines the run is in the file further down than a run that begins there, so the rest
is a matter of `Run.Lower.finish`.
-/

namespace XsPrep

/-! ## Behind the lines -/

/-- Behind whole lines a line begins. -/
theorem Position.foldl_after_lines {t : Text} (h : t.IsLines) :
    t.characters.foldl after .start =
      Position.start.below ⟨t.count Byte.newline, t.length⟩ := by
  have hlast : lastLine t = [] := by
    rcases h.eq_nil_or_append with rfl | ⟨s, rfl⟩
    · rfl
    · rw [lastLine, List.reverse_append]
      rfl
  have hwidth : (lastLine t).characterCount = 0 := by
    rw [hlast, Text.characterCount_eq, Text.characters_nil, List.length_nil]
  rw [← advance_eq_foldl, advance, hwidth]
  cases t.count Byte.newline with
  | zero => rfl
  | succ lines => rfl

namespace Reader

/-- The text with other text behind it. -/
theorem front_append {a : Text} (ha : a.IsLines) (b : Text) :
    Front b.characters (ofText a) (ofText (a ++ b)) :=
  ⟨Text.characters_append ha b, rfl⟩

/-- Behind the lines the text begins, further down. -/
theorem Front.eq_below {a b : Text} {r r' : Reader} (h : r.Front b.characters r')
    (ha : a.IsLines) (hleads : (ofText a).LeadsTo r) (hend : r.rest = []) :
    r' = (ofText b).below ⟨a.count Byte.newline, a.length⟩ := by
  obtain ⟨cs, hreads⟩ := hleads
  have hcs : cs = a.characters := by
    have hrest := hreads.rest_eq
    rw [hend, List.append_nil] at hrest
    exact hrest.symm
  have hposition : r'.position = Position.start.below ⟨a.count Byte.newline, a.length⟩ := by
    rw [h.position_eq, hreads.position_eq, hcs]
    exact Position.foldl_after_lines ha
  have hrest : r'.rest = b.characters := by rw [h.rest_eq, hend, List.nil_append]
  rw [show r' = ⟨r'.position, r'.rest⟩ from rfl, hposition, hrest]
  rfl

end Reader

namespace Run

variable {disk : Files.Disk} {dirs : List Text} {run next last : Run} {file : Files.Address}
  {behind : List Character} {r r' : Reader}

/-! ## Through the lines -/

/-- In the outermost file, a step before the cut is the same with the text behind the cut. -/
theorem step_cutOff (hrun : run.frames = []) (hcut : r.CutOff behind r') (hrest : r.rest ≠ [])
    (hspelled : ∀ c ∈ r'.rest, c.Spelled)
    (hstep : (run.inside [⟨file, r⟩]).step disk dirs = .ok next) :
    ∃ (core : Run) (q q' : Reader), next = core.inside [⟨file, q⟩] ∧
      (run.inside [⟨file, r'⟩]).step disk dirs = .ok (core.inside [⟨file, q'⟩]) ∧
      q.Front behind q' ∧ r.LeadsTo q ∧ r'.LeadsTo q' := by
  have hframes : ∀ r, (run.inside [⟨file, r⟩]).frames = [⟨file, r⟩] := by
    intro r
    rw [inside, hrun, List.nil_append]
  have hinside : ∀ r q, { run.inside [⟨file, r⟩] with frames := [⟨file, q⟩] } =
      run.inside [⟨file, q⟩] := by
    intro r q
    rw [inside, inside, hrun]
    rfl
  have hrest' : r'.rest ≠ [] := by
    rw [hcut.rest_eq]
    exact List.append_ne_nil_of_left_ne_nil hrest behind
  cases step_move (hframes r) hstep with
  | leave hend => exact absurd hend hrest
  | @skip line q _ hskip hread =>
    obtain ⟨q', hat', hfront⟩ := (Reading.At.line hread).of_cutOff hcut hrest hspelled
    refine ⟨run.skipLine ⟨file, r⟩ line, q, q', ?_, ?_, hfront, (Reading.At.line hread).leadsTo,
      hat'.leadsTo⟩
    · rw [hinside, inside_skipLine]
    · cases hat' with
      | line hread' =>
        rw [step_of_skipping (hframes r') hrest' hskip, hread', hinside, inside_skipLine]
        rfl
  | @read construct q _ _ hskip hread hexecute =>
    obtain ⟨q', hat', hfront⟩ := (Reading.At.construct hread).of_cutOff hcut hrest hspelled
    rw [hinside, inside_execute] at hexecute
    cases hcore : run.execute disk dirs ⟨file, r⟩ construct with
    | error stop =>
      rw [hcore] at hexecute
      cases hexecute
    | ok core =>
      rw [hcore] at hexecute
      refine ⟨core, q, q', (Except.ok.inj hexecute).symm, ?_, hfront,
        (Reading.At.construct hread).leadsTo, hat'.leadsTo⟩
      cases hat' with
      | construct hread' =>
        -- Of the frame, a construct depends on the file only.
        have hcore' : run.execute disk dirs ⟨file, r'⟩ construct = .ok core := hcore
        rw [step_of_construct (hframes r') hrest' hskip hread', hinside, inside_execute, hcore']
        rfl

/-- Behind the end of its only file a run takes no step. -/
theorem Steps.eq_of_end {frame : Frame} {visited : List Run}
    (h : Steps disk dirs run visited last) (hframes : run.frames = [frame])
    (hend : frame.reader.rest = []) (hlast : last.frames = []) :
    last = { run with frames := [] } := by
  cases h with
  | refl =>
    rw [hframes] at hlast
    cases hlast
  | head _ hstep hsteps =>
    rw [step_of_end hframes hend] at hstep
    cases hstep
    cases hsteps with
    | refl => rfl
    | head hrun _ _ => exact absurd rfl hrun

theorem inside_file_ne_nil (run : Run) (frame : Frame) : (run.inside [frame]).frames ≠ [] :=
  List.append_ne_nil_of_right_ne_nil run.frames (List.cons_ne_nil frame [])

/-- Steps that lead through lines lead, with other text behind the lines, to this text. -/
theorem Steps.cutOff {visited : List Run} (hsteps : Steps disk dirs run visited last)
    (hlast : last.frames = []) {core : Run} (hrun : run = core.inside [⟨file, r⟩])
    (hfront : r.Front behind r') (hlines : Character.AreLines r.rest)
    (hspelled : ∀ c ∈ r'.rest, c.Spelled) :
    ∃ visited' q q',
      Steps disk dirs (core.inside [⟨file, r'⟩]) visited' (last.inside [⟨file, q'⟩]) ∧
        q.Front behind q' ∧ r.LeadsTo q ∧ q.rest = [] := by
  induction hsteps generalizing core r r' with
  | refl run =>
    rw [hrun] at hlast
    exact absurd hlast (inside_file_ne_nil core _)
  | @head run next last visited hne hstep hsteps ih =>
    subst hrun
    by_cases hcore : core.frames = []
    · by_cases hrest : r.rest = []
      · -- The run leaves the lines, and nothing is left to do.
        have hframes : (core.inside [⟨file, r⟩]).frames = [⟨file, r⟩] := by
          rw [Run.inside, hcore, List.nil_append]
        have hleft := (Steps.head hne hstep hsteps).eq_of_end hframes hrest hlast
        have hlast' : core = last := by rw [hleft, Run.inside, ← hcore]
        exact ⟨[], r, r', hlast' ▸ .refl _, hfront, .refl r, hrest⟩
      · have hcut : r.CutOff behind r' := ⟨hfront, .inr (hlines.resolve_left hrest)⟩
        obtain ⟨core', q, q', hnext, hstep', hfront', hleads, hleads'⟩ :=
          step_cutOff hcore hcut hrest hspelled hstep
        obtain ⟨visited', p, p', hsteps', hp, hway, hend⟩ := ih hlast hnext hfront'
          (hleads.areLines hlines) fun c hc => hspelled c (hleads'.rest_subset hc)
        exact ⟨_, p, p', .head (inside_file_ne_nil core _) hstep' hsteps', hp, hleads.trans hway,
          hend⟩
    · -- The run is in an included file.
      rw [step_inside hcore] at hstep
      cases hstep' : core.step disk dirs with
      | error stop =>
        rw [hstep'] at hstep
        cases hstep
      | ok core' =>
        rw [hstep'] at hstep
        obtain ⟨visited', p, p', hsteps', hp⟩ :=
          ih hlast (Except.ok.inj hstep).symm hfront hlines hspelled
        refine ⟨_, p, p', .head (inside_frames_ne_nil hcore _) ?_ hsteps', hp⟩
        rw [step_inside hcore, hstep']
        rfl

/-! ## The text behind the lines -/

/-- The blocks that are open in a run and that no step of a scan of the text closes. -/
def staying (disk : Files.Disk) (dirs : List Text) (run : Run) (file : Files.Address)
    (text : Text) : List Block :=
  lasting run.blocks.elements
    ((run.scanning file text).states (disk.holding file text) dirs)

theorem SameOutcome.backIn {heading : Heading} {kept : List Block} {earlier : List Diagnostic}
    {result result' : Except (Stop × Run) Run}
    (h : SameOutcome heading kept earlier result result') (frames frames' : List Frame) :
    SameOutcome heading kept earlier (Run.backIn frames result) (Run.backIn frames' result') := by
  cases h with
  | ok h => exact .ok (h.withFrames frames frames')
  | error stop h => exact .error stop (h.withFrames frames frames')

/-- The scan of lines with a text behind them comes to the text, where the scan of the lines
alone ends. -/
theorem finish_append {a : Text} (ha : a.IsLines) (b : Text)
    (h : (run.scanning file a).finish disk dirs = .ok last) :
    (run.scanning file (a ++ b)).finish disk dirs =
      (last.inside [⟨file, (Reader.ofText b).below ⟨a.count Byte.newline, a.length⟩⟩]).finish disk
        dirs := by
  obtain ⟨visited, hsteps, hlast⟩ := finish_eq_ok_iff.mp h
  have hscanning : ∀ text, run.scanning file text =
      { run with processed := run.processed.insert file, frames := [] }.inside
        [⟨file, .ofText text⟩] := fun _ => rfl
  have hspelled : ∀ c ∈ (Reader.ofText (a ++ b)).rest, c.Spelled :=
    fun c hc => Text.spelled_of_mem hc
  obtain ⟨visited', q, q', hsteps', hfront, hleads, hend⟩ :=
    hsteps.cutOff hlast (hscanning a) (Reader.front_append ha b) ha.characters hspelled
  rw [← hfront.eq_below ha hleads hend]
  exact finish_eq_of_steps hsteps'

/-- Behind the lines, the run with the lines above it is further down than one that begins
there. -/
theorem lower_inside (heading : Heading) (hmem : heading.file ∈ run.processed)
    (hrun : run.frames = []) (text : Text) :
    Lower heading run.blocks.elements run.warned (run.inside [⟨heading.file, .ofText text⟩])
      (run.inside [⟨heading.file, (Reader.ofText text).below heading.margin⟩]) := by
  refine ⟨⟨rfl, rfl, rfl, .refl heading _, [], rfl, rfl⟩, ?_, hmem, ?_⟩
  · rw [inside, inside, hrun, List.nil_append, List.nil_append, List.map_singleton,
      Frame.below_self]
  · intro frame hframe
    rw [inside, hrun, List.nil_append, List.mem_singleton] at hframe
    rw [hframe]
    exact fun _ => rfl

/-- Scanning is compositional over lines.  The scan of some lines and a text behind them ends
like the scan of the text from the state that the scan of the lines leads to.  What is opened
and reported in the text is further down by the number of the lines. -/
theorem scanText_append (disk : Files.Disk) (dirs : List Text) (run middle : Run)
    (file : Files.Address) (a b : Text) (hdisk : disk.WellFormed)
    (hproper : Files.Address.Proper file) (ha : a.IsLines)
    (h : run.scanText disk dirs file a = .ok middle) :
    SameOutcome ⟨file, ⟨a.count Byte.newline, a.length⟩⟩ (middle.staying disk dirs file b)
      middle.warned (middle.scanText disk dirs file b)
      (run.scanText disk dirs file (a ++ b)) := by
  obtain ⟨last, hfinish, rfl⟩ := scanText_eq_ok_iff.mp h
  obtain ⟨visited, hsteps, hlast⟩ := finish_eq_ok_iff.mp hfinish
  have hmem : file ∈ last.processed :=
    hsteps.processed_suffix.subset (mem_processed_scanning run file a)
  have hstart : { last with frames := run.frames }.scanning file b =
      last.inside [⟨file, .ofText b⟩] := by
    rw [scanning, inside, hlast, List.insert_of_mem hmem]
    rfl
  have hlower := lower_inside ⟨file, ⟨a.count Byte.newline, a.length⟩⟩ hmem hlast b
  have hend := hlower.finish hdisk hproper dirs
  rw [scanText_eq, scanText_eq, finish_append ha b hfinish, staying, states_holding, hstart]
  · exact hend.backIn _ _
  · exact mem_processed_scanning _ file b

/-- A run behind the include of a file, inside a block that is read. -/
def atInclusion : Run where
  macros := .ofList [(bytes "A", bytes "v")]
  blocks := ⟨[⟨true, ⟨bytes "/w/all.xs", 1, 1⟩⟩]⟩
  processed := [[bytes "w", bytes "all.xs"]]
  frames := [⟨[bytes "w", bytes "all.xs"], (Reader.ofText (bytes "z\n")).below ⟨2, 30⟩⟩]
  emitted := []
  warned := []

/-- Lines that leave a block open, with an include. -/
def firstLines : Text := bytes "#ifdef A\n#include \"./part.xs\"\n#undef Q\n"

/-- Lines that close two blocks and open another one. -/
def laterLines : Text := bytes "@A@\n#undef R\n#endif\n#endif\n#ifdef B\n@"

/-- A file with the lines, included from another one. -/
def lined : Files.Disk where
  nodes := [
    ([bytes "w"], .directory),
    ([bytes "w", bytes "all.xs"], .file (bytes "#ifdef A\n#include \"./main.xs\"\nz\n")),
    ([bytes "w", bytes "main.xs"], .file (firstLines ++ laterLines)),
    ([bytes "w", bytes "part.xs"], .file (bytes "y\n#undef P\n"))]
  workingDirectory := [bytes "w"]

theorem scanText_append_across_blocks :
    ∃ middle,
      atInclusion.scanText lined [] [bytes "w", bytes "main.xs"] firstLines = .ok middle ∧
      SameOutcome ⟨[bytes "w", bytes "main.xs"], ⟨3, 39⟩⟩
        (middle.staying lined [] [bytes "w", bytes "main.xs"] laterLines) middle.warned
        (middle.scanText lined [] [bytes "w", bytes "main.xs"] laterLines)
        (atInclusion.scanText lined [] [bytes "w", bytes "main.xs"] (firstLines ++ laterLines)) ∧
      (atInclusion.scanText lined [] [bytes "w", bytes "main.xs"]
        (firstLines ++ laterLines)).toOption.map (fun last =>
          (last.output, last.warnings.map (·.place.line), last.blocks.elements)) =
        some (bytes "y\nv\n", [2, 3, 5], [⟨false, ⟨bytes "/w/main.xs", 8, 1⟩⟩]) := by
  cases h : atInclusion.scanText lined [] [bytes "w", bytes "main.xs"] firstLines with
  | error failure =>
    have hok : (atInclusion.scanText lined [] [bytes "w", bytes "main.xs"]
        firstLines).toOption.isSome = true := by
      decide +kernel
    rw [h] at hok
    cases hok
  | ok middle =>
    refine ⟨middle, rfl, ?_, by decide +kernel⟩
    exact scanText_append lined [] atInclusion middle _ firstLines laterLines (by decide +kernel)
      (by decide +kernel) (by decide +kernel) h

end Run

end XsPrep
