import XsPrep.Proofs.Files.Contents
import XsPrep.Proofs.Source.Cutting
import XsPrep.Proofs.Preprocess.Entered
import XsPrep.Proofs.Preprocess.Inlining
import Mathlib.Data.List.Nodup

/-!
# What a failing run has not read

Where a run fails, it is in the middle of some files.  In each including file it has read as far
as the line of its include, and in the innermost one as far as the failing construct
(`Run.unread`).  What stands behind has no effect: with any other text there, the run fails in
the same way and leaves the same (`Session.process_rewrite`).

Two runs are compared, one over the files and one over the files with other text behind.  They
go through the same places (`Run.SameBefore`).  A file that is open where the run fails is only
read up to there (`Run.Steps.leadsTo_of_file`), so no step reads anything that may differ.
-/

namespace XsPrep

/-- Where the text behind the failing construct at a reader begins.  Nothing is behind a
construct that lacks its closing mark. -/
def Reader.behindFailure? (r : Reader) : Option Reader :=
  match Construct.read r with
  | .ok (_, behind) => some behind
  | .error e => if e.flaw.isUnterminated then none else some r.skipLine

theorem Reader.leadsTo_behindFailure? {r behind : Reader} (h : r.behindFailure? = some behind) :
    r.LeadsTo behind := by
  unfold behindFailure? at h
  split at h
  · rename_i hread
    cases h
    exact Construct.leadsTo_read hread
  · split at h
    · cases h
    · cases h
      exact leadsTo_skipLine r

namespace Run

variable {disk : Files.Disk} {dirs : List Text} {run next last : Run} {frame : Frame}
  {outer : List Frame}

/-- Where the text begins, in each file that a failing run is in the middle of, that it has not
read. -/
def unread (run : Run) : List Frame :=
  match run.frames with
  | [] => []
  | frame :: outer =>
    (frame.reader.behindFailure?.map fun reader => { frame with reader }).toList ++ outer

/-! ## Going forward -/

theorem Sound.eq_of_file (h : run.Sound disk) {frame frame' : Frame} (hframe : frame ∈ run.frames)
    (hframe' : frame' ∈ run.frames) (hfile : frame.file = frame'.file) : frame = frame' :=
  List.inj_on_of_nodup_map h.frames_nodup hframe hframe' hfile

/-- A file that is left stays closed. -/
theorem Sound.left_for_good (h : run.Sound disk) (hframes : run.frames = frame :: outer)
    {visited : List Run} (hsteps : Steps disk dirs next visited last)
    (hnext : next.frames = outer) (hprocessed : next.processed = run.processed) {frame' : Frame}
    (hframe' : frame' ∈ last.frames) : frame.file ≠ frame'.file := by
  have hnodup := h.frames_nodup
  rw [hframes, List.map_cons, List.nodup_cons, ← hnext] at hnodup
  have hentered : frame.file ∈ next.processed := by
    rw [hprocessed]
    exact h.mem_processed (by rw [hframes]; exact List.mem_cons_self)
  rintro hfile
  exact hsteps.stays_left hentered hnodup.1 (hfile ▸ List.mem_map_of_mem hframe')

/-- A step leaves the innermost file, or it reads on in it and leaves no file. -/
theorem step_leaves_or_reads (hframes : run.frames = frame :: outer)
    (h : run.step disk dirs = .ok next) :
    (next.frames = outer ∧ next.processed = run.processed ∧ run.passage? = none) ∨
      ∃ reading reader, frame.reader.rest ≠ [] ∧
        run.passage? = some ⟨frame.file, frame.reader, reading⟩ ∧
        reading.At frame.reader reader ∧ ∀ f ∈ { frame with reader } :: outer, f ∈ next.frames := by
  cases step_fileMove hframes h with
  | leave _ hpassage hnext hprocessed => exact .inl ⟨hnext, hprocessed, hpassage⟩
  | advance reading reader hrest hpassage hat hnext _ =>
    exact .inr ⟨reading, reader, hrest, hpassage, hat, fun f hf => hnext ▸ hf⟩
  | enter reading reader file content hrest hpassage hat _ _ hnext _ =>
    exact .inr ⟨reading, reader, hrest, hpassage, hat,
      fun f hf => hnext ▸ List.mem_cons_of_mem _ hf⟩

/-- A file that stays open is read further and further. -/
theorem Steps.leadsTo_of_file {visited : List Run} (h : Steps disk dirs run visited last)
    (hsound : run.Sound disk) {frame frame' : Frame} (hframe : frame ∈ run.frames)
    (hframe' : frame' ∈ last.frames) (hfile : frame.file = frame'.file) :
    frame.reader.LeadsTo frame'.reader := by
  induction h generalizing frame with
  | refl run =>
    rw [hsound.eq_of_file hframe hframe' hfile]
    exact .refl _
  | @head run next last visited hrun hstep hsteps ih =>
    have hnext := hsound.step hrun hstep
    obtain ⟨inner, outer, hframes⟩ := List.exists_cons_of_ne_nil hrun
    rw [hframes] at hframe
    rcases step_leaves_or_reads hframes hstep with
      ⟨hleft, hprocessed, -⟩ | ⟨_, reader, -, -, hat, hstay⟩
    · rcases List.mem_cons.mp hframe with rfl | hframe
      · exact absurd hfile (hsound.left_for_good hframes hsteps hleft hprocessed hframe')
      · exact ih hnext (hleft ▸ hframe) hframe' hfile
    · rcases List.mem_cons.mp hframe with rfl | hframe
      · have hreader := ih hnext (hstay _ List.mem_cons_self) hframe' hfile
        exact hat.leadsTo.trans hreader
      · exact ih hnext (hstay _ (List.mem_cons_of_mem _ hframe)) hframe' hfile

/-- What a run has read of an open file is before the place where it is. -/
theorem Steps.passage_before {visited : List Run} (h : Steps disk dirs run visited last)
    (hsound : run.Sound disk) {passage : Passage} (hpassage : passage ∈ visited.filterMap passage?)
    (hframe : frame ∈ last.frames) (hfile : passage.file = frame.file) :
    passage.reader.position.offset < frame.reader.position.offset := by
  induction h with
  | refl run => cases hpassage
  | @head run next last visited hrun hstep hsteps ih =>
    have hnext := hsound.step hrun hstep
    rw [filterMap_passage?_cons, List.mem_append, Option.mem_toList] at hpassage
    rcases hpassage with hpassage | hpassage
    · obtain ⟨inner, outer, hframes⟩ := List.exists_cons_of_ne_nil hrun
      rcases step_leaves_or_reads hframes hstep with
        ⟨-, -, hnone⟩ | ⟨reading, reader, hrest, hread, hat, hstay⟩
      · rw [hnone] at hpassage
        cases hpassage
      · rw [hread] at hpassage
        cases hpassage
        have hleads := hsteps.leadsTo_of_file hnext (hstay _ List.mem_cons_self) hframe hfile
        exact hsound.offset_lt hframes (hat.leadsTo.trans hleads)
          (Nat.lt_of_le_of_lt hleads.length_le (hat.shorter hrest))
    · exact ih hnext hpassage hframe

theorem mem_unread (hframes : run.frames = frame :: outer) {border : Frame}
    (h : border ∈ run.unread) :
    (border.file = frame.file ∧ frame.reader.behindFailure? = some border.reader) ∨
      border ∈ outer := by
  rw [unread, hframes, List.mem_append, Option.mem_toList, Option.map_eq_some_iff] at h
  rcases h with ⟨reader, hreader, rfl⟩ | h
  · exact .inl ⟨rfl, hreader⟩
  · exact .inr h

/-- The text that was not read is behind the places where the run is. -/
theorem leadsTo_unread {border : Frame} (h : border ∈ run.unread) :
    ∃ frame ∈ run.frames, frame.file = border.file ∧ frame.reader.LeadsTo border.reader := by
  cases hframes : run.frames with
  | nil =>
    rw [unread, hframes] at h
    cases h
  | cons frame outer =>
    rcases mem_unread hframes h with ⟨hfile, hreader⟩ | hmem
    · exact ⟨frame, List.mem_cons_self, hfile.symm, Reader.leadsTo_behindFailure? hreader⟩
    · exact ⟨border, List.mem_cons_of_mem _ hmem, rfl, .refl _⟩

/-- A file is read at most up to the text that the run has not read at last. -/
theorem Steps.leadsTo_unread {visited : List Run} (h : Steps disk dirs run visited last)
    (hsound : run.Sound disk) (hframe : frame ∈ run.frames) {border : Frame}
    (hborder : border ∈ last.unread) (hfile : border.file = frame.file) :
    frame.reader.LeadsTo border.reader := by
  obtain ⟨frame', hframe', hfile', hleads⟩ := Run.leadsTo_unread hborder
  exact (h.leadsTo_of_file hsound hframe hframe' (hfile.symm.trans hfile'.symm)).trans hleads

end Run

/-! ## Two runs -/

namespace Reading.At

variable {behind : List Character} {r₀ r q₀ q : Reader} {reading : Reading}

/-- What stands before a cut in the whole text stands there in the cut text. -/
theorem cutOff (hat : reading.At r q) (hcut : r₀.CutOff behind r) (hrest : r₀.rest ≠ [])
    (hspelled : ∀ c ∈ r.rest, c.Spelled) (hwithin : behind.length ≤ q.rest.length) :
    ∃ q₀, reading.At r₀ q₀ ∧ q₀.Front behind q := by
  cases hat with
  | construct hread =>
    have hcutread := Construct.read_cutOff hcut hrest hspelled
    rw [hread] at hcutread
    generalize hread₀ : Construct.read r₀ = result at hcutread
    cases hcutread with
    | ok hfront => exact ⟨_, .construct hread₀, hfront⟩
    | beyond _ hlength => omega
  | line hread =>
    obtain ⟨hline, hfront⟩ := SkippedLine.read_cutOff hcut
    rw [hread] at hline hfront
    exact ⟨(SkippedLine.read r₀).2, .line (Prod.ext_iff.mpr ⟨hline.symm, rfl⟩), hfront⟩

/-- What stands in the cut text stands in the whole text. -/
theorem of_cutOff (hat : reading.At r₀ q₀) (hcut : r₀.CutOff behind r) (hrest : r₀.rest ≠ [])
    (hspelled : ∀ c ∈ r.rest, c.Spelled) : ∃ q, reading.At r q ∧ q₀.Front behind q := by
  cases hat with
  | construct hread =>
    have hcutread := Construct.read_cutOff hcut hrest hspelled
    rw [hread] at hcutread
    generalize hread' : Construct.read r = result at hcutread
    cases hcutread with
    | ok hfront => exact ⟨_, .construct hread', hfront⟩
  | line hread =>
    obtain ⟨hline, hfront⟩ := SkippedLine.read_cutOff hcut
    rw [hread] at hline hfront
    exact ⟨(SkippedLine.read r).2, .line (Prod.ext_iff.mpr ⟨hline, rfl⟩), hfront⟩

end Reading.At

/-- The frames are at one place of a file.  What is left of it is the same in both, or it is the
same up to a line behind which `unread` begins. -/
inductive Frame.SameBefore (unread : List Frame) (frame frame' : Frame) : Prop where
  | same (h : frame' = frame)
  | cut {border : Frame} {r₀ : Reader} {behind' : List Character} (hborder : border ∈ unread)
      (hfile : border.file = frame.file) (hfile' : frame'.file = frame.file)
      (hfront : r₀.Front border.reader.rest frame.reader) (hfront' : r₀.Front behind' frame'.reader)
      (hlines : Character.AreLines r₀.rest) (hspelled' : ∀ c ∈ frame'.reader.rest, c.Spelled)

namespace Frame.SameBefore

variable {unread : List Frame} {frame frame' : Frame}

theorem file_eq (h : SameBefore unread frame frame') : frame'.file = frame.file := by
  cases h with
  | same h => rw [h]
  | cut _ _ hfile' => exact hfile'

/-- What stands before the unread text stands there in both. -/
theorem reading (h : SameBefore unread frame frame') (hspelled : ∀ c ∈ frame.reader.rest, c.Spelled)
    (hrest : frame.reader.rest ≠ []) {reading : Reading} {q : Reader}
    (hat : reading.At frame.reader q)
    (hwithin : ∀ border ∈ unread, border.file = frame.file →
      border.reader.rest.length ≤ q.rest.length) :
    frame'.reader.rest ≠ [] ∧ ∃ q', reading.At frame'.reader q' ∧
      SameBefore unread { frame with reader := q } { frame' with reader := q' } := by
  cases h with
  | same h =>
    subst h
    exact ⟨hrest, q, hat, .same rfl⟩
  | @cut border r₀ behind' hborder hfile hfile' hfront hfront' hlines hspelled' =>
    have hshorter := hat.shorter hrest
    have hbefore := hwithin border hborder hfile
    have hrest₀ : r₀.rest ≠ [] := by
      intro hnil
      rw [hfront.rest_eq, hnil, List.nil_append] at hshorter
      omega
    have hendline := hlines.resolve_left hrest₀
    have hcut : r₀.CutOff border.reader.rest frame.reader := ⟨hfront, .inr hendline⟩
    have hcut' : r₀.CutOff behind' frame'.reader := ⟨hfront', .inr hendline⟩
    have hrest' : frame'.reader.rest ≠ [] := by
      rw [hfront'.rest_eq]
      exact List.append_ne_nil_of_left_ne_nil hrest₀ behind'
    obtain ⟨q₀, hat₀, hq⟩ := hat.cutOff hcut hrest₀ hspelled hbefore
    obtain ⟨q', hat', hq'⟩ := hat₀.of_cutOff hcut' hrest₀ hspelled'
    refine ⟨hrest', q', hat', .cut hborder hfile hfile' hq hq' (hat₀.leadsTo.areLines hlines) ?_⟩
    exact fun c hc => hspelled' c (hat'.leadsTo.rest_subset hc)

/-- A flaw before the unread text is a flaw in both. -/
theorem flaw (h : SameBefore unread frame frame') (hspelled : ∀ c ∈ frame.reader.rest, c.Spelled)
    (hrest : frame.reader.rest ≠ []) {e : SourceError}
    (hread : Construct.read frame.reader = .error e)
    (hunread : ∀ border ∈ unread, border.file = frame.file →
      frame.reader.behindFailure? = some border.reader) :
    frame'.reader.rest ≠ [] ∧ Construct.read frame'.reader = .error e := by
  cases h with
  | same h =>
    subst h
    exact ⟨hrest, hread⟩
  | @cut border r₀ behind' hborder hfile hfile' hfront hfront' hlines hspelled' =>
    have hbehind := hunread border hborder hfile
    rw [Reader.behindFailure?, hread] at hbehind
    dsimp only at hbehind
    split at hbehind
    · cases hbehind
    rename_i hterminated
    have hskipLine := Option.some.inj hbehind
    have hrest₀ : r₀.rest ≠ [] := by
      intro hnil
      have hall := hfront.rest_eq
      have hshorter := Reader.length_skipLine_lt hrest
      rw [hnil, List.nil_append, ← hskipLine] at hall
      rw [← hall] at hshorter
      exact Nat.lt_irrefl _ hshorter
    have hendline := hlines.resolve_left hrest₀
    have hcutread := Construct.read_cutOff ⟨hfront, .inr hendline⟩ hrest₀ hspelled
    have hcutread' := Construct.read_cutOff ⟨hfront', .inr hendline⟩ hrest₀ hspelled'
    refine ⟨by rw [hfront'.rest_eq]; exact List.append_ne_nil_of_left_ne_nil hrest₀ behind', ?_⟩
    rw [hread] at hcutread
    generalize Construct.read r₀ = result at hcutread hcutread'
    cases hcutread with
    | error =>
      generalize Construct.read frame'.reader = result' at hcutread' ⊢
      cases hcutread' with
      | error => rfl
      | beyond hflaw _ => exact absurd hflaw hterminated

end Frame.SameBefore

namespace Run

variable {disk : Files.Disk} {dirs : List Text} {run run' next last : Run} {frame frame' : Frame}
  {outer outer' unread : List Frame} {f : Files.Address → Text → Text}

/-- The runs differ in what is left of their files, and that is the same before `unread`. -/
structure SameBefore (unread : List Frame) (run run' : Run) : Prop where
  run_eq : run' = { run with frames := run'.frames }
  frames : List.Forall₂ (Frame.SameBefore unread) run.frames run'.frames

/-- In files that `f` rewrites, the same stands before `unread`. -/
def Spared (disk : Files.Disk) (f : Files.Address → Text → Text) (unread : List Frame) : Prop :=
  ∀ file t, disk.content? file = some t →
    Frame.SameBefore unread ⟨file, .ofText t⟩ ⟨file, .ofText (f file t)⟩

theorem SameBefore.isSkipping_eq (h : SameBefore unread run run') :
    run'.isSkipping = run.isSkipping := by
  rw [h.run_eq]
  rfl

theorem SameBefore.withFrames (h : SameBefore unread run run') {frames frames' : List Frame}
    (hframes : List.Forall₂ (Frame.SameBefore unread) frames frames') :
    SameBefore unread { run with frames } { run' with frames := frames' } :=
  ⟨by rw [h.run_eq], hframes⟩

/-- What the runs make of a skipped line. -/
theorem SameBefore.skipLine (h : SameBefore unread run run') (hfile : frame'.file = frame.file)
    (line : SkippedLine) :
    SameBefore unread (run.skipLine frame line) (run'.skipLine frame' line) := by
  obtain ⟨frames', rfl⟩ : ∃ frames', run' = { run with frames := frames' } := ⟨_, h.run_eq⟩
  have hframes := h.frames
  have hplace : frame'.place = frame.place := by
    unfold Frame.place
    rw [hfile]
  unfold Run.skipLine
  rw [hplace]
  split
  · exact ⟨rfl, hframes⟩
  · dsimp only
    cases run.blocks.pop? with
    | none => exact h
    | some result => exact ⟨rfl, hframes⟩
  · exact h

/-- How the steps of the two runs go together: both fail alike, or both go on. -/
inductive BothStep (unread : List Frame) : Except Stop Run → Except Stop Run → Prop where
  | error (stop : Stop) : BothStep unread (.error stop) (.error stop)
  | ok {next next' : Run} (h : SameBefore unread next next') :
      BothStep unread (.ok next) (.ok next')

/-- What the runs make of a construct. -/
theorem SameBefore.execute (h : SameBefore unread run run') (hspared : Spared disk f unread)
    (dirs : List Text) (hfile : frame'.file = frame.file) (construct : Construct) :
    BothStep unread (run.execute disk dirs frame construct)
      (run'.execute (disk.rewrite f) dirs frame' construct) := by
  obtain ⟨frames', rfl⟩ : ∃ frames', run' = { run with frames := frames' } := ⟨_, h.run_eq⟩
  have hframes : List.Forall₂ (Frame.SameBefore unread) run.frames frames' := h.frames
  have hplace : frame'.place = frame.place := by
    unfold Frame.place
    rw [hfile]
  cases construct with
  | expansion name =>
    simp only [Run.execute]
    cases run.macros.get? name with
    | none => exact .ok h
    | some value => exact .ok ⟨rfl, hframes⟩
  | undefine name position =>
    simp only [Run.execute, Run.undefine, hplace]
    split
    · exact .ok ⟨rfl, hframes⟩
    · cases run.macros.undefine? name with
      | none => exact .ok ⟨rfl, hframes⟩
      | some macros => exact .ok ⟨rfl, hframes⟩
  | openBlock name position =>
    simp only [Run.execute, hplace]
    exact .ok ⟨rfl, hframes⟩
  | closeBlock position =>
    simp only [Run.execute, hplace]
    cases run.blocks.pop? with
    | none => exact .error _
    | some result => exact .ok ⟨rfl, hframes⟩
  | includeFile name position =>
    simp only [Run.execute, Run.includeFile, hplace, hfile]
    rw [Lookup.rewrite_find]
    cases hfind : Lookup.find disk (Path.directory frame.file.path) dirs name with
    | error problem => exact .error _
    | ok found =>
      obtain ⟨file, content⟩ := found
      simp only [Except.map]
      split
      · exact .ok ⟨rfl, hframes⟩
      · exact .ok ⟨rfl, .cons (hspared file content (content?_of_find hfind)) hframes⟩
  | literal raw => exact .ok ⟨rfl, hframes⟩
  | comment => exact .ok h
  | character raw => exact .ok ⟨rfl, hframes⟩
  | define name value => exact .ok ⟨rfl, hframes⟩

/-- A construct closes no file. -/
theorem mem_frames_of_execute {construct : Construct}
    (h : run.execute disk dirs frame construct = .ok next) {frame' : Frame}
    (hframe' : frame' ∈ run.frames) : frame' ∈ next.frames := by
  by_cases hinclude : ∃ name position, construct = .includeFile name position
  · obtain ⟨name, position, rfl⟩ := hinclude
    obtain ⟨file, content, -, ⟨-, rfl⟩ | ⟨-, rfl⟩⟩ := execute_include h
    · exact hframe'
    · exact List.mem_cons_of_mem _ hframe'
  · rw [(execute_files (fun name position heq => hinclude ⟨name, position, heq⟩) h).1]
    exact hframe'

/-- On the way to where a run fails, the two runs take a step together. -/
theorem SameBefore.step (h : SameBefore last.unread run run')
    (hspared : Spared disk f last.unread) (hsound : run.Sound disk) (hrun : run.frames ≠ [])
    (hstep : run.step disk dirs = .ok next) {visited : List Run}
    (hsteps : Steps disk dirs next visited last) :
    run'.frames ≠ [] ∧ ∃ next', run'.step (disk.rewrite f) dirs = .ok next' ∧
      SameBefore last.unread next next' := by
  obtain ⟨frame, outer, hframes⟩ := List.exists_cons_of_ne_nil hrun
  have hnext := hsound.step hrun hstep
  have hboth := h.frames
  rw [hframes] at hboth
  obtain ⟨frame', outer', hframe, houter, hframes'⟩ := List.forall₂_cons_left_iff.mp hboth
  obtain ⟨content, -, hreached⟩ := hsound.reached frame (by rw [hframes]; exact List.mem_cons_self)
  have hspelled := hreached.spelled
  have hadvance : ∀ {reading : Reading} {q : Reader}, frame.reader.rest ≠ [] →
      reading.At frame.reader q → { frame with reader := q } ∈ next.frames →
      frame'.reader.rest ≠ [] ∧ ∃ q', reading.At frame'.reader q' ∧
        Frame.SameBefore last.unread { frame with reader := q } { frame' with reader := q' } := by
    intro reading q hrest hat hmem
    refine hframe.reading hspelled hrest hat fun border hborder hfile => ?_
    exact (hsteps.leadsTo_unread hnext hmem hborder hfile).length_le
  refine ⟨by rw [hframes']; exact List.cons_ne_nil _ _, ?_⟩
  cases step_move hframes hstep with
  | leave hend =>
    cases hframe with
    | same heq =>
      subst heq
      exact ⟨_, step_of_end hframes' hend, h.withFrames houter⟩
    | @cut border _ _ hborder hfile _ _ _ _ _ =>
      -- The file is open where the run fails, so it is not left before.
      obtain ⟨open', hopen, hopenfile, -⟩ := Run.leadsTo_unread hborder
      exact absurd (hfile.symm.trans hopenfile.symm)
        (hsound.left_for_good hframes hsteps rfl rfl hopen)
  | @skip line reader hrest hskip hread =>
    obtain ⟨hrest', q', hat', hframe'⟩ := hadvance hrest (.line hread) (by
      rw [skipLine_frames]
      exact List.mem_cons_self)
    cases hat' with
    | line hread' =>
      refine ⟨_, step_of_skipping hframes' hrest' (h.isSkipping_eq.trans hskip), ?_⟩
      rw [hread']
      exact (h.withFrames (.cons hframe' houter)).skipLine hframe.file_eq line
  | @read construct reader next hrest hskip hread hexecute =>
    obtain ⟨hrest', q', hat', hframe'⟩ := hadvance hrest (.construct hread)
      (mem_frames_of_execute hexecute List.mem_cons_self)
    cases hat' with
    | construct hread' =>
      rw [step_of_construct hframes' hrest' (h.isSkipping_eq.trans hskip) hread']
      have hexecutes := (h.withFrames (.cons hframe' houter)).execute hspared dirs
        hframe.file_eq construct
      rw [hexecute] at hexecutes
      generalize Run.execute _ _ _ _ _ = result at hexecutes ⊢
      cases hexecutes with
      | ok hsame => exact ⟨_, rfl, hsame⟩

/-- The two runs come together to where the one fails. -/
theorem SameBefore.steps {visited : List Run} (hsteps : Steps disk dirs run visited last)
    (hspared : Spared disk f last.unread) (hsound : run.Sound disk)
    (h : SameBefore last.unread run run') :
    ∃ visited' last', Steps (disk.rewrite f) dirs run' visited' last' ∧
      SameBefore last.unread last last' := by
  induction hsteps generalizing run' with
  | refl run => exact ⟨[], run', .refl run', h⟩
  | head hrun hstep hsteps ih =>
    obtain ⟨hrun', next', hstep', hnext⟩ := h.step hspared hsound hrun hstep hsteps
    obtain ⟨visited', last', hsteps', hlast⟩ := ih hspared (hsound.step hrun hstep) hnext
    exact ⟨_, last', .head hrun' hstep' hsteps', hlast⟩

/-- Where the one run fails, the other fails alike. -/
theorem SameBefore.stop (h : SameBefore run.unread run run') (hspared : Spared disk f run.unread)
    (hsound : run.Sound disk) (hrun : run.frames ≠ []) {stop : Stop}
    (hstop : run.step disk dirs = .error stop) :
    run'.frames ≠ [] ∧ run'.step (disk.rewrite f) dirs = .error stop := by
  obtain ⟨frame, outer, hframes⟩ := List.exists_cons_of_ne_nil hrun
  have hboth := h.frames
  rw [hframes] at hboth
  obtain ⟨frame', outer', hframe, houter, hframes'⟩ := List.forall₂_cons_left_iff.mp hboth
  obtain ⟨content, -, hreached⟩ := hsound.reached frame (by rw [hframes]; exact List.mem_cons_self)
  have hspelled := hreached.spelled
  refine ⟨by rw [hframes']; exact List.cons_ne_nil _ _, ?_⟩
  have hrest : frame.reader.rest ≠ [] := by
    intro hend
    rw [step_of_end hframes hend] at hstop
    cases hstop
  have hskip : run.isSkipping = false := by
    rw [Bool.eq_false_iff]
    intro hskip
    rw [step_of_skipping hframes hrest hskip] at hstop
    cases hstop
  have hskip' := h.isSkipping_eq.trans hskip
  -- Of the files that are open, only the innermost one can be the one of `frame`.
  have hinnermost : ∀ border ∈ run.unread, border.file = frame.file →
      frame.reader.behindFailure? = some border.reader := by
    intro border hmem hfile
    rcases mem_unread hframes hmem with ⟨-, hbehind⟩ | hmem
    · exact hbehind
    · have hnodup := hsound.frames_nodup
      rw [hframes, List.map_cons, List.nodup_cons] at hnodup
      exact absurd (hfile ▸ List.mem_map_of_mem hmem) hnodup.1
  cases hread : Construct.read frame.reader with
  | ok result =>
    obtain ⟨construct, q⟩ := result
    rw [step_of_construct hframes hrest hskip hread] at hstop
    obtain ⟨hrest', q', hat', hframe'⟩ := hframe.reading hspelled hrest (.construct hread) (by
      intro border hmem hfile
      have hbehind := hinnermost border hmem hfile
      rw [Reader.behindFailure?, hread] at hbehind
      cases hbehind
      exact Nat.le_refl _)
    cases hat' with
    | construct hread' =>
      rw [step_of_construct hframes' hrest' hskip' hread']
      have hexecutes := (h.withFrames (.cons hframe' houter)).execute hspared dirs
        hframe.file_eq construct
      rw [hstop] at hexecutes
      generalize Run.execute _ _ _ _ _ = result at hexecutes ⊢
      cases hexecutes with
      | error => rfl
  | error e =>
    obtain ⟨hrest', hread'⟩ := hframe.flaw hspelled hrest hread hinnermost
    have hplace : frame'.place e.position = frame.place e.position := by
      unfold Frame.place
      rw [hframe.file_eq]
    rw [← hstop, step_of_flaw hframes hrest hskip hread,
      step_of_flaw hframes' hrest' hskip' hread', hplace]

/-! ## Other text behind -/

/-- What the run has read stays, in whole lines, if `f` rewrites the files.  The text behind it
may change in the files that the run is in the middle of. -/
def KeepsRead (disk : Files.Disk) (f : Files.Address → Text → Text) (run : Run) : Prop :=
  ∀ file t, disk.content? file = some t →
    f file t = t ∨ ∃ frame ∈ run.unread, frame.file = file ∧
      Text.IsLines (t.take frame.reader.position.offset) ∧
      ∃ tail, f file t = t.take frame.reader.position.offset ++ tail

/-- What has been read decodes by itself. -/
theorem KeepsRead.spared (h : run.KeepsRead disk f) (hsound : run.Sound disk) :
    Spared disk f run.unread := by
  intro file t hcontent
  rcases h file t hcontent with heq | ⟨border, hborder, rfl, hlines, tail, htail⟩
  · rw [heq]
    exact .same rfl
  · obtain ⟨frame, hframe, hfile, hleads⟩ := Run.leadsTo_unread hborder
    obtain ⟨t', hcontent', hreached⟩ := hsound.reached frame hframe
    rw [hfile, hcontent] at hcontent'
    cases hcontent'
    obtain ⟨cs, hreads⟩ := hreached.trans hleads
    have hcharacters : t.characters = cs ++ border.reader.rest := hreads.rest_eq
    have hread : t.take border.reader.position.offset = Text.ofCharacters cs := by
      rw [hreads.offset_eq]
      nth_rewrite 1 [hreads.text_eq]
      exact List.take_left
    have hcs := (Text.characters_of_append hcharacters).1
    rw [hread] at hlines htail
    have hlines' := hlines.characters
    rw [hcs] at hlines'
    have htail' : (f border.file t).characters = cs ++ tail.characters := by
      rw [htail, Text.characters_append hlines, hcs]
    have hfront : Reader.Front border.reader.rest ⟨.start, cs⟩ (.ofText t) := ⟨hcharacters, rfl⟩
    exact .cut hborder rfl rfl hfront ⟨htail', rfl⟩ hlines' fun c hc => Text.spelled_of_mem hc

end Run

/-- Other text behind what a failing run has read has no effect on it. -/
theorem Session.process_rewrite {session : Session} {disk : Files.Disk} {root : Text}
    {start last : Run} {visited : List Run} {stop : Stop} {f : Files.Address → Text → Text}
    (hopened : session.opened disk root = .ok start)
    (hsteps : Run.Steps disk session.settings.includeDirectories start visited last)
    (hframes : last.frames ≠ [])
    (hstop : last.step disk session.settings.includeDirectories = .error stop)
    (hkeeps : last.KeepsRead disk f) :
    session.process (disk.rewrite f) root = session.process disk root := by
  have hsound := Run.Sound.of_opened hopened
  have hlast := (hsound.of_steps hsteps).2
  have hspared := hkeeps.spared hlast
  obtain ⟨start', hopened', hstart⟩ : ∃ start', session.opened (disk.rewrite f) root = .ok start' ∧
      Run.SameBefore last.unread start start' := by
    rw [rewrite_opened]
    rw [opened] at hopened
    cases hfetch : disk.fetch (disk.canonical root) with
    | error failure =>
      rw [hfetch] at hopened
      cases hopened
    | ok found =>
      obtain ⟨file, content⟩ := found
      rw [hfetch] at hopened
      cases hopened
      exact ⟨_, rfl, rfl, .cons (hspared file content (Files.Disk.content?_of_fetch hfetch)) .nil⟩
  obtain ⟨visited', last', hsteps', hsame⟩ := hstart.steps hsteps hspared hsound
  obtain ⟨hframes', hstop'⟩ := hsame.stop hspared hlast hframes hstop
  have habandon : last'.abandon = last.abandon := by
    rw [hsame.run_eq]
    rfl
  rw [process_of_opened hopened, process_of_opened hopened',
    Run.finish_eq_error_iff.mpr ⟨visited, hsteps, hframes, hstop⟩,
    Run.finish_eq_error_iff.mpr ⟨visited', hsteps', hframes', hstop'⟩]
  dsimp only
  rw [habandon]

end XsPrep
