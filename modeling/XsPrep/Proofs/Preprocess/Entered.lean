import XsPrep.Proofs.Preprocess.Steps

/-!
# The files a run is in

The files a run has entered are distinct, and the files it is in the middle of
are among them, innermost first.  Each of these is read from its beginning on,
and only the innermost one can still be at its beginning.  These facts form one
invariant (`Sound`) that every step keeps (`Sound.step`), so it holds in every
state of a run (`Sound.of_steps`).

A run does not come back to where it was: in no two of its states is it in the
same files at the same places (`Session.eq_of_frames`).
-/

namespace XsPrep

namespace Run

/-- What always holds of the files of a run. -/
structure Sound (disk : Files.Disk) (run : Run) : Prop where
  /-- No file is entered twice. -/
  nodup : run.processed.Nodup
  /-- The files being read are files that were entered. -/
  entered : (run.frames.map Frame.file).Sublist run.processed
  /-- A file that was entered is a file of the disk. -/
  known : ∀ file ∈ run.processed, ∃ content, disk.content? file = some content
  /-- A file being read is read from its beginning on. -/
  reached : ∀ frame ∈ run.frames, ∃ content, disk.content? frame.file = some content ∧
    (Reader.ofText content).LeadsTo frame.reader
  /-- A file with an include that is being read is not at its beginning. -/
  begun : ∀ frame ∈ run.frames.tail, 0 < frame.reader.position.offset

namespace Sound

variable {disk : Files.Disk} {dirs : List Text} {run next : Run} {frame : Frame}
  {outer : List Frame}

theorem frames_nodup (h : run.Sound disk) : (run.frames.map Frame.file).Nodup :=
  h.nodup.sublist h.entered

theorem mem_processed (h : run.Sound disk) (hframe : frame ∈ run.frames) :
    frame.file ∈ run.processed :=
  h.entered.subset (List.mem_map_of_mem hframe)

/-- In a state of a run, going forward in the innermost file moves the offset. -/
theorem offset_lt (h : run.Sound disk) (hframes : run.frames = frame :: outer) {reader : Reader}
    (hleads : frame.reader.LeadsTo reader)
    (hshorter : reader.rest.length < frame.reader.rest.length) :
    frame.reader.position.offset < reader.position.offset := by
  obtain ⟨content, -, hreached⟩ := h.reached frame (by rw [hframes]; exact List.mem_cons_self)
  exact hreached.offset_lt hleads hshorter

/-- The innermost file of a run can be read further. -/
theorem reached_advance (h : run.Sound disk) (hframes : run.frames = frame :: outer)
    {reader : Reader} (hleads : frame.reader.LeadsTo reader) :
    ∀ f ∈ { frame with reader } :: outer, ∃ content, disk.content? f.file = some content ∧
      (Reader.ofText content).LeadsTo f.reader := by
  intro f hf
  rcases List.mem_cons.mp hf with rfl | hf
  · obtain ⟨content, hcontent, hreached⟩ :=
      h.reached frame (by rw [hframes]; exact List.mem_cons_self)
    exact ⟨content, hcontent, hreached.trans hleads⟩
  · exact h.reached f (by rw [hframes]; exact List.mem_cons_of_mem _ hf)

/-- Every step keeps the invariant. -/
theorem step (h : run.Sound disk) (hrun : run.frames ≠ [])
    (hstep : run.step disk dirs = .ok next) : next.Sound disk := by
  obtain ⟨frame, outer, hframes⟩ := List.exists_cons_of_ne_nil hrun
  have hentered := h.entered
  have hbegun := h.begun
  rw [hframes] at hentered hbegun
  cases step_fileMove hframes hstep with
  | leave hend _ hnext hprocessed =>
    refine ⟨?_, ?_, ?_, ?_, ?_⟩
    · rw [hprocessed]
      exact h.nodup
    · rw [hprocessed, hnext]
      exact (List.sublist_cons_self _ _).trans hentered
    · rw [hprocessed]
      exact h.known
    · rw [hnext]
      intro f hf
      exact h.reached f (by rw [hframes]; exact List.mem_cons_of_mem _ hf)
    · rw [hnext]
      intro f hf
      exact hbegun f (List.mem_of_mem_tail hf)
  | advance reading reader hrest _ hat hnext hprocessed =>
    refine ⟨?_, ?_, ?_, ?_, ?_⟩
    · rw [hprocessed]
      exact h.nodup
    · rw [hprocessed, hnext]
      exact hentered
    · rw [hprocessed]
      exact h.known
    · rw [hnext]
      exact h.reached_advance hframes hat.leadsTo
    · rw [hnext]
      exact hbegun
  | enter reading reader file content hrest _ hat hcontent hnew hnext hprocessed =>
    refine ⟨?_, ?_, ?_, ?_, ?_⟩
    · rw [hprocessed]
      exact List.nodup_cons.mpr ⟨hnew, h.nodup⟩
    · rw [hprocessed, hnext]
      exact hentered.cons_cons file
    · rw [hprocessed]
      exact List.forall_mem_cons.mpr ⟨⟨content, hcontent⟩, h.known⟩
    · rw [hnext]
      exact List.forall_mem_cons.mpr
        ⟨⟨content, hcontent, .refl _⟩, h.reached_advance hframes hat.leadsTo⟩
    · -- The including file has just read its include.
      rw [hnext]
      exact List.forall_mem_cons.mpr
        ⟨Nat.zero_lt_of_lt (h.offset_lt hframes hat.leadsTo (hat.shorter hrest)), hbegun⟩

theorem of_steps {last : Run} {visited : List Run} (h : run.Sound disk)
    (hsteps : Steps disk dirs run visited last) :
    (∀ state ∈ visited, state.Sound disk) ∧ last.Sound disk :=
  hsteps.invariant (fun _ _ hsound hframes hstep => hsound.step hframes hstep) h

/-- A run begins sound. -/
theorem of_opened {session : Session} {root : Text}
    (hopened : session.opened disk root = .ok run) : run.Sound disk := by
  obtain ⟨file, content, hcontent, rfl⟩ := Session.eq_of_opened hopened
  refine ⟨?_, ?_, ?_, ?_, ?_⟩
  · exact List.pairwise_singleton _ file
  · exact List.Sublist.refl _
  · exact List.forall_mem_cons.mpr ⟨⟨content, hcontent⟩, fun _ h => nomatch h⟩
  · exact List.forall_mem_cons.mpr ⟨⟨content, hcontent, .refl _⟩, fun _ h => nomatch h⟩
  · exact fun _ h => nomatch h

end Sound

/-! ## Where a run is -/

variable {disk : Files.Disk} {dirs : List Text} {run next last : Run}

/-- How much is left of each file being read, outermost first. -/
def remaining (run : Run) : List Nat :=
  (run.frames.map fun frame => frame.reader.rest.length).reverse

/-- A step leaves less of a file, whatever it enters inside of it, or leaves the
file. -/
theorem step_remaining (hrun : run.frames ≠ []) (hstep : run.step disk dirs = .ok next) :
    next.remaining < run.remaining := by
  obtain ⟨frame, outer, hframes⟩ := List.exists_cons_of_ne_nil hrun
  rw [remaining, remaining, hframes, List.map_cons, List.reverse_cons]
  cases step_fileMove hframes hstep with
  | leave _ _ hnext _ =>
    rw [hnext]
    nth_rewrite 1 [← List.append_nil (List.reverse _)]
    exact List.append_left_lt (List.nil_lt_cons _ _)
  | advance _ reader hrest _ hat hnext _ =>
    rw [hnext, List.map_cons, List.reverse_cons]
    exact List.append_left_lt (List.Lex.rel (hat.shorter hrest))
  | enter _ reader file content hrest _ hat _ _ hnext _ =>
    rw [hnext, List.map_cons, List.map_cons, List.reverse_cons, List.reverse_cons,
      List.append_assoc]
    exact List.append_left_lt (List.Lex.rel (hat.shorter hrest))

theorem Steps.remaining_lt {visited : List Run} (h : Steps disk dirs run visited last) :
    last = run ∨ last.remaining < run.remaining := by
  induction h with
  | refl run => exact .inl rfl
  | head hframes hstep _ ih =>
    have hless := step_remaining hframes hstep
    rcases ih with rfl | hlater
    · exact .inr hless
    · exact .inr (List.lt_trans hlater hless)

theorem Steps.eq_of_frames {visited : List Run} (h : Steps disk dirs run visited last)
    (hframes : last.frames = run.frames) : last = run := by
  refine h.remaining_lt.resolve_right ?_
  rw [remaining, remaining, hframes]
  exact List.lt_irrefl _

end Run

/-- The states of a run are known by the places they are at. -/
theorem Session.eq_of_frames {session : Session} {disk : Files.Disk} {root : Text}
    {state state' : Run} (hstate : state ∈ session.states disk root)
    (hstate' : state' ∈ session.states disk root) (hframes : state.frames = state'.frames) :
    state = state' := by
  cases hopened : session.opened disk root with
  | error failure =>
    rw [states_of_unopened hopened] at hstate
    cases hstate
  | ok start =>
    obtain ⟨visited, hsteps⟩ := (mem_states_iff hopened).mp hstate
    obtain ⟨visited', hsteps'⟩ := (mem_states_iff hopened).mp hstate'
    rcases hsteps.linear hsteps' with ⟨between, hbetween⟩ | ⟨between, hbetween⟩
    · exact (hbetween.eq_of_frames hframes.symm).symm
    · exact hbetween.eq_of_frames hframes

end XsPrep
