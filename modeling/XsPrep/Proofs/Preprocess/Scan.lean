import XsPrep.Proofs.Preprocess.Entered

/-!
# The scan of one file

A run goes back and forth between files.  The passages in one of them, taken by
themselves, form a scan of the whole file: each begins where the one before it
ended, and the last ends at the end of the file (`Session.scan_of_success`).

The reason is that a file is in one frame at most, and that a file once left is
not entered again.  `Run.Steps.scans` carries this through a run, for the files
that are being read, the files that were left and the files still to come.
-/

namespace XsPrep

/-- The passages are those of a way through `file`, from `r` to its end. -/
inductive Scan (file : Files.Address) : Reader → List Passage → Prop where
  | done {r : Reader} (hend : r.rest = []) : Scan file r []
  | cons {r r' : Reader} {reading : Reading} {passages : List Passage} (hrest : r.rest ≠ [])
      (hat : reading.At r r') (hscan : Scan file r' passages) :
      Scan file r (⟨file, r, reading⟩ :: passages)

namespace Scan

variable {file : Files.Address} {r : Reader} {passages : List Passage}

theorem leadsTo_of_mem (h : Scan file r passages) {passage : Passage}
    (hpassage : passage ∈ passages) : r.LeadsTo passage.reader := by
  induction h with
  | done hend => cases hpassage
  | cons hrest hat _ ih =>
    rcases List.mem_cons.mp hpassage with rfl | hpassage
    · exact .refl _
    · exact hat.leadsTo.trans (ih hpassage)

theorem at_of_mem (h : Scan file r passages) {passage : Passage}
    (hpassage : passage ∈ passages) :
    passage.reader.rest ≠ [] ∧ ∃ r', passage.reading.At passage.reader r' := by
  induction h with
  | done hend => cases hpassage
  | cons hrest hat _ ih =>
    rcases List.mem_cons.mp hpassage with rfl | hpassage
    · exact ⟨hrest, _, hat⟩
    · exact ih hpassage

/-- Passages go forward. -/
theorem pairwise (h : Scan file r passages) :
    passages.Pairwise fun a b => b.reader.rest.length < a.reader.rest.length := by
  induction h with
  | done hend => exact .nil
  | cons hrest hat hscan ih =>
    refine .cons ?_ ih
    intro later hlater
    exact Nat.lt_of_le_of_lt (hscan.leadsTo_of_mem hlater).length_le (hat.shorter hrest)

end Scan

/-- The passages in one file. -/
def Passage.inFile (file : Files.Address) (passages : List Passage) : List Passage :=
  passages.filter fun passage => passage.file == file

theorem Passage.inFile_cons_self (file : Files.Address) (reader : Reader) (reading : Reading)
    (passages : List Passage) :
    inFile file (⟨file, reader, reading⟩ :: passages) =
      ⟨file, reader, reading⟩ :: inFile file passages := by
  simp [inFile]

theorem Passage.inFile_cons_of_ne {file : Files.Address} {passage : Passage}
    (h : passage.file ≠ file) (passages : List Passage) :
    inFile file (passage :: passages) = inFile file passages := by
  simp [inFile, h]

namespace Run

variable {disk : Files.Disk} {dirs : List Text} {run next last : Run} {frame : Frame}
  {outer : List Frame}

/-- What `passages` are to a run that has them ahead of it and that ends with the
files `processed` entered. -/
structure Scans (disk : Files.Disk) (run : Run) (passages : List Passage)
    (processed : List Files.Address) : Prop where
  /-- A file being read is read to its end. -/
  open_files : ∀ frame ∈ run.frames,
    Scan frame.file frame.reader (Passage.inFile frame.file passages)
  /-- A file that was left is not read again. -/
  left_files : ∀ file ∈ run.processed, file ∉ run.frames.map Frame.file →
    Passage.inFile file passages = []
  /-- A file that will be entered is read from its beginning to its end. -/
  new_files : ∀ file ∈ processed, file ∉ run.processed →
    ∃ content, disk.content? file = some content ∧
      Scan file (.ofText content) (Passage.inFile file passages)

namespace Scans

variable {passages : List Passage} {processed : List Files.Address}

theorem leave (hsound : run.Sound disk) (hframes : run.frames = frame :: outer)
    (hend : frame.reader.rest = []) (hnext : next.frames = outer)
    (hprocessed : next.processed = run.processed) (h : Scans disk next passages processed) :
    Scans disk run passages processed := by
  have hnodup := hsound.frames_nodup
  rw [hframes, List.map_cons, List.nodup_cons] at hnodup
  have hleft := h.left_files
  rw [hprocessed, hnext] at hleft
  refine ⟨?_, ?_, ?_⟩
  · rw [hframes]
    refine List.forall_mem_cons.mpr ⟨?_, ?_⟩
    · rw [hleft _ (hsound.mem_processed (by rw [hframes]; exact List.mem_cons_self)) hnodup.1]
      exact .done hend
    · rw [← hnext]
      exact h.open_files
  · intro file hfile hnot
    rw [hframes, List.map_cons, List.mem_cons, not_or] at hnot
    exact hleft file hfile hnot.2
  · rw [← hprocessed]
    exact h.new_files

/-- A step inside a file adds its passage to the scan of that file. -/
theorem pass (hsound : run.Sound disk) (hframes : run.frames = frame :: outer)
    {reading : Reading} {reader : Reader} (entered : List Frame) (hrest : frame.reader.rest ≠ [])
    (hat : reading.At frame.reader reader)
    (hnext : next.frames = entered ++ { frame with reader } :: outer)
    (hprocessed : next.processed = entered.map Frame.file ++ run.processed)
    (hnew : ∀ f ∈ entered, f.file ∉ run.processed ∧
      ∃ content, disk.content? f.file = some content ∧ f.reader = .ofText content)
    (h : Scans disk next passages processed) :
    Scans disk run (⟨frame.file, frame.reader, reading⟩ :: passages) processed := by
  have hnodup := hsound.frames_nodup
  rw [hframes, List.map_cons, List.nodup_cons] at hnodup
  have hmem : frame.file ∈ run.processed :=
    hsound.mem_processed (by rw [hframes]; exact List.mem_cons_self)
  have hopen := h.open_files
  rw [hnext] at hopen
  refine ⟨?_, ?_, ?_⟩
  · rw [hframes]
    refine List.forall_mem_cons.mpr ⟨?_, ?_⟩
    · rw [Passage.inFile_cons_self]
      exact .cons hrest hat (hopen _ (List.mem_append_right _ List.mem_cons_self))
    · intro f hf
      have hne : frame.file ≠ f.file := by
        intro heq
        exact hnodup.1 (heq ▸ List.mem_map_of_mem hf)
      rw [Passage.inFile_cons_of_ne hne]
      exact hopen f (List.mem_append_right _ (List.mem_cons_of_mem _ hf))
  · intro file hfile hnot
    rw [hframes, List.map_cons, List.mem_cons, not_or] at hnot
    rw [Passage.inFile_cons_of_ne (Ne.symm hnot.1)]
    refine h.left_files file (by rw [hprocessed]; exact List.mem_append_right _ hfile) ?_
    rw [hnext, List.map_append, List.mem_append, List.map_cons, List.mem_cons]
    rintro (hin | hin)
    · obtain ⟨f, hf, rfl⟩ := List.mem_map.mp hin
      exact (hnew f hf).1 hfile
    · exact hin.elim hnot.1 hnot.2
  · intro file hfile hnot
    have hne : frame.file ≠ file := by
      intro heq
      exact hnot (heq ▸ hmem)
    rw [Passage.inFile_cons_of_ne hne]
    by_cases hin : file ∈ entered.map Frame.file
    · obtain ⟨f, hf, rfl⟩ := List.mem_map.mp hin
      obtain ⟨-, content, hcontent, hreader⟩ := hnew f hf
      refine ⟨content, hcontent, ?_⟩
      rw [← hreader]
      exact hopen f (List.mem_append_left _ hf)
    · refine h.new_files file hfile ?_
      rw [hprocessed, List.mem_append, not_or]
      exact ⟨hin, hnot⟩

theorem step (hsound : run.Sound disk) (hrun : run.frames ≠ [])
    (hstep : run.step disk dirs = .ok next) (h : Scans disk next passages processed) :
    Scans disk run (run.passage?.toList ++ passages) processed := by
  obtain ⟨frame, outer, hframes⟩ := List.exists_cons_of_ne_nil hrun
  cases step_fileMove hframes hstep with
  | leave hend hpassage hnext hprocessed =>
    rw [hpassage]
    exact h.leave hsound hframes hend hnext hprocessed
  | advance reading reader hrest hpassage hat hnext hprocessed =>
    rw [hpassage]
    exact h.pass hsound hframes [] hrest hat hnext hprocessed (fun _ hf => nomatch hf)
  | enter reading reader file content hrest hpassage hat hcontent hnew hnext hprocessed =>
    rw [hpassage]
    refine h.pass hsound hframes [⟨file, .ofText content⟩] hrest hat hnext hprocessed ?_
    intro f hf
    rw [List.mem_singleton.mp hf]
    exact ⟨hnew, content, hcontent, rfl⟩

end Scans

/-- On a way out of all files, the passages scan each file. -/
theorem Steps.scans {visited : List Run} (h : Steps disk dirs run visited last)
    (hend : last.frames = []) (hsound : run.Sound disk) :
    Scans disk run (visited.filterMap passage?) last.processed := by
  induction h with
  | refl run =>
    refine ⟨?_, fun _ _ _ => rfl, fun _ hfile hnot => absurd hfile hnot⟩
    rw [hend]
    exact fun _ hf => nomatch hf
  | head hframes hstep _ ih =>
    rw [filterMap_passage?_cons]
    exact (ih hend (hsound.step hframes hstep)).step hsound hframes hstep

end Run

namespace Session

/-- The passages in one file of the run over a root file. -/
def scan (session : Session) (disk : Files.Disk) (root : Text) (file : Files.Address) :
    List Passage :=
  Passage.inFile file (session.passages disk root)

/-- A successful run scans every file that it enters. -/
theorem scan_of_success {session : Session} {disk : Files.Disk} {root : Text}
    (hsuccess : (session.process disk root).1 = none) {file : Files.Address} {content : Text}
    (hfile : file ∈ (session.process disk root).2.run.processed)
    (hcontent : disk.content? file = some content) :
    Scan file (.ofText content) (session.scan disk root file) := by
  cases session.course disk root with
  | unopened failure hopened hprocess =>
    rw [hprocess] at hsuccess
    cases hsuccess
  | stopped start last visited stop hopened hsteps hframes hstop hprocess =>
    rw [hprocess] at hsuccess
    cases hsuccess
  | finished start last visited hopened hsteps hframes hprocess =>
    rw [hprocess, Run.warnUnclosed_processed] at hfile
    rw [scan, passages, states_of_steps hopened hsteps (.inl hframes), List.dropLast_concat]
    have hscans := hsteps.scans hframes (.of_opened hopened)
    obtain ⟨first, text, htext, rfl⟩ := eq_of_opened hopened
    by_cases heq : file = first
    · subst heq
      rw [hcontent] at htext
      cases htext
      exact hscans.open_files ⟨file, .ofText content⟩ List.mem_cons_self
    · obtain ⟨text', htext', hscan⟩ := hscans.new_files file hfile (by
        show file ∉ [first]
        rwa [List.mem_singleton])
      rw [hcontent] at htext'
      cases htext'
      exact hscan

end Session

end XsPrep
