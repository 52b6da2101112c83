import XsPrep.Proofs.Preprocess.Steps
import XsPrep.Proofs.Source.Lines

/-!
# What steps add to the output

What a step adds to the output depends on what stands where it begins
(`Run.emission`).  A literal and a plain character add the bytes they were read from
(`Construct.reads_raw`, `Reader.Reads.bytes_eq`), an expansion adds the value of its
macro, and nothing else adds anything.  So the output of a run is what its steps add,
one after the other (`Run.Steps.fragments`).
-/

namespace XsPrep

/-- The bytes between two places of a text are those of the characters between
them. -/
theorem Reader.Reads.bytes_eq {content : Text} {r r' : Reader} {cs : List Character}
    (h : r.Reads cs r') (hin : (Reader.ofText content).LeadsTo r) :
    (content.drop r.position.offset).take (r'.position.offset - r.position.offset) =
      Text.ofCharacters cs := by
  obtain ⟨ds, hds⟩ := hin
  have hall := hds.trans h
  have hcontent : content =
      Text.ofCharacters ds ++ (Text.ofCharacters cs ++ Text.ofCharacters r'.rest) := by
    rw [← List.append_assoc, ← Text.ofCharacters_append]
    exact hall.text_eq
  have hlength : r'.position.offset - r.position.offset = (Text.ofCharacters cs).length := by
    rw [hall.offset_eq, hds.offset_eq, Text.ofCharacters_append, List.length_append,
      Nat.add_sub_cancel_left]
  rw [hlength, hds.offset_eq, hcontent, List.drop_left, List.take_left]

namespace Construct

variable {r r' : Reader} {c : Construct}

/-- The text of a construct that stands for itself. -/
def raw? : Construct → Option Text
  | .literal raw => some raw
  | .character raw => some raw
  | _ => none

theorem raw?_of_readDirective (h : readDirective r = .ok (c, r')) : c.raw? = none := by
  rw [readDirective] at h
  dsimp only at h
  split at h
  · cases h
  · rw [readInclude] at h
    split at h
    · cases h
    · split at h
      · cases h
      · cases h
        rfl
  · obtain ⟨⟨name, value, rfl⟩, -⟩ := readDefine_eq_ok h
    rfl
  · rw [readUndefine_eq] at h
    cases h
    rfl
  · obtain ⟨⟨name, rfl⟩, -⟩ := readOpening_eq_ok h
    rfl
  · cases h
    rfl

/-- A construct that stands for itself is the characters that were read. -/
theorem reads_raw (h : read r = .ok (c, r')) {raw : Text} (hraw : c.raw? = some raw) :
    ∃ cs, r.Reads cs r' ∧ raw = Text.ofCharacters cs := by
  cases origin_of_read h with
  | directive _ hread =>
    rw [raw?_of_readDirective hread] at hraw
    cases hraw
  | expansion _ hat hread =>
    obtain ⟨⟨name, rfl⟩, -⟩ := readExpansion_eq_ok hat hread
    cases hraw
  | literal _ _ hquote hread =>
    rw [Reader.readLiteral, if_pos hquote] at hread
    split at hread
    · cases hread
      cases hraw
      exact ⟨_, Reader.reads_skip _ r, rfl⟩
    · cases hread
  | lineComment => cases hraw
  | blockComment => cases hraw
  | character =>
    cases hraw
    exact ⟨_, Reader.reads_skip 1 r, rfl⟩

end Construct

/-- What a reading adds to the output by itself. -/
def Reading.emission (macros : Macros) : Reading → List Text
  | .construct (.literal raw) => [raw]
  | .construct (.character raw) => [raw]
  | .construct (.expansion name) => (macros.get? name).toList
  | _ => []

namespace Run

variable {disk : Files.Disk} {dirs : List Text} {run next last : Run} {frame : Frame}
  {outer : List Frame}

/-! ## What steps add to the output -/

/-- What the next step adds to the output. -/
def emission (run : Run) : List Text :=
  (run.passage?.map fun passage => passage.reading.emission run.macros).getD []

theorem skipLine_emitted (run : Run) (frame : Frame) (line : SkippedLine) :
    (run.skipLine frame line).emitted = run.emitted := by
  unfold skipLine
  split
  · rfl
  · split <;> rfl
  · rfl

theorem undefine_emitted (run : Run) (name : Text) (place : Place) :
    (run.undefine name place).emitted = run.emitted := by
  unfold undefine
  split
  · rfl
  · split <;> rfl

theorem execute_fragments {construct : Construct}
    (h : run.execute disk dirs frame construct = .ok next) :
    next.fragments = run.fragments ++ (Reading.construct construct).emission run.macros := by
  cases construct with
  | literal raw =>
    cases h
    simp [fragments, emit, Reading.emission]
  | character raw =>
    cases h
    simp [fragments, emit, Reading.emission]
  | expansion name =>
    simp only [execute] at h
    split at h
    · rename_i value hvalue
      cases h
      simp [fragments, emit, Reading.emission, hvalue]
    · rename_i hvalue
      cases h
      simp [Reading.emission, hvalue]
  | undefine name position =>
    cases h
    rw [fragments, undefine_emitted]
    exact (List.append_nil _).symm
  | closeBlock position =>
    simp only [execute] at h
    split at h
    · cases h
      exact (List.append_nil _).symm
    · cases h
  | includeFile name position =>
    obtain ⟨file, content, -, ⟨-, rfl⟩ | ⟨-, rfl⟩⟩ := execute_include h
    · exact (List.append_nil _).symm
    · exact (List.append_nil _).symm
  | _ =>
    cases h
    exact (List.append_nil _).symm

theorem step_fragments (hrun : run.frames ≠ []) (hstep : run.step disk dirs = .ok next) :
    next.fragments = run.fragments ++ run.emission := by
  obtain ⟨frame, outer, hframes⟩ := List.exists_cons_of_ne_nil hrun
  cases step_move hframes hstep with
  | leave hend =>
    rw [emission, passage?_of_end hframes hend]
    exact (List.append_nil _).symm
  | skip hrest hskip hread =>
    rw [emission, passage?_of_skipping hframes hrest hskip, fragments, skipLine_emitted]
    exact (List.append_nil _).symm
  | read hrest hskip hread hexecute =>
    rw [emission, passage?_of_construct hframes hrest hskip hread]
    have hfragments := execute_fragments hexecute
    exact hfragments

/-- The output only grows. -/
theorem Steps.fragments {visited : List Run} (h : Steps disk dirs run visited last) :
    last.fragments = run.fragments ++ visited.flatMap emission := by
  induction h with
  | refl run => simp
  | head hframes hstep _ ih =>
    rw [ih, step_fragments hframes hstep, List.flatMap_cons, List.append_assoc]

@[simp] theorem warnUnclosed_fragments (run : Run) :
    run.warnUnclosed.fragments = run.fragments := by
  unfold warnUnclosed
  split <;> rfl

end Run

end XsPrep
