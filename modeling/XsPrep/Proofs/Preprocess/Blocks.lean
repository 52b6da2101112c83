import XsPrep.Proofs.Preprocess.Steps

/-!
# The open blocks of a run

A step leaves the open blocks alone, opens one or closes the innermost one
(`BlockMove`).  A block that is opened while text is skipped is skipped itself.
From this follows the shape of the open blocks in every state of a run: the
blocks that are read come first, from the outside, and all blocks inside a
skipped one are skipped (`Layered`).  It does not matter in which files the blocks
were opened.

So it is enough to look at the innermost block: it is skipped exactly if some
open block is (`Layered.isSkipping_iff`).
-/

namespace XsPrep

namespace Run

variable {disk : Files.Disk} {dirs : List Text} {run next last : Run} {frame : Frame}
  {outer : List Frame}

/-! ## What a step does to the blocks -/

/-- What a step can make of the open blocks, which are innermost first. -/
inductive BlockMove (blocks : List Block) : List Block → Prop where
  | keep : BlockMove blocks blocks
  | opens (block : Block) (hactive : blocks.head?.any (!·.active) = true → block.active = false) :
      BlockMove blocks (block :: blocks)
  | closes {block : Block} {below : List Block} (htop : blocks = block :: below) :
      BlockMove blocks below

theorem BlockMove.tail (blocks : List Block) : BlockMove blocks blocks.tail := by
  cases blocks with
  | nil => exact .keep
  | cons top below => exact .closes rfl

theorem elements_of_pop? {block : Block} {blocks : Stack Block}
    (h : run.blocks.pop? = some (block, blocks)) :
    run.blocks.elements = block :: blocks.elements := by
  rw [Stack.pop?] at h
  split at h
  · cases h
  · rename_i top below helements
    cases h
    exact helements

theorem undefine_blocks (run : Run) (name : Text) (place : Place) :
    (run.undefine name place).blocks = run.blocks := by
  unfold undefine
  split
  · rfl
  · split <;> rfl

theorem skipLine_blocks (run : Run) (frame : Frame) (line : SkippedLine) :
    (run.skipLine frame line).blocks.elements = match line with
      | .opens position => ⟨false, frame.place position⟩ :: run.blocks.elements
      | .closes => run.blocks.elements.tail
      | .other => run.blocks.elements := by
  cases line with
  | opens position => rfl
  | other => rfl
  | closes =>
    rw [skipLine, Stack.pop?]
    cases helements : run.blocks.elements with
    | nil => exact helements
    | cons top below => rfl

theorem execute_blocks {construct : Construct}
    (h : run.execute disk dirs frame construct = .ok next) :
    next.blocks.elements = match construct with
      | .openBlock name position =>
        ⟨run.macros.contains name, frame.place position⟩ :: run.blocks.elements
      | .closeBlock _ => run.blocks.elements.tail
      | _ => run.blocks.elements := by
  cases construct with
  | includeFile name position =>
    obtain ⟨file, content, -, ⟨-, rfl⟩ | ⟨-, rfl⟩⟩ := execute_include h
    · rfl
    · rfl
  | undefine name position =>
    cases h
    rw [undefine_blocks]
  | expansion name =>
    simp only [execute] at h
    split at h <;> (cases h; rfl)
  | closeBlock position =>
    simp only [execute] at h
    split at h
    · rename_i block blocks hpop
      cases h
      rw [elements_of_pop? hpop]
      rfl
    · cases h
  | _ =>
    cases h
    rfl

theorem skipLine_blockMove (run : Run) (frame : Frame) (line : SkippedLine) :
    BlockMove run.blocks.elements (run.skipLine frame line).blocks.elements := by
  rw [skipLine_blocks]
  cases line with
  | opens position => exact .opens _ fun _ => rfl
  | closes => exact .tail _
  | other => exact .keep

theorem execute_blockMove {construct : Construct} (hskip : run.isSkipping = false)
    (h : run.execute disk dirs frame construct = .ok next) :
    BlockMove run.blocks.elements next.blocks.elements := by
  rw [execute_blocks h]
  cases construct with
  | openBlock name position =>
    refine .opens _ fun hskipping => ?_
    rw [isSkipping, Stack.top?, hskipping] at hskip
    cases hskip
  | closeBlock position => exact .tail _
  | _ => exact .keep

/-- A step leaves the blocks alone, opens one or closes one. -/
theorem step_blockMove (hrun : run.frames ≠ []) (h : run.step disk dirs = .ok next) :
    BlockMove run.blocks.elements next.blocks.elements := by
  obtain ⟨frame, outer, hframes⟩ := List.exists_cons_of_ne_nil hrun
  cases step_move hframes h with
  | leave hend => exact .keep
  | @skip line reader hrest hskip hread =>
    exact skipLine_blockMove { run with frames := { frame with reader } :: outer } frame line
  | @read construct reader next hrest hskip hread hexecute =>
    have hmove := execute_blockMove (by exact hskip) hexecute
    exact hmove

/-! ## The shape of the blocks -/

/-- Every block inside a skipped block is skipped. -/
def Layered (run : Run) : Prop :=
  run.blocks.elements.Pairwise fun inner outer => outer.active = false → inner.active = false

namespace Layered

/-- The innermost block is skipped if any block is. -/
theorem isSkipping_iff (h : run.Layered) :
    run.isSkipping = true ↔ ∃ block ∈ run.blocks.elements, block.active = false := by
  rw [Layered] at h
  rw [isSkipping, Stack.top?]
  cases helements : run.blocks.elements with
  | nil => simp
  | cons top below =>
    rw [helements] at h
    obtain ⟨htop, -⟩ := List.pairwise_cons.mp h
    constructor
    · intro hskip
      exact ⟨top, List.mem_cons_self, by simpa using hskip⟩
    · rintro ⟨block, hblock, hinactive⟩
      rcases List.mem_cons.mp hblock with rfl | hblock
      · simpa using hinactive
      · simpa using htop block hblock hinactive

theorem of_blockMove (h : run.Layered)
    (hmove : BlockMove run.blocks.elements next.blocks.elements) : next.Layered := by
  have hshape := h
  rw [Layered] at hshape ⊢
  generalize next.blocks.elements = blocks at hmove ⊢
  cases hmove with
  | keep => exact hshape
  | opens block hactive =>
    refine .cons ?_ hshape
    intro outer houter hinactive
    exact hactive (h.isSkipping_iff.mpr ⟨outer, houter, hinactive⟩)
  | closes htop =>
    rw [htop] at hshape
    exact hshape.of_cons

theorem step (h : run.Layered) (hrun : run.frames ≠ []) (hstep : run.step disk dirs = .ok next) :
    next.Layered :=
  h.of_blockMove (step_blockMove hrun hstep)

theorem of_steps {visited : List Run} (h : run.Layered)
    (hsteps : Steps disk dirs run visited last) :
    (∀ state ∈ visited, state.Layered) ∧ last.Layered :=
  hsteps.invariant (fun _ _ hlayered hrun hstep => hlayered.step hrun hstep) h

end Layered

@[simp] theorem warnUnclosed_blocks (run : Run) : run.warnUnclosed.blocks = run.blocks := by
  unfold warnUnclosed
  split <;> rfl

end Run

namespace Session

theorem layered_of_states {session : Session} {disk : Files.Disk} {root : Text} {state : Run}
    (hstate : state ∈ session.states disk root) : state.Layered := by
  cases hopened : session.opened disk root with
  | error failure =>
    rw [states_of_unopened hopened] at hstate
    cases hstate
  | ok start =>
    obtain ⟨visited, hsteps⟩ := (mem_states_iff hopened).mp hstate
    obtain ⟨file, content, -, rfl⟩ := eq_of_opened hopened
    have hstart : ((Run.ofMacros session.settings.predefined).enter file content).Layered :=
      List.Pairwise.nil
    exact (hstart.of_steps hsteps).2

/-- The run that is left at the end has the blocks of a state on the way, or
none. -/
theorem layered_of_process (session : Session) (disk : Files.Disk) (root : Text) :
    (session.process disk root).2.run.Layered := by
  cases session.course disk root with
  | unopened failure hopened hprocess =>
    rw [hprocess]
    exact List.Pairwise.nil
  | finished start last visited hopened hsteps hframes hprocess =>
    rw [hprocess, Run.Layered, Run.warnUnclosed_blocks]
    exact layered_of_states ((mem_states_iff hopened).mpr ⟨visited, hsteps⟩)
  | stopped start last visited stop hopened hsteps hframes hstop hprocess =>
    have hlast := layered_of_states ((mem_states_iff hopened).mpr ⟨visited, hsteps⟩)
    rw [hprocess]
    exact hlast

/-- In every state of a run, and in the one it leaves, every block above a skipped
block is skipped.  So the innermost block is skipped exactly if some open block
is. -/
theorem blocks_layered (session : Session) (disk : Files.Disk) (root : Text) (state : Run)
    (hstate : state ∈ session.states disk root ∨ state = (session.process disk root).2.run) :
    state.blocks.elements.Pairwise
        (fun above below => below.active = false → above.active = false) ∧
      (state.isSkipping = true ↔ ∃ block ∈ state.blocks.elements, block.active = false) := by
  have hlayered : state.Layered := by
    rcases hstate with hstate | rfl
    · exact layered_of_states hstate
    · exact layered_of_process session disk root
  exact ⟨hlayered, hlayered.isSkipping_iff⟩

/-- A file that opens a block which is read, and includes another one in it.  That
one opens two blocks, of which the inner one would be read outside the other. -/
def unclosed : Files.Disk where
  nodes := [
    ([bytes "w"], .directory),
    ([bytes "w", bytes "main.xs"], .file (bytes "#ifdef A\n#include \"./a.xs\"\n")),
    ([bytes "w", bytes "a.xs"], .file (bytes "#ifdef B\n#ifdef A\n"))]
  workingDirectory := [bytes "w"]

theorem blocks_layered_unclosed :
    ((new unclosed [] (.ofList [(bytes "A", [])])).process unclosed
      (bytes "main.xs")).2.run.blocks.elements.map Block.active = [false, false, true] ∧
    (((new unclosed [] (.ofList [(bytes "A", [])])).process unclosed
        (bytes "main.xs")).2.run.isSkipping = true ↔
      ∃ block ∈ ((new unclosed [] (.ofList [(bytes "A", [])])).process unclosed
        (bytes "main.xs")).2.run.blocks.elements, block.active = false) :=
  ⟨by decide +kernel, (blocks_layered _ unclosed (bytes "main.xs") _ (.inr rfl)).2⟩

end Session

end XsPrep
