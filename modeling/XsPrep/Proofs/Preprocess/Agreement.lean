import XsPrep.Proofs.Preprocess.Coverage

/-!
# Listings of files that are read throughout

Where a run skips no line of a file, the listing of that file and the run go
through it together.  Each construct of the run is what one or several rounds of
the listing go over, none of these comes upon a flaw, and they mention what the
construct includes (`Scan.rounds_eq`).  So the listing shows the includes that
the run carried out there and no others.
-/

namespace XsPrep

/-- If every passage is a construct, the rounds come upon no flaw, and they
mention what the passages include. -/
theorem Scan.rounds_eq {file : Files.Address} {r : Reader} {passages : List Passage}
    (h : Scan file r passages)
    (hread : ∀ passage ∈ passages, passage.reading.isLine = false) (depth : Nat) :
    (∀ round ∈ Listing.roundsFrom ⟨depth, r⟩, round.isFlawed = false) ∧
      (Listing.roundsFrom ⟨depth, r⟩).filterMap Listing.Round.mention? =
        passages.filterMap Passage.mention? := by
  induction h generalizing depth with
  | done hend =>
    rw [Listing.roundsFrom_of_end hend]
    exact ⟨(fun _ hround => nomatch hround), rfl⟩
  | cons hrest hat _ ih =>
    obtain ⟨hhere, hlater⟩ := List.forall_mem_cons.mp hread
    cases hat with
    | line _ => cases hhere
    | construct hconstruct =>
      obtain ⟨passed, depth', hpassed, hflaws, hmentions⟩ :=
        Listing.roundsFrom_of_read depth hrest hconstruct
      obtain ⟨ihflaws, ihmentions⟩ := ih hlater depth'
      rw [hpassed, List.filterMap_append, hmentions, ihmentions, List.filterMap_cons]
      constructor
      · intro round hround
        exact (List.mem_append.mp hround).elim (hflaws round) (ihflaws round)
      · simp only [Passage.mention?]
        split <;> simp_all

/-- Whether the next step of a run skips a line of a file. -/
def Run.skipsLineOf (file : Files.Address) (run : Run) : Bool :=
  match run.frames with
  | [] => false
  | frame :: _ => frame.file == file && !frame.reader.rest.isEmpty && run.isSkipping

/-- A passage that is a line is one that is skipped. -/
theorem Run.skipsLineOf_of_passage? {run : Run} {passage : Passage}
    (h : run.passage? = some passage) (hline : passage.reading.isLine = true) :
    run.skipsLineOf passage.file = true := by
  cases hframes : run.frames with
  | nil =>
    rw [passage?, hframes] at h
    cases h
  | cons frame outer =>
    by_cases hrest : frame.reader.rest = []
    · rw [passage?_of_end hframes hrest] at h
      cases h
    · cases hskip : run.isSkipping with
      | true =>
        rw [passage?_of_skipping hframes hrest hskip] at h
        cases h
        simp [skipsLineOf, hframes, hrest, hskip]
      | false =>
        cases hread : Construct.read frame.reader with
        | error e =>
          rw [passage?, hframes] at h
          simp [hrest, hskip, hread] at h
        | ok result =>
          rw [passage?_of_construct hframes hrest hskip hread] at h
          cases h
          cases hline

namespace Session

/-- The listing of a file that a successful run entered, and of which it skipped
no line, ends without an error and shows exactly the includes that the run
carried out there, in their order and with their places. -/
theorem listing_eq_executed {session : Session} {disk : Files.Disk} {root : Text}
    (hsuccess : (session.process disk root).1 = none) {file : Files.Address} {content : Text}
    (hfile : file ∈ (session.process disk root).2.run.processed)
    (hcontent : disk.content? file = some content)
    (hread : ∀ state ∈ session.states disk root, state.skipsLineOf file = false) :
    (Listing.ofText content).error = none ∧
      (Listing.ofText content).includes = session.executed disk root file := by
  have hscan := scan_of_success hsuccess hfile hcontent
  have hconstructs : ∀ passage ∈ session.scan disk root file,
      passage.reading.isLine = false := by
    intro passage hpassage
    obtain ⟨hmem, hin⟩ := List.mem_filter.mp hpassage
    obtain ⟨state, hstate, hpassage?⟩ := List.mem_filterMap.mp hmem
    cases hline : passage.reading.isLine with
    | false => rfl
    | true =>
      have hskips := Run.skipsLineOf_of_passage? hpassage? hline
      rw [eq_of_beq hin, hread state (List.dropLast_subset _ hstate)] at hskips
      cases hskips
  obtain ⟨hflaws, hmentions⟩ := hscan.rounds_eq hconstructs 0
  rw [Listing.error_ofText_eq_none_iff, Listing.includes_ofText]
  exact ⟨fun round hround _ => hflaws round hround, hmentions⟩

/-- Includes in a block and behind it, and a literal and a comment that look like
includes. -/
def lookalikes : Text :=
  bytes "#ifdef A\n\"#include\n\" /* #include \"c.xs\" */ @A@ #include \"./a.xs\" \"\n#endif\n" ++
    bytes "#include \"b.xs\"\n"

/-- The first file that the main file includes has a block that is skipped. -/
def throughout : Files.Disk where
  nodes := [
    ([bytes "w"], .directory),
    ([bytes "w", bytes "main.xs"], .file lookalikes),
    ([bytes "w", bytes "a.xs"], .file (bytes "#ifdef B\n#include \"c.xs\"\n#endif\n")),
    ([bytes "w", bytes "b.xs"], .file [])]
  workingDirectory := [bytes "w"]

theorem listing_eq_executed_throughout :
    (Listing.ofText lookalikes).error = none ∧
    (Listing.ofText lookalikes).includes =
      (new throughout [] (.ofList [(bytes "A", bytes "1")])).executed throughout (bytes "main.xs")
        [bytes "w", bytes "main.xs"] ∧
    (new throughout [] (.ofList [(bytes "A", bytes "1")])).executed throughout (bytes "main.xs")
      [bytes "w", bytes "main.xs"] =
        [⟨bytes "./a.xs", ⟨56, 3, 38⟩⟩, ⟨bytes "b.xs", ⟨83, 5, 10⟩⟩] := by
  rw [← and_assoc]
  refine ⟨listing_eq_executed ?_ ?_ ?_ ?_, ?_⟩
  · decide +kernel
  · decide +kernel
  · decide +kernel
  · decide +kernel
  · decide +kernel

end Session

end XsPrep
