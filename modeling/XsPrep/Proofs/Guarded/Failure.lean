import XsPrep.Proofs.Guarded.Safety
import XsPrep.Proofs.Preprocess.Ledger
import XsPrep.Proofs.Preprocess.Locations
import XsPrep.Proofs.Preprocess.Unread

/-!
# Failing runs

A failing run drops its output and keeps everything else, as it was before the failing construct:
its ledger has the entries of the constructs that were completed and of the includes that were
entered, and no others.  A guarded run, which changes its state while it reads a construct and
reports a warning at once, comes to the same.  What stands behind the failing construct, and
behind the includes that led to it, has no effect.
-/

namespace XsPrep.Session

variable {session : Session} {disk : Files.Disk} {root : Text} {stop : Stop}

/-- A failing run leaves no output. -/
theorem emitted_of_failure (hstop : (session.process disk root).1 = some stop) :
    (session.process disk root).2.run.emitted = [] := by
  cases session.course disk root with
  | unopened failure hopened hprocess =>
    rw [hprocess]
    rfl
  | finished start last visited hopened hsteps hframes hprocess =>
    rw [hprocess] at hstop
    cases hstop
  | stopped start last visited found hopened hsteps hframes hfound hprocess =>
    rw [hprocess]
    rfl

/-- A guarded run that fails leaves the ledger of the passages, and reported the warnings in it. -/
theorem guarded_of_failure (hstop : (session.process disk root).1 = some stop)
    (m : Guarded.Machine) (extra : Nat) :
    ∃ left, m.process (some session.settings.predefined) session.settings.includeDirectories disk
        root (disk.readingWork + 1 + extra) = .ok (some stop, left) ∧
      left.emitted = [] ∧ left.macros = some (session.ledger disk root).macros ∧
      left.processed = some (session.ledger disk root).processed ∧
      left.warned = (session.ledger disk root).warned ∧
      left.reported = (session.ledger disk root).warned := by
  have hledger := ledger_of_failure hstop
  have hprocess := Guarded.Machine.process_or_cut m (some session.settings.predefined) session rfl
    disk root (disk.readingWork + 1 + extra)
  rcases hprocess with hprocess | ⟨hcut, -⟩
  · rw [hstop] at hprocess
    refine ⟨_, hprocess, emitted_of_failure hstop, ?_⟩
    rw [← hledger]
    exact ⟨rfl, rfl, rfl, rfl⟩
  · omega

/-- A failing run drops its output and nothing else.  The macros, the files entered and the
warnings are those of the constructs that were carried out before the failing one, also where
the state is changed in place and warnings are reported at once.  All these constructs are before
the places where the run is in its open files, the failing one is at the innermost of them, and
no text behind has any effect. -/
theorem failure_drops_output_only (session : Session) (disk : Files.Disk) (root : Text)
    (stop : Stop) (hstop : (session.process disk root).1 = some stop) :
    ((session.process disk root).2.run.fragments = [] ∧
      (session.process disk root).2.run.output = [] ∧
      stop.diagnostic.severity = .error ∧
      (session.process disk root).2.run.ledger = session.ledger disk root) ∧
    (∀ (m : Guarded.Machine) (extra : Nat), ∃ left,
      m.process (some session.settings.predefined) session.settings.includeDirectories disk root
        (disk.readingWork + 1 + extra) = .ok (some stop, left) ∧
      left.emitted = [] ∧ left.macros = some (session.ledger disk root).macros ∧
      left.processed = some (session.ledger disk root).processed ∧
      left.warned = (session.ledger disk root).warned ∧
      left.reported = (session.ledger disk root).warned) ∧
    ((∃ failure, disk.fetch (disk.canonical root) = .error failure) ∨
      ∃ last frame outer, (session.states disk root).getLast? = some last ∧
        last.frames = frame :: outer ∧ Run.Failing frame stop ∧
        (∀ passage ∈ session.passages disk root, ∀ place ∈ last.frames,
          passage.file = place.file →
            passage.reader.position.offset < place.reader.position.offset) ∧
        ∀ f, last.KeepsRead disk f →
          session.process (disk.rewrite f) root = session.process disk root) := by
  have hemitted := emitted_of_failure hstop
  refine ⟨⟨?_, ?_, rfl, ledger_of_failure hstop⟩, guarded_of_failure hstop, ?_⟩
  · rw [Run.fragments, hemitted, List.reverse_nil]
  · rw [Run.output, Run.fragments, hemitted, List.reverse_nil, List.flatten_nil]
  · cases session.course disk root with
    | unopened failure hopened hprocess =>
      exact .inl ⟨failure, fetch_of_unopened hopened⟩
    | finished start last visited hopened hsteps hframes hprocess =>
      rw [hprocess] at hstop
      cases hstop
    | stopped start last visited found hopened hsteps hframes hfound hprocess =>
      rw [hprocess] at hstop
      cases hstop
      obtain ⟨frame, outer, hlast⟩ := List.exists_cons_of_ne_nil hframes
      have hstates := states_of_steps hopened hsteps (.inr ⟨stop, hfound⟩)
      refine .inr ⟨last, frame, outer, ?_, hlast, Run.step_failing hlast hfound, ?_, ?_⟩
      · rw [hstates, List.getLast?_concat]
      · intro passage hpassage place hplace hfile
        rw [passages, hstates, List.dropLast_concat] at hpassage
        exact hsteps.passage_before (.of_opened hopened) hpassage hplace hfile
      · intro f hkeeps
        exact process_rewrite hopened hsteps hframes hfound hkeeps

/-- A file with a warning in it, an include and a definition behind the include.  The included
file has a definition, and then one without a name. -/
def innerFlaw : Files.Disk where
  nodes := [
    ([bytes "w"], .directory),
    ([bytes "w", bytes "main.xs"],
      .file (bytes "#undef NONE\n#include \"./a.xs\"\n#define LATER 1\n")),
    ([bytes "w", bytes "a.xs"], .file (bytes "#define A 1\n#define\n"))]
  workingDirectory := [bytes "w"]

/-- Another text behind the include. -/
def otherEnding (file : Files.Address) (t : Text) : Text :=
  if file = [bytes "w", bytes "main.xs"] then t.take 30 ++ bytes "#bogus\n" else t

theorem failure_drops_output_only_inner :
    ((new innerFlaw [] .empty).process innerFlaw (bytes "main.xs")).1 =
      some ⟨⟨bytes "/w/a.xs", 2, 8⟩, .flawed (.missingName (.operand .define))⟩ ∧
    ((new innerFlaw [] .empty).process innerFlaw (bytes "main.xs")).2.run.fragments = [] ∧
    ((new innerFlaw [] .empty).process innerFlaw (bytes "main.xs")).2.run.ledger =
      (new innerFlaw [] .empty).ledger innerFlaw (bytes "main.xs") ∧
    ((new innerFlaw [] .empty).ledger innerFlaw (bytes "main.xs")).macros.entries =
      [(bytes "A", bytes "1")] ∧
    ((new innerFlaw [] .empty).ledger innerFlaw (bytes "main.xs")).processed =
      [[bytes "w", bytes "a.xs"], [bytes "w", bytes "main.xs"]] ∧
    ((new innerFlaw [] .empty).ledger innerFlaw (bytes "main.xs")).warned =
      [(Advice.notDefined (bytes "NONE")).warning ⟨bytes "/w/main.xs", 1, 8⟩] ∧
    (new innerFlaw [] .empty).process (innerFlaw.rewrite otherEnding) (bytes "main.xs") =
      (new innerFlaw [] .empty).process innerFlaw (bytes "main.xs") := by
  have hstop : ((new innerFlaw [] .empty).process innerFlaw (bytes "main.xs")).1 =
      some ⟨⟨bytes "/w/a.xs", 2, 8⟩, .flawed (.missingName (.operand .define))⟩ := by
    decide +kernel
  have hunread : ((new innerFlaw [] .empty).states innerFlaw (bytes "main.xs")).getLast?.map
      (fun run => run.unread.map fun frame => (frame.file, frame.reader.position.offset)) =
      some [([bytes "w", bytes "a.xs"], 20), ([bytes "w", bytes "main.xs"], 30)] := by
    decide +kernel
  have hfetched :
      (innerFlaw.fetch (innerFlaw.canonical (bytes "main.xs"))).toOption.isSome = true := by
    decide +kernel
  obtain ⟨⟨hfragments, -, -, hledger⟩, -, hplace⟩ :=
    failure_drops_output_only _ innerFlaw (bytes "main.xs") _ hstop
  refine ⟨hstop, hfragments, hledger, by decide +kernel, by decide +kernel, by decide +kernel, ?_⟩
  rcases hplace with ⟨failure, hfailure⟩ | ⟨last, frame, outer, hlast, -, -, -, hsame⟩
  · rw [hfailure] at hfetched
    cases hfetched
  · refine hsame otherEnding fun file t hcontent => ?_
    by_cases hfile : file = [bytes "w", bytes "main.xs"]
    · subst hfile
      have htext : innerFlaw.content? [bytes "w", bytes "main.xs"] =
          some (bytes "#undef NONE\n#include \"./a.xs\"\n#define LATER 1\n") := by
        decide +kernel
      rw [hcontent] at htext
      cases htext
      rw [hlast, Option.map_some, Option.some.injEq] at hunread
      obtain ⟨place, hmem, hat⟩ := List.mem_map.mp
        (hunread ▸ List.mem_cons_of_mem _ (List.mem_singleton_self _) :
          ([bytes "w", bytes "main.xs"], 30) ∈
            last.unread.map fun frame => (frame.file, frame.reader.position.offset))
      obtain ⟨hfile, hoffset⟩ := Prod.mk.inj hat
      refine .inr ⟨place, hmem, hfile, ?_⟩
      rw [hoffset]
      exact ⟨by decide +kernel, bytes "#bogus\n", if_pos rfl⟩
    · exact .inl (if_neg hfile)

end XsPrep.Session
