import XsPrep.Proofs.Preprocess.Scan
import XsPrep.Proofs.Source.Rounds
import Mathlib.Data.List.Sort

/-!
# Listings and runs

A listing is meant to show every include that a run can carry out.  Both go
through the same text, the listing in rounds and the run in passages.  From a
construct that the run reads they come out at the same place, but a skipped line
is one passage for the run and any number of rounds for the listing.  A literal
or a comment that begins in a skipped line and goes on behind it leads the
listing past text that the run reads.

So a listing shows what a run carried out exactly if a round begins at each
include of the run, and if no round outside all blocks comes upon a flaw.  An
include is known by the place of its name, since no `#` stands between the two
(`Reader.eq_of_operand`).  It is enough that the listing comes to the end of each
skipped line (`Listing.Keeps`).
-/

namespace XsPrep

/-! ## Places of directives -/

namespace Reader

/-- Where the operand of the directive at a reader stands. -/
def operand (r : Reader) : Reader := r.readKeyword.2.skipBlanks

theorem leadsTo_operand (r : Reader) : r.LeadsTo r.operand :=
  (leadsTo_readKeyword r).trans (leadsTo_skipBlanks _)

/-- Between a `#` and the operand there is no other `#`. -/
theorem reads_operand {r : Reader} (h : r.sees Code.hash = true) :
    ∃ c cs, c.code = Code.hash ∧ (∀ d ∈ cs, d.code ≠ Code.hash) ∧
      r.Reads (c :: cs) r.operand := by
  obtain ⟨c, rest, hrest⟩ : ∃ c rest, r.rest = c :: rest := by
    cases hrest : r.rest with
    | nil => simp [sees, peek?, hrest] at h
    | cons c rest => exact ⟨c, rest, rfl⟩
  have hcode : c.code = Code.hash := by simpa [sees, peek?, hrest] using h
  have hskip := reads_skip 1 r
  rw [hrest, List.take_succ_cons, List.take_zero] at hskip
  have hreads := ((hskip.trans (reads_skipWhile Character.isBlank _)).trans
    (reads_skipWhile Character.isIdentifier _)).trans (reads_skipWhile Character.isBlank _)
  refine ⟨c, _ ++ _ ++ _, hcode, ?_, hreads⟩
  have hblank : ∀ d : Character, d.isBlank = true → d.code ≠ Code.hash := by
    intro d hd heq
    rw [Character.isBlank, heq] at hd
    exact absurd hd (by decide)
  intro d hd
  rw [List.mem_append, List.mem_append] at hd
  rcases hd with (hd | hd) | hd
  · exact hblank d (List.mem_takeWhile_imp hd)
  · exact (Listing.isPlain_of_identifier (List.mem_takeWhile_imp hd)).2.1
  · exact hblank d (List.mem_takeWhile_imp hd)

/-- A directive is known by the place of its operand. -/
theorem eq_of_operand {t : Text} {r₁ r₂ : Reader} (h₁ : (ofText t).LeadsTo r₁)
    (h₂ : (ofText t).LeadsTo r₂) (hash₁ : r₁.sees Code.hash = true)
    (hash₂ : r₂.sees Code.hash = true)
    (h : r₁.operand.position = r₂.operand.position) : r₁ = r₂ := by
  have hoperand : r₁.operand = r₂.operand :=
    (h₁.trans (leadsTo_operand r₁)).eq_of_offset (h₂.trans (leadsTo_operand r₂))
      (congrArg Position.offset h)
  obtain ⟨c₁, cs₁, hc₁, hcs₁, hreads₁⟩ := reads_operand hash₁
  obtain ⟨c₂, cs₂, hc₂, hcs₂, hreads₂⟩ := reads_operand hash₂
  obtain ⟨before₁, hbefore₁⟩ := h₁
  obtain ⟨before₂, hbefore₂⟩ := h₂
  -- Seen from the operand, the directive begins at the last `#` before it.
  have hwhole := (hbefore₁.trans hreads₁).unique (hoperand ▸ hbefore₂.trans hreads₂) rfl
  have hlast : ∀ {before cs : List Character} {c : Character}, c.code = Code.hash →
      (∀ d ∈ cs, d.code ≠ Code.hash) →
      (before ++ c :: cs).reverse.takeWhile (fun d => d.code != Code.hash) = cs.reverse := by
    intro before cs c hc hcs
    rw [List.reverse_append, List.reverse_cons, List.append_assoc,
      List.takeWhile_append_of_pos (by simpa using hcs)]
    simp [hc]
  have hcs : cs₁ = cs₂ := by
    rw [← List.reverse_inj, ← hlast hc₁ hcs₁, hwhole.1, hlast hc₂ hcs₂]
  refine LeadsTo.unique ⟨before₁, hbefore₁⟩ ⟨before₂, hbefore₂⟩ ?_
  rw [hreads₁.length_eq, hreads₂.length_eq, List.length_cons, List.length_cons, hcs, hoperand]

end Reader

/-! ## Includes of rounds and of passages -/

theorem Construct.sees_hash_of_mention? {r r' : Reader} {c : Construct} {m : Mention}
    (hread : Construct.read r = .ok (c, r')) (h : c.mention? = some m) :
    r.sees Code.hash = true := by
  cases Construct.origin_of_read hread with
  | directive hhash _ => exact hhash
  | expansion _ _ hread =>
    unfold Construct.readExpansion at hread
    dsimp only at hread
    split at hread
    · cases hread
    · split at hread <;> cases hread
      cases h
  | literal => cases h
  | lineComment => cases h
  | blockComment => cases h
  | character => cases h

/-- An include that a run carries out is one that a round there mentions. -/
theorem Construct.mention?_round {r r' : Reader} {c : Construct} {m : Mention}
    (hread : Construct.read r = .ok (c, r')) (h : c.mention? = some m) (depth : Nat) :
    Listing.Round.mention? ⟨depth, r⟩ = some m := by
  have hhash := Construct.sees_hash_of_mention? hread h
  rw [Construct.read, if_pos hhash] at hread
  obtain ⟨sight, hlook, hsight⟩ := Listing.lookDirective_of_read hread
  rw [← Listing.look_of_hash hhash] at hlook
  rw [(Listing.next?_of_look hlook depth).2.2, hsight, h]

namespace Listing

/-- A round mentions an include where it sees a `#`, with the place of the
operand. -/
theorem Round.place_of_mention? {round : Round} {m : Mention} (h : round.mention? = some m) :
    round.reader.sees Code.hash = true ∧ m.position = round.reader.operand.position := by
  cases hhash : round.reader.sees Code.hash with
  | true =>
    refine ⟨rfl, ?_⟩
    rw [Round.mention?, look_of_hash hhash, lookDirective] at h
    dsimp only at h
    split at h
    · rename_i m' behind heq
      cases h
      split at heq
      · cases heq
      · cases heq
      · split at heq
        · cases heq
        · split at heq
          · cases heq
          · cases heq
            rfl
      · cases heq
    · cases h
  | false =>
    rw [Round.mention?, look, hhash] at h
    split at h
    · rename_i m' behind heq
      split at heq
      · split at heq <;> cases heq
      split at heq
      · cases heq
      split at heq
      · split at heq <;> cases heq
      · cases heq
    · cases h

end Listing

/-- Whether it is a skipped line. -/
def Reading.isLine : Reading → Bool
  | .construct _ => false
  | .line _ => true

/-- The include that a passage carries out. -/
def Passage.mention? (passage : Passage) : Option Mention :=
  match passage.reading with
  | .construct c => c.mention?
  | .line _ => none

namespace Scan

variable {file : Files.Address} {r : Reader} {passages : List Passage}

/-- An include that is carried out is mentioned by a round that begins there. -/
theorem mention?_round (h : Scan file r passages) {passage : Passage}
    (hpassage : passage ∈ passages) {m : Mention} (hm : passage.mention? = some m)
    (depth : Nat) : Listing.Round.mention? ⟨depth, passage.reader⟩ = some m := by
  obtain ⟨-, r', hat⟩ := h.at_of_mem hpassage
  rw [Passage.mention?] at hm
  cases hreading : passage.reading with
  | line l =>
    rw [hreading] at hm
    cases hm
  | construct c =>
    rw [hreading] at hm hat
    cases hat with
    | construct hread => exact Construct.mention?_round hread hm depth

/-! ## Rounds at the includes of a run -/

variable {t : Text}

/-- If a round begins at each include that is carried out, the listing shows
these includes, in their order. -/
theorem sublist_includes (h : Scan file (.ofText t) passages)
    (hmeet : ∀ passage ∈ passages, passage.mention?.isSome →
      ∃ round ∈ Listing.rounds t, round.reader = passage.reader) :
    (passages.filterMap Passage.mention?).Sublist (Listing.ofText t).includes := by
  let later : Reader → Reader → Prop := fun a b => b.rest.length < a.rest.length
  let seen : Reader → Option Mention := fun r => Listing.Round.mention? ⟨0, r⟩
  have : Std.Antisymm later := ⟨fun _ _ hab hba => absurd hab (Nat.lt_asymm hba)⟩
  have : Std.Irrefl later := ⟨fun a => Nat.lt_irrefl a.rest.length⟩
  -- Both lists of places go forward, so the one is a part of the other.
  let places := (passages.filter (·.mention?.isSome)).map Passage.reader
  have hplaces : places.Pairwise later :=
    List.Pairwise.map Passage.reader (fun _ _ hab => hab) (h.pairwise.filter _)
  have hrounds : ((Listing.rounds t).map Listing.Round.reader).Pairwise later :=
    List.Pairwise.map Listing.Round.reader (fun _ _ hab => hab) (Listing.roundsFrom_pairwise _)
  have hsubset : places ⊆ (Listing.rounds t).map Listing.Round.reader := by
    intro r hr
    obtain ⟨passage, hpassage, rfl⟩ := List.mem_map.mp hr
    obtain ⟨hmem, hsome⟩ := List.mem_filter.mp hpassage
    obtain ⟨round, hround, heq⟩ := hmeet passage hmem hsome
    exact List.mem_map.mpr ⟨round, hround, heq⟩
  have hsublist : places.Sublist ((Listing.rounds t).map Listing.Round.reader) :=
    List.sublist_of_subperm_of_pairwise (List.subperm_of_subset hplaces.nodup hsubset) hplaces
      hrounds
  have hseen : places.filterMap seen = passages.filterMap Passage.mention? := by
    rw [List.filterMap_map, List.filterMap_filter]
    refine List.filterMap_congr ?_
    intro passage hpassage
    cases hm : passage.mention? with
    | none => rfl
    | some m => exact h.mention?_round hpassage hm 0
  have hshown : ((Listing.rounds t).map Listing.Round.reader).filterMap seen =
      (Listing.ofText t).includes := by
    rw [List.filterMap_map, Listing.includes_ofText]
    rfl
  rw [← hseen, ← hshown]
  exact hsublist.filterMap seen

/-- If the listing shows the includes that are carried out, a round begins at
each of them. -/
theorem exists_round (h : Scan file (.ofText t) passages)
    (hsublist : (passages.filterMap Passage.mention?).Sublist (Listing.ofText t).includes)
    {passage : Passage} (hpassage : passage ∈ passages) (hsome : passage.mention?.isSome) :
    ∃ round ∈ Listing.rounds t, round.reader = passage.reader := by
  obtain ⟨m, hm⟩ := Option.isSome_iff_exists.mp hsome
  have hmem := hsublist.subset (List.mem_filterMap.mpr ⟨passage, hpassage, hm⟩)
  rw [Listing.includes_ofText] at hmem
  obtain ⟨round, hround, hmention⟩ := List.mem_filterMap.mp hmem
  obtain ⟨hash₁, hposition₁⟩ := Listing.Round.place_of_mention? hmention
  obtain ⟨hash₂, hposition₂⟩ := Listing.Round.place_of_mention? (h.mention?_round hpassage hm 0)
  exact ⟨round, hround, Reader.eq_of_operand (Listing.leadsTo_of_mem hround)
    (h.leadsTo_of_mem hpassage) hash₁ hash₂ (hposition₁.symm.trans hposition₂)⟩

/-- Where the run reads a construct the listing comes upon no flaw. -/
theorem isFlawed_eq_false (h : Scan file r passages) {passage : Passage}
    (hpassage : passage ∈ passages) (hread : passage.reading.isLine = false) (depth : Nat) :
    Listing.Round.isFlawed ⟨depth, passage.reader⟩ = false := by
  obtain ⟨-, r', hat⟩ := h.at_of_mem hpassage
  cases hreading : passage.reading with
  | line l =>
    rw [hreading] at hread
    cases hread
  | construct c =>
    rw [hreading] at hat
    cases hat with
    | construct hread => exact Listing.isFlawed_of_read depth hread

end Scan

/-! ## Skipped lines -/

namespace Listing

/-- The listing of `t` goes through the line at a reader without coming upon a
flaw outside all blocks, and comes to the end of the line. -/
def Keeps (t : Text) (line : Reader) : Prop :=
  ∀ round ∈ rounds t, round.reader.rest.length ≤ line.rest.length →
    line.skipLine.rest.length < round.reader.rest.length →
    (round.depth = 0 → round.isFlawed = false) ∧
    ∀ next, round.next? = some next → line.skipLine.rest.length ≤ next.reader.rest.length

theorem Round.of_next?_eq_none {round : Round} (hrest : round.reader.rest ≠ [])
    (h : round.next? = none) : round.depth = 0 ∧ round.isFlawed = true := by
  obtain ⟨-, -, hdepth, hflawed, -⟩ := continueFrom_of_stop [] hrest h
  exact ⟨hdepth, hflawed⟩

theorem mem_roundsFrom_self {round : Round} (hrest : round.reader.rest ≠ []) :
    round ∈ roundsFrom round := by
  cases hnext : round.next? with
  | none =>
    rw [roundsFrom_of_stop hrest hnext]
    exact List.mem_singleton_self round
  | some next =>
    rw [roundsFrom_of_next hrest hnext]
    exact List.mem_cons_self

/-- Rounds that do not go beyond a place come to it. -/
theorem roundsFrom_of_bounded {round : Round} {place : Reader}
    (hleads : round.reader.LeadsTo place)
    (hbound : ∀ later ∈ roundsFrom round, place.rest.length < later.reader.rest.length →
      (later.depth = 0 → later.isFlawed = false) ∧
      ∀ next, later.next? = some next → place.rest.length ≤ next.reader.rest.length) :
    ∃ passed depth, roundsFrom round = passed ++ roundsFrom ⟨depth, place⟩ ∧
      ∀ later ∈ passed, later.depth = 0 → later.isFlawed = false := by
  have hhere : ∀ {round : Round}, round.reader.LeadsTo place →
      round.reader.rest.length = place.rest.length →
      ∃ passed depth, roundsFrom round = passed ++ roundsFrom ⟨depth, place⟩ ∧
        ∀ later ∈ passed, later.depth = 0 → later.isFlawed = false := by
    intro round hleads hlength
    have heq := (Reader.LeadsTo.refl round.reader).unique hleads hlength
    exact ⟨[], round.depth, by rw [← heq]; rfl, fun _ hlater => nomatch hlater⟩
  induction round using Round.induction with
  | atEnd round hrest =>
    refine hhere hleads ?_
    have hle := hleads.length_le
    rw [hrest, List.length_nil] at hle ⊢
    omega
  | stop round hrest hnext =>
    refine hhere hleads ?_
    by_contra hne
    have hlt := Nat.lt_of_le_of_ne hleads.length_le (Ne.symm hne)
    obtain ⟨hdepth, hflawed⟩ := Round.of_next?_eq_none hrest hnext
    have hfalse := (hbound round (mem_roundsFrom_self hrest) hlt).1 hdepth
    rw [hflawed] at hfalse
    cases hfalse
  | next round next hrest hnext ih =>
    by_cases hlength : round.reader.rest.length = place.rest.length
    · exact hhere hleads hlength
    · have hlt := Nat.lt_of_le_of_ne hleads.length_le (Ne.symm hlength)
      obtain ⟨hflaw, hbehind⟩ := hbound round (mem_roundsFrom_self hrest) hlt
      rw [roundsFrom_of_next hrest hnext] at hbound ⊢
      obtain ⟨passed, depth, hpassed, hflaws⟩ :=
        ih ((Round.leadsTo_next? hnext).of_length_le hleads (hbehind next hnext))
          fun later hlater => hbound later (List.mem_cons_of_mem _ hlater)
      refine ⟨round :: passed, depth, ?_, List.forall_mem_cons.mpr ⟨hflaw, hflaws⟩⟩
      rw [hpassed, List.cons_append]

end Listing

/-- From what a run reads to the place behind it, the rounds of the listing come
too, if the listing keeps to skipped lines. -/
theorem Reading.At.roundsFrom {t : Text} {r r' : Reader} {reading : Reading}
    (h : reading.At r r') (hrest : r.rest ≠ []) {depth : Nat}
    (hrounds : ∀ round ∈ Listing.roundsFrom ⟨depth, r⟩, round ∈ Listing.rounds t)
    (hkeeps : reading.isLine = true → Listing.Keeps t r) :
    ∃ passed depth', Listing.roundsFrom ⟨depth, r⟩ = passed ++ Listing.roundsFrom ⟨depth', r'⟩ ∧
      ∀ round ∈ passed, round.depth = 0 → round.isFlawed = false := by
  cases h with
  | construct hread =>
    obtain ⟨passed, depth', hpassed, hflaws, -⟩ := Listing.roundsFrom_of_read depth hrest hread
    exact ⟨passed, depth', hpassed, fun round hround _ => hflaws round hround⟩
  | line hread =>
    have hbehind : r' = r.skipLine := by rw [← SkippedLine.read_behind, hread]
    subst hbehind
    refine Listing.roundsFrom_of_bounded (Reader.leadsTo_skipLine r) ?_
    intro round hround hbefore
    exact hkeeps rfl round (hrounds round hround)
      (Listing.leadsTo_of_mem hround).length_le hbefore

/-- If the listing keeps to skipped lines, a round begins at every passage, and no
round outside all blocks comes upon a flaw. -/
theorem Scan.in_step {t : Text} {file : Files.Address} {r : Reader} {passages : List Passage}
    (h : Scan file r passages) (depth : Nat) (passed : List Listing.Round)
    (hrounds : Listing.rounds t = passed ++ Listing.roundsFrom ⟨depth, r⟩)
    (hpassed : ∀ round ∈ passed, round.depth = 0 → round.isFlawed = false)
    (hkeeps : ∀ passage ∈ passages, passage.reading.isLine = true →
      Listing.Keeps t passage.reader) :
    (∀ round ∈ Listing.rounds t, round.depth = 0 → round.isFlawed = false) ∧
      ∀ passage ∈ passages, ∃ round ∈ Listing.rounds t, round.reader = passage.reader := by
  induction h generalizing depth passed with
  | done hend =>
    rw [Listing.roundsFrom_of_end hend, List.append_nil] at hrounds
    rw [hrounds]
    exact ⟨hpassed, fun _ hpassage => nomatch hpassage⟩
  | @cons r r' reading passages hrest hat _ ih =>
    have hmem : ∀ round ∈ Listing.roundsFrom ⟨depth, r⟩, round ∈ Listing.rounds t := by
      intro round hround
      rw [hrounds]
      exact List.mem_append_right _ hround
    obtain ⟨between, depth', hbetween, hflaws⟩ :=
      hat.roundsFrom hrest hmem (hkeeps _ List.mem_cons_self)
    obtain ⟨hall, hlater⟩ := ih depth' (passed ++ between)
      (by rw [hrounds, hbetween, List.append_assoc])
      (fun round hround => (List.mem_append.mp hround).elim (hpassed round) (hflaws round))
      (fun passage hpassage => hkeeps passage (List.mem_cons_of_mem _ hpassage))
    refine ⟨hall, List.forall_mem_cons.mpr ⟨?_, hlater⟩⟩
    exact ⟨⟨depth, r⟩, hmem _ (Listing.mem_roundsFrom_self hrest), rfl⟩

namespace Session

/-- The includes that the run over a root file carries out in one file. -/
def executed (session : Session) (disk : Files.Disk) (root : Text) (file : Files.Address) :
    List Mention :=
  (session.scan disk root file).filterMap Passage.mention?

/-- After a successful run, the listing of a file it entered ends without an error
and shows, in order, the includes carried out there exactly if two things hold.
Outside all blocks no round comes upon a flaw, unless it begins at a construct
that the run read, where there is none.  And a round begins at each of these
includes.  Both hold whenever the listing keeps to the lines that the run
skipped. -/
theorem listing_covers_run {session : Session} {disk : Files.Disk} {root : Text}
    (hsuccess : (session.process disk root).1 = none) {file : Files.Address} {content : Text}
    (hfile : file ∈ (session.process disk root).2.run.processed)
    (hcontent : disk.content? file = some content) :
    (((Listing.ofText content).error = none ∧
        (session.executed disk root file).Sublist (Listing.ofText content).includes) ↔
      (∀ round ∈ Listing.rounds content, round.depth = 0 →
        (∀ passage ∈ session.scan disk root file, passage.reading.isLine = false →
          passage.reader ≠ round.reader) → round.isFlawed = false) ∧
      ∀ passage ∈ session.scan disk root file, passage.mention?.isSome →
        ∃ round ∈ Listing.rounds content, round.reader = passage.reader) ∧
    ((∀ passage ∈ session.scan disk root file, passage.reading.isLine = true →
        Listing.Keeps content passage.reader) →
      (Listing.ofText content).error = none ∧
        (session.executed disk root file).Sublist (Listing.ofText content).includes) := by
  have hscan := scan_of_success hsuccess hfile hcontent
  rw [Listing.error_ofText_eq_none_iff]
  refine ⟨⟨?_, ?_⟩, ?_⟩
  · rintro ⟨hflaws, hsublist⟩
    exact ⟨fun round hround hdepth _ => hflaws round hround hdepth,
      fun passage hpassage hsome => hscan.exists_round hsublist hpassage hsome⟩
  · rintro ⟨hflaws, hmeet⟩
    refine ⟨?_, hscan.sublist_includes hmeet⟩
    intro round hround hdepth
    by_contra hflawed
    refine hflawed (hflaws round hround hdepth ?_)
    intro passage hpassage hread heq
    have hnone := hscan.isFlawed_eq_false hpassage hread round.depth
    rw [heq] at hnone
    exact hflawed hnone
  · intro hkeeps
    obtain ⟨hflaws, hmeet⟩ := hscan.in_step 0 [] rfl (fun _ h => nomatch h) hkeeps
    exact ⟨hflaws, hscan.sublist_includes fun passage hpassage _ => hmeet passage hpassage⟩

/-- A main file with a block that is skipped, and the files that it includes
inside and behind the block. -/
def branching (skipped : Text) : Files.Disk where
  nodes := [
    ([bytes "w"], .directory),
    ([bytes "w", bytes "main.xs"], .file
      (bytes "#ifdef X\n" ++ skipped ++ bytes "#endif\n#include \"a.xs\"\n")),
    ([bytes "w", bytes "a.xs"], .file []),
    ([bytes "w", bytes "b.xs"], .file [])]
  workingDirectory := [bytes "w"]

theorem listing_covers_run_branching :
    (Listing.ofText (bytes
        "#ifdef X\n/* open\n#include \"b.xs\"\n#endif\n#include \"a.xs\"\n")).error = none ∧
      ((new (branching (bytes "/* open\n#include \"b.xs\"\n")) [] .empty).executed
        (branching (bytes "/* open\n#include \"b.xs\"\n")) (bytes "main.xs")
        [bytes "w", bytes "main.xs"]).Sublist
      (Listing.ofText (bytes
        "#ifdef X\n/* open\n#include \"b.xs\"\n#endif\n#include \"a.xs\"\n")).includes := by
  refine (listing_covers_run ?_ ?_ ?_).1.mpr ?_
  · decide +kernel
  · decide +kernel
  · decide +kernel
  · decide +kernel

/-- In skipped text a quote without another one behind it in its line leads the
listing past the end of the block, here past the include that the run carries
out. -/
theorem listing_misses_include :
    ((new (branching (bytes "\"\n")) [] .empty).process (branching (bytes "\"\n"))
      (bytes "main.xs")).1 = none ∧
    [bytes "w", bytes "main.xs"] ∈ ((new (branching (bytes "\"\n")) [] .empty).process
      (branching (bytes "\"\n")) (bytes "main.xs")).2.run.processed ∧
    (branching (bytes "\"\n")).content? [bytes "w", bytes "main.xs"] =
      some (bytes "#ifdef X\n\"\n#endif\n#include \"a.xs\"\n") ∧
    (new (branching (bytes "\"\n")) [] .empty).executed (branching (bytes "\"\n"))
      (bytes "main.xs") [bytes "w", bytes "main.xs"] = [⟨bytes "a.xs", ⟨27, 4, 10⟩⟩] ∧
    (Listing.ofText (bytes "#ifdef X\n\"\n#endif\n#include \"a.xs\"\n")).includes = [] := by
  decide +kernel

end Session

end XsPrep
