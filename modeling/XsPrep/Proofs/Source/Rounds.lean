import XsPrep.Proofs.Source.Lines

/-!
# The rounds of a listing

A listing goes through its text in rounds.  Each round begins at some place,
inside a number of blocks, and `roundsFrom` lists them in order.  The includes of
a listing are what its rounds mention (`continueFrom_includes`), and it ends
without an error exactly if no round outside all blocks comes upon a flaw
(`continueFrom_error_eq_none_iff`).

A construct that the preprocessor reads is no obstacle for a listing.  From the
place of a construct the rounds go to the place behind it, without a flaw, and
they mention what the construct includes (`roundsFrom_of_read`).
-/

namespace XsPrep

namespace Listing

/-- The beginning of a round. -/
structure Round where
  /-- The number of blocks it is inside of. -/
  depth : Nat
  /-- Where it begins. -/
  reader : Reader
deriving DecidableEq, Repr

namespace Round

/-- Whether the round comes upon a flaw. -/
def isFlawed (round : Round) : Bool :=
  match look round.reader with
  | (.error _, _) => true
  | (.ok _, _) => false

/-- The include the round mentions. -/
def mention? (round : Round) : Option Mention :=
  match look round.reader with
  | (.ok (.mention m), _) => some m
  | _ => none

/-- The round behind this one.  A flaw outside all blocks has none behind it. -/
def next? (round : Round) : Option Round :=
  match look round.reader with
  | (.error _, _) =>
    if round.depth = 0 then none else some ⟨round.depth, round.reader.skipLine⟩
  | (.ok sight, behind) => some ⟨sight.depth round.depth, behind⟩

theorem next?_shorter {round next : Round} (hrest : round.reader.rest ≠ [])
    (h : round.next? = some next) :
    next.reader.rest.length < round.reader.rest.length := by
  have hlook := look_shorter hrest
  unfold next? at h
  split at h
  · split at h
    · cases h
    · cases h
      exact Reader.length_skipLine_lt hrest
  · rename_i sight behind heq
    cases h
    rw [heq] at hlook
    exact hlook

theorem leadsTo_next? {round next : Round} (h : round.next? = some next) :
    round.reader.LeadsTo next.reader := by
  have hlook := leadsTo_look round.reader
  unfold next? at h
  split at h
  · split at h
    · cases h
    · cases h
      exact Reader.leadsTo_skipLine _
  · rename_i sight behind heq
    cases h
    rw [heq] at hlook
    exact hlook

end Round

set_option linter.unusedVariables false in
/-- The rounds from one on. -/
def roundsFrom (round : Round) : List Round :=
  if hrest : round.reader.rest = [] then []
  else
    round ::
      match h : round.next? with
      | none => []
      | some next => roundsFrom next
termination_by round.reader.rest.length
decreasing_by exact Round.next?_shorter hrest h

/-- The rounds of the listing of a text. -/
def rounds (t : Text) : List Round := roundsFrom ⟨0, .ofText t⟩

/-! ## Equations -/

theorem roundsFrom_of_end {round : Round} (h : round.reader.rest = []) : roundsFrom round = [] := by
  rw [roundsFrom, dif_pos h]

theorem roundsFrom_of_next {round next : Round} (hrest : round.reader.rest ≠ [])
    (h : round.next? = some next) : roundsFrom round = round :: roundsFrom next := by
  rw [roundsFrom, dif_neg hrest]
  split
  · rename_i heq
    rw [h] at heq
    cases heq
  · rename_i next' heq
    rw [h] at heq
    cases heq
    rfl

theorem roundsFrom_of_stop {round : Round} (hrest : round.reader.rest ≠ [])
    (h : round.next? = none) : roundsFrom round = [round] := by
  rw [roundsFrom, dif_neg hrest]
  split
  · rfl
  · rename_i next heq
    rw [h] at heq
    cases heq

/-- Induction over the rounds from one on. -/
theorem Round.induction {motive : Round → Prop}
    (atEnd : ∀ round, round.reader.rest = [] → motive round)
    (stop : ∀ round, round.reader.rest ≠ [] → round.next? = none → motive round)
    (next : ∀ round next, round.reader.rest ≠ [] → round.next? = some next → motive next →
      motive round) (round : Round) : motive round := by
  induction hn : round.reader.rest.length using Nat.strongRecOn generalizing round with
  | _ n ih =>
    by_cases hrest : round.reader.rest = []
    · exact atEnd round hrest
    · cases hnext : round.next? with
      | none => exact stop round hrest hnext
      | some behind =>
        have hlt := Round.next?_shorter hrest hnext
        exact next round behind hrest hnext (ih _ (hn ▸ hlt) behind rfl)

/-- A listing from a reader on follows the rounds from there on. -/
theorem continueFrom_of_next {depth : Nat} {found : List Mention} {r : Reader} {next : Round}
    (hrest : r.rest ≠ []) (h : Round.next? ⟨depth, r⟩ = some next) :
    continueFrom depth found r =
      continueFrom next.depth ((Round.mention? ⟨depth, r⟩).toList ++ found) next.reader := by
  rw [continueFrom, dif_neg hrest]
  unfold Round.next? at h
  unfold Round.mention?
  dsimp only at h ⊢
  split
  · rename_i e behind heq
    rw [heq] at h ⊢
    dsimp only at h
    split at h
    · cases h
    · rename_i hdepth
      cases h
      rw [if_neg hdepth]
      rfl
  · rename_i sight behind heq
    rw [heq] at h ⊢
    cases h
    cases sight <;> rfl

theorem continueFrom_of_stop {depth : Nat} (found : List Mention) {r : Reader}
    (hrest : r.rest ≠ []) (h : Round.next? ⟨depth, r⟩ = none) :
    (continueFrom depth found r).includes = found.reverse ∧
      (continueFrom depth found r).error ≠ none ∧
      depth = 0 ∧ Round.isFlawed ⟨depth, r⟩ = true ∧ Round.mention? ⟨depth, r⟩ = none := by
  rw [continueFrom, dif_neg hrest]
  unfold Round.next? at h
  unfold Round.isFlawed Round.mention?
  dsimp only at h ⊢
  split
  · rename_i e behind heq
    rw [heq] at h ⊢
    dsimp only at h
    split at h
    · rename_i hdepth
      rw [if_pos hdepth]
      exact ⟨rfl, Option.some_ne_none e, hdepth, rfl, rfl⟩
    · cases h
  · rename_i sight behind heq
    rw [heq] at h
    cases h

theorem isFlawed_eq_false_of_next {depth : Nat} {r : Reader} {next : Round}
    (h : Round.next? ⟨depth, r⟩ = some next) (hdepth : depth = 0) :
    Round.isFlawed ⟨depth, r⟩ = false := by
  unfold Round.next? at h
  unfold Round.isFlawed
  split at h
  · rw [if_pos hdepth] at h
    cases h
  · rfl

/-- The includes of a listing are what its rounds mention. -/
theorem continueFrom_includes (depth : Nat) (found : List Mention) (r : Reader) :
    (continueFrom depth found r).includes =
      found.reverse ++ (roundsFrom ⟨depth, r⟩).filterMap Round.mention? := by
  induction hround : (⟨depth, r⟩ : Round) using Round.induction generalizing depth found r with
  | atEnd round hrest =>
    subst hround
    rw [roundsFrom_of_end hrest, continueFrom, dif_pos hrest]
    simp
  | stop round hrest hnext =>
    subst hround
    obtain ⟨hincludes, -, -, -, hmention⟩ := continueFrom_of_stop found hrest hnext
    rw [roundsFrom_of_stop hrest hnext, hincludes]
    simp [hmention]
  | next round next hrest hnext ih =>
    subst hround
    rw [continueFrom_of_next hrest hnext, ih _ _ _ rfl, roundsFrom_of_next hrest hnext]
    rw [List.filterMap_cons]
    cases Round.mention? ⟨depth, r⟩ <;> simp

/-- A listing ends without an error exactly if no round outside all blocks comes
upon a flaw. -/
theorem continueFrom_error_eq_none_iff (depth : Nat) (found : List Mention) (r : Reader) :
    (continueFrom depth found r).error = none ↔
      ∀ round ∈ roundsFrom ⟨depth, r⟩, round.depth = 0 → round.isFlawed = false := by
  induction hround : (⟨depth, r⟩ : Round) using Round.induction generalizing depth found r with
  | atEnd round hrest =>
    subst hround
    rw [roundsFrom_of_end hrest, continueFrom, dif_pos hrest]
    simp
  | stop round hrest hnext =>
    subst hround
    obtain ⟨-, herror, hdepth, hflawed, -⟩ := continueFrom_of_stop found hrest hnext
    rw [roundsFrom_of_stop hrest hnext]
    refine iff_of_false herror ?_
    intro hall
    have hfalse := hall _ (List.mem_singleton_self _) hdepth
    rw [hflawed] at hfalse
    cases hfalse
  | next round next hrest hnext ih =>
    subst hround
    rw [continueFrom_of_next hrest hnext, ih _ _ _ rfl, roundsFrom_of_next hrest hnext,
      List.forall_mem_cons]
    exact ⟨fun hall => ⟨isFlawed_eq_false_of_next hnext, hall⟩, And.right⟩

theorem includes_ofText (t : Text) :
    (ofText t).includes = (rounds t).filterMap Round.mention? :=
  continueFrom_includes 0 [] (.ofText t)

theorem error_ofText_eq_none_iff (t : Text) :
    (ofText t).error = none ↔ ∀ round ∈ rounds t, round.depth = 0 → round.isFlawed = false :=
  continueFrom_error_eq_none_iff 0 [] (.ofText t)

/-! ## Order -/

theorem leadsTo_of_mem {round later : Round} (h : later ∈ roundsFrom round) :
    round.reader.LeadsTo later.reader := by
  induction round using Round.induction with
  | atEnd round hrest =>
    rw [roundsFrom_of_end hrest] at h
    cases h
  | stop round hrest hnext =>
    rw [roundsFrom_of_stop hrest hnext, List.mem_singleton] at h
    rw [h]
    exact .refl _
  | next round next hrest hnext ih =>
    rw [roundsFrom_of_next hrest hnext] at h
    rcases List.mem_cons.mp h with rfl | h
    · exact .refl _
    · exact (Round.leadsTo_next? hnext).trans (ih h)

/-- Rounds go forward. -/
theorem roundsFrom_pairwise (round : Round) :
    (roundsFrom round).Pairwise fun a b => b.reader.rest.length < a.reader.rest.length := by
  induction round using Round.induction with
  | atEnd round hrest =>
    rw [roundsFrom_of_end hrest]
    exact .nil
  | stop round hrest hnext =>
    rw [roundsFrom_of_stop hrest hnext]
    exact List.pairwise_singleton _ _
  | next round next hrest hnext ih =>
    rw [roundsFrom_of_next hrest hnext]
    refine .cons ?_ ih
    intro later hlater
    exact Nat.lt_of_le_of_lt (leadsTo_of_mem hlater).length_le (Round.next?_shorter hrest hnext)

end Listing

/-! ## Constructs and rounds -/

/-- The include that a construct carries out. -/
def Construct.mention? : Construct → Option Mention
  | .includeFile name position => some ⟨name, position⟩
  | _ => none

/-- The include that a round comes upon. -/
def Listing.Sight.mention? : Listing.Sight → Option Mention
  | .mention m => some m
  | _ => none

namespace Listing

theorem look_of_hash {r : Reader} (h : r.sees Code.hash = true) : look r = lookDirective r := by
  have hcode : r.rest.head?.map Character.code = some Code.hash := by
    simpa [Reader.sees, Reader.peek?] using h
  have hquote : r.sees Code.quote = false := by
    simp [Reader.sees, Reader.peek?, hcode]
  have hpair : ∀ b, r.seesPair Code.slash b = false := by
    intro b
    unfold Reader.seesPair
    split
    · rename_i c d rest hrest
      rw [hrest] at hcode
      have hc : c.code = Code.hash := Option.some.inj hcode
      rw [hc]
      rfl
    · rfl
  unfold look
  rw [hquote, hpair, hpair, h]
  rfl

/-- The directives that the preprocessor carries out take their lines in a
listing too. -/
theorem lookDirective_of_read {r r' : Reader} {c : Construct}
    (h : Construct.readDirective r = .ok (c, r')) :
    ∃ sight, lookDirective r = (.ok sight, r') ∧ sight.mention? = c.mention? := by
  unfold Construct.readDirective at h
  unfold lookDirective
  dsimp only at h ⊢
  cases hkeyword : Directive.ofKeyword? r.readKeyword.1 with
  | none =>
    rw [hkeyword] at h
    cases h
  | some directive =>
    rw [hkeyword] at h
    cases directive with
    | includeFile =>
      unfold Construct.readInclude at h
      dsimp only at h ⊢
      cases hliteral : r.readKeyword.2.skipBlanks.readLiteral with
      | mk result behind =>
        rw [hliteral] at h
        cases result with
        | error e => cases h
        | ok literal =>
          dsimp only at h ⊢
          split at h
          · cases h
          · rename_i hvalue
            cases h
            rw [if_neg hvalue]
            exact ⟨_, rfl, rfl⟩
    | define =>
      obtain ⟨⟨name, value, rfl⟩, rfl⟩ := Construct.readDefine_eq_ok h
      exact ⟨.nothing, rfl, rfl⟩
    | undefine =>
      rw [Construct.readUndefine_eq] at h
      cases h
      exact ⟨.nothing, rfl, rfl⟩
    | ifDefined =>
      obtain ⟨⟨name, rfl⟩, rfl⟩ := Construct.readOpening_eq_ok h
      exact ⟨.opening, rfl, rfl⟩
    | endIf =>
      cases h
      exact ⟨.closing, rfl, rfl⟩

/-- Expansions apart, a construct is what one round goes over. -/
theorem look_of_read {r r' : Reader} {c : Construct} (h : Construct.read r = .ok (c, r'))
    (hno : ¬(r.sees Code.hash = false ∧ r.sees Code.atSign = true)) :
    ∃ sight, look r = (.ok sight, r') ∧ sight.mention? = c.mention? := by
  cases Construct.origin_of_read h with
  | directive hhash hread =>
    rw [look_of_hash hhash]
    exact lookDirective_of_read hread
  | expansion hhash hat _ => exact absurd ⟨hhash, hat⟩ hno
  | literal hhash hat hquote hread =>
    rw [look, hquote, hread]
    exact ⟨.nothing, rfl, rfl⟩
  | lineComment hhash hat hquote hline =>
    rw [look, hquote, hline]
    exact ⟨.nothing, rfl, rfl⟩
  | blockComment hhash hat hquote hline hblock hread =>
    rw [look, hquote, hline, hblock, hread]
    exact ⟨.nothing, rfl, rfl⟩
  | character hhash hat hquote hline hblock =>
    rw [look, hquote, hline, hblock, hhash]
    exact ⟨.nothing, rfl, rfl⟩

theorem next?_of_look {r r' : Reader} {sight : Sight} (h : look r = (.ok sight, r'))
    (depth : Nat) :
    Round.next? ⟨depth, r⟩ = some ⟨sight.depth depth, r'⟩ ∧
      Round.isFlawed ⟨depth, r⟩ = false ∧ Round.mention? ⟨depth, r⟩ = sight.mention? := by
  unfold Round.next? Round.isFlawed Round.mention?
  dsimp only
  rw [h]
  refine ⟨rfl, rfl, ?_⟩
  cases sight <;> rfl

/-! ### Expansions -/

/-- A character that a round goes over by itself. -/
def IsPlain (c : Character) : Prop :=
  c.code ≠ Code.quote ∧ c.code ≠ Code.hash ∧ c.code ≠ Code.slash

theorem isPlain_of_identifier {c : Character} (h : c.isIdentifier = true) : IsPlain c := by
  have hquote : Code.isIdentifier Code.quote = false := by decide
  have hhash : Code.isIdentifier Code.hash = false := by decide
  have hslash : Code.isIdentifier Code.slash = false := by decide
  rw [Character.isIdentifier] at h
  refine ⟨?_, ?_, ?_⟩ <;> intro hcode <;> rw [hcode] at h
  · rw [hquote] at h; cases h
  · rw [hhash] at h; cases h
  · rw [hslash] at h; cases h

theorem isPlain_of_atSign {c : Character} (h : c.code = Code.atSign) : IsPlain c := by
  rw [IsPlain, h]
  decide

theorem look_of_plain {r : Reader} {c : Character} {cs : List Character} (hrest : r.rest = c :: cs)
    (hc : IsPlain c) : look r = (.ok .nothing, r.skip 1) := by
  obtain ⟨hquote, hhash, hslash⟩ := hc
  have hsees : ∀ code, c.code ≠ code → r.sees code = false := by
    intro code hcode
    simp [Reader.sees, Reader.peek?, hrest, hcode]
  have hpair : ∀ b, r.seesPair Code.slash b = false := by
    intro b
    unfold Reader.seesPair
    rw [hrest]
    split
    · rename_i first second rest heq
      cases heq
      simp [hslash]
    · rfl
  unfold look
  rw [hsees _ hquote, hpair, hpair, hsees _ hhash]
  rfl

/-- Rounds go over plain characters one by one. -/
theorem roundsFrom_of_plain {r r' : Reader} {cs : List Character} (depth : Nat)
    (h : r.Reads cs r') (hplain : ∀ c ∈ cs, IsPlain c) :
    ∃ passed, roundsFrom ⟨depth, r⟩ = passed ++ roundsFrom ⟨depth, r'⟩ ∧
      (∀ round ∈ passed, round.isFlawed = false) ∧ passed.filterMap Round.mention? = [] := by
  induction cs generalizing r with
  | nil =>
    obtain ⟨-, rfl⟩ := h.unique (.refl r) (by rw [h.rest_eq]; rfl)
    exact ⟨[], rfl, (fun _ hround => nomatch hround), rfl⟩
  | cons c cs ih =>
    have hrest : r.rest = c :: (cs ++ r'.rest) := h.rest_eq
    have hlook := look_of_plain hrest (hplain c List.mem_cons_self)
    obtain ⟨hnext, hflawed, hmention⟩ := next?_of_look hlook depth
    have hbehind : (r.skip 1).Reads cs r' := by
      constructor
      · rw [Reader.skip_rest, hrest]
        rfl
      · rw [h.position_eq, Reader.skip, hrest]
        rfl
    obtain ⟨passed, hpassed, hflaws, hmentions⟩ :=
      ih hbehind fun d hd => hplain d (List.mem_cons_of_mem c hd)
    refine ⟨⟨depth, r⟩ :: passed, ?_, List.forall_mem_cons.mpr ⟨hflawed, hflaws⟩, ?_⟩
    · rw [roundsFrom_of_next (by rw [hrest]; exact List.cons_ne_nil _ _) hnext]
      exact congrArg _ hpassed
    · rw [List.filterMap_cons, hmention]
      exact hmentions

/-- Rounds go over an expansion and come upon nothing in it. -/
theorem roundsFrom_of_expansion {r r' : Reader} {c : Construct} (depth : Nat)
    (hat : r.sees Code.atSign = true) (h : Construct.readExpansion r = .ok (c, r')) :
    ∃ passed, roundsFrom ⟨depth, r⟩ = passed ++ roundsFrom ⟨depth, r'⟩ ∧
      (∀ round ∈ passed, round.isFlawed = false) ∧
      passed.filterMap Round.mention? = c.mention?.toList := by
  obtain ⟨⟨name, rfl⟩, cs, hreads, hcs⟩ := Construct.readExpansion_eq_ok hat h
  refine roundsFrom_of_plain depth hreads ?_
  intro d hd
  exact (hcs d hd).elim isPlain_of_atSign isPlain_of_identifier

/-- A round that begins at a construct comes upon no flaw. -/
theorem isFlawed_of_read {r r' : Reader} {c : Construct} (depth : Nat)
    (h : Construct.read r = .ok (c, r')) : Round.isFlawed ⟨depth, r⟩ = false := by
  by_cases hat : r.sees Code.hash = false ∧ r.sees Code.atSign = true
  · obtain ⟨first, rest, hr, hfirst⟩ := Reader.rest_of_sees hat.2
    exact (next?_of_look (look_of_plain hr (isPlain_of_atSign hfirst)) depth).2.1
  · obtain ⟨sight, hlook, -⟩ := look_of_read h hat
    exact (next?_of_look hlook depth).2.1

/-- From a construct the rounds go on behind it.  They come upon no flaw and
mention what the construct includes. -/
theorem roundsFrom_of_read {r r' : Reader} {c : Construct} (depth : Nat) (hrest : r.rest ≠ [])
    (h : Construct.read r = .ok (c, r')) :
    ∃ passed depth', roundsFrom ⟨depth, r⟩ = passed ++ roundsFrom ⟨depth', r'⟩ ∧
      (∀ round ∈ passed, round.isFlawed = false) ∧
      passed.filterMap Round.mention? = c.mention?.toList := by
  by_cases hat : r.sees Code.hash = false ∧ r.sees Code.atSign = true
  · -- An expansion takes several rounds.
    have hread : Construct.read r = Construct.readExpansion r := by
      rw [Construct.read, hat.1, hat.2]
      rfl
    rw [hread] at h
    obtain ⟨passed, hpassed⟩ := roundsFrom_of_expansion depth hat.2 h
    exact ⟨passed, depth, hpassed⟩
  · obtain ⟨sight, hlook, hsight⟩ := look_of_read h hat
    obtain ⟨hnext, hflawed, hmention⟩ := next?_of_look hlook depth
    refine ⟨[⟨depth, r⟩], sight.depth depth, roundsFrom_of_next hrest hnext, ?_, ?_⟩
    · simpa using hflawed
    · rw [List.filterMap_cons, hmention, hsight]
      cases c.mention? <;> rfl

end Listing

end XsPrep
