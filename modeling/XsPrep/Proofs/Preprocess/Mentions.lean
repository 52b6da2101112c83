import Mathlib.Data.List.Chain
import XsPrep.Proofs.Preprocess.Coverage
import XsPrep.Proofs.Source.Positions

/-!
# The course of a listing

After a flaw inside a block a listing goes back to where the round began and gives up
that line only, so text that was read as part of an open literal or comment is read again.
The place where a round began is what the listing cannot fall behind: wherever a round
ends, it is strictly behind its beginning (`Round.finish_shorter`).  So the rounds come to
an end, and the includes they mention come in the order of the text.

An include is mentioned at the quote that opens its name (`Mention.StandsIn`), and the
round goes on behind the name.  That is why no name is mentioned twice
(`Round.precedes_of_mention?`).
-/

namespace XsPrep

/-! ## The order of positions -/

/-- The position is before the other, by offset as well as by line and column. -/
structure Position.Precedes (p q : Position) : Prop where
  offset_lt : p.offset < q.offset
  line_column : p.line < q.line ∨ p.line = q.line ∧ p.column < q.column

namespace Position

theorem Precedes.trans {p q s : Position} (h₁ : p.Precedes q) (h₂ : q.Precedes s) :
    p.Precedes s := by
  obtain ⟨hoffset₁, hplace₁⟩ := h₁
  obtain ⟨hoffset₂, hplace₂⟩ := h₂
  constructor <;> omega

theorem precedes_after (p : Position) {c : Character} (h : c.bytes ≠ []) :
    p.Precedes (p.after c) := by
  have hpos := List.length_pos_iff.mpr h
  unfold after
  split
  · exact ⟨Nat.lt_add_of_pos_right hpos, .inl (Nat.lt_succ_self _)⟩
  · exact ⟨Nat.lt_add_of_pos_right hpos, .inr ⟨rfl, Nat.lt_succ_self _⟩⟩

theorem precedes_foldl_after (p : Position) (c : Character) {cs : List Character}
    (h : ∀ d ∈ c :: cs, d.bytes ≠ []) : p.Precedes ((c :: cs).foldl after p) := by
  induction cs generalizing p c with
  | nil => exact p.precedes_after (h c List.mem_cons_self)
  | cons d cs ih =>
    obtain ⟨hc, hcs⟩ := List.forall_mem_cons.mp h
    exact (p.precedes_after hc).trans (ih (p.after c) d hcs)

end Position

/-- In a text, reading something moves the position forward. -/
theorem Reader.LeadsTo.precedes {t : Text} {r r' : Reader} (hin : (ofText t).LeadsTo r)
    (h : r.LeadsTo r') (hlt : r'.rest.length < r.rest.length) :
    r.position.Precedes r'.position := by
  obtain ⟨cs, hreads⟩ := h
  obtain ⟨c, cs, rfl⟩ := List.exists_cons_of_ne_nil (hreads.ne_nil_of_shorter hlt)
  rw [hreads.position_eq]
  refine r.position.precedes_foldl_after c ?_
  intro d hd
  have hmem : d ∈ r.rest := hreads.rest_eq ▸ List.mem_append_left _ hd
  exact (hin.spelled d hmem).bytes_ne_nil

/-! ## Where a name stands -/

/-- The characters are a `#` and the keyword of the directive, each with any number of
blanks behind it. -/
def Directive.Leads (directive : Directive) (lead : List Character) : Prop :=
  ∃ hash blanks keyword gap, lead = hash :: (blanks ++ keyword ++ gap) ∧
    hash.code = Code.hash ∧ (∀ c ∈ blanks, c.isBlank = true) ∧
    Text.ofCharacters keyword = directive.keyword ∧ ∀ c ∈ gap, c.isBlank = true

/-- The text includes the file there.  The position is that of the quote that opens a
literal, the name is the value of the literal, and before the quote stand a `#`, blanks,
the keyword and blanks. -/
structure Mention.StandsIn (t : Text) (m : Mention) : Prop where
  named : m.name ≠ []
  parts : ∃ front lead opening body closing behind,
    t.characters = front ++ lead ++ opening :: (body ++ closing :: behind) ∧
    Directive.includeFile.Leads lead ∧
    opening.code = Code.quote ∧ Literal.Body body ∧ closing.code = Code.quote ∧
    m.name = Literal.valueFrom [] body ∧
    m.position.Before t (front ++ lead).length

theorem Directive.eq_keyword_of_ofKeyword? {keyword : Text} {directive : Directive}
    (h : ofKeyword? keyword = some directive) : keyword = directive.keyword := by
  have hfound := List.find?_some h
  simpa using Eq.symm (beq_iff_eq.mp hfound)

/-- From a `#` to the operand of a directive. -/
theorem Reader.reads_lead {r : Reader} {directive : Directive} (hhash : r.sees Code.hash = true)
    (hkeyword : Directive.ofKeyword? r.readKeyword.1 = some directive) :
    ∃ lead, directive.Leads lead ∧ r.Reads lead r.operand := by
  obtain ⟨hash, rest, hrest, hcode⟩ := rest_of_sees hhash
  have hskip := reads_skip 1 r
  rw [hrest, List.take_succ_cons, List.take_zero] at hskip
  have hblanks := reads_skipWhile Character.isBlank (r.skip 1)
  have hname := reads_skipWhile Character.isIdentifier (r.skip 1).skipBlanks
  have hgap := reads_skipWhile Character.isBlank r.readKeyword.2
  refine ⟨_, ⟨hash, _, _, _, rfl, hcode, ?_, ?_, ?_⟩,
    ((hskip.trans hblanks).trans hname).trans hgap⟩
  · exact fun c hc => List.mem_takeWhile_imp hc
  · exact Directive.eq_keyword_of_ofKeyword? hkeyword
  · exact fun c hc => List.mem_takeWhile_imp hc

/-- What is read as a literal is a closed one. -/
theorem Reader.closed_of_readLiteral {r r' : Reader} {literal : Literal}
    (h : r.readLiteral = (.ok literal, r')) :
    ∃ opening body closing, opening.code = Code.quote ∧ Literal.Body body ∧
      closing.code = Code.quote ∧ literal.value = Literal.valueFrom [] body ∧
      r.Reads (opening :: (body ++ [closing])) r' := by
  cases hquote : r.sees Code.quote with
  | false =>
    rw [readLiteral, hquote] at h
    cases h
  | true =>
    obtain ⟨opening, rest, hrest, hopening⟩ := rest_of_sees hquote
    rcases Literal.closed_or_unclosed [] rest with
      ⟨body, closing, behind, hbody, hclosing, rfl⟩ | hunclosed
    · obtain ⟨hread, hbehind⟩ := readLiteral_closed hopening hbody hclosing hrest
      rw [hread] at h
      cases h
      refine ⟨opening, body, closing, hopening, hbody, hclosing, rfl, ?_⟩
      have hreads := reads_skip (body.length + 2) r
      have hsplit : r.rest = (opening :: (body ++ [closing])) ++ behind := by simp [hrest]
      rwa [hsplit, List.take_left' (by simp)] at hreads
    · rw [readLiteral_unclosed hopening hunclosed hrest] at h
      cases h

theorem Mention.StandsIn.quote {t : Text} {m : Mention} (h : m.StandsIn t) :
    (t.drop m.position.offset).head? = some 0x22 := by
  obtain ⟨-, front, lead, opening, body, closing, behind, ht, -, hopening, -, -, -, hbefore⟩ := h
  have hoffset := hbefore.offset_eq
  rw [ht, List.take_left] at hoffset
  have htext := Text.ofCharacters_characters t
  rw [ht, Text.ofCharacters_append] at htext
  have hspelled : ∀ c ∈ opening :: (body ++ closing :: behind), c.Spelled := by
    intro c hc
    exact Text.spelled_of_mem (ht ▸ List.mem_append_right _ hc)
  rw [← htext, hoffset, List.drop_left, Text.head?_ofCharacters hspelled (by decide)]
  simpa using hopening

namespace Listing

namespace Round

/-! ## Where a round ends -/

/-- Where a round ends.  A flaw inside a block gives up the line where the round began, and
a flaw outside all blocks ends the listing where it was noticed. -/
def finish (round : Round) : Reader :=
  match look round.reader with
  | (.error _, behind) => if round.depth = 0 then behind else round.reader.skipLine
  | (.ok _, behind) => behind

theorem finish_of_next? {round next : Round} (h : round.next? = some next) :
    round.finish = next.reader := by
  rw [next?] at h
  rw [finish]
  cases hlook : look round.reader with
  | mk result behind =>
    rw [hlook] at h
    cases result with
    | ok sight =>
      cases h
      rfl
    | error e =>
      dsimp only at h ⊢
      split at h
      · cases h
      · rename_i hdepth
        cases h
        exact if_neg hdepth

/-- The listing ends at a flaw outside all blocks only. -/
theorem next?_eq_none_iff (round : Round) :
    round.next? = none ↔ round.depth = 0 ∧ round.isFlawed = true := by
  unfold next? isFlawed
  split
  · by_cases hdepth : round.depth = 0 <;> simp [hdepth]
  · simp

theorem leadsTo_finish (round : Round) : round.reader.LeadsTo round.finish := by
  have hlook := leadsTo_look round.reader
  unfold finish
  split
  · rename_i heq
    rw [heq] at hlook
    split
    · exact hlook
    · exact Reader.leadsTo_skipLine _
  · rename_i heq
    rw [heq] at hlook
    exact hlook

/-- However a round ends, it leaves less to read than where it began. -/
theorem finish_shorter {round : Round} (h : round.reader.rest ≠ []) :
    round.finish.rest.length < round.reader.rest.length := by
  have hlook := look_shorter h
  unfold finish
  split
  · rename_i heq
    rw [heq] at hlook
    split
    · exact hlook
    · exact Reader.length_skipLine_lt h
  · rename_i heq
    rw [heq] at hlook
    exact hlook

/-! ## What a round mentions -/

/-- A round that mentions an include has read its name, and the next one begins behind the
line of the name. -/
theorem literal_of_mention? {round : Round} {m : Mention} (h : round.mention? = some m) :
    ∃ literal behind,
      Directive.ofKeyword? round.reader.readKeyword.1 = some .includeFile ∧
      round.reader.operand.readLiteral = (.ok literal, behind) ∧
      literal.value ≠ [] ∧ m.name = literal.value ∧ round.finish = behind.skipLine := by
  obtain ⟨hhash, -⟩ := place_of_mention? h
  unfold mention? at h
  unfold finish
  split at h
  · rename_i m' behind heq
    cases h
    rw [heq]
    rw [look_of_hash hhash, lookDirective] at heq
    dsimp only at heq
    split at heq
    · cases heq
    · cases heq
    · rename_i hkeyword
      split at heq
      · cases heq
      · rename_i literal behind' hliteral
        split at heq
        · cases heq
        · rename_i hvalue
          cases heq
          exact ⟨literal, behind', hkeyword, hliteral, by simpa using hvalue, rfl, rfl⟩
    · cases heq
  · cases h

theorem standsIn_of_mention? {t : Text} {round : Round} {m : Mention}
    (hin : (Reader.ofText t).LeadsTo round.reader) (h : round.mention? = some m) :
    m.StandsIn t := by
  obtain ⟨hhash, hposition⟩ := place_of_mention? h
  obtain ⟨literal, behind, hkeyword, hliteral, hvalue, hname, -⟩ := literal_of_mention? h
  obtain ⟨front, hfront⟩ := hin
  obtain ⟨lead, hlead, hreads⟩ := Reader.reads_lead hhash hkeyword
  obtain ⟨opening, body, closing, hopening, hbody, hclosing, hbodyValue, hbehind⟩ :=
    Reader.closed_of_readLiteral hliteral
  have hall := hfront.trans hreads
  refine ⟨hname ▸ hvalue, front, lead, opening, body, closing, behind.rest, ?_, hlead, hopening,
    hbody, hclosing, hname.trans hbodyValue, ?_⟩
  · have hcharacters : t.characters = front ++ lead ++ round.reader.operand.rest := hall.rest_eq
    rw [hcharacters, hbehind.rest_eq]
    simp
  · rw [hposition]
    exact hall.before

/-- What a round mentions stands strictly between where it begins and where it ends. -/
theorem precedes_of_mention? {t : Text} {round : Round} {m : Mention}
    (hin : (Reader.ofText t).LeadsTo round.reader) (h : round.mention? = some m) :
    round.reader.position.Precedes m.position ∧ m.position.Precedes round.finish.position := by
  obtain ⟨hhash, hposition⟩ := place_of_mention? h
  obtain ⟨literal, behind, -, hliteral, -, -, hfinish⟩ := literal_of_mention? h
  obtain ⟨c, cs, -, -, hlead⟩ := Reader.reads_operand hhash
  obtain ⟨opening, body, closing, -, -, -, -, hname⟩ := Reader.closed_of_readLiteral hliteral
  have hline := Reader.leadsTo_skipLine behind
  have hbehind : round.reader.operand.LeadsTo behind := ⟨_, hname⟩
  rw [hposition, hfinish]
  constructor
  · refine hin.precedes ⟨_, hlead⟩ ?_
    rw [hlead.length_eq, List.length_cons]
    omega
  · refine (hin.trans ⟨_, hlead⟩).precedes (hbehind.trans hline) ?_
    have hle := hline.length_le
    rw [hname.length_eq, List.length_cons]
    omega

end Round

/-! ## The rounds of a text -/

/-- The rounds are a whole course of the loop over a text: they begin at its beginning, each
goes on where the one before ended, and the last one reaches the end of the text or has
none behind it. -/
structure Course (t : Text) (rounds : List Round) : Prop where
  begins : rounds.head? = if t = [] then none else some ⟨0, .ofText t⟩
  follows : rounds.IsChain fun round next =>
    round.next? = some next ∧ next.reader = round.finish
  ends : ∀ last ∈ rounds.getLast?, last.next? = none ∨ last.finish.rest = []

theorem head?_roundsFrom {round : Round} (h : round.reader.rest ≠ []) :
    (roundsFrom round).head? = some round := by
  rw [roundsFrom, dif_neg h]
  rfl

theorem roundsFrom_isChain (round : Round) :
    (roundsFrom round).IsChain fun round next =>
      round.next? = some next ∧ next.reader = round.finish := by
  induction round using Round.induction with
  | atEnd round hrest =>
    rw [roundsFrom_of_end hrest]
    exact .nil
  | stop round hrest hnext =>
    rw [roundsFrom_of_stop hrest hnext]
    exact .singleton round
  | next round next hrest hnext ih =>
    rw [roundsFrom_of_next hrest hnext]
    refine List.isChain_cons.mpr ⟨?_, ih⟩
    intro later hlater
    have hhead : later = next := by
      by_cases hend : next.reader.rest = []
      · rw [roundsFrom_of_end hend] at hlater
        cases hlater
      · rw [head?_roundsFrom hend] at hlater
        exact (Option.mem_some_iff.mp hlater).symm
    rw [hhead]
    exact ⟨hnext, (Round.finish_of_next? hnext).symm⟩

theorem roundsFrom_getLast? (round : Round) {last : Round}
    (h : last ∈ (roundsFrom round).getLast?) : last.next? = none ∨ last.finish.rest = [] := by
  induction round using Round.induction with
  | atEnd round hrest =>
    rw [roundsFrom_of_end hrest] at h
    cases h
  | stop round hrest hnext =>
    rw [roundsFrom_of_stop hrest hnext] at h
    cases h
    exact .inl hnext
  | next round next hrest hnext ih =>
    rw [roundsFrom_of_next hrest hnext] at h
    by_cases hend : next.reader.rest = []
    · rw [roundsFrom_of_end hend] at h
      have hlast : last = round := (Option.mem_some_iff.mp h).symm
      rw [hlast, Round.finish_of_next? hnext]
      exact .inr hend
    · obtain ⟨later, hlater⟩ := List.head?_eq_some_iff.mp (head?_roundsFrom hend)
      rw [hlater, List.getLast?_cons_cons, ← hlater] at h
      exact ih h

theorem length_roundsFrom_le (round : Round) :
    (roundsFrom round).length ≤ round.reader.rest.length := by
  induction round using Round.induction with
  | atEnd round hrest =>
    rw [roundsFrom_of_end hrest]
    exact Nat.zero_le _
  | stop round hrest hnext =>
    rw [roundsFrom_of_stop hrest hnext]
    exact List.length_pos_iff.mpr hrest
  | next round next hrest hnext ih =>
    have hlt := Round.next?_shorter hrest hnext
    rw [roundsFrom_of_next hrest hnext, List.length_cons]
    omega

theorem rest_ne_nil_of_mem {round later : Round} (h : later ∈ roundsFrom round) :
    later.reader.rest ≠ [] := by
  induction round using Round.induction with
  | atEnd round hrest =>
    rw [roundsFrom_of_end hrest] at h
    cases h
  | stop round hrest hnext =>
    rw [roundsFrom_of_stop hrest hnext] at h
    rw [List.mem_singleton.mp h]
    exact hrest
  | next round next hrest hnext ih =>
    rw [roundsFrom_of_next hrest hnext] at h
    rcases List.mem_cons.mp h with rfl | h
    · exact hrest
    · exact ih h

/-- The includes of rounds come in the order of the text. -/
theorem mentions_pairwise {t : Text} {round : Round}
    (hin : (Reader.ofText t).LeadsTo round.reader) :
    ((roundsFrom round).filterMap Round.mention?).Pairwise fun m later =>
      m.position.Precedes later.position := by
  rw [List.pairwise_filterMap]
  induction round using Round.induction with
  | atEnd round hrest =>
    rw [roundsFrom_of_end hrest]
    exact .nil
  | stop round hrest hnext =>
    rw [roundsFrom_of_stop hrest hnext]
    exact List.pairwise_singleton _ _
  | next round next hrest hnext ih =>
    have hbehind := hin.trans (Round.leadsTo_next? hnext)
    rw [roundsFrom_of_next hrest hnext]
    refine .cons ?_ (ih hbehind)
    intro later hlater m hm m' hm'
    have hway := leadsTo_of_mem hlater
    have hbefore := (Round.precedes_of_mention? hin hm).2
    have hafter := (Round.precedes_of_mention? (hbehind.trans hway) hm').1
    rw [Round.finish_of_next? hnext] at hbefore
    -- The later round may begin right where this one ended.
    rcases Nat.eq_or_lt_of_le hway.length_le with heq | hlt
    · rw [hbehind.unique (hbehind.trans hway) heq.symm] at hbefore
      exact hbefore.trans hafter
    · exact (hbefore.trans (hbehind.precedes hway hlt)).trans hafter

/-- A listing comes to an end, goes forward with each round, and mentions each include once,
in the order of the text, where it stands. -/
theorem ofText_in_order (t : Text) :
    Course t (rounds t) ∧ (rounds t).length ≤ t.length ∧
      (∀ round ∈ rounds t,
        round.reader.position.offset < round.finish.position.offset ∧
          round.finish.position.offset ≤ t.length) ∧
      (ofText t).includes = (rounds t).filterMap Round.mention? ∧
      ((ofText t).error = none ↔ ∀ round ∈ rounds t, round.next? ≠ none) ∧
      ((ofText t).includes.Pairwise fun m later => m.position.Precedes later.position) ∧
      ∀ m ∈ (ofText t).includes,
        m.StandsIn t ∧ (t.drop m.position.offset).head? = some 0x22 := by
  have hplace : ∀ round ∈ rounds t, (Reader.ofText t).LeadsTo round.reader :=
    fun _ hround => leadsTo_of_mem hround
  refine ⟨⟨?_, roundsFrom_isChain _, fun _ hlast => roundsFrom_getLast? _ hlast⟩, ?_, ?_,
    includes_ofText t, ?_, ?_, ?_⟩
  · by_cases ht : t = []
    · rw [if_pos ht, rounds, roundsFrom_of_end]
      · rfl
      · rw [ht]
        exact Text.characters_nil
    · rw [if_neg ht, rounds, head?_roundsFrom]
      intro hnone
      have htext := Text.ofCharacters_characters t
      rw [show t.characters = [] from hnone] at htext
      exact ht htext.symm
  · exact (length_roundsFrom_le _).trans (Text.length_characters_le t)
  · intro round hround
    have hfinish := (hplace round hround).trans round.leadsTo_finish
    obtain ⟨n, hbefore⟩ := hfinish.trueIn
    refine ⟨?_, hbefore.within⟩
    exact (hplace round hround).offset_lt round.leadsTo_finish
      (Round.finish_shorter (rest_ne_nil_of_mem hround))
  · rw [error_ofText_eq_none_iff]
    refine forall₂_congr fun round hround => ?_
    rw [Ne, Round.next?_eq_none_iff, not_and, Bool.not_eq_true]
  · rw [includes_ofText]
    exact mentions_pairwise (.refl _)
  · intro m hm
    rw [includes_ofText] at hm
    obtain ⟨round, hround, hmention⟩ := List.mem_filterMap.mp hm
    have hstands := Round.standsIn_of_mention? (hplace round hround) hmention
    exact ⟨hstands, hstands.quote⟩

/-- The text behind an open comment is read again, and its include is mentioned once. -/
example : (ofText (bytes "#ifdef X\n/*\n#include \"a.xs\"\n")).includes =
    [⟨bytes "a.xs", ⟨21, 3, 10⟩⟩] := by decide +kernel

end Listing

end XsPrep
