import XsPrep.Proofs.Source.Positions
import XsPrep.Proofs.Preprocess.Emission

/-!
# A guarded scanner

A reader holds the characters that are left, so there is nothing it could do wrong.  A
scanner holds the whole text and a cursor, and it cuts pieces out of the text by their
offsets.  A piece that ends before it begins is a misuse, and so is a loop over the text
that comes to no end.

At the places of a text no operation is misused, and each does what the operation of the
same name does for a reader: the lemmas say what a scanner gives at a reader (`Scanner.ofReader`).
-/

namespace XsPrep

/-- What goes wrong where an operation does not have what it needs. -/
inductive Misuse where
  /-- The top, the bottom or the removal of the top of an empty stack. -/
  | emptyStack
  /-- An entry for a table that was not made. -/
  | missingTable
  /-- A piece of a text that ends before it begins, or behind the text. -/
  | badSlice
  /-- A directive that nothing is done for. -/
  | unhandledDirective
  /-- A loop that comes to no end. -/
  | endlessLoop
deriving DecidableEq, Repr

namespace Guarded

/-- The bytes of a text from one offset to another. -/
def slice (t : Text) (start stop : Nat) : Except Misuse Text :=
  if start ≤ stop ∧ stop ≤ t.length then .ok ((t.drop start).take (stop - start))
  else .error .badSlice

theorem slice_of_le {t : Text} {start stop : Nat} (hle : start ≤ stop) (hstop : stop ≤ t.length) :
    slice t start stop = .ok ((t.drop start).take (stop - start)) :=
  if_pos ⟨hle, hstop⟩

/-- All behind an offset. -/
theorem slice_rest {t : Text} {start : Nat} (h : start ≤ t.length) :
    slice t start t.length = .ok (t.drop start) := by
  rw [slice_of_le h (Nat.le_refl _), List.take_of_length_le (by rw [List.length_drop])]

/-- All before an offset. -/
theorem slice_front {t : Text} {stop : Nat} (h : stop ≤ t.length) :
    slice t 0 stop = .ok (t.take stop) := by
  rw [slice_of_le (Nat.zero_le _) h, List.drop_zero, Nat.sub_zero]

theorem ok_bind {α β : Type} (a : α) (f : α → Except Misuse β) : (Except.ok a >>= f) = f a := rfl

/-- A text and a place in it. -/
structure Scanner where
  /-- The whole text. -/
  text : Text
  /-- The position of the next character. -/
  cursor : Position
deriving DecidableEq, Repr

namespace Scanner

/-! ## Operations -/

/-- A scanner at the beginning of a text. -/
def ofText (t : Text) : Scanner := ⟨t, .start⟩

/-- Whether nothing is left. -/
def atEnd (s : Scanner) : Bool := s.text.length ≤ s.cursor.offset

/-- The bytes that are left. -/
def unread (s : Scanner) : Except Misuse Text := slice s.text s.cursor.offset s.text.length

/-- The bytes read since a position. -/
def since (s : Scanner) (start : Position) : Except Misuse Text :=
  slice s.text start.offset s.cursor.offset

/-- Whether what is left begins with some bytes. -/
def beginsWith (s : Scanner) (head : Text) : Except Misuse Bool := do
  let unread ← s.unread
  .ok (head.isPrefixOf unread)

/-- The next character. -/
def look (s : Scanner) : Except Misuse (Option Character) :=
  if s.atEnd then .ok none
  else do
    let unread ← s.unread
    .ok unread.characters.head?

/-- The next character, and the scanner behind it. -/
def next (s : Scanner) : Except Misuse (Option Character × Scanner) := do
  let c ← s.look
  match c with
  | none => .ok (none, s)
  | some c => .ok (some c, { s with cursor := s.cursor.after c })

/-- The scanner behind a text that stands at it.  The columns are counted in the bytes
behind the last line end. -/
def consume (s : Scanner) (t : Text) : Except Misuse Scanner := do
  let line ← slice t (t.reverse.dropWhile (· != Byte.newline)).length t.length
  match t.count Byte.newline with
  | 0 => .ok { s with cursor :=
      ⟨s.cursor.offset + t.length, s.cursor.line, s.cursor.column + line.characterCount⟩ }
  | lines + 1 => .ok { s with cursor :=
      ⟨s.cursor.offset + t.length, s.cursor.line + (lines + 1), 1 + line.characterCount⟩ }

/-- The scanner behind the characters with `p`, found in at most `rounds` rounds. -/
def skipWhile (p : Character → Bool) : (rounds : Nat) → Scanner → Except Misuse Scanner
  | 0, _ => .error .endlessLoop
  | rounds + 1, s => do
    let c ← s.look
    if c.any p then
      let s ← s.next
      skipWhile p rounds s.2
    else .ok s

/-- The scanner behind white space, at the end of the line at the latest. -/
def skipBlanks (s : Scanner) : Except Misuse Scanner :=
  skipWhile Character.isBlank (s.text.length + 1) s

/-- The longest identifier at the scanner. -/
def readIdentifier (s : Scanner) : Except Misuse (Text × Scanner) := do
  let behind ← skipWhile Character.isIdentifier (s.text.length + 1) s
  let name ← behind.since s.cursor
  .ok (name, behind)

/-- The scanner behind its line, line end included. -/
def skipLine (s : Scanner) : Except Misuse Scanner := do
  let unread ← s.unread
  let length := (unread.takeWhile (· != Byte.newline)).length
  if length < unread.length then
    let line ← slice unread 0 (length + 1)
    s.consume line
  else s.consume unread

/-- What is left of the line, without the line end. -/
def readLine (s : Scanner) : Except Misuse (Text × Scanner) := do
  let unread ← s.unread
  let line ← slice unread 0 (unread.takeWhile (· != Byte.newline)).length
  let behind ← s.consume line
  .ok (line, behind)

/-- The literal whose opening quote stands at `start`, read to its end in at most `rounds`
rounds.  `pieces` holds its value so far, newest first. -/
def literalFrom (start : Position) :
    (rounds : Nat) → (pieces : List Text) → Scanner →
      Except Misuse (Except SourceError Literal × Scanner)
  | 0, _, _ => .error .endlessLoop
  | rounds + 1, pieces, s =>
    if s.atEnd then .ok (.error ⟨start, .unterminatedLiteral⟩, s)
    else do
      let (c, behind) ← s.next
      if c.any (·.code == Code.quote) then
        let raw ← behind.since start
        .ok (.ok ⟨pieces.reverse.flatten, raw⟩, behind)
      else if c.any (·.code == Code.backslash) then
        if behind.atEnd then literalFrom start rounds pieces behind
        else do
          let (hidden, behind') ← behind.next
          let written ← behind'.since behind.cursor
          literalFrom start rounds ((hidden.map Literal.hiddenValue).getD written :: pieces) behind'
      else do
        let piece ← behind.since s.cursor
        literalFrom start rounds (piece :: pieces) behind

/-- The string literal at the scanner, and the scanner afterwards. -/
def readLiteral (s : Scanner) : Except Misuse (Except SourceError Literal × Scanner) := do
  let c ← s.look
  if c.any (·.code == Code.quote) then
    let (_, behind) ← s.next
    literalFrom s.cursor (s.text.length + 1) [] behind
  else .ok (.error ⟨s.cursor, .missingQuote⟩, s)

/-- Skips the block comment at the scanner. -/
def skipComment (s : Scanner) : Except Misuse (Except SourceError Unit × Scanner) := do
  let unread ← s.unread
  if Text.opening.isPrefixOf unread then
    let inner ← slice unread Text.opening.length unread.length
    match Text.find? Text.closing inner with
    | none =>
      let behind ← s.consume unread
      .ok (.error ⟨s.cursor, .unterminatedComment⟩, behind)
    | some n =>
      let comment ← slice unread 0 (Text.opening.length + n + Text.closing.length)
      let behind ← s.consume comment
      .ok (.ok (), behind)
  else .ok (.ok (), s)

/-! ## At the places of a text -/

/-- The scanner at a reader. -/
def ofReader (t : Text) (r : Reader) : Scanner := ⟨t, r.position⟩

variable {t : Text} {r r' : Reader}

theorem atEnd_ofReader (h : (Reader.ofText t).LeadsTo r) :
    (ofReader t r).atEnd = r.rest.isEmpty := by
  have hunread := h.ofCharacters_rest
  have hspelled := h.spelled
  rw [atEnd, Bool.eq_iff_iff, decide_eq_true_eq, ← List.drop_eq_nil_iff]
  show t.drop r.position.offset = [] ↔ _
  rw [← hunread]
  cases hrest : r.rest with
  | nil => simp [Text.ofCharacters]
  | cons c cs =>
    have hbytes := (hspelled c (by rw [hrest]; exact List.mem_cons_self)).bytes_ne_nil
    simp [Text.ofCharacters, hbytes]

theorem unread_ofReader (h : (Reader.ofText t).LeadsTo r) :
    (ofReader t r).unread = .ok (t.drop r.position.offset) := by
  obtain ⟨n, hbefore⟩ := h.trueIn
  exact slice_rest hbefore.within

theorem since_ofReader (h : (Reader.ofText t).LeadsTo r) {cs : List Character}
    (hreads : r.Reads cs r') :
    (ofReader t r').since r.position = .ok (Text.ofCharacters cs) := by
  obtain ⟨n, hbefore⟩ := (h.trans ⟨cs, hreads⟩).trueIn
  have hle : r.position.offset ≤ r'.position.offset := by
    rw [hreads.position_eq, Reader.offset_foldl_after]
    exact Nat.le_add_right _ _
  have hslice : slice t r.position.offset r'.position.offset = .ok (Text.ofCharacters cs) := by
    rw [slice_of_le hle hbefore.within, hreads.bytes_eq h]
  exact hslice

theorem look_ofReader (h : (Reader.ofText t).LeadsTo r) :
    (ofReader t r).look = .ok r.rest.head? := by
  rw [look, atEnd_ofReader h]
  split
  · rename_i hempty
    rw [List.isEmpty_iff.mp hempty]
    rfl
  · rw [unread_ofReader h, ok_bind, ← h.rest_eq_drop]

theorem next_ofReader (h : (Reader.ofText t).LeadsTo r) :
    (ofReader t r).next = .ok (r.rest.head?, ofReader t (r.skip 1)) := by
  rw [next, look_ofReader h, ok_bind]
  cases hrest : r.rest with
  | nil => simp [ofReader, Reader.skip, hrest]
  | cons c cs => simp [ofReader, Reader.skip, hrest]

theorem consume_eq (s : Scanner) (t : Text) :
    s.consume t = .ok { s with cursor := s.cursor.advance t } := by
  have hline : slice t (t.reverse.dropWhile (· != Byte.newline)).length t.length =
      .ok (Position.lastLine t) := by
    have hsplit : t = (t.reverse.dropWhile (· != Byte.newline)).reverse ++ Position.lastLine t := by
      rw [Position.lastLine, ← List.reverse_append, List.takeWhile_append_dropWhile,
        List.reverse_reverse]
    have hlength := congrArg List.length hsplit
    rw [List.length_append, List.length_reverse] at hlength
    rw [slice_rest (by omega)]
    refine congrArg Except.ok ?_
    nth_rewrite 2 [hsplit]
    rw [List.drop_left' (List.length_reverse ..)]
  rw [consume, hline, ok_bind, Position.advance]
  cases t.count Byte.newline with
  | zero => rfl
  | succ lines => rfl

theorem skipWhile_ofReader (p : Character → Bool) (h : (Reader.ofText t).LeadsTo r) {rounds : Nat}
    (hrounds : r.rest.length < rounds) :
    skipWhile p rounds (ofReader t r) = .ok (ofReader t (r.skipWhile p)) := by
  induction rounds generalizing r with
  | zero => omega
  | succ rounds ih =>
    rw [skipWhile, look_ofReader h, ok_bind]
    cases hrest : r.rest with
    | nil =>
      rw [Reader.skipWhile, hrest]
      rfl
    | cons c cs =>
      by_cases hc : p c = true
      · have hskip : r.skipWhile p = (r.skip 1).skipWhile p := by
          simp [Reader.skipWhile, Reader.skipWhile.go, Reader.skip, hrest, hc]
        have hlength := Reader.length_skip 1 r
        rw [hrest, List.length_cons] at hrounds hlength
        rw [List.head?_cons, Option.any_some, if_pos hc, next_ofReader h, ok_bind]
        rw [ih (h.trans (Reader.leadsTo_skip 1 r)) (by omega), hskip]
      · have hstay : r.skipWhile p = r := by
          rw [Reader.skipWhile, hrest, Reader.skipWhile.go, if_neg hc, ← hrest]
        rw [List.head?_cons, Option.any_some, if_neg hc, hstay]

/-- There are not more characters than bytes. -/
theorem length_rest_le (h : (Reader.ofText t).LeadsTo r) : r.rest.length ≤ t.length := by
  have hlength : ∀ cs : List Character, (∀ c ∈ cs, c.Spelled) →
      cs.length ≤ (Text.ofCharacters cs).length := by
    intro cs hspelled
    induction cs with
    | nil => exact Nat.le_refl _
    | cons c cs ih =>
      obtain ⟨hc, hcs⟩ := List.forall_mem_cons.mp hspelled
      have hpos := List.length_pos_iff.mpr hc.bytes_ne_nil
      have hrest := ih hcs
      rw [Text.ofCharacters, List.flatMap_cons, List.length_append, List.length_cons]
      rw [Text.ofCharacters] at hrest
      omega
  have hle := hlength r.rest h.spelled
  rw [h.ofCharacters_rest, List.length_drop] at hle
  omega

theorem skipBlanks_ofReader (h : (Reader.ofText t).LeadsTo r) :
    (ofReader t r).skipBlanks = .ok (ofReader t r.skipBlanks) :=
  skipWhile_ofReader _ h (Nat.lt_succ_of_le (length_rest_le h))

theorem readIdentifier_ofReader (h : (Reader.ofText t).LeadsTo r) :
    (ofReader t r).readIdentifier =
      .ok (r.readIdentifier.1, ofReader t r.readIdentifier.2) := by
  have hskip := skipWhile_ofReader Character.isIdentifier h (Nat.lt_succ_of_le (length_rest_le h))
  have hsince := since_ofReader h (Reader.reads_skipWhile Character.isIdentifier r)
  have hrounds : (ofReader t r).text.length + 1 = t.length.succ := rfl
  rw [readIdentifier, hrounds, hskip, ok_bind]
  show ((ofReader t (r.skipWhile _)).since r.position >>= _) = _
  rw [hsince, ok_bind]
  rfl

theorem skipLine_ofReader (h : (Reader.ofText t).LeadsTo r) :
    (ofReader t r).skipLine = .ok (ofReader t r.skipLine) := by
  have hposition := h.skipLine_agrees
  rw [skipLine, unread_ofReader h, ok_bind]
  dsimp only
  split
  · rename_i hlt
    rw [slice_front hlt, ok_bind, consume_eq, ofReader, ofReader, hposition]
    rfl
  · rename_i hge
    have hall : Text.throughLine (t.drop r.position.offset) = t.drop r.position.offset :=
      List.take_of_length_le (by omega)
    rw [consume_eq, ofReader, ofReader, hposition, hall]

theorem readLine_ofReader (h : (Reader.ofText t).LeadsTo r) :
    (ofReader t r).readLine = .ok (r.readLine.1, ofReader t r.readLine.2) := by
  obtain ⟨hline, hposition⟩ := h.readLine_agrees
  have htake : (t.drop r.position.offset).take
      ((t.drop r.position.offset).takeWhile (· != Byte.newline)).length = r.readLine.1 := by
    rw [hline]
    exact (List.prefix_iff_eq_take.mp (List.takeWhile_prefix _)).symm
  rw [readLine, unread_ofReader h, ok_bind,
    slice_front (List.takeWhile_prefix _).length_le, ok_bind, htake, consume_eq, ok_bind,
    ofReader, ofReader, hposition]

theorem beginsWith_ofReader (h : (Reader.ofText t).LeadsTo r) {a b : UInt8} (ha : a < 0x80)
    (hb : b < 0x80) :
    (ofReader t r).beginsWith [a, b] = .ok (r.seesPair a.toNat b.toNat) := by
  rw [beginsWith, unread_ofReader h, ok_bind, ← h.ofCharacters_rest]
  refine congrArg Except.ok ?_
  rw [Bool.eq_iff_iff, Text.isPrefixOf_ofCharacters h.spelled ha hb, Reader.seesPair]
  cases r.rest with
  | nil => simp
  | cons c cs =>
    cases cs with
    | nil => simp
    | cons d cs => simp

/-- What is found stands in the text. -/
theorem find?_go_length {part t : Text} {k n : Nat} (h : Text.find?.go part k t = some n) :
    n + part.length ≤ k + t.length := by
  induction t generalizing k with
  | nil =>
    rw [Text.find?.go] at h
    split at h
    · rename_i hempty
      cases h
      rw [List.isEmpty_iff.mp hempty]
    · cases h
  | cons b t ih =>
    rw [Text.find?.go] at h
    split at h
    · rename_i hmark
      cases h
      have hlength := (List.isPrefixOf_iff_prefix.mp hmark).length_le
      omega
    · have hlength := ih h
      rw [List.length_cons]
      omega

theorem skipComment_ofReader (h : (Reader.ofText t).LeadsTo r) :
    (ofReader t r).skipComment = .ok (r.skipComment.1, ofReader t r.skipComment.2) := by
  obtain ⟨hposition, herror⟩ := h.skipComment_agrees h.ofCharacters_rest
  rw [skipComment, unread_ofReader h, ok_bind]
  by_cases hopening : Text.opening.isPrefixOf (t.drop r.position.offset) = true
  · have hlength := (List.isPrefixOf_iff_prefix.mp hopening).length_le
    rw [if_pos hopening, Text.throughComment?] at hposition
    rw [hopening, Bool.true_and, Text.throughComment?] at herror
    rw [if_pos hopening, slice_rest hlength, ok_bind]
    cases hfind : Text.find? Text.closing ((t.drop r.position.offset).drop Text.opening.length) with
    | none =>
      rw [hfind] at hposition herror
      dsimp only
      rw [consume_eq, ok_bind, herror, ofReader, ofReader, hposition]
      rfl
    | some n =>
      have hwithin := find?_go_length hfind
      rw [List.length_drop] at hwithin
      rw [hfind] at hposition herror
      dsimp only
      rw [slice_front (by omega), ok_bind, consume_eq, ok_bind, herror, ofReader, ofReader,
        hposition]
      rfl
  · rw [if_neg hopening] at hposition
    rw [Bool.eq_false_iff.mpr hopening, Bool.false_and, if_neg Bool.false_ne_true] at herror
    have hstay : r.position.advance [] = r.position := by
      rw [Position.advance_eq_foldl, Text.characters_nil, List.foldl_nil]
    rw [if_neg hopening, herror, ofReader, ofReader, hposition, hstay]

/-! ## Literals -/

theorem next_of_rest (h : (Reader.ofText t).LeadsTo r) {c : Character} {cs : List Character}
    (hrest : r.rest = c :: cs) :
    (ofReader t r).atEnd = false ∧
      (ofReader t r).next = .ok (some c, ofReader t (r.skip 1)) ∧
      (ofReader t (r.skip 1)).since r.position = .ok c.bytes ∧
      (Reader.ofText t).LeadsTo (r.skip 1) ∧ (r.skip 1).rest = cs := by
  have hreads := Reader.reads_skip 1 r
  have hsince := since_ofReader h hreads
  rw [hrest, List.take_succ_cons, List.take_zero] at hsince
  refine ⟨?_, ?_, ?_, h.trans ⟨_, hreads⟩, ?_⟩
  · rw [atEnd_ofReader h, hrest]
    rfl
  · rw [next_ofReader h, hrest]
    rfl
  · simpa [Text.ofCharacters] using hsince
  · rw [Reader.skip_rest, hrest]
    rfl

theorem skip_skip (m n : Nat) (r : Reader) : (r.skip m).skip n = r.skip (m + n) := by
  simp [Reader.skip, List.take_add, List.foldl_append]

/-- A literal is read over its body. -/
theorem literalFrom_body (start : Position) {body rest : List Character} (hbody : Literal.Body body)
    (h : (Reader.ofText t).LeadsTo r) (hrest : r.rest = body ++ rest) {rounds : Nat}
    (hrounds : r.rest.length < rounds) (pieces : List Text) :
    ∃ rounds' pieces', rest.length < rounds' ∧
      literalFrom start rounds pieces (ofReader t r) =
        literalFrom start rounds' pieces' (ofReader t (r.skip body.length)) ∧
      pieces'.reverse.flatten = Literal.valueFrom pieces body := by
  induction hbody generalizing r rounds pieces with
  | nil =>
    rw [hrest] at hrounds
    exact ⟨rounds, pieces, hrounds, rfl, rfl⟩
  | @plain c cs hquote hbackslash _ ih =>
    rw [List.cons_append] at hrest
    obtain ⟨hend, hnext, hsince, hin, hskip⟩ := next_of_rest h hrest
    obtain ⟨rounds, rfl⟩ := Nat.exists_eq_add_one_of_ne_zero (Nat.ne_zero_of_lt hrounds)
    have hless : (r.skip 1).rest.length < rounds := by
      rw [hskip]
      rw [hrest, List.length_cons] at hrounds
      omega
    have hlength : (c :: cs).length = 1 + cs.length := by rw [List.length_cons, Nat.add_comm]
    obtain ⟨rounds', pieces', hrounds', heq, hvalue⟩ := ih hin hskip hless (c.bytes :: pieces)
    refine ⟨rounds', pieces', hrounds', ?_, ?_⟩
    · rw [skip_skip] at heq
      rw [literalFrom, hend, if_neg Bool.false_ne_true, hnext, ok_bind]
      dsimp only
      rw [if_neg (by simpa using hquote), if_neg (by simpa using hbackslash)]
      show ((ofReader t (r.skip 1)).since r.position >>= _) = _
      rw [hsince, ok_bind, heq, hlength]
    · rw [hvalue, Literal.valueFrom.eq_def pieces (c :: cs)]
      dsimp only
      rw [if_neg hbackslash]
  | @hidden backslash c cs hbackslash _ ih =>
    rw [List.cons_append, List.cons_append] at hrest
    obtain ⟨hend, hnext, -, hin, hskip⟩ := next_of_rest h hrest
    obtain ⟨hend', hnext', hsince', hin', hskip'⟩ := next_of_rest hin hskip
    obtain ⟨rounds, rfl⟩ := Nat.exists_eq_add_one_of_ne_zero (Nat.ne_zero_of_lt hrounds)
    have hquote : ¬backslash.code = Code.quote := by
      rw [hbackslash]
      decide
    have hless : ((r.skip 1).skip 1).rest.length < rounds := by
      rw [hskip']
      rw [hrest, List.length_cons, List.length_cons] at hrounds
      omega
    have hlength : (backslash :: c :: cs).length = 1 + 1 + cs.length := by
      rw [List.length_cons, List.length_cons, Nat.add_comm, Nat.add_comm cs.length, Nat.add_assoc]
    obtain ⟨rounds', pieces', hrounds', heq, hvalue⟩ :=
      ih hin' hskip' hless (Literal.hiddenValue c :: pieces)
    refine ⟨rounds', pieces', hrounds', ?_, ?_⟩
    · rw [skip_skip, skip_skip] at heq
      rw [literalFrom, hend, if_neg Bool.false_ne_true, hnext, ok_bind]
      dsimp only
      rw [if_neg (by simpa using hquote), if_pos (by simpa using hbackslash), hend',
        if_neg Bool.false_ne_true, hnext', ok_bind]
      show ((ofReader t ((r.skip 1).skip 1)).since (r.skip 1).position >>= _) = _
      rw [hsince', ok_bind, skip_skip, hlength]
      exact heq
    · rw [hvalue, Literal.valueFrom, if_pos hbackslash]

/-- A literal is read to its closing quote. -/
theorem literalFrom_closed (start : Reader) {body rest : List Character} {closing : Character}
    (hbody : Literal.Body body) (hclosing : closing.code = Code.quote)
    (h : (Reader.ofText t).LeadsTo r) (hrest : r.rest = body ++ closing :: rest) {rounds : Nat}
    (hrounds : r.rest.length < rounds) {cs : List Character}
    (hstart : (Reader.ofText t).LeadsTo start)
    (hreads : start.Reads cs (r.skip (body.length + 1))) :
    literalFrom start.position rounds [] (ofReader t r) =
      .ok (.ok ⟨Literal.valueFrom [] body, Text.ofCharacters cs⟩,
        ofReader t (r.skip (body.length + 1))) := by
  obtain ⟨rounds', pieces', hrounds', heq, hvalue⟩ :=
    literalFrom_body start.position hbody h hrest hrounds []
  have hbehind : (r.skip body.length).rest = closing :: rest := by
    rw [Reader.skip_rest, hrest, List.drop_left]
  obtain ⟨hend, hnext, -, -, -⟩ :=
    next_of_rest (h.trans (Reader.leadsTo_skip body.length r)) hbehind
  obtain ⟨rounds', rfl⟩ := Nat.exists_eq_add_one_of_ne_zero (Nat.ne_zero_of_lt hrounds')
  rw [heq, literalFrom, hend, if_neg Bool.false_ne_true, hnext, ok_bind]
  dsimp only
  rw [if_pos (by simpa using hclosing), skip_skip, since_ofReader hstart hreads, ok_bind, hvalue]

/-- A literal without a closing quote is read to the end. -/
theorem literalFrom_unclosed (start : Position) {body : List Character}
    (hbody : Literal.Unclosed body) (h : (Reader.ofText t).LeadsTo r) (hrest : r.rest = body)
    {rounds : Nat} (hrounds : r.rest.length < rounds) :
    literalFrom start rounds [] (ofReader t r) =
      .ok (.error ⟨start, .unterminatedLiteral⟩, ofReader t r.toEnd) := by
  have htoEnd : ∀ n, (r.skip n).rest = [] → r.skip n = r.toEnd := by
    intro n hnil
    refine Reader.LeadsTo.unique (Reader.leadsTo_skip n r) (Reader.leadsTo_skipWhile _ r) ?_
    rw [hnil, Reader.toEnd_rest]
  have hfinish : ∀ {n rounds : Nat} (pieces : List Text), (r.skip n).rest = [] →
      (r.skip n).rest.length < rounds →
      literalFrom start rounds pieces (ofReader t (r.skip n)) =
        .ok (.error ⟨start, .unterminatedLiteral⟩, ofReader t r.toEnd) := by
    intro n rounds pieces hnil hrounds
    obtain ⟨rounds, rfl⟩ := Nat.exists_eq_add_one_of_ne_zero (Nat.ne_zero_of_lt hrounds)
    rw [literalFrom, atEnd_ofReader (h.trans (Reader.leadsTo_skip n r)), hnil,
      if_pos List.isEmpty_nil, ← htoEnd n hnil]
  rcases hbody with hbody | ⟨inner, backslash, hinner, hbackslash, rfl⟩
  · rw [← List.append_nil body] at hrest
    obtain ⟨rounds', pieces', hrounds', heq, -⟩ :=
      literalFrom_body start hbody h hrest hrounds []
    have hnil : (r.skip body.length).rest = [] := by
      rw [Reader.skip_rest, hrest, List.drop_left]
    rw [heq]
    exact hfinish pieces' hnil (by rw [hnil]; exact hrounds')
  · obtain ⟨rounds', pieces', hrounds', heq, -⟩ :=
      literalFrom_body start hinner h hrest hrounds []
    have hlast : (r.skip inner.length).rest = [backslash] := by
      rw [Reader.skip_rest, hrest, List.drop_left]
    have hquote : ¬backslash.code = Code.quote := by
      rw [hbackslash]
      decide
    obtain ⟨hend, hnext, -, hin, hnil⟩ :=
      next_of_rest (h.trans (Reader.leadsTo_skip inner.length r)) hlast
    obtain ⟨rounds', rfl⟩ := Nat.exists_eq_add_one_of_ne_zero (Nat.ne_zero_of_lt hrounds')
    rw [heq, literalFrom, hend, if_neg Bool.false_ne_true, hnext, ok_bind]
    dsimp only
    rw [if_neg (by simpa using hquote), if_pos (by simpa using hbackslash), atEnd_ofReader hin,
      hnil, if_pos List.isEmpty_nil, skip_skip]
    rw [skip_skip] at hnil
    exact hfinish pieces' hnil (by rw [hnil]; simpa using hrounds')

theorem readLiteral_ofReader (h : (Reader.ofText t).LeadsTo r) :
    (ofReader t r).readLiteral = .ok (r.readLiteral.1, ofReader t r.readLiteral.2) := by
  rw [readLiteral, look_ofReader h, ok_bind]
  cases hrest : r.rest with
  | nil =>
    have hno : r.sees Code.quote = false := by simp [Reader.sees, Reader.peek?, hrest]
    rw [Reader.readLiteral, hno]
    rfl
  | cons opening cs =>
    rw [List.head?_cons, Option.any_some]
    by_cases hopening : opening.code = Code.quote
    · obtain ⟨-, hnext, -, hin, hskip⟩ := next_of_rest h hrest
      have hrounds : (r.skip 1).rest.length < (ofReader t r).text.length + 1 :=
        Nat.lt_succ_of_le (length_rest_le hin)
      rw [if_pos (by simpa using hopening), hnext, ok_bind]
      dsimp only
      rcases Literal.closed_or_unclosed [] cs with
        ⟨body, closing, rest, hbody, hclosing, rfl⟩ | hbody
      · obtain ⟨hread, -⟩ := Reader.readLiteral_closed hopening hbody hclosing hrest
        have hbehind : (r.skip 1).skip (body.length + 1) = r.skip (body.length + 2) := by
          rw [skip_skip, Nat.add_comm]
        have hreads := Reader.reads_skip (body.length + 2) r
        have htake : r.rest.take (body.length + 2) = opening :: (body ++ [closing]) := by
          have hsplit : r.rest = (opening :: (body ++ [closing])) ++ rest := by simp [hrest]
          rw [hsplit, List.take_left' (by simp)]
        rw [htake, ← hbehind] at hreads
        rw [hread, ← hbehind]
        exact literalFrom_closed r hbody hclosing hin hskip hrounds h hreads
      · have hend : (r.skip 1).toEnd = r.toEnd := by
          refine Reader.LeadsTo.unique
            ((Reader.leadsTo_skip 1 r).trans (Reader.leadsTo_skipWhile _ _))
            (Reader.leadsTo_skipWhile _ r) ?_
          rw [Reader.toEnd_rest, Reader.toEnd_rest]
        rw [Reader.readLiteral_unclosed hopening hbody hrest, ← hend]
        exact literalFrom_unclosed r.position hbody hin hskip hrounds
    · have hno : r.sees Code.quote = false := by
        rw [Reader.sees_of_rest hrest]
        simpa using hopening
      rw [if_neg (by simpa using hopening), Reader.readLiteral, hno]
      rfl

end Scanner

end Guarded

end XsPrep
