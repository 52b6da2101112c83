import Mathlib.Data.List.Induction
import XsPrep.Proofs.Source.Tokens

/-!
# True positions

A position is true in a text if its offset is where a character of the text begins or
the text ends, its line counts the line ends before it, and its column counts the
characters behind the last of these (`Position.TrueIn`).  Whatever reading reaches from
the beginning of a text has a true position (`Reader.LeadsTo.trueIn`), and what is left
to read there is known from the offset alone (`Reader.LeadsTo.rest_eq_drop`).  So it is
enough to keep positions in order to go back to them.

Three operations can also be done on the bytes: search for the byte of a line end, or for
the two bytes that close a comment, and count what lies before.  Both ways agree
(`Reader.LeadsTo.agreesWithBytes`), because a byte below `0x80` is always a character of its own.
-/

namespace XsPrep

/-! ## Bytes that are characters -/

@[simp] theorem Byte.toNat_slash : Byte.slash.toNat = Code.slash := rfl

namespace Text

variable {cs : List Character}

theorem takeWhile_line (h : ∀ c ∈ cs, c.Spelled) :
    (ofCharacters cs).takeWhile (· != Byte.newline) =
      ofCharacters (cs.takeWhile (·.code != Code.newline)) := by
  induction cs with
  | nil => rfl
  | cons c cs ih =>
    obtain ⟨hc, hcs⟩ := List.forall_mem_cons.mp h
    rw [ofCharacters, List.flatMap_cons]
    by_cases hnewline : c.code = Code.newline
    · rw [hc.bytes_of_newline hnewline, List.takeWhile_cons_of_neg (by simp [hnewline])]
      rfl
    · have hbytes : ∀ b ∈ c.bytes, (b != Byte.newline) = true := by
        intro b hb
        rw [bne_iff_ne]
        rintro rfl
        exact hc.newline_notMem hnewline hb
      rw [List.takeWhile_append_of_pos hbytes, List.takeWhile_cons_of_pos (by simp [hnewline])]
      exact congrArg (c.bytes ++ ·) (ih hcs)

theorem count_newline (h : ∀ c ∈ cs, c.Spelled) :
    (ofCharacters cs).count Byte.newline = cs.countP (·.code == Code.newline) := by
  induction cs with
  | nil => rfl
  | cons c cs ih =>
    obtain ⟨hc, hcs⟩ := List.forall_mem_cons.mp h
    have hrest := ih hcs
    rw [ofCharacters] at hrest
    rw [ofCharacters, List.flatMap_cons, List.count_append, hrest]
    by_cases hnewline : c.code = Code.newline
    · rw [hc.bytes_of_newline hnewline, List.countP_cons_of_pos (by simp [hnewline]), Nat.add_comm]
      rfl
    · rw [List.count_eq_zero_of_not_mem (hc.newline_notMem hnewline),
        List.countP_cons_of_neg (by simp [hnewline]), Nat.zero_add]

theorem head?_ofCharacters (h : ∀ c ∈ cs, c.Spelled) {b : UInt8} (hb : b < 0x80) :
    (ofCharacters cs).head? = some b ↔ cs.head?.map Character.code = some b.toNat := by
  cases cs with
  | nil => simp [ofCharacters]
  | cons c cs =>
    have hc := h c List.mem_cons_self
    rw [ofCharacters, List.flatMap_cons, List.head?_append_of_ne_nil _ hc.bytes_ne_nil,
      hc.head?_bytes hb]
    simp

/-- Two bytes below `0x80` stand at the beginning exactly if two such characters do. -/
theorem isPrefixOf_ofCharacters (h : ∀ c ∈ cs, c.Spelled) {a b : UInt8} (ha : a < 0x80)
    (hb : b < 0x80) :
    [a, b].isPrefixOf (ofCharacters cs) = true ↔
      cs.head?.map Character.code = some a.toNat ∧
        cs.tail.head?.map Character.code = some b.toNat := by
  have hpair : ∀ t : Text, [a, b].isPrefixOf t = true ↔ t.head? = some a ∧ t.tail.head? = some b := by
    rintro (_ | ⟨x, _ | ⟨y, t⟩⟩) <;> simp [List.isPrefixOf, @eq_comm _ a, @eq_comm _ b]
  rw [hpair, head?_ofCharacters h ha]
  refine and_congr_right fun hhead => ?_
  cases cs with
  | nil => cases hhead
  | cons c cs =>
    obtain ⟨hc, hcs⟩ := List.forall_mem_cons.mp h
    have hcode : c.code = a.toNat := by simpa using hhead
    rw [ofCharacters, List.flatMap_cons, hc.bytes_of_ascii ha hcode]
    exact head?_ofCharacters hcs hb

end Text

/-! ## Moving a position -/

namespace Position

theorem line_foldl_after (cs : List Character) (p : Position) :
    (cs.foldl after p).line = p.line + cs.countP (·.code == Code.newline) := by
  induction cs generalizing p with
  | nil => rfl
  | cons c cs ih =>
    rw [List.foldl_cons, ih, after]
    split
    · rename_i hnewline
      rw [List.countP_cons_of_pos (by simp [hnewline]), Nat.add_assoc, Nat.add_comm 1]
    · rename_i hnewline
      rw [List.countP_cons_of_neg (by simp [hnewline])]

/-- The characters behind the last line end. -/
def lastCharacters (cs : List Character) : List Character :=
  (cs.reverse.takeWhile (·.code != Code.newline)).reverse

/-- Behind a line end the column is counted anew. -/
theorem column_foldl_after (cs : List Character) (p : Position) :
    (cs.foldl after p).column =
      (if cs.countP (·.code == Code.newline) = 0 then p.column else 1) +
        (lastCharacters cs).length := by
  induction cs using List.reverseRecOn with
  | nil => rfl
  | append_singleton cs c ih =>
    rw [List.foldl_append, List.foldl_cons, List.foldl_nil, after, lastCharacters,
      List.reverse_append, List.reverse_singleton, List.singleton_append, List.countP_append]
    split
    · rename_i hnewline
      simp [hnewline]
    · rename_i hnewline
      have hnone : [c].countP (·.code == Code.newline) = 0 := by simp [hnewline]
      rw [hnone, Nat.add_zero, List.takeWhile_cons_of_pos (by simp [hnewline]), List.reverse_cons,
        List.length_append]
      show (cs.foldl after p).column + 1 = _
      rw [ih, Nat.add_assoc]
      rfl

/-- The last line of the bytes and of the characters. -/
theorem lastLine_ofCharacters {cs : List Character} (h : ∀ c ∈ cs, c.Spelled) :
    lastLine (Text.ofCharacters cs) = Text.ofCharacters (lastCharacters cs) := by
  induction cs using List.reverseRecOn with
  | nil => rfl
  | append_singleton cs c ih =>
    obtain ⟨hcs, hc⟩ := List.forall_mem_append.mp h
    have hc := hc c (List.mem_singleton_self c)
    rw [Text.ofCharacters_append, lastLine, lastCharacters, List.reverse_append,
      List.reverse_append, List.reverse_singleton, List.singleton_append]
    have hbytes : Text.ofCharacters [c] = c.bytes := List.flatMap_singleton ..
    rw [hbytes]
    by_cases hnewline : c.code = Code.newline
    · rw [hc.bytes_of_newline hnewline, List.takeWhile_cons_of_neg (by simp [hnewline])]
      rfl
    · have hall : ∀ b ∈ c.bytes.reverse, (b != Byte.newline) = true := by
        intro b hb
        rw [bne_iff_ne]
        rintro rfl
        exact hc.newline_notMem hnewline (List.mem_reverse.mp hb)
      rw [List.takeWhile_append_of_pos hall, List.takeWhile_cons_of_pos (by simp [hnewline]),
        List.reverse_append, List.reverse_reverse, List.reverse_cons, Text.ofCharacters_append,
        hbytes]
      exact congrArg (· ++ c.bytes) (ih hcs)

end Position

theorem Text.characterCount_eq (t : Text) : t.characterCount = t.characters.length := by
  have hfold : ∀ (t : Text) (n : Nat),
      foldCharacters (fun n _ => n + 1) n t = n + t.characters.length := by
    intro t
    induction t using characterInduction with
    | nil => intro n; rw [foldCharacters, characters_nil]; rfl
    | cons a t ih =>
      intro n
      rw [foldCharacters, ih, characters_cons, List.length_cons]
      omega
  rw [characterCount, hfold, Nat.zero_add]

namespace Position

/-- The last line of a text decodes by itself. -/
theorem characters_lastLine (t : Text) :
    (lastLine t).characters = lastCharacters t.characters := by
  have hsplit : t.characters = (t.characters.reverse.dropWhile (·.code != Code.newline)).reverse ++
      lastCharacters t.characters := by
    rw [lastCharacters, ← List.reverse_append, List.takeWhile_append_dropWhile,
      List.reverse_reverse]
  have hlast := lastLine_ofCharacters fun c (hc : c ∈ t.characters) => Text.spelled_of_mem hc
  rw [Text.ofCharacters_characters] at hlast
  rw [hlast]
  exact (Text.characters_of_append hsplit).2

/-- Counting the line ends and characters of a text moves a position like its characters one
by one. -/
theorem advance_eq_foldl (p : Position) (t : Text) : p.advance t = t.characters.foldl after p := by
  have hcount := Text.count_newline fun c (hc : c ∈ t.characters) => Text.spelled_of_mem hc
  have hoffset := Reader.offset_foldl_after t.characters p
  have hline := line_foldl_after t.characters p
  have hcolumn := column_foldl_after t.characters p
  rw [Text.ofCharacters_characters] at hcount hoffset
  rw [← hcount] at hline hcolumn
  rw [← characters_lastLine, ← Text.characterCount_eq] at hcolumn
  rw [advance]
  split
  · rename_i hzero
    rw [hzero] at hline hcolumn
    rw [if_pos rfl] at hcolumn
    rw [← hoffset, ← Nat.add_zero p.line, ← hline, ← hcolumn]
  · rename_i lines hlines
    rw [hlines] at hline hcolumn
    rw [if_neg (Nat.succ_ne_zero lines)] at hcolumn
    rw [← hoffset, ← hline, ← hcolumn]

end Position

/-! ## Positions of a text -/

/-- The position is before the character number `n` of the text, or at its end. -/
structure Position.Before (t : Text) (n : Nat) (p : Position) : Prop where
  within : p.offset ≤ t.length
  offset_eq : p.offset = (Text.ofCharacters (t.characters.take n)).length
  line_eq : p.line = 1 + (t.take p.offset).count Byte.newline
  column_eq : p.column =
    1 + ((t.characters.take n).reverse.takeWhile (·.code != Code.newline)).length

/-- The position is a place of the text, with its line and column. -/
def Position.TrueIn (t : Text) (p : Position) : Prop := ∃ n, p.Before t n

namespace Reader

variable {t : Text} {r r' : Reader}

/-- What is left to read is known from the offset. -/
theorem LeadsTo.rest_eq_drop (h : (ofText t).LeadsTo r) :
    r.rest = Text.characters (t.drop r.position.offset) := by
  obtain ⟨cs, hreads⟩ := h
  have hcharacters : t.characters = cs ++ r.rest := hreads.rest_eq
  rw [hreads.offset_eq, hreads.text_eq, List.drop_left]
  exact (Text.characters_of_append hcharacters).2.symm

theorem LeadsTo.ofCharacters_rest (h : (ofText t).LeadsTo r) :
    Text.ofCharacters r.rest = t.drop r.position.offset := by
  rw [h.rest_eq_drop, Text.ofCharacters_characters]

/-- The position behind a number of characters. -/
theorem Reads.before {cs : List Character} (hreads : (ofText t).Reads cs r) :
    r.position.Before t cs.length := by
  have hcharacters : t.characters = cs ++ r.rest := hreads.rest_eq
  have hspelled : ∀ c ∈ cs, c.Spelled := by
    intro c hc
    exact Text.spelled_of_mem (hcharacters ▸ List.mem_append_left _ hc)
  have hoffset := hreads.offset_eq
  have htake : t.characters.take cs.length = cs := by rw [hcharacters, List.take_left]
  refine ⟨?_, ?_, ?_, ?_⟩
  · rw [hoffset, hreads.text_eq, List.length_append]
    exact Nat.le_add_right _ _
  · rw [htake, hoffset]
  · rw [hoffset, hreads.text_eq, List.take_left, Text.count_newline hspelled, hreads.position_eq,
      Position.line_foldl_after]
    rfl
  · rw [htake, hreads.position_eq, Position.column_foldl_after, Position.lastCharacters,
      List.length_reverse]
    exact congrArg (· + _) (ite_self 1)

/-- Reading keeps positions true. -/
theorem LeadsTo.trueIn (h : (ofText t).LeadsTo r) : r.position.TrueIn t := by
  obtain ⟨cs, hreads⟩ := h
  exact ⟨cs.length, hreads.before⟩

/-- Moving over the bytes of what was read at once. -/
theorem Reads.position_eq_advance {cs : List Character} (h : r.Reads cs r')
    (hin : (ofText t).LeadsTo r) : r'.position = r.position.advance (Text.ofCharacters cs) := by
  obtain ⟨ds, hds⟩ := hin
  have hcharacters : t.characters = (ds ++ cs) ++ r'.rest := by
    rw [List.append_assoc, ← h.rest_eq]
    exact hds.rest_eq
  have hbefore := (Text.characters_of_append hcharacters).1
  rw [Position.advance_eq_foldl, (Text.characters_of_append hbefore).2, h.position_eq]

end Reader

/-! ## Searching the bytes -/

namespace Text

/-- The mark that opens a block comment. -/
def opening : Text := [Byte.slash, 0x2A]

/-- The mark that closes a block comment. -/
def closing : Text := [0x2A, Byte.slash]

/-- The bytes through the first line end, or all of them if there is none. -/
def throughLine (t : Text) : Text := t.take ((t.takeWhile (· != Byte.newline)).length + 1)

/-- The bytes of the block comment in front, through its first closing mark. -/
def throughComment? (t : Text) : Option Text :=
  (find? closing (t.drop opening.length)).map fun n =>
    t.take (opening.length + n + closing.length)

theorem throughLine_ofCharacters {cs : List Character} (h : ∀ c ∈ cs, c.Spelled) :
    throughLine (ofCharacters cs) = ofCharacters
      (cs.takeWhile (·.code != Code.newline) ++ (cs.dropWhile (·.code != Code.newline)).take 1) := by
  have hsplit : ofCharacters cs = ofCharacters (cs.takeWhile (·.code != Code.newline)) ++
      ofCharacters (cs.dropWhile (·.code != Code.newline)) := by
    rw [← ofCharacters_append, List.takeWhile_append_dropWhile]
  rw [throughLine, takeWhile_line h, hsplit, List.take_length_add_append, ofCharacters_append]
  refine congrArg (_ ++ ·) ?_
  cases hbehind : cs.dropWhile (·.code != Code.newline) with
  | nil => rfl
  | cons c rest =>
    have hmem : c ∈ cs := (List.dropWhile_sublist _).mem (hbehind ▸ List.mem_cons_self)
    have hcode : c.code = Code.newline := by
      have hhead := List.head?_dropWhile_not (·.code != Code.newline) cs
      rw [hbehind] at hhead
      simpa using hhead
    have hbytes := (h c hmem).bytes_of_newline hcode
    simp [ofCharacters, hbytes]

/-- The search for a closing mark goes over a character that does not begin one. -/
theorem find?_go_character {c : Character} (hc : c.Spelled) {t : Text}
    (hmark : ¬(c.code = Code.star ∧ t.head? = some Byte.slash)) (k : Nat) :
    find?.go closing k (c.bytes ++ t) = find?.go closing (k + c.bytes.length) t := by
  have hskip : ∀ (s : Text) (k : Nat), (0x2A : UInt8) ∉ s →
      find?.go closing k (s ++ t) = find?.go closing (k + s.length) t := by
    intro s
    induction s with
    | nil => intro k _; rfl
    | cons b s ih =>
      intro k hs
      obtain ⟨hb, hs⟩ := not_or.mp (List.mem_cons.not.mp hs)
      have hprefix : closing.isPrefixOf (b :: (s ++ t)) = false := by
        simp [closing, List.isPrefixOf, hb]
      rw [List.cons_append, find?.go, hprefix, if_neg Bool.false_ne_true, ih _ hs,
        List.length_cons, Nat.add_assoc, Nat.add_comm 1]
  by_cases hstar : c.code = Code.star
  · have hslash : t.head? ≠ some Byte.slash := fun hslash => hmark ⟨hstar, hslash⟩
    have hprefix : closing.isPrefixOf (0x2A :: t) = false := by
      cases t with
      | nil => rfl
      | cons b t =>
        have hb : Byte.slash ≠ b := by
          rintro rfl
          exact hslash rfl
        simp [closing, List.isPrefixOf, hb]
    rw [hc.bytes_of_ascii (b := 0x2A) (by decide) hstar, List.singleton_append, find?.go, hprefix,
      if_neg Bool.false_ne_true]
    rfl
  · exact hskip c.bytes k (hc.notMem_bytes (by decide) hstar)

theorem find?_closed {body : List Character} {star : Character}
    (hspelled : ∀ c ∈ body, c.Spelled)
    (hbody : ¬Character.Closes (body ++ [star])) (t : Text) (k : Nat) :
    find?.go closing k (ofCharacters body ++ (closing ++ t)) =
      some (k + (ofCharacters body).length) := by
  induction body generalizing k with
  | nil => simp [ofCharacters, closing, find?.go, List.isPrefixOf]
  | cons c body ih =>
    obtain ⟨hc, hspelled⟩ := List.forall_mem_cons.mp hspelled
    rw [List.cons_append, Character.closes_cons, not_or] at hbody
    rw [ofCharacters, List.flatMap_cons, List.append_assoc, find?_go_character hc]
    · rw [← ofCharacters, ih hspelled hbody.2, List.length_append, Nat.add_assoc]
    · rintro ⟨hcode, hslash⟩
      refine hbody.1 ⟨hcode, ?_⟩
      cases body with
      | nil => cases hslash
      | cons d body =>
        have hd := hspelled d List.mem_cons_self
        rw [List.flatMap_cons, List.append_assoc, List.head?_append_of_ne_nil _ hd.bytes_ne_nil,
          hd.head?_bytes (by decide)] at hslash
        simp [hslash]

theorem find?_open {cs : List Character} (hspelled : ∀ c ∈ cs, c.Spelled)
    (hopen : ¬Character.Closes cs) (k : Nat) : find?.go closing k (ofCharacters cs) = none := by
  induction cs generalizing k with
  | nil => rfl
  | cons c cs ih =>
    obtain ⟨hc, hspelled⟩ := List.forall_mem_cons.mp hspelled
    rw [Character.closes_cons, not_or] at hopen
    rw [ofCharacters, List.flatMap_cons, find?_go_character hc]
    · exact ih hspelled hopen.2 _
    · rintro ⟨hcode, hslash⟩
      refine hopen.1 ⟨hcode, ?_⟩
      rw [← ofCharacters, head?_ofCharacters hspelled (by decide)] at hslash
      cases cs with
      | nil => cases hslash
      | cons d cs => simpa using hslash

end Text

namespace Reader

/-- Moving a reader by a search in the bytes `unread` ahead of it, and over all the bytes
found at once, is the same as moving it by characters. -/
structure AgreesWithBytes (unread : Text) (r : Reader) : Prop where
  /-- A line is read up to the first line end. -/
  readLine_eq : r.readLine.1 = unread.takeWhile (· != Byte.newline)
  readLine_position : r.readLine.2.position =
    r.position.advance (unread.takeWhile (· != Byte.newline))
  /-- A line is skipped through the first line end. -/
  skipLine_position : r.skipLine.position = r.position.advance unread.throughLine
  /-- A comment is skipped through the first closing mark, or to the end without one. -/
  skipComment_position : r.skipComment.2.position = r.position.advance
    (if Text.opening.isPrefixOf unread then unread.throughComment?.getD unread else [])
  /-- It is an error if there is none. -/
  skipComment_error : r.skipComment.1 =
    if Text.opening.isPrefixOf unread && unread.throughComment?.isNone then
      .error ⟨r.position, .unterminatedComment⟩
    else .ok ()

variable {t : Text} {r : Reader}

theorem seesPair_eq_isPrefixOf (h : ∀ c ∈ r.rest, c.Spelled) :
    r.seesPair Code.slash Code.star = Text.opening.isPrefixOf (Text.ofCharacters r.rest) := by
  rw [Bool.eq_iff_iff, Text.opening, Text.isPrefixOf_ofCharacters h (by decide) (by decide),
    seesPair]
  split
  · rename_i c d cs hrest
    simp [hrest]
  · rename_i hrest
    rcases hcs : r.rest with _ | ⟨c, _ | ⟨d, cs⟩⟩
    · simp
    · simp
    · exact absurd hcs (hrest c d cs)

theorem LeadsTo.readLine_agrees (h : (ofText t).LeadsTo r) :
    r.readLine.1 = (t.drop r.position.offset).takeWhile (· != Byte.newline) ∧
      r.readLine.2.position = r.position.advance r.readLine.1 := by
  constructor
  · rw [← h.ofCharacters_rest, Text.takeWhile_line h.spelled]
    rfl
  · exact (reads_skipWhile _ r).position_eq_advance h

theorem LeadsTo.skipLine_agrees (h : (ofText t).LeadsTo r) :
    r.skipLine.position = r.position.advance (Text.throughLine (t.drop r.position.offset)) := by
  have hreads := (reads_skipWhile (·.code != Code.newline) r).trans (reads_skip 1 _)
  refine (hreads.position_eq_advance h).trans (congrArg r.position.advance ?_)
  rw [← h.ofCharacters_rest, Text.throughLine_ofCharacters h.spelled, skipWhile_rest]

/-- The characters of a block comment, as bytes. -/
theorem ofCharacters_opening {first second : Character} {cs : List Character}
    (hspelled : ∀ c ∈ first :: second :: cs, c.Spelled) (hfirst : first.code = Code.slash)
    (hsecond : second.code = Code.star) :
    Text.ofCharacters (first :: second :: cs) = Text.opening ++ Text.ofCharacters cs := by
  have hslash := (hspelled first (by simp)).bytes_of_ascii (b := Byte.slash) (by decide) hfirst
  have hstar := (hspelled second (by simp)).bytes_of_ascii (b := 0x2A) (by decide) hsecond
  rw [Text.ofCharacters, List.flatMap_cons, List.flatMap_cons, hslash, hstar]
  rfl

theorem skipComment_closed {first second star slash : Character} {body rest : List Character}
    (hspelled : ∀ c ∈ r.rest, c.Spelled)
    (hrest : r.rest = first :: second :: (body ++ star :: slash :: rest))
    (hfirst : first.code = Code.slash) (hsecond : second.code = Code.star)
    (hbody : ¬Character.Closes (body ++ [star])) (hstar : star.code = Code.star)
    (hslash : slash.code = Code.slash) :
    ∃ cs behind, r.skipComment = (.ok (), behind) ∧ r.Reads cs behind ∧
      (Text.ofCharacters r.rest).throughComment? = some (Text.ofCharacters cs) := by
  rw [hrest] at hspelled
  have hopens : r.seesPair Code.slash Code.star = true := by
    rw [seesPair_of_rest hrest, hfirst, hsecond]
    rfl
  have hdrop : r.rest.drop 2 = body ++ star :: slash :: rest := by rw [hrest]; rfl
  have hlength := commentLength_closed hbody hstar hslash 2 rest
  refine ⟨_, _, ?_, reads_skip (2 + body.length + 2) r, ?_⟩
  · rw [skipComment, if_pos hopens, hdrop, hlength]
  have hcs : r.rest.take (2 + body.length + 2) = first :: second :: (body ++ [star, slash]) := by
    have hsplit : first :: second :: (body ++ star :: slash :: rest) =
        (first :: second :: (body ++ [star, slash])) ++ rest := by simp
    rw [hrest, hsplit]
    exact List.take_left' (by simp; omega)
  have hinner : ∀ c ∈ body, c.Spelled := by
    intro c hc
    exact hspelled c (by simp [hc])
  have hmark : ∀ cs, Text.ofCharacters (body ++ star :: slash :: cs) =
      Text.ofCharacters body ++ (Text.closing ++ Text.ofCharacters cs) := by
    intro cs
    have hstar := (hspelled star (by simp)).bytes_of_ascii (b := 0x2A) (by decide) hstar
    have hslash := (hspelled slash (by simp)).bytes_of_ascii (b := Byte.slash) (by decide) hslash
    rw [Text.ofCharacters_append]
    refine congrArg (_ ++ ·) ?_
    rw [Text.ofCharacters, List.flatMap_cons, List.flatMap_cons, hstar, hslash]
    rfl
  have hfind := Text.find?_closed hinner hbody (Text.ofCharacters rest) 0
  rw [hcs, hrest, Text.throughComment?, ofCharacters_opening hspelled hfirst hsecond,
    List.drop_left, hmark, Text.find?, hfind, Option.map_some]
  have hwithin : ∀ c ∈ first :: second :: (body ++ [star, slash]), c.Spelled := by
    intro c hc
    exact hspelled c (by simp at hc ⊢; tauto)
  rw [ofCharacters_opening hwithin hfirst hsecond, hmark, ← List.append_assoc Text.opening,
    ← List.append_assoc _ Text.closing, ← List.append_assoc Text.opening]
  refine congrArg some ?_
  rw [show Text.ofCharacters [] = [] from rfl, List.append_nil]
  exact List.take_left' (by simp; omega)

theorem skipComment_open {first second : Character} {cs : List Character}
    (hspelled : ∀ c ∈ r.rest, c.Spelled) (hrest : r.rest = first :: second :: cs)
    (hfirst : first.code = Code.slash) (hsecond : second.code = Code.star)
    (hopen : ¬Character.Closes cs) :
    r.skipComment = (.error ⟨r.position, .unterminatedComment⟩, r.toEnd) ∧
      (Text.ofCharacters r.rest).throughComment? = none := by
  have hopens : r.seesPair Code.slash Code.star = true := by
    rw [seesPair_of_rest hrest, hfirst, hsecond]
    rfl
  have hdrop : r.rest.drop 2 = cs := by rw [hrest]; rfl
  constructor
  · rw [skipComment, if_pos hopens, hdrop, commentLength_open hopen]
  · rw [hrest] at hspelled ⊢
    have hinner : ∀ c ∈ cs, c.Spelled := fun c hc => hspelled c (by simp [hc])
    rw [Text.throughComment?, ofCharacters_opening hspelled hfirst hsecond, List.drop_left,
      Text.find?, Text.find?_open hinner hopen]
    rfl

theorem LeadsTo.skipComment_agrees (h : (ofText t).LeadsTo r) {unread : Text}
    (hunread : Text.ofCharacters r.rest = unread) :
    r.skipComment.2.position = r.position.advance
        (if Text.opening.isPrefixOf unread then unread.throughComment?.getD unread else []) ∧
      r.skipComment.1 =
        if Text.opening.isPrefixOf unread && unread.throughComment?.isNone then
          .error ⟨r.position, .unterminatedComment⟩
        else .ok () := by
  have hpair := seesPair_eq_isPrefixOf h.spelled
  rw [hunread] at hpair
  rw [← hpair]
  cases hopens : r.seesPair Code.slash Code.star with
  | false =>
    have hstays : r.skipComment = (.ok (), r) := by
      rw [skipComment, hopens]
      rfl
    rw [hstays]
    refine ⟨?_, rfl⟩
    rw [if_neg Bool.false_ne_true, Position.advance_eq_foldl, Text.characters_nil]
    rfl
  | true =>
    obtain ⟨first, second, cs, hrest, hfirst, hsecond⟩ := rest_of_seesPair hopens
    rcases Character.closed_or_not_closes cs with
      ⟨body, star, slash, rest, hstar, hslash, hbody, rfl⟩ | hopen
    · obtain ⟨comment, behind, hskip, hreads, hthrough⟩ :=
        skipComment_closed h.spelled hrest hfirst hsecond hbody hstar hslash
      rw [hunread] at hthrough
      rw [hskip, hthrough]
      exact ⟨hreads.position_eq_advance h, rfl⟩
    · obtain ⟨hskip, hthrough⟩ := skipComment_open h.spelled hrest hfirst hsecond hopen
      rw [hunread] at hthrough
      rw [hskip, hthrough]
      refine ⟨?_, rfl⟩
      have hreads := reads_skipWhile (fun _ => true) r
      have hall : r.rest.takeWhile (fun _ => true) = r.rest :=
        List.takeWhile_eq_self_iff.mpr fun _ _ => rfl
      rw [hall] at hreads
      rw [← hunread]
      exact hreads.position_eq_advance h

/-- Searching the bytes and reading the characters agree wherever reading comes. -/
theorem LeadsTo.agreesWithBytes (h : (ofText t).LeadsTo r) :
    r.AgreesWithBytes (t.drop r.position.offset) where
  readLine_eq := h.readLine_agrees.1
  readLine_position := h.readLine_agrees.1 ▸ h.readLine_agrees.2
  skipLine_position := h.skipLine_agrees
  skipComment_position := (h.skipComment_agrees h.ofCharacters_rest).1
  skipComment_error := (h.skipComment_agrees h.ofCharacters_rest).2

/-! ## Operations in any order -/

/-- What can be done with a reader. -/
inductive Operation where
  /-- Read one character. -/
  | next
  | skipBlanks
  | skipLine
  | readLine
  | readIdentifier
  | readLiteral
  | skipLineComment
  | skipComment
  /-- Remember the position. -/
  | mark
  /-- Go back to the position that was remembered before the last `n`, if there is one. -/
  | restore (n : Nat)
deriving DecidableEq, Repr

end Reader

/-- A reader of a text and the positions that were remembered, last one first. -/
structure Walk where
  reader : Reader
  marks : List Position
deriving DecidableEq, Repr

namespace Walk

/-- A walk at the beginning of a text. -/
def ofText (t : Text) : Walk := ⟨.ofText t, []⟩

/-- The walk after an operation.  A position is all that is needed to go back: the text is
decoded again from its offset on. -/
def apply (t : Text) (w : Walk) : Reader.Operation → Walk
  | .next => { w with reader := w.reader.skip 1 }
  | .skipBlanks => { w with reader := w.reader.skipBlanks }
  | .skipLine => { w with reader := w.reader.skipLine }
  | .readLine => { w with reader := w.reader.readLine.2 }
  | .readIdentifier => { w with reader := w.reader.readIdentifier.2 }
  | .readLiteral => { w with reader := w.reader.readLiteral.2 }
  | .skipLineComment => { w with reader := w.reader.skipLine }
  | .skipComment => { w with reader := w.reader.skipComment.2 }
  | .mark => { w with marks := w.reader.position :: w.marks }
  | .restore n =>
    match w.marks[n]? with
    | some p => { w with reader := ⟨p, Text.characters (t.drop p.offset)⟩ }
    | none => w

/-- The walk after operations in order. -/
def run (t : Text) (operations : List Reader.Operation) : Walk :=
  operations.foldl (apply t) (ofText t)

/-- The reader, and what was remembered, are places of the text. -/
structure InText (t : Text) (w : Walk) : Prop where
  reader : (Reader.ofText t).LeadsTo w.reader
  marks : ∀ p ∈ w.marks, ∃ r, (Reader.ofText t).LeadsTo r ∧ r.position = p

theorem InText.ofText (t : Text) : InText t (ofText t) where
  reader := .refl _
  marks := by
    intro p hp
    cases hp

theorem InText.apply {t : Text} {w : Walk} (h : InText t w) (operation : Reader.Operation) :
    InText t (w.apply t operation) := by
  have hstep : ∀ {r : Reader}, w.reader.LeadsTo r → InText t { w with reader := r } := by
    intro r hr
    exact ⟨h.reader.trans hr, h.marks⟩
  cases operation with
  | next => exact hstep (Reader.leadsTo_skip 1 _)
  | skipBlanks => exact hstep (Reader.leadsTo_skipBlanks _)
  | skipLine => exact hstep (Reader.leadsTo_skipLine _)
  | readLine => exact hstep (Reader.leadsTo_readLine _)
  | readIdentifier => exact hstep (Reader.leadsTo_readIdentifier _)
  | readLiteral => exact hstep (Reader.leadsTo_readLiteral _)
  | skipLineComment => exact hstep (Reader.leadsTo_skipLine _)
  | skipComment => exact hstep (Reader.leadsTo_skipComment _)
  | mark => exact ⟨h.reader, List.forall_mem_cons.mpr ⟨⟨_, h.reader, rfl⟩, h.marks⟩⟩
  | restore n =>
    rw [Walk.apply]
    split
    · -- The reader that was here before is found again from its position.
      rename_i p hp
      obtain ⟨r, hr, rfl⟩ := h.marks p (List.mem_of_getElem? hp)
      refine ⟨?_, h.marks⟩
      rw [← hr.rest_eq_drop]
      exact hr
    · exact h

theorem InText.run (t : Text) (operations : List Reader.Operation) :
    InText t (run t operations) := by
  rw [Walk.run]
  induction operations using List.reverseRecOn with
  | nil => exact .ofText t
  | append_singleton operations operation ih =>
    rw [List.foldl_append]
    exact ih.apply operation

/-- After any operations on any text, the position and all that was remembered are true,
what is left to read is what the bytes behind the position decode to, and the operations that
can be done on these bytes agree with them. -/
theorem positions_true (t : Text) (operations : List Reader.Operation) :
    (run t operations).reader.position.TrueIn t ∧
    (∀ p ∈ (run t operations).marks, p.TrueIn t) ∧
    (run t operations).reader.rest =
      Text.characters (t.drop (run t operations).reader.position.offset) ∧
    (run t operations).reader.AgreesWithBytes
      (t.drop (run t operations).reader.position.offset) := by
  have hin := InText.run t operations
  refine ⟨hin.reader.trueIn, ?_, hin.reader.rest_eq_drop, hin.reader.agreesWithBytes⟩
  intro p hp
  obtain ⟨r, hr, rfl⟩ := hin.marks p hp
  exact hr.trueIn

end Walk

end XsPrep
