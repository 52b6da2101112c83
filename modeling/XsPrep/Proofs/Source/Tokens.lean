import XsPrep.Macro.Macros
import XsPrep.Proofs.Source.Lines

/-!
# Tokens

The grammar of text without directives.  A token is a string literal, a comment, an
expansion, or else a single character (`Token.At`).  Where one of the first three begins
and does not end, the text is broken (`Token.Broken`).  From the left, every text splits
into tokens up to its end or up to a place where it is broken (`Token.exists_splits`).

The grammar says nothing about readers.  That a reader reads the tokens of the grammar,
and reports what is broken, is `Token.At.read` and `Token.Broken.read`.
-/

namespace XsPrep

/-! ## Literals -/

namespace Literal

/-- What stands between the quotes of a literal: no quote, except behind a
backslash. -/
inductive Body : List Character → Prop where
  | nil : Body []
  | plain {c : Character} {cs : List Character} (hquote : c.code ≠ Code.quote)
      (hbackslash : c.code ≠ Code.backslash) (h : Body cs) : Body (c :: cs)
  | hidden {backslash c : Character} {cs : List Character}
      (hbackslash : backslash.code = Code.backslash) (h : Body cs) : Body (backslash :: c :: cs)

/-- The text ends before the literal does, at last behind a backslash. -/
def Unclosed (cs : List Character) : Prop :=
  Body cs ∨ ∃ body backslash, Body body ∧ backslash.code = Code.backslash ∧
    cs = body ++ [backslash]

/-- A literal is closed by the first quote that is not hidden, or not at all. -/
theorem closed_or_unclosed (read cs : List Character) :
    (∃ body closing rest, Body body ∧ closing.code = Code.quote ∧
      cs = body ++ closing :: rest) ∨ Unclosed cs := by
  fun_induction splitFrom read cs with
  | case1 => exact .inr (.inl .nil)
  | case2 read c cs hquote => exact .inl ⟨[], c, cs, .nil, hquote, rfl⟩
  | case3 read c hquote hbackslash => exact .inr (.inr ⟨[], c, .nil, hbackslash, rfl⟩)
  | case4 read c hquote hbackslash hidden cs ih =>
    rcases ih with ⟨body, closing, rest, hbody, hclosing, rfl⟩ | hbody | ⟨body, last, hbody, h, rfl⟩
    · exact .inl ⟨c :: hidden :: body, closing, rest, .hidden hbackslash hbody, hclosing, rfl⟩
    · exact .inr (.inl (.hidden hbackslash hbody))
    · exact .inr (.inr ⟨c :: hidden :: body, last, .hidden hbackslash hbody, h, rfl⟩)
  | case5 read c cs hquote hbackslash ih =>
    rcases ih with ⟨body, closing, rest, hbody, hclosing, rfl⟩ | hbody | ⟨body, last, hbody, h, rfl⟩
    · exact .inl ⟨c :: body, closing, rest, .plain hquote hbackslash hbody, hclosing, rfl⟩
    · exact .inr (.inl (.plain hquote hbackslash hbody))
    · exact .inr (.inr ⟨c :: body, last, .plain hquote hbackslash hbody, h, rfl⟩)

/-- The search for the closing quote goes over a body. -/
theorem splitFrom_body {body : List Character} (h : Body body) (read rest : List Character) :
    splitFrom read (body ++ rest) = splitFrom (body.reverse ++ read) rest := by
  induction h generalizing read with
  | nil => rfl
  | @plain c cs hquote hbackslash _ ih =>
    rw [List.cons_append, splitFrom.eq_def]
    simp only [if_neg hquote, if_neg hbackslash]
    rw [ih, List.reverse_cons, List.append_assoc, List.singleton_append]
  | @hidden backslash c cs hbackslash _ ih =>
    have hquote : ¬backslash.code = Code.quote := by rw [hbackslash]; decide
    rw [List.cons_append, List.cons_append, splitFrom, if_neg hquote, if_pos hbackslash, ih]
    simp

theorem splitFrom_closed {body : List Character} (h : Body body) {closing : Character}
    (hclosing : closing.code = Code.quote) (rest : List Character) :
    splitFrom [] (body ++ closing :: rest) = some (body, rest) := by
  rw [splitFrom_body h, splitFrom.eq_def]
  simp [hclosing]

theorem splitFrom_unclosed {cs : List Character} (h : Unclosed cs) : splitFrom [] cs = none := by
  rcases h with hbody | ⟨body, backslash, hbody, hbackslash, rfl⟩
  · have hsplit := splitFrom_body hbody [] []
    rw [List.append_nil] at hsplit
    rw [hsplit, splitFrom]
  · have hquote : ¬backslash.code = Code.quote := by rw [hbackslash]; decide
    rw [splitFrom_body hbody, splitFrom, if_neg hquote, if_pos hbackslash]

end Literal

/-! ## Comments -/

namespace Character

/-- The mark that closes a block comment occurs. -/
def Closes (cs : List Character) : Prop := [Code.star, Code.slash] <:+: cs.map code

instance (cs : List Character) : Decidable (Closes cs) := inferInstanceAs (Decidable (_ <:+: _))

theorem not_closes_nil : ¬Closes [] := by simp [Closes]

theorem closes_cons {c : Character} {cs : List Character} :
    Closes (c :: cs) ↔
      (c.code = Code.star ∧ cs.head?.any (·.code == Code.slash) = true) ∨ Closes cs := by
  rw [Closes, List.map_cons, List.infix_cons_iff, List.cons_prefix_cons]
  refine or_congr (and_congr eq_comm ?_) Iff.rfl
  cases cs with
  | nil => simp
  | cons d cs =>
    rw [List.map_cons, List.cons_prefix_cons]
    simpa using eq_comm

/-- A block comment is closed by the first mark, or not at all. -/
theorem closed_or_not_closes (cs : List Character) :
    (∃ body star slash rest, star.code = Code.star ∧ slash.code = Code.slash ∧
      ¬Closes (body ++ [star]) ∧ cs = body ++ star :: slash :: rest) ∨ ¬Closes cs := by
  induction cs with
  | nil => exact .inr not_closes_nil
  | cons c cs ih =>
    by_cases hmark : c.code = Code.star ∧ cs.head?.any (·.code == Code.slash) = true
    · obtain ⟨hstar, hslash⟩ := hmark
      cases cs with
      | nil => cases hslash
      | cons slash rest =>
        refine .inl ⟨[], c, slash, rest, hstar, by simpa using hslash, ?_, rfl⟩
        simp [closes_cons, not_closes_nil]
    · rcases ih with ⟨body, star, slash, rest, hstar, hslash, hbody, rfl⟩ | hopen
      · refine .inl ⟨c :: body, star, slash, rest, hstar, hslash, ?_, rfl⟩
        rw [List.cons_append, closes_cons, not_or]
        refine ⟨?_, hbody⟩
        rwa [List.head?_append, List.head?_cons] at hmark ⊢
      · exact .inr (by rw [closes_cons, not_or]; exact ⟨hmark, hopen⟩)

end Character

namespace Reader

theorem commentLength_closed {body : List Character} {star slash : Character}
    (hbody : ¬Character.Closes (body ++ [star])) (hstar : star.code = Code.star)
    (hslash : slash.code = Code.slash) (n : Nat) (rest : List Character) :
    commentLength n (body ++ star :: slash :: rest) = some (n + body.length + 2) := by
  induction body generalizing n with
  | nil => simp [commentLength, hstar, hslash]
  | cons c body ih =>
    rw [List.cons_append, Character.closes_cons, not_or, List.head?_append, List.head?_cons]
      at hbody
    rw [List.cons_append, commentLength, List.head?_append, List.head?_cons, if_neg]
    · rw [ih hbody.2, List.length_cons, Nat.add_right_comm n, Nat.add_assoc n]
    · simpa using hbody.1

theorem commentLength_open {cs : List Character} (h : ¬Character.Closes cs) (n : Nat) :
    commentLength n cs = none := by
  induction cs generalizing n with
  | nil => rfl
  | cons c cs ih =>
    rw [Character.closes_cons, not_or] at h
    rw [commentLength, if_neg, ih h.2]
    simpa using h.1

end Reader

namespace Reader

variable {r : Reader}

theorem sees_of_rest {c : Character} {cs : List Character} (h : r.rest = c :: cs) (code : Nat) :
    r.sees code = (c.code == code) := by
  simp [sees, peek?, h]

theorem seesPair_of_rest {c d : Character} {cs : List Character} (h : r.rest = c :: d :: cs)
    (a b : Nat) : r.seesPair a b = (c.code == a && d.code == b) := by
  rw [seesPair, h]

theorem seesPair_of_last {c : Character} (h : r.rest = [c]) (a b : Nat) :
    r.seesPair a b = false := by
  rw [seesPair, h]

theorem readLiteral_closed {opening closing : Character} {body rest : List Character}
    (hopening : opening.code = Code.quote) (hbody : Literal.Body body)
    (hclosing : closing.code = Code.quote) (hrest : r.rest = opening :: (body ++ closing :: rest)) :
    r.readLiteral = (.ok ⟨Literal.valueFrom [] body,
      Text.ofCharacters (opening :: (body ++ [closing]))⟩, r.skip (body.length + 2)) ∧
      (r.skip (body.length + 2)).rest = rest := by
  have hsplit : r.rest = (opening :: (body ++ [closing])) ++ rest := by simp [hrest]
  have hlength : (opening :: (body ++ [closing])).length = body.length + 2 := by simp
  have hdrop : r.rest.drop 1 = body ++ closing :: rest := by rw [hrest]; rfl
  refine ⟨?_, by rw [skip_rest, hsplit, List.drop_left' hlength]⟩
  simp only [readLiteral, sees_of_rest hrest, hopening, hdrop,
    Literal.splitFrom_closed hbody hclosing rest]
  rw [hsplit, List.take_left' hlength]
  rfl

theorem readLiteral_unclosed {opening : Character} {body : List Character}
    (hopening : opening.code = Code.quote) (hbody : Literal.Unclosed body)
    (hrest : r.rest = opening :: body) :
    r.readLiteral = (.error ⟨r.position, .unterminatedLiteral⟩, r.toEnd) := by
  have hdrop : r.rest.drop 1 = body := by rw [hrest]; rfl
  simp only [readLiteral, sees_of_rest hrest, hopening, hdrop, Literal.splitFrom_unclosed hbody]
  rfl

end Reader

/-! ## The grammar -/

/-- A token of text without directives. -/
inductive Token where
  /-- A string literal, as written. -/
  | literal (raw : Text)
  /-- A comment. -/
  | comment
  /-- A macro expansion. -/
  | expansion (name : Text)
  /-- Any other character. -/
  | character (c : Character)
deriving DecidableEq, Repr

namespace Token

/-- The construct that a token is read as. -/
def construct : Token → Construct
  | literal raw => .literal raw
  | comment => .comment
  | expansion name => .expansion name
  | character c => .character c.bytes

/-- What a token stands for in the output.  The value of a macro is not looked
into. -/
def output (macros : Macros) : Token → Text
  | literal raw => raw
  | comment => []
  | expansion name => (macros.get? name).getD []
  | character c => c.bytes

/-- The marks that begin a token of more than one character. -/
def marks : List (List Nat) :=
  [[Code.quote], [Code.atSign], [Code.slash, Code.slash], [Code.slash, Code.star]]

/-- The characters begin with one of the marks. -/
def Opens (cs : List Character) : Prop := ∃ mark ∈ marks, mark <+: cs.map Character.code

instance (cs : List Character) : Decidable (Opens cs) :=
  inferInstanceAs (Decidable (∃ mark ∈ marks, _))

/-- The first characters are a token, and `rest` is behind it. -/
inductive At : List Character → Token → List Character → Prop where
  /-- A literal goes to the first quote that is not hidden.  It may span lines. -/
  | literal {opening closing : Character} {body rest : List Character}
      (hopening : opening.code = Code.quote) (hbody : Literal.Body body)
      (hclosing : closing.code = Code.quote) :
      At (opening :: (body ++ closing :: rest))
        (.literal (Text.ofCharacters (opening :: (body ++ [closing])))) rest
  /-- A line comment goes through the end of its line. -/
  | lineComment {first second ending : Character} {line rest : List Character}
      (hfirst : first.code = Code.slash) (hsecond : second.code = Code.slash)
      (hline : ∀ c ∈ line, c.code ≠ Code.newline) (hending : ending.code = Code.newline) :
      At (first :: second :: (line ++ ending :: rest)) .comment rest
  /-- In the last line it goes to the end of the text. -/
  | lastComment {first second : Character} {line : List Character}
      (hfirst : first.code = Code.slash) (hsecond : second.code = Code.slash)
      (hline : ∀ c ∈ line, c.code ≠ Code.newline) : At (first :: second :: line) .comment []
  /-- A block comment goes through the first closing mark behind its opening mark. -/
  | blockComment {first second star slash : Character} {body rest : List Character}
      (hfirst : first.code = Code.slash) (hsecond : second.code = Code.star)
      (hbody : ¬Character.Closes (body ++ [star])) (hstar : star.code = Code.star)
      (hslash : slash.code = Code.slash) :
      At (first :: second :: (body ++ star :: slash :: rest)) .comment rest
  /-- An expansion is an identifier between two `@`. -/
  | expansion {opening closing : Character} {name rest : List Character}
      (hopening : opening.code = Code.atSign) (hname : name ≠ [])
      (hidentifier : ∀ c ∈ name, c.isIdentifier = true) (hclosing : closing.code = Code.atSign) :
      At (opening :: (name ++ closing :: rest)) (.expansion (Text.ofCharacters name)) rest
  /-- Where no mark stands, one character is a token. -/
  | character {c : Character} {rest : List Character} (hplain : ¬Opens (c :: rest)) :
      At (c :: rest) (.character c) rest

/-- The first characters begin a token that does not end.  It is noticed behind the
characters `passed`, where the flaw is reported. -/
inductive Broken : List Character → List Character → Flaw → Prop where
  | literal {opening : Character} {body : List Character} (hopening : opening.code = Code.quote)
      (hbody : Literal.Unclosed body) : Broken (opening :: body) [] .unterminatedLiteral
  | comment {first second : Character} {body : List Character} (hfirst : first.code = Code.slash)
      (hsecond : second.code = Code.star) (hbody : ¬Character.Closes body) :
      Broken (first :: second :: body) [] .unterminatedComment
  | missingName {opening : Character} {rest : List Character}
      (hopening : opening.code = Code.atSign)
      (hrest : ∀ c, rest.head? = some c → c.isIdentifier = false) :
      Broken (opening :: rest) [opening] (.missingName .expansion)
  | expansion {opening : Character} {name rest : List Character}
      (hopening : opening.code = Code.atSign) (hname : name ≠ [])
      (hidentifier : ∀ c ∈ name, c.isIdentifier = true)
      (hrest : ∀ c, rest.head? = some c → c.isIdentifier = false ∧ c.code ≠ Code.atSign) :
      Broken (opening :: (name ++ rest)) (opening :: name)
        (.unterminatedExpansion (Text.ofCharacters name))

/-- The characters are the tokens, one after the other, and then `rest`. -/
inductive Splits : List Character → List Token → List Character → Prop where
  | nil (cs : List Character) : Splits cs [] cs
  | cons {cs between rest : List Character} {token : Token} {tokens : List Token}
      (hat : At cs token between) (h : Splits between tokens rest) :
      Splits cs (token :: tokens) rest

/-- A token has at least one character. -/
theorem At.exists_append {cs rest : List Character} {token : Token} (h : At cs token rest) :
    ∃ c lexeme, cs = c :: (lexeme ++ rest) := by
  cases h with
  | @literal opening closing body => exact ⟨opening, body ++ [closing], by simp⟩
  | @lineComment first second ending line => exact ⟨first, second :: (line ++ [ending]), by simp⟩
  | @lastComment first second line => exact ⟨first, second :: line, by simp⟩
  | @blockComment first second star slash body =>
    exact ⟨first, second :: (body ++ [star, slash]), by simp⟩
  | @expansion opening closing name => exact ⟨opening, name ++ [closing], by simp⟩
  | @character c => exact ⟨c, [], rfl⟩

theorem At.shorter {cs rest : List Character} {token : Token} (h : At cs token rest) :
    rest.length < cs.length := by
  obtain ⟨c, lexeme, rfl⟩ := h.exists_append
  rw [List.length_cons, List.length_append]
  omega

theorem At.isSuffix {cs rest : List Character} {token : Token} (h : At cs token rest) :
    rest <:+ cs := by
  obtain ⟨c, lexeme, rfl⟩ := h.exists_append
  exact (List.suffix_append lexeme rest).trans (List.suffix_cons c _)

theorem Splits.isSuffix {cs rest : List Character} {tokens : List Token}
    (h : Splits cs tokens rest) : rest <:+ cs := by
  induction h with
  | nil cs => exact List.suffix_refl cs
  | cons hat _ ih => exact ih.trans hat.isSuffix

theorem Broken.ne_nil {cs passed : List Character} {flaw : Flaw} (h : Broken cs passed flaw) :
    cs ≠ [] := by
  cases h <;> exact List.cons_ne_nil _ _

/-! ### Every text splits -/

theorem at_or_broken_of_quote {opening : Character} (cs : List Character)
    (hopening : opening.code = Code.quote) :
    (∃ token rest, At (opening :: cs) token rest) ∨
      ∃ passed flaw, Broken (opening :: cs) passed flaw := by
  rcases Literal.closed_or_unclosed [] cs with ⟨body, closing, rest, hbody, hclosing, rfl⟩ | hbody
  · exact .inl ⟨_, rest, .literal hopening hbody hclosing⟩
  · exact .inr ⟨_, _, .literal hopening hbody⟩

theorem at_or_broken_of_atSign {opening : Character} (cs : List Character)
    (hopening : opening.code = Code.atSign) :
    (∃ token rest, At (opening :: cs) token rest) ∨
      ∃ passed flaw, Broken (opening :: cs) passed flaw := by
  have hidentifier : ∀ c ∈ cs.takeWhile Character.isIdentifier, c.isIdentifier = true :=
    fun c hc => List.mem_takeWhile_imp hc
  have hbehind : ∀ c, (cs.dropWhile Character.isIdentifier).head? = some c →
      c.isIdentifier = false := by
    intro c hc
    have hhead := List.head?_dropWhile_not Character.isIdentifier cs
    rw [hc] at hhead
    simpa using hhead
  have hcs : cs.takeWhile Character.isIdentifier ++ cs.dropWhile Character.isIdentifier = cs :=
    List.takeWhile_append_dropWhile
  by_cases hname : cs.takeWhile Character.isIdentifier = []
  · rw [hname, List.nil_append] at hcs
    rw [hcs] at hbehind
    exact .inr ⟨_, _, .missingName hopening hbehind⟩
  · rw [← hcs]
    cases hdrop : cs.dropWhile Character.isIdentifier with
    | nil => exact .inr ⟨_, _, .expansion hopening hname hidentifier (by simp)⟩
    | cons closing rest =>
      by_cases hclosing : closing.code = Code.atSign
      · exact .inl ⟨_, rest, .expansion hopening hname hidentifier hclosing⟩
      · refine .inr ⟨_, _, .expansion hopening hname hidentifier ?_⟩
        intro c hc
        cases hc
        exact ⟨hbehind closing (by rw [hdrop]; rfl), hclosing⟩

theorem at_of_lineComment {first second : Character} (cs : List Character)
    (hfirst : first.code = Code.slash) (hsecond : second.code = Code.slash) :
    ∃ rest, At (first :: second :: cs) .comment rest := by
  have hline : ∀ c ∈ cs.takeWhile (·.code != Code.newline), c.code ≠ Code.newline :=
    fun c hc => by simpa using List.mem_takeWhile_imp hc
  rw [← List.takeWhile_append_dropWhile (p := (·.code != Code.newline)) (l := cs)]
  cases hdrop : cs.dropWhile (·.code != Code.newline) with
  | nil =>
    rw [List.append_nil]
    exact ⟨[], .lastComment hfirst hsecond hline⟩
  | cons ending rest =>
    have hhead := List.head?_dropWhile_not (fun c : Character => c.code != Code.newline) cs
    rw [hdrop] at hhead
    exact ⟨rest, .lineComment hfirst hsecond hline (by simpa using hhead)⟩

theorem at_or_broken_of_blockComment {first second : Character} (cs : List Character)
    (hfirst : first.code = Code.slash) (hsecond : second.code = Code.star) :
    (∃ token rest, At (first :: second :: cs) token rest) ∨
      ∃ passed flaw, Broken (first :: second :: cs) passed flaw := by
  rcases Character.closed_or_not_closes cs with
    ⟨body, star, slash, rest, hstar, hslash, hbody, rfl⟩ | hopen
  · exact .inl ⟨_, rest, .blockComment hfirst hsecond hbody hstar hslash⟩
  · exact .inr ⟨_, _, .comment hfirst hsecond hopen⟩

theorem eq_of_pair_prefix {a b : Nat} {c : Character} {cs : List Character}
    (h : [a, b] <+: (c :: cs).map Character.code) :
    ∃ d rest, cs = d :: rest ∧ c.code = a ∧ d.code = b := by
  obtain ⟨hfirst, hrest⟩ := List.cons_prefix_cons.mp h
  cases cs with
  | nil => simp at hrest
  | cons d rest => exact ⟨d, rest, rfl, hfirst.symm, (List.cons_prefix_cons.mp hrest).1.symm⟩

/-- Wherever the text goes on, a token stands or the text is broken. -/
theorem at_or_broken (c : Character) (cs : List Character) :
    (∃ token rest, At (c :: cs) token rest) ∨ ∃ passed flaw, Broken (c :: cs) passed flaw := by
  by_cases hopens : Opens (c :: cs)
  · obtain ⟨mark, hmark, hprefix⟩ := hopens
    simp only [marks, List.mem_cons, List.not_mem_nil, or_false] at hmark
    rcases hmark with rfl | rfl | rfl | rfl
    · exact at_or_broken_of_quote cs (List.cons_prefix_cons.mp hprefix).1.symm
    · exact at_or_broken_of_atSign cs (List.cons_prefix_cons.mp hprefix).1.symm
    · obtain ⟨d, rest, rfl, hfirst, hsecond⟩ := eq_of_pair_prefix hprefix
      exact .inl ⟨_, at_of_lineComment rest hfirst hsecond⟩
    · obtain ⟨d, rest, rfl, hfirst, hsecond⟩ := eq_of_pair_prefix hprefix
      exact at_or_broken_of_blockComment rest hfirst hsecond
  · exact .inl ⟨_, cs, .character hopens⟩

/-- A text splits into tokens, to its end or to a place where it is broken. -/
theorem exists_splits (cs : List Character) :
    ∃ tokens rest, Splits cs tokens rest ∧ (rest = [] ∨ ∃ passed flaw, Broken rest passed flaw) := by
  induction hlength : cs.length using Nat.strongRecOn generalizing cs with
  | _ n ih =>
    cases cs with
    | nil => exact ⟨[], [], .nil [], .inl rfl⟩
    | cons c cs =>
      rcases at_or_broken c cs with ⟨token, between, hat⟩ | hbroken
      · obtain ⟨tokens, rest, hsplits, hrest⟩ := ih _ (hlength ▸ hat.shorter) between rfl
        exact ⟨token :: tokens, rest, .cons hat hsplits, hrest⟩
      · exact ⟨[], c :: cs, .nil _, .inr hbroken⟩

/-! ### Readers read tokens -/

variable {cs rest passed : List Character} {token : Token} {flaw : Flaw} {r : Reader}

theorem opens_iff (r : Reader) :
    Opens r.rest ↔ r.sees Code.quote = true ∨ r.sees Code.atSign = true ∨
      r.seesPair Code.slash Code.slash = true ∨ r.seesPair Code.slash Code.star = true := by
  simp only [Opens, marks, List.exists_mem_cons_iff, List.not_mem_nil, false_and, exists_false,
    or_false]
  match hrest : r.rest with
  | [] => simp [Reader.sees, Reader.peek?, Reader.seesPair, hrest]
  | [c] =>
    simp only [Reader.sees_of_rest hrest, Reader.seesPair_of_last hrest, List.map_cons,
      List.map_nil, List.cons_prefix_cons, List.prefix_rfl, List.prefix_nil, List.cons_ne_self,
      beq_iff_eq, and_true, and_false, or_self, or_false, Bool.false_eq_true]
    omega
  | c :: d :: cs =>
    simp only [Reader.sees_of_rest hrest, Reader.seesPair_of_rest hrest, List.map_cons,
      List.cons_prefix_cons, List.nil_prefix, beq_iff_eq, Bool.and_eq_true, and_true]
    omega

theorem read_literal {opening closing : Character} {body : List Character}
    (hopening : opening.code = Code.quote) (hbody : Literal.Body body)
    (hclosing : closing.code = Code.quote) (hrest : r.rest = opening :: (body ++ closing :: rest)) :
    Construct.read r = .ok (.literal (Text.ofCharacters (opening :: (body ++ [closing]))),
      r.skip (body.length + 2)) ∧ (r.skip (body.length + 2)).rest = rest := by
  obtain ⟨hliteral, hbehind⟩ := Reader.readLiteral_closed hopening hbody hclosing hrest
  refine ⟨?_, hbehind⟩
  simp only [Construct.read, Reader.sees_of_rest hrest, hopening, hliteral]
  rfl

theorem read_lineComment {first second : Character} (hfirst : first.code = Code.slash)
    (hsecond : second.code = Code.slash) (hrest : r.rest = first :: second :: cs) :
    Construct.read r = .ok (.comment, r.skipLine) := by
  simp only [Construct.read, Reader.sees_of_rest hrest, Reader.seesPair_of_rest hrest, hfirst,
    hsecond]
  rfl

theorem read_blockComment {first second star slash : Character} {body : List Character}
    (hfirst : first.code = Code.slash) (hsecond : second.code = Code.star)
    (hbody : ¬Character.Closes (body ++ [star])) (hstar : star.code = Code.star)
    (hslash : slash.code = Code.slash)
    (hrest : r.rest = first :: second :: (body ++ star :: slash :: rest)) :
    Construct.read r = .ok (.comment, r.skip (body.length + 4)) ∧
      (r.skip (body.length + 4)).rest = rest := by
  have hsplit : r.rest = (first :: second :: (body ++ [star, slash])) ++ rest := by simp [hrest]
  have hlength : (first :: second :: (body ++ [star, slash])).length = body.length + 4 := by simp
  have hcomment := Reader.commentLength_closed hbody hstar hslash 2 rest
  have hdrop : r.rest.drop 2 = body ++ star :: slash :: rest := by rw [hrest]; rfl
  refine ⟨?_, by rw [Reader.skip_rest, hsplit, List.drop_left' hlength]⟩
  simp only [Construct.read, Reader.sees_of_rest hrest, Reader.seesPair_of_rest hrest, hfirst,
    hsecond, Reader.skipComment, hdrop, hcomment]
  rw [Nat.add_comm 2 body.length]
  rfl

/-- Behind the `@` the reader takes the identifier as a whole. -/
theorem exists_readIdentifier {opening : Character} {name : List Character}
    (hidentifier : ∀ c ∈ name, c.isIdentifier = true)
    (hbehind : ∀ c, rest.head? = some c → c.isIdentifier = false)
    (hrest : r.rest = opening :: (name ++ rest)) :
    ∃ r', (r.skip 1).readIdentifier = (Text.ofCharacters name, r') ∧
      r.Reads (opening :: name) r' ∧ r'.rest = rest := by
  have hone : (r.skip 1).rest = name ++ rest := by rw [Reader.skip_rest, hrest]; rfl
  have hnone : rest.takeWhile Character.isIdentifier = [] := by
    cases rest with
    | nil => rfl
    | cons c rest => rw [List.takeWhile_cons_of_neg (by simp [hbehind c rfl])]
  have htake : (r.skip 1).rest.takeWhile Character.isIdentifier = name := by
    rw [hone, List.takeWhile_append_of_pos hidentifier, hnone, List.append_nil]
  have hreads := (Reader.reads_skip 1 r).trans
    (Reader.reads_skipWhile Character.isIdentifier (r.skip 1))
  rw [htake, hrest] at hreads
  refine ⟨_, by rw [Reader.readIdentifier, Reader.readWhile, htake], hreads, ?_⟩
  have hlength := hreads.rest_eq
  rw [hrest] at hlength
  exact (List.append_cancel_left (List.cons.inj hlength).2).symm

theorem readExpansion_of_name {name : Text} {r' : Reader}
    (hread : (r.skip 1).readIdentifier = (name, r')) (hname : name ≠ []) :
    Construct.readExpansion r =
      if r'.sees Code.atSign then .ok (.expansion name, r'.skip 1)
      else .error ⟨r'.position, .unterminatedExpansion name⟩ := by
  obtain ⟨b, name, rfl⟩ := List.exists_cons_of_ne_nil hname
  rw [Construct.readExpansion]
  simp only [hread]

theorem read_of_atSign {opening : Character} (hopening : opening.code = Code.atSign)
    (hrest : r.rest = opening :: cs) : Construct.read r = Construct.readExpansion r := by
  simp only [Construct.read, Reader.sees_of_rest hrest, hopening]
  rfl

theorem ofCharacters_ne_nil {name : List Character} (hname : name ≠ [])
    (hbytes : ∀ c ∈ name, c.bytes ≠ []) : Text.ofCharacters name ≠ [] := by
  obtain ⟨c, name, rfl⟩ := List.exists_cons_of_ne_nil hname
  rw [Text.ofCharacters, List.flatMap_cons]
  exact List.append_ne_nil_of_left_ne_nil (hbytes c List.mem_cons_self) _

theorem lineComment_within {first second : Character} {line : List Character}
    (hfirst : first.code = Code.slash) (hsecond : second.code = Code.slash)
    (hline : ∀ c ∈ line, c.code ≠ Code.newline) :
    ∀ c ∈ first :: second :: line, c.code ≠ Code.newline := by
  refine List.forall_mem_cons.mpr ⟨?_, List.forall_mem_cons.mpr ⟨?_, hline⟩⟩
  · rw [hfirst]; decide
  · rw [hsecond]; decide

/-- A reader reads the token that stands at it. -/
theorem At.read (h : At cs token rest) (hrest : r.rest = cs)
    (hbytes : ∀ c ∈ r.rest, c.bytes ≠ []) (hhash : r.sees Code.hash = false) :
    ∃ r', Construct.read r = .ok (token.construct, r') ∧ r'.rest = rest := by
  cases h with
  | literal hopening hbody hclosing => exact ⟨_, read_literal hopening hbody hclosing hrest⟩
  | lineComment hfirst hsecond hline hending =>
    refine ⟨_, read_lineComment hfirst hsecond hrest, ?_⟩
    exact (Reader.line_of_append (lineComment_within hfirst hsecond hline) hending hrest).2
  | lastComment hfirst hsecond hline =>
    refine ⟨_, read_lineComment hfirst hsecond hrest, ?_⟩
    rw [Reader.skipLine_rest, hrest, List.dropWhile_eq_nil_iff.mpr]
    · rfl
    · simpa using lineComment_within hfirst hsecond hline
  | blockComment hfirst hsecond hbody hstar hslash =>
    exact ⟨_, read_blockComment hfirst hsecond hbody hstar hslash hrest⟩
  | @expansion opening closing name rest hopening hname hidentifier hclosing =>
    have hbehind : ∀ c, (closing :: rest).head? = some c → c.isIdentifier = false := by
      intro c hc
      cases hc
      rw [Character.isIdentifier, hclosing]
      decide +kernel
    obtain ⟨r', hread, hreads, hrest'⟩ := exists_readIdentifier hidentifier hbehind hrest
    have hne := ofCharacters_ne_nil hname fun c hc => hbytes c (by simp [hrest, hc])
    refine ⟨r'.skip 1, ?_, by rw [Reader.skip_rest, hrest']; rfl⟩
    rw [read_of_atSign hopening hrest, readExpansion_of_name hread hne,
      Reader.sees_of_rest hrest', hclosing]
    rfl
  | @character c rest hplain =>
    rw [← hrest, opens_iff] at hplain
    simp only [not_or, Bool.not_eq_true] at hplain
    obtain ⟨hquote, hat, hline, hblock⟩ := hplain
    refine ⟨r.skip 1, ?_, by rw [Reader.skip_rest, hrest]; rfl⟩
    rw [Construct.read]
    simp [hhash, hat, hquote, hline, hblock, hrest, construct, Text.ofCharacters]

/-- A reader reports what is broken. -/
theorem Broken.read (h : Broken cs passed flaw) (hrest : r.rest = cs)
    (hbytes : ∀ c ∈ r.rest, c.bytes ≠ []) :
    Construct.read r = .error ⟨passed.foldl Position.after r.position, flaw⟩ := by
  cases h with
  | @literal opening body hopening hbody =>
    simp only [Construct.read, Reader.sees_of_rest hrest, hopening,
      Reader.readLiteral_unclosed hopening hbody hrest]
    rfl
  | @comment first second body hfirst hsecond hbody =>
    have hdrop : r.rest.drop 2 = body := by rw [hrest]; rfl
    simp only [Construct.read, Reader.sees_of_rest hrest, Reader.seesPair_of_rest hrest, hfirst,
      hsecond, Reader.skipComment, hdrop, Reader.commentLength_open hbody]
    rfl
  | @missingName opening rest hopening hbehind =>
    obtain ⟨r', hread, -, -⟩ :=
      exists_readIdentifier (List.forall_mem_nil _) hbehind hrest
    rw [read_of_atSign hopening hrest, Construct.readExpansion]
    simp only [hread]
    rw [Reader.skip, hrest]
    rfl
  | @expansion opening name rest hopening hname hidentifier hbehind =>
    obtain ⟨r', hread, hreads, hrest'⟩ :=
      exists_readIdentifier hidentifier (fun c hc => (hbehind c hc).1) hrest
    have hne := ofCharacters_ne_nil hname fun c hc => hbytes c (by simp [hrest, hc])
    have hsees : r'.sees Code.atSign = false := by
      cases rest with
      | nil => simp [Reader.sees, Reader.peek?, hrest']
      | cons c rest =>
        rw [Reader.sees_of_rest hrest']
        simpa using (hbehind c rfl).2
    rw [read_of_atSign hopening hrest, readExpansion_of_name hread hne, hsees,
      hreads.position_eq]
    rfl

/-! ### Splitting is determined -/

theorem At.eq_of_hash {c : Character} (h : At (c :: cs) token rest) (hc : c.code = Code.hash) :
    token = .character c ∧ rest = cs := by
  have hno : ∀ {code : Nat}, c.code = code → code ≠ Code.hash → False :=
    fun hcode hne => hne (hcode.symm.trans hc)
  cases h with
  | literal hopening _ _ => exact (hno hopening (by decide)).elim
  | lineComment hfirst _ _ _ => exact (hno hfirst (by decide)).elim
  | lastComment hfirst _ _ => exact (hno hfirst (by decide)).elim
  | blockComment hfirst _ _ _ _ => exact (hno hfirst (by decide)).elim
  | expansion hopening _ _ _ => exact (hno hopening (by decide)).elim
  | character _ => exact ⟨rfl, rfl⟩

theorem At.eq_cons {c : Character} (h : At cs (.character c) rest) : cs = c :: rest := by
  cases h with
  | character _ => rfl

/-- At one place stands one token. -/
theorem At.unique {token' : Token} {rest' : List Character} (h : At cs token rest)
    (h' : At cs token' rest') (hbytes : ∀ c ∈ cs, c.bytes ≠ []) :
    token = token' ∧ rest = rest' := by
  cases cs with
  | nil => exact absurd h.shorter (by simp)
  | cons c cs =>
    by_cases hc : c.code = Code.hash
    · obtain ⟨rfl, rfl⟩ := h.eq_of_hash hc
      obtain ⟨rfl, rfl⟩ := h'.eq_of_hash hc
      exact ⟨rfl, rfl⟩
    · have hhash : Reader.sees Code.hash ⟨.start, c :: cs⟩ = false := by
        rw [Reader.sees_of_rest rfl]
        simpa using hc
      obtain ⟨r, hread, rfl⟩ := h.read (r := ⟨.start, c :: cs⟩) rfl hbytes hhash
      obtain ⟨r', hread', rfl⟩ := h'.read (r := ⟨.start, c :: cs⟩) rfl hbytes hhash
      rw [hread] at hread'
      obtain ⟨hconstruct, rfl⟩ := Prod.mk.inj (Except.ok.inj hread')
      refine ⟨?_, rfl⟩
      cases token with
      | character d =>
        cases token' with
        | character d' => rw [(List.cons.inj (h.eq_cons.symm.trans h'.eq_cons)).1]
        | _ => cases hconstruct
      | _ =>
        cases token' <;> cases hconstruct
        rfl

/-- A split of a part of the text is a part of the split. -/
theorem Splits.isPrefix {tokens tokens' : List Token} (h : Splits cs tokens [])
    (h' : Splits cs tokens' rest) (hbytes : ∀ c ∈ cs, c.bytes ≠ []) : tokens' <+: tokens := by
  induction h' generalizing tokens with
  | nil cs => exact List.nil_prefix
  | cons hat' _ ih =>
    cases h with
    | nil => exact absurd hat'.shorter (by simp)
    | cons hat hsplits =>
      obtain ⟨rfl, rfl⟩ := hat.unique hat' hbytes
      exact List.cons_prefix_cons.mpr
        ⟨rfl, ih hsplits fun c hc => hbytes c (hat.isSuffix.subset hc)⟩

/-! ## Texts without directives -/

/-- No `#` stands outside literals and comments, as far as the text splits. -/
def HashFree (cs : List Character) : Prop :=
  ∀ tokens rest, Splits cs tokens rest → ∀ c, .character c ∈ tokens → c.code ≠ Code.hash

/-- If the text splits to its end, one split is enough to see it. -/
theorem HashFree.of_splits {tokens : List Token} (h : Splits cs tokens [])
    (hbytes : ∀ c ∈ cs, c.bytes ≠ [])
    (hno : ∀ c, .character c ∈ tokens → c.code ≠ Code.hash) : HashFree cs := by
  intro tokens' rest h' c hc
  exact hno c ((h.isPrefix h' hbytes).subset hc)

theorem HashFree.behind (h : HashFree cs) (hat : At cs token rest) : HashFree rest := by
  intro tokens after hsplits c hc
  exact h (token :: tokens) after (.cons hat hsplits) c (List.mem_cons_of_mem _ hc)

theorem HashFree.sees (h : HashFree cs) (hat : At cs token rest) (hrest : r.rest = cs) :
    r.sees Code.hash = false := by
  cases cs with
  | nil => exact absurd hat.shorter (by simp)
  | cons c cs =>
    rw [Reader.sees_of_rest hrest]
    by_contra hsees
    have hc : c.code = Code.hash := by simpa using hsees
    obtain ⟨rfl, -⟩ := hat.eq_of_hash hc
    exact h [.character c] rest (.cons hat (.nil rest)) c List.mem_cons_self hc

end Token

end XsPrep
