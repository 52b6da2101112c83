import XsPrep.Proofs.Source.Lines

/-!
# Reading at another place

What stands at a reader does not depend on where it stands.  It does not depend
on the text behind it either, as long as this begins a new line: a construct that
is complete in some lines is the same construct if more lines follow
(`Construct.read_extends`).  Only positions differ (`Construct.Alike`).

`Extends behind r r'` says that `r'` has the text of `r` before it and then
`behind`.  Each operation that stops at the end of a line at the latest keeps
this.
-/

namespace XsPrep

/-- The last character is a line end. -/
def Character.EndLine (cs : List Character) : Prop :=
  cs.getLast?.map Character.code = some Code.newline

theorem Character.EndLine.of_append (cs : List Character) {ds : List Character}
    (h : EndLine (cs ++ ds)) (hne : ds ≠ []) : EndLine ds := by
  rwa [EndLine, List.getLast?_append_of_ne_nil cs hne] at h

theorem Character.EndLine.ne_nil {cs : List Character} (h : EndLine cs) : cs ≠ [] := by
  rintro rfl
  cases h

/-- Behind a character that is no line end there are others. -/
theorem Character.EndLine.behind_ne_nil (cs : List Character) {ds : List Character}
    {c : Character} (h : EndLine (cs ++ c :: ds)) (hc : c.code ≠ Code.newline) : ds ≠ [] := by
  rintro rfl
  rw [EndLine, List.getLast?_concat] at h
  exact hc (Option.some.inj h)

namespace Reader

/-- The text at `r'` is that at `r`, with `behind` behind it, which begins a line
if there is anything. -/
structure Extends (behind : List Character) (r r' : Reader) : Prop where
  rest_eq : r'.rest = r.rest ++ behind
  lines : behind = [] ∨ Character.EndLine r.rest

namespace Extends

variable {behind : List Character} {r r' : Reader}

/-- Either both are at their ends, or the same character stands at both. -/
theorem rest_cases (h : Extends behind r r') :
    (r.rest = [] ∧ r'.rest = []) ∨ ∃ c cs, r.rest = c :: cs ∧ r'.rest = c :: (cs ++ behind) := by
  have hrest := h.rest_eq
  cases hr : r.rest with
  | nil =>
    rcases h.lines with rfl | hline
    · rw [hr] at hrest
      exact .inl ⟨rfl, hrest⟩
    · exact absurd hr hline.ne_nil
  | cons c cs =>
    rw [hr] at hrest
    exact .inr ⟨c, cs, rfl, hrest⟩

theorem sees_eq (h : Extends behind r r') (code : Nat) : r'.sees code = r.sees code := by
  rcases h.rest_cases with ⟨hr, hr'⟩ | ⟨c, cs, hr, hr'⟩ <;> simp [sees, peek?, hr, hr']

theorem seesPair_eq (h : Extends behind r r') {a : Nat} (ha : a ≠ Code.newline) (b : Nat) :
    r'.seesPair a b = r.seesPair a b := by
  have hlines := h.lines
  rcases h.rest_cases with ⟨hr, hr'⟩ | ⟨c, cs, hr, hr'⟩
  · simp [seesPair, hr, hr']
  · rw [hr] at hlines
    cases cs with
    | cons d cs => simp [seesPair, hr, hr']
    | nil =>
      rcases hlines with rfl | hline
      · simp [seesPair, hr, hr']
      · -- The one character left is a line end, so it is not the first of a pair.
        have hc : c.code = Code.newline := Option.some.inj hline
        have hne : (c.code == a) = false := by
          rw [hc]
          simpa using Ne.symm ha
        cases behind <;> simp [seesPair, hr, hr', hne]

/-! ## Moving on -/

theorem skip (h : Extends behind r r') {n : Nat} (hn : n ≤ r.rest.length)
    (hlast : behind = [] ∨ n < r.rest.length) : Extends behind (r.skip n) (r'.skip n) := by
  constructor
  · rw [skip_rest, skip_rest, h.rest_eq, List.drop_append_of_le_length hn]
  · rcases h.lines with hnil | hline
    · exact .inl hnil
    · refine hlast.imp_right fun hlt => ?_
      rw [← List.take_append_drop n r.rest] at hline
      exact hline.of_append _ (by simpa using hlt)

/-- Going over a character that is no line end. -/
theorem skip_one (h : Extends behind r r') {code : Nat} (hsees : r.sees code = true)
    (hcode : code ≠ Code.newline) : Extends behind (r.skip 1) (r'.skip 1) := by
  have hlines := h.lines
  cases hr : r.rest with
  | nil => simp [sees, peek?, hr] at hsees
  | cons c cs =>
    have hc : c.code = code := by simpa [sees, peek?, hr] using hsees
    rw [hr] at hlines
    refine h.skip (by simp [hr]) (hlines.imp_right fun hline => ?_)
    have hne := hline.behind_ne_nil [] (hc.symm ▸ hcode)
    have hpos := List.length_pos_iff.mpr hne
    simp only [hr, List.length_cons]
    omega

theorem dropWhile_append {p : Character → Bool} (hp : ∀ c, c.code = Code.newline → p c = false)
    {cs : List Character} (hlines : behind = [] ∨ Character.EndLine cs) :
    (cs ++ behind).takeWhile p = cs.takeWhile p ∧
      (cs ++ behind).dropWhile p = cs.dropWhile p ++ behind ∧
      (behind = [] ∨ Character.EndLine (cs.dropWhile p)) := by
  rcases hlines with rfl | hline
  · simp
  · induction cs with
    | nil => exact absurd rfl hline.ne_nil
    | cons c cs ih =>
      by_cases hc : p c = true
      · have hne : c.code ≠ Code.newline := by
          intro hcode
          rw [hp c hcode] at hc
          cases hc
        have hrest : Character.EndLine cs :=
          hline.of_append [c] (hline.behind_ne_nil [] hne)
        obtain ⟨htake, hdrop, hend⟩ := ih hrest
        rw [List.cons_append, List.takeWhile_cons_of_pos hc, List.takeWhile_cons_of_pos hc,
          List.dropWhile_cons_of_pos hc, List.dropWhile_cons_of_pos hc, htake, hdrop]
        exact ⟨rfl, rfl, hend⟩
      · rw [List.cons_append, List.takeWhile_cons_of_neg hc, List.takeWhile_cons_of_neg hc,
          List.dropWhile_cons_of_neg hc, List.dropWhile_cons_of_neg hc]
        exact ⟨rfl, rfl, .inr hline⟩

/-- Going over characters that are no line ends. -/
theorem readWhile (h : Extends behind r r') {p : Character → Bool}
    (hp : ∀ c, c.code = Code.newline → p c = false) :
    (r'.readWhile p).1 = (r.readWhile p).1 ∧
      Extends behind (r.readWhile p).2 (r'.readWhile p).2 := by
  obtain ⟨htake, hdrop, hlines⟩ := dropWhile_append hp h.lines
  refine ⟨?_, ?_, ?_⟩
  · rw [Reader.readWhile, Reader.readWhile, h.rest_eq, htake]
  · rw [readWhile_rest, readWhile_rest, h.rest_eq, hdrop]
  · rw [readWhile_rest]
    exact hlines

theorem skipBlanks (h : Extends behind r r') : Extends behind r.skipBlanks r'.skipBlanks := by
  refine (h.readWhile (p := Character.isBlank) fun c hc => ?_).2
  rw [Character.isBlank, hc]
  decide

theorem readIdentifier (h : Extends behind r r') :
    r'.readIdentifier.1 = r.readIdentifier.1 ∧
      Extends behind r.readIdentifier.2 r'.readIdentifier.2 := by
  refine h.readWhile fun c hc => ?_
  rw [Character.isIdentifier, hc]
  decide

theorem readLine (h : Extends behind r r') :
    r'.readLine.1 = r.readLine.1 ∧ Extends behind r.readLine.2 r'.readLine.2 :=
  h.readWhile fun c hc => by rw [hc]; decide

/-- The lines end together. -/
theorem skipLine_rest (h : Extends behind r r') :
    r'.skipLine.rest = r.skipLine.rest ++ behind := by
  have hline := h.readLine.2
  rw [Reader.skipLine, Reader.skipLine, skip_rest, skip_rest]
  show r'.readLine.2.rest.drop 1 = r.readLine.2.rest.drop 1 ++ behind
  rcases hline.rest_cases with ⟨hr, hr'⟩ | ⟨c, cs, hr, hr'⟩
  · have hnil : behind = [] := by
      have hrest := hline.rest_eq
      rw [hr, hr'] at hrest
      simpa using hrest.symm
    rw [hr, hr', hnil]
    rfl
  · rw [hr, hr']
    rfl

theorem readKeyword (h : Extends behind r r') (hhash : r.sees Code.hash = true) :
    r'.readKeyword.1 = r.readKeyword.1 ∧
      Extends behind r.readKeyword.2 r'.readKeyword.2 :=
  (h.skip_one hhash (by decide)).skipBlanks.readIdentifier

end Extends

end Reader

/-! ## Literals and comments -/

namespace Literal

theorem splitFrom_append {read cs body after : List Character}
    (h : splitFrom read cs = some (body, after)) (behind : List Character) :
    splitFrom read (cs ++ behind) = some (body, after ++ behind) := by
  fun_induction splitFrom read cs with
  | case1 => cases h
  | case2 read c cs hquote =>
    cases h
    rw [List.cons_append, splitFrom.eq_def]
    exact if_pos hquote
  | case3 read c hquote hbackslash => cases h
  | case4 read c hquote hbackslash hidden cs ih =>
    rw [List.cons_append, List.cons_append, splitFrom, if_neg hquote, if_pos hbackslash]
    exact ih h
  | case5 read c cs hquote hbackslash ih =>
    rw [List.cons_append, splitFrom.eq_def]
    exact (if_neg hquote).trans ((if_neg hbackslash).trans (ih h))

/-- Before what is left there is the closing quote, and before it the body. -/
theorem splitFrom_eq_some {read cs body after : List Character}
    (h : splitFrom read cs = some (body, after)) :
    ∃ inside closing, body = read.reverse ++ inside ∧ closing.code = Code.quote ∧
      cs = inside ++ closing :: after := by
  fun_induction splitFrom read cs with
  | case1 => cases h
  | case2 read c cs hquote =>
    cases h
    exact ⟨[], c, (List.append_nil _).symm, hquote, rfl⟩
  | case3 read c hquote hbackslash => cases h
  | case4 read c hquote hbackslash hidden cs ih =>
    obtain ⟨inside, closing, hbody, hclosing, rfl⟩ := ih h
    exact ⟨c :: hidden :: inside, closing, by simp [hbody], hclosing, rfl⟩
  | case5 read c cs hquote hbackslash ih =>
    obtain ⟨inside, closing, hbody, hclosing, rfl⟩ := ih h
    exact ⟨c :: inside, closing, by simp [hbody], hclosing, rfl⟩

end Literal

namespace Reader

theorem commentLength_append {n m : Nat} {cs : List Character}
    (h : commentLength n cs = some m) (behind : List Character) :
    commentLength n (cs ++ behind) = some m ∧ m ≤ n + cs.length := by
  induction cs generalizing n with
  | nil => cases h
  | cons c cs ih =>
    cases cs with
    | nil => simp [commentLength] at h
    | cons d cs =>
      rw [commentLength, List.head?_cons] at h
      rw [List.cons_append, commentLength, List.cons_append, List.head?_cons]
      by_cases hmark : (decide (c.code = Code.star) && (some d).any (·.code == Code.slash)) = true
      · rw [if_pos hmark] at h ⊢
        cases h
        exact ⟨rfl, by simp⟩
      · rw [if_neg hmark] at h ⊢
        obtain ⟨hbehind, hle⟩ := ih h
        refine ⟨hbehind, ?_⟩
        simp only [List.length_cons] at hle ⊢
        omega

namespace Extends

variable {behind : List Character} {r r' : Reader}

theorem readLiteral_ok (h : Extends behind r r') {literal : Literal} {q : Reader}
    (hread : r.readLiteral = (.ok literal, q)) :
    ∃ q', r'.readLiteral = (.ok literal, q') ∧ Extends behind q q' := by
  have hlines := h.lines
  rw [Reader.readLiteral] at hread
  split at hread
  · rename_i hquote
    cases hr : r.rest with
    | nil => simp [sees, peek?, hr] at hquote
    | cons opening cs =>
      rw [hr, List.drop_succ_cons, List.drop_zero] at hread
      split at hread
      · rename_i body after hsplit
        cases hread
        have hrest' : r'.rest.drop 1 = cs ++ behind := by
          rw [h.rest_eq, hr]
          rfl
        obtain ⟨inside, closing, hbody, hclosing, hcs⟩ := Literal.splitFrom_eq_some hsplit
        rw [List.reverse_nil, List.nil_append] at hbody
        subst hbody
        have hlength : r.rest.length = body.length + 2 + after.length := by
          rw [hr, hcs]
          simp only [List.length_cons, List.length_append]
          omega
        have htake : r'.rest.take (body.length + 2) = r.rest.take (body.length + 2) := by
          rw [h.rest_eq, List.take_append_of_le_length (by omega)]
        refine ⟨r'.skip (body.length + 2), ?_, h.skip (by omega) (hlines.imp_right fun hline => ?_)⟩
        · rw [Reader.readLiteral, h.sees_eq, if_pos hquote, hrest',
            Literal.splitFrom_append hsplit behind, ← hr, ← htake]
        · -- The closing quote is no line end, so it is not the last character.
          rw [hr, hcs, ← List.cons_append] at hline
          have hne := hline.behind_ne_nil _ (by rw [hclosing]; decide)
          have hpos := List.length_pos_iff.mpr hne
          omega
      · cases hread
  · cases hread

theorem readLiteral_error (h : Extends [] r r') {e : SourceError} {q : Reader}
    (hread : r.readLiteral = (.error e, q)) :
    ∃ e' q', r'.readLiteral = (.error e', q') ∧ e'.flaw = e.flaw := by
  have hrest : r'.rest = r.rest := h.rest_eq.trans (List.append_nil _)
  rw [Reader.readLiteral] at hread ⊢
  rw [h.sees_eq, hrest]
  split at hread
  · rename_i hquote
    rw [if_pos hquote]
    split at hread
    · cases hread
    · rename_i hsplit
      cases hread
      exact ⟨_, _, rfl, rfl⟩
  · rename_i hquote
    cases hread
    rw [if_neg hquote]
    exact ⟨_, _, rfl, rfl⟩

theorem skipComment_ok (h : Extends behind r r')
    (hpair : r.seesPair Code.slash Code.star = true) {q : Reader}
    (hread : r.skipComment = (.ok (), q)) :
    ∃ q', r'.skipComment = (.ok (), q') ∧ q'.rest = q.rest ++ behind := by
  have hpair' := h.seesPair_eq (by decide : Code.slash ≠ Code.newline) Code.star
  rw [Reader.skipComment, if_pos hpair] at hread
  split at hread
  · rename_i n hlength
    cases hread
    have htwo : 2 ≤ r.rest.length := by
      unfold seesPair at hpair
      split at hpair
      · rename_i hrest
        simp [hrest]
      · cases hpair
    obtain ⟨hlength', hle⟩ := commentLength_append hlength behind
    rw [List.length_drop] at hle
    refine ⟨r'.skip n, ?_, ?_⟩
    · rw [Reader.skipComment, hpair', if_pos hpair, h.rest_eq,
        List.drop_append_of_le_length htwo, hlength']
    · rw [skip_rest, skip_rest, h.rest_eq, List.drop_append_of_le_length (by omega)]
  · cases hread

theorem skipComment_error (h : Extends [] r r')
    (hpair : r.seesPair Code.slash Code.star = true) {e : SourceError} {q : Reader}
    (hread : r.skipComment = (.error e, q)) :
    ∃ e' q', r'.skipComment = (.error e', q') ∧ e'.flaw = e.flaw := by
  have hrest : r'.rest = r.rest := h.rest_eq.trans (List.append_nil _)
  have hpair' := h.seesPair_eq (by decide : Code.slash ≠ Code.newline) Code.star
  rw [Reader.skipComment, if_pos hpair] at hread
  rw [Reader.skipComment, hpair', if_pos hpair, hrest]
  split at hread
  · cases hread
  · rename_i hlength
    cases hread
    exact ⟨_, _, rfl, rfl⟩

end Extends

end Reader

/-! ## Constructs -/

namespace Construct

/-- The constructs differ in positions at most. -/
inductive Alike : Construct → Construct → Prop where
  | literal (raw : Text) : Alike (.literal raw) (.literal raw)
  | comment : Alike .comment .comment
  | character (raw : Text) : Alike (.character raw) (.character raw)
  | expansion (name : Text) : Alike (.expansion name) (.expansion name)
  | define (name value : Text) : Alike (.define name value) (.define name value)
  | undefine (name : Text) (p q : Position) : Alike (.undefine name p) (.undefine name q)
  | openBlock (name : Text) (p q : Position) : Alike (.openBlock name p) (.openBlock name q)
  | closeBlock (p q : Position) : Alike (.closeBlock p) (.closeBlock q)
  | includeFile (name : Text) (p q : Position) : Alike (.includeFile name p) (.includeFile name q)

theorem Alike.refl (c : Construct) : Alike c c := by
  cases c <;> constructor

/-- The same was read, and `behind` is left in addition. -/
inductive SameRead (behind : List Character) : Except SourceError (Construct × Reader) →
    Except SourceError (Construct × Reader) → Prop where
  | ok {c c' : Construct} {q q' : Reader} (halike : Alike c c')
      (hrest : q'.rest = q.rest ++ behind) : SameRead behind (.ok (c, q)) (.ok (c', q'))
  | error {e e' : SourceError} (hflaw : e'.flaw = e.flaw) : SameRead behind (.error e) (.error e')

variable {behind : List Character} {r r' : Reader}

theorem readDefine_extends (h : r.Extends behind r') :
    SameRead behind (readDefine r) (readDefine r') := by
  obtain ⟨hname, hbehind⟩ := h.skipBlanks.readIdentifier
  obtain ⟨hvalue, -⟩ := hbehind.skipBlanks.readLine
  rw [readDefine_eq, readDefine_eq, hname, hvalue]
  split
  · exact .error rfl
  · exact .ok (.define _ _) h.skipLine_rest

theorem readUndefine_extends (h : r.Extends behind r') :
    SameRead behind (.ok (readUndefine r)) (.ok (readUndefine r')) := by
  rw [readUndefine_eq, readUndefine_eq, h.skipBlanks.readIdentifier.1]
  exact .ok (.undefine _ _ _) h.skipLine_rest

theorem readOpening_extends (h : r.Extends behind r') (p q : Position) :
    SameRead behind (readOpening p r) (readOpening q r') := by
  rw [readOpening_eq, readOpening_eq, h.skipBlanks.readIdentifier.1]
  split
  · exact .error rfl
  · exact .ok (.openBlock _ _ _) h.skipLine_rest

theorem readInclude_extends (h : r.Extends behind r')
    (hread : behind = [] ∨ ∃ x, readInclude r = .ok x) :
    SameRead behind (readInclude r) (readInclude r') := by
  have hblanks := h.skipBlanks
  rw [readInclude] at hread ⊢
  rw [readInclude]
  cases hliteral : r.skipBlanks.readLiteral with
  | mk result q =>
    rw [hliteral] at hread
    cases result with
    | ok literal =>
      obtain ⟨q', hliteral', hq⟩ := hblanks.readLiteral_ok hliteral
      rw [hliteral']
      dsimp only
      split
      · exact .error rfl
      · exact .ok (.includeFile _ _ _) hq.skipLine_rest
    | error e =>
      rcases hread with rfl | ⟨x, hx⟩
      · obtain ⟨e', q', hliteral', hflaw⟩ := hblanks.readLiteral_error hliteral
        rw [hliteral']
        exact .error hflaw
      · cases hx

theorem readDirective_extends (h : r.Extends behind r') (hhash : r.sees Code.hash = true)
    (hread : behind = [] ∨ ∃ x, readDirective r = .ok x) :
    SameRead behind (readDirective r) (readDirective r') := by
  obtain ⟨hkeyword, hbehind⟩ := h.readKeyword hhash
  rw [readDirective] at hread ⊢
  rw [readDirective]
  dsimp only at hread ⊢
  rw [hkeyword]
  cases hdirective : Directive.ofKeyword? r.readKeyword.1 with
  | none => exact .error rfl
  | some directive =>
    rw [hdirective] at hread
    cases directive with
    | includeFile => exact readInclude_extends hbehind hread
    | define => exact readDefine_extends hbehind
    | undefine => exact readUndefine_extends hbehind
    | ifDefined => exact readOpening_extends hbehind _ _
    | endIf => exact .ok (.closeBlock _ _) hbehind.skipLine_rest

theorem readExpansion_extends (h : r.Extends behind r') (hat : r.sees Code.atSign = true) :
    SameRead behind (readExpansion r) (readExpansion r') := by
  have hskip := h.skip_one hat (by decide)
  obtain ⟨hname, hbehind⟩ := hskip.readIdentifier
  rw [readExpansion, readExpansion]
  rw [show (r'.skip 1).readIdentifier = ((r.skip 1).readIdentifier.1,
    (r'.skip 1).readIdentifier.2) by rw [← hname]]
  cases hread : (r.skip 1).readIdentifier with
  | mk name q =>
    rw [hread] at hbehind
    cases name with
    | nil => exact .error rfl
    | cons c cs =>
      dsimp only at hbehind ⊢
      rw [hbehind.sees_eq]
      split
      · rename_i hclose
        exact .ok (.expansion _) (hbehind.skip_one hclose (by decide)).rest_eq
      · exact .error rfl

/-- A construct is read the same in a longer text, if it is complete. -/
theorem read_extends (h : r.Extends behind r') (hrest : r.rest ≠ [])
    (hread : behind = [] ∨ ∃ x, read r = .ok x) : SameRead behind (read r) (read r') := by
  rw [read] at hread ⊢
  rw [read, h.sees_eq, h.sees_eq, h.sees_eq, h.seesPair_eq (by decide),
    h.seesPair_eq (by decide)]
  split
  · rename_i hhash
    rw [if_pos hhash] at hread
    exact readDirective_extends h hhash hread
  rename_i hhash
  rw [if_neg hhash] at hread
  split
  · rename_i hat
    exact readExpansion_extends h hat
  rename_i hat
  rw [if_neg hat] at hread
  split
  · rename_i hquote
    rw [if_pos hquote] at hread
    cases hliteral : r.readLiteral with
    | mk result q =>
      rw [hliteral] at hread
      cases result with
      | ok literal =>
        obtain ⟨q', hliteral', hq⟩ := h.readLiteral_ok hliteral
        rw [hliteral']
        exact .ok (.literal _) hq.rest_eq
      | error e =>
        rcases hread with rfl | ⟨x, hx⟩
        · obtain ⟨e', q', hliteral', hflaw⟩ := h.readLiteral_error hliteral
          rw [hliteral']
          exact .error hflaw
        · cases hx
  rename_i hquote
  rw [if_neg hquote] at hread
  split
  · exact .ok .comment h.skipLine_rest
  rename_i hline
  rw [if_neg hline] at hread
  split
  · rename_i hpair
    rw [if_pos hpair] at hread
    cases hcomment : r.skipComment with
    | mk result q =>
      rw [hcomment] at hread
      cases result with
      | ok =>
        obtain ⟨q', hcomment', hq⟩ := h.skipComment_ok hpair hcomment
        rw [hcomment']
        exact .ok .comment hq
      | error e =>
        rcases hread with rfl | ⟨x, hx⟩
        · obtain ⟨e', q', hcomment', hflaw⟩ := h.skipComment_error hpair hcomment
          rw [hcomment']
          exact .error hflaw
        · cases hx
  · rcases h.rest_cases with ⟨hr, hr'⟩ | ⟨c, cs, hr, hr'⟩
    · exact absurd hr hrest
    · rw [hr, hr']
      refine .ok (.character _) ?_
      rw [Reader.skip_rest, Reader.skip_rest, hr, hr']
      rfl

end Construct

namespace SkippedLine

/-- The lines differ in positions at most. -/
inductive Alike : SkippedLine → SkippedLine → Prop where
  | opens (p q : Position) : Alike (.opens p) (.opens q)
  | closes : Alike .closes .closes
  | other : Alike .other .other

theorem Alike.refl (line : SkippedLine) : Alike line line := by
  cases line <;> constructor

/-- A line is skipped the same in a longer text. -/
theorem read_extends {behind : List Character} {r r' : Reader} (h : r.Extends behind r') :
    Alike (read r).1 (read r').1 ∧ (read r').2.rest = (read r).2.rest ++ behind := by
  have hblanks := h.skipBlanks
  rw [read, read]
  dsimp only
  rw [hblanks.sees_eq]
  split
  · rename_i hhash
    obtain ⟨hkeyword, hbehind⟩ := hblanks.readKeyword hhash
    rw [hkeyword]
    split
    · exact ⟨.opens _ _, hbehind.skipLine_rest⟩
    · exact ⟨.closes, hbehind.skipLine_rest⟩
    · exact ⟨.other, hbehind.skipLine_rest⟩
  · exact ⟨.other, hblanks.skipLine_rest⟩

end SkippedLine

end XsPrep
