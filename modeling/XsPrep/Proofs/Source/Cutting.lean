import XsPrep.Proofs.Source.LineEnds

/-!
# Cut texts

A text is cut behind a line.  What stands before the cut is read the same, at the same
positions, with the text behind the cut and without it (`Construct.read_cutOff`).  There is one
exception: a literal or a comment that lacks its closing mark before the cut may have it behind
the cut, and then it reaches beyond the cut.
-/

namespace XsPrep

/-- Whether a construct lacks its closing mark up to the end of the text. -/
def Flaw.isUnterminated : Flaw → Bool
  | .unterminatedLiteral => true
  | .unterminatedComment => true
  | _ => false

/-- A literal with a line end in it has a value. -/
theorem Literal.Body.value_not_isEmpty {body : List Character} (h : Body body)
    (hspelled : ∀ c ∈ body, c.Spelled) {c : Character} (hc : c ∈ body)
    (hcode : c.code = Code.newline) : (valueFrom [] body).isEmpty = false := by
  rw [Bool.eq_false_iff]
  intro hempty
  have hvalue : Byte.newline ∉ valueFrom [] body := by
    rw [List.isEmpty_iff.mp hempty]
    exact List.not_mem_nil
  exact (h.no_newline hspelled hvalue).2 c hc hcode

/-- A literal that is open at the cut is closed by a quote behind the cut. -/
theorem Literal.Unclosed.closed_behind {cs behind body after : List Character}
    {closing : Character} (hcs : Unclosed cs) (hbody : Body body)
    (hclosing : closing.code = Code.quote) (hsplit : cs ++ behind = body ++ closing :: after) :
    ∃ more, body = cs ++ more ∧ behind = more ++ closing :: after := by
  rcases List.append_eq_append_iff.mp hsplit with hinside | ⟨more, hmore, hbehind⟩
  · exact hinside
  · cases more with
    | nil => exact ⟨[], by simpa using hmore.symm, by simpa using hbehind.symm⟩
    | cons d more =>
      -- The quote would be before the cut.
      obtain ⟨rfl, -⟩ := List.cons.inj hbehind
      have hnone := splitFrom_unclosed hcs
      rw [hmore, splitFrom_closed hbody hclosing] at hnone
      cases hnone

namespace Reader

/-- The readers are at one place.  The one has the text up to the cut, the other has the text
`behind` the cut too. -/
structure Front (behind : List Character) (r₀ r : Reader) : Prop where
  rest_eq : r.rest = r₀.rest ++ behind
  position_eq : r.position = r₀.position

/-- The readers are at one place before the cut, and the cut is behind a line. -/
structure CutOff (behind : List Character) (r₀ r : Reader) : Prop extends
    Front behind r₀ r where
  lines : behind = [] ∨ Character.EndLine r₀.rest

variable {behind : List Character} {r₀ r q₀ q : Reader}

/-- Two ways that leave the same before the cut lead to one place. -/
theorem Front.of_leadsTo (h : Front behind r₀ r) (hway₀ : r₀.LeadsTo q₀) (hway : r.LeadsTo q)
    (hrest : q.rest = q₀.rest ++ behind) : Front behind q₀ q := by
  obtain ⟨cs₀, hreads₀⟩ := hway₀
  obtain ⟨cs, hreads⟩ := hway
  have hcs : cs = cs₀ := by
    have hall := h.rest_eq
    rw [hreads.rest_eq, hreads₀.rest_eq, hrest, List.append_assoc] at hall
    exact List.append_cancel_right hall
  refine ⟨hrest, ?_⟩
  rw [hreads.position_eq, hreads₀.position_eq, hcs, h.position_eq]

theorem lt_commentLength {n m : Nat} {cs : List Character} (h : commentLength n cs = some m) :
    n < m := by
  induction cs generalizing n with
  | nil => cases h
  | cons c cs ih =>
    rw [commentLength] at h
    split at h
    · cases h
      omega
    · exact Nat.lt_of_succ_lt (ih h)

/-- The mark that closes a comment is found before the cut without the text behind the cut. -/
theorem commentLength_of_append {n m : Nat} {cs : List Character}
    (h : commentLength n (cs ++ behind) = some m) (hle : m ≤ n + cs.length) :
    commentLength n cs = some m := by
  induction cs generalizing n with
  | nil =>
    have hlt := lt_commentLength h
    rw [List.length_nil] at hle
    omega
  | cons c cs ih =>
    rw [List.cons_append, commentLength] at h
    rw [commentLength]
    rw [List.length_cons] at hle
    cases cs with
    | nil =>
      -- The mark has two characters, and one is left before the cut.
      split at h
      · cases h
        simp at hle
      · have hlt := lt_commentLength h
        simp at hle
        omega
    | cons d cs =>
      rw [List.cons_append, List.head?_cons] at h
      rw [List.head?_cons]
      split at h
      · rename_i hmark
        rw [if_pos hmark]
        exact h
      · rename_i hmark
        rw [if_neg hmark]
        exact ih h (by omega)

namespace CutOff

theorem toExtends (h : CutOff behind r₀ r) : r₀.Extends behind r := ⟨h.rest_eq, h.lines⟩

theorem of_leadsTo (h : CutOff behind r₀ r) (hway₀ : r₀.LeadsTo q₀) (hway : r.LeadsTo q)
    (hext : q₀.Extends behind q) : CutOff behind q₀ q :=
  ⟨h.toFront.of_leadsTo hway₀ hway hext.rest_eq, hext.lines⟩

theorem skip_one (h : CutOff behind r₀ r) {code : Nat} (hsees : r₀.sees code = true)
    (hcode : code ≠ Code.newline) : CutOff behind (r₀.skip 1) (r.skip 1) :=
  h.of_leadsTo (leadsTo_skip 1 r₀) (leadsTo_skip 1 r) (h.toExtends.skip_one hsees hcode)

theorem skipBlanks (h : CutOff behind r₀ r) : CutOff behind r₀.skipBlanks r.skipBlanks :=
  h.of_leadsTo (leadsTo_skipBlanks r₀) (leadsTo_skipBlanks r) h.toExtends.skipBlanks

theorem readIdentifier (h : CutOff behind r₀ r) :
    r.readIdentifier.1 = r₀.readIdentifier.1 ∧
      CutOff behind r₀.readIdentifier.2 r.readIdentifier.2 := by
  obtain ⟨hname, hext⟩ := h.toExtends.readIdentifier
  exact ⟨hname, h.of_leadsTo (leadsTo_readIdentifier r₀) (leadsTo_readIdentifier r) hext⟩

theorem readKeyword (h : CutOff behind r₀ r) (hhash : r₀.sees Code.hash = true) :
    r.readKeyword.1 = r₀.readKeyword.1 ∧ CutOff behind r₀.readKeyword.2 r.readKeyword.2 :=
  (h.skip_one hhash (by decide)).skipBlanks.readIdentifier

/-- The lines end together, at the cut at the latest. -/
theorem skipLine (h : CutOff behind r₀ r) : Front behind r₀.skipLine r.skipLine :=
  h.toFront.of_leadsTo (leadsTo_skipLine r₀) (leadsTo_skipLine r) h.toExtends.skipLine_rest

theorem readLiteral_ok (h : CutOff behind r₀ r) {literal : Literal}
    (hread : r₀.readLiteral = (.ok literal, q₀)) :
    ∃ q, r.readLiteral = (.ok literal, q) ∧ CutOff behind q₀ q := by
  obtain ⟨q, hread', hext⟩ := h.toExtends.readLiteral_ok hread
  have hway₀ := leadsTo_readLiteral r₀
  have hway := leadsTo_readLiteral r
  rw [hread] at hway₀
  rw [hread'] at hway
  exact ⟨q, hread', h.of_leadsTo hway₀ hway hext⟩

theorem skipComment_ok (h : CutOff behind r₀ r)
    (hpair : r₀.seesPair Code.slash Code.star = true) (hread : r₀.skipComment = (.ok (), q₀)) :
    ∃ q, r.skipComment = (.ok (), q) ∧ Front behind q₀ q := by
  obtain ⟨q, hread', hrest⟩ := h.toExtends.skipComment_ok hpair hread
  have hway₀ := leadsTo_skipComment r₀
  have hway := leadsTo_skipComment r
  rw [hread] at hway₀
  rw [hread'] at hway
  exact ⟨q, hread', h.toFront.of_leadsTo hway₀ hway hrest⟩

/-- A literal with a flaw before the cut has the flaw, or it ends behind the cut and has a line
end in its value. -/
theorem readLiteral_error (h : CutOff behind r₀ r) (hspelled : ∀ c ∈ r.rest, c.Spelled)
    {e : SourceError} (hread : r₀.readLiteral = (.error e, q₀)) :
    (∃ q, r.readLiteral = (.error e, q)) ∨
      e.flaw.isUnterminated = true ∧ ∃ literal q, r.readLiteral = (.ok literal, q) ∧
        literal.value.isEmpty = false ∧ q.rest.length < behind.length := by
  have hsees := h.toExtends.sees_eq Code.quote
  by_cases hquote : r₀.sees Code.quote = true
  · cases hrest₀ : r₀.rest with
    | nil => simp [sees, peek?, hrest₀] at hquote
    | cons opening cs =>
      have hopening : opening.code = Code.quote := by
        simpa [sees, peek?, hrest₀] using hquote
      have hrest : r.rest = opening :: (cs ++ behind) := by rw [h.rest_eq, hrest₀]; rfl
      rcases Literal.closed_or_unclosed [] cs with
        ⟨body, closing, after, hbody, hclosing, rfl⟩ | hcs
      · rw [(readLiteral_closed hopening hbody hclosing hrest₀).1] at hread
        cases hread
      · rw [readLiteral_unclosed hopening hcs hrest₀] at hread
        cases hread
        rcases Literal.closed_or_unclosed [] (cs ++ behind) with
          ⟨body, closing, after, hbody, hclosing, hsplit⟩ | hopen
        · obtain ⟨hclosed, hafter⟩ := readLiteral_closed hopening hbody hclosing (hsplit ▸ hrest)
          obtain ⟨more, rfl, rfl⟩ := hcs.closed_behind hbody hclosing hsplit
          refine .inr ⟨rfl, _, _, hclosed, ?_, ?_⟩
          · -- The last character before the cut is a line end, and it is in the literal.
            obtain ⟨c, hc, hcode⟩ : ∃ c ∈ cs, c.code = Code.newline := by
              have hline := h.lines.resolve_left (by simp)
              rw [hrest₀, Character.EndLine, Option.map_eq_some_iff] at hline
              obtain ⟨c, hlast, hcode⟩ := hline
              rcases List.mem_cons.mp (List.mem_of_getLast? hlast) with rfl | hc
              · rw [hopening] at hcode
                cases hcode
              · exact ⟨c, hc, hcode⟩
            refine hbody.value_not_isEmpty (fun d hd => hspelled d ?_)
              (List.mem_append_left more hc) hcode
            rw [hrest, ← List.append_assoc]
            exact List.mem_cons_of_mem _ (List.mem_append_left _ hd)
          · rw [hafter]
            simp only [List.length_append, List.length_cons]
            omega
        · rw [readLiteral_unclosed hopening hopen hrest, h.position_eq]
          exact .inl ⟨_, rfl⟩
  · rw [Reader.readLiteral, if_neg hquote] at hread
    cases hread
    rw [Reader.readLiteral, hsees, if_neg hquote, h.position_eq]
    exact .inl ⟨_, rfl⟩

/-- A comment with a flaw before the cut has the flaw, or it ends behind the cut. -/
theorem skipComment_error (h : CutOff behind r₀ r)
    (hpair : r₀.seesPair Code.slash Code.star = true) {e : SourceError}
    (hread : r₀.skipComment = (.error e, q₀)) :
    (∃ q, r.skipComment = (.error e, q)) ∨
      e.flaw.isUnterminated = true ∧ ∃ q, r.skipComment = (.ok (), q) ∧
        q.rest.length < behind.length := by
  have hpair' := h.toExtends.seesPair_eq (by decide : Code.slash ≠ Code.newline) Code.star
  have htwo : 2 ≤ r₀.rest.length := by
    unfold seesPair at hpair
    split at hpair
    · rename_i hrest
      simp [hrest]
    · cases hpair
  rw [Reader.skipComment, if_pos hpair] at hread
  rw [Reader.skipComment, hpair', if_pos hpair, h.rest_eq, List.drop_append_of_le_length htwo,
    h.position_eq]
  split at hread
  · cases hread
  · rename_i hnone
    cases hread
    cases hlength : commentLength 2 (r₀.rest.drop 2 ++ behind) with
    | none => exact .inl ⟨_, rfl⟩
    | some n =>
      refine .inr ⟨rfl, _, rfl, ?_⟩
      have hbeyond : ¬n ≤ 2 + (r₀.rest.drop 2).length := by
        intro hle
        rw [commentLength_of_append hlength hle] at hnone
        cases hnone
      have hwithin := (commentLength_append hlength []).2
      rw [length_skip, h.rest_eq]
      simp only [List.length_append, List.length_drop] at hbeyond hwithin ⊢
      omega

end CutOff

end Reader

/-! ## Constructs -/

namespace Construct

open Reader

/-- What is read before the cut, and what is read there with the text `behind` the cut. -/
inductive CutRead (behind : List Character) : Except SourceError (Construct × Reader) →
    Except SourceError (Construct × Reader) → Prop where
  /-- The same construct. -/
  | ok {c : Construct} {q₀ q : Reader} (hfront : q₀.Front behind q) :
      CutRead behind (.ok (c, q₀)) (.ok (c, q))
  /-- The same flaw. -/
  | error (e : SourceError) : CutRead behind (.error e) (.error e)
  /-- A construct that is open at the cut and closed behind it. -/
  | beyond {e : SourceError} {c : Construct} {q : Reader} (hflaw : e.flaw.isUnterminated = true)
      (hlength : q.rest.length < behind.length) : CutRead behind (.error e) (.ok (c, q))

variable {behind : List Character} {r₀ r : Reader}

theorem readDefine_cutOff (h : r₀.CutOff behind r) :
    CutRead behind (readDefine r₀) (readDefine r) := by
  obtain ⟨hname, hbehind⟩ := h.skipBlanks.readIdentifier
  obtain ⟨hvalue, -⟩ := hbehind.skipBlanks.toExtends.readLine
  rw [readDefine_eq, readDefine_eq, hname, hvalue, h.skipBlanks.position_eq]
  split
  · exact .error _
  · exact .ok h.skipLine

theorem readUndefine_cutOff (h : r₀.CutOff behind r) :
    CutRead behind (.ok (readUndefine r₀)) (.ok (readUndefine r)) := by
  rw [readUndefine_eq, readUndefine_eq, h.skipBlanks.readIdentifier.1, h.skipBlanks.position_eq]
  exact .ok h.skipLine

theorem readOpening_cutOff (h : r₀.CutOff behind r) (place : Position) :
    CutRead behind (readOpening place r₀) (readOpening place r) := by
  rw [readOpening_eq, readOpening_eq, h.skipBlanks.readIdentifier.1, h.skipBlanks.position_eq]
  split
  · exact .error _
  · exact .ok h.skipLine

theorem readInclude_cutOff (h : r₀.CutOff behind r) (hspelled : ∀ c ∈ r.rest, c.Spelled) :
    CutRead behind (readInclude r₀) (readInclude r) := by
  have hblanks := h.skipBlanks
  rw [readInclude, readInclude]
  cases hliteral : r₀.skipBlanks.readLiteral with
  | mk result q₀ =>
    cases result with
    | ok literal =>
      obtain ⟨q, hliteral', hq⟩ := hblanks.readLiteral_ok hliteral
      rw [hliteral', hblanks.position_eq]
      dsimp only
      split
      · exact .error _
      · exact .ok hq.skipLine
    | error e =>
      have hinner := fun c hc => hspelled c ((leadsTo_skipBlanks r).rest_subset hc)
      rcases hblanks.readLiteral_error hinner hliteral with
        ⟨q, hliteral'⟩ | ⟨hflaw, literal, q, hliteral', hvalue, hlength⟩
      · rw [hliteral']
        exact .error e
      · rw [hliteral']
        dsimp only
        rw [hvalue, if_neg Bool.false_ne_true]
        exact .beyond hflaw (Nat.lt_of_le_of_lt (length_skipLine_le q) hlength)

theorem readDirective_cutOff (h : r₀.CutOff behind r) (hspelled : ∀ c ∈ r.rest, c.Spelled)
    (hhash : r₀.sees Code.hash = true) :
    CutRead behind (readDirective r₀) (readDirective r) := by
  obtain ⟨hkeyword, hbehind⟩ := h.readKeyword hhash
  rw [readDirective, readDirective]
  dsimp only
  rw [hkeyword, h.position_eq]
  cases Directive.ofKeyword? r₀.readKeyword.1 with
  | none => exact .error _
  | some directive =>
    cases directive with
    | includeFile =>
      exact readInclude_cutOff hbehind fun c hc =>
        hspelled c ((leadsTo_readKeyword r).rest_subset hc)
    | define => exact readDefine_cutOff hbehind
    | undefine => exact readUndefine_cutOff hbehind
    | ifDefined => exact readOpening_cutOff hbehind _
    | endIf => exact .ok hbehind.skipLine

theorem readExpansion_cutOff (h : r₀.CutOff behind r) (hat : r₀.sees Code.atSign = true) :
    CutRead behind (readExpansion r₀) (readExpansion r) := by
  have hskip := h.skip_one hat (by decide)
  obtain ⟨hname, hbehind⟩ := hskip.readIdentifier
  have hread : (r.skip 1).readIdentifier =
      ((r₀.skip 1).readIdentifier.1, (r.skip 1).readIdentifier.2) := by rw [← hname]
  rw [readExpansion, readExpansion, hread, hskip.position_eq]
  cases hread₀ : (r₀.skip 1).readIdentifier with
  | mk name q₀ =>
    rw [hread₀] at hbehind
    cases name with
    | nil => exact .error _
    | cons b name =>
      dsimp only at hbehind ⊢
      rw [hbehind.toExtends.sees_eq, hbehind.position_eq]
      split
      · rename_i hclose
        exact .ok (hbehind.skip_one hclose (by decide)).toFront
      · exact .error _

/-- Before a cut the same stands as in the whole text, or something that reaches beyond the
cut. -/
theorem read_cutOff (h : r₀.CutOff behind r) (hrest : r₀.rest ≠ [])
    (hspelled : ∀ c ∈ r.rest, c.Spelled) : CutRead behind (read r₀) (read r) := by
  have hext := h.toExtends
  rw [read, read, hext.sees_eq, hext.sees_eq, hext.sees_eq, hext.seesPair_eq (by decide),
    hext.seesPair_eq (by decide)]
  split
  · rename_i hhash
    exact readDirective_cutOff h hspelled hhash
  split
  · rename_i hat
    exact readExpansion_cutOff h hat
  split
  · cases hliteral : r₀.readLiteral with
    | mk result q₀ =>
      cases result with
      | ok literal =>
        obtain ⟨q, hliteral', hq⟩ := h.readLiteral_ok hliteral
        rw [hliteral']
        exact .ok hq.toFront
      | error e =>
        rcases h.readLiteral_error hspelled hliteral with
          ⟨q, hliteral'⟩ | ⟨hflaw, literal, q, hliteral', -, hlength⟩
        · rw [hliteral']
          exact .error e
        · rw [hliteral']
          exact .beyond hflaw hlength
  split
  · exact .ok h.skipLine
  split
  · rename_i hpair
    cases hcomment : r₀.skipComment with
    | mk result q₀ =>
      cases result with
      | ok =>
        obtain ⟨q, hcomment', hq⟩ := h.skipComment_ok hpair hcomment
        rw [hcomment']
        exact .ok hq
      | error e =>
        rcases h.skipComment_error hpair hcomment with
          ⟨q, hcomment'⟩ | ⟨hflaw, q, hcomment', hlength⟩
        · rw [hcomment']
          exact .error e
        · rw [hcomment']
          exact .beyond hflaw hlength
  · rcases hext.rest_cases with ⟨hr, hr'⟩ | ⟨c, cs, hr, hr'⟩
    · exact absurd hr hrest
    · have hone : r.rest.take 1 = r₀.rest.take 1 := by rw [hr, hr']; rfl
      rw [hone]
      refine .ok (h.toFront.of_leadsTo (leadsTo_skip 1 r₀) (leadsTo_skip 1 r) ?_)
      rw [skip_rest, skip_rest, hr, hr']
      rfl

end Construct

/-- A skipped line before a cut is the same with the text behind the cut. -/
theorem SkippedLine.read_cutOff {behind : List Character} {r₀ r : Reader}
    (h : r₀.CutOff behind r) :
    (read r).1 = (read r₀).1 ∧ (read r₀).2.Front behind (read r).2 := by
  have hblanks := h.skipBlanks
  rw [read, read]
  dsimp only
  rw [hblanks.toExtends.sees_eq, hblanks.position_eq]
  split
  · rename_i hhash
    obtain ⟨hkeyword, hbehind⟩ := hblanks.readKeyword hhash
    rw [hkeyword]
    split
    · exact ⟨rfl, hbehind.skipLine⟩
    · exact ⟨rfl, hbehind.skipLine⟩
    · exact ⟨rfl, hbehind.skipLine⟩
  · exact ⟨rfl, hblanks.skipLine⟩

end XsPrep
