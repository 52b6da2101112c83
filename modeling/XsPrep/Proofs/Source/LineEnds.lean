import XsPrep.Proofs.Text.Trimming
import XsPrep.Proofs.Source.Relocation
import XsPrep.Proofs.Source.Tokens

/-!
# Line ends of two characters

`Text.crlf` puts a carriage return before every line end of a text.  The text decodes to the
same characters, with a carriage return more for each line end (`Text.characters_crlf`).

The constructs of the text are the same, up to the carriage returns in what is emitted
(`Construct.read_crlf`).  A carriage return at the end of a line is white space, so it is
skipped before an operand and dropped behind a value.  Within a line the two readers may get
out of step there: the one is at the line end, and the other has read the carriage return
already or has not (`Character.Near`).  At the end of the line they come together again
(`Reader.Near.skipLine`).
-/

namespace XsPrep

/-! ## Texts and characters -/

namespace Text

/-- The text with a carriage return before every line end. -/
def crlf (t : Text) : Text := t.flatMap fun b => if b = Byte.newline then [0x0D, b] else [b]

theorem crlf_append (s t : Text) : crlf (s ++ t) = crlf s ++ crlf t := List.flatMap_append

theorem crlf_newline (t : Text) :
    crlf (Byte.newline :: t) = 0x0D :: Byte.newline :: crlf t := rfl

theorem crlf_of_notMem {t : Text} (h : Byte.newline ∉ t) : crlf t = t := by
  induction t with
  | nil => rfl
  | cons b t ih =>
    rw [List.mem_cons, not_or] at h
    have hrest := ih h.2
    rw [crlf] at hrest ⊢
    rw [List.flatMap_cons, hrest, if_neg (Ne.symm h.1), List.singleton_append]

end Text

namespace Character

/-- A carriage return. -/
def carriageReturn : Character := ⟨0x0D, [0x0D]⟩

/-- The characters with a carriage return before every line end. -/
def crlf (cs : List Character) : List Character :=
  cs.flatMap fun c => if c.code = Code.newline then [carriageReturn, c] else [c]

@[simp] theorem crlf_nil : crlf [] = [] := rfl

theorem crlf_append (cs ds : List Character) : crlf (cs ++ ds) = crlf cs ++ crlf ds :=
  List.flatMap_append

variable {c : Character} {cs : List Character}

theorem crlf_cons_newline (hc : c.code = Code.newline) (cs : List Character) :
    crlf (c :: cs) = carriageReturn :: c :: crlf cs := by
  rw [crlf, List.flatMap_cons, if_pos hc]
  rfl

theorem crlf_cons_other (hc : c.code ≠ Code.newline) (cs : List Character) :
    crlf (c :: cs) = c :: crlf cs := by
  rw [crlf, List.flatMap_cons, if_neg hc]
  rfl

theorem crlf_of_no_newline (h : ∀ c ∈ cs, c.code ≠ Code.newline) : crlf cs = cs := by
  induction cs with
  | nil => rfl
  | cons c cs ih =>
    obtain ⟨hc, hcs⟩ := List.forall_mem_cons.mp h
    rw [crlf_cons_other hc, ih hcs]

/-- A text begins the same, or with a carriage return. -/
theorem head?_crlf (cs : List Character) :
    (crlf cs).head? = cs.head? ∨
      (crlf cs).head? = some carriageReturn ∧ ∃ c, cs.head? = some c ∧ c.code = Code.newline := by
  cases cs with
  | nil => exact .inl rfl
  | cons c cs =>
    by_cases hc : c.code = Code.newline
    · rw [crlf_cons_newline hc]
      exact .inr ⟨rfl, c, rfl, hc⟩
    · rw [crlf_cons_other hc]
      exact .inl rfl

theorem crlf_ne_nil (h : cs ≠ []) : crlf cs ≠ [] := by
  intro hnil
  rcases head?_crlf cs with hhead | ⟨hhead, -⟩
  · rw [hnil] at hhead
    exact h (List.head?_eq_none_iff.mp hhead.symm)
  · rw [hnil] at hhead
    cases hhead

theorem spelled_carriageReturn : carriageReturn.Spelled := .ascii (b := 0x0D) (by decide)

theorem isIdentifier_carriageReturn : carriageReturn.isIdentifier = false :=
  Code.isIdentifier_of_space (by decide)

theorem spelled_crlf (h : ∀ c ∈ cs, c.Spelled) : ∀ c ∈ crlf cs, c.Spelled := by
  intro c hc
  obtain ⟨d, hd, hmem⟩ := List.mem_flatMap.mp hc
  split at hmem
  · rcases List.mem_pair.mp hmem with rfl | rfl
    · exact spelled_carriageReturn
    · exact h _ hd
  · rw [List.mem_singleton.mp hmem]
    exact h d hd

end Character

namespace Text

/-- The carriage returns are characters of their own. -/
theorem characters_crlf (t : Text) : t.crlf.characters = Character.crlf t.characters := by
  induction hlength : t.length using Nat.strongRecOn generalizing t with
  | _ length ih =>
    by_cases hmem : Byte.newline ∈ t
    · obtain ⟨line, behind, rfl, hline⟩ := List.eq_append_cons_of_mem hmem
      have hrest := ih behind.length (by rw [← hlength]; simp; omega) behind rfl
      rw [crlf_append, crlf_of_notMem hline, crlf_newline,
        characters_append_fresh (.of_ascii (by decide) _), characters_ascii (by decide),
        characters_ascii (by decide), hrest, characters_newline, Character.crlf_append,
        Character.crlf_of_no_newline (newline_notMem_iff.mp hline),
        Character.crlf_cons_newline rfl]
      rfl
    · rw [crlf_of_notMem hmem, Character.crlf_of_no_newline (newline_notMem_iff.mp hmem)]

theorem crlf_ofCharacters {cs : List Character} (h : ∀ c ∈ cs, c.Spelled) :
    crlf (ofCharacters cs) = ofCharacters (Character.crlf cs) := by
  have hcons : ∀ (c : Character) (cs : List Character),
      ofCharacters (c :: cs) = c.bytes ++ ofCharacters cs := fun _ _ => List.flatMap_cons
  induction cs with
  | nil => rfl
  | cons c cs ih =>
    obtain ⟨hc, hcs⟩ := List.forall_mem_cons.mp h
    rw [hcons, crlf_append, ih hcs]
    by_cases hnewline : c.code = Code.newline
    · rw [Character.crlf_cons_newline hnewline, hcons, hcons, hc.bytes_of_newline hnewline]
      rfl
    · rw [Character.crlf_cons_other hnewline, hcons, crlf_of_notMem (hc.newline_notMem hnewline)]

/-- A carriage return behind a text is white space. -/
theorem trimmed_concat_carriageReturn (t : Text) : trimmed (t ++ [0x0D]) = t.trimmed := by
  have hspace : Character.carriageReturn.isSpace = true := by decide
  rw [trimmed_eq, characters_append_fresh (.of_ascii (by decide) _), characters_ascii (by decide),
    characters_nil]
  exact congrArg ofCharacters (Character.trim_concat _ hspace)

end Text

/-! ## Near the end of a line -/

namespace Character

/-- What is left of the two texts.  At the end of a line the carriage return may have been
read already. -/
inductive Near : List Character → List Character → Prop where
  | whole (cs : List Character) : Near cs (crlf cs)
  | lineEnd {c : Character} (hc : c.code = Code.newline) (cs : List Character) :
      Near (c :: cs) (c :: crlf cs)

namespace Near

variable {cs cs' : List Character} {p : Character → Bool}

/-- Going over characters of a line. -/
theorem dropWhile (h : Near cs cs') (hp : ∀ c, c.code = Code.newline → p c = false) :
    Near (cs.dropWhile p) (cs'.dropWhile p) := by
  cases h with
  | @lineEnd c hc cs =>
    have hstop : ¬p c = true := by simp [hp c hc]
    rw [List.dropWhile_cons_of_neg hstop, List.dropWhile_cons_of_neg hstop]
    exact .lineEnd hc cs
  | whole =>
    induction cs with
    | nil => exact .whole []
    | cons c cs ih =>
      by_cases hc : c.code = Code.newline
      · have hstop : ¬p c = true := by simp [hp c hc]
        rw [crlf_cons_newline hc, List.dropWhile_cons_of_neg hstop]
        by_cases hreturn : p carriageReturn = true
        · rw [List.dropWhile_cons_of_pos hreturn, List.dropWhile_cons_of_neg hstop]
          exact .lineEnd hc cs
        · rw [List.dropWhile_cons_of_neg hreturn, ← crlf_cons_newline hc]
          exact .whole _
      · rw [crlf_cons_other hc]
        by_cases hgo : p c = true
        · rw [List.dropWhile_cons_of_pos hgo, List.dropWhile_cons_of_pos hgo]
          exact ih
        · rw [List.dropWhile_cons_of_neg hgo, List.dropWhile_cons_of_neg hgo,
            ← crlf_cons_other hc]
          exact .whole _

/-- What is read is the same, up to a carriage return at the end. -/
theorem takeWhile (h : Near cs cs') (hp : ∀ c, c.code = Code.newline → p c = false) :
    cs'.takeWhile p = cs.takeWhile p ∨
      p carriageReturn = true ∧ cs'.takeWhile p = cs.takeWhile p ++ [carriageReturn] := by
  cases h with
  | @lineEnd c hc cs =>
    have hstop : ¬p c = true := by simp [hp c hc]
    rw [List.takeWhile_cons_of_neg hstop, List.takeWhile_cons_of_neg hstop]
    exact .inl rfl
  | whole =>
    induction cs with
    | nil => exact .inl rfl
    | cons c cs ih =>
      by_cases hc : c.code = Code.newline
      · have hstop : ¬p c = true := by simp [hp c hc]
        rw [crlf_cons_newline hc, List.takeWhile_cons_of_neg hstop]
        by_cases hreturn : p carriageReturn = true
        · rw [List.takeWhile_cons_of_pos hreturn, List.takeWhile_cons_of_neg hstop]
          exact .inr ⟨hreturn, rfl⟩
        · rw [List.takeWhile_cons_of_neg hreturn]
          exact .inl rfl
      · rw [crlf_cons_other hc]
        by_cases hgo : p c = true
        · rw [List.takeWhile_cons_of_pos hgo, List.takeWhile_cons_of_pos hgo]
          exact ih.imp (congrArg (c :: ·)) fun h => ⟨h.1, congrArg (c :: ·) h.2⟩
        · rw [List.takeWhile_cons_of_neg hgo, List.takeWhile_cons_of_neg hgo]
          exact .inl rfl

/-- The two texts come together at the end of a line. -/
theorem behindLine (h : Near cs cs') :
    (cs'.dropWhile (·.code != Code.newline)).drop 1 =
      crlf ((cs.dropWhile (·.code != Code.newline)).drop 1) := by
  have hline := h.dropWhile (p := (·.code != Code.newline)) fun c hc => by simp [hc]
  have hstop := List.head?_dropWhile_not (·.code != Code.newline) cs'
  have hbegin := List.head?_dropWhile_not (·.code != Code.newline) cs
  generalize cs.dropWhile _ = left at hline hbegin ⊢
  generalize cs'.dropWhile _ = left' at hline hstop ⊢
  cases hline with
  | lineEnd hc cs => rfl
  | whole =>
    cases left with
    | nil => rfl
    | cons c left =>
      -- A line does not end at its carriage return.
      have hc : c.code = Code.newline := by simpa using hbegin
      rw [crlf_cons_newline hc] at hstop
      simp [carriageReturn, Code.newline] at hstop

end Near

end Character

/-! ## Readers -/

namespace Reader

/-- What is left for the two readers. -/
def Near (r r' : Reader) : Prop := Character.Near r.rest r'.rest

namespace Near

variable {r r' : Reader} {code : Nat}

theorem of_crlf (h : r'.rest = Character.crlf r.rest) : Near r r' := by
  rw [Near, h]
  exact .whole _

theorem skipWhile (h : Near r r') {p : Character → Bool}
    (hp : ∀ c, c.code = Code.newline → p c = false) : Near (r.skipWhile p) (r'.skipWhile p) := by
  rw [Near, skipWhile_rest, skipWhile_rest]
  exact Character.Near.dropWhile h hp

theorem skipBlanks (h : Near r r') : Near r.skipBlanks r'.skipBlanks :=
  h.skipWhile fun c hc => by simp [Character.isBlank, Code.isBlank, hc]

/-- Names are the same. -/
theorem readIdentifier (h : Near r r') :
    r'.readIdentifier.1 = r.readIdentifier.1 ∧ Near r.readIdentifier.2 r'.readIdentifier.2 := by
  have hstop : ∀ c : Character, c.code = Code.newline → c.isIdentifier = false := by
    intro c hc
    rw [Character.isIdentifier, hc, Code.isIdentifier_of_space (by decide)]
  refine ⟨?_, h.skipWhile hstop⟩
  rcases Character.Near.takeWhile h hstop with htake | ⟨hidentifier, -⟩
  · exact congrArg Text.ofCharacters htake
  · rw [Character.isIdentifier_carriageReturn] at hidentifier
    cases hidentifier

/-- The rest of a line is the same, up to a carriage return at the end. -/
theorem readLine (h : Near r r') :
    r'.readLine.1 = r.readLine.1 ∨ r'.readLine.1 = r.readLine.1 ++ [0x0D] := by
  have hstop : ∀ c : Character, c.code = Code.newline → (c.code != Code.newline) = false := by
    intro c hc
    simp [hc]
  rcases Character.Near.takeWhile h hstop with htake | ⟨-, htake⟩
  · exact .inl (congrArg Text.ofCharacters htake)
  · exact .inr ((congrArg Text.ofCharacters htake).trans (Text.ofCharacters_append _ _))

theorem skipLine (h : Near r r') : r'.skipLine.rest = Character.crlf r.skipLine.rest := by
  rw [skipLine_rest, skipLine_rest]
  exact Character.Near.behindLine h

/-- The readers see the same, unless it is the end of a line. -/
theorem sees_eq (h : Near r r') (hreturn : code ≠ 0x0D) (hnewline : code ≠ Code.newline) :
    r'.sees code = r.sees code := by
  obtain ⟨p, cs⟩ := r
  obtain ⟨p', cs'⟩ := r'
  cases h with
  | lineEnd hc cs => rfl
  | whole =>
    show ((Character.crlf cs).head?.map Character.code == some code) =
      (cs.head?.map Character.code == some code)
    rcases Character.head?_crlf cs with hhead | ⟨hhead, c, hc, hcode⟩
    · rw [hhead]
    · rw [hhead, hc, Option.map_some, Option.map_some, hcode]
      simp [Character.carriageReturn, hreturn.symm, hnewline.symm]

theorem rest_eq_of_sees (h : Near r r') (hsees : r.sees code = true)
    (hnewline : code ≠ Code.newline) : r'.rest = Character.crlf r.rest := by
  obtain ⟨p, cs⟩ := r
  obtain ⟨p', cs'⟩ := r'
  cases h with
  | whole => rfl
  | lineEnd hc cs =>
    rw [sees_of_rest rfl, beq_iff_eq] at hsees
    exact absurd (hsees.symm.trans hc) hnewline

end Near

variable {r r' : Reader} {code : Nat}

theorem newline_notMem_readLine (hspelled : ∀ c ∈ r.rest, c.Spelled) :
    Byte.newline ∉ r.readLine.1 := by
  intro hmem
  obtain ⟨c, hc, hbyte⟩ := List.mem_flatMap.mp hmem
  have hcode : c.code ≠ Code.newline := by simpa using List.mem_takeWhile_imp hc
  exact (hspelled c ((List.takeWhile_sublist _).subset hc)).newline_notMem hcode hbyte

theorem skip_one_crlf (h : r'.rest = Character.crlf r.rest) (hsees : r.sees code = true)
    (hnewline : code ≠ Code.newline) : (r'.skip 1).rest = Character.crlf (r.skip 1).rest := by
  rw [skip_rest, skip_rest, h]
  cases hrest : r.rest with
  | nil => rfl
  | cons c cs =>
    rw [sees_of_rest hrest, beq_iff_eq] at hsees
    rw [Character.crlf_cons_other (hsees ▸ hnewline)]
    rfl

theorem readKeyword_crlf (h : r'.rest = Character.crlf r.rest) (hhash : r.sees Code.hash = true) :
    r'.readKeyword.1 = r.readKeyword.1 ∧ Near r.readKeyword.2 r'.readKeyword.2 :=
  (Near.of_crlf (skip_one_crlf h hhash (by decide))).skipBlanks.readIdentifier

end Reader

/-! ## Literals and comments -/

namespace Literal

variable {body : List Character}

/-- A backslash may hide a carriage return instead of a line end. -/
theorem Body.crlf (h : Body body) : Body (Character.crlf body) := by
  induction h with
  | nil => exact .nil
  | @plain c cs hquote hbackslash _ ih =>
    by_cases hc : c.code = Code.newline
    · rw [Character.crlf_cons_newline hc]
      exact .plain (by decide) (by decide) (.plain hquote hbackslash ih)
    · rw [Character.crlf_cons_other hc]
      exact .plain hquote hbackslash ih
  | @hidden backslash c cs hbackslash _ ih =>
    rw [Character.crlf_cons_other (by rw [hbackslash]; decide)]
    by_cases hc : c.code = Code.newline
    · rw [Character.crlf_cons_newline hc]
      exact .hidden hbackslash (.plain (by rw [hc]; decide) (by rw [hc]; decide) ih)
    · rw [Character.crlf_cons_other hc]
      exact .hidden hbackslash ih

theorem Unclosed.crlf (h : Unclosed body) : Unclosed (Character.crlf body) := by
  rcases h with hbody | ⟨body, backslash, hbody, hbackslash, rfl⟩
  · exact .inl hbody.crlf
  · refine .inr ⟨Character.crlf body, backslash, hbody.crlf, hbackslash, ?_⟩
    rw [Character.crlf_append, Character.crlf_cons_other (by rw [hbackslash]; decide)]
    rfl

/-- A line end between the quotes is a line end of the value, hidden or not. -/
theorem Body.no_newline (h : Body body) (hspelled : ∀ c ∈ body, c.Spelled) {pieces : List Text}
    (hvalue : Byte.newline ∉ valueFrom pieces body) :
    (∀ piece ∈ pieces, Byte.newline ∉ piece) ∧ ∀ c ∈ body, c.code ≠ Code.newline := by
  have hbytes : ∀ c : Character, c.Spelled → Byte.newline ∉ c.bytes → c.code ≠ Code.newline := by
    intro c hc hmem hcode
    rw [hc.bytes_of_newline hcode] at hmem
    exact hmem (List.mem_singleton_self _)
  induction h generalizing pieces with
  | nil => simpa [valueFrom] using hvalue
  | @plain c cs hquote hbackslash _ ih =>
    obtain ⟨hc, hcs⟩ := List.forall_mem_cons.mp hspelled
    rw [valueFrom.eq_def] at hvalue
    simp only [if_neg hbackslash] at hvalue
    obtain ⟨hpieces, hbody⟩ := ih hcs hvalue
    obtain ⟨hmem, hpieces⟩ := List.forall_mem_cons.mp hpieces
    exact ⟨hpieces, List.forall_mem_cons.mpr ⟨hbytes c hc hmem, hbody⟩⟩
  | @hidden backslash c cs hbackslash _ ih =>
    obtain ⟨-, hcs⟩ := List.forall_mem_cons.mp hspelled
    obtain ⟨hc, hcs⟩ := List.forall_mem_cons.mp hcs
    rw [valueFrom, if_pos hbackslash] at hvalue
    obtain ⟨hpieces, hbody⟩ := ih hcs hvalue
    obtain ⟨hmem, hpieces⟩ := List.forall_mem_cons.mp hpieces
    refine ⟨hpieces, List.forall_mem_cons.mpr ⟨by rw [hbackslash]; decide, ?_⟩⟩
    refine List.forall_mem_cons.mpr ⟨fun hcode => ?_, hbody⟩
    rw [hiddenValue, hcode] at hmem
    exact hbytes c hc hmem hcode

end Literal

/-- Carriage returns close no comment. -/
theorem Character.closes_of_crlf {cs : List Character} (h : Closes (crlf cs)) : Closes cs := by
  induction cs with
  | nil => exact h
  | cons c cs ih =>
    by_cases hc : c.code = Code.newline
    · rw [crlf_cons_newline hc, closes_cons, closes_cons] at h
      rcases h with ⟨hstar, -⟩ | ⟨hstar, -⟩ | h
      · cases hstar
      · cases hstar.symm.trans hc
      · exact closes_cons.mpr (.inr (ih h))
    · rw [crlf_cons_other hc, closes_cons] at h
      rcases h with ⟨hstar, hslash⟩ | h
      · rcases head?_crlf cs with hhead | ⟨hhead, -⟩
        · exact closes_cons.mpr (.inl ⟨hstar, hhead ▸ hslash⟩)
        · rw [hhead] at hslash
          cases hslash
      · exact closes_cons.mpr (.inr (ih h))

namespace Reader

variable {r r' : Reader}

/-- A literal ends at the same quote.  Its value is the same if it is in one line. -/
theorem readLiteral_crlf (h : Near r r') (hspelled : ∀ c ∈ r.rest, c.Spelled) :
    (∃ e e' q q', r.readLiteral = (.error e, q) ∧ r'.readLiteral = (.error e', q') ∧
      e'.flaw = e.flaw) ∨
    ∃ literal literal' q q', r.readLiteral = (.ok literal, q) ∧
      r'.readLiteral = (.ok literal', q') ∧
      (Byte.newline ∉ literal.value → literal'.value = literal.value) ∧
      q'.rest = Character.crlf q.rest := by
  by_cases hsees : r.sees Code.quote = true
  · have hcrlf := h.rest_eq_of_sees hsees (by decide)
    cases hrest : r.rest with
    | nil => simp [sees, peek?, hrest] at hsees
    | cons opening cs =>
      have hopening : opening.code = Code.quote := by simpa [sees_of_rest hrest] using hsees
      rw [hrest, Character.crlf_cons_other (by rw [hopening]; decide)] at hcrlf
      rcases Literal.closed_or_unclosed [] cs with
        ⟨body, closing, rest, hbody, hclosing, rfl⟩ | hbody
      · rw [Character.crlf_append, Character.crlf_cons_other (by rw [hclosing]; decide)] at hcrlf
        obtain ⟨hread, hq⟩ := readLiteral_closed hopening hbody hclosing hrest
        obtain ⟨hread', hq'⟩ := readLiteral_closed hopening hbody.crlf hclosing hcrlf
        refine .inr ⟨_, _, _, _, hread, hread', ?_, by rw [hq', hq]⟩
        intro hvalue
        have hline := (hbody.no_newline (fun c hc => hspelled c (by simp [hrest, hc])) hvalue).2
        dsimp only
        rw [Character.crlf_of_no_newline hline]
      · exact .inl ⟨_, _, _, _, readLiteral_unclosed hopening hbody hrest,
          readLiteral_unclosed hopening hbody.crlf hcrlf, rfl⟩
  · have hsees' : ¬r'.sees Code.quote = true := by rwa [h.sees_eq (by decide) (by decide)]
    rw [readLiteral, if_neg hsees, readLiteral, if_neg hsees']
    exact .inl ⟨_, _, _, _, rfl, rfl, rfl⟩

end Reader

/-! ## Tokens -/

namespace Token

variable {cs rest passed : List Character} {token : Token} {flaw : Flaw}

/-- The token with carriage returns.  A line end by itself has none. -/
def crlf : Token → Token
  | literal raw => .literal (Text.crlf raw)
  | token => token

theorem crlf_of_identifier {name : List Character} (h : ∀ c ∈ name, c.isIdentifier = true) :
    Character.crlf name = name :=
  Character.crlf_of_no_newline fun c hc => Character.code_ne_newline_of_identifier (h c hc)

theorem code_of_opens {c : Character} (h : Opens (c :: cs)) :
    c.code = Code.quote ∨ c.code = Code.atSign ∨ c.code = Code.slash := by
  obtain ⟨mark, hmark, hprefix⟩ := h
  simp only [marks, List.mem_cons, List.not_mem_nil, or_false] at hmark
  rcases hmark with rfl | rfl | rfl | rfl
  · exact .inl (List.cons_prefix_cons.mp hprefix).1.symm
  · exact .inr (.inl (List.cons_prefix_cons.mp hprefix).1.symm)
  · exact .inr (.inr (List.cons_prefix_cons.mp hprefix).1.symm)
  · exact .inr (.inr (List.cons_prefix_cons.mp hprefix).1.symm)

/-- Carriage returns open no token. -/
theorem opens_of_crlf {c : Character} (hc : c.code ≠ Code.newline)
    (h : Opens (Character.crlf (c :: cs))) : Opens (c :: cs) := by
  obtain ⟨mark, hmark, hprefix⟩ := h
  rw [Character.crlf_cons_other hc] at hprefix
  refine ⟨mark, hmark, ?_⟩
  have hpair : ∀ {a b : Nat}, b ≠ 0x0D → [a, b] <+: (c :: Character.crlf cs).map Character.code →
      [a, b] <+: (c :: cs).map Character.code := by
    intro a b hb hprefix
    obtain ⟨d, behind, hbehind, ha, hd⟩ := eq_of_pair_prefix hprefix
    rcases Character.head?_crlf cs with hhead | ⟨hhead, -⟩
    · rw [hbehind] at hhead
      obtain ⟨behind', rfl⟩ := List.head?_eq_some_iff.mp hhead.symm
      simp [ha, hd]
    · rw [hbehind] at hhead
      rw [← hd, Option.some.inj hhead] at hb
      exact absurd rfl hb
  simp only [marks, List.mem_cons, List.not_mem_nil, or_false] at hmark
  rcases hmark with rfl | rfl | rfl | rfl
  · exact List.cons_prefix_cons.mpr ⟨(List.cons_prefix_cons.mp hprefix).1, List.nil_prefix⟩
  · exact List.cons_prefix_cons.mpr ⟨(List.cons_prefix_cons.mp hprefix).1, List.nil_prefix⟩
  · exact hpair (by decide) hprefix
  · exact hpair (by decide) hprefix

/-- The same token stands there, with carriage returns. -/
theorem At.crlf (h : At cs token rest) (hspelled : ∀ c ∈ cs, c.Spelled)
    (hnewline : ∀ c, cs.head? = some c → c.code ≠ Code.newline) :
    At (Character.crlf cs) token.crlf (Character.crlf rest) := by
  cases h with
  | @literal opening closing body rest hopening hbody hclosing =>
    have hopening' : opening.code ≠ Code.newline := hnewline opening rfl
    have hclosing' : closing.code ≠ Code.newline := by rw [hclosing]; decide
    rw [Character.crlf_cons_other hopening', Character.crlf_append,
      Character.crlf_cons_other hclosing', Token.crlf, Text.crlf_ofCharacters,
      Character.crlf_cons_other hopening', Character.crlf_append,
      Character.crlf_cons_other hclosing', Character.crlf_nil]
    · exact .literal hopening hbody.crlf hclosing
    · intro c hc
      exact hspelled c (by simp at hc ⊢; tauto)
  | @lineComment first second ending line rest hfirst hsecond hline hending =>
    rw [Character.crlf_cons_other (hnewline first rfl),
      Character.crlf_cons_other (by rw [hsecond]; decide), Character.crlf_append,
      Character.crlf_of_no_newline hline, Character.crlf_cons_newline hending,
      List.append_cons]
    refine .lineComment hfirst hsecond ?_ hending
    intro c hc
    rcases List.mem_append.mp hc with hc | hc
    · exact hline c hc
    · rw [List.mem_singleton.mp hc]
      decide
  | @lastComment first second line hfirst hsecond hline =>
    rw [Character.crlf_of_no_newline (lineComment_within hfirst hsecond hline)]
    exact .lastComment hfirst hsecond hline
  | @blockComment first second star slash body rest hfirst hsecond hbody hstar hslash =>
    have hstar' : star.code ≠ Code.newline := by rw [hstar]; decide
    rw [Character.crlf_cons_other (hnewline first rfl),
      Character.crlf_cons_other (by rw [hsecond]; decide), Character.crlf_append,
      Character.crlf_cons_other hstar', Character.crlf_cons_other (by rw [hslash]; decide)]
    refine .blockComment hfirst hsecond (fun hcloses => hbody ?_) hstar hslash
    refine Character.closes_of_crlf ?_
    rwa [Character.crlf_append, Character.crlf_cons_other hstar']
  | @expansion opening closing name rest hopening hname hidentifier hclosing =>
    rw [Character.crlf_cons_other (hnewline opening rfl), Character.crlf_append,
      crlf_of_identifier hidentifier, Character.crlf_cons_other (by rw [hclosing]; decide)]
    exact .expansion hopening hname hidentifier hclosing
  | @character c rest hplain =>
    have hc := hnewline c rfl
    have hplain' := fun hopens => hplain (opens_of_crlf hc hopens)
    rw [Character.crlf_cons_other hc] at hplain' ⊢
    exact .character hplain'

/-- What is broken is broken in the same way. -/
theorem Broken.crlf (h : Broken cs passed flaw) : Broken (Character.crlf cs) passed flaw := by
  have hhead : ∀ {cs : List Character} {P : Character → Prop}, P Character.carriageReturn →
      (∀ c, cs.head? = some c → P c) → ∀ c, (Character.crlf cs).head? = some c → P c := by
    intro cs P hreturn hcs c hc
    rcases Character.head?_crlf cs with h | ⟨h, -⟩
    · exact hcs c (h ▸ hc)
    · rw [← Option.some.inj (h.symm.trans hc)]
      exact hreturn
  cases h with
  | literal hopening hbody =>
    rw [Character.crlf_cons_other (by rw [hopening]; decide)]
    exact .literal hopening hbody.crlf
  | comment hfirst hsecond hbody =>
    rw [Character.crlf_cons_other (by rw [hfirst]; decide),
      Character.crlf_cons_other (by rw [hsecond]; decide)]
    exact .comment hfirst hsecond fun hcloses => hbody (Character.closes_of_crlf hcloses)
  | missingName hopening hrest =>
    rw [Character.crlf_cons_other (by rw [hopening]; decide)]
    exact .missingName hopening (hhead Character.isIdentifier_carriageReturn hrest)
  | expansion hopening hname hidentifier hrest =>
    rw [Character.crlf_cons_other (by rw [hopening]; decide), Character.crlf_append,
      crlf_of_identifier hidentifier]
    exact .expansion hopening hname hidentifier
      (hhead ⟨Character.isIdentifier_carriageReturn, by decide⟩ hrest)

end Token

/-! ## Constructs -/

namespace Construct

/-- The construct with carriage returns in what is emitted. -/
def crlf : Construct → Construct
  | literal raw => .literal (Text.crlf raw)
  | character raw => .character (Text.crlf raw)
  | construct => construct

/-- The same was read, up to carriage returns. -/
inductive CrlfRead : Except SourceError (Construct × Reader) →
    Except SourceError (Construct × Reader) → Prop where
  | ok {c c' : Construct} {q q' : Reader} (halike : c.crlf.Alike c')
      (hrest : q'.rest = Character.crlf q.rest) : CrlfRead (.ok (c, q)) (.ok (c', q'))
  | error {e e' : SourceError} (hflaw : e'.flaw = e.flaw) : CrlfRead (.error e) (.error e')

variable {r r' : Reader}

theorem readDefine_crlf (h : r.Near r') : CrlfRead (readDefine r) (readDefine r') := by
  obtain ⟨hname, hbehind⟩ := h.skipBlanks.readIdentifier
  -- The carriage return is dropped with the white space behind the value.
  have hvalue : r'.skipBlanks.readIdentifier.2.skipBlanks.readLine.1.trimmed =
      r.skipBlanks.readIdentifier.2.skipBlanks.readLine.1.trimmed := by
    rcases hbehind.skipBlanks.readLine with hline | hline
    · rw [hline]
    · rw [hline, Text.trimmed_concat_carriageReturn]
  rw [readDefine_eq, readDefine_eq, hname, hvalue]
  split
  · exact .error rfl
  · exact .ok (.define _ _) h.skipLine

theorem readUndefine_crlf (h : r.Near r') :
    CrlfRead (.ok (readUndefine r)) (.ok (readUndefine r')) := by
  rw [readUndefine_eq, readUndefine_eq, h.skipBlanks.readIdentifier.1]
  exact .ok (.undefine _ _ _) h.skipLine

theorem readOpening_crlf (h : r.Near r') (p q : Position) :
    CrlfRead (readOpening p r) (readOpening q r') := by
  rw [readOpening_eq, readOpening_eq, h.skipBlanks.readIdentifier.1]
  split
  · exact .error rfl
  · exact .ok (.openBlock _ _ _) h.skipLine

theorem readInclude_crlf (h : r.Near r') (hspelled : ∀ c ∈ r.rest, c.Spelled)
    (hname : ∀ name p q, readInclude r = .ok (.includeFile name p, q) → Byte.newline ∉ name) :
    CrlfRead (readInclude r) (readInclude r') := by
  have hblanks : ∀ c ∈ r.skipBlanks.rest, c.Spelled :=
    fun c hc => hspelled c ((Reader.leadsTo_skipBlanks r).rest_subset hc)
  rw [readInclude] at hname ⊢
  rw [readInclude]
  rcases Reader.readLiteral_crlf h.skipBlanks hblanks with
    ⟨e, e', q, q', hread, hread', hflaw⟩ | ⟨literal, literal', q, q', hread, hread', hvalue, hq⟩
  · rw [hread, hread']
    exact .error hflaw
  · rw [hread] at hname ⊢
    rw [hread']
    dsimp only at hname ⊢
    by_cases hempty : literal.value.isEmpty = true
    · have hnil := List.isEmpty_iff.mp hempty
      rw [if_pos hempty, hvalue (by simp [hnil]), if_pos hempty]
      exact .error rfl
    · rw [if_neg hempty] at hname ⊢
      rw [hvalue (hname _ _ _ rfl), if_neg hempty]
      exact .ok (.includeFile _ _ _) (Reader.Near.of_crlf hq).skipLine

theorem readDirective_crlf (h : r'.rest = Character.crlf r.rest)
    (hhash : r.sees Code.hash = true) (hspelled : ∀ c ∈ r.rest, c.Spelled)
    (hname : ∀ name p q, readDirective r = .ok (.includeFile name p, q) → Byte.newline ∉ name) :
    CrlfRead (readDirective r) (readDirective r') := by
  obtain ⟨hkeyword, hbehind⟩ := Reader.readKeyword_crlf h hhash
  rw [readDirective] at hname ⊢
  rw [readDirective]
  dsimp only at hname ⊢
  rw [hkeyword]
  cases hdirective : Directive.ofKeyword? r.readKeyword.1 with
  | none => exact .error rfl
  | some directive =>
    rw [hdirective] at hname
    cases directive with
    | includeFile =>
      exact readInclude_crlf hbehind
        (fun c hc => hspelled c ((Reader.leadsTo_readKeyword r).rest_subset hc)) hname
    | define => exact readDefine_crlf hbehind
    | undefine => exact readUndefine_crlf hbehind
    | ifDefined => exact readOpening_crlf hbehind _ _
    | endIf => exact .ok (.closeBlock _ _) hbehind.skipLine

theorem construct_crlf {token : Token}
    (h : ∀ c, token = .character c → Byte.newline ∉ c.bytes) :
    token.crlf.construct = token.construct.crlf := by
  cases token with
  | character c => exact congrArg character (Text.crlf_of_notMem (h c rfl)).symm
  | _ => rfl

/-- A construct is read the same with carriage returns, unless it is the end of a line. -/
theorem read_crlf (h : r'.rest = Character.crlf r.rest) (hrest : r.rest ≠ [])
    (hspelled : ∀ c ∈ r.rest, c.Spelled) (hnewline : r.sees Code.newline = false)
    (hname : ∀ name p q, read r = .ok (.includeFile name p, q) → Byte.newline ∉ name) :
    CrlfRead (read r) (read r') := by
  have hhash' : r'.sees Code.hash = r.sees Code.hash :=
    (Reader.Near.of_crlf h).sees_eq (by decide) (by decide)
  cases hhash : r.sees Code.hash with
  | true =>
    rw [hhash] at hhash'
    rw [read, if_pos hhash] at hname ⊢
    rw [read, if_pos hhash']
    exact readDirective_crlf h hhash hspelled hname
  | false =>
    rw [hhash] at hhash'
    have hbytes : ∀ c ∈ r.rest, c.bytes ≠ [] := fun c hc => (hspelled c hc).bytes_ne_nil
    have hbytes' : ∀ c ∈ r'.rest, c.bytes ≠ [] := by
      rw [h]
      exact fun c hc => (Character.spelled_crlf hspelled c hc).bytes_ne_nil
    obtain ⟨c, cs, hcons⟩ := List.exists_cons_of_ne_nil hrest
    rcases Token.at_or_broken c cs with ⟨token, rest, hat⟩ | ⟨passed, flaw, hbroken⟩
    · have hc : c.code ≠ Code.newline := by simpa [Reader.sees_of_rest hcons] using hnewline
      have hat' := hat.crlf (hcons ▸ hspelled) fun d hd => Option.some.inj hd ▸ hc
      obtain ⟨q, hread, hq⟩ := hat.read hcons hbytes hhash
      obtain ⟨q', hread', hq'⟩ := hat'.read (hcons ▸ h) hbytes' hhash'
      have hconstruct : token.crlf.construct = token.construct.crlf := by
        refine construct_crlf ?_
        rintro d rfl
        obtain ⟨rfl, -⟩ := List.cons.inj hat.eq_cons
        exact (hspelled c (by simp [hcons])).newline_notMem hc
      rw [hread, hread', hconstruct]
      exact .ok (.refl _) (by rw [hq', hq])
    · rw [hbroken.read hcons hbytes, hbroken.crlf.read (hcons ▸ h) hbytes']
      exact .error rfl

/-- The characters of a line end are constructs of their own. -/
theorem read_lineEnd {c : Character} {cs : List Character} (hrest : r.rest = c :: cs)
    (hcode : c.code = Code.newline ∨ c.code = 0x0D) (hspelled : ∀ c ∈ r.rest, c.Spelled) :
    ∃ q, read r = .ok (.character c.bytes, q) ∧ q.rest = cs := by
  have hplain : ¬Token.Opens (c :: cs) := by
    intro hopens
    have hmark := Token.code_of_opens hopens
    rcases hcode with hcode | hcode
    · rw [hcode] at hmark
      exact absurd hmark (by decide)
    · rw [hcode] at hmark
      exact absurd hmark (by decide)
  refine (Token.At.character hplain).read hrest (fun c hc => (hspelled c hc).bytes_ne_nil) ?_
  rw [Reader.sees_of_rest hrest]
  rcases hcode with hcode | hcode
  · rw [hcode]
    rfl
  · rw [hcode]
    rfl

theorem newline_notMem_of_readDefine {name value : Text} {q : Reader}
    (h : readDefine r = .ok (.define name value, q)) (hspelled : ∀ c ∈ r.rest, c.Spelled) :
    Byte.newline ∉ value := by
  rw [readDefine_eq] at h
  split at h
  · cases h
  · cases h
    have hleads := (Reader.leadsTo_skipBlanks r).trans
      ((Reader.leadsTo_readIdentifier r.skipBlanks).trans (Reader.leadsTo_skipBlanks _))
    exact Text.newline_notMem_trimmed
      (Reader.newline_notMem_readLine fun c hc => hspelled c (hleads.rest_subset hc))

/-- The value of a definition is in one line. -/
theorem newline_notMem_of_define {name value : Text} {q : Reader}
    (h : read r = .ok (.define name value, q)) (hspelled : ∀ c ∈ r.rest, c.Spelled) :
    Byte.newline ∉ value := by
  cases origin_of_read h with
  | expansion _ hat hread =>
    obtain ⟨⟨other, hother⟩, -⟩ := readExpansion_eq_ok hat hread
    cases hother
  | directive hhash hread =>
    rw [readDirective] at hread
    dsimp only at hread
    split at hread
    · cases hread
    · rw [readInclude] at hread
      split at hread
      · cases hread
      · split at hread
        · cases hread
        · cases hread
    · exact newline_notMem_of_readDefine hread
        fun c hc => hspelled c ((Reader.leadsTo_readKeyword r).rest_subset hc)
    · rw [readUndefine_eq] at hread
      cases hread
    · obtain ⟨⟨other, hother⟩, -⟩ := readOpening_eq_ok hread
      cases hother
    · cases hread

end Construct

namespace SkippedLine

/-- A line is skipped the same. -/
theorem read_crlf {r r' : Reader} (h : r'.rest = Character.crlf r.rest) :
    Alike (read r).1 (read r').1 ∧ (read r').2.rest = Character.crlf (read r).2.rest := by
  have hblanks := (Reader.Near.of_crlf h).skipBlanks
  rw [read, read]
  dsimp only
  rw [hblanks.sees_eq (by decide) (by decide)]
  split
  · rename_i hhash
    obtain ⟨hkeyword, hbehind⟩ :=
      Reader.readKeyword_crlf (hblanks.rest_eq_of_sees hhash (by decide)) hhash
    rw [hkeyword]
    split
    · exact ⟨.opens _ _, hbehind.skipLine⟩
    · exact ⟨.closes, hbehind.skipLine⟩
    · exact ⟨.other, hbehind.skipLine⟩
  · exact ⟨.other, hblanks.skipLine⟩

end SkippedLine

end XsPrep
