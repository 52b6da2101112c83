import XsPrep.Proofs.Preprocess.PlainText
import XsPrep.Proofs.Source.Positions

/-!
# Stripping comments

A run over text without directives and expansions strips the comments and copies the rest.
What was on both sides of a comment becomes adjacent, and bytes that were no character can
become one.  Still the output has no comment: in front of a comment no `/` can stand, since
the two together would begin another comment.  And no byte of a longer character is a mark.

So the output is stripped (`Text.Stripped`, by `Token.Splits.stripped`), a property of its
bytes that does not depend on where characters begin.  A stripped text splits into literals
and single characters that stand for themselves (`Text.Stripped.verbatim`), and a run over
it puts out the text.
-/

namespace XsPrep

/-! ## Texts without marks -/

namespace Token

/-- No `#` and no `@` stands outside literals and comments, as far as the text splits. -/
def MarkFree (cs : List Character) : Prop :=
  ∀ tokens rest, Splits cs tokens rest →
    ∀ c, rest.head? = some c → c.code ≠ Code.hash ∧ c.code ≠ Code.atSign

variable {cs rest : List Character} {token : Token} {tokens : List Token}

theorem MarkFree.head {c : Character} (h : MarkFree (c :: cs)) :
    c.code ≠ Code.hash ∧ c.code ≠ Code.atSign :=
  h [] (c :: cs) (.nil _) c rfl

theorem MarkFree.behind (h : MarkFree cs) (hat : At cs token rest) : MarkFree rest := by
  intro tokens after hsplits
  exact h (token :: tokens) after (.cons hat hsplits)

theorem MarkFree.hashFree (h : MarkFree cs) : HashFree cs := by
  intro tokens rest hsplits
  induction hsplits with
  | nil => intro c hc; cases hc
  | cons hat _ ih =>
    intro c hc
    rcases List.mem_cons.mp hc with rfl | hc
    · rw [hat.eq_cons] at h
      exact h.head.1
    · exact ih (h.behind hat) c hc

/-- What is behind a part of a split is split by the rest of it. -/
theorem Splits.behind {tokens' : List Token} (h : Splits cs tokens [])
    (h' : Splits cs tokens' rest) (hbytes : ∀ c ∈ cs, c.bytes ≠ []) :
    ∃ more, tokens = tokens' ++ more ∧ Splits rest more [] := by
  induction h' generalizing tokens with
  | nil cs => exact ⟨tokens, rfl, h⟩
  | cons hat' _ ih =>
    cases h with
    | nil => exact absurd hat'.shorter (by simp)
    | cons hat hsplits =>
      obtain ⟨rfl, rfl⟩ := hat.unique hat' hbytes
      obtain ⟨more, rfl, hmore⟩ := ih hsplits fun c hc => hbytes c (hat.isSuffix.subset hc)
      exact ⟨more, rfl, hmore⟩

theorem At.eq_expansion {c : Character} (h : At (c :: cs) token rest)
    (hc : c.code = Code.atSign) : ∃ name, token = .expansion name := by
  have hno : ∀ {code : Nat}, c.code = code → code ≠ Code.atSign → False :=
    fun hcode hne => hne (hcode.symm.trans hc)
  cases h with
  | literal hopening _ _ => exact (hno hopening (by decide)).elim
  | lineComment hfirst _ _ _ => exact (hno hfirst (by decide)).elim
  | lastComment hfirst _ _ => exact (hno hfirst (by decide)).elim
  | blockComment hfirst _ _ _ _ => exact (hno hfirst (by decide)).elim
  | expansion => exact ⟨_, rfl⟩
  | character hplain =>
    refine absurd ⟨[Code.atSign], by simp [marks], ?_⟩ hplain
    rw [List.map_cons, hc]
    exact ⟨_, rfl⟩

/-- If the text splits to its end, one split is enough to see it. -/
theorem MarkFree.of_splits (h : Splits cs tokens []) (hbytes : ∀ c ∈ cs, c.bytes ≠ [])
    (hhash : ∀ c, .character c ∈ tokens → c.code ≠ Code.hash)
    (hexpansion : ∀ name, .expansion name ∉ tokens) : MarkFree cs := by
  intro tokens' rest h' c hc
  obtain ⟨more, rfl, hmore⟩ := h.behind h' hbytes
  cases rest with
  | nil => cases hc
  | cons d rest =>
    cases hc
    cases hmore with
    | cons hat _ =>
      constructor
      · intro hcode
        obtain ⟨rfl, -⟩ := hat.eq_of_hash hcode
        exact hhash c (by simp) hcode
      · intro hcode
        obtain ⟨name, rfl⟩ := hat.eq_expansion hcode
        exact hexpansion name (by simp)

theorem opens_cons {c : Character} :
    Opens (c :: cs) ↔ c.code = Code.quote ∨ c.code = Code.atSign ∨
      (c.code = Code.slash ∧ (cs.head?.map Character.code = some Code.slash ∨
        cs.head?.map Character.code = some Code.star)) := by
  cases cs with
  | nil => simp [Opens, marks, @eq_comm _ _ c.code]
  | cons d cs =>
    simp [Opens, marks, @eq_comm _ _ c.code, @eq_comm _ _ d.code]
    tauto

end Token

/-! ## Stripped texts -/

namespace Text

/-- The text is made of literals and of single bytes outside them: no marks, and no slash
before a slash or a star. -/
inductive Stripped : Text → Prop where
  | nil : Stripped []
  | literal {raw t : Text} {opening closing : Character} {body : List Character}
      (hraw : raw.characters = opening :: (body ++ [closing]))
      (hopening : opening.code = Code.quote) (hbody : Literal.Body body)
      (hclosing : closing.code = Code.quote) (h : Stripped t) : Stripped (raw ++ t)
  | byte {b : UInt8} {t : Text}
      (hmark : b.toNat ≠ Code.quote ∧ b.toNat ≠ Code.hash ∧ b.toNat ≠ Code.atSign)
      (hslash : b = Byte.slash → t.head? ≠ some Byte.slash ∧ t.head? ≠ some 0x2A)
      (h : Stripped t) : Stripped (b :: t)

/-- A byte of a longer character is no mark. -/
theorem Stripped.high {b : UInt8} {t : Text} (hb : ¬b < 0x80) (h : Stripped t) :
    Stripped (b :: t) := by
  have hlarge : 0x80 ≤ b.toNat := Nat.not_lt.mp (UInt8.lt_iff_toNat_lt.not.mp hb)
  have hmark : ∀ code < 0x80, b.toNat ≠ code := by
    intro code hcode
    omega
  refine .byte ⟨hmark _ (by decide), hmark _ (by decide), hmark _ (by decide)⟩ ?_ h
  rintro rfl
  exact absurd (by decide) hb

theorem Stripped.append_high {s t : Text} (hs : ∀ b ∈ s, ¬b < 0x80) (h : Stripped t) :
    Stripped (s ++ t) := by
  induction s with
  | nil => exact h
  | cons b s ih =>
    obtain ⟨hb, hs⟩ := List.forall_mem_cons.mp hs
    exact (ih hs).high hb

theorem head?_of_literal {raw : Text} {opening : Character} {cs : List Character}
    (hraw : raw.characters = opening :: cs) (hopening : opening.code = Code.quote) :
    raw.head? = some 0x22 := by
  have hspelled : ∀ c ∈ raw.characters, c.Spelled := fun c hc => spelled_of_mem hc
  rw [← ofCharacters_characters raw, head?_ofCharacters hspelled (by decide), hraw]
  simpa using hopening

/-- What is behind bytes of longer characters is stripped too. -/
theorem Stripped.of_append_high {s t : Text} (hs : ∀ b ∈ s, ¬b < 0x80) (h : Stripped (s ++ t)) :
    Stripped t := by
  induction s with
  | nil => exact h
  | cons b s ih =>
    obtain ⟨hb, hs⟩ := List.forall_mem_cons.mp hs
    generalize htext : b :: s ++ t = text at h
    cases h with
    | nil => cases htext
    | literal hraw hopening _ _ _ =>
      -- A literal begins with a byte below.
      have hhead := congrArg List.head? htext
      rw [List.cons_append, List.head?_cons, List.head?_append, head?_of_literal hraw hopening]
        at hhead
      obtain rfl : b = 0x22 := Option.some.inj hhead
      exact absurd (by decide) hb
    | byte _ _ h =>
      obtain ⟨-, rfl⟩ := List.cons.inj htext
      exact ih hs h

end Text

/-! ## The output is stripped -/

namespace Token

variable {cs rest : List Character} {token : Token} {tokens : List Token}

/-- Where no comment begins, the output begins with the first character. -/
theorem At.head?_output {c : Character} (h : At (c :: cs) token rest)
    (hslash : c.code ≠ Code.slash) (hat : c.code ≠ Code.atSign) (hbytes : c.bytes ≠ [])
    (macros : Macros) (more : Text) :
    (token.output macros ++ more).head? = c.bytes.head? := by
  cases h with
  | literal =>
    rw [output, Text.ofCharacters, List.flatMap_cons, List.append_assoc,
      List.head?_append_of_ne_nil _ hbytes]
  | lineComment hfirst => exact absurd hfirst hslash
  | lastComment hfirst => exact absurd hfirst hslash
  | blockComment hfirst => exact absurd hfirst hslash
  | expansion hopening => exact absurd hopening hat
  | character => exact List.head?_append_of_ne_nil _ hbytes

theorem Splits.code_of_head?_output (h : Splits cs tokens rest) (hrest : rest = [])
    (hspelled : ∀ c ∈ cs, c.Spelled) (hfree : MarkFree cs)
    (hslash : cs.head?.map Character.code ≠ some Code.slash) (macros : Macros) {b : UInt8}
    (hb : b < 0x80) (hhead : (tokens.flatMap (output macros)).head? = some b) :
    cs.head?.map Character.code = some b.toNat := by
  cases h with
  | nil => cases hhead
  | @cons _ between _ token tokens hat _ =>
    cases cs with
    | nil => exact absurd hat.shorter (by simp)
    | cons c cs =>
      have hc := hspelled c List.mem_cons_self
      rw [List.flatMap_cons, hat.head?_output (by simpa using hslash) hfree.head.2
        hc.bytes_ne_nil, hc.head?_bytes hb] at hhead
      rw [List.head?_cons, Option.map_some, hhead]

/-- What text without marks stands for is stripped. -/
theorem Splits.stripped (h : Splits cs tokens rest) (hrest : rest = [])
    (hcs : (Text.ofCharacters cs).characters = cs) (hfree : MarkFree cs) (macros : Macros) :
    Text.Stripped (tokens.flatMap (output macros)) := by
  induction h with
  | nil => exact .nil
  | @cons cs between rest token tokens hat hsplits ih =>
    obtain ⟨lexeme, hlexeme⟩ := hat.isSuffix
    have hparts := Text.characters_of_append (hcs.trans hlexeme.symm)
    have hbehind := ih hrest hparts.2 (hfree.behind hat)
    have hspelled : ∀ c ∈ cs, c.Spelled := by
      intro c hc
      rw [← hcs] at hc
      exact Text.spelled_of_mem hc
    rw [List.flatMap_cons]
    cases hat with
    | @literal opening closing body _ hopening hbody hclosing =>
      refine .literal ?_ hopening hbody hclosing hbehind
      have hwhole : (Text.ofCharacters (opening :: (body ++ closing :: between))).characters =
          (opening :: (body ++ [closing])) ++ between := by rw [hcs]; simp
      exact (Text.characters_of_append hwhole).1
    | lineComment => exact hbehind
    | lastComment => exact hbehind
    | blockComment => exact hbehind
    | expansion hopening => exact absurd hopening hfree.head.2
    | @character c _ hplain =>
      have hmarks := hplain
      rw [opens_cons] at hmarks
      simp only [not_or, not_and] at hmarks
      obtain ⟨hquote, -, hslash⟩ := hmarks
      cases hspelled c List.mem_cons_self with
      | high _ _ hbytes => exact hbehind.append_high hbytes
      | @ascii b hb =>
        refine .byte ⟨hquote, hfree.head⟩ ?_ hbehind
        rintro rfl
        obtain ⟨hline, hblock⟩ := hslash rfl
        have hcode : ∀ {b : UInt8}, b < 0x80 →
            (tokens.flatMap (output macros)).head? = some b →
            between.head?.map Character.code = some b.toNat :=
          hsplits.code_of_head?_output hrest
            (fun d hd => hspelled d (List.mem_cons_of_mem _ hd)) (hfree.behind (.character hplain))
            hline macros
        exact ⟨fun hhead => hline (hcode (by decide) hhead),
          fun hhead => hblock (hcode (by decide) hhead)⟩

end Token

/-! ## A stripped text stands for itself -/

namespace Text

/-- Behind a literal the text decodes by itself. -/
theorem characters_append_literal {raw : Text} {cs : List Character} {closing : Character}
    (hraw : raw.characters = cs ++ [closing]) (hclosing : closing.code = Code.quote) (t : Text) :
    characters (raw ++ t) = characters raw ++ characters t := by
  have hspelled : closing.Spelled :=
    spelled_of_mem (hraw ▸ List.mem_append_right _ (List.mem_singleton_self _))
  have hbytes : raw = ofCharacters cs ++ [0x22] := by
    rw [← ofCharacters_characters raw, hraw, ofCharacters_append]
    exact congrArg _ ((List.flatMap_singleton ..).trans
      (hspelled.bytes_of_ascii (by decide) hclosing))
  rw [hbytes, List.append_assoc, List.singleton_append,
    characters_append_fresh (.of_ascii (by decide) t), characters_ascii (by decide),
    characters_append_fresh (.of_ascii (by decide) []), characters_ascii (by decide),
    characters_nil, List.append_assoc, List.singleton_append]

/-- The text splits into literals and characters, and these stand for the text. -/
def Verbatim (t : Text) : Prop :=
  ∃ tokens, Token.Splits t.characters tokens [] ∧
    (∀ c, .character c ∈ tokens → c.code ≠ Code.hash) ∧
    ∀ macros, tokens.flatMap (Token.output macros) = t

namespace Verbatim

theorem nil : Verbatim [] := by
  refine ⟨[], ?_, fun c hc => absurd hc List.not_mem_nil, fun _ => rfl⟩
  rw [characters_nil]
  exact .nil []

theorem literal {raw t : Text} {opening closing : Character} {body : List Character}
    (hraw : raw.characters = opening :: (body ++ [closing]))
    (hopening : opening.code = Code.quote) (hbody : Literal.Body body)
    (hclosing : closing.code = Code.quote) (h : Verbatim t) : Verbatim (raw ++ t) := by
  obtain ⟨tokens, hsplits, hhash, houtput⟩ := h
  have hlast : raw.characters = (opening :: body) ++ [closing] := hraw
  have htoken : ofCharacters (opening :: (body ++ [closing])) = raw := by
    rw [← hraw, ofCharacters_characters]
  refine ⟨.literal raw :: tokens, ?_, ?_, ?_⟩
  · rw [characters_append_literal hlast hclosing, hraw, ← htoken]
    refine .cons ?_ hsplits
    simpa using Token.At.literal hopening hbody hclosing
  · intro c hc
    exact hhash c (by simpa using hc)
  · intro macros
    rw [List.flatMap_cons, houtput]
    rfl

theorem character {b : UInt8} {t rest : Text} {c : Character}
    (hfirst : Character.first b t = (c, rest)) (hbytes : c.bytes ++ rest = b :: t)
    (hopens : ¬Token.Opens (c :: rest.characters)) (hcode : c.code ≠ Code.hash)
    (h : Verbatim rest) : Verbatim (b :: t) := by
  obtain ⟨tokens, hsplits, hhash, houtput⟩ := h
  refine ⟨.character c :: tokens, ?_, ?_, ?_⟩
  · rw [characters_cons, hfirst]
    exact .cons (.character hopens) hsplits
  · intro d hd
    rcases List.mem_cons.mp hd with hd | hd
    · cases hd
      exact hcode
    · exact hhash d hd
  · intro macros
    rw [List.flatMap_cons, houtput, ← hbytes]
    rfl

end Verbatim

/-- What a byte that is no character begins. -/
theorem first_of_high {b : UInt8} (hb : ¬b < 0x80) (t : Text) :
    ∃ c tails rest, Character.first b t = (c, rest) ∧ c.bytes = b :: tails ∧ t = tails ++ rest ∧
      (∀ d ∈ tails, ¬d < 0x80) ∧ 0x80 ≤ c.code := by
  cases Character.first_cases b t with
  | ascii hlow _ => exact absurd hlow hb
  | sequence tails rest c _ ht hcompletes hfirst =>
    refine ⟨c, tails, rest, hfirst, hcompletes.bytes_eq, ht, ?_, hcompletes.high⟩
    intro d hd
    rw [UInt8.lt_iff_toNat_lt, Nat.not_lt]
    exact (Character.isTail_iff.mp (hcompletes.isTail d hd)).1
  | stray _ _ hfirst =>
    refine ⟨_, [], t, hfirst, rfl, rfl, fun d hd => absurd hd List.not_mem_nil, ?_⟩
    show 0x80 ≤ Code.replacement
    decide

/-- A character that is a byte begins no token of more than one character, if it is no mark
and no slash before a slash or a star. -/
theorem not_opens_of_plain {b : UInt8} {t : Text} (hquote : b.toNat ≠ Code.quote)
    (hat : b.toNat ≠ Code.atSign)
    (hslash : b = Byte.slash → t.head? ≠ some Byte.slash ∧ t.head? ≠ some 0x2A) :
    ¬Token.Opens (⟨b.toNat, [b]⟩ :: t.characters) := by
  have hhead : ∀ {d : UInt8}, d < 0x80 →
      t.characters.head?.map Character.code = some d.toNat → t.head? = some d := by
    intro d hd hcode
    have hspelled : ∀ c ∈ t.characters, c.Spelled := fun c hc => spelled_of_mem hc
    rwa [← head?_ofCharacters hspelled hd, ofCharacters_characters] at hcode
  rw [Token.opens_cons]
  rintro (h | h | ⟨hcode, h | h⟩)
  · exact hquote h
  · exact hat h
  · exact (hslash (UInt8.toNat_inj.mp hcode)).1 (hhead (by decide) h)
  · exact (hslash (UInt8.toNat_inj.mp hcode)).2 (hhead (by decide) h)

/-- A stripped text stands for itself. -/
theorem Stripped.verbatim {t : Text} (h : Stripped t) : Verbatim t := by
  -- The first character can take several bytes, so the induction is on the length.
  induction hn : t.length using Nat.strongRecOn generalizing t with
  | _ n ih =>
    subst hn
    cases h with
    | nil => exact .nil
    | @literal raw t opening closing body hraw hopening hbody hclosing h =>
      have hne : raw ≠ [] := by
        rintro rfl
        rw [characters_nil] at hraw
        cases hraw
      have hshorter : t.length < (raw ++ t).length := by
        rw [List.length_append]
        exact Nat.lt_add_of_pos_left (List.length_pos_iff.mpr hne)
      exact .literal hraw hopening hbody hclosing (ih _ hshorter h rfl)
    | @byte b t hmark hslash h =>
      by_cases hb : b < 0x80
      · have hopens := not_opens_of_plain hmark.1 hmark.2.2 hslash
        exact .character (if_pos hb) rfl hopens hmark.2.1 (ih _ (Nat.lt_succ_self _) h rfl)
      · obtain ⟨c, tails, rest, hfirst, hbytes, rfl, htails, hcode⟩ := first_of_high hb t
        have hhigh : ∀ code < 0x80, c.code ≠ code := by
          intro code hlow
          omega
        have hopens : ¬Token.Opens (c :: rest.characters) := by
          rw [Token.opens_cons]
          rintro (h | h | ⟨h, -⟩)
          · exact hhigh _ (by decide) h
          · exact hhigh _ (by decide) h
          · exact hhigh _ (by decide) h
        have hshorter : rest.length < (b :: (tails ++ rest)).length := by
          rw [List.length_cons, List.length_append]
          omega
        refine .character hfirst (by rw [hbytes]; rfl) hopens (hhigh _ (by decide)) ?_
        exact ih _ hshorter (h.of_append_high htails) rfl

end Text

namespace Session

/-- Stripping comments twice is stripping them once.  If a run succeeds over a text without
`#` and `@` outside literals and comments, a run over its output succeeds and puts out the
same. -/
theorem stripping_idempotent (session session' : Session) {disk disk' : Files.Disk}
    {root root' : Text} {file file' : Files.Address} {content : Text}
    (hroot : disk.fetch (disk.canonical root) = .ok (file, content))
    (hfree : Token.MarkFree content.characters)
    (hsuccess : (session.process disk root).1 = none)
    (hroot' : disk'.fetch (disk'.canonical root') =
      .ok (file', (session.process disk root).2.run.output)) :
    (session'.process disk' root').1 = none ∧
      (session'.process disk' root').2.run.output = (session.process disk root).2.run.output := by
  obtain ⟨tokens, rest, hsplits, hrest⟩ := Token.exists_splits content.characters
  rcases hrest with rfl | ⟨passed, flaw, hbroken⟩
  · have houtput := (success_of_splits session hroot hfree.hashFree hsplits).2
    have hcharacters : (Text.ofCharacters content.characters).characters = content.characters := by
      rw [Text.ofCharacters_characters]
    have hstripped := hsplits.stripped rfl hcharacters hfree session.settings.predefined
    rw [← houtput] at hstripped
    obtain ⟨tokens', hsplits', hhash, hverbatim⟩ := hstripped.verbatim
    have hfree' := Token.HashFree.of_splits hsplits' (fun c hc => Text.bytes_ne_nil_of_mem hc) hhash
    have hagain := success_of_splits session' hroot' hfree' hsplits'
    rwa [hverbatim] at hagain
  · obtain ⟨before, hbefore⟩ := hsplits.isSuffix
    rw [stop_of_broken session hroot hfree.hashFree hbefore.symm hsplits hbroken] at hsuccess
    cases hsuccess

/-- A comment between the two bytes of a character, a literal with marks in it, a slash and
a line comment. -/
def severed : Text := 0xC3 :: (bytes "/*#*/" ++ 0xA9 :: bytes "\"//#@\"/ //@\nx")

/-- The text, and what is left of it. -/
def restored : Files.Disk where
  nodes := [
    ([bytes "w"], .directory),
    ([bytes "w", bytes "main.xs"], .file severed),
    ([bytes "w", bytes "out.xs"], .file (bytes "é\"//#@\"/ x"))]
  workingDirectory := [bytes "w"]

theorem severed_markFree : Token.MarkFree severed.characters := by
  have hcharacters : severed.characters =
      .stray 0xC3 :: (asciiCharacters [0x2F, 0x2A, 0x23, 0x2A, 0x2F] ++ .stray 0xA9 ::
        asciiCharacters [0x22, 0x2F, 0x2F, 0x23, 0x40, 0x22, 0x2F, 0x20, 0x2F, 0x2F, 0x40, 0x0A,
          0x78]) := by
    decide +kernel
  have hcomment : ¬Character.Closes (asciiCharacters [0x23] ++ asciiCharacters [0x2A]) := by
    decide
  have hliteral : Literal.Body (asciiCharacters [0x2F, 0x2F, 0x23, 0x40]) :=
    .plain (by decide) (by decide) (.plain (by decide) (by decide)
      (.plain (by decide) (by decide) (.plain (by decide) (by decide) .nil)))
  have hline : ∀ c ∈ asciiCharacters [0x40], c.code ≠ Code.newline := by decide
  have hsplits : Token.Splits severed.characters
      [.character (.stray 0xC3), .comment, .character (.stray 0xA9),
        .literal (bytes "\"//#@\""), .character ⟨0x2F, [0x2F]⟩, .character ⟨0x20, [0x20]⟩,
        .comment, .character ⟨0x78, [0x78]⟩] [] := by
    rw [hcharacters]
    refine .cons (.character (by decide)) (.cons (@Token.At.blockComment _ _ _ _
      (asciiCharacters [0x23]) _ rfl rfl hcomment rfl rfl) ?_)
    refine .cons (.character (by decide)) (.cons (.literal rfl hliteral rfl) ?_)
    refine .cons (.character (by decide)) (.cons (.character (by decide)) ?_)
    exact .cons (.lineComment rfl rfl hline rfl) (.cons (.character (by decide)) (.nil []))
  refine .of_splits hsplits (fun c hc => Text.bytes_ne_nil_of_mem hc) ?_ ?_
  · intro c hc
    simp only [List.mem_cons, reduceCtorEq, Token.character.injEq, List.not_mem_nil, or_false,
      false_or] at hc
    rcases hc with rfl | rfl | rfl | rfl | rfl <;> decide
  · intro name hname
    simp at hname

theorem stripping_idempotent_severed :
    ((new restored [] .empty).process restored (bytes "main.xs")).1 = none ∧
    ((new restored [] .empty).process restored (bytes "main.xs")).2.run.output =
      bytes "é\"//#@\"/ x" ∧
    ((new restored [] .empty).process restored (bytes "out.xs")).1 = none ∧
    ((new restored [] .empty).process restored (bytes "out.xs")).2.run.output =
      ((new restored [] .empty).process restored (bytes "main.xs")).2.run.output := by
  have hroot : restored.fetch (restored.canonical (bytes "main.xs")) =
      .ok ([bytes "w", bytes "main.xs"], severed) := by decide +kernel
  have hsuccess : ((new restored [] .empty).process restored (bytes "main.xs")).1 = none := by
    decide +kernel
  have hroot' : restored.fetch (restored.canonical (bytes "out.xs")) =
      .ok ([bytes "w", bytes "out.xs"],
        ((new restored [] .empty).process restored (bytes "main.xs")).2.run.output) := by
    decide +kernel
  exact ⟨hsuccess, by decide +kernel,
    stripping_idempotent (new restored [] .empty) (new restored [] .empty) hroot severed_markFree
      hsuccess hroot'⟩

end Session

end XsPrep
