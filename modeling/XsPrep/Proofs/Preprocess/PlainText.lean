import Mathlib.Data.List.Induction
import XsPrep.Proofs.Source.Tokens
import XsPrep.Proofs.Preprocess.Emission

/-!
# Text without directives

In text without directives a run takes one token after the other and adds to the output
what each stands for (`Steps.through_tokens`).  It gets to the end if the text splits
into tokens, and else it stops where the text is broken.  As every text does the one or
the other, this decides how a run over such a text ends and what it puts out
(`Session.tokens_decide`).
-/

namespace XsPrep

/-! ## Places -/

/-- The place behind the first characters of a file: a line for each line end, and a
column for each character behind the last of these. -/
def Place.behind (path : Text) (cs : List Character) : Place :=
  ⟨path, cs.countP (·.code == Code.newline) + 1,
    (cs.reverse.takeWhile (·.code != Code.newline)).length + 1⟩

theorem Frame.place_foldl_after (frame : Frame) (cs : List Character) :
    frame.place (cs.foldl Position.after .start) = .behind frame.file.path cs := by
  induction cs using List.reverseRecOn with
  | nil => rfl
  | append_singleton cs c ih =>
    simp only [Frame.place, Place.behind, Place.mk.injEq, true_and] at ih ⊢
    obtain ⟨hline, hcolumn⟩ := ih
    rw [List.foldl_append, List.foldl_cons, List.foldl_nil, Position.after, List.countP_append,
      List.reverse_append, List.reverse_singleton, List.singleton_append]
    by_cases hc : c.code = Code.newline
    · simp [hc, hline]
    · simp [hc, hline, hcolumn]

namespace Run

variable {disk : Files.Disk} {dirs : List Text} {run next last : Run} {frame : Frame}
  {outer : List Frame} {file : Files.Address} {reader : Reader} {token : Token}
  {tokens : List Token} {rest : List Character}

/-! ## One token -/

theorem output_of_emission {emission : List Text}
    (h : next.fragments = run.fragments ++ emission) :
    next.output = run.output ++ emission.flatten := by
  rw [output, h, List.flatten_append]
  rfl

/-- Carrying out a token only adds to the output. -/
theorem execute_token (disk : Files.Disk) (dirs : List Text) (run : Run) (frame : Frame)
    (token : Token) :
    ∃ next, run.execute disk dirs frame token.construct = .ok next ∧
      next.frames = run.frames ∧ next.macros = run.macros ∧ next.blocks = run.blocks ∧
      next.output = run.output ++ token.output run.macros := by
  have houtput : ((Reading.construct token.construct).emission run.macros).flatten =
      token.output run.macros := by
    cases token with
    | expansion name =>
      simp only [Token.construct, Reading.emission, Token.output]
      cases run.macros.get? name with
      | none => rfl
      | some value => exact List.append_nil value
    | literal raw => exact List.append_nil raw
    | character c => exact List.append_nil c.bytes
    | comment => rfl
  obtain ⟨next, hexecute, hframes, hmacros, hblocks⟩ :
      ∃ next, run.execute disk dirs frame token.construct = .ok next ∧
        next.frames = run.frames ∧ next.macros = run.macros ∧ next.blocks = run.blocks := by
    cases token with
    | expansion name =>
      simp only [Token.construct, execute]
      cases run.macros.get? name with
      | none => exact ⟨_, rfl, rfl, rfl, rfl⟩
      | some value => exact ⟨_, rfl, rfl, rfl, rfl⟩
    | _ => exact ⟨_, rfl, rfl, rfl, rfl⟩
  refine ⟨next, hexecute, hframes, hmacros, hblocks, ?_⟩
  rw [output_of_emission (execute_fragments hexecute), houtput]

theorem step_token (disk : Files.Disk) (dirs : List Text)
    (hframes : run.frames = ⟨file, reader⟩ :: outer) (hskip : run.isSkipping = false)
    (hbytes : ∀ c ∈ reader.rest, c.bytes ≠ []) (hfree : Token.HashFree reader.rest)
    (hat : Token.At reader.rest token rest) :
    ∃ next reader', run.step disk dirs = .ok next ∧ next.frames = ⟨file, reader'⟩ :: outer ∧
      next.macros = run.macros ∧ next.blocks = run.blocks ∧
      next.output = run.output ++ token.output run.macros ∧
      reader.LeadsTo reader' ∧ reader'.rest = rest := by
  have hne : reader.rest ≠ [] := List.ne_nil_of_length_pos (Nat.zero_lt_of_lt hat.shorter)
  obtain ⟨reader', hread, hrest⟩ := hat.read rfl hbytes (hfree.sees hat rfl)
  obtain ⟨next, hexecute, hnext⟩ := execute_token disk dirs
    { run with frames := ⟨file, reader'⟩ :: outer } ⟨file, reader⟩ token
  refine ⟨next, reader', ?_, hnext.1, hnext.2.1, hnext.2.2.1, hnext.2.2.2,
    Construct.leadsTo_read hread, hrest⟩
  rw [step_of_construct hframes hne hskip hread, hexecute]

/-! ## Many tokens -/

/-- A run goes over the tokens of a text, one after the other. -/
theorem Steps.through_tokens (disk : Files.Disk) (dirs : List Text) {cs : List Character}
    (hsplits : Token.Splits cs tokens rest) (hframes : run.frames = ⟨file, reader⟩ :: outer)
    (hreader : reader.rest = cs) (hskip : run.isSkipping = false)
    (hbytes : ∀ c ∈ cs, c.bytes ≠ []) (hfree : Token.HashFree cs) :
    ∃ visited last reader', Steps disk dirs run visited last ∧
      last.frames = ⟨file, reader'⟩ :: outer ∧ last.blocks = run.blocks ∧
      last.output = run.output ++ tokens.flatMap (Token.output run.macros) ∧
      reader.LeadsTo reader' ∧ reader'.rest = rest := by
  induction hsplits generalizing run reader with
  | nil cs =>
    exact ⟨[], run, reader, .refl run, hframes, rfl, (List.append_nil _).symm, .refl reader,
      hreader⟩
  | cons hat _ ih =>
    subst hreader
    obtain ⟨next, reader', hstep, hnext, hmacros, hblocks, houtput, hleads, hrest⟩ :=
      step_token disk dirs hframes hskip hbytes hfree hat
    have hskip' : next.isSkipping = false := by rw [isSkipping, hblocks]; exact hskip
    obtain ⟨visited, last, reader'', hsteps, hlast, hsame, hmore, hleads', hrest'⟩ :=
      ih hnext hrest hskip' (fun c hc => hbytes c (hat.isSuffix.subset hc)) (hfree.behind hat)
    refine ⟨run :: visited, last, reader'', .head (by simp [hframes]) hstep hsteps, hlast,
      hsame.trans hblocks, ?_, hleads.trans hleads', hrest'⟩
    rw [hmore, houtput, hmacros, List.flatMap_cons, List.append_assoc]

end Run

namespace Session

variable {session : Session} {disk : Files.Disk} {root : Text} {file : Files.Address}
  {content : Text} {tokens : List Token} {before rest passed : List Character} {flaw : Flaw}

/-- The run over a root file goes over the tokens at its beginning. -/
theorem steps_through_tokens (session : Session) (disk : Files.Disk) (file : Files.Address)
    (hsplits : Token.Splits content.characters tokens rest)
    (hfree : Token.HashFree content.characters) :
    ∃ visited last reader,
      Run.Steps disk session.settings.includeDirectories
        ((Run.ofMacros session.settings.predefined).enter file content) visited last ∧
      last.frames = [⟨file, reader⟩] ∧ last.isSkipping = false ∧
      last.output = tokens.flatMap (Token.output session.settings.predefined) ∧
      (Reader.ofText content).LeadsTo reader ∧ reader.rest = rest := by
  have hbegin : ((Run.ofMacros session.settings.predefined).enter file content).frames =
      [⟨file, Reader.ofText content⟩] := rfl
  obtain ⟨visited, last, reader, hsteps, hframes, hblocks, houtput, hleads, hrest⟩ :=
    Run.Steps.through_tokens disk session.settings.includeDirectories hsplits hbegin rfl rfl
      (fun c hc => Text.bytes_ne_nil_of_mem hc) hfree
  refine ⟨visited, last, reader, hsteps, hframes, ?_, houtput, hleads, hrest⟩
  rw [Run.isSkipping, hblocks]
  rfl

theorem success_of_splits (session : Session)
    (hroot : disk.fetch (disk.canonical root) = .ok (file, content))
    (hfree : Token.HashFree content.characters)
    (hsplits : Token.Splits content.characters tokens []) :
    (session.process disk root).1 = none ∧ (session.process disk root).2.run.output =
      tokens.flatMap (Token.output session.settings.predefined) := by
  obtain ⟨visited, last, reader, hsteps, hframes, -, houtput, -, hend⟩ :=
    steps_through_tokens session disk file hsplits hfree
  have hleave : last.step disk session.settings.includeDirectories =
      .ok { last with frames := [] } := Run.step_of_end hframes hend
  have hfinish := Run.finish_eq_ok_iff.mpr
    ⟨_, hsteps.trans (.single (by simp [hframes]) hleave), rfl⟩
  rw [process_of_opened (opened_of_fetch session hroot), hfinish]
  refine ⟨rfl, ?_⟩
  rw [Run.output, Run.warnUnclosed_fragments, ← houtput]
  rfl

theorem stop_of_broken (session : Session)
    (hroot : disk.fetch (disk.canonical root) = .ok (file, content))
    (hfree : Token.HashFree content.characters) (hcontent : content.characters = before ++ rest)
    (hsplits : Token.Splits content.characters tokens rest)
    (hbroken : Token.Broken rest passed flaw) :
    (session.process disk root).1 =
      some ⟨.behind file.path (before ++ passed), .flawed flaw⟩ := by
  obtain ⟨visited, last, reader, hsteps, hframes, hskip, -, ⟨cs, hreads⟩, hrest⟩ :=
    steps_through_tokens session disk file hsplits hfree
  subst hrest
  have hne : reader.rest ≠ [] := hbroken.ne_nil
  have hbytes : ∀ c ∈ reader.rest, c.bytes ≠ [] := by
    intro c hc
    refine Text.bytes_ne_nil_of_mem (t := content) ?_
    rw [hcontent]
    exact List.mem_append_right before hc
  have hbefore : cs = before := by
    have hcharacters : content.characters = cs ++ reader.rest := hreads.rest_eq
    rw [hcontent] at hcharacters
    exact (List.append_cancel_right hcharacters).symm
  have hplace : Frame.place ⟨file, reader⟩ (passed.foldl Position.after reader.position) =
      .behind file.path (before ++ passed) := by
    rw [hreads.position_eq, hbefore, ← List.foldl_append]
    exact Frame.place_foldl_after ⟨file, reader⟩ _
  have hstop : last.step disk session.settings.includeDirectories =
      .error ⟨.behind file.path (before ++ passed), .flawed flaw⟩ := by
    rw [Run.step_of_flaw hframes hne hskip (hbroken.read rfl hbytes), hplace]
  have hfinish := Run.finish_eq_error_iff.mpr ⟨_, hsteps, by simp [hframes], hstop⟩
  rw [process_of_opened (opened_of_fetch session hroot), hfinish]

/-- Exact meaning of text without directives.  Where no `#` stands outside literals and
comments, a run over the text succeeds exactly if the text splits into tokens, and puts
out what the tokens stand for, one after the other.  It fails exactly if the text splits
up to a token that does not end, and then with the flaw of this token: at the beginning
of a literal or a comment, behind the `@` if no name follows, and behind the name if no
`@` follows it. -/
theorem tokens_decide (session : Session)
    (hroot : disk.fetch (disk.canonical root) = .ok (file, content))
    (hfree : Token.HashFree content.characters) :
    ((session.process disk root).1 = none ↔
      ∃ tokens, Token.Splits content.characters tokens []) ∧
    (∀ tokens, Token.Splits content.characters tokens [] →
      (session.process disk root).2.run.output =
        tokens.flatMap (Token.output session.settings.predefined)) ∧
    ∀ stop, (session.process disk root).1 = some stop ↔
      ∃ before tokens rest passed flaw, content.characters = before ++ rest ∧
        Token.Splits content.characters tokens rest ∧ Token.Broken rest passed flaw ∧
        stop = ⟨.behind file.path (before ++ passed), .flawed flaw⟩ := by
  obtain ⟨tokens, rest, hsplits, hrest⟩ := Token.exists_splits content.characters
  refine ⟨⟨fun hsuccess => ?_, ?_⟩, ?_, fun stop => ⟨fun hstop => ?_, ?_⟩⟩
  · rcases hrest with rfl | ⟨passed, flaw, hbroken⟩
    · exact ⟨tokens, hsplits⟩
    · obtain ⟨before, hbefore⟩ := hsplits.isSuffix
      rw [stop_of_broken session hroot hfree hbefore.symm hsplits hbroken] at hsuccess
      cases hsuccess
  · rintro ⟨tokens, hsplits⟩
    exact (success_of_splits session hroot hfree hsplits).1
  · intro tokens hsplits
    exact (success_of_splits session hroot hfree hsplits).2
  · rcases hrest with rfl | ⟨passed, flaw, hbroken⟩
    · rw [(success_of_splits session hroot hfree hsplits).1] at hstop
      cases hstop
    · obtain ⟨before, hbefore⟩ := hsplits.isSuffix
      rw [stop_of_broken session hroot hfree hbefore.symm hsplits hbroken] at hstop
      cases hstop
      exact ⟨before, tokens, rest, passed, flaw, hbefore.symm, hsplits, hbroken, rfl⟩
  · rintro ⟨before, tokens, rest, passed, flaw, hbefore, hsplits, hbroken, rfl⟩
    exact stop_of_broken session hroot hfree hbefore hsplits hbroken

/-- A literal that spans lines and has a `#` and a hidden quote in it, an expansion, two
comments and a character of two bytes. -/
def riddle : Text := bytes "\"#\\\"\n\"@A@/*#*/ü//#"

/-- The riddle as a file. -/
def puzzle : Files.Disk where
  nodes := [
    ([bytes "w"], .directory),
    ([bytes "w", bytes "main.xs"], .file riddle)]
  workingDirectory := [bytes "w"]

/-- The characters of single bytes. -/
def asciiCharacters (t : Text) : List Character := t.map fun b => ⟨b.toNat, [b]⟩

theorem riddle_splits : Token.Splits riddle.characters
    [.literal (bytes "\"#\\\"\n\""), .expansion (bytes "A"), .comment,
      .character ⟨0xFC, bytes "ü"⟩, .comment] [] := by
  have hcharacters : riddle.characters = asciiCharacters [0x22, 0x23, 0x5C, 0x22, 0x0A, 0x22,
      0x40, 0x41, 0x40, 0x2F, 0x2A, 0x23, 0x2A, 0x2F] ++ ⟨0xFC, bytes "ü"⟩ ::
      asciiCharacters [0x2F, 0x2F, 0x23] := by
    decide +kernel
  have hliteral : Literal.Body (asciiCharacters [0x23, 0x5C, 0x22, 0x0A]) :=
    .plain (by decide) (by decide) (.hidden rfl (.plain (by decide) (by decide) .nil))
  have hname : ∀ c ∈ asciiCharacters [0x41], c.isIdentifier = true := by decide +kernel
  have hcomment : ¬Character.Closes (asciiCharacters [0x23] ++ asciiCharacters [0x2A]) := by
    decide
  have hline : ∀ c ∈ asciiCharacters [0x23], c.code ≠ Code.newline := by decide
  rw [hcharacters]
  refine .cons (.literal rfl hliteral rfl) (.cons (.expansion rfl (by decide) hname rfl) ?_)
  refine .cons (@Token.At.blockComment _ _ _ _ (asciiCharacters [0x23]) _ rfl rfl hcomment rfl rfl)
    (.cons (.character (by decide)) ?_)
  exact .cons (.lastComment rfl rfl hline) (.nil [])

theorem tokens_decide_riddle :
    Token.HashFree riddle.characters ∧
    ((new puzzle [] (.ofList [(bytes "A", bytes "@B@#")])).process puzzle
      (bytes "main.xs")).1 = none ∧
    ((new puzzle [] (.ofList [(bytes "A", bytes "@B@#")])).process puzzle
      (bytes "main.xs")).2.run.output = bytes "\"#\\\"\n\"@B@#ü" := by
  have hroot : puzzle.fetch (puzzle.canonical (bytes "main.xs")) =
      .ok ([bytes "w", bytes "main.xs"], riddle) := by decide +kernel
  have hfree : Token.HashFree riddle.characters := by
    refine .of_splits riddle_splits (fun c hc => Text.bytes_ne_nil_of_mem hc) ?_
    intro c hc
    simp only [List.mem_cons, reduceCtorEq, Token.character.injEq, List.not_mem_nil, or_false,
      false_or] at hc
    rw [hc]
    decide
  obtain ⟨hsuccess, houtput, -⟩ :=
    tokens_decide (new puzzle [] (.ofList [(bytes "A", bytes "@B@#")])) hroot hfree
  refine ⟨hfree, hsuccess.mpr ⟨_, riddle_splits⟩, ?_⟩
  rw [houtput _ riddle_splits]
  decide +kernel

end Session

end XsPrep
