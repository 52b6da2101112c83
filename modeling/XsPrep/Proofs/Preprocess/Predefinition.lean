import XsPrep.Proofs.Text.Trimming
import XsPrep.Proofs.Source.Positions
import XsPrep.Proofs.Preprocess.Headings
import XsPrep.Proofs.Preprocess.Selection

/-!
# Predefined macros

A definition on the command line and a definition in a file are read in different ways, but
what the first accepts the second reads back (`Construct.read_definition`): the name is one
identifier, and a value without white space around it is the rest of its line.

So a run with predefined macros is a run over the root file with their definitions above
its text.  The steps over these lines lead to the state that the other run begins in, with
a heading above the text (`Run.Steps.through_definitions`).
-/

namespace XsPrep

/-! ## Definitions as lines -/

namespace Definition

/-- The line that makes a definition in a file. -/
def line (d : Definition) : Text :=
  bytes "#define " ++ (d.name ++ 0x20 :: (d.value ++ [Byte.newline]))

/-- The lines that make definitions, in order. -/
def lines (definitions : List Definition) : Text := definitions.flatMap line

/-- The name is an identifier, and the value is text of a line without white space around
it. -/
structure FitsLine (d : Definition) : Prop where
  isName : isName d.name = true
  trimmed : d.value.trimmed = d.value
  newline : Byte.newline ∉ d.value

theorem FitsLine.newline_notMem_line {d : Definition} (h : d.FitsLine) :
    Byte.newline ∉ bytes "#define " ++ (d.name ++ 0x20 :: d.value) := by
  have hkeyword : Byte.newline ∉ bytes "#define " := by decide +kernel
  have hname : Byte.newline ∉ d.name := by
    rw [Text.newline_notMem_iff]
    intro c hc
    exact Character.code_ne_newline_of_identifier ((identifier_of_isName h.isName).2 c hc)
  have hspace : Byte.newline ≠ 0x20 := by decide
  simp only [List.mem_append, List.mem_cons, not_or]
  exact ⟨hkeyword, hname, hspace, h.newline⟩

theorem fitsLine_of_parse {definition : Text} {d : Definition} (h : parse definition = .ok d)
    (hnewline : Byte.newline ∉ d.value) : d.FitsLine := by
  simp only [parse] at h
  split at h
  · rename_i hname
    cases h
    exact ⟨hname, Text.trimmed_trimmed _, hnewline⟩
  · cases h

/-- The macros of definitions that are all accepted. -/
theorem parseAll_eq {definitions : List Text} {parsed : List Definition}
    (h : definitions.map parse = parsed.map .ok) :
    (parseAll definitions).1 =
      parsed.foldl (fun macros d => Macros.define macros d.name d.value) .empty := by
  have hfold : ∀ step : Macros × List Text → Text → Macros × List Text,
      (∀ state definition d, parse definition = .ok d →
        (step state definition).1 = Macros.define state.1 d.name d.value) →
      ∀ start, (definitions.foldl step start).1 =
        parsed.foldl (fun macros d => Macros.define macros d.name d.value) start.1 := by
    intro step hstep
    induction definitions generalizing parsed with
    | nil =>
      intro start
      rw [List.map_nil, eq_comm, List.map_eq_nil_iff] at h
      rw [h]
      rfl
    | cons definition definitions ih =>
      cases parsed with
      | nil => cases h
      | cons d parsed =>
        rw [List.map_cons, List.map_cons, List.cons.injEq] at h
        intro start
        rw [List.foldl_cons, List.foldl_cons, ih h.2, hstep start definition d h.1]
  refine hfold _ (fun state definition d hparse => ?_) (.empty, [])
  rw [hparse]

theorem characters_line (d : Definition) (behind : Text) :
    Text.characters (d.line ++ behind) =
      (bytes "#define ").characters ++ (d.name.characters ++ ⟨32, [32]⟩ ::
        (d.value.characters ++ ⟨Code.newline, [Byte.newline]⟩ :: Text.characters behind)) := by
  have hshape : d.line ++ behind =
      bytes "#define " ++ (d.name ++ 0x20 :: (d.value ++ Byte.newline :: behind)) := by
    simp [line]
  rw [hshape, Text.characters_append_ascii (by decide +kernel),
    Text.characters_append_fresh (.of_ascii (by decide) _), Text.characters_ascii (by decide),
    Text.characters_newline]
  rfl

end Definition

namespace Construct

/-- The name and the value behind the keyword of a definition. -/
theorem readDefine_operand {r : Reader} {d : Definition} (h : d.FitsLine)
    {behind : List Character}
    (hrest : r.rest = ⟨32, [32]⟩ :: (d.name.characters ++ ⟨32, [32]⟩ ::
      (d.value.characters ++ ⟨Code.newline, [Byte.newline]⟩ :: behind))) :
    readDefine r = .ok (.define d.name d.value, r.skipLine) := by
  have hspace : ∀ c, (⟨32, [32]⟩ :: (d.value.characters ++
      ⟨Code.newline, [Byte.newline]⟩ :: behind)).head? = some c → c.isIdentifier = false := by
    intro c hc
    rw [← Option.some.inj hc]
    decide
  obtain ⟨-, hname, hbehind⟩ := Reader.readIdentifier_operand h.isName hspace hrest
  have hvalue : r.skipBlanks.readIdentifier.2.skipBlanks.rest =
      d.value.characters ++ ⟨Code.newline, [Byte.newline]⟩ :: behind := by
    rw [Reader.skipBlanks_rest, hbehind, List.dropWhile_cons_of_pos (by decide)]
    cases hcharacters : d.value.characters with
    | nil => rfl
    | cons c cs =>
      have htrim := Text.characters_trimmed d.value
      rw [h.trimmed, hcharacters] at htrim
      have hc := Character.trim_head htrim.symm
      have hblank : c.isBlank = false := by
        rw [Character.isBlank, Code.isBlank, Bool.and_eq_false_iff]
        exact .inr hc
      rw [List.cons_append, List.dropWhile_cons_of_neg (by simp [hblank])]
  have hline : r.skipBlanks.readIdentifier.2.skipBlanks.readLine.1 = d.value := by
    have hinside : ∀ c ∈ d.value.characters, (c.code != Code.newline) = true := by
      intro c hc
      simpa using Text.newline_notMem_iff.mp h.newline c hc
    rw [Reader.readLine, Reader.readWhile, hvalue, List.takeWhile_append_of_pos hinside,
      List.takeWhile_cons_of_neg (by decide), List.append_nil, Text.ofCharacters_characters]
  rw [readDefine_eq, hline, h.trimmed, hname, if_neg (Definition.ne_nil_of_isName h.isName)]

/-- The line that makes a definition. -/
theorem read_definition {r : Reader} {d : Definition} (h : d.FitsLine) {behind : List Character}
    (hrest : r.rest = (bytes "#define ").characters ++ (d.name.characters ++ ⟨32, [32]⟩ ::
      (d.value.characters ++ ⟨Code.newline, [Byte.newline]⟩ :: behind))) :
    read r = .ok (.define d.name d.value, r.skipLine) := by
  have hmarks : (bytes "#define ").characters =
      ⟨35, [35]⟩ :: (Directive.define.keyword.characters ++ [⟨32, [32]⟩]) := by decide +kernel
  rw [hmarks, List.cons_append, List.append_assoc] at hrest
  obtain ⟨hhash, hkeyword, hbehind⟩ := Reader.readKeyword_directive .define hrest
  have hdefine := readDefine_operand h hbehind
  rw [Reader.skipLine_readKeyword hhash] at hdefine
  rw [read, if_pos hhash, readDirective]
  dsimp only
  rw [hkeyword]
  exact hdefine

end Construct

/-! ## Steps over definitions -/

/-- The position behind a line. -/
theorem Position.foldl_after_line {cs : List Character} (hcs : ∀ c ∈ cs, c.code ≠ Code.newline)
    {ending : Character} (hending : ending.code = Code.newline) (p : Position) :
    (cs ++ [ending]).foldl after p =
      ⟨p.offset + (Text.ofCharacters (cs ++ [ending])).length, p.line + 1, 1⟩ := by
  have hnone : cs.countP (·.code == Code.newline) = 0 := by
    rw [List.countP_eq_zero]
    intro c hc
    simpa using hcs c hc
  have hline := line_foldl_after cs p
  have hoffset := Reader.offset_foldl_after (cs ++ [ending]) p
  rw [hnone, Nat.add_zero] at hline
  rw [← hoffset, List.foldl_append, List.foldl_cons, List.foldl_nil, after, if_pos hending, hline]

/-- Skipping a line leads to the text below it. -/
theorem Reader.skipLine_eq_below {r : Reader} {line behind : Text} (hline : Byte.newline ∉ line)
    (hrest : r.rest = Text.characters (line ++ Byte.newline :: behind))
    (hcolumn : r.position.column = 1) :
    r.skipLine = ⟨r.position.below ⟨1, line.length + 1⟩, behind.characters⟩ := by
  have hinside := Text.newline_notMem_iff.mp hline
  rw [Text.characters_newline] at hrest
  obtain ⟨hread, hbehind⟩ := line_of_append hinside rfl hrest
  have hreads : r.Reads (line.characters ++ [⟨Code.newline, [Byte.newline]⟩]) r.skipLine := by
    have htwo := (reads_skipWhile (·.code != Code.newline) r).trans (reads_skip 1 _)
    have hending : (r.skipWhile (·.code != Code.newline)).rest.take 1 =
        [⟨Code.newline, [Byte.newline]⟩] := by
      have hall : ∀ c ∈ line.characters, (c.code != Code.newline) = true := by simpa using hinside
      rw [skipWhile_rest, hrest, List.dropWhile_append_of_pos hall,
        List.dropWhile_cons_of_neg (by decide)]
      rfl
    rw [hending] at htwo
    rw [Reader.line] at hread
    rwa [hread] at htwo
  have hposition := hreads.position_eq
  rw [Position.foldl_after_line hinside rfl, Text.ofCharacters_append,
    Text.ofCharacters_characters, List.length_append] at hposition
  have heq : r.skipLine = ⟨r.skipLine.position, r.skipLine.rest⟩ := rfl
  rw [heq, hposition, hbehind, Position.below, hcolumn]
  rfl

namespace Run

variable {run : Run} {file : Files.Address} {outer : List Frame}

/-- The step over a definition. -/
theorem step_definition {d : Definition} (h : d.FitsLine) {r : Reader} {behind : Text}
    (hframes : run.frames = ⟨file, r⟩ :: outer) (hskip : run.isSkipping = false)
    (hrest : r.rest = Text.characters (d.line ++ behind)) (hcolumn : r.position.column = 1)
    (disk : Files.Disk) (dirs : List Text) :
    run.step disk dirs = .ok { run with
      macros := run.macros.define d.name d.value
      frames := ⟨file, ⟨r.position.below ⟨1, d.line.length⟩, behind.characters⟩⟩ :: outer } := by
  have hcharacters := hrest
  rw [Definition.characters_line] at hcharacters
  have hread := Construct.read_definition h hcharacters
  have hne : r.rest ≠ [] := by
    rw [hcharacters]
    exact List.append_ne_nil_of_left_ne_nil (by decide +kernel) _
  have hline : r.skipLine = ⟨r.position.below ⟨1, d.line.length⟩, behind.characters⟩ := by
    have hshape : d.line ++ behind =
        (bytes "#define " ++ (d.name ++ 0x20 :: d.value)) ++ Byte.newline :: behind := by
      simp [Definition.line]
    have hlength : d.line.length =
        (bytes "#define " ++ (d.name ++ 0x20 :: d.value)).length + 1 := by
      simp [Definition.line]
      omega
    rw [hshape] at hrest
    rw [hlength]
    exact Reader.skipLine_eq_below h.newline_notMem_line hrest hcolumn
  rw [step_of_construct hframes hne hskip hread, hline]
  rfl

/-- The steps over definitions lead to the text below them, with the macros bound. -/
theorem Steps.through_definitions (disk : Files.Disk) (dirs : List Text) (run : Run)
    {definitions : List Definition} (h : ∀ d ∈ definitions, d.FitsLine) {r : Reader}
    {behind : Text}
    (hframes : run.frames = ⟨file, r⟩ :: outer) (hskip : run.isSkipping = false)
    (hrest : r.rest = Text.characters (Definition.lines definitions ++ behind))
    (hcolumn : r.position.column = 1) :
    ∃ visited, Steps disk dirs run visited { run with
      macros := definitions.foldl (fun macros d => Macros.define macros d.name d.value) run.macros
      frames := ⟨file, ⟨r.position.below
        ⟨definitions.length, (Definition.lines definitions).length⟩, behind.characters⟩⟩ ::
          outer } := by
  induction definitions generalizing run r with
  | nil =>
    have hbehind : r.rest = behind.characters := hrest
    have hsame : run = { run with frames := ⟨file, ⟨r.position, behind.characters⟩⟩ :: outer } := by
      rw [← hbehind, ← hframes]
    refine ⟨[], ?_⟩
    nth_rewrite 1 [hsame]
    exact .refl _
  | cons d definitions ih =>
    obtain ⟨hd, hdefinitions⟩ := List.forall_mem_cons.mp h
    have hlines : Definition.lines (d :: definitions) ++ behind =
        d.line ++ (Definition.lines definitions ++ behind) := by
      rw [Definition.lines, List.flatMap_cons, List.append_assoc]
      rfl
    rw [hlines] at hrest
    have hstep := step_definition hd hframes hskip hrest hcolumn disk dirs
    obtain ⟨visited, hsteps⟩ := ih { run with
      macros := run.macros.define d.name d.value
      frames := ⟨file, ⟨r.position.below ⟨1, d.line.length⟩,
        Text.characters (Definition.lines definitions ++ behind)⟩⟩ :: outer }
      hdefinitions rfl hskip rfl hcolumn
    have hlength : (Definition.lines (d :: definitions)).length =
        d.line.length + (Definition.lines definitions).length := by
      rw [Definition.lines, List.flatMap_cons, List.length_append]
      rfl
    rw [Position.below_below, ← hlength] at hsteps
    exact ⟨run :: visited, .head (by rw [hframes]; exact List.cons_ne_nil _ _) hstep hsteps⟩

end Run

/-! ## Whole runs -/

namespace Definition

/-- The disk with definitions above the text of a file. -/
def above (definitions : List Definition) (file : Files.Address) (disk : Files.Disk) : Files.Disk :=
  disk.rewrite fun address content =>
    if address = file then lines definitions ++ content else content

/-- The lines that definitions put above the text of a file. -/
def heading (definitions : List Definition) (file : Files.Address) : Heading :=
  ⟨file, definitions.length, (lines definitions).length⟩

theorem heading_confines (definitions : List Definition) (file : Files.Address) :
    (heading definitions file).Confines fun address content =>
      if address = file then lines definitions ++ content else content :=
  fun _ _ hother => if_neg hother

end Definition

namespace Session

variable {disk : Files.Disk} {root : Text} {file : Files.Address} {text : Text}
  {parsed : List Definition}

/-- Below the definitions, the run is in the state that the run with predefined macros
begins in. -/
theorem steps_to_below (disk : Files.Disk) (dirs : List Text) (file : Files.Address) (text : Text)
    (hfits : ∀ d ∈ parsed, d.FitsLine) :
    ∃ visited, Run.Steps (Definition.above parsed file disk) dirs
      ((Run.ofMacros .empty).enter file (Definition.lines parsed ++ text)) visited
      (((Run.ofMacros (parsed.foldl (fun macros d => Macros.define macros d.name d.value)
        .empty)).enter file text).below (Definition.heading parsed file)) := by
  obtain ⟨visited, hsteps⟩ := Run.Steps.through_definitions (Definition.above parsed file disk)
    dirs ((Run.ofMacros .empty).enter file (Definition.lines parsed ++ text)) hfits rfl rfl rfl rfl
  refine ⟨visited, ?_⟩
  have hframe := Frame.below_self (Definition.heading parsed file) (.ofText text)
  show Run.Steps _ _ _ _ (Run.mk _ _ _
    [Frame.below (Definition.heading parsed file) ⟨(Definition.heading parsed file).file,
      .ofText text⟩] _ _)
  rw [hframe]
  exact hsteps

/-- The two runs, up to the lines above the text of the root file. -/
theorem process_above (hdisk : disk.WellFormed) (dirs : List Text)
    (hfetch : disk.fetch (disk.canonical root) = .ok (file, text))
    (hfits : ∀ d ∈ parsed, d.FitsLine) {first second : Option Stop × Session}
    (hfirst : (new disk dirs (parsed.foldl (fun macros d => Macros.define macros d.name d.value)
      .empty)).process disk root = first)
    (hsecond : (new (Definition.above parsed file disk) dirs .empty).process
      (Definition.above parsed file disk) root = second) :
    second.1 = first.1.map (Stop.below (Definition.heading parsed file)) ∧
      second.2.run = first.2.run.below (Definition.heading parsed file) := by
  have hopened := opened_of_fetch (new disk dirs (parsed.foldl (fun macros d =>
    Macros.define macros d.name d.value) .empty)) hfetch
  have hopened' : (new (Definition.above parsed file disk) dirs .empty).opened
      (Definition.above parsed file disk) root =
      .ok ((Run.ofMacros .empty).enter file (Definition.lines parsed ++ text)) := by
    rw [Definition.above, rewrite_opened, hfetch]
    simp only [Except.map, if_pos]
    rfl
  obtain ⟨visited, hsteps⟩ := steps_to_below disk (dirs.map disk.absolute) file text hfits
  have hfinish := Run.finish_below (dirs.map disk.absolute)
    (Definition.heading_confines parsed file) hdisk (.of_opened hopened) List.mem_cons_self
  rw [← hfirst, ← hsecond, process_of_opened hopened, process_of_opened hopened']
  have hsame : Run.finish (Definition.above parsed file disk)
      (new (Definition.above parsed file disk) dirs .empty).settings.includeDirectories _ = _ :=
    (Run.finish_eq_of_steps hsteps).trans hfinish
  rw [hsame]
  dsimp only [new]
  generalize Run.finish disk (dirs.map disk.absolute) _ = outcome
  cases outcome with
  | ok last => exact ⟨rfl, Run.below_warnUnclosed _ last⟩
  | error failure => exact ⟨rfl, rfl⟩

/-- Macros that are predefined by definitions which are all accepted, with values that fit a
line, are as good as these definitions above the text of the root file.  The runs come to the
same end with the same output and macros, and what they report about the root file is as many
lines apart as there are definitions. -/
theorem predefining_eq_defining (hdisk : disk.WellFormed) (dirs : List Text)
    (hfetch : disk.fetch (disk.canonical root) = .ok (file, text)) {definitions : List Text}
    (hparsed : definitions.map Definition.parse = parsed.map .ok)
    (hvalues : ∀ d ∈ parsed, Byte.newline ∉ d.value) :
    let first := (new disk dirs (Definition.parseAll definitions).1).process disk root
    let second := (new (Definition.above parsed file disk) dirs .empty).process
      (Definition.above parsed file disk) root
    second.1 = first.1.map (Stop.below (Definition.heading parsed file)) ∧
      second.2.run.output = first.2.run.output ∧
      second.2.run.fragments = first.2.run.fragments ∧
      second.2.run.macros = first.2.run.macros ∧
      second.2.processedFiles = first.2.processedFiles ∧
      second.2.run.warnings =
        first.2.run.warnings.map (Diagnostic.below (Definition.heading parsed file)) := by
  intro first second
  have hfits : ∀ d ∈ parsed, d.FitsLine := by
    intro d hd
    have hmem : Except.ok d ∈ definitions.map Definition.parse := by
      rw [hparsed]
      exact List.mem_map_of_mem hd
    obtain ⟨definition, -, hparse⟩ := List.mem_map.mp hmem
    exact Definition.fitsLine_of_parse hparse (hvalues d hd)
  have hfirst : (new disk dirs (parsed.foldl (fun macros d => Macros.define macros d.name d.value)
      .empty)).process disk root = first := by
    rw [← Definition.parseAll_eq hparsed]
  obtain ⟨hstop, hrun⟩ := process_above hdisk dirs hfetch hfits hfirst rfl
  refine ⟨hstop, ?_, ?_, ?_, ?_, ?_⟩
  · rw [hrun]
    rfl
  · rw [hrun]
    rfl
  · rw [hrun]
    rfl
  · rw [processedFiles, hrun]
    rfl
  · rw [hrun, Run.warnings, Run.warnings, List.map_reverse]
    rfl

/-- A file that uses two macros and removes one that is not bound. -/
def unbound : Files.Disk where
  nodes := [
    ([bytes "w"], .directory),
    ([bytes "w", bytes "main.xs"], .file (bytes "@A@@B@\n#undef C\n"))]
  workingDirectory := [bytes "w"]

/-- Three definitions, of which the last one rebinds the first macro. -/
def rebinding : List Definition :=
  [⟨bytes "A", bytes "1"⟩, ⟨bytes "B", bytes "x y"⟩, ⟨bytes "A", bytes "2"⟩]

theorem predefining_eq_defining_rebinding :
    let second := (new (Definition.above rebinding [bytes "w", bytes "main.xs"] unbound) []
      .empty).process (Definition.above rebinding [bytes "w", bytes "main.xs"] unbound)
        (bytes "main.xs")
    second.1 = none ∧ second.2.run.output = bytes "2x y\n" ∧
      second.2.run.macros.entries = [(bytes "A", bytes "2"), (bytes "B", bytes "x y")] ∧
      second.2.run.warnings =
        [Advice.warning (.notDefined (bytes "C")) ⟨bytes "/w/main.xs", 5, 8⟩] := by
  obtain ⟨hstop, houtput, -, hmacros, -, hwarnings⟩ :=
    @predefining_eq_defining unbound (bytes "main.xs") [bytes "w", bytes "main.xs"]
      (bytes "@A@@B@\n#undef C\n") rebinding (by decide +kernel) [] (by decide +kernel)
      [bytes "A=1", bytes "-DB= x y ", bytes "A=2"] (by decide +kernel) (by decide +kernel)
  refine ⟨hstop.trans (by decide +kernel), houtput.trans (by decide +kernel), ?_,
    hwarnings.trans (by decide +kernel)⟩
  rw [hmacros]
  decide +kernel

end Session

end XsPrep
