import Mathlib.Data.List.Infix
import XsPrep.Macro.Definition
import XsPrep.Proofs.Source.Lines
import XsPrep.Proofs.Source.Relocation
import XsPrep.Proofs.Preprocess.Blocks

/-!
# Which text a block selects

A block on a macro stands for its text if the macro is bound, and for nothing if it
is not.

Text that is skipped is passed line by line.  Only the directives at the beginning
of its lines matter, and of these only how deep they nest (`Steps.skip_lines`), so
nothing else in the text can make a run fail.

Text that is read does the same inside the block and by itself.  The two runs are
compared step by step: the one has the block open below all blocks that the text
opens (`Nested`), and it has the end of the block left behind the text
(`SameFiles`).
-/

namespace XsPrep

/-! ## Blocks as texts -/

/-- A block on the macro `name`, around lines. -/
def conditional (name text : Text) : Text :=
  bytes "#ifdef " ++ (name ++ Byte.newline :: (text ++ bytes "#endif\n"))

theorem conditional_characters (name : Text) {text : Text} (htext : text.IsLines) :
    (conditional name text).characters =
      (bytes "#ifdef ").characters ++ (name.characters ++ ⟨Code.newline, [Byte.newline]⟩ ::
        (text.characters ++ (bytes "#endif\n").characters)) := by
  rw [conditional, Text.characters_append_ascii (by decide +kernel), Text.characters_newline,
    Text.characters_append htext]

theorem identifier_of_isName {name : Text} (h : Definition.isName name = true) :
    name.characters ≠ [] ∧ ∀ c ∈ name.characters, c.isIdentifier = true := by
  simp only [Definition.isName, Bool.and_eq_true, Bool.not_eq_true', List.isEmpty_eq_false_iff,
    List.all_eq_true] at h
  refine ⟨?_, h.2⟩
  intro hnil
  have hbytes := Text.ofCharacters_characters name
  rw [hnil] at hbytes
  exact h.1 hbytes.symm

/-- No white space is in front of a name. -/
theorem dropWhile_isBlank_of_isName {name : Text} (hname : Definition.isName name = true)
    (behind : List Character) :
    (name.characters ++ behind).dropWhile Character.isBlank = name.characters ++ behind := by
  obtain ⟨hne, hall⟩ := identifier_of_isName hname
  obtain ⟨c, cs, hcons⟩ := List.exists_cons_of_ne_nil hne
  have hc := Character.isBlank_of_identifier (hall c (by rw [hcons]; exact List.mem_cons_self))
  rw [hcons, List.cons_append, List.dropWhile_cons_of_neg (by rw [hc]; decide)]

/-- A reader takes exactly the name if what stands behind it does not continue it. -/
theorem Reader.readIdentifier_of_isName {r : Reader} {name : Text}
    (hname : Definition.isName name = true) {behind : List Character}
    (hbehind : ∀ c, behind.head? = some c → c.isIdentifier = false)
    (hrest : r.rest = name.characters ++ behind) :
    r.readIdentifier.1 = name ∧ r.readIdentifier.2.rest = behind := by
  have hall := (identifier_of_isName hname).2
  have hstop : behind.takeWhile Character.isIdentifier = [] ∧
      behind.dropWhile Character.isIdentifier = behind := by
    cases behind with
    | nil => exact ⟨rfl, rfl⟩
    | cons c cs =>
      have hc := hbehind c rfl
      exact ⟨List.takeWhile_cons_of_neg (by simp [hc]), List.dropWhile_cons_of_neg (by simp [hc])⟩
  constructor
  · rw [Reader.readIdentifier, Reader.readWhile, hrest, List.takeWhile_append_of_pos hall,
      hstop.1, List.append_nil, Text.ofCharacters_characters]
  · rw [Reader.readIdentifier, Reader.readWhile_rest, hrest, List.dropWhile_append_of_pos hall,
      hstop.2]

/-- A name behind a space. -/
theorem Reader.readIdentifier_operand {r : Reader} {name : Text}
    (hname : Definition.isName name = true) {behind : List Character}
    (hbehind : ∀ c, behind.head? = some c → c.isIdentifier = false)
    (hrest : r.rest = ⟨32, [32]⟩ :: (name.characters ++ behind)) :
    r.skipBlanks.rest = name.characters ++ behind ∧ r.skipBlanks.readIdentifier.1 = name ∧
      r.skipBlanks.readIdentifier.2.rest = behind := by
  have hoperand : r.skipBlanks.rest = name.characters ++ behind := by
    rw [Reader.skipBlanks_rest, hrest, List.dropWhile_cons_of_pos (by decide),
      dropWhile_isBlank_of_isName hname]
  exact ⟨hoperand, Reader.readIdentifier_of_isName hname hbehind hoperand⟩

/-- The keyword of a directive is a name itself, and the space behind it ends it. -/
theorem Reader.readKeyword_directive (directive : Directive) {r : Reader}
    {behind : List Character}
    (hrest : r.rest = ⟨35, [35]⟩ :: (directive.keyword.characters ++ ⟨32, [32]⟩ :: behind)) :
    r.sees Code.hash = true ∧ r.readKeyword.1 = directive.keyword ∧
      r.readKeyword.2.rest = ⟨32, [32]⟩ :: behind := by
  have hhash : r.sees Code.hash = true := by
    rw [Reader.sees, Reader.peek?, hrest]
    rfl
  have hkeyword : Definition.isName directive.keyword = true := by
    cases directive <;> decide +kernel
  have hbehind : ∀ c, (⟨32, [32]⟩ :: behind : List Character).head? = some c →
      c.isIdentifier = false := by
    intro c hc
    rw [← Option.some.inj hc]
    decide
  have hoperand : (r.skip 1).skipBlanks.rest =
      directive.keyword.characters ++ ⟨32, [32]⟩ :: behind := by
    rw [Reader.skipBlanks_rest, Reader.skip_rest, hrest]
    exact dropWhile_isBlank_of_isName hkeyword _
  exact ⟨hhash, Reader.readIdentifier_of_isName hkeyword hbehind hoperand⟩

theorem Definition.ne_nil_of_isName {name : Text} (h : isName name = true) : name ≠ [] := by
  rintro rfl
  exact (identifier_of_isName h).1 Text.characters_nil

namespace Construct

/-- The name behind the keyword of an opening, up to the end of the line. -/
theorem readOpening_operand {r : Reader} {name : Text} (hname : Definition.isName name = true)
    (place : Position) {behind : List Character}
    (hrest : r.rest = ⟨32, [32]⟩ :: (name.characters ++ ⟨Code.newline, [Byte.newline]⟩ :: behind)) :
    readOpening place r = .ok (.openBlock name place, r.skipLine) ∧ r.skipLine.rest = behind := by
  have hending : ∀ c, (⟨Code.newline, [Byte.newline]⟩ :: behind).head? = some c →
      c.isIdentifier = false := by
    intro c hc
    rw [← Option.some.inj hc]
    decide
  obtain ⟨hoperand, hidentifier, -⟩ := Reader.readIdentifier_operand hname hending hrest
  have hempty := Definition.ne_nil_of_isName hname
  constructor
  · rw [readOpening_of_name place (hidentifier.symm ▸ hempty), hidentifier]
  · rw [← Reader.skipLine_skipBlanks]
    refine (Reader.line_of_append ?_ rfl hoperand).2
    exact fun c hc => Character.code_ne_newline_of_identifier ((identifier_of_isName hname).2 c hc)

/-- The line that opens a block. -/
theorem read_opening {r : Reader} {name : Text} (hname : Definition.isName name = true)
    {behind : List Character}
    (hrest : r.rest = (bytes "#ifdef ").characters ++
      (name.characters ++ ⟨Code.newline, [Byte.newline]⟩ :: behind)) :
    ∃ q, read r = .ok (.openBlock name r.position, q) ∧ q.rest = behind := by
  have hmarks : (bytes "#ifdef ").characters =
      ⟨35, [35]⟩ :: (Directive.ifDefined.keyword.characters ++ [⟨32, [32]⟩]) := by decide +kernel
  rw [hmarks, List.cons_append, List.append_assoc] at hrest
  obtain ⟨hhash, hkeyword, hbehind⟩ := Reader.readKeyword_directive .ifDefined hrest
  obtain ⟨hopening, hline⟩ := readOpening_operand hname r.position hbehind
  refine ⟨_, ?_, hline⟩
  rw [read, if_pos hhash, readDirective]
  dsimp only
  rw [hkeyword]
  exact hopening

end Construct

/-- The line that closes a block. -/
theorem closing_line {r : Reader} {behind : List Character}
    (hrest : r.rest = (bytes "#endif\n").characters ++ behind) :
    r.sees Code.hash = true ∧ Character.directive? r.rest = some .endIf ∧
      r.skipLine.rest = behind := by
  have hmarks : (bytes "#endif\n").characters =
      [⟨35, [35]⟩, ⟨101, [101]⟩, ⟨110, [110]⟩, ⟨100, [100]⟩, ⟨105, [105]⟩, ⟨102, [102]⟩,
        ⟨10, [10]⟩] := by decide +kernel
  rw [hmarks] at hrest
  rw [Reader.sees, Reader.peek?, Reader.skipLine_rest, hrest]
  exact ⟨rfl, rfl, rfl⟩

theorem Construct.read_endIf {r : Reader} (hhash : r.sees Code.hash = true)
    (hdirective : Character.directive? r.rest = some .endIf) :
    read r = .ok (.closeBlock r.position, r.skipLine) := by
  rw [Character.directive?_of_hash hhash] at hdirective
  rw [read, if_pos hhash, readDirective]
  dsimp only
  rw [hdirective, Reader.skipLine_readKeyword hhash]

/-! ## Directives of lines -/

namespace Character

/-- The directives at the beginning of lines. -/
def directives (cs : List Character) : List Directive := (lines cs).filterMap directive?

theorem directives_append {line : List Character} (hline : ∀ c ∈ line, c.code ≠ Code.newline)
    {ending : Character} (hending : ending.code = Code.newline) (rest : List Character) :
    directives (line ++ ending :: rest) = (directive? line).toList ++ directives rest := by
  rw [directives, lines_append hline hending, List.filterMap_cons]
  cases directive? line <;> rfl

end Character

/-- Whether directives close only blocks that they opened, and all of them. -/
def Directive.Balanced (directives : List Directive) : Prop :=
  (∀ front ∈ directives.inits, front.count .endIf ≤ front.count .ifDefined) ∧
    directives.count .endIf = directives.count .ifDefined

instance (directives : List Directive) : Decidable (Directive.Balanced directives) :=
  inferInstanceAs (Decidable (_ ∧ _))

namespace Run

variable {disk : Files.Disk} {dirs : List Text} {run run' next last : Run} {frame : Frame}
  {outer : List Frame} {file : Files.Address} {behind : List Character}
  {base : List Block} {extra : Block}

/-! ## Skipped text -/

/-- A line of skipped text only opens or closes a block of skipped text. -/
theorem step_skipped (disk : Files.Disk) (dirs : List Text) {reader : Reader} {inner : List Block}
    (hframes : run.frames = ⟨file, reader⟩ :: outer) (hrest : reader.rest ≠ [])
    (hblocks : run.blocks = ⟨inner ++ base⟩) (hinner : ∀ block ∈ inner, block.active = false)
    (hne : inner ≠ []) :
    ∃ inner' : List Block, run.step disk dirs = .ok { run with
        frames := ⟨file, reader.skipLine⟩ :: outer
        blocks := ⟨inner' ++ base⟩ } ∧
      (∀ block ∈ inner', block.active = false) ∧
      inner'.length + (Character.directive? reader.rest).toList.count .endIf =
        inner.length + (Character.directive? reader.rest).toList.count .ifDefined := by
  obtain ⟨top, below, rfl⟩ := List.exists_cons_of_ne_nil hne
  obtain ⟨htop, hbelow⟩ := List.forall_mem_cons.mp hinner
  have hskip : run.isSkipping = true := by simp [isSkipping, Stack.top?, hblocks, htop]
  rw [step_of_skipping hframes hrest hskip, SkippedLine.read_eq]
  have hkeep : { run with frames := ⟨file, reader.skipLine⟩ :: outer } = { run with
      frames := ⟨file, reader.skipLine⟩ :: outer
      blocks := ⟨(top :: below) ++ base⟩ } := by rw [← hblocks]
  cases Character.directive? reader.rest with
  | none => exact ⟨top :: below, congrArg Except.ok hkeep, hinner, rfl⟩
  | some directive =>
    cases directive with
    | ifDefined =>
      refine ⟨⟨false, ⟨file.path, reader.skipBlanks.position.line,
        reader.skipBlanks.position.column⟩⟩ :: top :: below, ?_, ?_, ?_⟩
      · dsimp only [skipLine, openBlock]
        rw [hblocks]
        rfl
      · exact List.forall_mem_cons.mpr ⟨rfl, hinner⟩
      · simp
    | endIf =>
      refine ⟨below, ?_, hbelow, ?_⟩
      · dsimp only [skipLine]
        rw [hblocks]
        rfl
      · simp
    | _ => exact ⟨top :: below, congrArg Except.ok hkeep, hinner, rfl⟩

/-- Lines of skipped text are passed, whatever they hold, as long as they do not
close the block they are in. -/
theorem Steps.skip_lines (disk : Files.Disk) (dirs : List Text) {cs : List Character}
    (hcs : Character.AreLines cs) {reader : Reader} {inner : List Block}
    (hframes : run.frames = ⟨file, reader⟩ :: outer)
    (hrest : reader.rest = cs ++ behind) (hblocks : run.blocks = ⟨inner ++ base⟩)
    (hinner : ∀ block ∈ inner, block.active = false)
    (hnesting : ∀ front ∈ (Character.directives cs).inits,
      front.count .endIf < inner.length + front.count .ifDefined) :
    ∃ (visited : List Run) (reader' : Reader) (inner' : List Block), reader'.rest = behind ∧
      Steps disk dirs run visited { run with
        frames := ⟨file, reader'⟩ :: outer
        blocks := ⟨inner' ++ base⟩ } ∧
      (∀ block ∈ inner', block.active = false) ∧
      inner'.length + (Character.directives cs).count .endIf =
        inner.length + (Character.directives cs).count .ifDefined := by
  induction hlength : cs.length using Nat.strongRecOn generalizing cs run reader inner with
  | _ length ih =>
  rcases hcs.eq_nil_or_append with rfl | ⟨line, ending, rest, hline, hending, rfl, hlines⟩
  · refine ⟨[], reader, inner, hrest, ?_, hinner, rfl⟩
    rw [← hblocks, ← hframes]
    exact .refl run
  · rw [List.append_assoc, List.cons_append] at hrest
    obtain ⟨hfirst, hbehind⟩ := Reader.line_of_append hline hending hrest
    have hdirective : Character.directive? reader.rest = Character.directive? line := by
      rw [← Character.directive?_line, hfirst]
    have hne : inner ≠ [] := by
      have hpositive := hnesting [] (by simp)
      exact List.ne_nil_of_length_pos (by simpa using hpositive)
    rw [Character.directives_append hline hending] at hnesting ⊢
    obtain ⟨inner', hstep, hinner', hcount⟩ := step_skipped disk dirs hframes
      (by simp [hrest]) hblocks hinner hne
    rw [hdirective] at hcount
    have hnesting' : ∀ front ∈ (Character.directives rest).inits,
        front.count .endIf < inner'.length + front.count .ifDefined := by
      intro front hfront
      have hwhole := hnesting ((Character.directive? line).toList ++ front) (by
        rw [List.mem_inits] at hfront ⊢
        exact (List.prefix_append_right_inj _).mpr hfront)
      rw [List.count_append, List.count_append] at hwhole
      omega
    have hshorter : rest.length < length := by
      rw [← hlength, List.length_append, List.length_cons]
      omega
    have hnext : ({ run with
      frames := ⟨file, reader.skipLine⟩ :: outer
      blocks := ⟨inner' ++ base⟩ } : Run).frames = ⟨file, reader.skipLine⟩ :: outer := rfl
    obtain ⟨visited, reader', inner'', hreader', hsteps, hinner'', hcount'⟩ :=
      ih rest.length hshorter hlines hnext hbehind rfl hinner' hnesting' rfl
    refine ⟨_, reader', inner'', hreader', .head (by simp [hframes]) hstep hsteps, hinner'', ?_⟩
    rw [List.count_append, List.count_append]
    omega

/-! ## Text inside a block -/

/-- The runs agree but for warnings and places, and for the block `extra`, which is
open in the second run.  Both runs have the blocks `base` open below all others. -/
structure Nested (base : List Block) (extra : Block) (run run' : Run) : Prop where
  macros : run'.macros = run.macros
  emitted : run'.emitted = run.emitted
  processed : run'.processed = run.processed
  blocks : ∃ inner inner', run.blocks.elements = inner ++ base ∧
    run'.blocks.elements = inner' ++ extra :: base ∧
    inner'.map Block.active = inner.map Block.active

namespace Nested

theorem isSkipping_eq (h : Nested base extra run run')
    (hactive : ∀ block ∈ extra :: base, block.active = true) :
    run'.isSkipping = run.isSkipping := by
  obtain ⟨hextra, hbase⟩ := List.forall_mem_cons.mp hactive
  obtain ⟨inner, inner', hblocks, hblocks', hinner⟩ := h.blocks
  rw [isSkipping, isSkipping, Stack.top?, Stack.top?, hblocks, hblocks']
  cases inner with
  | nil =>
    obtain rfl := List.map_eq_nil_iff.mp hinner
    cases base with
    | nil => simp [hextra]
    | cons top below => simp [hextra, hbase top List.mem_cons_self]
  | cons top below =>
    obtain ⟨top', below', rfl, htop, -⟩ := List.map_eq_cons_iff.mp hinner
    simp [htop]

theorem withFrames (h : Nested base extra run run') (frames frames' : List Frame) :
    Nested base extra { run with frames } { run' with frames := frames' } :=
  ⟨h.macros, h.emitted, h.processed, h.blocks⟩

theorem emit (h : Nested base extra run run') (fragment : Text) :
    Nested base extra (run.emit fragment) (run'.emit fragment) :=
  ⟨h.macros, by simp [Run.emit, h.emitted], h.processed, h.blocks⟩

theorem warn (h : Nested base extra run run') (advice : Advice) (place place' : Place) :
    Nested base extra (run.warn advice place) (run'.warn advice place') :=
  ⟨h.macros, h.emitted, h.processed, h.blocks⟩

theorem undefine (h : Nested base extra run run') (name : Text) (place place' : Place) :
    Nested base extra (run.undefine name place) (run'.undefine name place') := by
  rw [Run.undefine, Run.undefine, h.macros]
  split
  · exact h.warn _ _ _
  · split
    · exact ⟨rfl, h.emitted, h.processed, h.blocks⟩
    · exact h.warn _ _ _

theorem openBlock (h : Nested base extra run run') (active : Bool) (place place' : Place) :
    Nested base extra (run.openBlock ⟨active, place⟩) (run'.openBlock ⟨active, place'⟩) := by
  obtain ⟨inner, inner', hblocks, hblocks', hinner⟩ := h.blocks
  refine ⟨h.macros, h.emitted, h.processed, ⟨active, place⟩ :: inner, ⟨active, place'⟩ :: inner',
    ?_, ?_, ?_⟩
  · simp [Run.openBlock, Stack.push, hblocks]
  · simp [Run.openBlock, Stack.push, hblocks']
  · simp [hinner]

/-- A block that is not of `base` is closed in both. -/
theorem pop? (h : Nested base extra run run') {block : Block} {blocks : Stack Block}
    (hpop : run.blocks.pop? = some (block, blocks)) (hsize : base.length ≤ blocks.size) :
    ∃ block' blocks', run'.blocks.pop? = some (block', blocks') ∧
      Nested base extra { run with blocks } { run' with blocks := blocks' } := by
  obtain ⟨inner, inner', hblocks, hblocks', hinner⟩ := h.blocks
  rw [elements_of_pop? hpop] at hblocks
  cases inner with
  | nil =>
    rw [List.nil_append] at hblocks
    rw [← hblocks, List.length_cons, Stack.size] at hsize
    omega
  | cons top below =>
    obtain ⟨top', below', rfl, -, hbelow⟩ := List.map_eq_cons_iff.mp hinner
    obtain ⟨rfl, helements⟩ := List.cons.inj hblocks
    refine ⟨top', ⟨below' ++ extra :: base⟩, ?_, h.macros, h.emitted, h.processed, below, below',
      helements, rfl, hbelow⟩
    rw [Stack.pop?, hblocks']
    rfl

theorem skipLine (h : Nested base extra run run') {line line' : SkippedLine}
    (hline : line.Alike line') {frame frame' : Frame} (hskip : run.isSkipping = true)
    (hsize : base.length ≤ (run.skipLine frame line).blocks.size) :
    Nested base extra (run.skipLine frame line) (run'.skipLine frame' line') := by
  cases hline with
  | opens p q => exact h.openBlock false _ _
  | other => exact h
  | closes =>
    rw [Run.skipLine] at hsize ⊢
    rw [Run.skipLine]
    split at hsize
    · rename_i block blocks hpop
      obtain ⟨block', blocks', hpop', hnested⟩ := h.pop? hpop hsize
      rw [hpop']
      exact hnested
    · rename_i hpop
      -- Where text is skipped some block is open.
      rw [Stack.pop?] at hpop
      split at hpop
      · rename_i hempty
        simp [isSkipping, Stack.top?, hempty] at hskip
      · cases hpop

/-- A construct does the same in both, in files of the same address. -/
theorem execute (h : Nested base extra run run') {c c' : Construct} (hc : c.Alike c')
    {frame frame' : Frame} (hfile : frame'.file = frame.file)
    (hexecute : run.execute disk dirs frame c = .ok next) (hsize : base.length ≤ next.blocks.size) :
    ∃ next' entered, run'.execute disk dirs frame' c' = .ok next' ∧
      Nested base extra next next' ∧
      next.frames = entered ++ run.frames ∧ next'.frames = entered ++ run'.frames := by
  cases hc with
  | literal raw =>
    cases hexecute
    exact ⟨_, [], rfl, h.emit raw, rfl, rfl⟩
  | comment =>
    cases hexecute
    exact ⟨_, [], rfl, h, rfl, rfl⟩
  | character raw =>
    cases hexecute
    exact ⟨_, [], rfl, h.emit raw, rfl, rfl⟩
  | expansion name =>
    simp only [Run.execute] at hexecute ⊢
    rw [h.macros]
    split at hexecute
    · cases hexecute
      exact ⟨_, [], rfl, h.emit _, rfl, rfl⟩
    · cases hexecute
      exact ⟨_, [], rfl, h, rfl, rfl⟩
  | define name value =>
    cases hexecute
    exact ⟨_, [], rfl, ⟨by rw [h.macros], h.emitted, h.processed, h.blocks⟩, rfl, rfl⟩
  | undefine name p q =>
    cases hexecute
    exact ⟨_, [], rfl, h.undefine name _ _, undefine_frames .., undefine_frames ..⟩
  | openBlock name p q =>
    cases hexecute
    simp only [Run.execute]
    rw [h.macros]
    exact ⟨_, [], rfl, h.openBlock _ _ _, rfl, rfl⟩
  | closeBlock p q =>
    simp only [Run.execute] at hexecute ⊢
    split at hexecute
    · rename_i block blocks hpop
      cases hexecute
      obtain ⟨block', blocks', hpop', hnested⟩ := h.pop? hpop hsize
      rw [hpop']
      exact ⟨_, [], rfl, hnested, rfl, rfl⟩
    · cases hexecute
  | includeFile name p q =>
    obtain ⟨file, content, hfind, hcases⟩ := execute_include hexecute
    simp only [Run.execute, includeFile, hfile, hfind, h.processed]
    rcases hcases with ⟨hmem, rfl⟩ | ⟨hnew, rfl⟩
    · rw [if_pos (by simpa using hmem)]
      exact ⟨_, [], rfl, h.warn _ _ _, rfl, rfl⟩
    · rw [if_neg (by simpa using hnew)]
      refine ⟨_, [_], rfl, ⟨h.macros, h.emitted, ?_, h.blocks⟩, rfl, rfl⟩
      simp [enter, h.processed]

end Nested

/-- The runs are in the same files at the same places, inside `file`, of which
`behind` is left in addition in the second run.  Around `file` that run has other
files. -/
inductive SameFiles (file : Files.Address) (behind : List Character) (outer : List Frame) :
    List Frame → List Frame → Prop where
  | here {r r' : Reader} (hrest : r'.rest = r.rest ++ behind)
      (hlines : Character.AreLines r.rest) :
      SameFiles file behind outer [⟨file, r⟩] (⟨file, r'⟩ :: outer)
  | inside {frames frames' : List Frame} (frame : Frame)
      (h : SameFiles file behind outer frames frames') :
      SameFiles file behind outer (frame :: frames) (frame :: frames')

namespace SameFiles

variable {frames frames' : List Frame} {frame frame' : Frame} {outer' : List Frame}

theorem push (h : SameFiles file behind outer frames frames') (entered : List Frame) :
    SameFiles file behind outer (entered ++ frames) (entered ++ frames') := by
  induction entered with
  | nil => exact h
  | cons frame entered ih => exact .inside frame ih

theorem eq_cons (h : SameFiles file behind outer frames frames') :
    ∃ frame frame' rest rest', frames = frame :: rest ∧ frames' = frame' :: rest' ∧
      frame'.file = frame.file := by
  cases h with
  | here => exact ⟨_, _, _, _, rfl, rfl, rfl⟩
  | inside frame h => exact ⟨_, _, _, _, rfl, rfl, rfl⟩

/-- Skipped lines are the same in both. -/
theorem skip {rest rest' : List Frame}
    (h : SameFiles file behind outer (frame :: rest) (frame' :: rest'))
    (hrest : frame.reader.rest ≠ []) :
    frame'.reader.rest ≠ [] ∧
      (SkippedLine.read frame.reader).1.Alike (SkippedLine.read frame'.reader).1 ∧
      SameFiles file behind outer
        ({ frame with reader := (SkippedLine.read frame.reader).2 } :: rest)
        ({ frame' with reader := (SkippedLine.read frame'.reader).2 } :: rest') := by
  cases h with
  | @here r r' hbehind hlines =>
    have hextends : r.Extends behind r' := ⟨hbehind, .inr (hlines.resolve_left hrest)⟩
    obtain ⟨hline, hreader⟩ := SkippedLine.read_extends hextends
    refine ⟨?_, hline, .here hreader ((SkippedLine.leadsTo_read r).areLines hlines)⟩
    rw [hbehind]
    exact List.append_ne_nil_of_left_ne_nil hrest behind
  | inside _ h => exact ⟨hrest, .refl _, .inside _ h⟩

/-- Constructs are the same in both. -/
theorem read {rest rest' : List Frame}
    (h : SameFiles file behind outer (frame :: rest) (frame' :: rest'))
    (hrest : frame.reader.rest ≠ []) {c : Construct} {q : Reader}
    (hread : Construct.read frame.reader = .ok (c, q)) :
    ∃ c' q', Construct.read frame'.reader = .ok (c', q') ∧ c.Alike c' ∧
      SameFiles file behind outer ({ frame with reader := q } :: rest)
        ({ frame' with reader := q' } :: rest') := by
  cases h with
  | @here r r' hbehind hlines =>
    have hextends : r.Extends behind r' := ⟨hbehind, .inr (hlines.resolve_left hrest)⟩
    have hsame := Construct.read_extends hextends hrest (.inr ⟨_, hread⟩)
    rw [hread] at hsame
    generalize Construct.read r' = result at hsame
    cases hsame with
    | ok hc hq =>
      exact ⟨_, _, rfl, hc, .here hq ((Construct.leadsTo_read hread).areLines hlines)⟩
  | inside _ h => exact ⟨c, q, hread, .refl c, .inside _ h⟩

end SameFiles

/-- Away from the end of the text the runs take the same step. -/
theorem step_nested (hactive : ∀ block ∈ extra :: base, block.active = true)
    (h : Nested base extra run run') (hfiles : SameFiles file behind outer run.frames run'.frames)
    (hmore : ∀ r : Reader, run.frames = [⟨file, r⟩] → r.rest ≠ [])
    (hstep : run.step disk dirs = .ok next) (hsize : base.length ≤ next.blocks.size) :
    ∃ next', run'.step disk dirs = .ok next' ∧ Nested base extra next next' ∧
      SameFiles file behind outer next.frames next'.frames := by
  have hskipping := h.isSkipping_eq hactive
  obtain ⟨frame, frame', rest, rest', hframes, hframes', hfile⟩ := hfiles.eq_cons
  rw [hframes, hframes'] at hfiles
  cases step_move hframes hstep with
  | leave hend =>
    cases hfiles with
    | here => exact absurd hend (hmore _ hframes)
    | inside _ hfiles => exact ⟨_, step_of_end hframes' hend, h.withFrames _ _, hfiles⟩
  | skip hrest hskip hread =>
    obtain ⟨hrest', hline, hnext⟩ := hfiles.skip hrest
    rw [hread] at hline hnext
    refine ⟨_, step_of_skipping hframes' hrest' (hskipping.trans hskip), ?_, ?_⟩
    · exact (h.withFrames _ _).skipLine hline hskip hsize
    · rw [skipLine_frames, skipLine_frames]
      exact hnext
  | read hrest hskip hread hexecute =>
    obtain ⟨hrest', -, -⟩ := hfiles.skip hrest
    obtain ⟨c', q', hread', hc, hnext⟩ := hfiles.read hrest hread
    obtain ⟨next', entered, hexecute', hnested, hentered, hentered'⟩ :=
      (h.withFrames _ ({ frame' with reader := q' } :: rest')).execute hc hfile hexecute hsize
    refine ⟨next', ?_, hnested, ?_⟩
    · rw [step_of_construct hframes' hrest' (hskipping.trans hskip) hread']
      exact hexecute'
    · rw [hentered, hentered']
      exact hnext.push entered

/-- If steps lead out of a text, they lead through the text inside a block. -/
theorem Steps.nested {visited : List Run}
    (hactive : ∀ block ∈ extra :: base, block.active = true)
    (hsteps : Steps disk dirs run visited last) (hlast : last.frames = [])
    (hsize : ∀ state ∈ visited ++ [last], base.length ≤ state.blocks.size)
    (h : Nested base extra run run')
    (hfiles : SameFiles file behind outer run.frames run'.frames) :
    ∃ (visited' : List Run) (ending : Run) (reader : Reader),
      Steps disk dirs run' visited' ending ∧ Nested base extra last ending ∧
      ending.frames = ⟨file, reader⟩ :: outer ∧ reader.rest = behind := by
  induction hsteps generalizing run' with
  | refl run =>
    rw [hlast] at hfiles
    cases hfiles
  | @head run next last visited hrun hstep hsteps ih =>
    obtain ⟨-, hsize⟩ := List.forall_mem_cons.mp hsize
    by_cases hend : ∃ r : Reader, run.frames = [⟨file, r⟩] ∧ r.rest = []
    · obtain ⟨r, hframes, hrest⟩ := hend
      -- The run leaves the text, and the other one has come to what is behind it.
      rw [step_of_end hframes hrest] at hstep
      cases hstep
      cases hsteps with
      | head hne _ _ => exact absurd rfl hne
      | refl =>
        rw [hframes] at hfiles
        generalize hframes' : run'.frames = frames' at hfiles
        cases hfiles with
        | @here _ r' hbehind _ =>
          rw [hrest] at hbehind
          exact ⟨[], run', r', .refl run', h.withFrames _ _, hframes', hbehind⟩
        | inside _ hfiles => cases hfiles
    · have hmore : ∀ r : Reader, run.frames = [⟨file, r⟩] → r.rest ≠ [] :=
        fun r hframes hrest => hend ⟨r, hframes, hrest⟩
      have hnext : base.length ≤ next.blocks.size := hsize next hsteps.mem_first
      obtain ⟨next', hstep', hnested, hfiles'⟩ := step_nested hactive h hfiles hmore hstep hnext
      obtain ⟨visited', ending, reader, hsteps', hending⟩ := ih hlast hsize hnested hfiles'
      refine ⟨run' :: visited', ending, reader, .head ?_ hstep' hsteps', hending⟩
      obtain ⟨frame, frame', rest, rest', -, hframes', -⟩ := hfiles.eq_cons
      simp [hframes']

/-! ## The law of selection -/

theorem step_opening (disk : Files.Disk) (dirs : List Text) {name text : Text}
    (hframes : run.frames = frame :: outer)
    (hrest : frame.reader.rest = (conditional name text).characters ++ behind)
    (hskip : run.isSkipping = false) (hname : Definition.isName name = true)
    (htext : text.IsLines) :
    ∃ reader : Reader, reader.rest = text.characters ++ ((bytes "#endif\n").characters ++ behind) ∧
      run.step disk dirs = .ok ({ run with frames := { frame with reader } :: outer }.openBlock
        ⟨run.macros.contains name, frame.place frame.reader.position⟩) := by
  rw [conditional_characters name htext, List.append_assoc, List.append_assoc, List.cons_append,
    List.append_assoc] at hrest
  obtain ⟨reader, hread, hreader⟩ := Construct.read_opening hname hrest
  have hne : frame.reader.rest ≠ [] := by
    rw [hrest]
    simp
  refine ⟨reader, hreader, ?_⟩
  rw [step_of_construct hframes hne hskip hread]
  rfl

theorem step_closing (disk : Files.Disk) (dirs : List Text) {reader : Reader} {top : Block}
    {below : List Block} (hframes : run.frames = ⟨file, reader⟩ :: outer)
    (hrest : reader.rest = (bytes "#endif\n").characters ++ behind)
    (hskip : run.isSkipping = false) (hblocks : run.blocks.elements = top :: below) :
    run.step disk dirs = .ok { run with
      frames := ⟨file, reader.skipLine⟩ :: outer
      blocks := ⟨below⟩ } := by
  obtain ⟨hhash, hdirective, -⟩ := closing_line hrest
  rw [step_of_construct hframes (Reader.rest_ne_nil_of_sees hhash) hskip
    (Construct.read_endIf hhash hdirective), execute, Stack.pop?, hblocks]

theorem isSkipping_of_active (h : ∀ block ∈ run.blocks.elements, block.active = true) :
    run.isSkipping = false := by
  rw [isSkipping, Stack.top?]
  cases helements : run.blocks.elements with
  | nil => rfl
  | cons top below => simp [h top (by simp [helements])]

/-- A block on a macro that is not bound is passed. -/
theorem Steps.unselected {name text : Text} (hframes : run.frames = frame :: outer)
    (hrest : frame.reader.rest = (conditional name text).characters ++ behind)
    (hskip : run.isSkipping = false) (hname : Definition.isName name = true)
    (htext : text.IsLines) (hunbound : run.macros.contains name = false)
    (hbalanced : Directive.Balanced (Character.directives text.characters)) :
    ∃ (visited : List Run) (reader : Reader), reader.rest = behind ∧
      Steps disk dirs run visited { run with frames := { frame with reader } :: outer } := by
  obtain ⟨reader, hreader, hopen⟩ := step_opening disk dirs hframes hrest hskip hname htext
  rw [hunbound] at hopen
  generalize hskipped : (⟨false, frame.place frame.reader.position⟩ : Block) = skipped at hopen
  have hinner : ∀ block ∈ [skipped], block.active = false := by simp [← hskipped]
  have hnesting : ∀ front ∈ (Character.directives text.characters).inits,
      front.count .endIf < [skipped].length + front.count .ifDefined := by
    intro front hfront
    have hle := hbalanced.1 front hfront
    rw [List.length_singleton]
    omega
  have hopened : ({ run with frames := { frame with reader } :: outer }.openBlock skipped).blocks =
      ⟨[skipped] ++ run.blocks.elements⟩ := rfl
  obtain ⟨visited, reader', inner, hreader', hsteps, hinner, hdepth⟩ :=
    Steps.skip_lines disk dirs htext.characters rfl hreader hopened hinner hnesting
  -- At the end of the text one skipped block is open, which the last line closes.
  rw [hbalanced.2, Nat.add_right_cancel_iff, List.length_singleton] at hdepth
  obtain ⟨hhash, hdirective, hbehind⟩ := closing_line hreader'
  have hopen' : ({ run with
      frames := { frame with reader := reader' } :: outer
      blocks := ⟨inner ++ run.blocks.elements⟩ } : Run).blocks =
      ⟨inner ++ run.blocks.elements⟩ := rfl
  obtain ⟨inner', hclose, -, hdepth'⟩ := step_skipped disk dirs rfl
    (Reader.rest_ne_nil_of_sees hhash) hopen' hinner
    (List.ne_nil_of_length_pos (by rw [hdepth]; exact Nat.one_pos))
  have hnil : inner' = [] := by
    rw [hdirective, hdepth] at hdepth'
    simpa using hdepth'
  subst hnil
  refine ⟨_, reader'.skipLine, hbehind, .head ?_ hopen (hsteps.trans (.single ?_ hclose))⟩
  · simp [hframes]
  · exact List.cons_ne_nil _ _

/-- A block on a macro that is bound does what its text does. -/
theorem Steps.selected {name text : Text} (hframes : run.frames = frame :: outer)
    (hrest : frame.reader.rest = (conditional name text).characters ++ behind)
    (hactive : ∀ block ∈ run.blocks.elements, block.active = true)
    (hname : Definition.isName name = true) (htext : text.IsLines)
    (hbound : run.macros.contains name = true) {reader : Reader}
    (hreader : reader.rest = text.characters) {visited : List Run}
    (hsteps : Steps disk dirs { run with frames := [⟨frame.file, reader⟩] } visited last)
    (hlast : last.frames = [])
    (hsize : ∀ state ∈ visited ++ [last], run.blocks.size ≤ state.blocks.size)
    (hclosed : last.blocks.size = run.blocks.size) :
    ∃ (visited' : List Run) (next : Run) (reader' : Reader), reader'.rest = behind ∧
      Steps disk dirs run visited' next ∧
      next.frames = { frame with reader := reader' } :: outer ∧
      next.macros = last.macros ∧ next.emitted = last.emitted ∧
      next.processed = last.processed ∧ next.blocks = last.blocks := by
  obtain ⟨inside, hinside, hopen⟩ :=
    step_opening disk dirs hframes hrest (isSkipping_of_active hactive) hname htext
  rw [hbound] at hopen
  generalize hextra : (⟨true, frame.place frame.reader.position⟩ : Block) = extra at hopen
  have hactive' : ∀ block ∈ extra :: run.blocks.elements, block.active = true :=
    List.forall_mem_cons.mpr ⟨by rw [← hextra], hactive⟩
  have hnested : Nested run.blocks.elements extra { run with frames := [⟨frame.file, reader⟩] }
      ({ run with frames := { frame with reader := inside } :: outer }.openBlock extra) :=
    ⟨rfl, rfl, rfl, [], [], rfl, rfl, rfl⟩
  have hfiles : SameFiles frame.file ((bytes "#endif\n").characters ++ behind) outer
      [⟨frame.file, reader⟩] ({ frame with reader := inside } :: outer) :=
    .here (by rw [hinside, hreader]) (by rw [hreader]; exact htext.characters)
  obtain ⟨visited', ending, reader', hsteps', hend, hframes', hreader'⟩ :=
    hsteps.nested hactive' hlast hsize hnested hfiles
  obtain ⟨inner, inner', hblocks, hblocks', hinner⟩ := hend.blocks
  -- The text has closed its blocks, so the block around it is the innermost one.
  have hnil : inner = [] := by
    rw [Stack.size, Stack.size, hblocks, List.length_append] at hclosed
    exact List.eq_nil_of_length_eq_zero (by omega)
  subst hnil
  obtain rfl := List.map_eq_nil_iff.mp hinner
  have hskip' : ending.isSkipping = false := by
    refine isSkipping_of_active ?_
    rw [hblocks']
    exact hactive'
  have hclose := step_closing disk dirs hframes' hreader' hskip' hblocks'
  refine ⟨_, _, reader'.skipLine, (closing_line hreader').2.2,
    .head ?_ hopen (hsteps'.trans (.single ?_ hclose)), rfl, hend.macros, hend.emitted,
    hend.processed, ?_⟩
  · simp [hframes]
  · simp [hframes']
  · exact congrArg Stack.mk hblocks.symm

/-- Where all blocks are read, a block on a macro that is not bound is passed without
any effect, whatever its lines hold, if they close only blocks that they open, and
all of them.  A block on a macro that is bound does what its lines do by themselves,
if these come to their end and close only blocks that they open, and all of them. -/
theorem conditional_selects (disk : Files.Disk) (dirs : List Text) (run : Run) (frame : Frame)
    (outer : List Frame) (name text : Text) (behind : List Character)
    (hframes : run.frames = frame :: outer)
    (hrest : frame.reader.rest = (conditional name text).characters ++ behind)
    (hactive : ∀ block ∈ run.blocks.elements, block.active = true)
    (hname : Definition.isName name = true) (htext : text.IsLines) :
    (run.macros.contains name = false →
      Directive.Balanced (Character.directives text.characters) →
      ∃ (visited : List Run) (reader : Reader), reader.rest = behind ∧
        Steps disk dirs run visited { run with frames := { frame with reader } :: outer }) ∧
    (run.macros.contains name = true → ∀ (reader : Reader) (last : Run),
      reader.rest = text.characters →
      { run with frames := [⟨frame.file, reader⟩] }.finish disk dirs = .ok last →
      (∀ state ∈ { run with frames := [⟨frame.file, reader⟩] }.states disk dirs,
        run.blocks.size ≤ state.blocks.size) →
      last.blocks.size = run.blocks.size →
      ∃ (visited : List Run) (next : Run) (reader' : Reader), reader'.rest = behind ∧
        Steps disk dirs run visited next ∧
        next.frames = { frame with reader := reader' } :: outer ∧
        next.macros = last.macros ∧ next.emitted = last.emitted ∧
        next.processed = last.processed ∧ next.blocks = last.blocks) := by
  constructor
  · intro hunbound hbalanced
    exact Steps.unselected hframes hrest (isSkipping_of_active hactive) hname htext hunbound
      hbalanced
  · intro hbound reader last hreader hfinish hsize hclosed
    obtain ⟨visited, hsteps, hlast⟩ := finish_eq_ok_iff.mp hfinish
    rw [states_eq_of_steps hsteps (.inl hlast)] at hsize
    exact Steps.selected hframes hrest hactive hname htext hbound hreader hsteps hlast hsize hclosed

/-- A file that is included from lines in a block. -/
def selecting : Files.Disk where
  nodes := [
    ([bytes "w"], .directory),
    ([bytes "w", bytes "a.xs"], .file (bytes "y\n#ifdef B\nz\n#endif\n"))]
  workingDirectory := [bytes "w"]

/-- A run before a text, inside a block that is read. -/
def atText (macros : Macros) (text : Text) : Run where
  macros := macros
  blocks := ⟨[⟨true, ⟨bytes "/w/main.xs", 1, 1⟩⟩]⟩
  processed := [[bytes "w", bytes "main.xs"]]
  frames := [⟨[bytes "w", bytes "main.xs"], .ofText text⟩]
  emitted := []
  warned := []

/-- Lines with flaws of several kinds, and with a block. -/
def flawedLines : Text :=
  bytes "\"\n/*\n#nonsense\n#include \"./none.xs\"\n@\n\t# ifdef\n #endif x\n"

/-- Lines that include a file, with a block. -/
def soundLines : Text := bytes "#include \"./a.xs\"\n#ifdef B\nx\n#endif\n@A@\n#undef A\n"

theorem conditional_selects_both :
    (∃ (visited : List Run) (reader : Reader), reader.rest = [] ∧
      Steps selecting [] (atText (.ofList []) (conditional (bytes "A") flawedLines)) visited
        { atText (.ofList []) (conditional (bytes "A") flawedLines) with
          frames := [⟨[bytes "w", bytes "main.xs"], reader⟩] }) ∧
    ∃ (visited : List Run) (next : Run),
      Steps selecting [] (atText (.ofList [(bytes "A", bytes "v")])
        (conditional (bytes "A") soundLines)) visited next ∧
      next.output = bytes "y\nv\n" ∧ next.macros.contains (bytes "A") = false ∧
      next.blocks.size = 1 := by
  constructor
  · refine (conditional_selects selecting [] (atText (.ofList []) _) _ [] (bytes "A") flawedLines []
      rfl ?_ ?_ ?_ ?_).1 ?_ ?_
    · exact (List.append_nil _).symm
    all_goals decide +kernel
  · obtain ⟨last, hfinish, houtput, hmacros, hsize⟩ : ∃ last,
        (atText (.ofList [(bytes "A", bytes "v")]) soundLines).finish selecting [] = .ok last ∧
        last.output = bytes "y\nv\n" ∧ last.macros.contains (bytes "A") = false ∧
        last.blocks.size = 1 := by
      have hany : ((atText (.ofList [(bytes "A", bytes "v")]) soundLines).finish selecting
          []).toOption.any (fun last => decide (last.output = bytes "y\nv\n" ∧
            last.macros.contains (bytes "A") = false ∧ last.blocks.size = 1)) = true := by
        decide +kernel
      cases hfinish :
        (atText (.ofList [(bytes "A", bytes "v")]) soundLines).finish selecting [] with
      | error failure =>
        rw [hfinish] at hany
        cases hany
      | ok last =>
        rw [hfinish] at hany
        exact ⟨last, rfl, of_decide_eq_true hany⟩
    obtain ⟨visited, next, reader, -, hsteps, -, hnext⟩ :=
      (conditional_selects selecting [] (atText (.ofList [(bytes "A", bytes "v")]) _) _ []
        (bytes "A") soundLines [] rfl (List.append_nil _).symm (by decide +kernel)
        (by decide +kernel) (by decide +kernel)).2 (by decide +kernel) (.ofText soundLines) last rfl
        hfinish (by decide +kernel) hsize
    obtain ⟨hmacros', hemitted, -, hblocks⟩ := hnext
    refine ⟨visited, next, hsteps, ?_, by rw [hmacros', hmacros], by rw [hblocks, hsize]⟩
    rw [← houtput, output, output, fragments, fragments, hemitted]

end Run

end XsPrep
