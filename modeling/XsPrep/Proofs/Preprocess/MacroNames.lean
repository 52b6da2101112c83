import XsPrep.Proofs.Source.Advances
import XsPrep.Proofs.Preprocess.Selection
import XsPrep.Proofs.Preprocess.Opacity

/-!
# Names of macros

The command line and the files have one grammar of names.  On the command line an expression
says which texts are names (`nameExpression`).  In a file a name ends where the reader sees the
first character that belongs to no name.  So a text is a name on the command line exactly if a
reader takes all of it (`Definition.matches_iff_readIdentifier`).

A name has no stray byte, since the replacement character is neither a letter nor a number.
Whatever stands behind a name, its last character is therefore read as it is alone, and the reader
stops behind the name if what follows begins with another character
(`Reader.readIdentifier_append`).  Hence a macro that can be bound on the command line can be
expanded, tested and removed in a file (`Definition.Usable`).
-/

namespace XsPrep

/-! ## Expressions -/

/-- An expression for texts, character by character. -/
inductive Expression where
  /-- One character whose code point is in one of the classes. -/
  | oneOf (classes : List (Nat → Bool))
  /-- One text of the inner expression behind the other, and at least one. -/
  | oneOrMore (inner : Expression)

namespace Expression

/-- The characters are, from the first to the last, a text of the expression. -/
inductive Matches : Expression → List Character → Prop where
  | oneOf {classes : List (Nat → Bool)} {holds : Nat → Bool} {c : Character}
      (hclass : holds ∈ classes) (hc : holds c.code = true) : Matches (.oneOf classes) [c]
  | once {inner : Expression} {cs : List Character} (h : Matches inner cs) :
      Matches (.oneOrMore inner) cs
  | again {inner : Expression} {cs ds : List Character} (h : Matches inner cs)
      (hmore : Matches (.oneOrMore inner) ds) : Matches (.oneOrMore inner) (cs ++ ds)

variable {classes : List (Nat → Bool)} {cs : List Character}

theorem matches_oneOf :
    Matches (.oneOf classes) cs ↔ ∃ c, cs = [c] ∧ ∃ holds ∈ classes, holds c.code = true := by
  constructor
  · intro h
    cases h with
    | oneOf hclass hc => exact ⟨_, rfl, _, hclass, hc⟩
  · rintro ⟨c, rfl, holds, hclass, hc⟩
    exact .oneOf hclass hc

theorem matches_oneOrMore_oneOf :
    Matches (.oneOrMore (.oneOf classes)) cs ↔
      cs ≠ [] ∧ ∀ c ∈ cs, ∃ holds ∈ classes, holds c.code = true := by
  constructor
  · intro h
    generalize hexpression : Expression.oneOrMore (.oneOf classes) = expression at h
    induction h with
    | oneOf hclass hc => cases hexpression
    | once h =>
      cases hexpression
      obtain ⟨c, rfl, hc⟩ := matches_oneOf.mp h
      simpa using hc
    | again h hmore _ ih =>
      cases hexpression
      obtain ⟨c, rfl, hc⟩ := matches_oneOf.mp h
      exact ⟨List.cons_ne_nil c _, List.forall_mem_cons.mpr ⟨hc, (ih rfl).2⟩⟩
  · rintro ⟨hne, hall⟩
    induction cs with
    | nil => exact absurd rfl hne
    | cons c cs ih =>
      obtain ⟨hc, hcs⟩ := List.forall_mem_cons.mp hall
      have hfirst : Matches (.oneOf classes) [c] := matches_oneOf.mpr ⟨c, rfl, hc⟩
      by_cases hlast : cs = []
      · rw [hlast]
        exact .once hfirst
      · exact .again hfirst (ih hlast hcs)

end Expression

/-- The names of macros on the command line: letters, numbers, `_` and `-`. -/
def nameExpression : Expression :=
  .oneOrMore (.oneOf [Code.isLetter, Code.isNumber, (· == Code.underscore), (· == Code.dash)])

theorem nameExpression_matches {cs : List Character} :
    nameExpression.Matches cs ↔ cs ≠ [] ∧ ∀ c ∈ cs, c.isIdentifier = true := by
  rw [nameExpression, Expression.matches_oneOrMore_oneOf]
  refine and_congr_right fun _ => forall₂_congr fun c _ => ?_
  simp only [List.mem_cons, List.not_mem_nil, or_false, exists_eq_or_imp, exists_eq_left,
    Character.isIdentifier, Code.isIdentifier, Bool.or_eq_true]
  tauto

/-! ## Reading a name -/

namespace Reader

theorem readIdentifier_fst (r : Reader) :
    r.readIdentifier.1 = Text.ofCharacters (r.rest.takeWhile Character.isIdentifier) := rfl

theorem readIdentifier_rest (r : Reader) :
    r.readIdentifier.2.rest = r.rest.dropWhile Character.isIdentifier :=
  readWhile_rest Character.isIdentifier r

/-- A reader takes a whole text exactly if the text has characters of names only. -/
theorem atEnd_readIdentifier (t : Text) :
    (ofText t).readIdentifier.2.atEnd = true ↔ ∀ c ∈ t.characters, c.isIdentifier = true := by
  rw [atEnd, readIdentifier_rest, List.isEmpty_iff, List.dropWhile_eq_nil_iff]
  rfl

end Reader

namespace Text

theorem ofCharacters_eq_nil {t : Text} {cs ds : List Character} (h : t.characters = cs ++ ds) :
    ofCharacters cs = [] ↔ cs = [] := by
  constructor
  · intro hnil
    rw [← (characters_of_append h).1, hnil, characters_nil]
  · rintro rfl
    rfl

/-- A name that stands in front of the text ends there: the text does not begin with a character
of names. -/
def EndsName (t : Text) : Prop := ∀ c ∈ t.characters.head?, c.isIdentifier = false

theorem endsName_iff {t : Text} : t.EndsName ↔ (Reader.ofText t).readIdentifier.1 = [] := by
  have hsplit := (List.takeWhile_append_dropWhile
    (p := Character.isIdentifier) (l := t.characters)).symm
  rw [Reader.readIdentifier_fst, Reader.ofText, ofCharacters_eq_nil hsplit, EndsName]
  cases t.characters with
  | nil => simp
  | cons c cs => cases hc : c.isIdentifier <;> simp [hc]

end Text

theorem Character.code_ne_replacement_of_identifier {c : Character} (h : c.isIdentifier = true) :
    c.code ≠ Code.replacement := by
  intro hcode
  have hnone : Code.isIdentifier Code.replacement = false := by decide +kernel
  rw [isIdentifier, hcode, hnone] at h
  cases h

/-- The characters of a name are the same whatever stands behind it. -/
theorem characters_append_of_isName {name : Text} (h : Definition.isName name = true) (t : Text) :
    (name ++ t).characters = name.characters ++ t.characters :=
  Text.isBoundary_iff.mp (Text.isBoundary_of_forall (fun c hc =>
    Character.code_ne_replacement_of_identifier ((identifier_of_isName h).2 c hc)) t)

/-- A reader takes the name and what continues it. -/
theorem Reader.readIdentifier_append {name : Text} (h : Definition.isName name = true) (t : Text) :
    (ofText (name ++ t)).readIdentifier.1 = name ++ (ofText t).readIdentifier.1 := by
  rw [readIdentifier_fst, readIdentifier_fst, ofText, ofText, characters_append_of_isName h,
    List.takeWhile_append_of_pos (identifier_of_isName h).2, Text.ofCharacters_append,
    Text.ofCharacters_characters]

/-- A reader takes exactly the name if what stands behind it ends a name. -/
theorem Reader.readIdentifier_of_endsName {name : Text} (h : Definition.isName name = true)
    {t : Text} (ht : t.EndsName) :
    (ofText (name ++ t)).readIdentifier = (name, ⟨Position.start.advance name, t.characters⟩) := by
  have hrest := characters_append_of_isName h t
  have hreads : (ofText (name ++ t)).Reads name.characters
      ⟨Position.start.advance name, t.characters⟩ :=
    ⟨hrest, Position.advance_eq_foldl Position.start name⟩
  obtain ⟨hname, hbehind⟩ := readIdentifier_of_isName h ht (r := ofText (name ++ t)) hrest
  have hreader := (leadsTo_readIdentifier _).unique ⟨_, hreads⟩ (congrArg List.length hbehind)
  exact Prod.ext hname hreader

/-! ## A name in a construct -/

namespace Construct

variable {r : Reader} {name t : Text}

/-- A name between two `@`. -/
theorem read_expansion (h : Definition.isName name = true) {behind : List Character}
    (hrest : r.rest = ⟨64, [64]⟩ :: (name.characters ++ ⟨64, [64]⟩ :: behind)) :
    ∃ reader : Reader, reader.rest = behind ∧ read r = .ok (.expansion name, reader) := by
  obtain ⟨r', hread, -, hr'⟩ := Token.exists_readIdentifier (identifier_of_isName h).2
    (fun c hc => by rw [← Option.some.inj hc]; decide) hrest
  rw [Text.ofCharacters_characters] at hread
  refine ⟨r'.skip 1, by rw [Reader.skip_rest, hr']; rfl, ?_⟩
  have hne := Definition.ne_nil_of_isName h
  rw [Token.read_of_atSign rfl hrest, Token.readExpansion_of_name hread hne,
    Reader.sees_of_rest hr']
  rfl

/-- A directive with a name, where `t` is behind the name. -/
theorem characters_directive (h : Definition.isName name = true) (directive : Directive)
    (t : Text) :
    (directive.text ++ 0x20 :: (name ++ t)).characters =
      ⟨35, [35]⟩ :: (directive.keyword.characters ++
        ⟨32, [32]⟩ :: (name.characters ++ t.characters)) := by
  have hascii : ∀ b ∈ directive.text, b < 0x80 := by cases directive <;> decide +kernel
  have htext : directive.text.characters = ⟨35, [35]⟩ :: directive.keyword.characters := by
    cases directive <;> decide +kernel
  have hspace : Text.characters (0x20 :: (name ++ t)) =
      ⟨32, [32]⟩ :: (name.characters ++ t.characters) := by
    rw [Text.characters_ascii (by decide), characters_append_of_isName h]
    rfl
  rw [Text.characters_append_ascii hascii, htext, hspace, List.cons_append]

theorem read_directive (h : Definition.isName name = true) (ht : t.EndsName)
    (directive : Directive)
    (hrest : r.rest = (directive.text ++ 0x20 :: (name ++ t)).characters) :
    r.sees Code.hash = true ∧ r.readKeyword.1 = directive.keyword ∧
      r.readKeyword.2.skipBlanks.readIdentifier.1 = name := by
  rw [characters_directive h] at hrest
  obtain ⟨hhash, hkeyword, hbehind⟩ := Reader.readKeyword_directive directive hrest
  obtain ⟨-, hname, -⟩ := Reader.readIdentifier_operand h ht hbehind
  exact ⟨hhash, hkeyword, hname⟩

/-- The opening of a block on a name. -/
theorem read_ifDefined (h : Definition.isName name = true) (ht : t.EndsName)
    (hrest : r.rest = (Directive.ifDefined.text ++ 0x20 :: (name ++ t)).characters) :
    read r = .ok (.openBlock name r.position, r.skipLine) := by
  obtain ⟨hhash, hkeyword, hname⟩ := read_directive h ht .ifDefined hrest
  have hopening := readOpening_of_name r.position
    (hname ▸ Definition.ne_nil_of_isName h : r.readKeyword.2.skipBlanks.readIdentifier.1 ≠ [])
  rw [hname, Reader.skipLine_readKeyword hhash] at hopening
  rw [read, if_pos hhash, readDirective]
  dsimp only
  rw [hkeyword]
  exact hopening

/-- The removal of a name. -/
theorem read_undefine (h : Definition.isName name = true) (ht : t.EndsName)
    (hrest : r.rest = (Directive.undefine.text ++ 0x20 :: (name ++ t)).characters) :
    ∃ place, read r = .ok (.undefine name place, r.skipLine) := by
  obtain ⟨hhash, hkeyword, hname⟩ := read_directive h ht .undefine hrest
  refine ⟨r.readKeyword.2.skipBlanks.position, ?_⟩
  have hremoval := readUndefine_eq r.readKeyword.2
  rw [hname, Reader.skipLine_readKeyword hhash] at hremoval
  rw [read, if_pos hhash, readDirective]
  dsimp only
  rw [hkeyword]
  exact congrArg Except.ok hremoval

end Construct

/-! ## A name in a run -/

namespace Run

variable {run : Run} {frame : Frame} {outer : List Frame} {name t : Text}

/-- What the run reads next, in the file of `frame`, is the text. -/
structure IsBefore (run : Run) (frame : Frame) (outer : List Frame) (text : Text) : Prop where
  frames : run.frames = frame :: outer
  reading : run.isSkipping = false
  rest : frame.reader.rest = text.characters

theorem IsBefore.step_eq {text : Text} (h : run.IsBefore frame outer text) {c : Character}
    {cs : List Character} (hcons : text.characters = c :: cs) {construct : Construct}
    {reader : Reader} (hread : Construct.read frame.reader = .ok (construct, reader))
    (disk : Files.Disk) (dirs : List Text) :
    run.step disk dirs =
      { run with frames := { frame with reader } :: outer }.execute disk dirs frame construct :=
  step_of_construct h.frames (by rw [h.rest, hcons]; exact List.cons_ne_nil c cs) h.reading hread

/-- A name between two `@` is replaced by the value of the macro, if it is bound. -/
theorem step_expansion (hname : Definition.isName name = true)
    (h : run.IsBefore frame outer (Byte.atSign :: (name ++ Byte.atSign :: t)))
    (disk : Files.Disk) (dirs : List Text) :
    ∃ reader : Reader, reader.rest = t.characters ∧
      run.step disk dirs = .ok { run with
        frames := { frame with reader } :: outer
        emitted := (run.macros.get? name).toList ++ run.emitted } := by
  have hcharacters : Text.characters (Byte.atSign :: (name ++ Byte.atSign :: t)) =
      ⟨64, [64]⟩ :: (name.characters ++ ⟨64, [64]⟩ :: t.characters) := by
    rw [Text.characters_ascii (by decide), characters_append_of_isName hname,
      Text.characters_ascii (by decide)]
    rfl
  obtain ⟨reader, hreader, hread⟩ := Construct.read_expansion hname (h.rest.trans hcharacters)
  refine ⟨reader, hreader, ?_⟩
  rw [h.step_eq hcharacters hread, execute]
  cases run.macros.get? name <;> rfl

/-- A block on the name is read exactly if the macro is bound. -/
theorem step_ifDefined (hname : Definition.isName name = true) (ht : t.EndsName)
    (h : run.IsBefore frame outer (Directive.ifDefined.text ++ 0x20 :: (name ++ t)))
    (disk : Files.Disk) (dirs : List Text) :
    run.step disk dirs =
      .ok ({ run with frames := { frame with reader := frame.reader.skipLine } :: outer }.openBlock
        ⟨run.macros.contains name, frame.place frame.reader.position⟩) :=
  h.step_eq (Construct.characters_directive hname .ifDefined t)
    (Construct.read_ifDefined hname ht h.rest) disk dirs

/-- Behind the removal of the name the macro is not bound, and the others are as before. -/
theorem step_undefine (hname : Definition.isName name = true) (ht : t.EndsName)
    (h : run.IsBefore frame outer (Directive.undefine.text ++ 0x20 :: (name ++ t)))
    (disk : Files.Disk) (dirs : List Text) :
    ∃ next, run.step disk dirs = .ok next ∧
      next.frames = { frame with reader := frame.reader.skipLine } :: outer ∧
      (∀ key, next.macros.get? key = if name = key then none else run.macros.get? key) ∧
      (run.macros.contains name = true → next.warned = run.warned) := by
  have hne := Definition.ne_nil_of_isName hname
  obtain ⟨place, hread⟩ := Construct.read_undefine hname ht h.rest
  refine ⟨_, h.step_eq (Construct.characters_directive hname .undefine t) hread disk dirs,
    undefine_frames _ name _, fun key => ?_, fun hbound => ?_⟩
  · rw [undefine_get?]
    simp only [hne, ne_eq, not_false_eq_true, and_true]
  · rw [undefine_of_bound hne]
    exact hbound

end Run

/-! ## Definitions -/

theorem Text.cut_fst (separator : UInt8) (t : Text) :
    (t.cut separator).1 = t.takeWhile (· != separator) := by
  rw [cut, List.span_eq_takeWhile_dropWhile]
  cases t.dropWhile (· != separator) <;> rfl

namespace Definition

/-- A definition without the `-D` of a compiler flag in front. -/
def bare (definition : Text) : Text :=
  if bytes "-D" <+: definition then definition.drop 2 else definition

/-- The text of a definition before the first `=`. -/
def nameText (definition : Text) : Text := (bare definition).takeWhile (· != Byte.equals)

theorem exists_parse_eq (definition : Text) : ∃ value, parse definition =
    if isName (nameText definition) then .ok ⟨nameText definition, value⟩
    else .error ⟨nameText definition⟩ := by
  have hbare : (Text.without? (bytes "-D") definition).getD definition = bare definition := by
    have hlength : (bytes "-D").length = 2 := by decide +kernel
    rw [Text.without?, hlength, bare]
    by_cases h : bytes "-D" <+: definition
    · rw [if_pos (List.isPrefixOf_iff_prefix.mpr h), if_pos h]
      rfl
    · rw [if_neg (fun hprefix => h (List.isPrefixOf_iff_prefix.mp hprefix)), if_neg h]
      rfl
  refine ⟨(((bare definition).cut Byte.equals).2.getD []).trimmed, ?_⟩
  rw [nameText, ← Text.cut_fst, ← hbare]
  rfl

theorem name_of_parse {definition : Text} {d : Definition} (h : parse definition = .ok d) :
    d.name = nameText definition ∧ isName d.name = true := by
  obtain ⟨value, hparse⟩ := exists_parse_eq definition
  rw [hparse] at h
  split at h
  · rename_i hname
    cases h
    exact ⟨rfl, hname⟩
  · cases h

/-- A definition is accepted exactly if the text before the first `=` is a name. -/
theorem exists_parse_iff (definition : Text) :
    (∃ d, parse definition = .ok d) ↔ isName (nameText definition) = true := by
  constructor
  · rintro ⟨d, h⟩
    obtain ⟨hname, his⟩ := name_of_parse h
    rwa [hname] at his
  · intro h
    obtain ⟨value, hparse⟩ := exists_parse_eq definition
    exact ⟨_, hparse.trans (if_pos h)⟩

theorem isName_iff {name : Text} :
    isName name = true ↔
      name.characters ≠ [] ∧ ∀ c ∈ name.characters, c.isIdentifier = true := by
  refine ⟨identifier_of_isName, fun h => ?_⟩
  rw [isName, Bool.and_eq_true, List.all_eq_true, Bool.not_eq_true', List.isEmpty_eq_false_iff]
  refine ⟨?_, h.2⟩
  rintro rfl
  exact h.1 Text.characters_nil

/-- The grammar of the command line and the grammar of the files are one. -/
theorem matches_iff_readIdentifier (name : Text) :
    nameExpression.Matches name.characters ↔
      name ≠ [] ∧ (Reader.ofText name).readIdentifier.2.atEnd = true := by
  have hne : name.characters ≠ [] ↔ name ≠ [] := by
    have hnil := Text.ofCharacters_eq_nil (t := name) (List.append_nil _).symm
    rw [Text.ofCharacters_characters] at hnil
    exact hnil.not.symm
  rw [nameExpression_matches, Reader.atEnd_readIdentifier, hne]

/-- In a file, a macro of this name can be expanded, tested and removed. -/
structure Usable (name : Text) : Prop where
  /-- `@NAME@` is replaced by the value of the macro, and by nothing if it is not bound. -/
  expanded : ∀ (disk : Files.Disk) (dirs : List Text) (run : Run) (frame : Frame)
    (outer : List Frame) (t : Text),
    run.IsBefore frame outer (Byte.atSign :: (name ++ Byte.atSign :: t)) →
    ∃ reader : Reader, reader.rest = t.characters ∧
      run.step disk dirs = .ok { run with
        frames := { frame with reader } :: outer
        emitted := (run.macros.get? name).toList ++ run.emitted }
  /-- `#ifdef NAME` opens a block that is read exactly if the macro is bound. -/
  tested : ∀ (disk : Files.Disk) (dirs : List Text) (run : Run) (frame : Frame)
    (outer : List Frame) (t : Text), t.EndsName →
    run.IsBefore frame outer (Directive.ifDefined.text ++ 0x20 :: (name ++ t)) →
    run.step disk dirs =
      .ok ({ run with frames := { frame with reader := frame.reader.skipLine } :: outer }.openBlock
        ⟨run.macros.contains name, frame.place frame.reader.position⟩)
  /-- `#undef NAME` unbinds the macro and no other, without a warning if it was bound. -/
  removed : ∀ (disk : Files.Disk) (dirs : List Text) (run : Run) (frame : Frame)
    (outer : List Frame) (t : Text), t.EndsName →
    run.IsBefore frame outer (Directive.undefine.text ++ 0x20 :: (name ++ t)) →
    ∃ next, run.step disk dirs = .ok next ∧
      next.frames = { frame with reader := frame.reader.skipLine } :: outer ∧
      (∀ key, next.macros.get? key = if name = key then none else run.macros.get? key) ∧
      (run.macros.contains name = true → next.warned = run.warned)

theorem usable_of_isName {name : Text} (h : isName name = true) : Usable name where
  expanded disk dirs _ _ _ _ hbefore := Run.step_expansion h hbefore disk dirs
  tested disk dirs _ _ _ _ ht hbefore := Run.step_ifDefined h ht hbefore disk dirs
  removed disk dirs _ _ _ _ ht hbefore := Run.step_undefine h ht hbefore disk dirs

/-- The macros of the command line have names that definitions were accepted with. -/
theorem isName_of_parseAll {definitions : List Text} {name : Text}
    (h : (parseAll definitions).1.contains name = true) : isName name = true := by
  rw [parseAll] at h
  induction definitions using List.reverseRecOn with
  | nil => cases h
  | append_singleton definitions definition ih =>
    rw [List.foldl_append, List.foldl_cons, List.foldl_nil] at h
    cases hparse : parse definition with
    | error e =>
      rw [hparse] at h
      exact ih h
    | ok d =>
      simp only [hparse, Macros.define, Table.contains, Table.get?_insert] at h
      split at h
      · rename_i hname
        exact hname ▸ (name_of_parse hparse).2
      · exact ih h

/-- The command line accepts a definition exactly if the text before the first `=` is a text of
the expression, and exactly if it is not empty and a reader takes all of it.  In front of any other
text, a reader takes exactly the name if that text does not continue it.  So every macro that can
be bound on the command line can be used in a file. -/
theorem names_agree (definition : Text) :
    ((∃ d, parse definition = .ok d) ↔
      nameExpression.Matches (nameText definition).characters) ∧
    ((∃ d, parse definition = .ok d) ↔
      nameText definition ≠ [] ∧
        (Reader.ofText (nameText definition)).readIdentifier.2.atEnd = true) ∧
    (∀ d, parse definition = .ok d →
      d.name = nameText definition ∧
      (∀ t, (Reader.ofText (d.name ++ t)).readIdentifier.1 = d.name ↔ t.EndsName) ∧
      (∀ t, t.EndsName → (Reader.ofText (d.name ++ t)).readIdentifier =
        (d.name, ⟨Position.start.advance d.name, t.characters⟩)) ∧
      Usable d.name) ∧
    ∀ definitions name, (parseAll definitions).1.contains name = true → Usable name := by
  have haccepted : (∃ d, parse definition = .ok d) ↔
      nameExpression.Matches (nameText definition).characters := by
    rw [exists_parse_iff, isName_iff, nameExpression_matches]
  refine ⟨haccepted, haccepted.trans (matches_iff_readIdentifier _), fun d hd => ?_,
    fun _ _ h => usable_of_isName (isName_of_parseAll h)⟩
  obtain ⟨hname, his⟩ := name_of_parse hd
  refine ⟨hname, fun t => ?_, fun t ht => Reader.readIdentifier_of_endsName his ht,
    usable_of_isName his⟩
  rw [Reader.readIdentifier_append his, List.append_right_eq_self, Text.endsName_iff]

/-- A definition whose name begins with `-` and has a letter and a number beyond ASCII. -/
def accented : Text := bytes "-D-ñ²_=a=b"

theorem names_agree_accented :
    parse accented = .ok ⟨nameText accented, bytes "a=b"⟩ ∧ Text.EndsName [0xB1] ∧
    (Reader.ofText (nameText accented ++ [0xB1])).readIdentifier =
      (nameText accented, ⟨⟨6, 1, 5⟩, [Character.stray 0xB1]⟩) ∧
    ∃ next, (Run.atText (.ofList [(nameText accented, bytes "v")])
      (Byte.atSign :: (nameText accented ++ Byte.atSign :: bytes "x"))).step Run.selecting [] =
        .ok next ∧ next.output = bytes "v" := by
  have hparse : parse accented = .ok ⟨nameText accented, bytes "a=b"⟩ := by decide +kernel
  have hends : Text.EndsName [0xB1] := Text.endsName_iff.mpr (by decide +kernel)
  obtain ⟨-, -, hread, husable⟩ := (names_agree accented).2.2.1 _ hparse
  refine ⟨hparse, hends, (hread _ hends).trans (by decide +kernel), ?_⟩
  obtain ⟨reader, -, hstep⟩ := husable.expanded Run.selecting []
    (Run.atText (.ofList [(nameText accented, bytes "v")])
      (Byte.atSign :: (nameText accented ++ Byte.atSign :: bytes "x"))) _ [] (bytes "x")
    ⟨rfl, by decide, rfl⟩
  have hvalue : Table.get? (.ofList [(nameText accented, bytes "v")]) (nameText accented) =
      some (bytes "v") := by decide +kernel
  refine ⟨_, hstep, ?_⟩
  change ((Table.get? (.ofList [(nameText accented, bytes "v")]) (nameText accented)).toList ++
    []).reverse.flatten = bytes "v"
  rw [hvalue]
  decide +kernel

end Definition

end XsPrep
