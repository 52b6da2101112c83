import Mathlib.Logic.Function.Iterate
import XsPrep.Proofs.Source.Lines
import XsPrep.Proofs.Preprocess.Blocks
import XsPrep.Proofs.Preprocess.Entered

/-!
# Blocks and macros

Which blocks are read depends on the macros.  Which blocks are open does not, if
the text goes by lines: a line begins with `#`, or it has no mark that could reach
beyond it (`Character.IsLinewise`).  Constructs that are read and lines that are
skipped then open and close the same blocks (`Construct.read_linewise`), so a run
reaches the beginning of every line with the blocks that the text alone says
(`Steps.through_lines`).

The warning about open blocks at the end is the only one of its kind
(`Advice.isUnclosed_warning`).  So it does not depend on the macros either
(`Session.blocks_independent`).
-/

namespace XsPrep

/-! ## Texts that go by lines -/

namespace Character

/-- Whether the first character of a line, behind white space, is `#`. -/
def BeginsWithHash (line : List Character) : Prop :=
  (line.dropWhile isBlank).head?.map code = some Code.hash

/-- Whether a line is free of `#`, quotes and openings of comments. -/
def IsUnmarked (line : List Character) : Prop :=
  (∀ c ∈ line, c.code ≠ Code.hash ∧ c.code ≠ Code.quote) ∧
    ¬[Code.slash, Code.star] <:+: line.map code

/-- Whether a line is a directive other than an include, or unmarked. -/
def IsLinewise (line : List Character) : Prop :=
  (BeginsWithHash line ∨ IsUnmarked line) ∧ directive? line ≠ some .includeFile

instance (line : List Character) : Decidable (BeginsWithHash line) :=
  inferInstanceAs (Decidable (_ = _))

instance (line : List Character) : Decidable (IsUnmarked line) :=
  inferInstanceAs (Decidable (_ ∧ _))

instance (line : List Character) : Decidable (IsLinewise line) :=
  inferInstanceAs (Decidable (_ ∧ _))

theorem isLinewise_nil : IsLinewise [] := by decide

theorem IsUnmarked.of_suffix {line rest : List Character} (h : IsUnmarked line)
    (hsuffix : rest <:+ line) : IsUnmarked rest := by
  refine ⟨fun c hc => h.1 c (hsuffix.subset hc), fun hpair => h.2 ?_⟩
  exact hpair.trans (hsuffix.isInfix.map code)

theorem IsUnmarked.directive? {line : List Character} (h : IsUnmarked line) :
    directive? line = none := by
  rw [Character.directive?]
  cases hrest : line.dropWhile isBlank with
  | nil => rfl
  | cons c cs =>
    have hmem : c ∈ line := (List.dropWhile_sublist isBlank).subset (by simp [hrest])
    exact if_neg (h.1 c hmem).1

theorem IsUnmarked.isLinewise {line : List Character} (h : IsUnmarked line) : IsLinewise line := by
  refine ⟨.inr h, ?_⟩
  rw [h.directive?]
  simp

end Character

/-- Whether all lines of a text go by lines. -/
def Text.IsLinewise (t : Text) : Prop :=
  ∀ line ∈ Character.lines t.characters, Character.IsLinewise line

instance (t : Text) : Decidable t.IsLinewise := inferInstanceAs (Decidable (∀ _ ∈ _, _))

/-! ## Constructs as lines -/

namespace Construct

variable {r r' : Reader} {c : Construct}

/-- What a construct would be to the blocks if it were skipped. -/
def asLine : Construct → SkippedLine
  | .openBlock _ place => .opens place
  | .closeBlock _ => .closes
  | _ => .other

/-- Whether a construct is an include. -/
def isInclude : Construct → Bool
  | .includeFile _ _ => true
  | _ => false

theorem ne_includeFile (h : c.isInclude = false) (name : Text) (position : Position) :
    c ≠ .includeFile name position := by
  rintro rfl
  cases h

theorem readDirective_asLine (hhash : r.sees Code.hash = true)
    (hno : Character.directive? r.rest ≠ some .includeFile)
    (h : readDirective r = .ok (c, r')) :
    c.isInclude = false ∧ SkippedLine.read r = (c.asLine, r') := by
  rw [SkippedLine.read_eq, Reader.skipBlanks_of_sees hhash (by decide),
    ← Reader.skipLine_readKeyword hhash]
  rw [Character.directive?_of_hash hhash] at hno ⊢
  rw [readDirective] at h
  dsimp only at h
  cases hkeyword : Directive.ofKeyword? r.readKeyword.1 with
  | none =>
    rw [hkeyword] at h
    cases h
  | some directive =>
    rw [hkeyword] at h hno
    cases directive with
    | includeFile => exact absurd rfl hno
    | define =>
      obtain ⟨⟨name, value, rfl⟩, rfl⟩ := readDefine_eq_ok h
      exact ⟨rfl, rfl⟩
    | undefine =>
      rw [readUndefine_eq] at h
      cases h
      exact ⟨rfl, rfl⟩
    | ifDefined =>
      obtain ⟨⟨name, rfl⟩, rfl⟩ := readOpening_eq_ok h
      exact ⟨rfl, rfl⟩
    | endIf =>
      cases h
      exact ⟨rfl, rfl⟩

/-- What a construct does to a text that goes by lines: it takes its line and is to
the blocks what the line is, or it leaves the rest of the line, which is to the
blocks what the line was. -/
def GoesByLine (r : Reader) (c : Construct) (r' : Reader) : Prop :=
  SkippedLine.read r = (c.asLine, r') ∨
    c.asLine = .other ∧ SkippedLine.read r' = SkippedLine.read r ∧
      Character.IsLinewise r'.line

theorem read_unmarked_line (h : Character.IsUnmarked r.line) :
    SkippedLine.read r = (.other, r.skipLine) := by
  rw [SkippedLine.read_eq, ← Character.directive?_line, h.directive?]

theorem goesByLine_of_unmarked (hline : Character.IsUnmarked r.line) {cs : List Character}
    (hreads : r.Reads cs r') (hcs : ∀ d ∈ cs, d.code ≠ Code.newline) (hc : c.asLine = .other) :
    GoesByLine r c r' := by
  obtain ⟨hskip, hrest⟩ := hreads.within_line hcs
  have hline' : Character.IsUnmarked r'.line := hline.of_suffix ⟨cs, hrest.symm⟩
  refine .inr ⟨hc, ?_, hline'.isLinewise⟩
  rw [read_unmarked_line hline', read_unmarked_line hline, hskip]

theorem read_unmarked (hrest : r.rest ≠ []) (hline : Character.IsUnmarked r.line)
    (h : read r = .ok (c, r')) : c.isInclude = false ∧ GoesByLine r c r' := by
  have hfirst : ∀ {code : Nat}, code ≠ Code.newline → r.sees code = true →
      ∃ d ∈ r.line, d.code = code := by
    intro code hcode hsees
    obtain ⟨d, cs, hcons, rfl⟩ := Reader.rest_of_sees hsees
    exact ⟨d, by simp [Reader.line_of_rest hcons hcode], rfl⟩
  cases origin_of_read h with
  | directive hhash _ =>
    obtain ⟨d, hd, hcode⟩ := hfirst (by decide) hhash
    exact absurd hcode (hline.1 d hd).1
  | expansion _ hat hread =>
    obtain ⟨⟨name, rfl⟩, cs, hreads, hcs⟩ := readExpansion_eq_ok hat hread
    refine ⟨rfl, goesByLine_of_unmarked hline hreads ?_ rfl⟩
    intro d hd
    rcases hcs d hd with hcode | hidentifier
    · rw [hcode]
      decide
    · exact Character.code_ne_newline_of_identifier hidentifier
  | literal _ _ hquote _ =>
    obtain ⟨d, hd, hcode⟩ := hfirst (by decide) hquote
    exact absurd hcode (hline.1 d hd).2
  | lineComment => exact ⟨rfl, .inl (read_unmarked_line hline)⟩
  | blockComment _ _ _ _ hblock _ =>
    obtain ⟨d, e, cs, hcons, hd, he⟩ := Reader.rest_of_seesPair hblock
    have htwo : r.line = d :: e :: ((r.skip 1).skip 1).line := by
      rw [Reader.line_of_rest hcons (by rw [hd]; decide),
        Reader.line_of_rest (by rw [Reader.skip_rest, hcons]; rfl) (by rw [he]; decide)]
    refine absurd ⟨[], ((r.skip 1).skip 1).line.map Character.code, ?_⟩ hline.2
    simp [htwo, hd, he]
  | character =>
    refine ⟨rfl, ?_⟩
    obtain ⟨d, cs, hcons⟩ := List.exists_cons_of_ne_nil hrest
    by_cases hd : d.code = Code.newline
    · left
      rw [read_unmarked_line hline, Reader.skip_one_of_newline hcons hd]
      rfl
    · refine goesByLine_of_unmarked hline (Reader.reads_skip 1 r) ?_ rfl
      simpa [hcons] using hd

/-- The white space before a directive is read character by character. -/
theorem read_indented (hrest : r.rest ≠ []) (hhash : r.sees Code.hash = false)
    (hbegins : Character.BeginsWithHash r.line) (hline : Character.IsLinewise r.line)
    (h : read r = .ok (c, r')) : c.isInclude = false ∧ GoesByLine r c r' := by
  obtain ⟨d, cs, hcons⟩ := List.exists_cons_of_ne_nil hrest
  have hd : d.code ≠ Code.newline := by
    intro hd
    simp [Character.BeginsWithHash, Reader.line, hcons, hd] at hbegins
  have hdrop := Reader.line_of_rest hcons hd
  have hblank : d.isBlank = true := by
    by_contra hno
    rw [Character.BeginsWithHash, hdrop, List.dropWhile_cons_of_neg hno] at hbegins
    simp only [Reader.sees, Reader.peek?, hcons, List.head?_cons] at hhash hbegins
    rw [hbegins] at hhash
    cases hhash
  have hfirst : ∀ {code : Nat}, r.sees code = true → Code.isBlank code = true := by
    intro code hsees
    obtain ⟨e, es, hcons', rfl⟩ := Reader.rest_of_sees hsees
    rw [hcons] at hcons'
    cases hcons'
    exact hblank
  cases origin_of_read h with
  | directive hhash' _ =>
    rw [hhash] at hhash'
    cases hhash'
  | expansion _ hat _ => cases hfirst hat
  | literal _ _ hquote _ => cases hfirst hquote
  | lineComment _ _ _ hslash => cases hfirst (Reader.sees_of_seesPair hslash)
  | blockComment _ _ _ _ hblock _ => cases hfirst (Reader.sees_of_seesPair hblock)
  | character =>
    have hblanks : (r.skip 1).skipBlanks = r.skipBlanks := by
      refine ((Reader.leadsTo_skip 1 r).trans (Reader.leadsTo_skipBlanks _)).unique
        (Reader.leadsTo_skipBlanks r) ?_
      rw [Reader.skipBlanks_rest, Reader.skipBlanks_rest, Reader.skip_rest, hcons,
        List.dropWhile_cons_of_pos hblank]
      rfl
    have hno := hline.2
    rw [hdrop, Character.directive?, List.dropWhile_cons_of_pos hblank] at hno
    rw [hdrop, Character.BeginsWithHash, List.dropWhile_cons_of_pos hblank] at hbegins
    refine ⟨rfl, .inr ⟨rfl, ?_, .inl hbegins, hno⟩⟩
    rw [SkippedLine.read, SkippedLine.read, hblanks]

theorem read_linewise (hrest : r.rest ≠ []) (hline : Character.IsLinewise r.line)
    (h : read r = .ok (c, r')) : c.isInclude = false ∧ GoesByLine r c r' := by
  rcases hline.1 with hbegins | hunmarked
  · cases hhash : r.sees Code.hash with
    | true =>
      rw [read, if_pos hhash] at h
      have hno := hline.2
      rw [Character.directive?_line] at hno
      obtain ⟨hinclude, hread⟩ := readDirective_asLine hhash hno h
      exact ⟨hinclude, .inl hread⟩
    | false => exact read_indented hrest hhash hbegins hline h
  · exact read_unmarked hrest hunmarked h

end Construct

/-! ## The open blocks at every line -/

/-- The places of the open blocks behind a line of `file`, innermost first. -/
def SkippedLine.places (file : Files.Address) (places : List Place) : SkippedLine → List Place
  | .opens position => ⟨file.path, position.line, position.column⟩ :: places
  | .closes => places.tail
  | .other => places

/-- The places of the open blocks behind the next `n` lines. -/
def Reader.placesAfter (file : Files.Address) : Nat → Reader → List Place → List Place
  | 0, _, places => places
  | n + 1, r, places =>
    placesAfter file n r.skipLine ((SkippedLine.read r).1.places file places)

theorem Reader.rest_iterate_skipLine {r : Reader} {n : Nat} (h : r.rest.length ≤ n) :
    (Reader.skipLine^[n] r).rest = [] := by
  induction n generalizing r with
  | zero => exact List.eq_nil_of_length_eq_zero (Nat.le_zero.mp h)
  | succ n ih =>
    rw [Function.iterate_succ_apply]
    apply ih
    by_cases hrest : r.rest = []
    · rw [skipLine_of_end hrest, hrest]
      exact Nat.zero_le n
    · have hless := length_skipLine_lt hrest
      omega

namespace Run

variable {disk : Files.Disk} {dirs : List Text} {run next last : Run} {frame : Frame}
  {file : Files.Address} {r : Reader} {visited : List Run}

/-- The places where the open blocks were opened, innermost first. -/
def places (run : Run) : List Place := run.blocks.elements.map Block.opened

theorem length_places (run : Run) : run.places.length = run.blocks.size := by
  simp [places, Stack.size]

theorem skipLine_places (run : Run) (frame : Frame) (line : SkippedLine) :
    (run.skipLine frame line).places = line.places frame.file run.places := by
  rw [places, skipLine_blocks]
  cases line with
  | closes => rw [List.map_tail]; rfl
  | _ => rfl

theorem execute_places {c : Construct} (h : run.execute disk dirs frame c = .ok next) :
    next.places = c.asLine.places frame.file run.places := by
  rw [places, execute_blocks h]
  cases c with
  | closeBlock position => rw [List.map_tail]; rfl
  | _ => rfl

/-- A run that is in one file and gets out of it reaches the next line, with the
blocks that the line says. -/
theorem Steps.through_line (h : Steps disk dirs run visited last)
    (hframes : run.frames = [⟨file, r⟩]) (hline : Character.IsLinewise r.line)
    (hlast : last.frames = []) :
    ∃ before next after, Steps disk dirs run before next ∧ Steps disk dirs next after last ∧
      next.frames = [⟨file, r.skipLine⟩] ∧
      next.places = (SkippedLine.read r).1.places file run.places := by
  induction h generalizing r with
  | refl run =>
    rw [hframes] at hlast
    cases hlast
  | @head run next last visited hrun hstep hsteps ih =>
    have hsingle := Steps.single hrun hstep
    by_cases hrest : r.rest = []
    · refine ⟨[], run, _, .refl run, .head hrun hstep hsteps, ?_, ?_⟩
      · rw [hframes, Reader.skipLine_of_end hrest]
      · rw [SkippedLine.read_eq, hrest]
        rfl
    cases step_move hframes hstep with
    | leave hend => exact absurd hend hrest
    | skip _ _ hread =>
      refine ⟨[run], _, _, hsingle, hsteps, ?_, ?_⟩
      · rw [skipLine_frames, ← SkippedLine.read_behind, hread]
      · rw [skipLine_places, hread]
        rfl
    | @read c r' next _ _ hread hexecute =>
      obtain ⟨hno, hgoes⟩ := Construct.read_linewise hrest hline hread
      have hplaces := execute_places hexecute
      have hnext := (execute_files (Construct.ne_includeFile hno) hexecute).1
      rcases hgoes with hbehind | ⟨hother, hsame, hline'⟩
      · refine ⟨[run], _, _, hsingle, hsteps, ?_, ?_⟩
        · rw [hnext, ← SkippedLine.read_behind, hbehind]
        · rw [hplaces, hbehind]
          rfl
      · -- The construct leaves the rest of its line, from where the run goes on.
        obtain ⟨before, behind, after, hbefore, hafter, hframes', hplaces'⟩ :=
          ih hnext hline' hlast
        refine ⟨_, behind, after, hsingle.trans hbefore, hafter, ?_, ?_⟩
        · rw [hframes', ← SkippedLine.read_behind, hsame, SkippedLine.read_behind]
        · rw [hplaces', hsame, hplaces, hother]
          rfl

/-- At the beginning of each line the open blocks are those that the text says. -/
theorem Steps.through_lines (n : Nat) (h : Steps disk dirs run visited last)
    (hframes : run.frames = [⟨file, r⟩])
    (hlines : ∀ line ∈ Character.lines r.rest, Character.IsLinewise line)
    (hlast : last.frames = []) :
    ∃ before next after, Steps disk dirs run before next ∧ Steps disk dirs next after last ∧
      next.frames = [⟨file, Reader.skipLine^[n] r⟩] ∧
      next.places = r.placesAfter file n run.places := by
  induction n generalizing run visited r with
  | zero => exact ⟨[], run, visited, .refl run, h, hframes, rfl⟩
  | succ n ih =>
    obtain ⟨hline, hbehind⟩ := Character.forall_mem_lines Character.isLinewise_nil hlines
    obtain ⟨before, next, after, hbefore, hafter, hnext, hplaces⟩ :=
      h.through_line hframes hline hlast
    obtain ⟨before', state, after', hbefore', hafter', hstate, hplaces'⟩ := ih hafter hnext hbehind
    refine ⟨_, state, after', hbefore.trans hbefore', hafter', hstate, ?_⟩
    rw [hplaces', hplaces]
    rfl

/-- At the end of the text the open blocks are those that the text says. -/
theorem Steps.places_at_end (h : Steps disk dirs run visited last)
    (hframes : run.frames = [⟨file, r⟩])
    (hlines : ∀ line ∈ Character.lines r.rest, Character.IsLinewise line)
    (hlast : last.frames = []) :
    last.places = r.placesAfter file r.rest.length run.places := by
  obtain ⟨before, state, after, -, hafter, hstate, hplaces⟩ :=
    h.through_lines r.rest.length hframes hlines hlast
  have hend := Reader.rest_iterate_skipLine (Nat.le_refl r.rest.length)
  cases hafter with
  | refl =>
    rw [hstate] at hlast
    cases hlast
  | head _ hstep hsteps =>
    rw [step_of_end hstate hend] at hstep
    cases hstep
    cases hsteps with
    | refl => exact hplaces
    | head hne _ _ => exact absurd rfl hne

end Run

/-! ## The warning at the end -/

/-- What the warning about open blocks says behind their number. -/
def Advice.unclosedText : Text := bytes " #ifdef block(s) not closed by #endif at end of input"

/-- Whether a diagnostic reports open blocks at the end. -/
def Diagnostic.isUnclosed (d : Diagnostic) : Bool := Text.endsWith Advice.unclosedText d.message

theorem Diagnostic.isUnclosed_eq_false {d : Diagnostic}
    (h : d.message.getLast? ≠ Advice.unclosedText.getLast?) : d.isUnclosed = false := by
  rw [Bool.eq_false_iff]
  intro hends
  obtain ⟨front, hmessage⟩ := List.isSuffixOf_iff_suffix.mp hends
  rw [← hmessage, List.getLast?_append_of_ne_nil front (by decide)] at h
  exact h rfl

/-- Only open blocks at the end are reported so. -/
theorem Advice.isUnclosed_warning (advice : Advice) (place : Place) :
    (advice.warning place).isUnclosed = match advice with
      | .unclosedBlocks _ => true
      | _ => false := by
  cases advice with
  | nothingToUndefine =>
    refine Diagnostic.isUnclosed_eq_false ?_
    show Advice.nothingToUndefine.message.getLast? ≠ _
    decide
  | notDefined name =>
    have hlast : (Advice.notDefined name).message.getLast? = some (Text.ofAscii '"') := by
      rw [message, Text.quoted, ← List.append_assoc]
      exact List.getLast?_append_of_ne_nil _ (by decide)
    refine Diagnostic.isUnclosed_eq_false ?_
    rw [warning, hlast]
    decide
  | alreadyIncluded path =>
    have hlast : (Advice.alreadyIncluded path).message.getLast? = some (Text.ofAscii 'n') :=
      List.getLast?_append_of_ne_nil _ (by decide)
    refine Diagnostic.isUnclosed_eq_false ?_
    rw [warning, hlast]
    decide
  | unclosedBlocks count => exact List.isSuffixOf_iff_suffix.mpr ⟨Text.decimal count, rfl⟩

namespace Run

variable {disk : Files.Disk} {dirs : List Text} {run next last : Run} {frame : Frame}

/-- No open blocks were reported yet. -/
def NothingReported (run : Run) : Prop := ∀ d ∈ run.warned, d.isUnclosed = false

namespace NothingReported

theorem warn (h : run.NothingReported) {advice : Advice} (place : Place)
    (hadvice : (advice.warning place).isUnclosed = false) :
    (run.warn advice place).NothingReported :=
  List.forall_mem_cons.mpr ⟨hadvice, h⟩

theorem undefine (h : run.NothingReported) (name : Text) (place : Place) :
    (run.undefine name place).NothingReported := by
  rw [Run.undefine]
  split
  · exact h.warn place (Advice.isUnclosed_warning ..)
  · split
    · exact h
    · exact h.warn place (Advice.isUnclosed_warning ..)

theorem execute (h : run.NothingReported) {c : Construct}
    (hexecute : run.execute disk dirs frame c = .ok next) : next.NothingReported := by
  cases c with
  | includeFile name position =>
    obtain ⟨file, content, -, ⟨-, rfl⟩ | ⟨-, rfl⟩⟩ := execute_include hexecute
    · exact h.warn _ (Advice.isUnclosed_warning ..)
    · exact h
  | undefine name position =>
    cases hexecute
    exact h.undefine name _
  | expansion name =>
    simp only [Run.execute] at hexecute
    split at hexecute <;> (cases hexecute; exact h)
  | closeBlock position =>
    simp only [Run.execute] at hexecute
    split at hexecute
    · cases hexecute
      exact h
    · cases hexecute
  | _ =>
    cases hexecute
    exact h

/-- Open blocks are reported by no step. -/
theorem step (h : run.NothingReported) (hrun : run.frames ≠ [])
    (hstep : run.step disk dirs = .ok next) : next.NothingReported := by
  obtain ⟨frame, outer, hframes⟩ := List.exists_cons_of_ne_nil hrun
  cases step_move hframes hstep with
  | leave hend => exact h
  | skip hrest hskip hread =>
    rw [NothingReported, skipLine_warned]
    exact h
  | @read c reader next hrest hskip hread hexecute =>
    have hread' : { run with frames := { frame with reader } :: outer }.NothingReported := h
    exact hread'.execute hexecute

theorem of_steps {visited : List Run} (h : run.NothingReported)
    (hsteps : Steps disk dirs run visited last) : last.NothingReported :=
  (hsteps.invariant (fun _ _ hnothing hrun hstep => hnothing.step hrun hstep) h).2

/-- What is reported at the end is decided by the places of the open blocks. -/
theorem warnUnclosed (h : run.NothingReported) :
    run.warnUnclosed.warnings.filter Diagnostic.isUnclosed =
      (run.places.getLast?.map
        (Advice.unclosedBlocks run.places.length).warning).toList := by
  have hnone : run.warned.filter Diagnostic.isUnclosed = [] :=
    List.filter_eq_nil_iff.mpr fun d hd => by simp [h d hd]
  rw [length_places, places, List.getLast?_map, warnings, List.filter_reverse, Run.warnUnclosed,
    Stack.bottom?]
  cases run.blocks.elements.getLast? with
  | none =>
    rw [hnone]
    rfl
  | some outermost =>
    have hreported := Advice.isUnclosed_warning (.unclosedBlocks run.blocks.size) outermost.opened
    dsimp only [Run.warn]
    rw [List.filter_cons_of_pos hreported, hnone]
    rfl

end NothingReported

end Run

namespace Session

/-- What a successful run over a text that goes by lines has open: at each line, and
at the end. -/
theorem places_of_success {session : Session} {disk : Files.Disk} {root : Text}
    {file : Files.Address} {content : Text}
    (hfetch : disk.fetch (disk.canonical root) = .ok (file, content))
    (hlines : content.IsLinewise) (hsuccess : (session.process disk root).1 = none) :
    (∀ n, ∃ state ∈ session.states disk root,
      state.frames = [⟨file, Reader.skipLine^[n] (.ofText content)⟩] ∧
      state.places = (Reader.ofText content).placesAfter file n []) ∧
    ∃ last : Run, last.NothingReported ∧
      (session.process disk root).2.run = last.warnUnclosed ∧
      last.places =
        (Reader.ofText content).placesAfter file (Reader.ofText content).rest.length [] := by
  have hopened := session.opened_of_fetch hfetch
  obtain ⟨visited, last, hsteps, hlast, hprocess⟩ := steps_of_success hopened hsuccess
  constructor
  · intro n
    obtain ⟨before, state, after, hbefore, -, hframes, hplaces⟩ :=
      hsteps.through_lines n rfl hlines hlast
    exact ⟨state, (mem_states_iff hopened).mpr ⟨before, hbefore⟩, hframes, hplaces⟩
  · have hstart : ((Run.ofMacros session.settings.predefined).enter file content).NothingReported :=
      fun _ hd => nomatch hd
    exact ⟨last, hstart.of_steps hsteps, hprocess, hsteps.places_at_end rfl hlines hlast⟩

/-- Over a text without includes in which every line begins with `#` or has neither
`#` nor quotes nor openings of comments, two successful runs have the same number of
open blocks at the beginning of each line, whatever macros they start from, and
report the same open blocks at the end. -/
theorem blocks_independent (session session' : Session) (disk : Files.Disk) (root : Text)
    (file : Files.Address) (content : Text)
    (hfetch : disk.fetch (disk.canonical root) = .ok (file, content))
    (hlines : content.IsLinewise) (hsuccess : (session.process disk root).1 = none)
    (hsuccess' : (session'.process disk root).1 = none) :
    (∀ n, (∃ state ∈ session.states disk root,
        state.frames = [⟨file, Reader.skipLine^[n] (.ofText content)⟩]) ∧
      (∃ state' ∈ session'.states disk root,
        state'.frames = [⟨file, Reader.skipLine^[n] (.ofText content)⟩]) ∧
      ∀ state ∈ session.states disk root, ∀ state' ∈ session'.states disk root,
        state.frames = [⟨file, Reader.skipLine^[n] (.ofText content)⟩] →
        state'.frames = [⟨file, Reader.skipLine^[n] (.ofText content)⟩] →
        state.blocks.size = state'.blocks.size) ∧
    (session.process disk root).2.run.warnings.filter Diagnostic.isUnclosed =
      (session'.process disk root).2.run.warnings.filter Diagnostic.isUnclosed := by
  obtain ⟨hstates, last, hnothing, hprocess, hplaces⟩ := places_of_success hfetch hlines hsuccess
  obtain ⟨hstates', last', hnothing', hprocess', hplaces'⟩ :=
    places_of_success hfetch hlines hsuccess'
  refine ⟨fun n => ?_, ?_⟩
  · obtain ⟨here, hhere, hframes, hblocks⟩ := hstates n
    obtain ⟨here', hhere', hframes', hblocks'⟩ := hstates' n
    refine ⟨⟨here, hhere, hframes⟩, ⟨here', hhere', hframes'⟩, ?_⟩
    intro state hstate state' hstate' hat hat'
    obtain rfl := eq_of_frames hstate hhere (hat.trans hframes.symm)
    obtain rfl := eq_of_frames hstate' hhere' (hat'.trans hframes'.symm)
    rw [← Run.length_places, ← Run.length_places, hblocks, hblocks']
  · rw [hprocess, hprocess', hnothing.warnUnclosed, hnothing'.warnUnclosed, hplaces, hplaces']

/-- A text whose first block stays open.  Its second one is opened and closed behind
white space and with text behind the directives. -/
def nested : Files.Disk where
  nodes := [
    ([bytes "w"], .directory),
    ([bytes "w", bytes "main.xs"],
      .file (bytes "#ifdef A\n\t# ifdef B \"\nx @A@ // y\n #endif /*\n#define B @A\n"))]
  workingDirectory := [bytes "w"]

theorem blocks_independent_nested :
    ((new nested [] (.ofList [(bytes "A", [])])).process nested (bytes "main.xs")).1 = none ∧
    ((new nested [] (.ofList [])).process nested (bytes "main.xs")).1 = none ∧
    ((new nested [] (.ofList [])).process nested (bytes "main.xs")).2.run.warnings =
      [⟨.warning, ⟨bytes "/w/main.xs", 1, 1⟩,
        bytes "1 #ifdef block(s) not closed by #endif at end of input"⟩] ∧
    ((new nested [] (.ofList [(bytes "A", [])])).process nested
        (bytes "main.xs")).2.run.warnings.filter Diagnostic.isUnclosed =
      ((new nested [] (.ofList [])).process nested
        (bytes "main.xs")).2.run.warnings.filter Diagnostic.isUnclosed :=
  ⟨by decide +kernel, by decide +kernel, by decide +kernel,
    (blocks_independent _ _ nested (bytes "main.xs") [bytes "w", bytes "main.xs"]
      (bytes "#ifdef A\n\t# ifdef B \"\nx @A@ // y\n #endif /*\n#define B @A\n")
      (by decide +kernel) (by decide +kernel) (by decide +kernel) (by decide +kernel)).2⟩

end Session

end XsPrep
