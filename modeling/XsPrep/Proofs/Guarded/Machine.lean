import XsPrep.Proofs.Guarded.Scanner
import XsPrep.Proofs.Preprocess.Steps

/-!
# A guarded run

A guarded run goes through its files as the texts say and changes its state in place: it
reads a piece of a construct, does something, and reads on.  What it has done stays done if
the construct turns out to be flawed.  Its stacks may be empty and its tables may be missing
where it needs them, and then it is misused.  It enters an included file in the middle of the
including one, and keeps the scanner of the including file until it is back.

From the state of a run, one step of a guarded run does what a step of the run does
(`step_follows`): it is not misused, and it changes nothing where the step fails.
-/

namespace XsPrep.Guarded

/-! ## Stacks -/

section Stacks

variable {α : Type}

/-- The top of a stack and the stack below it. -/
def pop (stack : Stack α) : Except Misuse (α × Stack α) :=
  match stack.pop? with
  | some result => .ok result
  | none => .error .emptyStack

/-- The top of a stack. -/
def top (stack : Stack α) : Except Misuse α :=
  match stack.top? with
  | some a => .ok a
  | none => .error .emptyStack

/-- The bottom of a stack. -/
def bottom (stack : Stack α) : Except Misuse α :=
  match stack.bottom? with
  | some a => .ok a
  | none => .error .emptyStack

theorem isEmpty_eq_isNone_pop? (stack : Stack α) : stack.isEmpty = stack.pop?.isNone := by
  unfold Stack.isEmpty Stack.pop?
  cases stack.elements <;> rfl

end Stacks

/-! ## States -/

/-- The state of a guarded run. -/
structure Machine where
  /-- The macros, if the table was made. -/
  macros : Option Macros
  /-- The open blocks. -/
  blocks : Stack Block
  /-- The files entered so far, newest first, if the list was made. -/
  processed : Option (List Files.Address)
  /-- The files being read. -/
  frames : Stack Files.Address
  /-- The fragments of output, newest first. -/
  emitted : List Text
  /-- The warnings, newest first. -/
  warned : List Diagnostic
  /-- What was reported while the run went on, newest first. -/
  reported : List Diagnostic

namespace Machine

/-- Whether the innermost open block is skipped. -/
def isSkipping (m : Machine) : Except Misuse Bool :=
  if m.blocks.isEmpty then .ok false
  else do
    let block ← top m.blocks
    .ok !block.active

/-- A position in the innermost file. -/
def place (m : Machine) (position : Position) : Except Misuse Place :=
  if m.frames.isEmpty then .ok ⟨[], 0, 0⟩
  else do
    let file ← top m.frames
    .ok ⟨file.path, position.line, position.column⟩

/-- One more fragment. -/
def emit (m : Machine) (fragment : Text) : Machine := { m with emitted := fragment :: m.emitted }

/-- One more warning, which is reported at once. -/
def warn (m : Machine) (advice : Advice) (place : Place) : Machine :=
  { m with
    warned := advice.warning place :: m.warned
    reported := advice.warning place :: m.reported }

/-- Binds a macro. -/
def define (m : Machine) (name value : Text) : Except Misuse Machine :=
  match m.macros with
  | some macros => .ok { m with macros := some (macros.define name value) }
  | none => .error .missingTable

/-- Removes a macro, if it is bound. -/
def undefine? (m : Machine) (name : Text) : Option Machine :=
  (m.macros.bind (·.undefine? name)).map fun macros => { m with macros := some macros }

/-- Counts a file as entered. -/
def markProcessed (m : Machine) (file : Files.Address) : Except Misuse Machine :=
  match m.processed with
  | some processed => .ok { m with processed := some (file :: processed) }
  | none => .error .missingTable

/-- One more open block. -/
def openBlock (m : Machine) (block : Block) : Machine := { m with blocks := m.blocks.push block }

/-- Closes the innermost block. -/
def closeBlock (m : Machine) : Except Misuse Machine := do
  let (_, blocks) ← pop m.blocks
  .ok { m with blocks }

/-- One more file that is being read. -/
def pushFrame (m : Machine) (file : Files.Address) : Machine :=
  { m with frames := m.frames.push file }

/-- Leaves the innermost file. -/
def popFrame (m : Machine) : Except Misuse Machine := do
  let (_, frames) ← pop m.frames
  .ok { m with frames }

/-- The problem of a flaw at a position of the innermost file. -/
def flaw (m : Machine) (e : SourceError) : Except Misuse Stop := do
  let place ← m.place e.position
  .ok ⟨place, .flawed e.flaw⟩

end Machine

/-- What a step leads to: the problem, if it fails, the state and the scanner. -/
abbrev Outcome := Option Stop × Machine × Scanner

/-- How an included file is read to its end. -/
abbrev Enter := Machine → Files.Address → Text → Except Misuse (Option Stop × Machine)

/-! ## Steps -/

/-- The definition behind its keyword. -/
def parseDefine (m : Machine) (s : Scanner) : Except Misuse Outcome := do
  let s ← s.skipBlanks
  let (name, behind) ← s.readIdentifier
  if name.isEmpty then
    let stop ← m.flaw ⟨s.cursor, .missingName (.operand .define)⟩
    .ok (some stop, m, behind)
  else
    let behind ← behind.skipBlanks
    let (value, behind) ← behind.readLine
    let m ← m.define name value.trimmed
    let behind ← behind.skipLine
    .ok (none, m, behind)

/-- The removal behind its keyword. -/
def parseUndefine (m : Machine) (s : Scanner) : Except Misuse Outcome := do
  let s ← s.skipBlanks
  let (name, behind) ← s.readIdentifier
  let place ← m.place s.cursor
  let m :=
    if name.isEmpty then m.warn .nothingToUndefine place
    else (m.undefine? name).getD (m.warn (.notDefined name) place)
  let behind ← behind.skipLine
  .ok (none, m, behind)

/-- The opening of a block behind its keyword.  Its `#` is at `start`. -/
def parseOpening (start : Position) (m : Machine) (s : Scanner) : Except Misuse Outcome := do
  let s ← s.skipBlanks
  let (name, behind) ← s.readIdentifier
  if name.isEmpty then
    let stop ← m.flaw ⟨s.cursor, .missingName (.operand .ifDefined)⟩
    .ok (some stop, m, behind)
  else
    let place ← m.place start
    let m := m.openBlock ⟨m.macros.any (·.contains name), place⟩
    let behind ← behind.skipLine
    .ok (none, m, behind)

/-- The closing of a block behind its keyword.  Its `#` is at `start`. -/
def parseClosing (start : Position) (m : Machine) (s : Scanner) : Except Misuse Outcome := do
  if m.blocks.isEmpty then
    let place ← m.place start
    .ok (some ⟨place, .unmatchedClosing⟩, m, s)
  else
    let m ← m.closeBlock
    let behind ← s.skipLine
    .ok (none, m, behind)

/-- Includes a file by name. -/
def includeFile (disk : Files.Disk) (dirs : List Text) (enter : Enter) (m : Machine) (name : Text)
    (place : Place) : Except Misuse (Option Stop × Machine) :=
  match Lookup.find disk (Path.directory place.path) dirs name with
  | .error problem => .ok (some ⟨place, problem⟩, m)
  | .ok (file, content) =>
    if (m.processed.getD []).contains file then
      .ok (none, m.warn (.alreadyIncluded file.path) place)
    else enter m file content

/-- The include behind its keyword. -/
def parseInclude (disk : Files.Disk) (dirs : List Text) (enter : Enter) (m : Machine)
    (s : Scanner) : Except Misuse Outcome := do
  let s ← s.skipBlanks
  let place ← m.place s.cursor
  let (literal, behind) ← s.readLiteral
  match literal with
  | .error e =>
    let stop ← m.flaw e
    .ok (some stop, m, behind)
  | .ok literal =>
    if literal.value.isEmpty then .ok (some ⟨place, .flawed .emptyIncludeName⟩, m, behind)
    else
      let behind ← behind.skipLine
      let (stop, m) ← includeFile disk dirs enter m literal.value place
      .ok (stop, m, behind)

/-- The directive at a scanner that sees `#`, told apart by the number of its keyword. -/
def parseDirective (disk : Files.Disk) (dirs : List Text) (enter : Enter) (m : Machine)
    (s : Scanner) : Except Misuse Outcome := do
  let (_, behind) ← s.next
  let behind ← behind.skipBlanks
  let (keyword, behind) ← behind.readIdentifier
  match (Directive.ofKeyword? keyword).map Directive.number with
  | none =>
    let stop ← m.flaw ⟨s.cursor, .unknownDirective keyword⟩
    .ok (some stop, m, behind)
  | some 0 => parseInclude disk dirs enter m behind
  | some 1 => parseDefine m behind
  | some 2 => parseUndefine m behind
  | some 3 => parseOpening s.cursor m behind
  | some 4 => parseClosing s.cursor m behind
  | some _ => .error .unhandledDirective

/-- The expansion at a scanner that sees `@`. -/
def expand (m : Machine) (s : Scanner) : Except Misuse Outcome := do
  let (_, s) ← s.next
  let (name, behind) ← s.readIdentifier
  if name.isEmpty then
    let stop ← m.flaw ⟨s.cursor, .missingName .expansion⟩
    .ok (some stop, m, behind)
  else
    let c ← behind.look
    if c.any (·.code == Code.atSign) then
      let (_, behind) ← behind.next
      match m.macros.bind (·.get? name) with
      | some value => .ok (none, m.emit value, behind)
      | none => .ok (none, m, behind)
    else
      let stop ← m.flaw ⟨behind.cursor, .unterminatedExpansion name⟩
      .ok (some stop, m, behind)

/-- A line of a skipped block.  A block that opens there is skipped itself. -/
def skipInactiveLine (m : Machine) (s : Scanner) : Except Misuse Outcome := do
  let s ← s.skipBlanks
  let c ← s.look
  if c.any (·.code == Code.hash) then
    let (_, behind) ← s.next
    let behind ← behind.skipBlanks
    let (keyword, behind) ← behind.readIdentifier
    let m ← match Directive.ofKeyword? keyword with
      | some .ifDefined => do
        let place ← m.place s.cursor
        .ok (m.openBlock ⟨false, place⟩)
      | some .endIf => m.closeBlock
      | _ => .ok m
    let behind ← behind.skipLine
    .ok (none, m, behind)
  else
    let behind ← s.skipLine
    .ok (none, m, behind)

/-- One step in the innermost file. -/
def step (disk : Files.Disk) (dirs : List Text) (enter : Enter) (m : Machine) (s : Scanner) :
    Except Misuse Outcome := do
  let skipping ← m.isSkipping
  if skipping then skipInactiveLine m s
  else
    let c ← s.look
    if c.any (·.code == Code.hash) then parseDirective disk dirs enter m s
    else if c.any (·.code == Code.atSign) then expand m s
    else if c.any (·.code == Code.quote) then
      let (literal, behind) ← s.readLiteral
      match literal with
      | .error e =>
        let stop ← m.flaw e
        .ok (some stop, m, behind)
      | .ok literal => .ok (none, m.emit literal.raw, behind)
    else
      let isLineComment ← s.beginsWith [Byte.slash, Byte.slash]
      let isBlockComment ← s.beginsWith Text.opening
      if isLineComment then
        let behind ← s.skipLine
        .ok (none, m, behind)
      else if isBlockComment then
        let (result, behind) ← s.skipComment
        match result with
        | .error e =>
          let stop ← m.flaw e
          .ok (some stop, m, behind)
        | .ok () => .ok (none, m, behind)
      else
        let (_, behind) ← s.next
        let raw ← behind.since s.cursor
        .ok (none, m.emit raw, behind)

/-! ## The state of a run -/

/-- The state of a run that is in the middle of some files.  What was warned about was
reported. -/
def Machine.ofRun (run : Run) (files : List Files.Address) : Machine where
  macros := some run.macros
  blocks := run.blocks
  processed := some run.processed
  frames := ⟨files⟩
  emitted := run.emitted
  warned := run.warned
  reported := run.warned

namespace Machine

variable {run : Run} {frame : Frame} {files : List Files.Address}

theorem ofRun_frames (run : Run) (frames : List Frame) (files : List Files.Address) :
    ofRun run files = ofRun { run with frames } files := rfl

theorem isSkipping_ofRun : (ofRun run files).isSkipping = .ok run.isSkipping := by
  have hblocks : (ofRun run files).blocks = run.blocks := rfl
  rw [isSkipping, Run.isSkipping, hblocks]
  cases run.blocks with
  | mk blocks =>
    cases blocks with
    | nil => rfl
    | cons block blocks => rfl

theorem place_ofRun (position : Position) :
    (ofRun run (frame.file :: files)).place position = .ok (frame.place position) := rfl

theorem define_ofRun (name value : Text) :
    (ofRun run files).define name value =
      .ok (ofRun { run with macros := run.macros.define name value } files) := rfl

theorem undefine_ofRun (name : Text) (place : Place) :
    (if name.isEmpty then (ofRun run files).warn .nothingToUndefine place
      else ((ofRun run files).undefine? name).getD
        ((ofRun run files).warn (.notDefined name) place)) =
    ofRun (run.undefine name place) files := by
  unfold Run.undefine
  split
  · rfl
  · cases hmacros : run.macros.undefine? name with
    | none => simp [undefine?, ofRun, hmacros, warn, Run.warn]
    | some macros => simp [undefine?, ofRun, hmacros]

theorem closeBlock_ofRun {block : Block} {blocks : Stack Block}
    (hpop : run.blocks.pop? = some (block, blocks)) :
    (ofRun run files).closeBlock = .ok (ofRun { run with blocks } files) := by
  have hguarded : pop (ofRun run files).blocks = .ok (block, blocks) := by
    rw [pop, ofRun, hpop]
  rw [closeBlock, hguarded, ok_bind]
  rfl

end Machine

/-! ## Steps from the state of a run -/

/-- What a step does that reads a construct, or finds a flaw, in the file of `frame`. -/
def carryOut (disk : Files.Disk) (dirs : List Text) (run : Run) (frame : Frame)
    (outer : List Frame) : Except SourceError (Construct × Reader) → Except Stop Run
  | .error e => .error ⟨frame.place e.position, .flawed e.flaw⟩
  | .ok (construct, reader) =>
    { run with frames := { frame with reader } :: outer }.execute disk dirs frame construct

/-- How the outcome of a guarded step has to do with the result of a step in the file of
`frame` with text `t`.  The file was entered from the files `below`. -/
inductive Follows (enter : Enter) (t : Text) (run : Run) (frame : Frame) (outer : List Frame)
    (below : List Files.Address) : Except Stop Run → Except Misuse Outcome → Prop where
  /-- Both move on in the file. -/
  | moved {next : Run} {reader : Reader} (hleads : (Reader.ofText t).LeadsTo reader)
      (hframes : next.frames = { frame with reader } :: outer) :
      Follows enter t run frame outer below (.ok next)
        (.ok (none, .ofRun next (frame.file :: below), .ofReader t reader))
  /-- Both fail, and nothing has changed but the place in the text. -/
  | failed (stop : Stop) (s : Scanner) :
      Follows enter t run frame outer below (.error stop)
        (.ok (some stop, .ofRun run (frame.file :: below), s))
  /-- Both enter a file, from behind its include. -/
  | entered {reader : Reader} (file : Files.Address) (content : Text)
      (hleads : (Reader.ofText t).LeadsTo reader) :
      Follows enter t run frame outer below
        (.ok ({ run with frames := { frame with reader } :: outer }.enter file content))
        (do
          let (stop, m) ← enter (.ofRun run (frame.file :: below)) file content
          .ok (stop, m, .ofReader t reader))

section Follows

open Scanner Machine

variable {disk : Files.Disk} {dirs : List Text} {enter : Enter} {t : Text} {run : Run}
  {frame : Frame} {outer : List Frame} {below : List Files.Address} {r : Reader}

theorem parseDefine_follows (h : (Reader.ofText t).LeadsTo r) :
    Follows enter t run frame outer below
      (carryOut disk dirs run frame outer (Construct.readDefine r))
      (parseDefine (ofRun run (frame.file :: below)) (ofReader t r)) := by
  have hblanks := h.trans (Reader.leadsTo_skipBlanks r)
  have hname := hblanks.trans (Reader.leadsTo_readIdentifier _)
  rw [parseDefine, skipBlanks_ofReader h, ok_bind, readIdentifier_ofReader hblanks, ok_bind,
    Construct.readDefine]
  dsimp only
  cases hread : r.skipBlanks.readIdentifier with
  | mk name behind =>
    replace hname : (Reader.ofText t).LeadsTo behind := by rwa [hread] at hname
    cases name with
    | nil => exact .failed ..
    | cons b name =>
      have hvalue := hname.trans (Reader.leadsTo_skipBlanks behind)
      have hline := hvalue.trans (Reader.leadsTo_readLine _)
      dsimp only
      rw [List.isEmpty_cons, if_neg Bool.false_ne_true, skipBlanks_ofReader hname, ok_bind,
        readLine_ofReader hvalue, ok_bind]
      dsimp only
      rw [define_ofRun, ok_bind, skipLine_ofReader hline, ok_bind]
      exact .moved (hline.trans (Reader.leadsTo_skipLine _)) rfl

theorem parseUndefine_follows (h : (Reader.ofText t).LeadsTo r) :
    Follows enter t run frame outer below
      (carryOut disk dirs run frame outer (.ok (Construct.readUndefine r)))
      (parseUndefine (ofRun run (frame.file :: below)) (ofReader t r)) := by
  have hblanks := h.trans (Reader.leadsTo_skipBlanks r)
  have hname := hblanks.trans (Reader.leadsTo_readIdentifier _)
  rw [ofRun_frames run ({ frame with reader := (Construct.readUndefine r).2 } :: outer),
    parseUndefine, skipBlanks_ofReader h, ok_bind, readIdentifier_ofReader hblanks, ok_bind]
  dsimp only
  rw [place_ofRun, ok_bind, undefine_ofRun, skipLine_ofReader hname, ok_bind]
  exact .moved (hname.trans (Reader.leadsTo_skipLine _)) (Run.undefine_frames ..)

theorem parseOpening_follows (start : Position) (h : (Reader.ofText t).LeadsTo r) :
    Follows enter t run frame outer below
      (carryOut disk dirs run frame outer (Construct.readOpening start r))
      (parseOpening start (ofRun run (frame.file :: below)) (ofReader t r)) := by
  have hblanks := h.trans (Reader.leadsTo_skipBlanks r)
  have hname := hblanks.trans (Reader.leadsTo_readIdentifier _)
  rw [parseOpening, skipBlanks_ofReader h, ok_bind, readIdentifier_ofReader hblanks, ok_bind,
    Construct.readOpening]
  dsimp only
  cases hread : r.skipBlanks.readIdentifier with
  | mk name behind =>
    replace hname : (Reader.ofText t).LeadsTo behind := by rwa [hread] at hname
    cases name with
    | nil => exact .failed ..
    | cons b name =>
      dsimp only
      rw [List.isEmpty_cons, if_neg Bool.false_ne_true, place_ofRun, ok_bind,
        skipLine_ofReader hname, ok_bind]
      exact .moved (hname.trans (Reader.leadsTo_skipLine _)) rfl

theorem parseClosing_follows (start : Position) (h : (Reader.ofText t).LeadsTo r) :
    Follows enter t run frame outer below
      (carryOut disk dirs run frame outer (.ok (.closeBlock start, r.skipLine)))
      (parseClosing start (ofRun run (frame.file :: below)) (ofReader t r)) := by
  have hblocks : (ofRun run (frame.file :: below)).blocks = run.blocks := rfl
  rw [parseClosing, carryOut, Run.execute, hblocks]
  cases hpop : run.blocks.pop? with
  | none =>
    rw [if_pos (by rw [isEmpty_eq_isNone_pop?, hpop]; rfl), place_ofRun, ok_bind]
    exact .failed ..
  | some result =>
    obtain ⟨block, blocks⟩ := result
    rw [if_neg (by rw [isEmpty_eq_isNone_pop?, hpop]; exact Bool.false_ne_true),
      closeBlock_ofRun hpop, ok_bind, skipLine_ofReader h, ok_bind]
    exact .moved (h.trans (Reader.leadsTo_skipLine _)) rfl

theorem parseInclude_follows (h : (Reader.ofText t).LeadsTo r) :
    Follows enter t run frame outer below
      (carryOut disk dirs run frame outer (Construct.readInclude r))
      (parseInclude disk dirs enter (ofRun run (frame.file :: below)) (ofReader t r)) := by
  have hblanks := h.trans (Reader.leadsTo_skipBlanks r)
  have hliteral := hblanks.trans (Reader.leadsTo_readLiteral _)
  rw [parseInclude, skipBlanks_ofReader h, ok_bind, place_ofRun, ok_bind,
    readLiteral_ofReader hblanks, ok_bind, Construct.readInclude]
  dsimp only
  cases hread : r.skipBlanks.readLiteral with
  | mk literal behind =>
    replace hliteral : (Reader.ofText t).LeadsTo behind := by rwa [hread] at hliteral
    cases literal with
    | error e => exact .failed ..
    | ok literal =>
      dsimp only
      split
      · exact .failed ..
      · rw [skipLine_ofReader hliteral, ok_bind, includeFile, carryOut, Run.execute,
          Run.includeFile]
        have hleads := hliteral.trans (Reader.leadsTo_skipLine _)
        have hpath : (frame.place (ofReader t r.skipBlanks).cursor).path = frame.file.path := rfl
        have hprocessed : (ofRun run (frame.file :: below)).processed.getD [] = run.processed := rfl
        rw [hpath, hprocessed]
        cases Lookup.find disk (Path.directory frame.file.path) dirs literal.value with
        | error problem => exact .failed ..
        | ok found =>
          obtain ⟨file, content⟩ := found
          dsimp only
          split
          · exact .moved hleads rfl
          · exact .entered file content hleads

theorem parseDirective_follows (h : (Reader.ofText t).LeadsTo r) :
    Follows enter t run frame outer below
      (carryOut disk dirs run frame outer (Construct.readDirective r))
      (parseDirective disk dirs enter (ofRun run (frame.file :: below)) (ofReader t r)) := by
  have hmark := h.trans (Reader.leadsTo_skip 1 r)
  have hblanks := hmark.trans (Reader.leadsTo_skipBlanks _)
  have hkeyword := hblanks.trans (Reader.leadsTo_readIdentifier _)
  rw [parseDirective, next_ofReader h, ok_bind]
  dsimp only
  rw [skipBlanks_ofReader hmark, ok_bind, readIdentifier_ofReader hblanks, ok_bind,
    Construct.readDirective, Reader.readKeyword]
  dsimp only
  cases Directive.ofKeyword? (r.skip 1).skipBlanks.readIdentifier.1 with
  | none => exact .failed ..
  | some directive =>
    cases directive with
    | includeFile => exact parseInclude_follows hkeyword
    | define => exact parseDefine_follows hkeyword
    | undefine => exact parseUndefine_follows hkeyword
    | ifDefined => exact parseOpening_follows r.position hkeyword
    | endIf => exact parseClosing_follows r.position hkeyword

/-- The next character is the one with the code point. -/
theorem any_head?_eq_sees (r : Reader) (code : Nat) :
    (r.rest.head?.any fun c => c.code == code) = r.sees code := by
  unfold Reader.sees Reader.peek?
  cases r.rest <;> rfl

theorem expand_follows (h : (Reader.ofText t).LeadsTo r) :
    Follows enter t run frame outer below
      (carryOut disk dirs run frame outer (Construct.readExpansion r))
      (expand (ofRun run (frame.file :: below)) (ofReader t r)) := by
  have hmark := h.trans (Reader.leadsTo_skip 1 r)
  have hname := hmark.trans (Reader.leadsTo_readIdentifier _)
  rw [expand, next_ofReader h, ok_bind]
  dsimp only
  rw [readIdentifier_ofReader hmark, ok_bind, Construct.readExpansion]
  dsimp only
  cases hread : (r.skip 1).readIdentifier with
  | mk name behind =>
    replace hname : (Reader.ofText t).LeadsTo behind := by rwa [hread] at hname
    cases name with
    | nil => exact .failed ..
    | cons b name =>
      dsimp only
      rw [List.isEmpty_cons, if_neg Bool.false_ne_true, look_ofReader hname, ok_bind,
        any_head?_eq_sees]
      split
      · have hmacros : (ofRun run (frame.file :: below)).macros.bind (·.get? (b :: name)) =
            run.macros.get? (b :: name) := rfl
        have hleads := hname.trans (Reader.leadsTo_skip 1 behind)
        rw [next_ofReader hname, ok_bind, hmacros, carryOut, Run.execute]
        dsimp only
        cases run.macros.get? (b :: name) with
        | none => exact .moved hleads rfl
        | some value => exact .moved hleads rfl
      · exact .failed ..

theorem skipInactiveLine_follows (hskip : run.isSkipping = true)
    (h : (Reader.ofText t).LeadsTo r) :
    Follows enter t run frame outer below
      (.ok ({ run with frames := { frame with reader := (SkippedLine.read r).2 } :: outer }.skipLine
        frame (SkippedLine.read r).1))
      (skipInactiveLine (ofRun run (frame.file :: below)) (ofReader t r)) := by
  have hblanks := h.trans (Reader.leadsTo_skipBlanks r)
  rw [skipInactiveLine, skipBlanks_ofReader h, ok_bind, look_ofReader hblanks, ok_bind,
    any_head?_eq_sees, SkippedLine.read]
  dsimp only
  split
  · have hmark := hblanks.trans (Reader.leadsTo_skip 1 _)
    have hkeyword := hblanks.trans (Reader.leadsTo_readKeyword _)
    have hleads := hkeyword.trans (Reader.leadsTo_skipLine _)
    have hread : (ofReader t (r.skipBlanks.skip 1).skipBlanks).readIdentifier =
        .ok (r.skipBlanks.readKeyword.1, ofReader t r.skipBlanks.readKeyword.2) :=
      readIdentifier_ofReader (hmark.trans (Reader.leadsTo_skipBlanks _))
    rw [next_ofReader hblanks, ok_bind]
    dsimp only
    rw [skipBlanks_ofReader hmark, ok_bind, hread, ok_bind]
    dsimp only
    cases Directive.ofKeyword? r.skipBlanks.readKeyword.1 with
    | none =>
      dsimp only
      rw [ok_bind, skipLine_ofReader hkeyword, ok_bind]
      exact .moved hleads rfl
    | some directive =>
      cases directive with
      | ifDefined =>
        dsimp only
        rw [place_ofRun, ok_bind, ok_bind, skipLine_ofReader hkeyword, ok_bind]
        exact .moved hleads rfl
      | endIf =>
        dsimp only
        -- The innermost block is skipped, so there is one.
        obtain ⟨block, blocks, hpop⟩ : ∃ block blocks, run.blocks.pop? = some (block, blocks) := by
          unfold Run.isSkipping Stack.top? at hskip
          unfold Stack.pop?
          split
          · rename_i hnil
            rw [hnil] at hskip
            cases hskip
          · exact ⟨_, _, rfl⟩
        rw [closeBlock_ofRun hpop, ok_bind, skipLine_ofReader hkeyword, ok_bind, Run.skipLine, hpop]
        exact .moved hleads rfl
      | _ =>
        dsimp only
        rw [ok_bind, skipLine_ofReader hkeyword, ok_bind]
        exact .moved hleads rfl
  · rw [skipLine_ofReader hblanks, ok_bind]
    exact .moved (hblanks.trans (Reader.leadsTo_skipLine _)) rfl

/-- A guarded step in a file that is not at its end does what a step does. -/
theorem step_follows (hframes : run.frames = frame :: outer) (hrest : frame.reader.rest ≠ [])
    (h : (Reader.ofText t).LeadsTo frame.reader) :
    Follows enter t run frame outer below (run.step disk dirs)
      (step disk dirs enter (ofRun run (frame.file :: below)) (ofReader t frame.reader)) := by
  rw [step, isSkipping_ofRun, ok_bind]
  cases hskip : run.isSkipping with
  | true =>
    rw [if_pos rfl, Run.step_of_skipping hframes hrest hskip]
    exact skipInactiveLine_follows hskip h
  | false =>
    have hstep : run.step disk dirs =
        carryOut disk dirs run frame outer (Construct.read frame.reader) := by
      cases hread : Construct.read frame.reader with
      | error e => exact Run.step_of_flaw hframes hrest hskip hread
      | ok result => exact Run.step_of_construct hframes hrest hskip hread
    rw [if_neg Bool.false_ne_true, hstep, look_ofReader h, ok_bind, any_head?_eq_sees,
      any_head?_eq_sees, any_head?_eq_sees, Construct.read]
    split
    · exact parseDirective_follows h
    split
    · exact expand_follows h
    split
    · have hliteral := h.trans (Reader.leadsTo_readLiteral _)
      rw [readLiteral_ofReader h, ok_bind]
      cases hread : frame.reader.readLiteral with
      | mk literal behind =>
        rw [hread] at hliteral
        cases literal with
        | error e => exact .failed ..
        | ok literal => exact .moved hliteral rfl
    have hline : (ofReader t frame.reader).beginsWith [Byte.slash, Byte.slash] =
        .ok (frame.reader.seesPair Code.slash Code.slash) :=
      beginsWith_ofReader h (by decide) (by decide)
    have hblock : (ofReader t frame.reader).beginsWith Text.opening =
        .ok (frame.reader.seesPair Code.slash Code.star) :=
      beginsWith_ofReader h (by decide) (by decide)
    rw [hline, ok_bind, hblock, ok_bind]
    split
    · rw [skipLine_ofReader h, ok_bind]
      exact .moved (h.trans (Reader.leadsTo_skipLine _)) rfl
    split
    · have hcomment := h.trans (Reader.leadsTo_skipComment _)
      rw [skipComment_ofReader h, ok_bind]
      cases hread : frame.reader.skipComment with
      | mk result behind =>
        rw [hread] at hcomment
        cases result with
        | error e => exact .failed ..
        | ok => exact .moved hcomment rfl
    · have hnext := Reader.reads_skip 1 frame.reader
      have hsince : (ofReader t (frame.reader.skip 1)).since (ofReader t frame.reader).cursor =
          .ok (Text.ofCharacters (frame.reader.rest.take 1)) := since_ofReader h hnext
      rw [next_ofReader h, ok_bind]
      dsimp only
      rw [hsince, ok_bind]
      exact .moved (h.trans ⟨_, hnext⟩) rfl

end Follows

end XsPrep.Guarded
