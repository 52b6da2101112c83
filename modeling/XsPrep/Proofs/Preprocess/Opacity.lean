import XsPrep.Proofs.Ordered.Tables
import XsPrep.Proofs.Preprocess.Emission

/-!
# Values of macros

A run asks whether a macro is bound, and it copies values to the output.  It never
looks into a value.  So two runs whose macros have the same names go the same way:
they stay alike (`Twins`) from step to step (`step_twins`) and on the whole way
(`Steps.twins`), and only the values that they hold and copy differ.

What a name is bound to is what the last directive about it said, or what it was
bound to at the beginning (`Steps.get?_eq`).  The directives are the same in both
runs, so the values differ at most for the names that no directive was about, and
the outputs at most where such a name is expanded (`Session.values_opaque`).
-/

namespace XsPrep

/-- What a reading binds a name to, or that it unbinds it.  There is nothing if it
leaves the name alone. -/
def Reading.rebinding? (name : Text) : Reading → Option (Option Text)
  | .construct (.define other value) => if other = name then some (some value) else none
  | .construct (.undefine other _) => if other = name ∧ other ≠ [] then some none else none
  | _ => none

namespace Run

variable {disk : Files.Disk} {dirs : List Text} {run next last run' : Run} {frame : Frame}
  {outer : List Frame} {name : Text}

/-! ## Bindings -/

/-- What the next step binds a name to, or that it unbinds it. -/
def rebinding? (run : Run) (name : Text) : Option (Option Text) :=
  run.passage?.bind fun passage => passage.reading.rebinding? name

theorem skipLine_macros (run : Run) (frame : Frame) (line : SkippedLine) :
    (run.skipLine frame line).macros = run.macros := by
  unfold skipLine
  split
  · rfl
  · split <;> rfl
  · rfl

theorem undefine_of_bound (hname : name ≠ []) (hbound : run.macros.contains name = true)
    (place : Place) : run.undefine name place = { run with macros := run.macros.erase name } := by
  simp [undefine, Macros.undefine?, hname, hbound]

theorem undefine_of_unbound (hname : name ≠ []) (hbound : run.macros.contains name = false)
    (place : Place) : run.undefine name place = run.warn (.notDefined name) place := by
  simp [undefine, Macros.undefine?, hname, hbound]

theorem undefine_get? (run : Run) (other : Text) (place : Place) (name : Text) :
    (run.undefine other place).macros.get? name =
      if other = name ∧ other ≠ [] then none else run.macros.get? name := by
  by_cases hother : other = []
  · simp [undefine, warn, hother]
  cases hbound : run.macros.contains other with
  | true =>
    rw [undefine_of_bound hother hbound]
    simp [Table.get?_erase, hother]
  | false =>
    rw [undefine_of_unbound hother hbound]
    by_cases hname : other = name
    · have hnone : run.macros.get? name = none := by
        rw [hname] at hbound
        simpa [Table.contains] using hbound
      simp [warn, hnone]
    · simp [warn, hname]

theorem execute_get? {construct : Construct}
    (h : run.execute disk dirs frame construct = .ok next) (name : Text) :
    next.macros.get? name =
      ((Reading.construct construct).rebinding? name).getD (run.macros.get? name) := by
  cases construct with
  | define other value =>
    cases h
    simp only [Macros.define, Table.get?_insert, Reading.rebinding?]
    split <;> rfl
  | undefine other position =>
    cases h
    rw [undefine_get?, Reading.rebinding?]
    split <;> rfl
  | expansion other =>
    simp only [execute] at h
    split at h <;> (cases h; rfl)
  | closeBlock position =>
    simp only [execute] at h
    split at h
    · cases h
      rfl
    · cases h
  | includeFile other position =>
    obtain ⟨file, content, -, ⟨-, rfl⟩ | ⟨-, rfl⟩⟩ := execute_include h
    · rfl
    · rfl
  | _ =>
    cases h
    rfl

theorem step_get? (hrun : run.frames ≠ []) (hstep : run.step disk dirs = .ok next)
    (name : Text) :
    next.macros.get? name = (run.rebinding? name).getD (run.macros.get? name) := by
  obtain ⟨frame, outer, hframes⟩ := List.exists_cons_of_ne_nil hrun
  cases step_move hframes hstep with
  | leave hend =>
    rw [rebinding?, passage?_of_end hframes hend]
    rfl
  | skip hrest hskip hread =>
    rw [rebinding?, passage?_of_skipping hframes hrest hskip, skipLine_macros]
    rfl
  | read hrest hskip hread hexecute =>
    rw [rebinding?, passage?_of_construct hframes hrest hskip hread]
    exact execute_get? hexecute name

/-- What the steps from the states of a way bind a name to, in order. -/
def rebindings (name : Text) (visited : List Run) : List (Option Text) :=
  visited.filterMap (·.rebinding? name)

/-- A name is bound to what the last step about it said, or as at the beginning. -/
theorem Steps.get?_eq {visited : List Run} (h : Steps disk dirs run visited last)
    (name : Text) :
    last.macros.get? name = (rebindings name visited).getLast?.getD (run.macros.get? name) := by
  induction h with
  | refl run => rfl
  | @head run next last visited hrun hstep _ ih =>
    rw [ih, step_get? hrun hstep, rebindings, rebindings, List.filterMap_cons]
    cases run.rebinding? name with
    | none => rfl
    | some bound => simp [List.getLast?_cons]

/-- The directives that were read decide. -/
theorem rebindings_eq (name : Text) (visited : List Run) :
    rebindings name visited =
      (visited.filterMap passage?).filterMap fun passage => passage.reading.rebinding? name := by
  rw [List.filterMap_filterMap]
  rfl

/-! ## Runs that are alike -/

/-- Two runs are alike: they differ in the values of their macros and in the texts of
their output only. -/
structure Twins (run run' : Run) : Prop where
  names : ∀ name, run.macros.contains name = run'.macros.contains name
  blocks : run.blocks = run'.blocks
  processed : run.processed = run'.processed
  frames : run.frames = run'.frames
  warned : run.warned = run'.warned
  length : run.emitted.length = run'.emitted.length

/-- Two results are alike: the same failure, or runs that are alike. -/
inductive TwinResults : Except Stop Run → Except Stop Run → Prop where
  | stop (stop : Stop) : TwinResults (.error stop) (.error stop)
  | next {run run' : Run} (h : Twins run run') : TwinResults (.ok run) (.ok run')

namespace Twins

theorem isSkipping (h : Twins run run') : run.isSkipping = run'.isSkipping := by
  rw [Run.isSkipping, Run.isSkipping, h.blocks]

theorem passage? (h : Twins run run') : run.passage? = run'.passage? := by
  rw [Run.passage?, Run.passage?, h.frames, h.isSkipping]

theorem rebinding? (h : Twins run run') (name : Text) :
    run.rebinding? name = run'.rebinding? name := by
  rw [Run.rebinding?, Run.rebinding?, h.passage?]

theorem fragments_length (h : Twins run run') :
    run.fragments.length = run'.fragments.length := by
  rw [Run.fragments, Run.fragments, List.length_reverse, List.length_reverse, h.length]

theorem emit (h : Twins run run') (fragment fragment' : Text) :
    Twins (run.emit fragment) (run'.emit fragment') :=
  { h with length := congrArg (· + 1) h.length }

theorem warn (h : Twins run run') (advice : Advice) (place : Place) :
    Twins (run.warn advice place) (run'.warn advice place) :=
  { h with warned := congrArg (advice.warning place :: ·) h.warned }

theorem withFrames (h : Twins run run') (frames : List Frame) :
    Twins { run with frames } { run' with frames } :=
  { h with frames := rfl }

theorem withBlocks (h : Twins run run') (blocks : Stack Block) :
    Twins { run with blocks } { run' with blocks } :=
  { h with blocks := rfl }

theorem openBlock (h : Twins run run') (block : Block) :
    Twins (run.openBlock block) (run'.openBlock block) :=
  { h with blocks := congrArg (·.push block) h.blocks }

theorem skipLine (h : Twins run run') (frame : Frame) (line : SkippedLine) :
    Twins (run.skipLine frame line) (run'.skipLine frame line) := by
  cases line with
  | opens position => exact h.openBlock _
  | closes =>
    simp only [Run.skipLine]
    rw [← h.blocks]
    split
    · exact h.withBlocks _
    · exact h
  | other => exact h

theorem define (h : Twins run run') (name value : Text) :
    Twins { run with macros := run.macros.define name value }
      { run' with macros := run'.macros.define name value } := by
  refine { h with names := fun other => ?_ }
  have hother := h.names other
  simp only [Table.contains, Macros.define, Table.get?_insert] at hother ⊢
  split
  · rfl
  · exact hother

theorem undefine (h : Twins run run') (name : Text) (place : Place) :
    Twins (run.undefine name place) (run'.undefine name place) := by
  by_cases hname : name = []
  · subst hname
    exact h.warn _ _
  have hnames := h.names name
  cases hbound : run.macros.contains name with
  | true =>
    rw [hbound] at hnames
    rw [undefine_of_bound hname hbound, undefine_of_bound hname hnames.symm]
    refine { h with names := fun other => ?_ }
    have hother := h.names other
    simp only [Table.contains, Table.get?_erase] at hother ⊢
    split
    · rfl
    · exact hother
  | false =>
    rw [hbound] at hnames
    rw [undefine_of_unbound hname hbound, undefine_of_unbound hname hnames.symm]
    exact h.warn _ _

theorem enter (h : Twins run run') (file : Files.Address) (content : Text) :
    Twins (run.enter file content) (run'.enter file content) :=
  { h with
    processed := congrArg (file :: ·) h.processed
    frames := congrArg (Frame.mk file (.ofText content) :: ·) h.frames }

theorem includeFile (h : Twins run run') (frame : Frame) (name : Text) (place : Place) :
    TwinResults (run.includeFile disk dirs frame name place)
      (run'.includeFile disk dirs frame name place) := by
  rw [Run.includeFile, Run.includeFile, ← h.processed]
  split
  · exact .stop _
  · split
    · exact .next (h.warn _ _)
    · exact .next (h.enter _ _)

/-- An expansion adds a value to both outputs or to none. -/
theorem expand (h : Twins run run') (frame : Frame) (name : Text) :
    TwinResults (run.execute disk dirs frame (.expansion name))
      (run'.execute disk dirs frame (.expansion name)) := by
  have hname := h.names name
  rw [Table.contains, Table.contains] at hname
  simp only [Run.execute]
  cases hvalue : run.macros.get? name with
  | none =>
    rw [hvalue] at hname
    have hvalue' : run'.macros.get? name = none := by simpa using hname.symm
    rw [hvalue']
    exact .next h
  | some value =>
    rw [hvalue] at hname
    obtain ⟨value', hvalue'⟩ := Option.isSome_iff_exists.mp hname.symm
    rw [hvalue']
    exact .next (h.emit value value')

theorem execute (h : Twins run run') (frame : Frame) (construct : Construct) :
    TwinResults (run.execute disk dirs frame construct)
      (run'.execute disk dirs frame construct) := by
  cases construct with
  | literal raw => exact .next (h.emit raw raw)
  | comment => exact .next h
  | character raw => exact .next (h.emit raw raw)
  | expansion name => exact h.expand frame name
  | define name value => exact .next (h.define name value)
  | undefine name position => exact .next (h.undefine name _)
  | openBlock name position =>
    simp only [Run.execute]
    rw [h.names name]
    exact .next (h.openBlock _)
  | closeBlock position =>
    simp only [Run.execute]
    rw [← h.blocks]
    split
    · exact .next (h.withBlocks _)
    · exact .stop _
  | includeFile name position => exact h.includeFile frame name _

end Twins

/-- Runs that are alike take the same step, and are alike behind it. -/
theorem step_twins (disk : Files.Disk) (dirs : List Text) (h : Twins run run') :
    TwinResults (run.step disk dirs) (run'.step disk dirs) := by
  rw [step, step, ← h.frames, ← h.isSkipping]
  split
  · exact .next h
  · split
    · exact .next (h.withFrames _)
    · split
      · exact .next ((h.withFrames _).skipLine _ _)
      · split
        · exact .stop _
        · exact (h.withFrames _).execute _ _

/-- A step of the one run is a step of the other. -/
theorem Twins.step_ok (h : Twins run run') (hstep : run.step disk dirs = .ok next) :
    ∃ next', run'.step disk dirs = .ok next' ∧ Twins next next' := by
  have htwins := step_twins disk dirs h
  rw [hstep] at htwins
  generalize run'.step disk dirs = result at htwins ⊢
  cases htwins with
  | next hnext => exact ⟨_, rfl, hnext⟩

theorem Twins.step_error (h : Twins run run') {stop : Stop}
    (hstep : run.step disk dirs = .error stop) : run'.step disk dirs = .error stop := by
  have htwins := step_twins disk dirs h
  rw [hstep] at htwins
  generalize run'.step disk dirs = result at htwins ⊢
  cases htwins with
  | stop => rfl

/-- Where the one run gets, the other gets too, past the same passages. -/
theorem Steps.twins {visited : List Run} (h : Steps disk dirs run visited last)
    (htwins : Twins run run') :
    ∃ visited' last', Steps disk dirs run' visited' last' ∧ Twins last last' ∧
      visited.filterMap passage? = visited'.filterMap passage? := by
  induction h generalizing run' with
  | refl run => exact ⟨[], run', .refl run', htwins, rfl⟩
  | head hrun hstep _ ih =>
    obtain ⟨next', hstep', hnext⟩ := htwins.step_ok hstep
    obtain ⟨visited', last', hsteps', hlast, hpassages⟩ := ih hnext
    refine ⟨run' :: visited', last', .head (htwins.frames ▸ hrun) hstep' hsteps', hlast, ?_⟩
    rw [filterMap_passage?_cons, filterMap_passage?_cons, htwins.passage?, hpassages]

/-! ## What differs in the output -/

/-- The name that the next step expands. -/
def expanding? (run : Run) : Option Text :=
  match run.passage? with
  | some ⟨_, _, .construct (.expansion name)⟩ => some name
  | _ => none

theorem emission_length_le (run : Run) : run.emission.length ≤ 1 := by
  rw [emission]
  cases run.passage? with
  | none => simp
  | some passage =>
    simp only [Option.map_some, Option.getD_some, Reading.emission]
    split
    · simp
    · simp
    · exact Option.length_toList_le
    · simp

/-- Each fragment of the output was added by a step. -/
theorem Steps.origin {visited : List Run} (h : Steps disk dirs run visited last) {k : Nat}
    {fragment : Text} (hfragment : last.fragments[k]? = some fragment) :
    run.fragments[k]? = some fragment ∨
      ∃ earlier state later, visited = earlier ++ state :: later ∧
        state.fragments.length = k ∧ state.emission = [fragment] := by
  induction h with
  | refl run => exact .inl hfragment
  | @head run next last visited hrun hstep hsteps ih =>
    rcases ih hfragment with hnext | ⟨earlier, state, later, rfl, hstate⟩
    · rw [step_fragments hrun hstep, List.getElem?_append] at hnext
      split at hnext
      · exact .inl hnext
      · rename_i hk
        refine .inr ⟨[], run, visited, rfl, ?_⟩
        have hlength := run.emission_length_le
        cases hemission : run.emission with
        | nil => simp [hemission] at hnext
        | cons first rest =>
          rw [hemission, List.length_cons] at hlength
          have hrest : rest = [] := List.length_eq_zero_iff.mp (by omega)
          rw [hemission, hrest, List.getElem?_singleton] at hnext
          split at hnext
          · cases hnext
            exact ⟨by omega, by rw [hrest]⟩
          · cases hnext
    · exact .inr ⟨run :: earlier, state, later, rfl, hstate⟩

/-- Runs that are alike add a text or not, and it is the same one unless a name is
expanded. -/
theorem Twins.emission (h : Twins run run') {fragment : Text}
    (hfragment : run.emission = [fragment]) :
    ∃ fragment', run'.emission = [fragment'] ∧ (fragment = fragment' ∨
      ∃ name, run.expanding? = some name ∧ run'.expanding? = some name ∧
        run.macros.get? name = some fragment ∧ run'.macros.get? name = some fragment') := by
  rw [Run.emission] at hfragment ⊢
  rw [expanding?, expanding?, ← h.passage?]
  cases hpassage : run.passage? with
  | none => simp [hpassage] at hfragment
  | some passage =>
    obtain ⟨file, reader, reading⟩ := passage
    simp only [hpassage, Option.map_some, Option.getD_some, Reading.emission] at hfragment ⊢
    split at hfragment
    · exact ⟨_, rfl, .inl (List.singleton_inj.mp hfragment).symm⟩
    · exact ⟨_, rfl, .inl (List.singleton_inj.mp hfragment).symm⟩
    · rename_i name
      have hvalue : run.macros.get? name = some fragment := by
        simpa using hfragment
      have hbound := h.names name
      rw [Table.contains, Table.contains, hvalue] at hbound
      obtain ⟨fragment', hvalue'⟩ := Option.isSome_iff_exists.mp hbound.symm
      exact ⟨fragment', by rw [hvalue']; rfl, .inr ⟨name, rfl, rfl, hvalue, hvalue'⟩⟩
    · cases hfragment

/-- A fragment of the one output stands in the other as well, or a name was expanded
there that no directive had been about. -/
theorem Steps.fragment_twins {start start' : Run} {visited : List Run}
    (h : Steps disk dirs start visited last) (htwins : Twins start start')
    (hstart : start.fragments = []) {k : Nat} {fragment : Text}
    (hfragment : last.fragments[k]? = some fragment) :
    ∃ earlier state later earlier' state' later' last' fragment',
      visited = earlier ++ state :: later ∧
      Steps disk dirs start' (earlier' ++ state' :: later') last' ∧ Twins last last' ∧
      state.fragments.length = k ∧ state'.fragments.length = k ∧
      last'.fragments[k]? = some fragment' ∧
      (fragment = fragment' ∨ ∃ name,
        state.expanding? = some name ∧ state'.expanding? = some name ∧
        rebindings name earlier = [] ∧ rebindings name earlier' = [] ∧
        start.macros.get? name = some fragment ∧ start'.macros.get? name = some fragment') := by
  obtain hnone | ⟨earlier, state, later, rfl, hlength, hemission⟩ := h.origin hfragment
  · simp [hstart] at hnone
  obtain ⟨hbefore, rest, hrest, heq⟩ := h.cut
    (show earlier ++ state :: later ++ [last] = earlier ++ state :: (later ++ [last]) by simp)
  obtain rfl : state :: later = rest := by
    rw [← List.cons_append] at heq
    exact List.append_cancel_right heq
  obtain ⟨earlier', state', hbefore', hstate, hpassages⟩ := hbefore.twins htwins
  obtain ⟨fragment', hemission', hvalues⟩ := hstate.emission hemission
  have hlength' : state'.fragments.length = k := hstate.fragments_length ▸ hlength
  cases hrest with
  | head hrun hstep hafter =>
  obtain ⟨next', hstep', hnext⟩ := hstate.step_ok hstep
  obtain ⟨later', last', hafter', hlast, -⟩ := hafter.twins hnext
  have hrest' : Steps disk dirs state' (state' :: later') last' :=
    .head (hstate.frames ▸ hrun) hstep' hafter'
  refine ⟨earlier, state, later, earlier', state', later', last', fragment', rfl,
    hbefore'.trans hrest', hlast, hlength, hlength', ?_, ?_⟩
  · rw [hrest'.fragments, List.flatMap_cons, hemission', ← hlength']
    simp
  · rcases hvalues with hsame | ⟨name, hname, hname', hvalue, hvalue'⟩
    · exact .inl hsame
    -- Behind a directive about the name both runs hold the value that it gave.
    have hrebindings : rebindings name earlier = rebindings name earlier' := by
      rw [rebindings_eq, rebindings_eq, hpassages]
    rw [hbefore.get?_eq] at hvalue
    rw [hbefore'.get?_eq, ← hrebindings] at hvalue'
    cases hkept : rebindings name earlier with
    | nil =>
      rw [hkept] at hrebindings hvalue hvalue'
      exact .inr ⟨name, hname, hname', hkept, hrebindings.symm, hvalue, hvalue'⟩
    | cons first others =>
      rw [hkept, List.getLast?_cons] at hvalue hvalue'
      exact .inl (Option.some.inj (hvalue.symm.trans hvalue'))

/-! ## The end of a run -/

theorem Twins.ofMacros {macros macros' : Macros} (h : macros.keys = macros'.keys) :
    Twins (ofMacros macros) (ofMacros macros') :=
  ⟨Table.keys_eq_iff.mp h, rfl, rfl, rfl, rfl, rfl⟩

theorem Twins.warnUnclosed (h : Twins run run') :
    Twins run.warnUnclosed run'.warnUnclosed := by
  rw [Run.warnUnclosed, Run.warnUnclosed, ← h.blocks]
  split
  · exact h.warn _ _
  · exact h

theorem Twins.abandon (h : Twins run run') : Twins run.abandon run'.abandon :=
  { h with frames := rfl, length := rfl }

end Run

namespace Session

variable {session session' : Session} {disk : Files.Disk} {root : Text}

/-- At fragment `k` of the output, the run over a root file expands `name`, and no
directive before was about this name. -/
def ExpandsPredefined (session : Session) (disk : Files.Disk) (root : Text) (k : Nat)
    (name : Text) : Prop :=
  ∃ earlier state later, session.states disk root = earlier ++ state :: later ∧
    state.fragments.length = k ∧ state.expanding? = some name ∧
    Run.rebindings name earlier = []

theorem opened_twins (hnames : session.settings.predefined.keys = session'.settings.predefined.keys)
    {start : Run} (hopened : session.opened disk root = .ok start) :
    ∃ start', session'.opened disk root = .ok start' ∧ Run.Twins start start' := by
  cases hfetch : disk.fetch (disk.canonical root) with
  | error failure =>
    rw [opened, hfetch] at hopened
    cases hopened
  | ok result =>
    obtain ⟨file, content⟩ := result
    rw [opened_of_fetch session hfetch] at hopened
    cases hopened
    exact ⟨_, opened_of_fetch session' hfetch, (Run.Twins.ofMacros hnames).enter file content⟩

theorem unopened_twins (session' : Session) {failure : Files.Failure}
    (hopened : session.opened disk root = .error failure) :
    session'.opened disk root = .error failure := by
  cases hfetch : disk.fetch (disk.canonical root) with
  | error failure' =>
    rw [opened, hfetch] at hopened ⊢
    exact hopened
  | ok result =>
    rw [opened, hfetch] at hopened
    cases hopened

/-- Runs over the same root file end alike. -/
theorem process_twins (disk : Files.Disk) (root : Text)
    (hdirs : session.settings.includeDirectories = session'.settings.includeDirectories)
    (hnames : session.settings.predefined.keys = session'.settings.predefined.keys) :
    (session.process disk root).1 = (session'.process disk root).1 ∧
    Run.Twins (session.process disk root).2.run (session'.process disk root).2.run ∧
    session.passages disk root = session'.passages disk root := by
  cases session.course disk root with
  | unopened failure hopened hprocess =>
    have hopened' := unopened_twins session' hopened
    rw [hprocess, process_of_unopened hopened', passages, passages, states_of_unopened hopened,
      states_of_unopened hopened']
    exact ⟨rfl, .ofMacros hnames, rfl⟩
  | finished start last visited hopened hsteps hframes hprocess =>
    obtain ⟨start', hopened', hstart⟩ := opened_twins hnames hopened
    rw [hdirs] at hsteps
    obtain ⟨visited', last', hsteps', hlast, hpassages⟩ := hsteps.twins hstart
    have hframes' : last'.frames = [] := hlast.frames ▸ hframes
    have hfinish := Run.finish_eq_ok_iff.mpr ⟨visited', hsteps', hframes'⟩
    rw [hprocess, process_of_opened hopened', hfinish, passages, passages,
      states_of_steps hopened (hdirs ▸ hsteps) (.inl hframes),
      states_of_steps hopened' hsteps' (.inl hframes'), List.dropLast_concat,
      List.dropLast_concat]
    exact ⟨rfl, hlast.warnUnclosed, hpassages⟩
  | stopped start last visited stop hopened hsteps hframes hstop hprocess =>
    obtain ⟨start', hopened', hstart⟩ := opened_twins hnames hopened
    rw [hdirs] at hsteps hstop
    obtain ⟨visited', last', hsteps', hlast, hpassages⟩ := hsteps.twins hstart
    have hframes' : last'.frames ≠ [] := hlast.frames ▸ hframes
    have hstop' := hlast.step_error hstop
    have hfinish := Run.finish_eq_error_iff.mpr ⟨visited', hsteps', hframes', hstop'⟩
    rw [hprocess, process_of_opened hopened', hfinish, passages, passages,
      states_of_steps hopened (hdirs ▸ hsteps) (.inr ⟨stop, hdirs ▸ hstop⟩),
      states_of_steps hopened' hsteps' (.inr ⟨stop, hstop'⟩), List.dropLast_concat,
      List.dropLast_concat]
    exact ⟨rfl, hlast.abandon, hpassages⟩

/-- What a successful run puts out, another one puts out as well, or it expands a
macro that was bound from the beginning. -/
theorem fragment_twins
    (hdirs : session.settings.includeDirectories = session'.settings.includeDirectories)
    (hnames : session.settings.predefined.keys = session'.settings.predefined.keys)
    (hsuccess : (session.process disk root).1 = none) {k : Nat} {fragment : Text}
    (hfragment : (session.process disk root).2.run.fragments[k]? = some fragment) :
    ∃ fragment', (session'.process disk root).2.run.fragments[k]? = some fragment' ∧
      (fragment = fragment' ∨ ∃ name,
        session.ExpandsPredefined disk root k name ∧
        session'.ExpandsPredefined disk root k name ∧
        session.settings.predefined.get? name = some fragment ∧
        session'.settings.predefined.get? name = some fragment') := by
  cases session.course disk root with
  | unopened failure hopened hprocess =>
    rw [hprocess] at hsuccess
    cases hsuccess
  | stopped start last visited stop hopened hsteps hframes hstop hprocess =>
    rw [hprocess] at hsuccess
    cases hsuccess
  | finished start last visited hopened hsteps hframes hprocess =>
    obtain ⟨start', hopened', hstart⟩ := opened_twins hnames hopened
    obtain ⟨file, content, -, rfl⟩ := eq_of_opened hopened
    obtain ⟨file', content', -, rfl⟩ := eq_of_opened hopened'
    rw [hprocess, Run.warnUnclosed_fragments] at hfragment
    rw [hdirs] at hsteps
    obtain ⟨earlier, state, later, earlier', state', later', last', fragment', rfl, hsteps',
      hlast, hlength, hlength', hfragment', hvalues⟩ := hsteps.fragment_twins hstart rfl hfragment
    have hframes' : last'.frames = [] := hlast.frames ▸ hframes
    have hfinish := Run.finish_eq_ok_iff.mpr ⟨_, hsteps', hframes'⟩
    refine ⟨fragment', ?_, hvalues.imp_right ?_⟩
    · rw [process_of_opened hopened', hfinish, Run.warnUnclosed_fragments, hfragment']
    · rintro ⟨name, hname, hname', hkept, hkept', hvalue, hvalue'⟩
      have hstates := states_of_steps hopened (hdirs ▸ hsteps) (.inl hframes)
      have hstates' := states_of_steps hopened' hsteps' (.inl hframes')
      rw [List.append_assoc, List.cons_append] at hstates hstates'
      exact ⟨name, ⟨earlier, state, _, hstates, hlength, hname, hkept⟩,
        ⟨earlier', state', _, hstates', hlength', hname', hkept'⟩, hvalue, hvalue'⟩

/-- Values of macros are opaque.  If two sessions bind the same names from the
beginning, to whatever values, their runs over a root file go past the same passages,
fail with the same problem at the same place or both succeed, warn of the same things,
enter the same files and leave the same names bound.  If they succeed, their outputs
have as many fragments, and where two of these differ, both runs expand a name there
that no directive before was about, and each puts out its own value of it. -/
theorem values_opaque (session session' : Session) (disk : Files.Disk) (root : Text)
    (hdirs : session.settings.includeDirectories = session'.settings.includeDirectories)
    (hnames : session.settings.predefined.keys = session'.settings.predefined.keys) :
    session.passages disk root = session'.passages disk root ∧
    (session.process disk root).1 = (session'.process disk root).1 ∧
    (session.process disk root).2.run.warnings = (session'.process disk root).2.run.warnings ∧
    (session.process disk root).2.run.processed = (session'.process disk root).2.run.processed ∧
    (session.process disk root).2.run.macros.keys =
      (session'.process disk root).2.run.macros.keys ∧
    ((session.process disk root).1 = none →
      (session.process disk root).2.run.fragments.length =
        (session'.process disk root).2.run.fragments.length ∧
      ∀ k fragment, (session.process disk root).2.run.fragments[k]? = some fragment →
        ∃ fragment', (session'.process disk root).2.run.fragments[k]? = some fragment' ∧
          (fragment = fragment' ∨ ∃ name,
            session.ExpandsPredefined disk root k name ∧
            session'.ExpandsPredefined disk root k name ∧
            session.settings.predefined.get? name = some fragment ∧
            session'.settings.predefined.get? name = some fragment')) := by
  obtain ⟨hstop, htwins, hpassages⟩ := process_twins disk root hdirs hnames
  refine ⟨hpassages, hstop, congrArg List.reverse htwins.warned, htwins.processed,
    Table.keys_eq_iff.mpr htwins.names, ?_⟩
  intro hsuccess
  exact ⟨htwins.fragments_length,
    fun k fragment hfragment => fragment_twins hdirs hnames hsuccess hfragment⟩

/-- A name that is expanded, asked for and unbound, and one that is bound anew. -/
def borrowed : Files.Disk where
  nodes := [
    ([bytes "w"], .directory),
    ([bytes "w", bytes "main.xs"], .file (bytes "@A@\n#define B b\n#include \"./i.xs\"\n@A@")),
    ([bytes "w", bytes "i.xs"], .file (bytes "@B@@A@#ifdef A\n\"@A@\"\n#undef A\n#undef A\n"))]
  workingDirectory := [bytes "w"]

/-- Values without marks. -/
def tame : Macros := .ofList [(bytes "A", bytes "a"), (bytes "B", bytes "c")]

/-- Values that would be read as something else if they were read again. -/
def wild : Macros := .ofList [(bytes "A", bytes "@B@\n#undef B\n\"/*@"), (bytes "B", [])]

theorem values_opaque_wild :
    tame.keys = wild.keys ∧
    ((new borrowed [] tame).process borrowed (bytes "main.xs")).1 =
      ((new borrowed [] wild).process borrowed (bytes "main.xs")).1 ∧
    ((new borrowed [] tame).process borrowed (bytes "main.xs")).2.run.warnings =
      ((new borrowed [] wild).process borrowed (bytes "main.xs")).2.run.warnings ∧
    ((new borrowed [] tame).process borrowed (bytes "main.xs")).2.run.macros.keys =
      ((new borrowed [] wild).process borrowed (bytes "main.xs")).2.run.macros.keys ∧
    ((new borrowed [] tame).process borrowed (bytes "main.xs")).2.run.fragments =
      [bytes "a", bytes "\n", bytes "b", bytes "a", bytes "\"@A@\"", bytes "\n"] ∧
    ((new borrowed [] wild).process borrowed (bytes "main.xs")).2.run.fragments[3]? =
      some (bytes "@B@\n#undef B\n\"/*@") ∧
    ∃ name, (new borrowed [] wild).ExpandsPredefined borrowed (bytes "main.xs") 3 name ∧
      wild.get? name = some (bytes "@B@\n#undef B\n\"/*@") := by
  have hkeys : tame.keys = wild.keys := by decide +kernel
  obtain ⟨-, hstop, hwarnings, -, hnames, hsame⟩ := values_opaque (new borrowed [] tame)
    (new borrowed [] wild) borrowed (bytes "main.xs") rfl hkeys
  have hfragments : ((new borrowed [] tame).process borrowed (bytes "main.xs")).2.run.fragments =
      [bytes "a", bytes "\n", bytes "b", bytes "a", bytes "\"@A@\"", bytes "\n"] := by
    decide +kernel
  have hvalue : ((new borrowed [] wild).process borrowed
      (bytes "main.xs")).2.run.fragments[3]? = some (bytes "@B@\n#undef B\n\"/*@") := by
    decide +kernel
  refine ⟨hkeys, hstop, hwarnings, hnames, hfragments, hvalue, ?_⟩
  obtain ⟨fragment', hfragment', hcases⟩ :=
    (hsame (by decide +kernel)).2 3 (bytes "a") (by rw [hfragments]; rfl)
  rw [hvalue] at hfragment'
  obtain rfl := Option.some.inj hfragment'
  rcases hcases with hequal | ⟨name, -, hexpands, -, hbound⟩
  · exact absurd hequal (by decide +kernel)
  · exact ⟨name, hexpands, hbound⟩

end Session

end XsPrep
