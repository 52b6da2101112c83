import XsPrep.Proofs.Preprocess.Once
import XsPrep.Proofs.Preprocess.Inlining
import XsPrep.Proofs.Preprocess.Emission

/-!
# Turns of a file

A run is in one file at a time.  Between one state in which it is in a file and the
next such state lies a turn of that file: the run goes over one piece of the file,
and if this includes a new file, it also goes through that file and back
(`Session.Stretch.shape`).

The turns of a file go over its text from the beginning on, without gaps, and to its
end if the run gets there (`Session.spans_of_end`).  What a turn adds to the output
is decided by what stands in the text.  An include of a new file adds what the turns
of that file add, since all of them lie between the beginning and the end of the
turn (`Session.fragments_of_turn`).
-/

namespace XsPrep

namespace Run

variable {disk : Files.Disk} {dirs : List Text} {run next last : Run} {frame : Frame}
  {outer : List Frame}

/-! ## Files that are entered -/

/-- The file that the next step enters: an include finds it, and the run has not
been there. -/
def entering? (disk : Files.Disk) (dirs : List Text) (run : Run) : Option Files.Address :=
  match run.passage? with
  | some ⟨file, _, .construct (.includeFile name _)⟩ =>
    match Lookup.find disk (Path.directory file.path) dirs name with
    | .ok (found, _) => if run.processed.contains found then none else some found
    | .error _ => none
  | _ => none

theorem step_entering (hrun : run.frames ≠ []) (hstep : run.step disk dirs = .ok next) :
    next.processed = (run.entering? disk dirs).toList ++ run.processed := by
  obtain ⟨frame, outer, hframes⟩ := List.exists_cons_of_ne_nil hrun
  cases step_move hframes hstep with
  | leave hend =>
    rw [entering?, passage?_of_end hframes hend]
    rfl
  | skip hrest hskip hread =>
    rw [entering?, passage?_of_skipping hframes hrest hskip, skipLine_processed]
    rfl
  | @read construct reader next hrest hskip hread hexecute =>
    rw [entering?, passage?_of_construct hframes hrest hskip hread]
    cases construct with
    | includeFile name position =>
      obtain ⟨file, content, hfind, ⟨hmem, rfl⟩ | ⟨hmem, rfl⟩⟩ := execute_include hexecute
      · have hknown : file ∈ run.processed := hmem
        simp [hfind, hknown, warn]
      · have hnew : file ∉ run.processed := hmem
        simp [hfind, hnew, enter]
    | _ => exact (execute_files (by intro name position heq; cases heq) hexecute).2

/-- Only an include enters a file, and only one that the run has not been in. -/
theorem entering?_eq_some {entered : Files.Address}
    (h : run.entering? disk dirs = some entered) :
    (∃ file reader name position,
      run.passage? = some ⟨file, reader, .construct (.includeFile name position)⟩) ∧
    entered ∉ run.processed := by
  rw [entering?] at h
  split at h
  · rename_i file reader name position hpassage
    refine ⟨⟨file, reader, name, position, hpassage⟩, ?_⟩
    split at h
    · split at h
      · cases h
      · rename_i hnew
        cases h
        simpa using hnew
    · cases h
  · cases h

/-- The files entered stay entered. -/
theorem Steps.processed_suffix {visited : List Run} (h : Steps disk dirs run visited last) :
    run.processed <:+ last.processed := by
  induction h with
  | refl run => exact List.suffix_refl _
  | head hframes hstep _ ih =>
    refine List.IsSuffix.trans ?_ ih
    rw [step_entering hframes hstep]
    exact List.suffix_append _ _

/-- A file that is being read stays where it is, or the run comes to its end and goes
on with the files around it. -/
theorem Steps.stays_or_leaves {visited : List Run} (h : Steps disk dirs run visited last)
    {file : Files.Address} {above below : List Frame} {reader : Reader}
    (hframes : run.frames = above ++ ⟨file, reader⟩ :: below) :
    (∃ above reader, last.frames = above ++ ⟨file, reader⟩ :: below) ∨
    ∃ inner ending rest reader, visited = inner ++ ending :: rest ∧
      ending.frames = ⟨file, reader⟩ :: below ∧ reader.rest = [] ∧
      Steps disk dirs { ending with frames := below } rest last := by
  induction h generalizing above reader with
  | refl run => exact .inl ⟨above, reader, hframes⟩
  | @head run next last visited hrun hstep hsteps ih =>
    -- Unless the step leaves the file, the file is still there behind the step.
    have hstay : ∀ above reader, next.frames = above ++ ⟨file, reader⟩ :: below →
        (∃ above reader, last.frames = above ++ ⟨file, reader⟩ :: below) ∨
        ∃ inner ending rest reader, run :: visited = inner ++ ending :: rest ∧
          ending.frames = ⟨file, reader⟩ :: below ∧ reader.rest = [] ∧
          Steps disk dirs { ending with frames := below } rest last := by
      intro above reader hnext
      refine (ih hnext).imp_right ?_
      rintro ⟨inner, ending, rest, reader, rfl, hending⟩
      exact ⟨run :: inner, ending, rest, reader, rfl, hending⟩
    cases above with
    | nil =>
      rw [List.nil_append] at hframes
      cases step_fileMove hframes hstep with
      | leave hend _ _ _ =>
        rw [step_of_end hframes hend] at hstep
        cases hstep
        exact .inr ⟨[], run, visited, reader, rfl, hframes, hend, hsteps⟩
      | advance reading behind _ _ _ hnext _ => exact hstay [] _ hnext
      | enter reading behind entered content _ _ _ _ _ hnext _ =>
        exact hstay [⟨entered, .ofText content⟩] _ hnext
    | cons top above =>
      rw [List.cons_append] at hframes
      cases step_fileMove hframes hstep with
      | leave hend _ hnext _ => exact hstay _ _ hnext
      | advance reading behind _ _ _ hnext _ =>
        exact hstay ({ top with reader := behind } :: above) _ hnext
      | enter reading behind entered content _ _ _ _ _ hnext _ =>
        exact hstay
          (⟨entered, .ofText content⟩ :: { top with reader := behind } :: above) _ hnext

/-! ## The file that a run is in -/

/-- The file that the run is in. -/
def current? (run : Run) : Option Files.Address := run.frames.head?.map Frame.file

/-- Where the run is in its file, as an offset. -/
def offset (run : Run) : Nat := (run.frames.head?.map (·.reader.position.offset)).getD 0

/-- Whether nothing is left of the file that the run is in. -/
def atEnd (run : Run) : Bool := run.frames.head?.any (·.reader.rest.isEmpty)

theorem current?_eq_some_iff {file : Files.Address} :
    run.current? = some file ↔ ∃ reader outer, run.frames = ⟨file, reader⟩ :: outer := by
  rw [current?]
  constructor
  · intro h
    obtain ⟨frame, hframe, rfl⟩ := Option.map_eq_some_iff.mp h
    obtain ⟨outer, hframes⟩ := List.head?_eq_some_iff.mp hframe
    exact ⟨frame.reader, outer, hframes⟩
  · rintro ⟨reader, outer, hframes⟩
    rw [hframes]
    rfl

theorem offset_of_frames {file : Files.Address} {reader : Reader}
    (h : run.frames = ⟨file, reader⟩ :: outer) : run.offset = reader.position.offset := by
  rw [offset, h]
  rfl

theorem Sound.mem_of_current? (h : run.Sound disk) {file : Files.Address}
    (hcurrent : run.current? = some file) : file ∈ run.processed := by
  obtain ⟨reader, outer, hframes⟩ := current?_eq_some_iff.mp hcurrent
  have hframe : ⟨file, reader⟩ ∈ run.frames := by rw [hframes]; exact List.mem_cons_self
  exact h.mem_processed hframe

end Run

/-! ## Turns -/

/-- A turn of a file: a state in which the run is in the file, and the next one. -/
structure Turn where
  /-- The state in which the turn begins. -/
  before : Run
  /-- The state in which it ends. -/
  after : Run

namespace Turn

/-- The part of the file's content that a turn goes over. -/
def span (content : Text) (turn : Turn) : Text :=
  (content.drop turn.before.offset).take (turn.after.offset - turn.before.offset)

/-- What a turn adds to the output. -/
def added (turn : Turn) : List Text :=
  turn.after.fragments.drop turn.before.fragments.length

/-- The turns between neighbours of a list of states. -/
def between : List Run → List Turn
  | first :: second :: states => ⟨first, second⟩ :: between (second :: states)
  | _ => []

/-- The beginning and the end of a turn are states with `p`, and none lies between
them. -/
theorem of_mem_between {p : Run → Bool} {states : List Run} {turn : Turn}
    (h : turn ∈ between (states.filter p)) :
    ∃ earlier inside later,
      states = earlier ++ turn.before :: (inside ++ turn.after :: later) ∧
      p turn.before = true ∧ p turn.after = true ∧ ∀ state ∈ inside, p state = false := by
  induction states with
  | nil => cases h
  | cons state states ih =>
    -- A turn between later states is one whether `state` counts or not.
    have hlater : turn ∈ between (states.filter p) → ∃ earlier inside later,
        state :: states = earlier ++ turn.before :: (inside ++ turn.after :: later) ∧
        p turn.before = true ∧ p turn.after = true ∧ ∀ state ∈ inside, p state = false := by
      intro hturn
      obtain ⟨earlier, inside, later, rfl, hplaces⟩ := ih hturn
      exact ⟨state :: earlier, inside, later, rfl, hplaces⟩
    cases hstate : p state with
    | false =>
      rw [List.filter_cons_of_neg (by simp [hstate])] at h
      exact hlater h
    | true =>
      rw [List.filter_cons_of_pos hstate] at h
      cases hfilter : states.filter p with
      | nil =>
        rw [hfilter] at h
        cases h
      | cons second rest =>
        rw [hfilter, between] at h
        rcases List.mem_cons.mp h with rfl | h
        · obtain ⟨inside, later, rfl, hinside, hsecond, -⟩ := List.filter_eq_cons_iff.mp hfilter
          exact ⟨[], inside, later, rfl, hstate, hsecond, by simpa using hinside⟩
        · exact hlater (hfilter ▸ h)

theorem between_isChain (states : List Run) :
    (between states).IsChain fun turn later => turn.after = later.before := by
  fun_induction between states with
  | case1 first second states ih =>
    cases states with
    | nil => exact .singleton _
    | cons third states =>
      rw [between] at ih ⊢
      exact .cons_cons rfl ih
  | case2 => exact .nil

theorem mem_between (front back : List Run) (first second : Run) :
    ⟨first, second⟩ ∈ between (front ++ first :: second :: back) := by
  induction front with
  | nil => exact List.mem_cons_self
  | cons state front ih =>
    cases front with
    | nil => exact List.mem_cons_of_mem _ ih
    | cons next front => exact List.mem_cons_of_mem _ ih

/-- Turn by turn, the output grows from that of the first state to that of the
last. -/
theorem flatMap_added {first final : Run} {states : List Run}
    (hgrows : ∀ turn ∈ between (first :: states), turn.before.fragments <+: turn.after.fragments)
    (hfinal : (first :: states).getLast? = some final) :
    first.fragments ++ (between (first :: states)).flatMap added = final.fragments := by
  induction states generalizing first with
  | nil =>
    cases hfinal
    exact List.append_nil _
  | cons second states ih =>
    rw [between] at hgrows ⊢
    obtain ⟨hturn, hlater⟩ := List.forall_mem_cons.mp hgrows
    rw [List.flatMap_cons, ← List.append_assoc, added, List.prefix_iff_eq_append.mp hturn]
    exact ih hlater (by rwa [List.getLast?_cons_cons] at hfinal)

/-- Turn by turn, the spans lead from the first state to the last. -/
theorem flatten_spans (content : Text) {first final : Run} {states : List Run}
    (hforward : ∀ turn ∈ between (first :: states), turn.before.offset ≤ turn.after.offset)
    (hfinal : (first :: states).getLast? = some final) :
    first.offset ≤ final.offset ∧ ((between (first :: states)).map (span content)).flatten =
      (content.drop first.offset).take (final.offset - first.offset) := by
  induction states generalizing first with
  | nil =>
    cases hfinal
    simp [between]
  | cons second states ih =>
    rw [between] at hforward ⊢
    obtain ⟨hturn, hlater⟩ := List.forall_mem_cons.mp hforward
    obtain ⟨hle, hspans⟩ := ih hlater (by rwa [List.getLast?_cons_cons] at hfinal)
    refine ⟨Nat.le_trans hturn hle, ?_⟩
    have hsum : final.offset - first.offset =
        (second.offset - first.offset) + (final.offset - second.offset) := by
      simp only at hturn
      omega
    have hdrop : content.drop second.offset =
        (content.drop first.offset).drop (second.offset - first.offset) := by
      rw [List.drop_drop, Nat.add_sub_cancel' hturn]
    rw [List.map_cons, List.flatten_cons, hspans, hsum, List.take_add, hdrop]
    rfl

end Turn

namespace Session

variable {session : Session} {disk : Files.Disk} {root : Text} {file : Files.Address}

/-- The states in which the run over a root file is in `file`. -/
def visits (session : Session) (disk : Files.Disk) (root : Text) (file : Files.Address) :
    List Run :=
  (session.states disk root).filter fun state => state.current? == some file

/-- The turns of a file in the run over a root file. -/
def turns (session : Session) (disk : Files.Disk) (root : Text) (file : Files.Address) :
    List Turn :=
  Turn.between (session.visits disk root file)

/-- What the turns of a file add to the output, one after the other. -/
def produced (session : Session) (disk : Files.Disk) (root : Text) (file : Files.Address) :
    List Text :=
  (session.turns disk root file).flatMap Turn.added

/-- The run over a root file comes to the end of `file`. -/
def ReadThrough (session : Session) (disk : Files.Disk) (root : Text) (file : Files.Address) :
    Prop :=
  ∃ state ∈ session.visits disk root file, state.atEnd = true

instance (session : Session) (disk : Files.Disk) (root : Text) (file : Files.Address) :
    Decidable (session.ReadThrough disk root file) :=
  inferInstanceAs (Decidable (∃ state ∈ session.visits disk root file, state.atEnd = true))

/-- What the turn that begins in `state` and goes over `span` is to add to the
output.  A literal and a plain character add themselves, an expansion adds the value
of its macro if there is one, and an include of a new file adds what the turns of
that file add.  Nothing else adds anything. -/
def share (session : Session) (disk : Files.Disk) (root : Text) (state : Run) (span : Text) :
    List Text :=
  match state.passage? with
  | some ⟨_, _, .construct (.literal _)⟩ => [span]
  | some ⟨_, _, .construct (.character _)⟩ => [span]
  | some ⟨_, _, .construct (.expansion name)⟩ => (state.macros.get? name).toList
  | some ⟨_, _, .construct (.includeFile _ _)⟩ =>
    match state.entering? disk session.settings.includeDirectories with
    | some file => session.produced disk root file
    | none => []
  | _ => []

/-! ### Ways within a run -/

theorem sound_of_mem {state : Run} (hstate : state ∈ session.states disk root) :
    state.Sound disk := by
  cases hopened : session.opened disk root with
  | error failure =>
    rw [states_of_unopened hopened] at hstate
    cases hstate
  | ok start =>
    obtain ⟨visited, hsteps⟩ := (mem_states_iff hopened).mp hstate
    exact ((Run.Sound.of_opened hopened).of_steps hsteps).2

/-- Steps lead from the beginning to each state, and from each state to the later
ones. -/
theorem steps_of_states {earlier later : List Run} {state : Run}
    (hstates : session.states disk root = earlier ++ state :: later) :
    ∃ start last rest, session.opened disk root = .ok start ∧
      Run.Steps disk session.settings.includeDirectories start earlier state ∧
      Run.Steps disk session.settings.includeDirectories state rest last ∧
      state :: later = rest ++ [last] := by
  cases hopened : session.opened disk root with
  | error failure =>
    rw [states_of_unopened hopened] at hstates
    exact absurd hstates.symm (by simp)
  | ok start =>
    obtain ⟨visited, last, hsteps, hhalted⟩ :=
      Run.exists_steps_halted disk session.settings.includeDirectories start
    rw [states_of_steps hopened hsteps hhalted] at hstates
    obtain ⟨hbefore, rest, hrest, heq⟩ := hsteps.cut hstates
    exact ⟨start, last, rest, rfl, hbefore, hrest, heq⟩

/-- Where a turn of a file lies: the run is in the file before and after it, and
elsewhere on it. -/
structure Stretch (session : Session) (disk : Files.Disk) (root : Text) (file : Files.Address)
    (turn : Turn) (earlier inside later : List Run) : Prop where
  states_eq : session.states disk root =
    earlier ++ turn.before :: (inside ++ turn.after :: later)
  steps : Run.Steps disk session.settings.includeDirectories turn.before (turn.before :: inside)
    turn.after
  before_in : turn.before.current? = some file
  after_in : turn.after.current? = some file
  inside_out : ∀ state ∈ inside, state.current? ≠ some file

theorem exists_stretch {turn : Turn} (h : turn ∈ session.turns disk root file) :
    ∃ earlier inside later, Stretch session disk root file turn earlier inside later := by
  obtain ⟨earlier, inside, later, hstates, hbefore, hafter, hinside⟩ := Turn.of_mem_between h
  obtain ⟨start, last, rest, -, -, hrest, heq⟩ := steps_of_states hstates
  rw [← List.cons_append] at heq
  refine ⟨earlier, inside, later, hstates, (hrest.cut heq.symm).1, by simpa using hbefore,
    by simpa using hafter, ?_⟩
  intro state hstate
  simpa using hinside state hstate

namespace Stretch

variable {turn : Turn} {earlier inside later : List Run}

theorem sound (h : Stretch session disk root file turn earlier inside later) :
    turn.before.Sound disk ∧ turn.after.Sound disk := by
  have hbefore : turn.before ∈ session.states disk root := by rw [h.states_eq]; simp
  have hafter : turn.after ∈ session.states disk root := by rw [h.states_eq]; simp
  exact ⟨sound_of_mem hbefore, sound_of_mem hafter⟩

theorem fragments_prefix (h : Stretch session disk root file turn earlier inside later) :
    turn.before.fragments <+: turn.after.fragments := by
  rw [h.steps.fragments]
  exact List.prefix_append _ _

/-- What happens on a turn of the file of `frame`. -/
inductive Shape (session : Session) (disk : Files.Disk) (turn : Turn) (inside : List Run)
    (frame : Frame) (outer : List Frame) (reader : Reader) : Prop where
  /-- It is a step inside the file. -/
  | stay (hstep : turn.before.step disk session.settings.includeDirectories = .ok turn.after)
      (hentering : turn.before.entering? disk session.settings.includeDirectories = none)
  /-- It is a step into another file, a way through this, and the step out of it. -/
  | visit (entered : Files.Address) (first final : Run) (rest : List Run)
      (hstep : turn.before.step disk session.settings.includeDirectories = .ok first)
      (hentering :
        turn.before.entering? disk session.settings.includeDirectories = some entered)
      (hinside : inside = first :: rest) (hfirst : first.current? = some entered)
      (hlast : inside.getLast? = some final) (hfinal : final.current? = some entered)
      (hleave : turn.after = { final with frames := { frame with reader } :: outer })

/-- From inside another file, the first state in which the run is back is the one
behind the end of that file. -/
theorem back (h : Stretch session disk root file turn earlier inside later) {first : Run}
    (hsteps : Run.Steps disk session.settings.includeDirectories first inside turn.after)
    {entered : Files.Address} {entry reader : Reader} {outer : List Frame}
    (hfirst : first.frames = ⟨entered, entry⟩ :: ⟨file, reader⟩ :: outer) :
    ∃ final, inside.getLast? = some final ∧ final.current? = some entered ∧
      turn.after = { final with frames := ⟨file, reader⟩ :: outer } := by
  rcases hsteps.stays_or_leaves
      (show first.frames = [] ++ ⟨entered, entry⟩ :: ⟨file, reader⟩ :: outer from hfirst) with
    ⟨above, entry', hframes⟩ | ⟨inner, final, rest, entry', hinside, hframes, -, hrest⟩
  · -- The run would be in the file while the file is below the other one.
    have hnodup := h.sound.2.frames_nodup
    obtain ⟨reader', outer', hframes'⟩ := Run.current?_eq_some_iff.mp h.after_in
    rw [hframes] at hnodup hframes'
    cases above with
    | nil =>
      cases hframes'
      simp at hnodup
    | cons top above =>
      cases hframes'
      simp at hnodup
  · have hback : ({ final with frames := ⟨file, reader⟩ :: outer } : Run).current? =
        some file := rfl
    generalize turn.after = after at hrest ⊢
    cases hrest with
    | refl =>
      exact ⟨final, by rw [hinside, List.getLast?_concat],
        Run.current?_eq_some_iff.mpr ⟨entry', _, hframes⟩, rfl⟩
    | head =>
      refine absurd hback (h.inside_out _ ?_)
      rw [hinside]
      simp

theorem shape (h : Stretch session disk root file turn earlier inside later) :
    ∃ frame outer reading reader, turn.before.frames = frame :: outer ∧ frame.file = file ∧
      turn.before.passage? = some ⟨frame.file, frame.reader, reading⟩ ∧
      frame.reader.rest ≠ [] ∧ reading.At frame.reader reader ∧
      turn.after.frames = { frame with reader } :: outer ∧
      Shape session disk turn inside frame outer reader := by
  obtain ⟨place, outer, hframes⟩ := Run.current?_eq_some_iff.mp h.before_in
  obtain ⟨hsound, -⟩ := h.sound
  cases h.steps with
  | @head _ next _ _ hrun hstep hsteps =>
  have hprocessed := Run.step_entering hrun hstep
  cases Run.step_fileMove hframes hstep with
  | leave hend _ hnext hkept =>
    -- The file is left for good, so the run is not in it at the end of the turn.
    have hnodup := hsound.frames_nodup
    rw [hframes, List.map_cons, List.nodup_cons] at hnodup
    have hmem : file ∈ next.processed := hkept ▸ hsound.mem_of_current? h.before_in
    have hleft := hsteps.stays_left hmem (hnext ▸ hnodup.1)
    obtain ⟨reader', outer', hframes'⟩ := Run.current?_eq_some_iff.mp h.after_in
    rw [hframes'] at hleft
    exact absurd List.mem_cons_self hleft
  | advance reading reader hrest hpassage hat hnext hkept =>
    have hin : next.current? = some file := by
      rw [Run.current?, hnext]
      rfl
    have hentering : turn.before.entering? disk session.settings.includeDirectories = none := by
      rw [hkept] at hprocessed
      simpa using hprocessed
    cases hsteps with
    | refl =>
      exact ⟨_, outer, reading, reader, hframes, rfl, hpassage, hrest, hat, hnext,
        .stay hstep hentering⟩
    | head => exact absurd hin (h.inside_out _ List.mem_cons_self)
  | enter reading reader entered content hrest hpassage hat hcontent hnew hnext hgrown =>
    have hentering :
        turn.before.entering? disk session.settings.includeDirectories = some entered := by
      rw [hgrown] at hprocessed
      cases hoption : turn.before.entering? disk session.settings.includeDirectories with
      | none => simp [hoption] at hprocessed
      | some other => simpa [hoption, eq_comm] using hprocessed
    obtain ⟨final, hlast, hfinal, hleave⟩ := h.back hsteps hnext
    have hfirst : next.current? = some entered := by
      rw [Run.current?, hnext]
      rfl
    obtain ⟨rest, hinside⟩ : ∃ rest, inside = next :: rest := by
      cases hsteps with
      | refl => cases hlast
      | head => exact ⟨_, rfl⟩
    exact ⟨_, outer, reading, reader, hframes, rfl, hpassage, hrest, hat, by rw [hleave],
      .visit entered next final rest hstep hentering hinside hfirst hlast hfinal hleave⟩

end Stretch

/-- What the turns of a file add lies between its first state and its last. -/
theorem produced_eq {earlier inside later : List Run} {first final : Run}
    (hstates : session.states disk root = earlier ++ (first :: inside ++ later))
    (hearlier : ∀ state ∈ earlier, state.current? ≠ some file)
    (hlater : ∀ state ∈ later, state.current? ≠ some file)
    (hfirst : first.current? = some file) (hfinal : final.current? = some file)
    (hlast : (first :: inside).getLast? = some final) :
    final.fragments = first.fragments ++ session.produced disk root file := by
  have hvisits : session.visits disk root file =
      first :: inside.filter fun state => state.current? == some file := by
    have hnone : ∀ states : List Run, (∀ state ∈ states, state.current? ≠ some file) →
        states.filter (fun state => state.current? == some file) = [] := by
      intro states hstates
      rw [List.filter_eq_nil_iff]
      simpa using hstates
    rw [visits, hstates, List.filter_append, List.filter_append, hnone earlier hearlier,
      hnone later hlater, List.nil_append, List.append_nil,
      List.filter_cons_of_pos (by simpa using hfirst)]
  have hgrows : ∀ turn ∈ session.turns disk root file,
      turn.before.fragments <+: turn.after.fragments := by
    intro turn hturn
    obtain ⟨_, _, _, hstretch⟩ := exists_stretch hturn
    exact hstretch.fragments_prefix
  rw [turns, hvisits] at hgrows
  rw [produced, turns, hvisits, Turn.flatMap_added hgrows]
  have hwhole : (first :: inside).filter (fun state => state.current? == some file) =
      first :: inside.filter fun state => state.current? == some file :=
    List.filter_cons_of_pos (by simpa using hfirst)
  obtain ⟨init, hinit⟩ := List.getLast?_eq_some_iff.mp hlast
  rw [← hwhole, hinit, List.filter_append, List.filter_cons_of_pos (by simpa using hfinal),
    List.filter_nil, List.getLast?_concat]

/-- A turn that is one step adds what the step adds. -/
theorem share_eq_emission {state : Run} {reader reader' : Reader} {reading : Reading}
    {content : Text}
    (hentering : state.entering? disk session.settings.includeDirectories = none)
    (hpassage : state.passage? = some ⟨file, reader, reading⟩) (hat : reading.At reader reader')
    (hin : (Reader.ofText content).LeadsTo reader) :
    session.share disk root state
        ((content.drop reader.position.offset).take
          (reader'.position.offset - reader.position.offset)) = state.emission := by
  rw [share, Run.emission, hpassage]
  cases hat with
  | line => rfl
  | @construct construct _ hread =>
    have hraw : ∀ raw, construct.raw? = some raw →
        (content.drop reader.position.offset).take
          (reader'.position.offset - reader.position.offset) = raw := by
      intro raw hraw
      obtain ⟨cs, hreads, rfl⟩ := Construct.reads_raw hread hraw
      exact hreads.bytes_eq hin
    cases construct with
    | literal raw => exact congrArg ([·]) (hraw raw rfl)
    | character raw => exact congrArg ([·]) (hraw raw rfl)
    | includeFile name position =>
      dsimp only
      rw [hentering]
      rfl
    | _ => rfl

namespace Stretch

variable {turn : Turn} {earlier inside later : List Run} {entered : Files.Address}

/-- Before the run enters a file it was not in that file. -/
theorem before_entered (h : Stretch session disk root file turn earlier inside later)
    (hnew : entered ∉ turn.before.processed) :
    ∀ state ∈ earlier ++ [turn.before], state.current? ≠ some entered := by
  intro state hstate hcurrent
  obtain ⟨start, last, rest, -, hsteps, -, -⟩ := steps_of_states h.states_eq
  obtain ⟨front, back, hcut⟩ := List.append_of_mem hstate
  obtain ⟨-, between, hbetween, -⟩ := hsteps.cut hcut
  have hmem : state ∈ session.states disk root := by
    rw [h.states_eq]
    rw [List.mem_append, List.mem_singleton] at hstate
    rcases hstate with hstate | rfl
    · exact List.mem_append_left _ hstate
    · simp
  exact hnew (hbetween.processed_suffix.subset ((sound_of_mem hmem).mem_of_current? hcurrent))

/-- A file that was left before the end of a turn is not entered again. -/
theorem after_left (h : Stretch session disk root file turn earlier inside later)
    (hmem : entered ∈ turn.after.processed)
    (hleft : entered ∉ turn.after.frames.map Frame.file) :
    ∀ state ∈ turn.after :: later, state.current? ≠ some entered := by
  intro state hstate hcurrent
  have hstates := h.states_eq
  rw [← List.cons_append, ← List.append_assoc] at hstates
  obtain ⟨start, last, rest, -, -, hsteps, heq⟩ := steps_of_states hstates
  rw [heq] at hstate
  obtain ⟨between, hbetween⟩ := hsteps.split hstate
  obtain ⟨reader, outer, hframes⟩ := Run.current?_eq_some_iff.mp hcurrent
  have hout := hbetween.stays_left hmem hleft
  rw [hframes] at hout
  exact hout List.mem_cons_self

/-- A turn through a new file adds what the turns of that file add. -/
theorem fragments_of_visit (h : Stretch session disk root file turn earlier inside later)
    {first final : Run} {rest : List Run} {frame : Frame} {outer : List Frame} {reader : Reader}
    (hframes : turn.before.frames = frame :: outer)
    (hstep : turn.before.step disk session.settings.includeDirectories = .ok first)
    (hentering : turn.before.entering? disk session.settings.includeDirectories = some entered)
    (hinside : inside = first :: rest) (hfirst : first.current? = some entered)
    (hlast : inside.getLast? = some final) (hfinal : final.current? = some entered)
    (hleave : turn.after = { final with frames := { frame with reader } :: outer }) :
    turn.after.fragments = turn.before.fragments ++ session.produced disk root entered := by
  obtain ⟨⟨_, _, _, _, hpassage⟩, hnew⟩ := Run.entering?_eq_some hentering
  have hentry : first.fragments = turn.before.fragments := by
    rw [Run.step_fragments (by simp [hframes]) hstep, Run.emission, hpassage]
    exact List.append_nil _
  have hmem : entered ∈ turn.after.processed := by
    have hstate : final ∈ session.states disk root := by
      rw [h.states_eq]
      simp [List.mem_of_getLast? hlast]
    rw [hleave]
    exact (sound_of_mem hstate).mem_of_current? hfinal
  have hleft : entered ∉ turn.after.frames.map Frame.file := by
    intro hin
    refine hnew (h.sound.1.entered.subset ?_)
    rw [hleave] at hin
    rwa [hframes]
  have hstates : session.states disk root =
      (earlier ++ [turn.before]) ++ (first :: rest ++ turn.after :: later) := by
    rw [h.states_eq, hinside, List.append_assoc, List.singleton_append]
  have hproduced := produced_eq hstates (h.before_entered hnew) (h.after_left hmem hleft) hfirst
    hfinal (hinside ▸ hlast)
  rw [hentry] at hproduced
  rw [← hproduced, hleave]
  rfl

end Stretch

/-- What a turn of a file adds to the output. -/
theorem fragments_of_turn {content : Text} (hcontent : disk.content? file = some content)
    {turn : Turn} (h : turn ∈ session.turns disk root file) :
    turn.after.fragments =
      turn.before.fragments ++ session.share disk root turn.before (turn.span content) := by
  obtain ⟨earlier, inside, later, hstretch⟩ := exists_stretch h
  obtain ⟨frame, outer, reading, reader, hframes, rfl, hpassage, hrest, hat, hafter, hshape⟩ :=
    hstretch.shape
  cases hshape with
  | stay hstep hentering =>
    obtain ⟨content', hcontent', hin⟩ :=
      hstretch.sound.1.reached frame (by rw [hframes]; exact List.mem_cons_self)
    rw [hcontent] at hcontent'
    cases hcontent'
    rw [Run.step_fragments (by simp [hframes]) hstep, Turn.span, Run.offset_of_frames hframes,
      Run.offset_of_frames hafter, share_eq_emission hentering hpassage hat hin]
  | visit entered first final rest hstep hentering hinside hfirst hlast hfinal hleave =>
    obtain ⟨⟨_, _, _, _, hinclude⟩, -⟩ := Run.entering?_eq_some hentering
    rw [hstretch.fragments_of_visit hframes hstep hentering hinside hfirst hlast hfinal hleave,
      share, hinclude]
    dsimp only
    rw [hentering]

/-! ### The text of a file -/

/-- A turn goes forward in its file. -/
theorem span_of_turn {content : Text} (hcontent : disk.content? file = some content)
    {turn : Turn} (h : turn ∈ session.turns disk root file) :
    turn.before.offset < turn.after.offset ∧ turn.span content ≠ [] ∧
      turn.before.atEnd = false := by
  obtain ⟨earlier, inside, later, hstretch⟩ := exists_stretch h
  obtain ⟨frame, outer, reading, reader, hframes, rfl, -, hrest, hat, hafter, -⟩ :=
    hstretch.shape
  have hsound := hstretch.sound.1
  have hoffset := hsound.offset_lt hframes hat.leadsTo (hat.shorter hrest)
  obtain ⟨content', hcontent', hin⟩ :=
    hsound.reached frame (by rw [hframes]; exact List.mem_cons_self)
  rw [hcontent] at hcontent'
  cases hcontent'
  obtain ⟨cs, hreads⟩ := hat.leadsTo
  have hlength : reader.position.offset =
      frame.reader.position.offset + (Text.ofCharacters cs).length := by
    rw [hreads.position_eq, Reader.offset_foldl_after]
  rw [Turn.span, Run.offset_of_frames hframes, Run.offset_of_frames hafter, hreads.bytes_eq hin]
  refine ⟨hoffset, ?_, ?_⟩
  · intro hempty
    rw [hempty, List.length_nil] at hlength
    omega
  · rw [Run.atEnd, hframes]
    simpa using hrest

/-- The first state of a run in a file is at the beginning of the file. -/
theorem offset_of_first {first : Run} {rest : List Run}
    (h : session.visits disk root file = first :: rest) : first.offset = 0 := by
  obtain ⟨earlier, later, hstates, hearlier, hfirst, -⟩ := List.filter_eq_cons_iff.mp h
  obtain ⟨start, last, after, hopened, hsteps, -, -⟩ := steps_of_states hstates
  have hstart : start.processed = start.beginning?.toList ++ [] := by
    obtain ⟨root', content, -, rfl⟩ := eq_of_opened hopened
    rfl
  have hcurrent : first.current? = some file := by simpa using hfirst
  have hsound := (Run.Sound.of_opened hopened).of_steps hsteps
  have hmem := hsound.2.mem_of_current? hcurrent
  rw [hsteps.processed_eq (.of_opened hopened) hstart, List.append_nil, List.mem_reverse] at hmem
  obtain ⟨state, hstate, hbeginning⟩ := List.mem_filterMap.mp hmem
  have hplace : state.current? = some file ∧ state.offset = 0 := by
    rw [Run.beginning?] at hbeginning
    split at hbeginning
    · cases hbeginning
    · rename_i frame outer hframes
      split at hbeginning
      · rename_i hoffset
        cases hbeginning
        exact ⟨Run.current?_eq_some_iff.mpr ⟨_, _, hframes⟩,
          (Run.offset_of_frames hframes).trans hoffset⟩
      · cases hbeginning
  rw [List.mem_append, List.mem_singleton] at hstate
  rcases hstate with hstate | rfl
  · exact absurd (by simpa using hplace.1) (hearlier state hstate)
  · exact hplace.2

/-- If the run comes to the end of a file, the spans of the turns are its text. -/
theorem spans_of_end {content : Text} (hcontent : disk.content? file = some content)
    (hend : session.ReadThrough disk root file) :
    ((session.turns disk root file).map (Turn.span content)).flatten = content := by
  obtain ⟨final, hfinal, hatEnd⟩ := hend
  obtain ⟨front, back, hvisits⟩ := List.append_of_mem hfinal
  have hback : back = [] := by
    cases back with
    | nil => rfl
    | cons next back =>
      have hturn : ⟨final, next⟩ ∈ session.turns disk root file := by
        rw [turns, hvisits]
        exact Turn.mem_between front back final next
      have hrest := (span_of_turn hcontent hturn).2.2
      rw [hatEnd] at hrest
      cases hrest
  subst hback
  obtain ⟨first, rest, hfirst⟩ := List.exists_cons_of_ne_nil (List.ne_nil_of_mem hfinal)
  have hforward : ∀ turn ∈ session.turns disk root file,
      turn.before.offset ≤ turn.after.offset :=
    fun turn hturn => Nat.le_of_lt (span_of_turn hcontent hturn).1
  have hlast : (first :: rest).getLast? = some final := by
    rw [← hfirst, hvisits, List.getLast?_concat]
  rw [turns, hfirst] at hforward
  have hoffset : final.offset = content.length := by
    obtain ⟨hstate, hcurrent⟩ := List.mem_filter.mp hfinal
    obtain ⟨reader, outer, hframes⟩ := Run.current?_eq_some_iff.mp (by simpa using hcurrent)
    obtain ⟨content', hcontent', hin⟩ := (sound_of_mem hstate).reached ⟨file, reader⟩
      (by rw [hframes]; exact List.mem_cons_self)
    rw [hcontent] at hcontent'
    cases hcontent'
    rw [Run.offset_of_frames hframes]
    refine hin.offset_of_end ?_
    rw [Run.atEnd, hframes] at hatEnd
    simpa using hatEnd
  rw [turns, hfirst, (Turn.flatten_spans content hforward hlast).2, offset_of_first hfirst,
    hoffset]
  simp

/-- The output of a successful run is what the turns of the root file add. -/
theorem fragments_of_success {content : Text}
    (hroot : disk.fetch (disk.canonical root) = .ok (file, content))
    (hsuccess : (session.process disk root).1 = none) :
    (session.process disk root).2.run.fragments = session.produced disk root file := by
  have hopened := opened_of_fetch session hroot
  obtain ⟨visited, last, hsteps, hframes, hrun⟩ := steps_of_success hopened hsuccess
  have hstates := states_of_steps hopened hsteps (.inl hframes)
  have hbegin : ((Run.ofMacros session.settings.predefined).enter file content).frames =
      [] ++ ⟨file, Reader.ofText content⟩ :: [] := rfl
  rcases hsteps.stays_or_leaves hbegin with
    ⟨above, reader, hopen⟩ | ⟨inner, final, rest, reader, hvisited, hfinal, -, hrest⟩
  · rw [hframes] at hopen
    exact absurd hopen (by simp)
  · have hlast : visited.getLast? = some final ∧ last = { final with frames := [] } := by
      cases hrest with
      | refl => exact ⟨by rw [hvisited, List.getLast?_concat], rfl⟩
      | head hne => exact absurd rfl hne
    obtain ⟨rest', hfirst⟩ : ∃ rest', visited =
        (Run.ofMacros session.settings.predefined).enter file content :: rest' := by
      cases hsteps with
      | refl => cases hlast.1
      | head => exact ⟨_, rfl⟩
    have hwhole : session.states disk root =
        [] ++ ((Run.ofMacros session.settings.predefined).enter file content :: rest' ++
          [last]) := by
      rw [hstates, hfirst]
      rfl
    have hin : final.current? = some file :=
      Run.current?_eq_some_iff.mpr ⟨reader, [], hfinal⟩
    have hout : ∀ state ∈ [last], state.current? ≠ some file := by simp [Run.current?, hframes]
    have hproduced := produced_eq hwhole (by simp) hout rfl hin (hfirst ▸ hlast.1)
    have hsame : last.fragments = final.fragments := by rw [hlast.2]; rfl
    rw [hrun, Run.warnUnclosed_fragments, hsame, hproduced]
    exact List.nil_append _

/-- A run loses nothing of a file, and takes nothing twice or out of order.  If it
comes to the end of a file, the spans of the turns of this file are not empty, each
begins where the one before it ended, and together they are the content.  Each turn
of a file adds its share to the output and nothing else, whether the run comes to the
end of the file or not.  If the run succeeds, its output is what the turns of the
root file add. -/
theorem text_accounted_for (session : Session) (disk : Files.Disk) (root : Text)
    {file : Files.Address} {content : Text} (hcontent : disk.content? file = some content) :
    (session.ReadThrough disk root file →
      (∀ turn ∈ session.turns disk root file, turn.span content ≠ []) ∧
      ((session.turns disk root file).IsChain fun turn later =>
        turn.after.offset = later.before.offset) ∧
      ((session.turns disk root file).map (Turn.span content)).flatten = content) ∧
    (∀ turn ∈ session.turns disk root file, turn.after.fragments =
      turn.before.fragments ++ session.share disk root turn.before (turn.span content)) ∧
    (disk.fetch (disk.canonical root) = .ok (file, content) →
      (session.process disk root).1 = none →
      (session.process disk root).2.run.fragments = session.produced disk root file) := by
  refine ⟨fun hend => ⟨?_, ?_, spans_of_end hcontent hend⟩, ?_, ?_⟩
  · intro turn hturn
    exact (span_of_turn hcontent hturn).2.1
  · refine (Turn.between_isChain _).imp ?_
    intro turn later heq
    rw [heq]
  · intro turn hturn
    exact fragments_of_turn hcontent hturn
  · intro hroot hsuccess
    exact fragments_of_success hroot hsuccess

/-- Constructs of all kinds, a byte that is no character, an include of a new file and
one of the including file. -/
def medley : Text :=
  bytes "#define A v\n\"s\\\"\"" ++ 0xFF :: bytes "#include \"./b.xs\"\n@A@@C@/*c*/" ++
    bytes "#include \"main.xs\"\n#ifdef B\nx\n#endif\n!"

/-- The run over the main file fails behind the include. -/
def interrupted : Files.Disk where
  nodes := [
    ([bytes "w"], .directory),
    ([bytes "w", bytes "main.xs"], .file (bytes "#include \"./a.xs\"\n@")),
    ([bytes "w", bytes "a.xs"], .file medley),
    ([bytes "w", bytes "b.xs"], .file (bytes "b@A@"))]
  workingDirectory := [bytes "w"]

theorem text_accounted_for_interrupted :
    ((new interrupted [] .empty).process interrupted (bytes "main.xs")).1 ≠ none ∧
    (new interrupted [] .empty).ReadThrough interrupted (bytes "main.xs")
      [bytes "w", bytes "a.xs"] ∧
    (((new interrupted [] .empty).turns interrupted (bytes "main.xs")
      [bytes "w", bytes "a.xs"]).map (Turn.span medley)).flatten = medley ∧
    (∀ turn ∈ (new interrupted [] .empty).turns interrupted (bytes "main.xs")
        [bytes "w", bytes "a.xs"],
      turn.after.fragments = turn.before.fragments ++ (new interrupted [] .empty).share interrupted
        (bytes "main.xs") turn.before (turn.span medley)) ∧
    (new interrupted [] .empty).produced interrupted (bytes "main.xs") [bytes "w", bytes "a.xs"] =
      [bytes "\"s\\\"\"", [0xFF], bytes "b", bytes "v", bytes "v", bytes "!"] := by
  have hcontent : interrupted.content? [bytes "w", bytes "a.xs"] = some medley := by
    decide +kernel
  have hend : (new interrupted [] .empty).ReadThrough interrupted (bytes "main.xs")
      [bytes "w", bytes "a.xs"] := by decide +kernel
  obtain ⟨hspans, hadded, -⟩ :=
    text_accounted_for (new interrupted [] .empty) interrupted (bytes "main.xs") hcontent
  exact ⟨by decide +kernel, hend, (hspans hend).2.2, hadded, by decide +kernel⟩

end Session

end XsPrep
