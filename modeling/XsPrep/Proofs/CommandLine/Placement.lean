import XsPrep.Proofs.CommandLine.Delivery

/-!
# Where the script stands

An operand ends a round, and the next round starts with the options that the rounds before it left
behind.  So flags are applied in their order wherever operands stand between them
(`parseAll_around`), and the preprocessor takes its script before, between and behind its flags
alike (`script_stands_anywhere`).

The rounds are a loop that has no bound of its own.  Each pass but the last takes at least the
operand that ends its round (`Loop.length_of_pass`), so there is at most one pass more than there
are arguments (`Loop.run_eq`).
-/

namespace XsPrep.CommandLine

section

variable {σ : Type} {flags : List (Flag σ)} {options : σ}

/-! ## Flags without operands -/

/-- The arguments spell one flag, which is known and has the value it needs. -/
inductive SpellsFlag (flags : List (Flag σ)) : List Text → Item → Prop where
  /-- A switch that is turned on. -/
  | switch {front name : Text} (hfront : front ∈ dashes) (hname : IsSwitch flags name) :
      SpellsFlag flags [front ++ name] (.switch name true)
  /-- A switch with a truth value. -/
  | switchTo {front name value : Text} {on : Bool} (hfront : front ∈ dashes)
      (hname : IsSwitch flags name) (hon : value.truth? = some on) :
      SpellsFlag flags [front ++ name ++ Byte.equals :: value] (.switch name on)
  /-- A flag with its value in the same argument. -/
  | valueBehind {front name value : Text} (hfront : front ∈ dashes)
      (hname : TakesValue flags name) :
      SpellsFlag flags [front ++ name ++ Byte.equals :: value] (.value name value)
  /-- A flag with its value in the next argument. -/
  | valueNext {front name value : Text} (hfront : front ∈ dashes)
      (hname : TakesValue flags name) :
      SpellsFlag flags [front ++ name, value] (.value name value)

/-- The arguments spell flags one behind the other, and nothing else. -/
inductive SpellsFlags (flags : List (Flag σ)) : List Text → List Item → Prop where
  | nil : SpellsFlags flags [] []
  | cons {arguments rest : List Text} {item : Item} {items : List Item}
      (hflag : SpellsFlag flags arguments item) (hrest : SpellsFlags flags rest items) :
      SpellsFlags flags (arguments ++ rest) (item :: items)

theorem SpellsFlag.spells {arguments rest : List Text} {item : Item} {items : List Item}
    (h : SpellsFlag flags arguments item) (hrest : Spells flags rest items) :
    Spells flags (arguments ++ rest) (item :: items) := by
  cases h with
  | switch hfront hname => exact .switch hfront hname hrest
  | switchTo hfront hname hon => exact .switchTo hfront hname hon hrest
  | valueBehind hfront hname => exact .valueBehind hfront hname hrest
  | valueNext hfront hname => exact .valueNext hfront hname hrest

theorem SpellsFlag.operand? {arguments : List Text} {item : Item}
    (h : SpellsFlag flags arguments item) : item.operand? = none := by
  cases h <;> rfl

namespace SpellsFlags

variable {front back rest : List Text} {items items' : List Item}

theorem append (h : SpellsFlags flags front items) (h' : SpellsFlags flags back items') :
    SpellsFlags flags (front ++ back) (items ++ items') := by
  induction h with
  | nil => exact h'
  | cons hflag _ ih =>
    rw [List.append_assoc]
    exact .cons hflag ih

/-- Flags can stand before any command line. -/
theorem spells (h : SpellsFlags flags front items) (hrest : Spells flags rest items') :
    Spells flags (front ++ rest) (items ++ items') := by
  induction h with
  | nil => exact hrest
  | cons hflag _ ih =>
    rw [List.append_assoc]
    exact hflag.spells ih

theorem operands (h : SpellsFlags flags front items) : items.filterMap Item.operand? = [] := by
  induction h with
  | nil => rfl
  | cons hflag _ ih => rw [List.filterMap_cons_none hflag.operand?, ih]

end SpellsFlags

/-- Between flags, one operand changes nothing of what they do. -/
theorem parseAll_around (hflags : HasFlagNames flags) {front back : List Text}
    {items items' : List Item} (hfront : SpellsFlags flags front items)
    (hback : SpellsFlags flags back items') {operand : Text}
    (hoperand : operand.head? ≠ some Byte.dash) :
    parseAll flags (front ++ operand :: back) options =
      .ok ((items ++ items').foldl (Item.apply flags) options, [operand]) := by
  have hbehind : Spells flags back items' := by
    have hspells := hback.spells .nil
    rwa [List.append_nil, List.append_nil] at hspells
  have hsome : (Item.operand operand).operand? = some operand := rfl
  rw [parseAll_of_spells hflags (hfront.spells (.operand (.inr (.inr hoperand)) hbehind)),
    Item.results, List.foldl_append, List.foldl_append, List.filterMap_append, hfront.operands,
    List.filterMap_cons_some hsome, hback.operands]
  rfl

/-! ## The loop over the rounds -/

/-- Where the loop over the rounds is. -/
structure Loop (σ : Type) where
  /-- The arguments that are left. -/
  arguments : List Text
  /-- The options so far. -/
  options : σ
  /-- The operands so far. -/
  operands : List Text

namespace Loop

/-- One pass of the loop.  It is the last one if nothing is left behind its round. -/
def pass (flags : List (Flag σ)) (loop : Loop σ) :
    Except Refusal (σ × List Text) ⊕ Loop σ :=
  match parseRound flags loop.arguments loop.options with
  | .error refusal => .inl (.error refusal)
  | .ok (options, []) => .inl (.ok (options, loop.operands))
  | .ok (options, operand :: rest) => .inr ⟨rest, options, loop.operands ++ [operand]⟩

/-- What the loop returns, if it ends within `limit` passes. -/
def run (flags : List (Flag σ)) : (limit : Nat) → Loop σ →
    Option (Except Refusal (σ × List Text))
  | 0, _ => none
  | limit + 1, loop =>
    match loop.pass flags with
    | .inl result => some result
    | .inr loop => run flags limit loop

theorem length_of_pass {loop loop' : Loop σ} (h : loop.pass flags = .inr loop') :
    loop'.arguments.length < loop.arguments.length := by
  unfold pass at h
  split at h
  · cases h
  · cases h
  · rename_i hround
    cases h
    exact parseRound_length hround

/-- What is left to parse from a place of the loop. -/
def result (flags : List (Flag σ)) (loop : Loop σ) : Except Refusal (σ × List Text) :=
  (parseAll flags loop.arguments loop.options).map fun r => (r.1, loop.operands ++ r.2)

theorem result_of_pass (loop : Loop σ) :
    loop.result flags = (loop.pass flags).elim id (result flags) := by
  rw [result, parseAll_eq, pass]
  cases parseRound flags loop.arguments loop.options with
  | error refusal => rfl
  | ok round =>
    obtain ⟨options, rest⟩ := round
    cases rest with
    | nil => simp [resume, Except.map]
    | cons operand rest =>
      simp only [resume, result, Sum.elim_inr]
      cases parseAll flags rest options with
      | error refusal => rfl
      | ok r => simp [Except.map]

/-- The loop ends with the result of parsing. -/
theorem run_eq {limit : Nat} (loop : Loop σ) (h : loop.arguments.length < limit) :
    run flags limit loop = some (loop.result flags) := by
  induction limit generalizing loop with
  | zero => cases h
  | succ limit ih =>
    rw [run, result_of_pass]
    cases hpass : loop.pass flags with
    | inl result => rfl
    | inr loop' =>
      -- The pass took an argument at least, so one pass less is enough for the others.
      have hshorter := length_of_pass hpass
      exact ih loop' (by omega)

end Loop

end

/-! ## The script of the preprocessor -/

namespace Preprocess

/-- The script can stand anywhere among complete flags: what is parsed is the same, and so is what
the command does.  Patterns and macros are collected in their order, and the last output file
counts.  Parsing ends for any arguments, after at most one pass more than there are arguments. -/
theorem script_stands_anywhere :
    (∀ {front back : List Text} {items items' : List Item} {script : Text},
      SpellsFlags flags front items → SpellsFlags flags back items' →
      script.head? ≠ some Byte.dash →
      ∃ options,
        parseAll flags (front ++ [script] ++ back) {} = .ok (options, [script]) ∧
        parseAll flags ([script] ++ front ++ back) {} = .ok (options, [script]) ∧
        parseAll flags (front ++ back ++ [script]) {} = .ok (options, [script]) ∧
        options.paths = pathsOf (items ++ items') ∧
        options.defines = definesOf (items ++ items') ∧
        options.out = outOf (items ++ items') ∧
        ∀ disk library,
          run disk library ([script] ++ front ++ back) =
            run disk library (front ++ [script] ++ back) ∧
          run disk library (front ++ back ++ [script]) =
            run disk library (front ++ [script] ++ back)) ∧
    ∀ (arguments : List Text) (options : Options),
      Loop.run flags (arguments.length + 1) ⟨arguments, options, []⟩ =
        some (parseAll flags arguments options) := by
  constructor
  · intro front back items items' script hfront hback hscript
    have hboth := hfront.append hback
    have hbetween : parseAll flags (front ++ script :: back) {} =
        .ok ((items ++ items').foldl (Item.apply flags) {}, [script]) :=
      parseAll_around hasFlagNames hfront hback hscript
    have hbefore : parseAll flags (script :: (front ++ back)) {} =
        .ok ((items ++ items').foldl (Item.apply flags) {}, [script]) :=
      parseAll_around hasFlagNames .nil hboth hscript
    have hbehind : parseAll flags (front ++ back ++ [script]) {} =
        .ok ((items ++ items' ++ []).foldl (Item.apply flags) {}, [script]) :=
      parseAll_around hasFlagNames hboth .nil hscript
    rw [List.append_nil] at hbehind
    obtain ⟨verbose, hoptions⟩ : ∃ verbose, (items ++ items').foldl (Item.apply flags) {} =
        optionsOf (items ++ items') verbose := foldl_apply_eq (items ++ items') {}
    rw [hoptions] at hbetween hbefore hbehind
    rw [List.append_assoc front, List.singleton_append, List.append_assoc [script],
      List.singleton_append]
    refine ⟨_, hbetween, hbefore, hbehind, rfl, rfl, rfl, fun disk library => ⟨?_, ?_⟩⟩
    · rw [run, run, hbefore, hbetween]
    · rw [run, run, hbehind, hbetween]
  · intro arguments options
    rw [Loop.run_eq _ (Nat.lt_succ_self arguments.length), Loop.result]
    cases parseAll flags arguments options with
    | error refusal => rfl
    | ok r => rfl

/-- Flags in all forms, also with values that look like flags. -/
def scattered : List Text := [bytes "-p", bytes "--", bytes "--out=a.xs", bytes "-no-libs"]

/-- More of them. -/
def scatteredOn : List Text :=
  [bytes "--verbose=F", bytes "-D", bytes "-X=1", bytes "-paths=b", bytes "--o", bytes "c.xs"]

theorem script_stands_anywhere_scattered :
    ∃ items items', SpellsFlags flags scattered items ∧ SpellsFlags flags scatteredOn items' ∧
      (bytes "s.xs").head? ≠ some Byte.dash ∧
    ∃ options,
      parseAll flags (scattered ++ [bytes "s.xs"] ++ scatteredOn) {} =
        .ok (options, [bytes "s.xs"]) ∧
      parseAll flags ([bytes "s.xs"] ++ scattered ++ scatteredOn) {} =
        .ok (options, [bytes "s.xs"]) ∧
      parseAll flags (scattered ++ scatteredOn ++ [bytes "s.xs"]) {} =
        .ok (options, [bytes "s.xs"]) ∧
      options.paths = [bytes "--", bytes "b"] ∧ options.defines = [bytes "-X=1"] ∧
      options.out = bytes "c.xs" := by
  have hone : bytes "-" ∈ dashes := by simp [dashes]
  have htwo : bytes "--" ∈ dashes := by simp [dashes]
  have hscript : (bytes "s.xs").head? ≠ some Byte.dash := by decide
  have hfront : SpellsFlags flags scattered [.value (bytes "p") (bytes "--"),
      .value (bytes "out") (bytes "a.xs"), .switch (bytes "no-libs") true] := by
    show SpellsFlags flags ([bytes "-" ++ bytes "p", bytes "--"] ++
      ([bytes "--" ++ bytes "out" ++ Byte.equals :: bytes "a.xs"] ++
        ([bytes "-" ++ bytes "no-libs"] ++ []))) _
    refine .cons (.valueNext hone ⟨_, _, rfl⟩) (.cons (.valueBehind htwo ⟨_, _, rfl⟩) ?_)
    exact .cons (.switch hone ⟨_, rfl⟩) .nil
  have hback : SpellsFlags flags scatteredOn [.switch (bytes "verbose") false,
      .value (bytes "D") (bytes "-X=1"), .value (bytes "paths") (bytes "b"),
      .value (bytes "o") (bytes "c.xs")] := by
    show SpellsFlags flags ([bytes "--" ++ bytes "verbose" ++ Byte.equals :: bytes "F"] ++
      ([bytes "-" ++ bytes "D", bytes "-X=1"] ++
        ([bytes "-" ++ bytes "paths" ++ Byte.equals :: bytes "b"] ++
          ([bytes "--" ++ bytes "o", bytes "c.xs"] ++ [])))) _
    refine .cons (.switchTo htwo ⟨_, rfl⟩ (by decide)) (.cons (.valueNext hone ⟨_, _, rfl⟩) ?_)
    exact .cons (.valueBehind hone ⟨_, _, rfl⟩) (.cons (.valueNext htwo ⟨_, _, rfl⟩) .nil)
  obtain ⟨options, hbetween, hbefore, hbehind, hpaths, hdefines, hout, -⟩ :=
    script_stands_anywhere.1 hfront hback hscript
  exact ⟨_, _, hfront, hback, hscript, options, hbetween, hbefore, hbehind, hpaths, hdefines, hout⟩

end Preprocess

end XsPrep.CommandLine
