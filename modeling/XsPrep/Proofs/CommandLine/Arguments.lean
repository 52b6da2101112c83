import XsPrep.CommandLine.Flags
import XsPrep.Proofs.Files.Addresses

/-!
# What a command line says

A command line is a sequence of items: switches, flags with a value, and operands.  `Spells` is
its grammar, without rounds and without the options that are collected on the way.  Parsing
accepts exactly the command lines of the grammar, applies the flags in their order and returns the
operands in theirs (`parseAll_eq_ok_iff`).
-/

namespace XsPrep.CommandLine

/-! ## Items -/

/-- An item of a command line. -/
inductive Item where
  /-- A switch that is set to a truth value. -/
  | switch (name : Text) (on : Bool)
  /-- A flag with its value. -/
  | value (name text : Text)
  /-- An operand. -/
  | operand (text : Text)
deriving DecidableEq

namespace Item

/-- The operand that an item is. -/
def operand? : Item → Option Text
  | .operand text => some text
  | _ => none

/-- The value of an item that is one of the flags with the given names. -/
def given? (names : List Text) : Item → Option Text
  | .value name text => if name ∈ names then some text else none
  | _ => none

/-- The truth value of an item that is one of the switches with the given names. -/
def switched? (names : List Text) : Item → Option Bool
  | .switch name on => if name ∈ names then some on else none
  | _ => none

end Item

variable {σ : Type} {flags : List (Flag σ)} {options : σ}

/-- The options after an item. -/
def Item.apply (flags : List (Flag σ)) (options : σ) : Item → σ
  | .switch name on =>
    match (findFlag? flags name).map Flag.effect with
    | some (.switch set) => set on options
    | _ => options
  | .value name text =>
    match (findFlag? flags name).map Flag.effect with
    | some (.value _ set) => set text options
    | _ => options
  | .operand _ => options

/-- There is a switch with a name. -/
def IsSwitch (flags : List (Flag σ)) (name : Text) : Prop :=
  ∃ set, (findFlag? flags name).map Flag.effect = some (.switch set)

/-- There is a flag with a name that takes a value. -/
def TakesValue (flags : List (Flag σ)) (name : Text) : Prop :=
  ∃ word set, (findFlag? flags name).map Flag.effect = some (.value word set)

/-- The dashes before the name of a flag. -/
def dashes : List Text := [bytes "-", bytes "--"]

/-- The arguments spell the items one behind the other. -/
inductive Spells (flags : List (Flag σ)) : List Text → List Item → Prop where
  /-- Nothing spells nothing. -/
  | nil : Spells flags [] []
  /-- An operand does not look like a flag. -/
  | operand {text : Text} {rest : List Text} {items : List Item} :
    text = [] ∨ text = bytes "-" ∨ text.head? ≠ some Byte.dash → Spells flags rest items →
      Spells flags (text :: rest) (.operand text :: items)
  /-- Behind two dashes anything is an operand. -/
  | behindDashes {text : Text} {rest : List Text} {items : List Item} :
    Spells flags rest items → Spells flags (bytes "--" :: text :: rest) (.operand text :: items)
  /-- Two dashes at the end mean nothing. -/
  | dashesAtEnd : Spells flags [bytes "--"] []
  /-- A switch that is turned on. -/
  | switch {front name : Text} {rest : List Text} {items : List Item} :
    front ∈ dashes → IsSwitch flags name → Spells flags rest items →
      Spells flags ((front ++ name) :: rest) (.switch name true :: items)
  /-- A switch with a truth value. -/
  | switchTo {front name value : Text} {on : Bool} {rest : List Text} {items : List Item} :
    front ∈ dashes → IsSwitch flags name → value.truth? = some on → Spells flags rest items →
      Spells flags ((front ++ name ++ Byte.equals :: value) :: rest) (.switch name on :: items)
  /-- A flag with its value in the same argument. -/
  | valueBehind {front name value : Text} {rest : List Text} {items : List Item} :
    front ∈ dashes → TakesValue flags name → Spells flags rest items →
      Spells flags ((front ++ name ++ Byte.equals :: value) :: rest) (.value name value :: items)
  /-- A flag with its value in the next argument. -/
  | valueNext {front name value : Text} {rest : List Text} {items : List Item} :
    front ∈ dashes → TakesValue flags name → Spells flags rest items →
      Spells flags ((front ++ name) :: value :: rest) (.value name value :: items)

/-! ## Single arguments -/

theorem Argument.ofName_eq_flag {t name : Text} {value : Option Text}
    (h : Argument.ofName t = .flag name value) :
    (value = none ∧ t = name) ∨ ∃ text, value = some text ∧ t = name ++ Byte.equals :: text := by
  cases t with
  | nil => cases h
  | cons b rest =>
    rw [ofName] at h
    split at h
    · cases h
    · rcases Text.cut_cases Byte.equals rest with hcut | ⟨before, after, hcut, hrest⟩
      · rw [hcut] at h
        cases h
        exact .inl ⟨rfl, rfl⟩
      · rw [hcut] at h
        cases h
        exact .inr ⟨after, rfl, by rw [hrest]; rfl⟩

/-- A flag is spelled by dashes, its name and its value. -/
theorem Argument.ofText_eq_flag {argument name : Text} {value : Option Text}
    (h : Argument.ofText argument = .flag name value) :
    ∃ front ∈ dashes, (value = none ∧ argument = front ++ name) ∨
      ∃ text, value = some text ∧ argument = front ++ name ++ Byte.equals :: text := by
  have hone : bytes "-" = [Byte.dash] := rfl
  have htwo : bytes "--" = [Byte.dash, Byte.dash] := rfl
  have hbehind : ∀ front ∈ dashes, ∀ t, argument = front ++ t →
      Argument.ofName t = .flag name value → ∃ front ∈ dashes,
        (value = none ∧ argument = front ++ name) ∨
          ∃ text, value = some text ∧ argument = front ++ name ++ Byte.equals :: text := by
    rintro front hfront t rfl ht
    refine ⟨front, hfront, ?_⟩
    rcases ofName_eq_flag ht with ⟨hvalue, rfl⟩ | ⟨text, hvalue, rfl⟩
    · exact .inl ⟨hvalue, rfl⟩
    · exact .inr ⟨text, hvalue, (List.append_assoc _ _ _).symm⟩
  unfold ofText at h
  split at h
  · rename_i a b rest
    split at h
    · cases h
    rename_i ha
    obtain rfl := Decidable.not_not.mp ha
    split at h
    · exact hbehind (bytes "-") (by simp [dashes]) _ (by rw [hone]; rfl) h
    rename_i hb
    obtain rfl := Decidable.not_not.mp hb
    split at h
    · cases h
    · exact hbehind (bytes "--") (by simp [dashes]) _ (by rw [htwo]; rfl) h
  · cases h

theorem Argument.ofName_ne (t : Text) :
    Argument.ofName t ≠ .operand ∧ Argument.ofName t ≠ .terminator := by
  cases t with
  | nil => simp [ofName]
  | cons b rest =>
    rw [ofName]
    split <;> simp

theorem Argument.ofText_eq_operand_iff {argument : Text} :
    Argument.ofText argument = .operand ↔
      argument = [] ∨ argument = bytes "-" ∨ argument.head? ≠ some Byte.dash := by
  have hone : bytes "-" = [Byte.dash] := rfl
  rw [hone]
  match argument with
  | [] => simp [ofText]
  | [a] =>
    by_cases ha : a = Byte.dash <;> simp [ofText, ha]
  | a :: b :: rest =>
    rw [ofText]
    split
    · rename_i ha
      simp [ha]
    · rename_i ha
      obtain rfl := Decidable.not_not.mp ha
      split
      · simp [ofName_ne]
      · split <;> simp [ofName_ne]

theorem Argument.ofText_eq_terminator_iff {argument : Text} :
    Argument.ofText argument = .terminator ↔ argument = bytes "--" := by
  have htwo : bytes "--" = [Byte.dash, Byte.dash] := rfl
  rw [htwo]
  match argument with
  | [] => simp [ofText]
  | [a] => simp [ofText]
  | a :: b :: rest =>
    rw [ofText]
    split
    · rename_i ha
      simp [ha]
    · rename_i ha
      obtain rfl := Decidable.not_not.mp ha
      split
      · rename_i hb
        simp [hb, ofName_ne]
      · rename_i hb
        obtain rfl := Decidable.not_not.mp hb
        split
        · rename_i hrest
          simpa using hrest
        · rename_i hrest
          simpa [ofName_ne] using hrest

/-- A name that a flag can have. -/
def IsFlagName (name : Text) : Prop :=
  name ≠ [] ∧ name.head? ≠ some Byte.dash ∧ Byte.equals ∉ name

instance (name : Text) : Decidable (IsFlagName name) := inferInstanceAs (Decidable (_ ∧ _))

theorem Argument.ofText_front {front name : Text} (hfront : front ∈ dashes)
    (hname : IsFlagName name) (more : Text) :
    Argument.ofText (front ++ (name ++ more)) = .ofName (name ++ more) := by
  obtain ⟨hne, hdash, -⟩ := hname
  obtain ⟨b, name, rfl⟩ := List.exists_cons_of_ne_nil hne
  have hb : b ≠ Byte.dash := by simpa using hdash
  have hone : bytes "-" = [Byte.dash] := rfl
  have htwo : bytes "--" = [Byte.dash, Byte.dash] := rfl
  simp only [dashes, hone, htwo, List.mem_cons, List.not_mem_nil, or_false] at hfront
  rcases hfront with rfl | rfl <;> simp [ofText, hb]

theorem IsFlagName.exists_cons {name : Text} (h : IsFlagName name) :
    ∃ b rest, name = b :: rest ∧ ¬(b = Byte.dash ∨ b = Byte.equals) ∧ Byte.equals ∉ rest := by
  obtain ⟨hne, hdash, hequals⟩ := h
  obtain ⟨b, rest, rfl⟩ := List.exists_cons_of_ne_nil hne
  rw [List.mem_cons, not_or] at hequals
  refine ⟨b, rest, rfl, ?_, hequals.2⟩
  rintro (hb | hb)
  · simp [hb] at hdash
  · exact hequals.1 hb.symm

theorem Argument.ofName_name {name : Text} (hname : IsFlagName name) :
    Argument.ofName name = .flag name none := by
  obtain ⟨b, rest, rfl, hb, hequals⟩ := hname.exists_cons
  rw [ofName, if_neg hb, Text.cut_of_notMem hequals]

theorem Argument.ofName_value {name : Text} (hname : IsFlagName name) (value : Text) :
    Argument.ofName (name ++ Byte.equals :: value) = .flag name (some value) := by
  obtain ⟨b, rest, rfl, hb, hequals⟩ := hname.exists_cons
  rw [List.cons_append, ofName, if_neg hb, Text.cut_append hequals]

theorem Argument.ofText_name {front name : Text} (hfront : front ∈ dashes)
    (hname : IsFlagName name) : Argument.ofText (front ++ name) = .flag name none := by
  have h := ofText_front hfront hname []
  rwa [List.append_nil, ofName_name hname] at h

theorem Argument.ofText_value {front name : Text} (hfront : front ∈ dashes)
    (hname : IsFlagName name) (value : Text) :
    Argument.ofText (front ++ name ++ Byte.equals :: value) = .flag name (some value) := by
  rw [List.append_assoc, ofText_front hfront hname, ofName_value hname]

/-! ## Rounds -/

/-- What is left to do behind a round. -/
def resume (flags : List (Flag σ)) : Except Refusal (σ × List Text) →
    Except Refusal (σ × List Text)
  | .error refusal => .error refusal
  | .ok (options, []) => .ok (options, [])
  | .ok (options, operand :: rest) =>
    (parseAll flags rest options).map fun r => (r.1, operand :: r.2)

theorem parseAll_eq (flags : List (Flag σ)) (arguments : List Text) (options : σ) :
    parseAll flags arguments options = resume flags (parseRound flags arguments options) := by
  rw [parseAll]
  split
  · rename_i h
    rw [h, resume]
  · rename_i h
    rw [h, resume]
  · rename_i options' operand rest h
    rw [h, resume]
    cases parseAll flags rest options' with
    | error refusal => rfl
    | ok r => rfl

/-- What stands before the next operand is taken argument by argument. -/
theorem parseAll_of_round {arguments rest : List Text} {options' : σ}
    (h : parseRound flags arguments options = parseRound flags rest options') :
    parseAll flags arguments options = parseAll flags rest options' := by
  rw [parseAll_eq, h, ← parseAll_eq]

theorem parseAll_of_operand {arguments rest : List Text} {operand : Text}
    (h : parseRound flags arguments options = .ok (options, operand :: rest)) :
    parseAll flags arguments options =
      (parseAll flags rest options).map fun r => (r.1, operand :: r.2) := by
  rw [parseAll_eq, h, resume]

/-- A flag that is not refused is an item at the front of the command line. -/
theorem item_of_flag {argument name : Text} {value : Option Text} {rest : List Text}
    {r : σ × List Text} (hargument : Argument.ofText argument = .flag name value)
    (h : parseRound flags (argument :: rest) options = .ok r) :
    ∃ item rest', rest'.length ≤ rest.length ∧ item.operand? = none ∧
      parseRound flags (argument :: rest) options =
        parseRound flags rest' (item.apply flags options) ∧
      ∀ items, Spells flags rest' items → Spells flags (argument :: rest) (item :: items) := by
  obtain ⟨front, hfront, hspelled⟩ := Argument.ofText_eq_flag hargument
  rw [parseRound, hargument] at h ⊢
  dsimp only at h ⊢
  cases heffect : (findFlag? flags name).map Flag.effect with
  | none =>
    rw [heffect] at h
    cases h
  | some effect =>
    rw [heffect] at h
    cases effect with
    | switch set =>
      dsimp only at h ⊢
      rcases hspelled with ⟨rfl, rfl⟩ | ⟨text, rfl, rfl⟩
      · refine ⟨.switch name true, rest, le_rfl, rfl, ?_, fun _ => .switch hfront ⟨set, heffect⟩⟩
        simp only [Item.apply, heffect]
      · cases htruth : Text.truth? text with
        | none =>
          simp only [htruth] at h
          cases h
        | some on =>
          refine ⟨.switch name on, rest, le_rfl, rfl, ?_,
            fun _ => .switchTo hfront ⟨set, heffect⟩ htruth⟩
          simp only [Item.apply, heffect, htruth]
    | value word set =>
      dsimp only at h ⊢
      rcases hspelled with ⟨rfl, rfl⟩ | ⟨text, rfl, rfl⟩
      · cases rest with
        | nil => cases h
        | cons text rest =>
          refine ⟨.value name text, rest, Nat.le_succ _, rfl, ?_,
            fun _ => .valueNext hfront ⟨word, set, heffect⟩⟩
          simp only [Item.apply, heffect]
      · refine ⟨.value name text, rest, le_rfl, rfl, ?_,
          fun _ => .valueBehind hfront ⟨word, set, heffect⟩⟩
        simp only [Item.apply, heffect]

/-! ## Parsing is reading the grammar -/

/-- What parsing returns for the given items. -/
def Item.results (flags : List (Flag σ)) (options : σ) (items : List Item) : σ × List Text :=
  (items.foldl (Item.apply flags) options, items.filterMap Item.operand?)

theorem Item.results_cons {item : Item} (h : item.operand? = none) (items : List Item) :
    results flags options (item :: items) = results flags (item.apply flags options) items := by
  rw [results, results, List.filterMap_cons_none h, List.foldl_cons]

theorem spells_of_parseAll {arguments : List Text} {r : σ × List Text}
    (h : parseAll flags arguments options = .ok r) :
    ∃ items, Spells flags arguments items ∧ r = Item.results flags options items := by
  -- Behind an operand, parsing goes on with fewer arguments.
  induction hlength : arguments.length using Nat.strongRecOn generalizing arguments options r with
  | ind n ih =>
  subst hlength
  have hoperand : ∀ {rest : List Text} {operand : Text}, rest.length < arguments.length →
      parseRound flags arguments options = .ok (options, operand :: rest) →
      ∃ items, Spells flags rest items ∧
        r = Item.results flags options (.operand operand :: items) := by
    intro rest operand hlt hround
    rw [parseAll_of_operand hround] at h
    cases hrest : parseAll flags rest options with
    | error refusal =>
      rw [hrest] at h
      cases h
    | ok r' =>
      rw [hrest] at h
      obtain ⟨items, hitems, rfl⟩ := ih _ hlt hrest rfl
      cases h
      exact ⟨items, hitems, rfl⟩
  match arguments with
  | [] =>
    rw [parseAll_eq, parseRound, resume] at h
    cases h
    exact ⟨[], .nil, rfl⟩
  | argument :: rest =>
    cases hargument : Argument.ofText argument with
    | operand =>
      have hround : parseRound flags (argument :: rest) options =
          .ok (options, argument :: rest) := by
        rw [parseRound, hargument]
      obtain ⟨items, hitems, hr⟩ := hoperand (Nat.lt_succ_self _) hround
      exact ⟨_, .operand (Argument.ofText_eq_operand_iff.mp hargument) hitems, hr⟩
    | terminator =>
      obtain rfl := Argument.ofText_eq_terminator_iff.mp hargument
      have hround : parseRound flags (bytes "--" :: rest) options = .ok (options, rest) := by
        rw [parseRound, hargument]
      cases rest with
      | nil =>
        rw [parseAll_eq, hround, resume] at h
        cases h
        exact ⟨[], .dashesAtEnd, rfl⟩
      | cons operand rest =>
        have hlt : rest.length < (bytes "--" :: operand :: rest).length := by
          simp only [List.length_cons]
          omega
        obtain ⟨items, hitems, hr⟩ := hoperand hlt hround
        exact ⟨_, .behindDashes hitems, hr⟩
    | malformed =>
      rw [parseAll_eq, parseRound, hargument, resume] at h
      cases h
    | flag name value =>
      cases hround : parseRound flags (argument :: rest) options with
      | error refusal =>
        rw [parseAll_eq, hround, resume] at h
        cases h
      | ok round =>
        obtain ⟨item, rest', hlength, hnone, hrest, hspells⟩ := item_of_flag hargument hround
        rw [parseAll_of_round hrest] at h
        obtain ⟨items, hitems, hr⟩ := ih _ (Nat.lt_succ_of_le hlength) h rfl
        exact ⟨item :: items, hspells items hitems, hr.trans (Item.results_cons hnone items).symm⟩

/-- The flags have names that flags can have. -/
def HasFlagNames (flags : List (Flag σ)) : Prop := ∀ flag ∈ flags, IsFlagName (bytes flag.name)

theorem HasFlagNames.isFlagName (h : HasFlagNames flags) {name : Text} {effect : Effect σ}
    (heffect : (findFlag? flags name).map Flag.effect = some effect) : IsFlagName name := by
  obtain ⟨flag, hflag, -⟩ := Option.map_eq_some_iff.mp heffect
  have hname : bytes flag.name = name := by simpa using List.find?_some hflag
  exact hname ▸ h flag (List.mem_of_find?_eq_some hflag)

theorem parseAll_of_spells (hflags : HasFlagNames flags) {arguments : List Text}
    {items : List Item} (h : Spells flags arguments items) :
    parseAll flags arguments options = .ok (Item.results flags options items) := by
  induction h generalizing options with
  | nil => rw [parseAll_eq, parseRound, resume]; rfl
  | @operand text rest items htext _ ih =>
    have hround : parseRound flags (text :: rest) options = .ok (options, text :: rest) := by
      rw [parseRound, Argument.ofText_eq_operand_iff.mpr htext]
    rw [parseAll_of_operand hround, ih]
    rfl
  | @behindDashes text rest items _ ih =>
    have hround : parseRound flags (bytes "--" :: text :: rest) options =
        .ok (options, text :: rest) := by
      rw [parseRound, Argument.ofText_eq_terminator_iff.mpr rfl]
    rw [parseAll_of_operand hround, ih]
    rfl
  | dashesAtEnd =>
    rw [parseAll_eq, parseRound, Argument.ofText_eq_terminator_iff.mpr rfl]
    rfl
  | @switch front name rest items hfront hswitch _ ih =>
    obtain ⟨set, heffect⟩ := hswitch
    have hround : parseRound flags ((front ++ name) :: rest) options =
        parseRound flags rest ((Item.switch name true).apply flags options) := by
      rw [parseRound, Argument.ofText_name hfront (hflags.isFlagName heffect)]
      simp only [Item.apply, heffect]
    rw [parseAll_of_round hround, ih, Item.results_cons rfl]
  | @switchTo front name value on rest items hfront hswitch hon _ ih =>
    obtain ⟨set, heffect⟩ := hswitch
    have hround : parseRound flags ((front ++ name ++ Byte.equals :: value) :: rest) options =
        parseRound flags rest ((Item.switch name on).apply flags options) := by
      rw [parseRound, Argument.ofText_value hfront (hflags.isFlagName heffect)]
      simp only [Item.apply, heffect, hon]
    rw [parseAll_of_round hround, ih, Item.results_cons rfl]
  | @valueBehind front name value rest items hfront htakes _ ih =>
    obtain ⟨word, set, heffect⟩ := htakes
    have hround : parseRound flags ((front ++ name ++ Byte.equals :: value) :: rest) options =
        parseRound flags rest ((Item.value name value).apply flags options) := by
      rw [parseRound, Argument.ofText_value hfront (hflags.isFlagName heffect)]
      simp only [Item.apply, heffect]
    rw [parseAll_of_round hround, ih, Item.results_cons rfl]
  | @valueNext front name value rest items hfront htakes _ ih =>
    obtain ⟨word, set, heffect⟩ := htakes
    have hround : parseRound flags ((front ++ name) :: value :: rest) options =
        parseRound flags rest ((Item.value name value).apply flags options) := by
      rw [parseRound, Argument.ofText_name hfront (hflags.isFlagName heffect)]
      simp only [Item.apply, heffect]
    rw [parseAll_of_round hround, ih, Item.results_cons rfl]

/-- Parsing accepts the command lines of the grammar. -/
theorem parseAll_eq_ok_iff (hflags : HasFlagNames flags) {arguments : List Text}
    {r : σ × List Text} :
    parseAll flags arguments options = .ok r ↔
      ∃ items, Spells flags arguments items ∧ r = Item.results flags options items := by
  refine ⟨spells_of_parseAll, ?_⟩
  rintro ⟨items, hitems, rfl⟩
  exact parseAll_of_spells hflags hitems

end XsPrep.CommandLine
