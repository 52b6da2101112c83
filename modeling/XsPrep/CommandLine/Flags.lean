import XsPrep.Text.Quoted

/-!
# Flags

Arguments of a command are flags and operands.  A flag starts with one or two
dashes.  A switch needs no value and takes one only behind `=`.  Any other flag
takes a value behind `=` or as the next argument.  A single dash is an operand,
and two dashes alone end the flags before the next operand.

The arguments up to the next operand are one round.  A round changes the options
of the command flag by flag, or is refused at the first argument that fits no
flag.
-/

namespace XsPrep.CommandLine

/-- What a flag does to the options `σ` of a command. -/
inductive Effect (σ : Type) where
  /-- It sets a truth value. -/
  | switch (set : Bool → σ → σ)
  /-- It sets a text.  `word` stands for the text in the usage. -/
  | value (word : String) (set : Text → σ → σ)

/-- A flag of a command with options `σ`. -/
structure Flag (σ : Type) where
  /-- Its name without dashes. -/
  name : String
  /-- What it does. -/
  effect : Effect σ
  /-- What it is for. -/
  description : String
  /-- The value it has if it is not given, if that is worth a mention. -/
  preset : Option Text := none

/-! ## Usage -/

namespace Flag

variable {σ : Type}

/-- The name of a flag and its value, as the usage shows them. -/
def synopsis (flag : Flag σ) : Text :=
  bytes "  -" ++ bytes flag.name ++
    match flag.effect with
    | .switch _ => []
    | .value word _ => bytes " " ++ bytes word

/-- The usage of a flag.  Only the shortest synopsis has its description on the
same line. -/
def usage (flag : Flag σ) : Text :=
  flag.synopsis ++ (if flag.synopsis.length ≤ 4 then bytes "\t" else bytes "\n    \t") ++
    bytes flag.description ++
    (match flag.preset with
      | some preset => bytes " (default " ++ preset.quoted ++ bytes ")"
      | none => []) ++
    bytes "\n"

end Flag

/-- The usage of all flags of a command. -/
def flagsUsage {σ : Type} (flags : List (Flag σ)) : Text := flags.flatMap Flag.usage

/-! ## Arguments -/

/-- What an argument is. -/
inductive Argument where
  /-- An operand. -/
  | operand
  /-- The end of a round. -/
  | terminator
  /-- A flag by its name, with the value behind `=`. -/
  | flag (name : Text) (value : Option Text)
  /-- Dashes without a name. -/
  | malformed
deriving DecidableEq, Repr

/-- The flag with the given text behind its dashes. -/
def Argument.ofName (t : Text) : Argument :=
  match t with
  | [] => .malformed
  | b :: rest =>
    if b = Byte.dash ∨ b = Byte.equals then .malformed
    else
      match Text.cut Byte.equals rest with
      | (name, value) => .flag (b :: name) value

/-- What an argument is. -/
def Argument.ofText : Text → Argument
  | a :: b :: rest =>
    if a ≠ Byte.dash then .operand
    else if b ≠ Byte.dash then .ofName (b :: rest)
    else if rest.isEmpty then .terminator
    else .ofName rest
  | _ => .operand

/-- Why arguments are not accepted. -/
inductive Refusal where
  /-- They ask for the usage. -/
  | help
  /-- An argument has dashes but no name. -/
  | malformed (argument : Text)
  /-- There is no flag with a name. -/
  | undefined (name : Text)
  /-- A flag has no value. -/
  | missingValue (name : Text)
  /-- A switch has a value that is no truth value. -/
  | notTruth (name value : Text)
deriving DecidableEq, Repr

/-- The message of a refusal.  There is none for the request of the usage. -/
def Refusal.message? : Refusal → Option Text
  | .help => none
  | .malformed argument => some (bytes "bad flag syntax: " ++ argument)
  | .undefined name => some (bytes "flag provided but not defined: -" ++ name)
  | .missingValue name => some (bytes "flag needs an argument: -" ++ name)
  | .notTruth name value =>
    some (bytes "invalid boolean value " ++ value.quoted ++ bytes " for -" ++ name ++
      bytes ": parse error")

/-- The names that ask for the usage if no flag has them. -/
def helpNames : List Text := [bytes "help", bytes "h"]

/-- The refusal of a name that no flag has. -/
def unknownName (name : Text) : Refusal :=
  if helpNames.contains name then .help else .undefined name

/-- The flag with a name. -/
def findFlag? {σ : Type} (flags : List (Flag σ)) (name : Text) : Option (Flag σ) :=
  flags.find? fun flag => bytes flag.name = name

/-- Parses one round of arguments.  The result is the options afterwards and the
arguments from the next operand on. -/
def parseRound {σ : Type} (flags : List (Flag σ)) :
    List Text → σ → Except Refusal (σ × List Text)
  | [], options => .ok (options, [])
  | argument :: rest, options =>
    match Argument.ofText argument with
    | .operand => .ok (options, argument :: rest)
    | .terminator => .ok (options, rest)
    | .malformed => .error (.malformed argument)
    | .flag name value =>
      match (findFlag? flags name).map Flag.effect with
      | none => .error (unknownName name)
      | some (.switch set) =>
        match value with
        | none => parseRound flags rest (set true options)
        | some value =>
          match value.truth? with
          | some b => parseRound flags rest (set b options)
          | none => .error (.notTruth name value)
      | some (.value _ set) =>
        match value, rest with
        | some value, rest => parseRound flags rest (set value options)
        | none, value :: rest => parseRound flags rest (set value options)
        | none, [] => .error (.missingValue name)

/-- A round leaves no more arguments than there were. -/
theorem parseRound_length {σ : Type} {flags : List (Flag σ)} {arguments : List Text}
    {options : σ} {r : σ × List Text} (h : parseRound flags arguments options = .ok r) :
    r.2.length ≤ arguments.length := by
  fun_induction parseRound flags arguments options
  case case1 | case2 => exact (Except.ok.inj h) ▸ Nat.le_refl _
  case case3 => exact (Except.ok.inj h) ▸ Nat.le_succ _
  case case4 | case5 | case8 | case11 => cases h
  case case6 ih | case7 ih | case9 ih => exact Nat.le_succ_of_le (ih h)
  case case10 ih => exact Nat.le_trans (ih h) (Nat.le_succ_of_le (Nat.le_succ _))

set_option linter.unusedVariables false in
/-- Parses rounds of arguments until none is left.  The result is the options
afterwards and the operands. -/
def parseAll {σ : Type} (flags : List (Flag σ)) (arguments : List Text) (options : σ) :
    Except Refusal (σ × List Text) :=
  match h : parseRound flags arguments options with
  | .error refusal => .error refusal
  | .ok (options, []) => .ok (options, [])
  | .ok (options, operand :: rest) =>
    match parseAll flags rest options with
    | .error refusal => .error refusal
    | .ok (options, operands) => .ok (options, operand :: operands)
termination_by arguments.length
decreasing_by exact Nat.lt_of_succ_le (parseRound_length h)

end XsPrep.CommandLine
