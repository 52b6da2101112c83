import XsPrep.Document.Quoted

/-!
# Tokens of a JSON document
-/

namespace XsPrep.Document

/-- A token. -/
inductive Token where
  /-- The opening of an object. -/
  | openObject
  /-- The closing of an object. -/
  | closeObject
  /-- The opening of an array. -/
  | openArray
  /-- The closing of an array. -/
  | closeArray
  /-- The mark between a key and its value. -/
  | colon
  /-- The mark between neighbours. -/
  | comma
  /-- The value `null`. -/
  | null
  /-- A truth value. -/
  | bool (value : Bool)
  /-- A number. -/
  | number
  /-- A string. -/
  | string (value : Text)
deriving DecidableEq, Repr

namespace Token

/-- White space between tokens. -/
def isSpace (code : Nat) : Bool := code == 0x20 || code == 0x09 || code == 0x0A || code == 0x0D

/-- The token of a single mark. -/
def ofMark? (code : Nat) : Option Token :=
  match code with
  | 0x7B => some .openObject
  | 0x7D => some .closeObject
  | 0x5B => some .openArray
  | 0x5D => some .closeArray
  | 0x3A => some .colon
  | 0x2C => some .comma
  | _ => none

/-- Whether a character is a decimal digit. -/
def isDigit (c : Character) : Bool := 0x30 ≤ c.code && c.code ≤ 0x39

/-- The number of digits at the beginning. -/
def digits (cs : List Character) : Nat := (cs.takeWhile isDigit).length

/-- The length of one or more digits. -/
def someDigits? (cs : List Character) : Option Nat :=
  if digits cs = 0 then none else some (digits cs)

/-- The length of the whole part of a number: no zero stands before another
digit. -/
def wholeLength? (cs : List Character) : Option Nat :=
  match cs with
  | [] => none
  | c :: _ => if c.code = 0x30 then some 1 else someDigits? cs

/-- The length of the fraction of a number, if it is well formed. -/
def fractionLength? : List Character → Option Nat
  | [] => some 0
  | c :: cs => if c.code = 0x2E then (someDigits? cs).map (· + 1) else some 0

/-- The length of the exponent of a number, if it is well formed. -/
def exponentLength? : List Character → Option Nat
  | [] => some 0
  | c :: cs =>
    if c.code = 0x65 ∨ c.code = 0x45 then
      let sign := if cs.head?.any fun s => s.code == 0x2B || s.code == 0x2D then 1 else 0
      (someDigits? (cs.drop sign)).map (· + sign + 1)
    else some 0

/-- The length of the number at the beginning, if one stands there. -/
def numberLength? (cs : List Character) : Option Nat := do
  let sign := if cs.head?.any fun s => s.code == 0x2D then 1 else 0
  let whole ← wholeLength? (cs.drop sign)
  let fraction ← fractionLength? (cs.drop (sign + whole))
  let exponent ← exponentLength? (cs.drop (sign + whole + fraction))
  some (sign + whole + fraction + exponent)

/-- The words with a value. -/
def words : List (Text × Token) :=
  [(bytes "null", .null), (bytes "true", .bool true), (bytes "false", .bool false)]

/-- The token at the beginning, and the number of characters behind its first
one. -/
def read? (c : Character) (cs : List Character) : Option (Token × Nat) :=
  match ofMark? c.code with
  | some mark => some (mark, 0)
  | none =>
    if c.code = Code.quote then
      (readFrom [] 0 cs).map fun (value, n) => (.string value, n)
    else
      match words.find? fun w => w.1 == Text.ofCharacters ((c :: cs).take w.1.length) with
      | some (word, token) => some (token, word.length - 1)
      | none => (numberLength? (c :: cs)).map fun n => (.number, n - 1)

/-- The tokens of a document.  `found` holds the tokens so far, newest first. -/
def readAllFrom (found : List Token) : List Character → Option (List Token)
  | [] => some found.reverse
  | c :: cs =>
    if isSpace c.code then readAllFrom found cs
    else
      match read? c cs with
      | none => none
      | some (token, n) => readAllFrom (token :: found) (cs.drop n)
termination_by cs => cs.length
decreasing_by
  · simp only [List.length_cons]; omega
  · simp only [List.length_drop, List.length_cons]; omega

/-- The tokens of a document, if it has no other text in it. -/
def readAll (t : Text) : Option (List Token) := readAllFrom [] t.characters

end Token

end XsPrep.Document
