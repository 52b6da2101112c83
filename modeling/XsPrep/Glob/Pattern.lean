import XsPrep.Path

/-!
# Glob patterns

A pattern is a path with marks.  `*` stands for any characters within a
component, `?` for one of them, `[…]` for one character of a class, `{…,…}` for
one of several patterns and `**` for any number of components.  A backslash
takes the meaning from the byte behind it.

A pattern is valid if its classes are closed and not empty, its alternatives
are closed, and no backslash stands at its end.  The other functions here find
the parts of a pattern.  They do not look into classes.
-/

namespace XsPrep.Glob

/-- The byte of `*`. -/
abbrev star : UInt8 := 0x2A
/-- The byte of `?`. -/
abbrev question : UInt8 := 0x3F
/-- The byte of `[`. -/
abbrev openClass : UInt8 := 0x5B
/-- The byte of `]`. -/
abbrev closeClass : UInt8 := 0x5D
/-- The byte of `{`. -/
abbrev openAlternatives : UInt8 := 0x7B
/-- The byte of `}`. -/
abbrev closeAlternatives : UInt8 := 0x7D
/-- The byte of `,`. -/
abbrev comma : UInt8 := 0x2C
/-- The byte of `^`. -/
abbrev caret : UInt8 := 0x5E
/-- The byte of `!`. -/
abbrev bang : UInt8 := 0x21

/-! ## Validity -/

/-- Where in a pattern a check stands. -/
inductive Mode where
  /-- Outside classes. -/
  | plain
  /-- Behind a backslash outside classes. -/
  | escaped
  /-- At the beginning of a class. -/
  | classStart
  /-- At the beginning of a class, behind its negation. -/
  | classNegated
  /-- Inside a class. -/
  | inClass
  /-- Behind a backslash inside a class. -/
  | classEscaped
deriving DecidableEq, Repr

/-- The mode behind a byte inside a class. -/
def Mode.insideClass (b : UInt8) : Mode :=
  if b = Byte.backslash then .classEscaped else .inClass

/-- One byte of the check, inside `depth` alternatives. -/
def validStep (state : Mode × Nat) (b : UInt8) : Option (Mode × Nat) :=
  let (mode, depth) := state
  match mode with
  | .plain =>
    if b = Byte.backslash then some (.escaped, depth)
    else if b = openClass then some (.classStart, depth)
    else if b = openAlternatives then some (.plain, depth + 1)
    else if b = closeAlternatives then if depth = 0 then none else some (.plain, depth - 1)
    else some (.plain, depth)
  | .escaped => some (.plain, depth)
  | .classStart =>
    if b = caret ∨ b = bang then some (.classNegated, depth)
    else if b = closeClass then none
    else some (.insideClass b, depth)
  | .classNegated => if b = closeClass then none else some (.insideClass b, depth)
  | .inClass => if b = closeClass then some (.plain, depth) else some (.insideClass b, depth)
  | .classEscaped => some (.inClass, depth)

/-- Whether a pattern is valid. -/
def isValid (pattern : Text) : Bool := pattern.foldlM validStep (.plain, 0) == some (.plain, 0)

/-! ## Parts -/

/-- Where the first byte with `p` is that no backslash hides. -/
def findUnescaped? (p : UInt8 → Bool) (pattern : Text) : Option Nat := go 0 pattern
where
  /-- The search at index `n`. -/
  go (n : Nat) : Text → Option Nat
    | [] => none
    | b :: rest =>
      if b = Byte.backslash then
        match rest with
        | [] => none
        | _ :: rest => go (n + 2) rest
      else if p b then some n
      else go (n + 1) rest

/-- Whether a byte starts a mark. -/
def isMark (b : UInt8) : Bool :=
  b == star || b == question || b == openClass || b == openAlternatives

/-- Where the first mark of a pattern is. -/
def firstMark? (pattern : Text) : Option Nat := findUnescaped? isMark pattern

/-- The alternatives of a pattern whose opening brace was read, and the pattern
behind the closing brace.  `read` holds the bytes of the current alternative and
`done` the alternatives before it, both newest first. -/
def alternativesFrom (depth : Nat) (read : Text) (done : List Text) :
    Text → Option (List Text × Text)
  | [] => none
  | b :: rest =>
    if b = Byte.backslash then
      match rest with
      | [] => none
      | c :: rest => alternativesFrom depth (c :: b :: read) done rest
    else if b = openAlternatives then alternativesFrom (depth + 1) (b :: read) done rest
    else if b = closeAlternatives then
      match depth with
      | 0 => some ((read.reverse :: done).reverse, rest)
      | depth + 1 => alternativesFrom depth (b :: read) done rest
    else if b = comma ∧ depth = 0 then alternativesFrom depth [] (read.reverse :: done) rest
    else alternativesFrom depth (b :: read) done rest

/-- The alternatives of a pattern whose opening brace was read, and the pattern
behind the closing brace. -/
def alternatives? (pattern : Text) : Option (List Text × Text) := alternativesFrom 0 [] [] pattern

/-- A pattern without the backslashes before its marks and brackets. -/
def unescaped : Text → Text
  | a :: b :: rest =>
    if a = Byte.backslash ∧ (isMark b ∨ b = closeClass ∨ b = closeAlternatives) then
      b :: unescaped rest
    else a :: unescaped (b :: rest)
  | [b] => [b]
  | [] => []

/-- The bytes of a text from the end, each with the byte before it and its
index. -/
def fromEnd (pattern : Text) : List (Nat × UInt8 × Option UInt8) :=
  ((pattern.zip (none :: pattern.map some)).zipIdx.map fun ((b, before), n) => (n, b, before)).reverse

/-- Where the last byte with `p` is that has no backslash before it. -/
def findLast? (p : UInt8 → Bool) (pattern : Text) : Option (Nat × UInt8) :=
  (fromEnd pattern).findSome? fun (n, b, before) =>
    if p b && before != some Byte.backslash then some (n, b) else none

/-- The search for the opening brace that matches a closing brace, from the end
of the pattern before it and inside `depth` further alternatives. -/
def openingFrom (depth : Nat) : List (Nat × UInt8 × Option UInt8) → Option Nat
  | [] => none
  | (n, b, before) :: rest =>
    if before = some Byte.backslash then openingFrom depth rest
    else if b = closeAlternatives then openingFrom (depth + 1) rest
    else if b = openAlternatives then
      match depth with
      | 0 => some n
      | depth + 1 => openingFrom depth rest
    else openingFrom depth rest

/-- Where the brace opens that closes behind the pattern. -/
def opening? (pattern : Text) : Option Nat := openingFrom 0 (fromEnd pattern)

/-- Whether `**` stands in a pattern with two bytes or more behind it. -/
def hasInnerDoubleStar : Text → Bool
  | a :: b :: rest =>
    if a = Byte.backslash then hasInnerDoubleStar rest
    else (a == star && b == star && 2 ≤ rest.length) || hasInnerDoubleStar (b :: rest)
  | _ => false

/-- A pattern split at the last slash before its first mark: a path without
marks, and the pattern below it. -/
def splitBase (pattern : Text) : Text × Text :=
  let plain := pattern.take ((firstMark? pattern).getD pattern.length)
  match lastSlash plain with
  | none => (Path.here, pattern)
  | some 0 => ([Byte.slash], pattern.drop 1)
  | some n => (unescaped (pattern.take n), pattern.drop (n + 1))
where
  /-- Where the last slash is that no backslash hides. -/
  lastSlash (plain : Text) : Option Nat := go none 0 plain
  /-- The search from index `n`, with the last slash so far. -/
  go (found : Option Nat) (n : Nat) : Text → Option Nat
    | [] => found
    | b :: rest =>
      if b = Byte.backslash then
        match rest with
        | [] => found
        | _ :: rest => go found (n + 2) rest
      else go (if b = Byte.slash then some n else found) (n + 1) rest

end XsPrep.Glob
