import XsPrep.Document.Token

/-!
# Values of a JSON document

The value of a document is built token by token.  The arrays and objects that
are not closed yet form a stack, and what may come next depends on the innermost
of them.  The members of an object are kept as they are written, so a key may
occur twice.
-/

namespace XsPrep.Document

/-- A value. -/
inductive Value where
  /-- Nothing. -/
  | null
  /-- A truth value. -/
  | bool (value : Bool)
  /-- A number. -/
  | number
  /-- A string. -/
  | string (value : Text)
  /-- An array. -/
  | array (items : List Value)
  /-- An object with its members in the order they are written. -/
  | object (members : List (Text × Value))

/-- An array or object that is not closed yet. -/
inductive Opened where
  /-- An array with its items so far, newest first. -/
  | array (items : List Value)
  /-- An object with its members so far, newest first, and the key whose value
  comes next. -/
  | object (members : List (Text × Value)) (key : Text)

/-- What may come next. -/
inductive Expected where
  /-- A value. -/
  | value
  /-- The first item of an array or its end. -/
  | itemOrEnd
  /-- The first key of an object or its end. -/
  | keyOrEnd
  /-- A key. -/
  | key
  /-- The mark behind a key. -/
  | colon
  /-- A comma or the end of what is open. -/
  | commaOrEnd
  /-- Nothing: the document is complete. -/
  | nothing (value : Value)

/-- A document that is partly read. -/
structure Partial where
  /-- What may come next. -/
  expected : Expected
  /-- What is open, innermost first. -/
  opened : List Opened

namespace Partial

/-- The deepest nesting that is accepted. -/
def depthLimit : Nat := 10000

/-- The document before its first token. -/
def start : Partial := ⟨.value, []⟩

/-- A complete value goes into the innermost array or object. -/
def complete (value : Value) : List Opened → Partial
  | [] => ⟨.nothing value, []⟩
  | .array items :: outer => ⟨.commaOrEnd, .array (value :: items) :: outer⟩
  | .object members key :: outer => ⟨.commaOrEnd, .object ((key, value) :: members) key :: outer⟩

/-- Something opens. -/
def nest (expected : Expected) (inner : Opened) (outer : List Opened) : Option Partial :=
  if outer.length < depthLimit then some ⟨expected, inner :: outer⟩ else none

/-- The token that starts a value. -/
def startValue (opened : List Opened) : Token → Option Partial
  | .null => some (complete .null opened)
  | .bool value => some (complete (.bool value) opened)
  | .number => some (complete .number opened)
  | .string value => some (complete (.string value) opened)
  | .openArray => nest .itemOrEnd (.array []) opened
  | .openObject => nest .keyOrEnd (.object [] []) opened
  | _ => none

/-- A key for the next value of the innermost object. -/
def startMember (key : Text) : List Opened → Option Partial
  | .object members _ :: outer => some ⟨.colon, .object members key :: outer⟩
  | _ => none

/-- The innermost array or object ends. -/
def close : List Opened → Token → Option Partial
  | .array items :: outer, .closeArray => some (complete (.array items.reverse) outer)
  | .object members _ :: outer, .closeObject => some (complete (.object members.reverse) outer)
  | _, _ => none

/-- What a comma leads to in the innermost array or object. -/
def separate : List Opened → Option Partial
  | .array items :: outer => some ⟨.value, .array items :: outer⟩
  | .object members key :: outer => some ⟨.key, .object members key :: outer⟩
  | [] => none

/-- One token. -/
def step (p : Partial) (token : Token) : Option Partial :=
  match p.expected, token with
  | .value, token => startValue p.opened token
  | .itemOrEnd, .closeArray => close p.opened .closeArray
  | .itemOrEnd, token => startValue p.opened token
  | .keyOrEnd, .closeObject => close p.opened .closeObject
  | .keyOrEnd, .string key => startMember key p.opened
  | .key, .string key => startMember key p.opened
  | .colon, .colon => some { p with expected := .value }
  | .commaOrEnd, .comma => separate p.opened
  | .commaOrEnd, token => close p.opened token
  | _, _ => none

end Partial

/-- The value of a list of tokens, if they are one. -/
def Value.ofTokens? (tokens : List Token) : Option Value :=
  match tokens.foldlM Partial.step Partial.start with
  | some ⟨.nothing value, _⟩ => some value
  | _ => none

/-- The value of a document, if it is well formed. -/
def Value.parse? (t : Text) : Option Value := (Token.readAll t).bind ofTokens?

end XsPrep.Document
