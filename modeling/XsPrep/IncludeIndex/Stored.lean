import XsPrep.IncludeIndex.Basic
import XsPrep.Document.Value
import XsPrep.Files.Change

/-!
# Stored include indexes

An index is stored as a JSON object.  Its keys are the include paths in
ascending order and its values the labels of the targets.

Reading takes a document that is well formed as a whole, then goes through it
in order.  A label that cannot be read ends the reading.  A value of the wrong
kind does not, but it spoils the result.  In place of a list `null` stands for
no targets, and in place of a label for the label without any part.
-/

namespace XsPrep.IncludeIndex

/-! ## Writing -/

/-- The include paths with their labels as texts. -/
def written (index : IncludeIndex) : List (Text × List Text) :=
  index.entries.map fun (path, targets) => (path, targets.map Label.text)

/-- The parts between two brackets, one behind the other. -/
def compactList (opening closing : String) (parts : List Text) : Text :=
  bytes opening ++ Text.joined (bytes ",") parts ++ bytes closing

/-- The index as a document without white space. -/
def compact (index : IncludeIndex) : Text :=
  compactList "\x7b" "\x7d" <| index.written.map fun (path, labels) =>
    Document.written path ++ bytes ":" ++ compactList "[" "]" (labels.map Document.written)

/-- The parts between two brackets, each on a line of its own behind `indent`
and two spaces. -/
def indentedList (indent : Text) (opening closing : String) (parts : List Text) : Text :=
  if parts.isEmpty then bytes opening ++ bytes closing
  else
    bytes opening ++ bytes "\n" ++
      Text.joined (bytes ",\n") (parts.map fun part => indent ++ bytes "  " ++ part) ++
      bytes "\n" ++ indent ++ bytes closing

/-- The index as a document for people. -/
def indented (index : IncludeIndex) : Text :=
  indentedList [] "\x7b" "\x7d" <| index.written.map fun (path, labels) =>
    Document.written path ++ bytes ": " ++
      indentedList (bytes "  ") "[" "]" (labels.map Document.written)

/-! ## Reading -/

/-- Why a text is no index. -/
inductive ReadError where
  /-- It is no JSON document. -/
  | malformed
  /-- A value has the wrong kind. -/
  | wrongKind
  /-- A label cannot be read. -/
  | badLabel (error : Label.ParseError)
deriving DecidableEq, Repr

/-- The label that stands for `null`. -/
def noLabel : Label := ⟨[], [], [], false, false⟩

/-- A label in a document.  A value of the wrong kind gives none. -/
def readLabel : Document.Value → Except ReadError (Option Label)
  | .string t =>
    match Label.parse t with
    | .ok label => .ok (some label)
    | .error e => .error (.badLabel e)
  | .null => .ok (some noLabel)
  | _ => .ok none

/-- The targets of an include path in a document. -/
def readTargets : Document.Value → Except ReadError (Option (List Label))
  | .array items => do
    let labels ← items.mapM readLabel
    .ok (labels.mapM id)
  | .null => .ok (some [])
  | _ => .ok none

/-- The index in the value of a document.  Of several members with the same key
the last one counts. -/
def readValue : Document.Value → Except ReadError IncludeIndex
  | .object members => do
    let entries ← members.mapM fun (path, value) => do
      let targets ← readTargets value
      .ok (targets.map fun targets => (path, targets))
    match entries.mapM id with
    | some entries => .ok (Table.ofList entries)
    | none => .error .wrongKind
  | .null => .ok .empty
  | _ => .error .wrongKind

/-- The index in the text of a document. -/
def read (t : Text) : Except ReadError IncludeIndex :=
  match Document.Value.parse? t with
  | some value => readValue value
  | none => .error .malformed

/-! ## Files -/

/-- What went wrong with a stored index. -/
inductive StoreError where
  /-- The file cannot be read. -/
  | unreadable (failure : Files.Failure)
  /-- The file cannot be written. -/
  | unwritable (failure : Files.Failure)
  /-- The file holds no index. -/
  | unusable (path : Text) (error : ReadError)
deriving DecidableEq, Repr

/-- How messages call a malformed or unfitting document. -/
def documentErrorText : Text := bytes "<json error>"

/-- The message of an error of reading. -/
def ReadError.message : ReadError → Text
  | .malformed => documentErrorText
  | .wrongKind => documentErrorText
  | .badLabel e => e.message

/-- The message of an error of storing. -/
def StoreError.message : StoreError → Text
  | .unreadable failure =>
    bytes "failed to read include index " ++ failure.path ++ bytes ": " ++ failure.text
  | .unwritable failure =>
    bytes "failed to write include index " ++ failure.path ++ bytes ": " ++ failure.text
  | .unusable path e => bytes "failed to parse include index " ++ path ++ bytes ": " ++ e.message

/-- Stores an index in a file. -/
def store (index : IncludeIndex) (disk : Files.Disk) (path : Text) :
    Except StoreError Files.Disk :=
  match disk.write path index.indented with
  | .ok disk => .ok disk
  | .error failure => .error (.unwritable failure)

/-- Loads an index from a file. -/
def load (disk : Files.Disk) (path : Text) : Except StoreError IncludeIndex :=
  match disk.read path with
  | .error failure => .error (.unreadable failure)
  | .ok content =>
    match read content with
    | .ok index => .ok index
    | .error e => .error (.unusable path e)

end XsPrep.IncludeIndex
