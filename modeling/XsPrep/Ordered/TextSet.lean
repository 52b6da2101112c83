import XsPrep.Ordered.Table

/-!
# Sets of texts

A set of texts is a table without values.  It lists its elements in order,
ascending or descending.
-/

namespace XsPrep

/-- A finite set of texts. -/
structure TextSet where
  /-- The table whose keys are the elements. -/
  table : Table Unit

namespace TextSet

/-- The set without elements. -/
def empty : TextSet := ⟨.empty⟩

instance : Inhabited TextSet := ⟨empty⟩

/-- Whether a text is an element. -/
def contains (s : TextSet) (t : Text) : Bool := s.table.contains t

/-- The set with one more element. -/
def insert (s : TextSet) (t : Text) : TextSet := ⟨s.table.insert t ()⟩

/-- The set with more elements. -/
def insertMany (s : TextSet) (ts : List Text) : TextSet := ts.foldl insert s

/-- The set of the texts in a list. -/
def ofList (ts : List Text) : TextSet := empty.insertMany ts

/-- The elements in ascending order. -/
def toList (s : TextSet) : List Text := s.table.keys

/-- The elements in descending order. -/
def descending (s : TextSet) : List Text := s.toList.reverse

/-- Whether there is no element. -/
def isEmpty (s : TextSet) : Bool := s.toList.isEmpty

/-- The elements of `s` that are not elements of `other`. -/
def difference (s other : TextSet) : TextSet :=
  ⟨⟨s.table.entries.filter fun e => !other.contains e.1, s.table.ascending.filter _⟩⟩

/-- The elements of a set that may not have been made yet.  There are none
before it is made. -/
def ofOption (s : Option TextSet) : TextSet := s.getD empty

/-- Adds elements to a set that may not have been made yet.  Only a made set
takes an element. -/
def insertMany? (s : Option TextSet) (ts : List Text) : Option (Option TextSet) :=
  match s, ts with
  | some s, ts => some (some (s.insertMany ts))
  | none, [] => some none
  | none, _ :: _ => none

end TextSet

end XsPrep
