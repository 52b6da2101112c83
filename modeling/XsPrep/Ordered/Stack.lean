/-!
# Stacks

The open blocks of a run and the files it is in the middle of are stacks.
Looking at an empty stack gives nothing.
-/

namespace XsPrep

/-- A last-in-first-out stack. -/
structure Stack (α : Type) where
  /-- The elements, the most recent one first. -/
  elements : List α
deriving DecidableEq, Repr

namespace Stack

variable {α : Type}

/-- The stack without elements. -/
def empty : Stack α := ⟨[]⟩

instance : Inhabited (Stack α) := ⟨empty⟩

/-- Whether there is no element. -/
def isEmpty (s : Stack α) : Bool := s.elements.isEmpty

/-- The number of elements. -/
def size (s : Stack α) : Nat := s.elements.length

/-- The stack with an element on top. -/
def push (s : Stack α) (a : α) : Stack α := ⟨a :: s.elements⟩

/-- The most recent element and the stack below it. -/
def pop? (s : Stack α) : Option (α × Stack α) :=
  match s.elements with
  | [] => none
  | a :: below => some (a, ⟨below⟩)

/-- The most recent element. -/
def top? (s : Stack α) : Option α := s.elements.head?

/-- The least recent element. -/
def bottom? (s : Stack α) : Option α := s.elements.getLast?

end Stack

end XsPrep
