/-!
# Sequences on demand

The elements of a sequence can be transformed or selected while they are drawn.
The consumer decides after each element whether it wants another one, and the
function runs only for the elements that were asked for.
-/

namespace XsPrep.Sequence

/-- What a consumer drew from a sequence. -/
structure Drawn (α : Type) where
  /-- The elements drawn, in order. -/
  elements : List α
  /-- How often the function of the sequence ran. -/
  calls : Nat
deriving DecidableEq, Repr

variable {α β : Type}

/-- Draws the images of a sequence.  The consumer stops once it holds `limit`
elements, and it looks only after taking one. -/
def drawMap (f : α → β) (limit : Nat) : List α → Drawn β
  | [] => ⟨[], 0⟩
  | a :: rest =>
    if limit ≤ 1 then ⟨[f a], 1⟩
    else
      let more := drawMap f (limit - 1) rest
      ⟨f a :: more.elements, more.calls + 1⟩

/-- Draws the elements of a sequence that satisfy `p`, with the same consumer. -/
def drawFilter (p : α → Bool) (limit : Nat) : List α → Drawn α
  | [] => ⟨[], 0⟩
  | a :: rest =>
    if p a then
      if limit ≤ 1 then ⟨[a], 1⟩
      else
        let more := drawFilter p (limit - 1) rest
        ⟨a :: more.elements, more.calls + 1⟩
    else
      let more := drawFilter p limit rest
      ⟨more.elements, more.calls + 1⟩

/-- An ascending list with one more number in its place, unless it is there. -/
def insertDistinct (n : Int) : List Int → List Int
  | [] => [n]
  | m :: rest => if n < m then n :: m :: rest else if n = m then m :: rest
    else m :: insertDistinct n rest

/-- The distinct numbers of a list in ascending order. -/
def distinctAscending (ns : List Int) : List Int := ns.foldr insertDistinct []

end XsPrep.Sequence
