import XsPrep.Ordered.Order

/-!
# Tables

A table binds texts to values, each text at most once.  Its entries are kept in
the order of their keys, so a table has one representation and shows itself
sorted.
-/

namespace XsPrep

/-- Entries in strictly ascending order of their keys. -/
def Ascending {α : Type} (entries : List (Text × α)) : Prop :=
  entries.Pairwise fun a b => Text.precedes a.1 b.1

/-- A finite map from texts, sorted by key. -/
structure Table (α : Type) where
  /-- The entries. -/
  entries : List (Text × α)
  /-- The keys ascend. -/
  ascending : Ascending entries

namespace Table

variable {α β : Type}

/-- The table without entries. -/
def empty : Table α := ⟨[], .nil⟩

instance : Inhabited (Table α) := ⟨empty⟩

/-- The value bound to a key in a list of entries. -/
def find? (key : Text) : List (Text × α) → Option α
  | [] => none
  | (k, a) :: entries => if k == key then some a else find? key entries

/-- The value bound to a key. -/
def get? (table : Table α) (key : Text) : Option α := find? key table.entries

/-- Whether a key is bound. -/
def contains (table : Table α) (key : Text) : Bool := (table.get? key).isSome

/-- The keys in ascending order. -/
def keys (table : Table α) : List Text := table.entries.map Prod.fst

/-- The number of entries. -/
def size (table : Table α) : Nat := table.entries.length

/-- The entries with `key` bound to `value`, in its place. -/
def insertEntry (key : Text) (value : α) : List (Text × α) → List (Text × α)
  | [] => [(key, value)]
  | (k, a) :: entries =>
    if key == k then (key, value) :: entries
    else if Text.precedes key k then (key, value) :: (k, a) :: entries
    else (k, a) :: insertEntry key value entries

theorem mem_insertEntry {key : Text} {value : α} {entries : List (Text × α)} {e : Text × α}
    (h : e ∈ insertEntry key value entries) : e = (key, value) ∨ e ∈ entries := by
  induction entries with
  | nil => simpa [insertEntry] using h
  | cons head entries ih =>
    obtain ⟨k, a⟩ := head
    unfold insertEntry at h
    split at h
    · rcases List.mem_cons.mp h with h | h
      · exact .inl h
      · exact .inr (List.mem_cons_of_mem _ h)
    · split at h
      · rcases List.mem_cons.mp h with h | h
        · exact .inl h
        · exact .inr h
      · rcases List.mem_cons.mp h with h | h
        · exact .inr (h ▸ List.mem_cons_self)
        · exact (ih h).imp id (List.mem_cons_of_mem _)

theorem ascending_insertEntry (key : Text) (value : α) {entries : List (Text × α)}
    (h : Ascending entries) : Ascending (insertEntry key value entries) := by
  induction entries with
  | nil => simp [insertEntry, Ascending]
  | cons head entries ih =>
    obtain ⟨k, a⟩ := head
    obtain ⟨hhead, htail⟩ := List.pairwise_cons.mp h
    unfold insertEntry
    split
    · rename_i hk
      obtain rfl := eq_of_beq hk
      exact List.pairwise_cons.mpr ⟨hhead, htail⟩
    · rename_i hne
      split
      · rename_i hlt
        refine List.pairwise_cons.mpr ⟨fun e he => ?_, h⟩
        rcases List.mem_cons.mp he with rfl | he
        · exact hlt
        · exact Text.precedes_trans hlt (hhead e he)
      · rename_i hnlt
        refine List.pairwise_cons.mpr ⟨fun e he => ?_, ih htail⟩
        rcases mem_insertEntry he with rfl | he
        · rcases Text.precedes_or_eq_or_precedes key k with h' | rfl | h'
          · exact absurd h' hnlt
          · simp at hne
          · exact h'
        · exact hhead e he

/-- The table with `key` bound to `value`, whatever it was bound to. -/
def insert (table : Table α) (key : Text) (value : α) : Table α :=
  ⟨insertEntry key value table.entries, ascending_insertEntry key value table.ascending⟩

/-- The table without a binding of `key`. -/
def erase (table : Table α) (key : Text) : Table α :=
  ⟨table.entries.filter fun e => e.1 != key, table.ascending.filter _⟩

/-- The table of a list of bindings.  Of several bindings of a key the last one
counts. -/
def ofList (bindings : List (Text × α)) : Table α :=
  bindings.foldl (fun table b => table.insert b.1 b.2) empty

end Table

end XsPrep
