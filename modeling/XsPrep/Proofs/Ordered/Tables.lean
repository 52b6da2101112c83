import Mathlib.Data.List.Sort
import XsPrep.Ordered.TextSet

/-!
# What a table binds

A binding is read back after an insertion and after a removal (`Table.get?_insert`,
`Table.get?_erase`), whatever the order of the entries.  The order decides only in
which sequence the keys are shown: as they ascend, tables that bind the same keys
show the same keys (`Table.keys_eq_iff`), and a table is the table of its entries
(`Table.ofList_entries`).

A set of texts lists each of its elements once (`TextSet.nodup_toList`), and what it lists is
decided by membership alone.
-/

namespace XsPrep

/-- Lists in the order of their keys are known by their elements. -/
theorem Text.eq_of_ascending {α : Type} (key : α → Text) {xs ys : List α}
    (hxs : xs.Pairwise fun a b => Text.precedes (key a) (key b) = true)
    (hys : ys.Pairwise fun a b => Text.precedes (key a) (key b) = true)
    (h : ∀ a, a ∈ xs ↔ a ∈ ys) : xs = ys := by
  have : Std.Irrefl fun a b => Text.precedes (key a) (key b) = true :=
    ⟨fun a => by simp [Text.not_precedes_self]⟩
  have : Std.Antisymm fun a b => Text.precedes (key a) (key b) = true := by
    constructor
    intro a b hab hba
    have hself := Text.precedes_trans hab hba
    rw [Text.not_precedes_self] at hself
    cases hself
  exact hxs.eq_of_mem_iff hys h

namespace Table

variable {α β : Type}

/-! ## Bindings -/

theorem find?_insertEntry (key k : Text) (value : α) (entries : List (Text × α)) :
    find? k (insertEntry key value entries) =
      if key = k then some value else find? k entries := by
  induction entries with
  | nil => simp [insertEntry, find?]
  | cons head entries ih =>
    obtain ⟨first, a⟩ := head
    rw [insertEntry]
    split
    · rename_i heq
      obtain rfl := eq_of_beq heq
      by_cases hk : key = k
      · simp [find?, hk]
      · simp [find?, hk]
    · rename_i hne
      split
      · by_cases hk : key = k
        · simp [find?, hk]
        · simp [find?, hk]
      · by_cases hk : first = k
        · subst hk
          have hno : ¬key = first := by simpa using hne
          simp [find?, hno]
        · simp [find?, hk, ih]

theorem get?_insert (table : Table α) (key k : Text) (value : α) :
    (table.insert key value).get? k = if key = k then some value else table.get? k :=
  find?_insertEntry key k value table.entries

theorem find?_filter (key k : Text) (entries : List (Text × α)) :
    find? k (entries.filter fun e => e.1 != key) =
      if key = k then none else find? k entries := by
  induction entries with
  | nil => simp [find?]
  | cons head entries ih =>
    obtain ⟨first, a⟩ := head
    by_cases hfirst : first = key
    · rw [List.filter_cons_of_neg (by simp [hfirst]), ih]
      by_cases hk : key = k
      · simp [hk]
      · simp [find?, hfirst, hk]
    · rw [List.filter_cons_of_pos (by simpa using hfirst), find?, ih, find?]
      by_cases hk : key = k
      · subst hk
        simp [hfirst]
      · simp [hk]

theorem get?_erase (table : Table α) (key k : Text) :
    (table.erase key).get? k = if key = k then none else table.get? k :=
  find?_filter key k table.entries

/-! ## Keys -/

theorem mem_of_find? {k : Text} {value : α} {entries : List (Text × α)}
    (h : find? k entries = some value) : (k, value) ∈ entries := by
  induction entries with
  | nil => cases h
  | cons e entries ih =>
    obtain ⟨key, bound⟩ := e
    rw [find?] at h
    split at h
    · rename_i hkey
      rw [← eq_of_beq hkey, ← Option.some.inj h]
      exact List.mem_cons_self
    · exact List.mem_cons_of_mem _ (ih h)

/-- In ascending entries every entry is found by its key. -/
theorem find?_of_mem {k : Text} {value : α} {entries : List (Text × α)}
    (hascending : Ascending entries) (h : (k, value) ∈ entries) :
    find? k entries = some value := by
  induction entries with
  | nil => cases h
  | cons e entries ih =>
    obtain ⟨hfirst, hrest⟩ := List.pairwise_cons.mp hascending
    rw [find?]
    rcases List.mem_cons.mp h with rfl | h
    · simp
    · have hne : e.1 ≠ k := by
        intro heq
        have hbefore := hfirst _ h
        rw [heq, Text.not_precedes_self] at hbefore
        cases hbefore
      rw [if_neg (by simpa using hne), ih hrest h]

theorem get?_of_mem {table : Table α} {k : Text} {value : α} (h : (k, value) ∈ table.entries) :
    table.get? k = some value :=
  find?_of_mem table.ascending h

theorem mem_entries_iff {table : Table α} {e : Text × α} :
    e ∈ table.entries ↔ table.get? e.1 = some e.2 :=
  ⟨get?_of_mem, mem_of_find?⟩

theorem find?_isSome_iff {k : Text} {entries : List (Text × α)} :
    (find? k entries).isSome = true ↔ k ∈ entries.map Prod.fst := by
  induction entries with
  | nil => simp [find?]
  | cons head entries ih =>
    obtain ⟨first, a⟩ := head
    by_cases hk : first = k
    · simp [find?, hk]
    · rw [find?, if_neg (by simpa using hk), ih, List.map_cons, List.mem_cons]
      simp [Ne.symm hk]

theorem contains_iff_mem_keys {table : Table α} {k : Text} :
    table.contains k = true ↔ k ∈ table.keys :=
  find?_isSome_iff

theorem keys_ascending (table : Table α) :
    table.keys.Pairwise fun s t => Text.precedes s t = true :=
  table.ascending.map Prod.fst fun _ _ h => h

/-- The keys of a table are known by which keys are bound. -/
theorem keys_eq_iff {table : Table α} {table' : Table β} :
    table.keys = table'.keys ↔ ∀ k, table.contains k = table'.contains k := by
  constructor
  · intro h k
    rw [Bool.eq_iff_iff, contains_iff_mem_keys, contains_iff_mem_keys, h]
  · intro h
    refine Text.eq_of_ascending id table.keys_ascending table'.keys_ascending fun k => ?_
    rw [← contains_iff_mem_keys, ← contains_iff_mem_keys, h]

/-- Entries that have the keys of a table, in their order, ascend. -/
theorem ascending_of_keys {table : Table α} {entries : List (Text × β)}
    (h : entries.map Prod.fst = table.keys) : Ascending entries := by
  have hascending := table.keys_ascending
  rwa [← h, List.pairwise_map] at hascending

theorem keys_nodup (table : Table α) : table.keys.Nodup := by
  refine List.Pairwise.map Prod.fst (fun a b hab heq => ?_) table.ascending
  rw [heq, Text.not_precedes_self] at hab
  cases hab

theorem mem_map_fst_insertEntry {key k : Text} {value : α} {entries : List (Text × α)} :
    k ∈ (insertEntry key value entries).map Prod.fst ↔ k = key ∨ k ∈ entries.map Prod.fst := by
  induction entries with
  | nil => simp [insertEntry]
  | cons head entries ih =>
    obtain ⟨first, a⟩ := head
    rw [insertEntry]
    split
    · rename_i heq
      obtain rfl := eq_of_beq heq
      simp
    · split
      · simp
      · rw [List.map_cons, List.mem_cons, ih, List.map_cons, List.mem_cons, or_left_comm]

theorem mem_keys_insert {table : Table α} {key k : Text} {value : α} :
    k ∈ (table.insert key value).keys ↔ k = key ∨ k ∈ table.keys :=
  mem_map_fst_insertEntry

theorem mem_keys_foldl_insert {bindings : List (Text × α)} {table : Table α} {k : Text} :
    k ∈ (bindings.foldl (fun table b => table.insert b.1 b.2) table).keys ↔
      k ∈ table.keys ∨ k ∈ bindings.map Prod.fst := by
  induction bindings generalizing table with
  | nil => simp
  | cons b bindings ih =>
    rw [List.foldl_cons, ih, mem_keys_insert, List.map_cons, List.mem_cons, or_assoc,
      or_left_comm]

/-- The keys of a table of bindings are the keys of the bindings. -/
theorem mem_keys_ofList {bindings : List (Text × α)} {k : Text} :
    k ∈ (ofList bindings).keys ↔ k ∈ bindings.map Prod.fst := by
  rw [ofList, mem_keys_foldl_insert]
  simp [keys, empty]

theorem get?_foldl_insert_of_notMem {bindings : List (Text × α)} {k : Text}
    (h : k ∉ bindings.map Prod.fst) (table : Table α) :
    (bindings.foldl (fun table b => table.insert b.1 b.2) table).get? k = table.get? k := by
  induction bindings generalizing table with
  | nil => rfl
  | cons b bindings ih =>
    rw [List.map_cons, List.mem_cons, not_or] at h
    rw [List.foldl_cons, ih h.2, get?_insert, if_neg (Ne.symm h.1)]

theorem get?_foldl_insert_of_mem {bindings : List (Text × α)} {k : Text} {value : α}
    (hdistinct : (bindings.map Prod.fst).Nodup) (h : (k, value) ∈ bindings) (table : Table α) :
    (bindings.foldl (fun table b => table.insert b.1 b.2) table).get? k = some value := by
  induction bindings generalizing table with
  | nil => cases h
  | cons b bindings ih =>
    rw [List.map_cons, List.nodup_cons] at hdistinct
    rw [List.foldl_cons]
    rcases List.mem_cons.mp h with rfl | h
    · rw [get?_foldl_insert_of_notMem hdistinct.1, get?_insert, if_pos rfl]
    · exact ih hdistinct.2 h _

/-- A table has the bindings it was made from, if these bind each key once. -/
theorem mem_entries_ofList {bindings : List (Text × α)} {k : Text} {value : α}
    (hdistinct : (bindings.map Prod.fst).Nodup) :
    (k, value) ∈ (ofList bindings).entries ↔ (k, value) ∈ bindings := by
  constructor
  · intro h
    have hkey : k ∈ (ofList bindings).keys := List.mem_map_of_mem h
    obtain ⟨⟨_, other⟩, hother, rfl⟩ := List.mem_map.mp (mem_keys_ofList.mp hkey)
    have hget := get?_foldl_insert_of_mem hdistinct hother empty
    rw [← ofList, get?_of_mem h, Option.some_inj] at hget
    rwa [hget]
  · intro h
    exact mem_of_find? (get?_foldl_insert_of_mem hdistinct h empty)

/-! ## Tables of ascending entries -/

theorem insertEntry_of_last {key : Text} {value : α} {entries : List (Text × α)}
    (h : ∀ e ∈ entries, Text.precedes e.1 key = true) :
    insertEntry key value entries = entries ++ [(key, value)] := by
  induction entries with
  | nil => rfl
  | cons e entries ih =>
    obtain ⟨k, a⟩ := e
    obtain ⟨hk, hentries⟩ := List.forall_mem_cons.mp h
    have hself := Text.not_precedes_self key
    have hne : (key == k) = false := by
      rw [beq_eq_false_iff_ne]
      rintro rfl
      rw [hself] at hk
      cases hk
    have hnot : Text.precedes key k = false := by
      rw [Bool.eq_false_iff]
      intro hkey
      rw [Text.precedes_trans hkey hk] at hself
      cases hself
    rw [insertEntry, hne, if_neg Bool.false_ne_true, hnot, if_neg Bool.false_ne_true, ih hentries,
      List.cons_append]

theorem entries_foldl_insert {table : Table α} {bindings : List (Text × α)}
    (h : Ascending (table.entries ++ bindings)) :
    (bindings.foldl (fun table b => table.insert b.1 b.2) table).entries =
      table.entries ++ bindings := by
  induction bindings generalizing table with
  | nil => rw [List.foldl_nil, List.append_nil]
  | cons b bindings ih =>
    have hlast : ∀ e ∈ table.entries, Text.precedes e.1 b.1 = true := fun e he =>
      (List.pairwise_append.mp h).2.2 e he b List.mem_cons_self
    have hinsert : (table.insert b.1 b.2).entries = table.entries ++ [b] :=
      insertEntry_of_last hlast
    have hrest : Ascending ((table.insert b.1 b.2).entries ++ bindings) := by
      rwa [hinsert, List.append_assoc, List.singleton_append]
    rw [List.foldl_cons, ih hrest, hinsert, List.append_assoc, List.singleton_append]

theorem entries_ofList {bindings : List (Text × α)} (h : Ascending bindings) :
    (ofList bindings).entries = bindings := by
  have hascending : Ascending ((empty : Table α).entries ++ bindings) := h
  exact entries_foldl_insert hascending

theorem eq_of_entries {table table' : Table α} (h : table.entries = table'.entries) :
    table = table' := by
  cases table
  cases table'
  cases h
  rfl

/-- A table is known by what it binds. -/
theorem eq_of_get? {table table' : Table α} (h : ∀ k, table.get? k = table'.get? k) :
    table = table' := by
  refine eq_of_entries (Text.eq_of_ascending Prod.fst table.ascending table'.ascending ?_)
  intro e
  rw [mem_entries_iff, mem_entries_iff, h]

instance [DecidableEq α] : DecidableEq (Table α) := fun table table' =>
  decidable_of_iff (table.entries = table'.entries) ⟨eq_of_entries, congrArg entries⟩

/-- A table is the table of its entries. -/
theorem ofList_entries (table : Table α) : ofList table.entries = table :=
  eq_of_entries (entries_ofList table.ascending)

end Table

/-! ## Sets of texts -/

namespace TextSet

theorem contains_eq_true_iff {s : TextSet} {t : Text} : s.contains t = true ↔ t ∈ s.toList :=
  Table.contains_iff_mem_keys

theorem nodup_toList (s : TextSet) : s.toList.Nodup := s.table.keys_nodup

theorem toList_ascending (s : TextSet) : s.toList.Pairwise fun t u => Text.precedes t u = true :=
  s.table.keys_ascending

theorem mem_toList_insertMany {s : TextSet} {ts : List Text} {t : Text} :
    t ∈ (s.insertMany ts).toList ↔ t ∈ s.toList ∨ t ∈ ts := by
  induction ts generalizing s with
  | nil => simp [insertMany]
  | cons first ts ih =>
    have hinsert : t ∈ (s.insert first).toList ↔ t = first ∨ t ∈ s.toList := Table.mem_keys_insert
    simp only [insertMany, List.foldl_cons] at ih ⊢
    rw [ih, hinsert, List.mem_cons, or_assoc, or_left_comm]

@[simp] theorem mem_toList_ofList {ts : List Text} {t : Text} :
    t ∈ (ofList ts).toList ↔ t ∈ ts := by
  rw [ofList, mem_toList_insertMany]
  simp [empty, toList, Table.keys, Table.empty]

@[simp] theorem mem_toList_difference {s other : TextSet} {t : Text} :
    t ∈ (s.difference other).toList ↔ t ∈ s.toList ∧ t ∉ other.toList := by
  rw [← contains_eq_true_iff (s := other)]
  simp only [difference, toList, Table.keys, List.mem_map, List.mem_filter, Bool.not_eq_true']
  constructor
  · rintro ⟨e, ⟨he, hother⟩, rfl⟩
    exact ⟨⟨e, he, rfl⟩, by simp [hother]⟩
  · rintro ⟨⟨e, he, rfl⟩, hother⟩
    exact ⟨e, ⟨he, by simpa using hother⟩, rfl⟩

end TextSet

end XsPrep
