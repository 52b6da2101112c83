import XsPrep.Proofs.Files.Normal

/-!
# Spellings of relative paths

Put behind another path, a path is relative even with slashes in front, since an empty part means
nothing.  What it does there is told by the components that are left when its parts are cleaned
alone (`trail`): first some `..`, then names (`trail_climbs`).  Going over them is going over the
path, wherever that begins (`foldl_trail`).

Two paths are spellings of one path if they lead to the same place from every base (`Alike`).
Behind the base `.` nothing of a trail is cancelled, so paths with different trails are no
spellings of one path (`alike_iff`).
-/

namespace XsPrep

namespace Path

/-! ## Trails -/

/-- The components that are left of a path when it is put behind another one. -/
def trail (path : Text) : List Text := ((parts path).foldl (cleanStep false) []).reverse

theorem isComponent_of_mem_trail {path c : Text} (h : c ∈ trail path) : IsComponent c :=
  foldl_cleanStep_isComponent false (fun _ hpart => Text.notMem_of_mem_split hpart) c
    (List.mem_reverse.mp h)

/-- Going over what is left of a path is going over the path. -/
theorem foldl_trail (rooted : Bool) (before : List Text) (path : Text) :
    (trail path).foldl (cleanStep rooted) before = (parts path).foldl (cleanStep rooted) before :=
  foldl_cleaned false rooted before (fun _ hpart => Text.notMem_of_mem_split hpart) (.inl rfl)

theorem trail_ofParts_trail (path : Text) : trail (ofParts (trail path)) = trail path := by
  rw [trail, foldl_parts_ofParts false [] fun c => isComponent_of_mem_trail, foldl_trail]
  rfl

/-- Slashes in front of a path make no difference behind another one. -/
theorem foldl_parts_dropWhile (rooted : Bool) (before : List Text) (path : Text) :
    (parts (path.dropWhile (· == Byte.slash))).foldl (cleanStep rooted) before =
      (parts path).foldl (cleanStep rooted) before := by
  induction path with
  | nil => rfl
  | cons b path ih =>
    by_cases hb : b = Byte.slash
    · have hsplit : parts (Byte.slash :: path) = [] :: parts path :=
        Text.split_separator Byte.slash path
      rw [hb, List.dropWhile_cons_of_pos (by decide), ih, hsplit, List.foldl_cons,
        cleanStep_of_void rooted (.inl rfl)]
    · rw [List.dropWhile_cons_of_neg (by simpa using hb)]

/-- The components lead up first, and from there only down. -/
def Climbs (components : List Text) : Prop :=
  ∃ n names, components = List.replicate n up ++ names ∧ up ∉ names

/-- One more part keeps all `..` in front of all names. -/
theorem cleanStep_climbs {clean : List Text} (h : Climbs clean.reverse) (part : Text) :
    Climbs (cleanStep false clean part).reverse := by
  by_cases hvoid : part = [] ∨ part = here
  · rwa [cleanStep_of_void false hvoid]
  obtain ⟨n, names, hclean, hnames⟩ := h
  by_cases hup : part = up
  · subst hup
    cases names using List.reverseRecOn with
    | nil =>
      rw [List.append_nil, List.reverse_eq_iff, List.reverse_replicate] at hclean
      refine ⟨n + 1, [], ?_, List.not_mem_nil⟩
      rw [hclean, List.append_nil, List.reverse_eq_iff, List.reverse_replicate]
      cases n with
      | zero => rfl
      | succ n =>
        rw [List.replicate_succ, cleanStep_up, if_pos rfl]
        rfl
    | append_singleton names name =>
      rw [← List.append_assoc, List.reverse_eq_iff, List.reverse_append, List.reverse_singleton,
        List.singleton_append] at hclean
      rw [List.mem_append, List.mem_singleton, not_or] at hnames
      refine ⟨n, names, ?_, hnames.1⟩
      rw [hclean, cleanStep_up, if_neg (Ne.symm hnames.2), List.reverse_reverse]
  · refine ⟨n, names ++ [part], ?_, ?_⟩
    · rw [cleanStep_of_name false hvoid hup, List.reverse_cons, hclean, List.append_assoc]
    · rw [List.mem_append, List.mem_singleton, not_or]
      exact ⟨hnames, Ne.symm hup⟩

theorem trail_climbs (path : Text) : Climbs (trail path) := by
  rw [trail]
  induction parts path using List.reverseRecOn with
  | nil => exact ⟨0, [], rfl, List.not_mem_nil⟩
  | append_singleton ps part ih =>
    rw [List.foldl_append]
    exact cleanStep_climbs ih part

/-! ## Joins -/

/-- A clean path is made from its components. -/
theorem clean_congr {path other : Text} (habsolute : isAbsolute path = isAbsolute other)
    (hcomponents : components path = components other) : clean path = clean other := by
  rw [clean, clean, habsolute, hcomponents]

/-- The two paths lead to the same place from every base: they are spellings of one path. -/
def Alike (path other : Text) : Prop := ∀ base, base ≠ [] → join [base, path] = join [base, other]

theorem alike_iff {path other : Text} : Alike path other ↔ trail path = trail other := by
  constructor
  · intro h
    have hhere : ∀ path, join [here, path] = relative (trail path) := by
      intro path
      obtain ⟨whole, hjoin, habsolute, hcomponents⟩ :=
        exists_join_eq_clean (show here ≠ [] by decide) path
      rw [hjoin, clean_of_relative habsolute, hcomponents]
      rfl
    have hjoins := h here (by decide)
    rw [hhere, hhere] at hjoins
    exact relative_injective (fun c => isComponent_of_mem_trail)
      (fun c => isComponent_of_mem_trail) hjoins
  · intro h base hbase
    obtain ⟨whole, hjoin, habsolute, hcomponents⟩ := exists_join_eq_clean hbase path
    obtain ⟨whole', hjoin', habsolute', hcomponents'⟩ := exists_join_eq_clean hbase other
    rw [hjoin, hjoin']
    refine clean_congr (habsolute.trans habsolute'.symm) ?_
    rw [hcomponents, hcomponents', ← foldl_trail, ← foldl_trail _ _ other, h]

namespace Alike

variable {path other third : Text}

instance : Decidable (Alike path other) := decidable_of_iff _ alike_iff.symm

theorem symm (h : Alike path other) : Alike other path := fun base hbase => (h base hbase).symm

theorem trans (h : Alike path other) (h' : Alike other third) : Alike path third :=
  fun base hbase => (h base hbase).trans (h' base hbase)

end Alike

/-! ## Tidy paths -/

/-- A clean relative path that leads somewhere: no part of it is without a meaning, and no `..` is
behind a name. -/
structure IsTidy (path : Text) : Prop where
  clean_eq : clean path = path
  ne_here : path ≠ here
  head_ne : path.head? ≠ some Byte.slash
  last_ne : path.getLast? ≠ some Byte.slash
  parts_ne : ∀ part ∈ parts path, part ≠ [] ∧ part ≠ here
  climbs : Climbs (parts path)

/-- A slash at either end of a path leaves an empty part there. -/
theorem slash_ne_of_parts {path : Text} (h : ∀ part ∈ parts path, part ≠ []) :
    path.head? ≠ some Byte.slash ∧ path.getLast? ≠ some Byte.slash := by
  constructor
  · intro hhead
    obtain ⟨more, rfl⟩ := List.head?_eq_some_iff.mp hhead
    refine h [] ?_ rfl
    rw [parts, Text.split_separator]
    exact List.mem_cons_self
  · intro hlast
    obtain ⟨more, rfl⟩ := List.getLast?_eq_some_iff.mp hlast
    refine h [] ?_ rfl
    rw [parts, Text.split_append]
    exact List.mem_append_right _ (List.mem_singleton_self _)

theorem isTidy_ofParts_trail {path : Text} (h : trail path ≠ []) :
    IsTidy (ofParts (trail path)) := by
  have hparts : parts (ofParts (trail path)) = trail path :=
    parts_ofParts_of_isComponent h fun c => isComponent_of_mem_trail
  have hnever : ∀ part ∈ parts (ofParts (trail path)), part ≠ [] ∧ part ≠ here := by
    intro part hpart
    rw [hparts] at hpart
    exact ⟨(isComponent_of_mem_trail hpart).1, (isComponent_of_mem_trail hpart).2.1⟩
  obtain ⟨hhead, hlast⟩ := slash_ne_of_parts fun part hpart => (hnever part hpart).1
  have hrelative : isAbsolute (ofParts (trail path)) = false := by
    rw [isAbsolute, beq_eq_false_iff_ne]
    exact hhead
  refine ⟨?_, ?_, hhead, hlast, hnever, by rw [hparts]; exact trail_climbs path⟩
  · have hcomponents : components (ofParts (trail path)) = trail (ofParts (trail path)) := by
      rw [components, hrelative]
      rfl
    rw [clean_of_relative hrelative, hcomponents, trail_ofParts_trail, relative_eq h]
  · intro hhere
    rw [hhere] at hnever
    exact (hnever here (List.mem_singleton_self _)).2 rfl

end Path

end XsPrep
