import XsPrep.Proofs.Files.Names

/-!
# Normal paths

A path is normal if its parts are neither empty nor `.` nor `..`.  Such a path is its own clean
form (`IsNormal.clean_eq`), and normal paths are joined by a slash (`IsNormal.join_eq`).

Any other path that is put behind a normal one leads from its parts to other components
(`IsNormal.join_relative`).  A path that is relative and has no `..` left when it is cleaned only
leads further down (`IsStraight.foldl_parts`), so its clean form tells where it ends wherever it
begins.
-/

namespace XsPrep

/-- The parts of a text, joined again, are the text. -/
theorem Text.joined_split (separator : UInt8) (t : Text) :
    joined [separator] (split separator t) = t := by
  induction t with
  | nil => rfl
  | cons b t ih =>
    rw [split_cons]
    cases hsplit : split separator t with
    | nil => exact absurd hsplit (split_ne_nil separator t)
    | cons part parts =>
      rw [hsplit] at ih
      rw [splitStep]
      split
      · rename_i hb
        rw [joined, List.intercalate_cons_cons, ← joined, ih, hb]
        rfl
      · cases parts with
        | nil => simpa [joined] using ih
        | cons next parts =>
          rw [joined, List.intercalate_cons_cons] at ih ⊢
          rw [← ih]
          rfl

namespace Path

theorem relative_parts (path : Text) : relative (parts path) = path := by
  have hne : parts path ≠ [] := Text.split_ne_nil _ _
  rw [relative_eq hne]
  exact Text.joined_split Byte.slash path

/-! ## Components without `..` -/

theorem foldl_cleanStep_of_notMem (rooted : Bool) {cs : List Text} (h : ∀ c ∈ cs, IsComponent c)
    (hup : up ∉ cs) (before : List Text) :
    cs.foldl (cleanStep rooted) before = cs.reverse ++ before := by
  induction cs generalizing before with
  | nil => rfl
  | cons c cs ih =>
    obtain ⟨⟨hne, hhere, -⟩, hcs⟩ := List.forall_mem_cons.mp h
    rw [List.mem_cons, not_or] at hup
    rw [List.foldl_cons, cleanStep_of_name rooted (not_or.mpr ⟨hne, hhere⟩) (Ne.symm hup.1),
      ih hcs hup.2, List.reverse_cons, List.append_assoc, List.singleton_append]

/-- Components are read off the path they make. -/
theorem relative_injective {cs ds : List Text} (hcs : ∀ c ∈ cs, IsComponent c)
    (hds : ∀ d ∈ ds, IsComponent d) (h : relative cs = relative ds) : cs = ds := by
  have hhere : ∀ {cs : List Text}, (∀ c ∈ cs, IsComponent c) → cs ≠ [] → relative cs ≠ here := by
    intro cs hcs hne heq
    rw [relative_eq hne] at heq
    have hparts := parts_ofParts_of_isComponent hne hcs
    rw [heq] at hparts
    exact (hcs here (hparts ▸ List.mem_cons_self)).2.1 rfl
  by_cases hc : cs = []
  · by_cases hd : ds = []
    · rw [hc, hd]
    · rw [hc] at h
      exact absurd h.symm (hhere hds hd)
  · by_cases hd : ds = []
    · rw [hd] at h
      exact absurd h (hhere hcs hc)
    · rw [relative_eq hc, relative_eq hd] at h
      rw [← parts_ofParts_of_isComponent hc hcs, h, parts_ofParts_of_isComponent hd hds]

theorem isAbsolute_join_nil {path : Text} (h : isAbsolute path = false) :
    isAbsolute (join [[], path]) = false := by
  by_cases hpath : path = []
  · rw [hpath]
    rfl
  · rw [join_nil_left path hpath, isAbsolute_clean h]

/-! ## Normal paths -/

/-- The parts of the path are neither empty nor `.` nor `..`. -/
def IsNormal (path : Text) : Prop := ∀ part ∈ parts path, part ≠ [] ∧ part ≠ here ∧ part ≠ up

instance (path : Text) : Decidable (IsNormal path) :=
  inferInstanceAs (Decidable (∀ part ∈ parts path, part ≠ [] ∧ part ≠ here ∧ part ≠ up))

namespace IsNormal

variable {path more : Text}

theorem isComponent (h : IsNormal path) : ∀ part ∈ parts path, IsComponent part := by
  intro part hpart
  exact ⟨(h part hpart).1, (h part hpart).2.1, Text.notMem_of_mem_split hpart⟩

theorem up_notMem (h : IsNormal path) : up ∉ parts path := fun hup => (h up hup).2.2 rfl

theorem foldl_parts (h : IsNormal path) (rooted : Bool) (before : List Text) :
    (parts path).foldl (cleanStep rooted) before = (parts path).reverse ++ before :=
  foldl_cleanStep_of_notMem rooted h.isComponent h.up_notMem before

theorem ne_nil (h : IsNormal path) : path ≠ [] := by
  rintro rfl
  exact (h [] List.mem_cons_self).1 rfl

theorem isAbsolute_eq (h : IsNormal path) : isAbsolute path = false := by
  cases path with
  | nil => rfl
  | cons b path =>
    have hb : b ≠ Byte.slash := by
      rintro rfl
      refine (h [] ?_).1 rfl
      rw [parts, Text.split_separator]
      exact List.mem_cons_self
    simpa [isAbsolute] using hb

theorem clean_eq (h : IsNormal path) : clean path = path := by
  have hfold : (parts path).foldl (cleanStep false) [] = (parts path).reverse := by
    rw [h.foldl_parts, List.append_nil]
  rw [clean_of_parts h.isAbsolute_eq hfold, relative_parts]

theorem append (h : IsNormal path) (hmore : IsNormal more) :
    IsNormal (path ++ Byte.slash :: more) := by
  intro part hpart
  rw [parts, Text.split_append, List.mem_append] at hpart
  exact hpart.elim (h part) (hmore part)

theorem join_eq (h : IsNormal path) (hmore : IsNormal more) :
    join [path, more] = path ++ Byte.slash :: more := by
  rw [join_of_ne_nil h.ne_nil hmore.ne_nil, (h.append hmore).clean_eq]

theorem join_nil_eq (h : IsNormal path) : join [[], path] = path := by
  rw [join_nil_left path h.ne_nil, h.clean_eq]

/-- What is put behind a normal path leads on from its parts. -/
theorem join_relative (h : IsNormal path) (more : Text) :
    join [path, more] =
      relative ((parts more).foldl (cleanStep false) (parts path).reverse).reverse := by
  by_cases hmore : more = []
  · subst hmore
    have hstay : (parts []).foldl (cleanStep false) (parts path).reverse = (parts path).reverse :=
      cleanStep_of_void false (.inl rfl) _
    rw [join_nil_right path h.ne_nil, h.clean_eq, hstay, List.reverse_reverse, relative_parts]
  · rw [join_of_ne_nil h.ne_nil hmore]
    refine clean_of_parts ?_ ?_
    · rw [isAbsolute_append h.ne_nil, h.isAbsolute_eq]
    · rw [parts, Text.split_append, List.foldl_append, ← parts, h.foldl_parts, List.append_nil,
        List.reverse_reverse]
      rfl

end IsNormal

/-! ## Straight paths -/

/-- The path is relative, and no `..` is left when it is cleaned. -/
def IsStraight (path : Text) : Prop := isAbsolute path = false ∧ up ∉ components path

instance (path : Text) : Decidable (IsStraight path) := inferInstanceAs (Decidable (_ ∧ _))

theorem IsStraight.foldl_parts {path : Text} (h : IsStraight path) (rooted : Bool)
    (before : List Text) :
    (parts path).foldl (cleanStep rooted) before = (components path).reverse ++ before := by
  rw [← foldl_components h.1]
  exact foldl_cleanStep_of_notMem rooted (fun c hc => isComponent_of_mem hc) h.2 before

theorem clean_of_relative {path : Text} (h : isAbsolute path = false) :
    clean path = relative (components path) := by
  refine clean_of_parts h ?_
  rw [components, h, List.reverse_reverse]

/-- The paths with a given normal path as their clean form. -/
theorem clean_eq_iff {path normal : Text} (h : IsNormal normal) :
    clean path = normal ↔ isAbsolute path = false ∧ components path = parts normal := by
  constructor
  · intro hclean
    have hrelative : isAbsolute path = false := by
      rw [Bool.eq_false_iff]
      intro habsolute
      have hnormal := isAbsolute_clean_of_absolute habsolute
      rw [hclean, h.isAbsolute_eq] at hnormal
      cases hnormal
    refine ⟨hrelative, relative_injective (fun c hc => isComponent_of_mem hc) h.isComponent ?_⟩
    rw [← clean_of_relative hrelative, hclean, relative_parts]
  · rintro ⟨hrelative, hcomponents⟩
    rw [clean_of_relative hrelative, hcomponents, relative_parts]

theorem isStraight_of_clean_eq {path normal : Text} (h : IsNormal normal)
    (hclean : clean path = normal) : IsStraight path := by
  obtain ⟨hrelative, hcomponents⟩ := (clean_eq_iff h).mp hclean
  exact ⟨hrelative, hcomponents ▸ h.up_notMem⟩

end Path

end XsPrep
