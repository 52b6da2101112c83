import XsPrep.Proofs.Files.Addresses

/-!
# Clean paths, one behind the other

A path is a walk: seen from the components of an absolute path, its parts are taken one after
the other, and the root is never left (`Path.walk`).  Cleaning a relative path cancels what a
walk would enter and leave again, so the clean path is the same walk wherever it begins
(`walk_clean`).

Joining an absolute path with another one walks on from the components of the first
(`components_join`).  So it does not matter whether a relative path is cleaned before or after
it is put behind a root (`join_join`).
-/

namespace XsPrep

/-- The parts of a split text are free of the separator. -/
theorem Text.notMem_of_mem_split {separator : UInt8} {t part : Text}
    (h : part ∈ split separator t) : separator ∉ part := by
  induction t generalizing part with
  | nil =>
    rw [split_nil, List.mem_singleton] at h
    simp [h]
  | cons b t ih =>
    rw [split_cons] at h
    cases hsplit : split separator t with
    | nil => exact absurd hsplit (split_ne_nil separator t)
    | cons first parts =>
      rw [hsplit] at h ih
      rw [splitStep] at h
      split at h
      · rcases List.mem_cons.mp h with rfl | h
        · exact List.not_mem_nil
        · exact ih h
      · rename_i hb
        rcases List.mem_cons.mp h with rfl | h
        · exact List.not_mem_cons_of_ne_of_not_mem (Ne.symm hb) (ih List.mem_cons_self)
        · exact ih (List.mem_cons_of_mem _ h)

namespace Path

/-! ## Walks -/

/-- The components, newest first, behind the parts of a path, from the given ones on. -/
def walk (components : List Text) (path : Text) : List Text :=
  (parts path).foldl (cleanStep true) components

/-- The components of a path are no parts without a meaning. -/
def IsComponent (part : Text) : Prop := part ≠ [] ∧ part ≠ here ∧ Byte.slash ∉ part

theorem cleanStep_of_void (rooted : Bool) {part : Text} (h : part = [] ∨ part = here)
    (clean : List Text) : cleanStep rooted clean part = clean := by
  unfold cleanStep
  exact if_pos h

theorem cleanStep_of_name (rooted : Bool) {part : Text} (h : ¬(part = [] ∨ part = here))
    (hup : part ≠ up) (clean : List Text) : cleanStep rooted clean part = part :: clean := by
  unfold cleanStep
  rw [if_neg h, if_neg hup]

theorem cleanStep_up (rooted : Bool) (last : Text) (before : List Text) :
    cleanStep rooted (last :: before) up =
      if last = up then up :: last :: before else before := by
  unfold cleanStep
  rw [if_neg (by decide), if_pos rfl]

theorem cleanStep_isComponent (rooted : Bool) {clean : List Text} {part : Text}
    (hclean : ∀ c ∈ clean, IsComponent c) (hpart : Byte.slash ∉ part) :
    ∀ c ∈ cleanStep rooted clean part, IsComponent c := by
  have hcomponent : IsComponent up := ⟨by decide, by decide, by decide⟩
  by_cases hvoid : part = [] ∨ part = here
  · rw [cleanStep_of_void rooted hvoid]
    exact hclean
  by_cases hup : part = up
  · subst hup
    cases clean with
    | nil =>
      cases rooted with
      | true => exact hclean
      | false => exact List.forall_mem_cons.mpr ⟨hcomponent, hclean⟩
    | cons last before =>
      rw [cleanStep_up]
      split
      · exact List.forall_mem_cons.mpr ⟨hcomponent, hclean⟩
      · exact (List.forall_mem_cons.mp hclean).2
  · rw [cleanStep_of_name rooted hvoid hup]
    rw [not_or] at hvoid
    exact List.forall_mem_cons.mpr ⟨⟨hvoid.1, hvoid.2, hpart⟩, hclean⟩

theorem foldl_cleanStep_isComponent (rooted : Bool) {ps : List Text}
    (hps : ∀ part ∈ ps, Byte.slash ∉ part) :
    ∀ c ∈ ps.foldl (cleanStep rooted) [], IsComponent c := by
  induction ps using List.reverseRecOn with
  | nil => simp
  | append_singleton ps part ih =>
    obtain ⟨hps, hpart⟩ := List.forall_mem_append.mp hps
    rw [List.foldl_append, List.foldl_cons, List.foldl_nil]
    exact cleanStep_isComponent rooted (ih hps) (hpart part (List.mem_singleton_self part))

theorem isComponent_of_mem {path c : Text} (h : c ∈ components path) : IsComponent c := by
  refine foldl_cleanStep_isComponent (isAbsolute path) ?_ c (List.mem_reverse.mp h)
  exact fun part hpart => Text.notMem_of_mem_split hpart

/-- Going over clean components is going over the parts they were cleaned from, with or without a
root.  If they were cleaned at the root, then this holds only for a way that begins there, since
`..` is lost. -/
theorem foldl_cleaned (rooted outer : Bool) (before : List Text) {ps : List Text}
    (hps : ∀ part ∈ ps, Byte.slash ∉ part) (hroot : rooted = false ∨ outer = true ∧ before = []) :
    (ps.foldl (cleanStep rooted) []).reverse.foldl (cleanStep outer) before =
      ps.foldl (cleanStep outer) before := by
  induction ps using List.reverseRecOn with
  | nil => rfl
  | append_singleton ps part ih =>
    obtain ⟨hps, -⟩ := List.forall_mem_append.mp hps
    have hclean := foldl_cleanStep_isComponent rooted hps
    simp only [List.foldl_append, List.foldl_cons, List.foldl_nil]
    rw [← ih hps]
    generalize ps.foldl (cleanStep rooted) [] = clean at hclean ⊢
    by_cases hvoid : part = [] ∨ part = here
    · rw [cleanStep_of_void rooted hvoid, cleanStep_of_void outer hvoid]
    by_cases hup : part = up
    · subst hup
      cases clean with
      | nil =>
        rcases hroot with rfl | ⟨rfl, rfl⟩
        · rfl
        · cases rooted <;> rfl
      | cons last clean =>
        obtain ⟨⟨hne, hhere, -⟩, -⟩ := List.forall_mem_cons.mp hclean
        rw [cleanStep_up]
        split
        · rw [List.reverse_cons, List.foldl_append, List.foldl_cons, List.foldl_nil]
        · -- The last component is entered and left again.
          rename_i hlast
          rw [List.reverse_cons, List.foldl_append, List.foldl_cons, List.foldl_nil,
            cleanStep_of_name outer (not_or.mpr ⟨hne, hhere⟩) hlast, cleanStep_up, if_neg hlast]
    · rw [cleanStep_of_name rooted hvoid hup, List.reverse_cons, List.foldl_append,
        List.foldl_cons, List.foldl_nil]

theorem parts_ofParts_of_isComponent {cs : List Text} (hne : cs ≠ [])
    (h : ∀ c ∈ cs, IsComponent c) : parts (ofParts cs) = cs :=
  Text.split_joined hne fun c hc => (h c hc).2.2

/-- Going over the path that components make is going over the components. -/
theorem foldl_parts_ofParts (rooted : Bool) (before : List Text) {cs : List Text}
    (h : ∀ c ∈ cs, IsComponent c) :
    (parts (ofParts cs)).foldl (cleanStep rooted) before = cs.foldl (cleanStep rooted) before := by
  by_cases hne : cs = []
  · rw [hne]
    rfl
  · rw [parts_ofParts_of_isComponent hne h]

/-- Cleaning a relative path does not change where it leads. -/
theorem foldl_components {path : Text} (h : isAbsolute path = false) (rooted : Bool)
    (before : List Text) :
    (components path).foldl (cleanStep rooted) before =
      (parts path).foldl (cleanStep rooted) before := by
  rw [components, h]
  exact foldl_cleaned false rooted before (fun part hpart => Text.notMem_of_mem_split hpart)
    (.inl rfl)

/-- A relative path and its clean form are the same walk. -/
theorem walk_clean {path : Text} (h : isAbsolute path = false) (before : List Text) :
    walk before (clean path) = walk before path := by
  rw [clean, if_neg (by simp [h]), walk, walk, ← foldl_components h]
  cases hcs : components path with
  | nil => rfl
  | cons c cs =>
    have hparts := parts_ofParts_of_isComponent (hcs ▸ List.cons_ne_nil c cs)
      fun c hc => isComponent_of_mem hc
    rw [hcs] at hparts
    dsimp only
    rw [hparts]

/-! ## Absolute paths -/

theorem clean_of_absolute {path : Text} (h : isAbsolute path = true) :
    clean path = Byte.slash :: ofParts (components path) := by
  rw [clean, if_pos h]

theorem isAbsolute_clean_of_absolute {path : Text} (h : isAbsolute path = true) :
    isAbsolute (clean path) = true := by
  rw [clean_of_absolute h]
  rfl

/-- The components of a clean path are those it was made from. -/
theorem components_clean {path : Text} (h : isAbsolute path = true) :
    components (clean path) = components path := by
  have hcleaned := foldl_cleaned true true []
    (fun part (hpart : part ∈ parts path) => Text.notMem_of_mem_split hpart) (.inr ⟨rfl, rfl⟩)
  have hcomponents : components path = ((parts path).foldl (cleanStep true) []).reverse := by
    rw [components, h]
  have hparts : (parts (ofParts (components path))).foldl (cleanStep true) [] =
      (components path).foldl (cleanStep true) [] :=
    foldl_parts_ofParts true [] fun c hc => isComponent_of_mem hc
  have hsplit : parts (Byte.slash :: ofParts (components path)) =
      [] :: parts (ofParts (components path)) :=
    Text.split_separator Byte.slash _
  rw [← hcomponents] at hcleaned
  rw [clean_of_absolute h, components, hsplit, List.foldl_cons]
  show ((parts (ofParts (components path))).foldl (cleanStep true) []).reverse = _
  rw [hparts, hcleaned, ← List.reverse_reverse (components path), hcomponents]
  simp

theorem clean_clean_of_absolute {path : Text} (h : isAbsolute path = true) :
    clean (clean path) = clean path := by
  rw [clean_of_absolute (isAbsolute_clean_of_absolute h), components_clean h,
    ← clean_of_absolute h]

/-! ## Joining -/

theorem join_nil_left (path : Text) (h : path ≠ []) : join [[], path] = clean path := by
  have hfilter : [[], path].filter (!·.isEmpty) = [path] := by simp [h]
  rw [join, hfilter]
  simp [ofParts, Text.joined]

theorem join_nil_right (path : Text) (h : path ≠ []) : join [path, []] = clean path := by
  have hfilter : [path, []].filter (!·.isEmpty) = [path] := by simp [h]
  rw [join, hfilter]
  simp [ofParts, Text.joined]

theorem join_of_ne_nil {path more : Text} (h : path ≠ []) (hmore : more ≠ []) :
    join [path, more] = clean (path ++ Byte.slash :: more) := by
  have hfilter : [path, more].filter (!·.isEmpty) = [path, more] := by simp [h, hmore]
  rw [join, hfilter]
  simp [ofParts, Text.joined, List.intercalate_cons_cons]

theorem isAbsolute_append {path : Text} (h : path ≠ []) (more : Text) :
    isAbsolute (path ++ more) = isAbsolute path := by
  obtain ⟨b, path, rfl⟩ := List.exists_cons_of_ne_nil h
  rfl

theorem ne_nil_of_isAbsolute {path : Text} (h : isAbsolute path = true) : path ≠ [] := by
  rintro rfl
  cases h

theorem walk_append (before : List Text) (path more : Text) :
    walk before (path ++ Byte.slash :: more) = walk (walk before path) more := by
  rw [walk, parts, Text.split_append, List.foldl_append]
  rfl

/-- Behind a base, the parts of a path go on from the components of the base. -/
theorem exists_join_eq_clean {base : Text} (hbase : base ≠ []) (path : Text) :
    ∃ whole, join [base, path] = clean whole ∧ isAbsolute whole = isAbsolute base ∧
      components whole = ((parts path).foldl (cleanStep (isAbsolute base))
        ((parts base).foldl (cleanStep (isAbsolute base)) [])).reverse := by
  by_cases hpath : path = []
  · subst hpath
    exact ⟨base, join_nil_right base hbase, rfl, rfl⟩
  · have habsolute : isAbsolute (base ++ Byte.slash :: path) = isAbsolute base :=
      isAbsolute_append hbase _
    refine ⟨_, join_of_ne_nil hbase hpath, habsolute, ?_⟩
    rw [components, habsolute, parts, Text.split_append, List.foldl_append]
    rfl

/-- What is put behind an absolute path. -/
theorem join_of_absolute {root : Text} (h : isAbsolute root = true) (path : Text) :
    ∃ whole, join [root, path] = clean whole ∧ isAbsolute whole = true ∧
      components whole = (walk (components root).reverse path).reverse := by
  obtain ⟨whole, hjoin, habsolute, hcomponents⟩ :=
    exists_join_eq_clean (ne_nil_of_isAbsolute h) path
  have hroot : (components root).reverse = (parts root).foldl (cleanStep true) [] := by
    rw [components, h, List.reverse_reverse]
  refine ⟨whole, hjoin, habsolute.trans h, ?_⟩
  rw [hcomponents, h, hroot]
  rfl

theorem isAbsolute_join {root : Text} (h : isAbsolute root = true) (path : Text) :
    isAbsolute (join [root, path]) = true := by
  obtain ⟨whole, hjoin, habsolute, -⟩ := join_of_absolute h path
  rw [hjoin]
  exact isAbsolute_clean_of_absolute habsolute

theorem components_join {root : Text} (h : isAbsolute root = true) (path : Text) :
    components (join [root, path]) = (walk (components root).reverse path).reverse := by
  obtain ⟨whole, hjoin, habsolute, hcomponents⟩ := join_of_absolute h path
  rw [hjoin, components_clean habsolute, hcomponents]

theorem join_eq {root : Text} (h : isAbsolute root = true) (path : Text) :
    join [root, path] = Byte.slash :: ofParts (walk (components root).reverse path).reverse := by
  obtain ⟨whole, hjoin, habsolute, hcomponents⟩ := join_of_absolute h path
  rw [hjoin, clean_of_absolute habsolute, hcomponents]

/-- Joining is walking over both. -/
theorem walk_join {path more : Text} (hpath : isAbsolute path = false)
    (hmore : isAbsolute more = false) (before : List Text) :
    walk before (join [path, more]) = walk (walk before path) more := by
  by_cases hp : path = []
  · subst hp
    by_cases hm : more = []
    · subst hm
      rfl
    · rw [join_nil_left more hm, walk_clean hmore]
      rfl
  · by_cases hm : more = []
    · subst hm
      rw [join_nil_right path hp, walk_clean hpath]
      rfl
    · rw [join_of_ne_nil hp hm, walk_clean (by rw [isAbsolute_append hp, hpath]), walk_append]

/-- Relative paths can be joined before or after they are put behind a root. -/
theorem join_join {root path more : Text} (hroot : isAbsolute root = true)
    (hpath : isAbsolute path = false) (hmore : isAbsolute more = false) :
    join [root, join [path, more]] = join [join [root, path], more] := by
  rw [join_eq hroot, join_eq (isAbsolute_join hroot path), components_join hroot,
    List.reverse_reverse, walk_join hpath hmore]

/-! ## Relative paths -/

/-- Without the slashes in front a path is relative. -/
theorem isAbsolute_dropWhile (path : Text) :
    isAbsolute (path.dropWhile (· == Byte.slash)) = false := by
  have hhead := List.head?_dropWhile_not (· == Byte.slash) path
  rw [isAbsolute, beq_eq_false_iff_ne]
  intro hslash
  rw [hslash] at hhead
  cases hhead

/-- Cleaning makes no path absolute. -/
theorem isAbsolute_clean {path : Text} (h : isAbsolute path = false) :
    isAbsolute (clean path) = false := by
  rw [clean, if_neg (by simp [h])]
  cases hcs : components path with
  | nil => rfl
  | cons c cs =>
    obtain ⟨hne, -, hslash⟩ := isComponent_of_mem (hcs ▸ List.mem_cons_self (a := c) (l := cs))
    obtain ⟨b, c, rfl⟩ := List.exists_cons_of_ne_nil hne
    have hb : b ≠ Byte.slash := by
      rintro rfl
      exact hslash List.mem_cons_self
    cases cs with
    | nil => simpa [isAbsolute, ofParts, Text.joined] using hb
    | cons next cs =>
      simpa [isAbsolute, ofParts, Text.joined, List.intercalate_cons_cons] using hb

end Path

end XsPrep
