import XsPrep.Proofs.Files.Cleaning

/-!
# Paths that are made of names

A path below a directory is a list of names, and the directory itself is the path `.`
(`Path.relative`).  For such paths cleaning, joining, and taking off the last name are operations
on the list: none of the names is lost, and none means anything else than itself.
-/

namespace XsPrep.Path

open Files (Address)

variable {names : List Text} {name : Text}

/-- The path of names below a directory. -/
def relative : List Text → Text
  | [] => here
  | names => ofParts names

theorem relative_eq (h : names ≠ []) : relative names = ofParts names := by
  cases names with
  | nil => exact absurd rfl h
  | cons name names => rfl

theorem relative_concat (names : List Text) (name : Text) :
    relative (names ++ [name]) = ofParts (names ++ [name]) :=
  relative_eq (List.append_ne_nil_of_right_ne_nil _ (List.cons_ne_nil _ _))

theorem ofParts_singleton (name : Text) : ofParts [name] = name := by
  rw [ofParts, Text.joined, List.intercalate_singleton]

theorem ofParts_concat (h : names ≠ []) (name : Text) :
    ofParts (names ++ [name]) = ofParts names ++ Byte.slash :: name := by
  induction names with
  | nil => exact absurd rfl h
  | cons first names ih =>
    cases names with
    | nil => simp [ofParts, Text.joined, List.intercalate_cons_cons]
    | cons second names =>
      have hrest := ih (List.cons_ne_nil _ _)
      simp only [ofParts, Text.joined, List.cons_append] at hrest ⊢
      rw [List.intercalate_cons_cons, hrest, List.intercalate_cons_cons]
      simp

theorem IsName.isComponent (h : IsName name) : IsComponent name := ⟨h.1, h.2.1, h.2.2.2.1⟩

theorem IsName.proper (h : IsName name) : Address.Proper [name] := by
  intro other hother
  rwa [List.mem_singleton.mp hother]

theorem IsName.bne_slash (h : IsName name) : ∀ b ∈ name.reverse, (b != Byte.slash) = true := by
  intro b hb
  have hno := h.2.2.2.1
  rw [List.mem_reverse] at hb
  simpa using fun heq : b = Byte.slash => hno (heq ▸ hb)

/-! ## Splitting and cleaning -/

theorem parts_ofParts (h : Address.Proper names) (hne : names ≠ []) :
    parts (ofParts names) = names :=
  parts_ofParts_of_isComponent hne fun name hname => (h name hname).isComponent

theorem ofParts_ne_nil (h : Address.Proper names) (hne : names ≠ []) : ofParts names ≠ [] := by
  intro hnil
  have hparts := parts_ofParts h hne
  rw [hnil] at hparts
  have hmem : ([] : Text) ∈ names := hparts ▸ List.mem_cons_self
  exact (h [] hmem).1 rfl

theorem foldl_cleanStep_names (rooted : Bool) (h : Address.Proper names) (clean : List Text) :
    names.foldl (cleanStep rooted) clean = names.reverse ++ clean := by
  rw [foldl_cleanStep rooted fun name hname _ => h name hname, h.filter_eq]

theorem walk_ofParts (h : Address.Proper names) (before : List Text) :
    walk before (ofParts names) = names.reverse ++ before := by
  cases names with
  | nil => rfl
  | cons name names =>
    rw [walk, parts_ofParts h (List.cons_ne_nil _ _), foldl_cleanStep_names true h]

theorem isAbsolute_of_isName (h : IsName name) (more : Text) :
    isAbsolute (name ++ more) = false := by
  obtain ⟨b, name, rfl⟩ := List.exists_cons_of_ne_nil h.1
  have hb : b ≠ Byte.slash := by
    rintro rfl
    exact h.2.2.2.1 List.mem_cons_self
  simpa [isAbsolute] using hb

theorem isAbsolute_ofParts (h : Address.Proper names) : isAbsolute (ofParts names) = false := by
  cases names with
  | nil => rfl
  | cons name names =>
    have hname := h name List.mem_cons_self
    cases names with
    | nil =>
      rw [ofParts_singleton, ← List.append_nil name]
      exact isAbsolute_of_isName hname []
    | cons next names =>
      rw [ofParts, Text.joined, List.intercalate_cons_cons, List.append_assoc]
      exact isAbsolute_of_isName hname _

/-- A path whose parts are names is clean, apart from what means nothing. -/
theorem clean_of_parts {path : Text} {cleaned : List Text} (habsolute : isAbsolute path = false)
    (h : (parts path).foldl (cleanStep false) [] = cleaned.reverse) :
    clean path = relative cleaned := by
  have hcomponents : components path = cleaned := by
    rw [components, habsolute, h, List.reverse_reverse]
  rw [clean, habsolute, if_neg Bool.false_ne_true, hcomponents]
  cases cleaned with
  | nil => rfl
  | cons name cleaned => rfl

theorem clean_ofParts (h : Address.Proper names) : clean (ofParts names) = relative names := by
  refine clean_of_parts (isAbsolute_ofParts h) ?_
  cases names with
  | nil => rfl
  | cons name names =>
    rw [parts_ofParts h (List.cons_ne_nil _ _), foldl_cleanStep_names false h, List.append_nil]

/-! ## One more name -/

theorem proper_concat_iff :
    Address.Proper (names ++ [name]) ↔ Address.Proper names ∧ IsName name := by
  simp only [Address.Proper, List.forall_mem_append, List.forall_mem_singleton]

theorem proper_concat (h : Address.Proper names) (hname : IsName name) :
    Address.Proper (names ++ [name]) :=
  proper_concat_iff.mpr ⟨h, hname⟩

theorem join_ofParts (h : Address.Proper names) (hname : IsName name) :
    join [ofParts names, name] = ofParts (names ++ [name]) := by
  have hclean := clean_ofParts (proper_concat h hname)
  rw [relative_concat] at hclean
  by_cases hnames : names = []
  · subst hnames
    rw [List.nil_append, ofParts_singleton] at hclean ⊢
    exact (join_nil_left name hname.1).trans hclean
  · rw [join_of_ne_nil (ofParts_ne_nil h hnames) hname.1, ← ofParts_concat hnames, hclean]

theorem join_relative (h : Address.Proper names) (hname : IsName name) :
    join [relative names, name] = ofParts (names ++ [name]) := by
  by_cases hnames : names = []
  · subst hnames
    have hparts : parts (here ++ Byte.slash :: name) = [here, name] := by
      have hsplit := Text.split_append Byte.slash here name
      rw [Text.split_eq_singleton hname.2.2.2.1] at hsplit
      exact hsplit
    have hclean : clean (here ++ Byte.slash :: name) = relative [name] := by
      refine clean_of_parts rfl ?_
      rw [hparts, List.foldl_cons, cleanStep_of_void false (.inr rfl)]
      exact foldl_cleanStep_names false hname.proper []
    exact (join_of_ne_nil (by decide) hname.1).trans hclean
  · rw [relative_eq hnames, join_ofParts h hname]

theorem directory_ofParts (h : Address.Proper names) (hname : IsName name) :
    directory (ofParts (names ++ [name])) = relative names := by
  have hslash := hname.bne_slash
  by_cases hnames : names = []
  · subst hnames
    rw [List.nil_append, ofParts_singleton, directory, List.dropWhile_eq_nil_iff.mpr hslash]
    rfl
  · have hcut : ((ofParts names ++ Byte.slash :: name).reverse.dropWhile
        (· != Byte.slash)).reverse = ofParts names ++ [Byte.slash] := by
      rw [List.reverse_append, List.reverse_cons, List.append_assoc,
        List.dropWhile_append_of_pos hslash]
      simp
    rw [directory, ofParts_concat hnames, hcut]
    refine clean_of_parts ?_ ?_
    · rw [isAbsolute_append (ofParts_ne_nil h hnames), isAbsolute_ofParts h]
    · rw [parts, Text.split_append, Text.split_nil, ← parts, parts_ofParts h hnames,
        List.foldl_append, foldl_cleanStep_names false h, List.append_nil]
      exact cleanStep_of_void false (.inl rfl) _

/-! ## The last name -/

theorem base_append (h : IsName name) (before : Text) :
    base (before ++ name) = lastPart (before ++ name) := by
  obtain ⟨b, rest, hlast⟩ := List.exists_cons_of_ne_nil (List.reverse_ne_nil_iff.mpr h.1)
  have hb : (b == Byte.slash) = false := by
    simpa using h.bne_slash b (hlast ▸ List.mem_cons_self)
  have hreverse : (before ++ name).reverse = b :: (rest ++ before.reverse) := by
    rw [List.reverse_append, hlast, List.cons_append]
  rw [base, hreverse, List.dropWhile_cons_of_neg (by simp [hb])]
  dsimp only
  rw [← hreverse, List.reverse_reverse]

theorem base_of_isName (h : IsName name) : base name = name := by
  have hbase := base_append h []
  rw [List.nil_append] at hbase
  rw [hbase, lastPart, List.takeWhile_eq_self_iff.mpr h.bne_slash, List.reverse_reverse]

theorem base_behind_slash (h : IsName name) (before : Text) :
    base (before ++ Byte.slash :: name) = name := by
  have hbase := base_append h (before ++ [Byte.slash])
  rw [List.append_assoc, List.singleton_append] at hbase
  rw [hbase, lastPart, List.reverse_append, List.reverse_cons, List.append_assoc,
    List.takeWhile_append_of_pos h.bne_slash]
  simp

theorem base_ofParts (hname : IsName name) : base (ofParts (names ++ [name])) = name := by
  by_cases hnames : names = []
  · rw [hnames, List.nil_append, ofParts_singleton, base_of_isName hname]
  · rw [ofParts_concat hnames, base_behind_slash hname]

theorem base_path (hname : IsName name) : base (Address.path (names ++ [name])) = name := by
  obtain ⟨before, hpath, -⟩ := Address.Proper.path_concat names name
  rw [hpath, base_behind_slash hname]

/-! ## Below an absolute path -/

theorem join_absolute {root : Text} (hroot : isAbsolute root = true) (h : Address.Proper names) :
    join [root, ofParts names] = Address.path (components root ++ names) := by
  rw [join_eq hroot, walk_ofParts h, List.reverse_append, List.reverse_reverse,
    List.reverse_reverse]
  rfl

theorem parts_path {cs : List Text} (h : ∀ c ∈ cs, IsComponent c) (hne : cs ≠ []) :
    parts (Address.path cs) = [] :: cs := by
  rw [Address.path, parts, Text.split_separator, ← parts, parts_ofParts_of_isComponent hne h]

end XsPrep.Path
