import XsPrep.Proofs.Build.Candidates
import XsPrep.Proofs.Ordered.Tables

/-!
# What an include is resolved to

The label for an include is picked at the first of its places that has an override or a rule, and
only if there is none, and the include is not local, by an include index.  `Picks` says so case by
case, without the search, and the search finds exactly what it says (`resolve_eq_some_iff`).  A
place that only the rule itself offers is taken as well: it picks the rule, and no later place or
index is asked.

The dependencies of a rule are the picks of its includes other than the rule itself, written as
they are seen from its package, as a set in ascending order (`resolve_value`).  Labels that are
absolute and not canonical are told apart by how they are written (`text_relative_ne`), so the
rule is not among its dependencies under another name.
-/

namespace XsPrep

/-! ## Logs -/

namespace Logged

theorem value_mapM {α β : Type} (f : α → Logged β) (xs : List α) :
    (xs.mapM f).value = xs.map fun x => (f x).value := by
  induction xs with
  | nil => rfl
  | cons x xs ih =>
    rw [List.mapM_cons, value_bind, value_bind, value_pure, ih, List.map_cons]

end Logged

/-! ## Labels -/

namespace Label

/-- The repository that a label names, seen from a repository with the name `main`. -/
def home (main : Text) (label : Label) : Text :=
  if label.repository = [] ∨ label.repository = repositoryMark then main else label.repository

/-- Two absolute labels name the same target. -/
def SameTarget (main : Text) (label other : Label) : Prop :=
  label.home main = other.home main ∧ label.package = other.package ∧ label.name = other.name

/-- The label is absolute, not canonical, and names the main repository, if at all, by the name
`main`. -/
structure IsUsual (main : Text) (label : Label) : Prop where
  absolute : label.isRelative = false
  notCanonical : label.isCanonical = false
  named : label.repository = [] ∨ label.repository = repositoryMark → label.repository = main

instance (main : Text) (label : Label) : Decidable (IsUsual main label) :=
  decidable_of_iff
    (label.isRelative = false ∧ label.isCanonical = false ∧
      (label.repository = [] ∨ label.repository = repositoryMark → label.repository = main))
    ⟨fun h => ⟨h.1, h.2.1, h.2.2⟩, fun h => ⟨h.absolute, h.notCanonical, h.named⟩⟩

variable {main : Text} {label other : Label}

theorem IsUsual.home_eq (h : IsUsual main label) : label.home main = label.repository := by
  rw [home]
  split
  · rename_i hmain
    exact (h.named hmain).symm
  · rfl

/-- Usual labels of one target are equal. -/
theorem IsUsual.eq_of_sameTarget (h : IsUsual main label) (hother : IsUsual main other)
    (hsame : SameTarget main label other) : label = other := by
  obtain ⟨hhome, hpackage, hname⟩ := hsame
  rw [h.home_eq, hother.home_eq] at hhome
  have habsolute := h.absolute.trans hother.absolute.symm
  have hcanonical := h.notCanonical.trans hother.notCanonical.symm
  cases label
  cases other
  simp_all

theorem bytes_colon : bytes ":" = [Byte.colon] := rfl

/-- An absolute label does not begin like a relative one. -/
theorem IsUsual.head?_text (h : IsUsual main label) : label.text.head? ≠ some Byte.colon := by
  have hat : repositoryMark = [Byte.atSign] := rfl
  have hslashes : packageMark = [Byte.slash, Byte.slash] := rfl
  have hother : Byte.slash ≠ Byte.colon ∧ Byte.atSign ≠ Byte.colon := by decide
  rw [text, h.absolute, if_neg Bool.false_ne_true, repositoryText, h.notCanonical, Bool.false_and,
    if_neg Bool.false_ne_true, hslashes]
  split
  · rename_i hmain
    rcases hmain with hempty | hmain
    · simp [List.isEmpty_iff.mp hempty, hother]
    · simp [hmain, hat, hother]
  · simp [hat, hother]

/-- Seen from the package of a usual label, other usual labels are written in another way. -/
theorem text_relative_ne {user : Label} (huser : IsUsual user.repository user)
    (h : IsUsual user.repository label) (hne : label ≠ user) :
    (label.relative user.repository user.package).text ≠
      (user.relative user.repository user.package).text := by
  have hself : (user.relative user.repository user.package).text = Byte.colon :: user.name := by
    simp [relative, huser.absolute, text, bytes_colon]
  rw [hself]
  intro htext
  by_cases hrepository : label.repository = user.repository
  · by_cases hpackage : label.package = user.package
    · -- Both are written by their names.
      have hname : label.name = user.name := by
        simpa [relative, h.absolute, hrepository, hpackage, text, bytes_colon] using htext
      refine hne (h.eq_of_sameTarget huser ⟨?_, hpackage, hname⟩)
      rw [h.home_eq, huser.home_eq, hrepository]
    · have hpackaged : IsUsual [] ⟨[], label.package, label.name, false, false⟩ :=
        ⟨rfl, rfl, fun _ => rfl⟩
      refine hpackaged.head?_text ?_
      have hrelative : label.relative user.repository user.package =
          ⟨[], label.package, label.name, false, false⟩ := by
        simp [relative, h.absolute, hrepository, hpackage]
      rw [← hrelative, htext]
      rfl
  · refine h.head?_text ?_
    have hrelative : label.relative user.repository user.package = label := by
      simp [relative, hrepository]
    rw [← hrelative, htext]
    rfl

end Label

namespace Build

variable {settings : Settings} {offers : Offers} {user label : Label} {path : Text}

/-! ## Places -/

/-- A place is taken if it has an override or if a rule offers the file there. -/
def IsTaken (settings : Settings) (offers : Offers) (path : Text) : Prop :=
  (settings.overrides.get? path).isSome = true ∨ offers.providers path ≠ []

/-- The label that a place gives to the rule `user`. -/
inductive Gives (settings : Settings) (offers : Offers) (user : Label) (path : Text) :
    Label → Prop where
  /-- An override comes before all rules. -/
  | override {label : Label} (hoverride : settings.overrides.get? path = some label) :
    Gives settings offers user path label
  /-- The first rule other than `user` that offers the file. -/
  | other {label : Label} {before after : List Label}
      (hoverride : settings.overrides.get? path = none)
      (hproviders : offers.providers path = before ++ label :: after)
      (hbefore : ∀ earlier ∈ before, earlier = user) (hother : label ≠ user) :
    Gives settings offers user path label
  /-- No other rule than `user` offers the file. -/
  | self (hoverride : settings.overrides.get? path = none)
      (hproviders : offers.providers path ≠ [])
      (hall : ∀ provider ∈ offers.providers path, provider = user) :
    Gives settings offers user path user

theorem provider?_of_override (h : settings.overrides.get? path = some label) :
    provider? settings offers user path = some label := by
  rw [provider?, h]

theorem provider?_of_rules (h : settings.overrides.get? path = none) :
    provider? settings offers user path =
      ((offers.providers path).find? (· ≠ user)).or
        (if offers.providers path = [] then none else some user) := by
  rw [provider?, h]
  dsimp only
  cases (offers.providers path).find? (· ≠ user) with
  | some label => rfl
  | none => simp only [List.isEmpty_iff, Option.none_or]

theorem Gives.of_provider? (h : provider? settings offers user path = some label) :
    Gives settings offers user path label := by
  cases hoverride : settings.overrides.get? path with
  | some found =>
    rw [provider?_of_override hoverride, Option.some_inj] at h
    exact h ▸ .override hoverride
  | none =>
    rw [provider?_of_rules hoverride] at h
    cases hfind : (offers.providers path).find? (· ≠ user) with
    | some found =>
      obtain ⟨hother, before, after, hproviders, hbefore⟩ :=
        List.find?_eq_some_iff_append.mp hfind
      rw [hfind, Option.some_or, Option.some_inj] at h
      exact h ▸ .other hoverride hproviders (by simpa using hbefore) (by simpa using hother)
    | none =>
      rw [hfind, Option.none_or] at h
      split at h
      · cases h
      · rename_i hne
        rw [← Option.some.inj h]
        exact .self hoverride hne (by simpa using hfind)

theorem provider?_eq_some_iff :
    provider? settings offers user path = some label ↔ Gives settings offers user path label := by
  refine ⟨Gives.of_provider?, fun h => ?_⟩
  cases h with
  | override hoverride => exact provider?_of_override hoverride
  | other hoverride hproviders hbefore hother =>
    rw [provider?_of_rules hoverride, hproviders, List.find?_append,
      List.find?_eq_none.mpr (by simpa using hbefore)]
    simp [hother]
  | self hoverride hproviders hall =>
    rw [provider?_of_rules hoverride, List.find?_eq_none.mpr (by simpa using hall),
      if_neg hproviders, Option.none_or]

theorem provider?_eq_none_iff :
    provider? settings offers user path = none ↔ ¬IsTaken settings offers path := by
  rw [IsTaken, not_or]
  cases hoverride : settings.overrides.get? path with
  | some found => simp [provider?, hoverride]
  | none =>
    have hsome := provider?_isSome hoverride offers user
    simpa using not_congr hsome

/-! ## Indexes -/

/-- The only label of a list. -/
def sole? : List Label → Option Label
  | [label] => some label
  | _ => none

theorem sole?_eq_some_iff {labels : List Label} : sole? labels = some label ↔ labels = [label] := by
  unfold sole?
  split <;> simp_all

theorem sole?_eq_none_iff {labels : List Label} : sole? labels = none ↔ labels.length ≠ 1 := by
  unfold sole?
  split
  · simp
  · rename_i hmany
    simpa [List.length_eq_one_iff] using hmany

theorem lookupIn_value (name : Text) (indexes : List IncludeIndex) :
    (lookupIn user name indexes).value =
      indexes.findSome? fun index => sole? (index.targets (Path.clean name)) := by
  induction indexes with
  | nil => rfl
  | cons index indexes ih =>
    rw [lookupIn, IncludeIndex.lookup, List.findSome?_cons]
    match index.targets (Path.clean name) with
    | [] => exact ih
    | [target] => rfl
    | first :: second :: more => exact ih

/-! ## Picks -/

/-- The label that is picked for an include of the rule `user`. -/
inductive Picks (settings : Settings) (offers : Offers) (user : Label) (inclusion : Include) :
    Label → Prop where
  /-- The earliest place that is taken decides. -/
  | place {before after : List Text} {path : Text} {label : Label}
      (hcandidates : inclusion.candidates settings.searchDirectories = before ++ path :: after)
      (hbefore : ∀ earlier ∈ before, ¬IsTaken settings offers earlier)
      (hgives : Gives settings offers user path label) :
    Picks settings offers user inclusion label
  /-- If no place is taken and the include is not local, then the first index with exactly one
  label for the clean name decides. -/
  | index {before after : List IncludeIndex} {index : IncludeIndex} {label : Label}
      (hfree : ∀ path ∈ inclusion.candidates settings.searchDirectories,
        ¬IsTaken settings offers path)
      (hlocal : ¬Lookup.localMark <+: inclusion.name)
      (hindexes : settings.indexes = before ++ index :: after)
      (hbefore : ∀ earlier ∈ before,
        (earlier.targets (Path.clean inclusion.name)).length ≠ 1)
      (htargets : index.targets (Path.clean inclusion.name) = [label]) :
    Picks settings offers user inclusion label

/-- The search for an include finds what is picked for it. -/
theorem resolve_eq_some_iff {inclusion : Include} :
    (inclusion.resolve settings offers user).value = some label ↔
      Picks settings offers user inclusion label := by
  constructor
  · intro h
    cases hfirst : (inclusion.candidates settings.searchDirectories).findSome?
        (provider? settings offers user) with
    | some found =>
      obtain ⟨before, path, after, hsplit, hgives, hbefore⟩ := List.findSome?_eq_some_iff.mp hfirst
      rw [Include.resolve_of_split hsplit hbefore hgives, Logged.value_pure, Option.some_inj] at h
      refine .place hsplit (fun p hp => provider?_eq_none_iff.mp (hbefore p hp)) ?_
      exact provider?_eq_some_iff.mp (h ▸ hgives)
    | none =>
      have hnone := List.findSome?_eq_none_iff.mp hfirst
      rw [Include.resolve_of_none hnone, lookupIndexes, Text.startsWith] at h
      split at h
      · cases h
      · rename_i hlocal
        rw [lookupIn_value] at h
        obtain ⟨before, index, after, hindexes, hsole, hbefore⟩ := List.findSome?_eq_some_iff.mp h
        exact .index (fun p hp => provider?_eq_none_iff.mp (hnone p hp))
          (fun hprefix => hlocal (List.isPrefixOf_iff_prefix.mpr hprefix)) hindexes
          (fun i hi => sole?_eq_none_iff.mp (hbefore i hi)) (sole?_eq_some_iff.mp hsole)
  · intro h
    cases h with
    | place hcandidates hbefore hgives =>
      rw [Include.resolve_of_split hcandidates
        (fun p hp => provider?_eq_none_iff.mpr (hbefore p hp)) (provider?_eq_some_iff.mpr hgives)]
      rfl
    | index hfree hlocal hindexes hbefore htargets =>
      rw [Include.resolve_of_none fun p hp => provider?_eq_none_iff.mpr (hfree p hp),
        lookupIndexes, Text.startsWith, Include.localMark_eq,
        if_neg (fun hmark => hlocal (List.isPrefixOf_iff_prefix.mp hmark)), lookupIn_value,
        hindexes, List.findSome?_append,
        List.findSome?_eq_none_iff.mpr fun i hi => sole?_eq_none_iff.mpr (hbefore i hi),
        Option.none_or, List.findSome?_cons, sole?_eq_some_iff.mpr htargets]

/-! ## Dependencies -/

/-- The label as it is written in the dependencies of the rule `user`. -/
def seenFrom (user label : Label) : Text := (label.relative user.repository user.package).text

/-- The dependencies of the rule `user` with the given includes. -/
def dependenciesOf (settings : Settings) (offers : Offers) (user : Label)
    (includes : List Include) : List Text :=
  (TextSet.ofList (((includes.filterMap fun inclusion =>
    (inclusion.resolve settings offers user).value).filter (· ≠ user)).map (seenFrom user))).toList

theorem resolve_value {rule : Rule} {includes : List Include}
    (h : rule.includes = some includes) :
    (rule.resolve settings offers user).value =
      if dependenciesOf settings offers user includes = [] then rule
      else { rule with dependencies := some (dependenciesOf settings offers user includes) } := by
  rw [Rule.resolve, h]
  simp only [Logged.value_bind, Logged.value_pure, Logged.value_mapM, List.filterMap_map,
    TextSet.isEmpty, List.isEmpty_iff]
  rfl

theorem mem_dependenciesOf {includes : List Include} {text : Text} :
    text ∈ dependenciesOf settings offers user includes ↔
      ∃ inclusion ∈ includes, ∃ label, Picks settings offers user inclusion label ∧
        label ≠ user ∧ seenFrom user label = text := by
  simp only [dependenciesOf, TextSet.mem_toList_ofList, List.mem_map, List.mem_filter,
    List.mem_filterMap, resolve_eq_some_iff, decide_eq_true_eq]
  constructor
  · rintro ⟨label, ⟨⟨inclusion, hmem, hpicks⟩, hne⟩, htext⟩
    exact ⟨inclusion, hmem, label, hpicks, hne, htext⟩
  · rintro ⟨inclusion, hmem, label, hpicks, hne, htext⟩
    exact ⟨label, ⟨⟨inclusion, hmem, hpicks⟩, hne⟩, htext⟩

theorem dependenciesOf_ascending (settings : Settings) (offers : Offers) (user : Label)
    (includes : List Include) :
    (dependenciesOf settings offers user includes).Pairwise fun s t => Text.precedes s t = true :=
  TextSet.toList_ascending _

/-- Only which includes there are matters, not their order and not how often each is written. -/
theorem dependenciesOf_congr {includes includes' : List Include}
    (h : ∀ inclusion, inclusion ∈ includes' ↔ inclusion ∈ includes) :
    dependenciesOf settings offers user includes' =
      dependenciesOf settings offers user includes := by
  refine Text.eq_of_ascending id (dependenciesOf_ascending ..) (dependenciesOf_ascending ..) ?_
  intro text
  simp only [mem_dependenciesOf, h]

/-! ## The rule itself -/

/-- All labels of a resolution are usual for the repository of the rule `user`. -/
structure UsualLabels (settings : Settings) (offers : Offers) (user : Label) : Prop where
  own : user.IsUsual user.repository
  overrides : ∀ entry ∈ settings.overrides.entries, entry.2.IsUsual user.repository
  offered : ∀ offer ∈ offers, offer.1.IsUsual user.repository
  indexed : ∀ index ∈ settings.indexes, ∀ entry ∈ index.entries, ∀ label ∈ entry.2,
    label.IsUsual user.repository

namespace UsualLabels

theorem of_mem_providers (h : UsualLabels settings offers user)
    (hlabel : label ∈ offers.providers path) : label.IsUsual user.repository := by
  obtain ⟨offer, hoffer, rfl⟩ := List.mem_map.mp hlabel
  exact h.offered offer (List.mem_of_mem_filter hoffer)

theorem of_mem_targets (h : UsualLabels settings offers user) {index : IncludeIndex}
    (hindex : index ∈ settings.indexes) (hlabel : label ∈ index.targets path) :
    label.IsUsual user.repository := by
  rw [IncludeIndex.targets] at hlabel
  cases hget : index.get? path with
  | none =>
    rw [hget] at hlabel
    cases hlabel
  | some labels =>
    rw [hget] at hlabel
    exact h.indexed index hindex _ (Table.mem_of_find? hget) label hlabel

theorem of_picks (h : UsualLabels settings offers user) {inclusion : Include}
    (hpicks : Picks settings offers user inclusion label) : label.IsUsual user.repository := by
  cases hpicks with
  | place hcandidates hbefore hgives =>
    cases hgives with
    | override hoverride => exact h.overrides _ (Table.mem_of_find? hoverride)
    | @other _ before after hoverride hproviders hearlier hother =>
      have hmem : label ∈ before ++ label :: after := by simp
      exact h.of_mem_providers (hproviders ▸ hmem)
    | self hoverride hproviders hall => exact h.own
  | @index before after index _ hfree hlocal hindexes hearlier htargets =>
    have hindex : index ∈ before ++ index :: after := by simp
    exact h.of_mem_targets (hindexes ▸ hindex) (htargets ▸ List.mem_cons_self)

end UsualLabels

/-- A rule with includes gets the dependencies that are picked for them, apart from the rule
itself, in strictly ascending order and as they are seen from its package.  What is picked does
not depend on the order or the number of the includes.  If all labels are absolute, not canonical,
and have one name for the main repository, then no dependency is the rule itself. -/
theorem dependencies_decided {rule : Rule} {includes : List Include}
    (hincludes : rule.includes = some includes) (husual : UsualLabels settings offers user) :
    ∃ dependencies,
      (rule.resolve settings offers user).value =
        (if dependencies = [] then rule
          else { rule with dependencies := some dependencies }) ∧
      (dependencies.Pairwise fun s t => Text.precedes s t = true) ∧
      (∀ text, text ∈ dependencies ↔
        ∃ inclusion ∈ includes, ∃ label, Picks settings offers user inclusion label ∧
          label ≠ user ∧ seenFrom user label = text) ∧
      (∀ inclusion label, (inclusion.resolve settings offers user).value = some label ↔
        Picks settings offers user inclusion label) ∧
      seenFrom user user ∉ dependencies ∧
      (∀ inclusion ∈ includes, ∀ label, Picks settings offers user inclusion label →
        label ≠ user → ¬label.SameTarget user.repository user) ∧
      ∀ includes', (∀ inclusion, inclusion ∈ includes' ↔ inclusion ∈ includes) →
        (Rule.resolve settings offers user { rule with includes := some includes' }).value =
          { (rule.resolve settings offers user).value with includes := some includes' } := by
  refine ⟨dependenciesOf settings offers user includes, resolve_value hincludes,
    dependenciesOf_ascending .., fun text => mem_dependenciesOf,
    fun inclusion label => resolve_eq_some_iff, ?_, ?_, ?_⟩
  · intro hself
    obtain ⟨inclusion, -, label, hpicks, hne, htext⟩ := mem_dependenciesOf.mp hself
    exact Label.text_relative_ne husual.own (husual.of_picks hpicks) hne htext
  · intro inclusion hmem label hpicks hne hsame
    exact hne ((husual.of_picks hpicks).eq_of_sameTarget husual.own hsame)
  · intro includes' hsame
    have hother : { rule with includes := some includes' }.includes = some includes' := rfl
    rw [resolve_value hother, resolve_value hincludes, dependenciesOf_congr hsame]
    split <;> rfl

/-- Settings with a search directory, an override, an index with two labels for a file and another
index with one label for it. -/
def layered : Settings :=
  { Settings.empty with
    includeDirectories := [bytes "lib"]
    overrides := .ofList [(bytes "p/o.xs", ⟨bytes "main", bytes "x", bytes "o", false, false⟩)]
    indexes := [
      .ofList [(bytes "e.xs", [⟨bytes "r", [], bytes "e", false, false⟩,
        ⟨bytes "s", [], bytes "e", false, false⟩])],
      .ofList [(bytes "e.xs", [⟨bytes "t", [], bytes "e", false, false⟩])]] }

/-- Two libraries of a package, of which the first offers a file that the search directory has as
well. -/
def layeredOffers : Offers := [
  (⟨bytes "main", bytes "p", bytes "p", false, false⟩, [bytes "p/self.xs"]),
  (⟨bytes "main", bytes "lib", bytes "lib", false, false⟩, [bytes "lib/self.xs", bytes "lib/a.xs"]),
  (⟨bytes "main", bytes "p", bytes "z", false, false⟩, [bytes "p/z.xs"])]

/-- The first of these libraries, with the given includes. -/
def layeredRule (names : List Text) : Rule where
  kind := .library
  name := bytes "p"
  includes := some (names.map fun name => ⟨name, bytes "p"⟩)

theorem dependencies_decided_layered :
    UsualLabels layered layeredOffers ⟨bytes "main", bytes "p", bytes "p", false, false⟩ ∧
    (Rule.resolve layered layeredOffers ⟨bytes "main", bytes "p", bytes "p", false, false⟩
      (layeredRule [bytes "z.xs", bytes "self.xs", bytes "o.xs", bytes "e.xs", bytes "a.xs",
        bytes "./b.xs"])).value.dependencies =
      some [bytes "//lib", bytes "//x:o", bytes ":z", bytes "@t//:e"] ∧
    bytes ":p" ∉ [bytes "//lib", bytes "//x:o", bytes ":z", bytes "@t//:e"] := by
  have husual : UsualLabels layered layeredOffers
      ⟨bytes "main", bytes "p", bytes "p", false, false⟩ :=
    ⟨by decide +kernel, by decide +kernel, by decide +kernel, by decide +kernel⟩
  have hvalue : (Rule.resolve layered layeredOffers
      ⟨bytes "main", bytes "p", bytes "p", false, false⟩
      (layeredRule [bytes "z.xs", bytes "self.xs", bytes "o.xs", bytes "e.xs", bytes "a.xs",
        bytes "./b.xs"])).value.dependencies =
      some [bytes "//lib", bytes "//x:o", bytes ":z", bytes "@t//:e"] := by decide +kernel
  have hincludes : (layeredRule [bytes "z.xs", bytes "self.xs", bytes "o.xs", bytes "e.xs",
      bytes "a.xs", bytes "./b.xs"]).includes = some _ := rfl
  obtain ⟨dependencies, hresolve, -, -, -, hself, -⟩ := dependencies_decided hincludes husual
  refine ⟨husual, hvalue, ?_⟩
  rw [hresolve] at hvalue
  split at hvalue
  · cases hvalue
  · rw [← Option.some.inj hvalue]
    exact hself

end Build

end XsPrep
