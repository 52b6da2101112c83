import XsPrep.Build.Settings
import XsPrep.Proofs.Glob.Directories

/-!
# Excluded files

The pattern of a directive that excludes files is relative to the package of the directive.  It is
kept with the path of the package in front, and asked about files with that path in front as well.
If every part of the path matches itself in a pattern, it takes itself away from both
(`isMatch_join`, `isValid_join`), and the directive excludes what its pattern matches
(`exclusion_relative`).

The path of the package is not escaped.  Where it has a class, alternatives or a backslash, it is
read as a pattern of its own, and the directive can exclude nothing of its package
(`exclusion_overlooked`).  Where its last part is `**`, the directive excludes files further down
than its pattern says (`exclusion_overreaches`).
-/

namespace XsPrep.Build

open Path (IsNormal join)
open Glob (MatchesItself isMatch isValid)

variable {package pattern file : Text}

/-! ## Packages in front -/

theorem isMatch_join (hpackage : package = [] ∨ IsNormal package)
    (hparts : ∀ part ∈ Path.parts package, MatchesItself part) (hpattern : IsNormal pattern)
    (hfile : IsNormal file) :
    isMatch (join [package, pattern]) (join [package, file]) = isMatch pattern file := by
  rcases hpackage with rfl | hpackage
  · rw [hpattern.join_nil_eq, hfile.join_nil_eq]
  · rw [hpackage.join_eq hpattern, hpackage.join_eq hfile, isMatch, isMatch,
      Glob.outcome_below hparts]

theorem isValid_join (hpackage : package = [] ∨ IsNormal package)
    (hparts : ∀ part ∈ Path.parts package, MatchesItself part) (hpattern : IsNormal pattern) :
    isValid (join [package, pattern]) = isValid pattern := by
  rcases hpackage with rfl | hpackage
  · rw [hpattern.join_nil_eq]
  · rw [hpackage.join_eq hpattern, Glob.isValid_below hparts]

theorem join_join_eq {inner : Text} (hpackage : package = [] ∨ IsNormal package)
    (hinner : IsNormal inner) (hfile : IsNormal file) :
    join [join [package, inner], file] = join [package, inner ++ Byte.slash :: file] := by
  rcases hpackage with rfl | hpackage
  · rw [hinner.join_nil_eq, hinner.join_eq hfile, (hinner.append hfile).join_nil_eq]
  · rw [hpackage.join_eq hinner, (hpackage.append hinner).join_eq hfile,
      hpackage.join_eq (hinner.append hfile), List.append_assoc, List.cons_append]

/-! ## The directive -/

namespace Settings

/-- A directive with a pattern that is valid below its package adds it to the others. -/
theorem configure_exclude (repository : Repository) (settings : Settings) (hpattern : pattern ≠ [])
    (hvalid : isValid (join [package, pattern]) = true) :
    settings.configure repository package [⟨bytes "xs_exclude", pattern⟩] =
      pure { settings with excludes := settings.excludes ++ [join [package, pattern]] } := by
  have hkey : Key.ofText? (bytes "xs_exclude") = some .exclude := by decide +kernel
  have hother : bytes "xs_exclude" ≠ overrideKey := by decide +kernel
  have happly : settings.apply repository package ⟨bytes "xs_exclude", pattern⟩ =
      pure { settings with excludes := settings.excludes ++ [join [package, pattern]] } := by
    have htaken : (pattern.isEmpty || !isValid (join [package, pattern])) = false := by
      simp [hpattern, hvalid]
    unfold apply set
    dsimp only
    rw [hkey]
    dsimp only
    rw [htaken, if_neg Bool.false_ne_true]
  have hkept : ∀ kept : Settings,
      kept.applyOverride package ⟨bytes "xs_exclude", pattern⟩ = pure kept :=
    fun kept => if_pos hother
  simp [configure, happly, hkept]

theorem isExcluded_append (settings : Settings) (pattern file : Text) :
    isExcluded { settings with excludes := settings.excludes ++ [pattern] } file =
      (settings.isExcluded file || isMatch pattern file) := by
  simp [isExcluded, List.any_append]

end Settings

/-- In a package whose parts match themselves, a valid pattern is taken without a message.  From
then on the files of the package are excluded that match it relative to the package, besides those
that were excluded before. -/
theorem exclusion_relative (repository : Repository) (settings : Settings)
    (hpackage : package = [] ∨ IsNormal package)
    (hparts : ∀ part ∈ Path.parts package, MatchesItself part)
    (hpattern : IsNormal pattern) (hvalid : isValid pattern = true) :
    (settings.configure repository package [⟨bytes "xs_exclude", pattern⟩]).messages = [] ∧
    ∀ file, IsNormal file →
      ((settings.configure repository package [⟨bytes "xs_exclude", pattern⟩]).value.isExcluded
          (join [package, file]) = true ↔
        settings.isExcluded (join [package, file]) = true ∨ isMatch pattern file = true) := by
  have hjoined : isValid (join [package, pattern]) = true := by
    rw [isValid_join hpackage hparts hpattern, hvalid]
  rw [Settings.configure_exclude repository settings hpattern.ne_nil hjoined]
  refine ⟨rfl, ?_⟩
  intro file hfile
  rw [Logged.value_pure, Settings.isExcluded_append, isMatch_join hpackage hparts hpattern hfile,
    Bool.or_eq_true]

/-- A repository with nothing in it. -/
def bare : Repository where
  root := bytes "/w"
  disk := { nodes := [([bytes "w"], .directory)], workingDirectory := [bytes "w"] }

theorem exclusion_relative_alternatives :
    IsNormal (bytes "a*?b/**c") ∧ (∀ part ∈ Path.parts (bytes "a*?b/**c"), MatchesItself part) ∧
    IsNormal (bytes "{x,y/**}/[!a-c].xs") ∧ isValid (bytes "{x,y/**}/[!a-c].xs") = true ∧
    (Settings.empty.configure bare (bytes "a*?b/**c")
      [⟨bytes "xs_exclude", bytes "{x,y/**}/[!a-c].xs"⟩]).value.isExcluded
        (join [bytes "a*?b/**c", bytes "y/z/d.xs"]) = true ∧
    (Settings.empty.configure bare (bytes "a*?b/**c")
      [⟨bytes "xs_exclude", bytes "{x,y/**}/[!a-c].xs"⟩]).value.isExcluded
        (join [bytes "a*?b/**c", bytes "x/b.xs"]) ≠ true := by
  have hpackage : IsNormal (bytes "a*?b/**c") := by decide +kernel
  have hparts : ∀ part ∈ Path.parts (bytes "a*?b/**c"), MatchesItself part := by decide +kernel
  have hpattern : IsNormal (bytes "{x,y/**}/[!a-c].xs") := by decide +kernel
  have hvalid : isValid (bytes "{x,y/**}/[!a-c].xs") = true := by decide +kernel
  obtain ⟨-, hexcluded⟩ :=
    exclusion_relative bare .empty (.inr hpackage) hparts hpattern hvalid
  refine ⟨hpackage, hparts, hpattern, hvalid, ?_, ?_⟩
  · exact (hexcluded _ (by decide +kernel)).mpr (.inr (by decide +kernel))
  · rw [Ne, hexcluded _ (by decide +kernel)]
    decide +kernel

/-- In the package `[id]`, the path is read as a class, and the directive does not exclude the file
that its pattern names. -/
theorem exclusion_overlooked :
    IsNormal (bytes "[id]") ∧ IsNormal (bytes "x.xs") ∧ isValid (bytes "x.xs") = true ∧
    isMatch (bytes "x.xs") (bytes "x.xs") = true ∧
    (Settings.empty.configure bare (bytes "[id]")
      [⟨bytes "xs_exclude", bytes "x.xs"⟩]).messages = [] ∧
    (Settings.empty.configure bare (bytes "[id]")
      [⟨bytes "xs_exclude", bytes "x.xs"⟩]).value.isExcluded
        (join [bytes "[id]", bytes "x.xs"]) = false := by
  decide +kernel

/-- In a package with `**` as its last part, the directive excludes a file further down, which its
pattern does not match. -/
theorem exclusion_overreaches (repository : Repository) (settings : Settings)
    (hpackage : package = [] ∨ IsNormal package)
    (hparts : ∀ part ∈ Path.parts package, MatchesItself part) :
    isMatch (bytes "x.xs") (bytes "y/x.xs") = false ∧
    (settings.configure repository (join [package, bytes "**"])
      [⟨bytes "xs_exclude", bytes "x.xs"⟩]).value.isExcluded
        (join [join [package, bytes "**"], bytes "y/x.xs"]) = true := by
  have hstars : IsNormal (bytes "**") := by decide +kernel
  have hpattern : IsNormal (bytes "x.xs") := by decide +kernel
  have hfile : IsNormal (bytes "y/x.xs") := by decide +kernel
  have hkept := join_join_eq hpackage hstars hpattern
  have hvalid : isValid (join [join [package, bytes "**"], bytes "x.xs"]) = true := by
    rw [hkept, isValid_join hpackage hparts (hstars.append hpattern)]
    decide +kernel
  have hmatch : isMatch (join [join [package, bytes "**"], bytes "x.xs"])
      (join [join [package, bytes "**"], bytes "y/x.xs"]) = true := by
    rw [hkept, join_join_eq hpackage hstars hfile,
      isMatch_join hpackage hparts (hstars.append hpattern) (hstars.append hfile)]
    decide +kernel
  refine ⟨by decide +kernel, ?_⟩
  rw [Settings.configure_exclude repository settings hpattern.ne_nil hvalid, Logged.value_pure,
    Settings.isExcluded_append, hmatch, Bool.or_true]

end XsPrep.Build
