import XsPrep.Build.Rule

/-!
# Packages

A package is a directory of a repository.  It inherits settings from the nearest
package above it, or from one that is named.
-/

namespace XsPrep.Build

/-- A package. -/
structure Package where
  /-- The path of its directory below the root of the repository. -/
  path : Text
  /-- The directives of its build file, if it has one. -/
  directives : Option (List Directive) := none
  /-- Whether its build file sets a visibility for all rules. -/
  hasDefaultVisibility : Bool := false
  /-- The number of the package it inherits from, if it is not the nearest one
  above. -/
  parent : Option Nat := none
  /-- The names of its regular files, if they are not taken from the disk. -/
  listed : Option (List Text) := none
  /-- The rules of its build file that were not generated. -/
  ownRules : List Rule := []
deriving DecidableEq, Repr

namespace Package

/-- The absolute path of the directory of a package. -/
def directory (repository : Repository) (package : Package) : Text :=
  Path.join [repository.root, package.path]

/-- The names of the regular files in a directory, in ascending order. -/
def regularFiles (disk : Files.Disk) (directory : Text) : List Text :=
  match disk.address directory with
  | .error _ => []
  | .ok address =>
    (disk.entries address).filterMap fun entry =>
      match entry.2 with
      | .file _ => some entry.1
      | _ => none

/-- The names of the regular files of a package. -/
def files (repository : Repository) (package : Package) : List Text :=
  package.listed.getD (regularFiles repository.disk (package.directory repository))

/-! ## Settings -/

/-- Whether a path is another one or above it. -/
def isAbove (above path : Text) : Bool :=
  above.isEmpty || above = path || Text.startsWith (above ++ [Byte.slash]) path

/-- The better of two packages to inherit from: the one with the longer path, and
the later one of two equal paths. -/
def nearer {α : Type} (best : Option (Package × α)) (next : Package × α) :
    Option (Package × α) :=
  match best with
  | some best => if next.1.path.length < best.1.path.length then some best else some next
  | none => some next

/-- The package to inherit from among those configured before. -/
def inherited? {α : Type} (package : Package) (before : List (Package × α)) :
    Option (Package × α) :=
  match package.parent.bind fun n => before[n]? with
  | some parent => some parent
  | none => (before.filter fun e => isAbove e.1.path package.path).foldl nearer none

/-- The settings of a package, given the settings of the packages before it. -/
def configure (repository : Repository) (before : List (Package × Logged Settings))
    (package : Package) : Logged Settings :=
  let settings := ((package.inherited? before).map fun e => e.2.value).getD .empty
  settings.configure repository package.path (package.directives.getD [])

/-- The packages with their settings. -/
def configureAll (repository : Repository) (packages : List Package) :
    List (Package × Logged Settings) :=
  packages.foldl
    (fun before package => before ++ [(package, package.configure repository before)]) []

end Package

end XsPrep.Build
