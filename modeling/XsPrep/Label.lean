import XsPrep.Path
import XsPrep.Text.Quoted

/-!
# Labels

A label names a build target: a repository, a package in it and a name in the
package.  A label can leave out the package it is seen from and is then relative.
The name can be left out if it is the last component of the package.
-/

namespace XsPrep

/-- A label of a build target. -/
structure Label where
  /-- The repository.  It is empty for the current one and `@` for the main
  one. -/
  repository : Text
  /-- The package. -/
  package : Text
  /-- The name in the package. -/
  name : Text
  /-- Whether repository and package are left out. -/
  isRelative : Bool := false
  /-- Whether the repository is given by its canonical name. -/
  isCanonical : Bool := false
deriving DecidableEq, Repr, Inhabited

namespace Label

/-- Why a text is no label. -/
inductive Fault where
  /-- A repository with a character it cannot have. -/
  | repository
  /-- A package with a character it cannot have. -/
  | package
  /-- A name with a character it cannot have. -/
  | name
  /-- A colon without a name. -/
  | emptyName
  /-- Neither package nor name. -/
  | emptyPackageAndName
deriving DecidableEq, Repr

/-- A text that is no label. -/
structure ParseError where
  /-- The reason. -/
  fault : Fault
  /-- The text. -/
  text : Text
deriving DecidableEq, Repr

/-- How messages call a fault. -/
def Fault.description : Fault → Text
  | .repository => bytes "repository has invalid characters"
  | .package => bytes "package has invalid characters"
  | .name => bytes "name has invalid characters"
  | .emptyName => bytes "empty name"
  | .emptyPackageAndName => bytes "empty package and name"

/-- The message for a text that is no label. -/
def ParseError.message (e : ParseError) : Text :=
  bytes "label parse error: " ++ e.fault.description ++ bytes ": " ++ e.text.quoted

/-! ## Writing -/

/-- The mark of a repository. -/
def repositoryMark : Text := bytes "@"

/-- The mark before a package. -/
def packageMark : Text := bytes "//"

/-- The repository of a label as it is written. -/
def repositoryText (label : Label) : Text :=
  let repository :=
    if label.repository.isEmpty ∨ label.repository = repositoryMark then label.repository
    else repositoryMark ++ label.repository
  if label.isCanonical && Text.startsWith repositoryMark repository then
    repositoryMark ++ repository
  else repository

/-- A label as it is written. -/
def text (label : Label) : Text :=
  if label.isRelative then bytes ":" ++ label.name
  else
    label.repositoryText ++ packageMark ++ label.package ++
      (if Path.base label.package = label.name then [] else bytes ":" ++ label.name)

/-! ## Reading -/

/-- The bytes of a repository. -/
def isRepositoryByte (b : UInt8) : Bool :=
  (0x30 ≤ b && b ≤ 0x39) || (0x41 ≤ b && b ≤ 0x5A) || (0x61 ≤ b && b ≤ 0x7A) ||
    b == Byte.underscore || b == Byte.dot || b == 0x7E || b == 0x2B || b == Byte.dash

/-- The bytes of a package or a name: printable ASCII without the colon and the
backslash. -/
def isNameByte (b : UInt8) : Bool :=
  0x20 ≤ b && b ≤ 0x7E && b != Byte.colon && b != Byte.backslash

/-- Whether a text can be a repository. -/
def isRepository (t : Text) : Bool := t = repositoryMark || t.all isRepositoryByte

/-- A label text split at the end of its repository.  Without a package the
repository names the package's target. -/
def splitRepository (t : Text) : Text × Text :=
  match Text.find? packageMark t with
  | some 1 => (repositoryMark, t.drop 1)
  | some n => ((t.take n).drop 1, t.drop n)
  | none => (t.drop 1, bytes "//:" ++ t.drop 1)

/-- The package and the rest of a text behind the repository.  The package is
missing in a relative label. -/
def splitPackage (t : Text) : Option Text × Text :=
  match Text.without? packageMark t with
  | none => (none, t)
  | some t =>
    match t.cut Byte.colon with
    | (package, none) => (some package, [])
    | (package, some name) => (some package, Byte.colon :: name)

/-- Reads the part of a label behind its repository, if it has one. -/
def parseLocal (repository : Option Text) (isCanonical : Bool) (t : Text) :
    Except Fault Label :=
  let (package, rest) := splitPackage t
  let name := (Text.without? [Byte.colon] rest).getD rest
  if !(package.getD []).all isNameByte then .error .package
  else if rest = [Byte.colon] then .error .emptyName
  else if !name.all isNameByte then .error .name
  else if (package.getD []).isEmpty && name.isEmpty then .error .emptyPackageAndName
  else
    .ok {
      repository := repository.getD []
      package := package.getD []
      name := if name.isEmpty then Path.base (package.getD []) else name
      isRelative := repository.isNone && package.isNone
      isCanonical }

/-- Reads a label. -/
def parse (t : Text) : Except ParseError Label :=
  let isCanonical := Text.startsWith (bytes "@@") t
  let inner := if isCanonical then t.drop 1 else t
  let result :=
    if Text.startsWith repositoryMark inner then
      let (repository, rest) := splitRepository inner
      if isRepository repository then parseLocal (some repository) isCanonical rest
      else .error .repository
    else parseLocal none isCanonical inner
  match result with
  | .ok label => .ok label
  | .error fault => .error ⟨fault, t⟩

/-! ## Changing the point of view -/

/-- The label seen from nowhere in particular.  A relative label belongs to the
given package. -/
def absolute (repository package : Text) (label : Label) : Label :=
  if label.isRelative then { repository, package, name := label.name } else label

/-- The label seen from a package.  The parts it shares with the package are left
out. -/
def relative (repository package : Text) (label : Label) : Label :=
  if label.isRelative || label.repository != repository then label
  else if label.package = package then
    { repository := [], package := [], name := label.name, isRelative := true }
  else { repository := [], package := label.package, name := label.name }

end Label

end XsPrep
