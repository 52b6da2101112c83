import XsPrep.Build.Settings

/-!
# Rules

A rule builds something from the files of a package.  A library offers its
sources to other rules, and a script is preprocessed into one output file.

Each kind of rule has attributes.  Some must not be empty, and some are updated
when a rule is generated again.
-/

namespace XsPrep.Build

/-! ## Kinds -/

/-- An attribute of a rule. -/
inductive Attribute where
  /-- The labels of the rules it needs. -/
  | deps
  /-- The file it writes. -/
  | out
  /-- The files it is made from. -/
  | srcs
deriving DecidableEq, Repr

/-- The name of an attribute. -/
def Attribute.text : Attribute → Text
  | .deps => bytes "deps"
  | .out => bytes "out"
  | .srcs => bytes "srcs"

/-- A kind of rule. -/
inductive Kind where
  /-- Files to be included. -/
  | library
  /-- A file to be preprocessed. -/
  | script
  /-- Any other kind, by its name. -/
  | other (name : Text)
deriving DecidableEq, Repr

namespace Kind

/-- The name of a kind. -/
def text : Kind → Text
  | .library => bytes "xs_library"
  | .script => bytes "xs_script"
  | .other name => name

/-- The kinds that are generated. -/
def generated : List Kind := [.library, .script]

/-- The kind with a name. -/
def ofText (name : Text) : Kind := (generated.find? (·.text = name)).getD (.other name)

/-- The attributes that must not be empty. -/
def nonEmpty : Kind → List Attribute
  | .other _ => []
  | _ => [.srcs]

/-- The attributes that are updated when a rule is generated again. -/
def updated : Kind → List Attribute
  | .library => [.deps, .srcs]
  | .script => [.deps, .out, .srcs]
  | .other _ => []

end Kind

/-- The file that defines the kinds. -/
def definitionFile : Text := bytes "@adex//xs:defs.bzl"

/-! ## Rules -/

/-- An include of a source file. -/
structure Include where
  /-- The name of the included file as it is written. -/
  name : Text
  /-- The package of the including file. -/
  package : Text
deriving DecidableEq, Repr

/-- A rule. -/
structure Rule where
  /-- Its kind. -/
  kind : Kind
  /-- Its name in its package. -/
  name : Text
  /-- The files it is made from, if there is such an attribute. -/
  sources : Option (List Text) := none
  /-- Who can see it, if it says so. -/
  visibility : Option (List Text) := none
  /-- The file it writes. -/
  output : Option Text := none
  /-- The labels of the rules it needs, once they are known. -/
  dependencies : Option (List Text) := none
  /-- The includes of its sources, if it was generated. -/
  includes : Option (List Include) := none
deriving DecidableEq, Repr

namespace Rule

/-- The paths below the root of the files that a rule in a package offers.
Nothing if it is no library. -/
def offers? (package : Text) (rule : Rule) : Option (List Text) :=
  match rule.kind with
  | .library => some ((rule.sources.getD []).map fun source => Path.join [package, source])
  | _ => none

end Rule

end XsPrep.Build
