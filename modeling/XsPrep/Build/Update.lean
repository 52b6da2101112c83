import XsPrep.Build.Resolve

/-!
# Updating build files

An update goes through the packages of a repository three times.  First all are
configured, then the rules of each are generated, and when the files that all
rules offer are known, the includes of each rule are resolved.
-/

namespace XsPrep.Build

/-- A package with its rules. -/
structure Member where
  /-- The package. -/
  package : Package
  /-- Its settings. -/
  settings : Settings
  /-- The rules that were generated for it. -/
  generated : List Rule
  /-- What was logged about it. -/
  messages : List Text

namespace Member

/-- A configured package with its generated rules. -/
def ofPackage (repository : Repository) (package : Package) (settings : Logged Settings) :
    Member :=
  let rules := generate repository settings.value package
  ⟨package, settings.value, rules.value, settings.messages ++ rules.messages⟩

/-- All rules of a package, its own ones first. -/
def rules (member : Member) : List Rule := member.package.ownRules ++ member.generated

/-- The rules of a package after resolution. -/
def resolve (repositoryName : Text) (offers : Offers) (member : Member) : Logged (List Rule) := do
  let path := member.package.path
  member.rules.mapM fun rule =>
    rule.resolve member.settings offers (rule.label repositoryName path)

end Member

/-- The packages with their generated rules. -/
def generateAll (repository : Repository) (packages : List Package) : List Member :=
  (Package.configureAll repository packages).map fun (package, settings) =>
    .ofPackage repository package settings

/-- The files that the rules of all packages offer. -/
def offersOf (repositoryName : Text) (members : List Member) : Logged Offers :=
  Offers.ofRules repositoryName <|
    members.flatMap fun member => member.rules.map fun rule => (member.package.path, rule)

/-- The packages, each with all its rules after resolution and what was logged about
it.  The messages of the whole are about repeated labels. -/
def update (repository : Repository) (repositoryName : Text) (packages : List Package) :
    Logged (List (Package × Logged (List Rule))) :=
  let members := generateAll repository packages
  let offers := offersOf repositoryName members
  ⟨members.map fun member =>
    let rules := member.resolve repositoryName offers.value
    (member.package, ⟨rules.value, member.messages ++ rules.messages⟩), offers.messages⟩

end XsPrep.Build
