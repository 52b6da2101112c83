import XsPrep.Build.Generate

/-!
# Resolved includes

An include of a rule is resolved to the label of the rule that provides the
file.  The file is looked for in the order of the preprocessor: a local include
next to the including file only, any other one there and then in each search
directory.  For each of these places an override comes first and the rules of
the repository second.  If no place has the file, then the include indexes are
asked, except for a local include.
-/

namespace XsPrep.Build

/-! ## Offered files -/

/-- The libraries of a repository with the paths of the files they offer, in the
order they were added. -/
abbrev Offers := List (Label × List Text)

/-- The label of a rule in a package. -/
def Rule.label (repositoryName package : Text) (rule : Rule) : Label :=
  ⟨repositoryName, package, rule.name, false, false⟩

/-- The report of a label that two rules have. -/
def repeatedLabel (label : Label) : Text := bytes "multiple rules found with label " ++ label.text

/-- The offers with those of one more rule.  A rule whose label is taken offers
nothing. -/
def Offers.add (repositoryName : Text) (offers : Offers) (package : Text) (rule : Rule) :
    Logged Offers :=
  match rule.offers? package with
  | none => pure offers
  | some paths =>
    let label := rule.label repositoryName package
    if offers.any fun offer => offer.1 = label then do
      Logged.say (repeatedLabel label)
      pure offers
    else pure (offers ++ [(label, paths)])

/-- The offers of rules, each with its package. -/
def Offers.ofRules (repositoryName : Text) (rules : List (Text × Rule)) : Logged Offers :=
  rules.foldlM (fun offers (package, rule) => Offers.add repositoryName offers package rule) []

/-- The labels of the rules that offer a file. -/
def Offers.providers (offers : Offers) (path : Text) : List Label :=
  (offers.filter fun offer => offer.2.contains path).map Prod.fst

/-! ## Resolution -/

/-- The mark of an include that is local to its package. -/
def Include.localMark : Text := bytes "./"

/-- The places where an included file can be, in the order they are searched. -/
def Include.candidates (inclusion : Include) (searchDirectories : List Text) : List Text :=
  match Text.without? localMark inclusion.name with
  | some inner => [Path.join [inclusion.package, inner]]
  | none =>
    Path.join [inclusion.package, inclusion.name] ::
      searchDirectories.map fun directory => Path.join [directory, inclusion.name]

/-- The label for a file among the rules of the repository.  A rule that offers
the file itself needs no other one unless there is one. -/
def provider? (settings : Settings) (offers : Offers) (user : Label) (path : Text) :
    Option Label :=
  match settings.overrides.get? path with
  | some label => some label
  | none =>
    let providers := offers.providers path
    match providers.find? (· ≠ user) with
    | some label => some label
    | none => if providers.isEmpty then none else some user

/-- The report of an include that several targets of an index provide. -/
def ambiguousInclude (user : Label) (name : Text) (targets : List Label) : Text :=
  user.text ++ bytes ": '#include " ++ name.quoted ++ bytes "' is provided by multiple targets " ++
    IncludeIndex.labelsText targets ++
    bytes ", add a '# gazelle:resolve' directive to select one"

/-- The label for a name in the first of several indexes that has a unique one. -/
def lookupIn (user : Label) (name : Text) : List IncludeIndex → Logged (Option Label)
  | [] => pure none
  | index :: indexes =>
    match index.lookup (Path.clean name) with
    | .unique target => pure (some target)
    | .missing => lookupIn user name indexes
    | .ambiguous targets => do
      Logged.say (ambiguousInclude user name targets)
      lookupIn user name indexes

/-- The label for an include in the include indexes.  They have no local
includes. -/
def lookupIndexes (indexes : List IncludeIndex) (inclusion : Include) (user : Label) :
    Logged (Option Label) :=
  if Text.startsWith Include.localMark inclusion.name then pure none
  else lookupIn user inclusion.name indexes

/-- The label for an include of the rule `user`. -/
def Include.resolve (settings : Settings) (offers : Offers) (user : Label)
    (inclusion : Include) : Logged (Option Label) :=
  let candidates := inclusion.candidates settings.searchDirectories
  match candidates.findSome? (provider? settings offers user) with
  | some label => pure (some label)
  | none => lookupIndexes settings.indexes inclusion user

/-- A rule with the labels of the rules it needs, in ascending order and as they
are seen from its package.  A rule does not need itself. -/
def Rule.resolve (settings : Settings) (offers : Offers) (user : Label) (rule : Rule) :
    Logged Rule :=
  match rule.includes with
  | none => pure rule
  | some includes => do
    let labels ← includes.mapM (Include.resolve settings offers user)
    let needed := (labels.filterMap id).filter (· ≠ user)
    let texts := needed.map fun label => (label.relative user.repository user.package).text
    let dependencies := TextSet.ofList texts
    pure (if dependencies.isEmpty then rule
      else { rule with dependencies := some dependencies.toList })

end XsPrep.Build
