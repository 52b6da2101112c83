import XsPrep.Glob.Match
import XsPrep.IncludeIndex.Stored
import XsPrep.Log
import XsPrep.Text.Class

/-!
# Settings of packages

A package of a repository inherits the settings of the package above it.  The
directives of its build file change them one after the other, first those about
scripts and then those that override the resolution of includes.  A directive
with a bad value changes nothing and is reported.

All paths in settings are relative to the root of the repository.  The root
itself is the empty path.
-/

namespace XsPrep.Build

/-- A directive of a build file. -/
structure Directive where
  /-- What it sets. -/
  key : Text
  /-- What it sets it to. -/
  value : Text
deriving DecidableEq, Repr

/-- A repository on a disk. -/
structure Repository where
  /-- The disk. -/
  disk : Files.Disk
  /-- The path of its root directory. -/
  root : Text

/-- What is set for a package. -/
structure Settings where
  /-- The directories searched for included files. -/
  includeDirectories : List Text
  /-- The patterns of files that get no rules. -/
  excludes : List Text
  /-- The directory of the bundled library.  It is empty if there is none. -/
  libraryDirectory : Text
  /-- Whether the bundled library is left out. -/
  withoutLibrary : Bool
  /-- The indexes of libraries outside the repository, in lookup order. -/
  indexes : List IncludeIndex
  /-- The labels that included files are resolved to, whatever provides them. -/
  overrides : Table Label

namespace Settings

/-- The settings of a repository without any directive. -/
def empty : Settings := ⟨[], [], [], false, [], .empty⟩

/-- The clean form of a path below the root. -/
def cleanRelative (path : Text) : Text :=
  let clean := Path.clean (path.dropWhile (· == Byte.slash))
  if clean = Path.here then [] else clean

/-! ## Questions -/

/-- The directories searched after the directory of the including file, the
bundled library first. -/
def searchDirectories (settings : Settings) : List Text :=
  if settings.libraryDirectory.isEmpty || settings.withoutLibrary then settings.includeDirectories
  else settings.libraryDirectory :: settings.includeDirectories

/-- Whether the files of a directory are there to be included. -/
def isSearchDirectory (settings : Settings) (directory : Text) : Bool :=
  settings.searchDirectories.contains directory

/-- Whether a file gets no rule. -/
def isExcluded (settings : Settings) (file : Text) : Bool :=
  settings.excludes.any fun pattern => Glob.isMatch pattern file

/-! ## Directives about scripts -/

/-- The keys of the directives about scripts. -/
inductive Key where
  /-- The directories searched for included files. -/
  | includeDirectories
  /-- A pattern of files that get no rules. -/
  | exclude
  /-- The directory of the bundled library. -/
  | libraryDirectory
  /-- Whether the bundled library is left out. -/
  | withoutLibrary
  /-- A stored include index. -/
  | indexFile
deriving DecidableEq, Repr

/-- All keys. -/
def Key.all : List Key :=
  [.includeDirectories, .exclude, .libraryDirectory, .withoutLibrary, .indexFile]

/-- The text of a key. -/
def Key.text : Key → Text
  | .includeDirectories => bytes "xs_include_dirs"
  | .exclude => bytes "xs_exclude"
  | .libraryDirectory => bytes "xs_library_dir"
  | .withoutLibrary => bytes "xs_no_libs"
  | .indexFile => bytes "xs_indexfile"

/-- The key with a text. -/
def Key.ofText? (t : Text) : Option Key := Key.all.find? (·.text = t)

/-- The report of a bad value. -/
def badValue (key : Key) (value : Text) (expected : String) : Text :=
  value ++ bytes " is invalid value for directive " ++ key.text ++ bytes ", expected " ++
    bytes expected

/-- The report of an index that cannot be loaded. -/
def badIndex (e : IncludeIndex.StoreError) : Text :=
  bytes "Failed to load include index for directive " ++ Key.text .indexFile ++ bytes ": " ++
    e.message

/-- The settings after one directive of the build file of `package`. -/
def set (repository : Repository) (package : Text) (settings : Settings) (key : Key)
    (value : Text) : Logged Settings :=
  match key with
  | .includeDirectories =>
    pure { settings with includeDirectories := value.words.map cleanRelative }
  | .exclude =>
    let pattern := Path.join [package, value]
    if value.isEmpty || !Glob.isValid pattern then do
      Logged.say (badValue key value "a valid glob pattern")
      pure settings
    else pure { settings with excludes := settings.excludes ++ [pattern] }
  | .libraryDirectory =>
    pure { settings with libraryDirectory := if value.isEmpty then [] else cleanRelative value }
  | .withoutLibrary =>
    match value.truth? with
    | some b => pure { settings with withoutLibrary := b }
    | none => do
      Logged.say (badValue key value "true or false")
      pure settings
  | .indexFile =>
    match IncludeIndex.load repository.disk (Path.join [repository.root, value]) with
    | .ok index => pure { settings with indexes := settings.indexes ++ [index] }
    | .error e => do
      Logged.say (badIndex e)
      pure settings

/-- The settings after a directive, if it is one about scripts. -/
def apply (repository : Repository) (package : Text) (settings : Settings)
    (directive : Directive) : Logged Settings :=
  match Key.ofText? directive.key with
  | some key => settings.set repository package key directive.value
  | none => pure settings

/-! ## Directives that override resolution -/

/-- The language of the rules and of what they include. -/
def language : Text := bytes "xs"

/-- The key of a directive that overrides resolution. -/
def overrideKey : Text := bytes "resolve"

/-- An override: an included file and the label it is resolved to. -/
structure Override where
  /-- The language of the included file. -/
  importLanguage : Text
  /-- The language of the rule that includes it. -/
  ruleLanguage : Text
  /-- The path of the included file. -/
  path : Text
  /-- The text of the label. -/
  label : Text
deriving DecidableEq, Repr

/-- Reads an override. -/
def Override.ofValue? (value : Text) : Option Override :=
  match value.words with
  | [language, path, label] => some ⟨language, language, path, label⟩
  | [importLanguage, ruleLanguage, path, label] => some ⟨importLanguage, ruleLanguage, path, label⟩
  | _ => none

/-- The report of a directive that is no override. -/
def badOverride (value : Text) : Text :=
  bytes "could not parse directive: " ++ value ++
    bytes "\n\texpected gazelle:resolve source-language [import-language] import-string label"

/-- The report of an override with a bad label. -/
def badOverrideLabel (value : Text) (e : Label.ParseError) : Text :=
  bytes "gazelle:resolve " ++ value ++ bytes ": " ++ e.message

/-- The settings with an override for scripts.  Overrides for other languages
change nothing. -/
def setOverride (settings : Settings) (override : Override) (label : Label) : Settings :=
  if override.importLanguage = language ∧ override.ruleLanguage = language then
    { settings with overrides := settings.overrides.insert override.path label }
  else settings

/-- The settings after a directive, if it overrides resolution. -/
def applyOverride (package : Text) (settings : Settings) (directive : Directive) :
    Logged Settings :=
  if directive.key ≠ overrideKey then pure settings
  else
    match Override.ofValue? directive.value with
    | none => do
      Logged.say (badOverride directive.value)
      pure settings
    | some override =>
      match Label.parse override.label with
      | .ok label => pure (settings.setOverride override (label.absolute [] package))
      | .error e => do
        Logged.say (badOverrideLabel directive.value e)
        pure settings

/-- The settings of a package with the given directives.  `settings` are those it
inherits. -/
def configure (repository : Repository) (package : Text) (directives : List Directive)
    (settings : Settings) : Logged Settings := do
  let settings ← directives.foldlM (apply repository package) settings
  directives.foldlM (applyOverride package) settings

end Settings

end XsPrep.Build
