import XsPrep.Build.Package
import XsPrep.Ordered.TextSet
import XsPrep.Source.File

/-!
# Generated rules

The source files of a package are its files with the right extension that are
not excluded and can be parsed.  In a directory that is searched for included
files all of them are a library.  Elsewhere only those are that another file of
the package includes, and every remaining one is a script of its own.
-/

namespace XsPrep.Build

/-! ## Source files -/

/-- The last letter of the extension: a small, a capital or a long one. -/
def extensionEnds : List Text := [bytes "s", bytes "S", bytes "\u017f"]

/-- Whether a file is a source file by its name.  The case of the extension does
not matter. -/
def hasSourceExtension (file : Text) : Bool :=
  [bytes ".x", bytes ".X"].any fun start =>
    extensionEnds.any fun final => Path.extension file = start ++ final

/-- The includes of a source file, or why it cannot be parsed. -/
def parseSource (disk : Files.Disk) (path : Text) : Except Text (List Mention) :=
  match Listing.ofFile disk path with
  | .error failure => .error failure.text
  | .ok listing =>
    match listing.error with
    | some e => .error e.text
    | none => .ok listing.includes

/-- The source files of a package with the names of the files they include. -/
abbrev Sources := Table (List Text)

/-- The report of a file that cannot be parsed. -/
def badSource (path reason : Text) : Text :=
  path ++ bytes ": failed to parse XS source: " ++ reason

/-- The sources with one more file. -/
def addSource (repository : Repository) (package : Package) (sources : Sources) (file : Text) :
    Logged Sources :=
  match parseSource repository.disk (Path.join [package.directory repository, file]) with
  | .ok mentions => pure (sources.insert file (mentions.map Mention.name))
  | .error reason => do
    Logged.say (badSource (Path.join [package.path, file]) reason)
    pure sources

/-- The source files of a package. -/
def sourcesOf (repository : Repository) (settings : Settings) (package : Package) :
    Logged Sources :=
  let files := (package.files repository).filter fun file =>
    hasSourceExtension file && !settings.isExcluded (Path.join [package.path, file])
  files.foldlM (addSource repository package) .empty

/-! ## Libraries and scripts -/

/-- The files of a package that a file includes, apart from itself. -/
def siblings (sources : Sources) (file : Text) (includes : List Text) : List Text :=
  (includes.map Path.clean).filter fun sibling => sources.contains sibling && sibling != file

/-- The files of a package that are there to be included. -/
def libraryFiles (settings : Settings) (package : Package) (sources : Sources) : TextSet :=
  if settings.isSearchDirectory package.path then .ofList sources.keys
  else .ofList (sources.entries.flatMap fun (file, includes) => siblings sources file includes)

/-- The includes of several files. -/
def includesOf (package : Package) (sources : Sources) (files : List Text) : List Include :=
  files.flatMap fun file => ((sources.get? file).getD []).map fun name => ⟨name, package.path⟩

/-- The visibility of a library that says nothing else. -/
def publicVisibility : List Text := [bytes "//visibility:public"]

/-- The library of a package. -/
def libraryRule (repository : Repository) (package : Package) (sources : Sources)
    (files : List Text) : Rule where
  kind := .library
  name := Path.base (package.directory repository)
  sources := some files
  visibility :=
    if package.directives.isSome && package.hasDefaultVisibility then none
    else some publicVisibility
  includes := some (includesOf package sources files)

/-- A name without its extension. -/
def stem (file : Text) : Text := file.take (file.length - (Path.extension file).length)

/-- The script of a file. -/
def scriptRule (package : Package) (sources : Sources) (file : Text) : Rule where
  kind := .script
  name := stem file
  sources := some [file]
  output := some (stem file ++ bytes "_out.xs")
  includes := some (includesOf package sources [file])

/-- The rules of a package: its library, then its scripts in ascending order. -/
def generate (repository : Repository) (settings : Settings) (package : Package) :
    Logged (List Rule) := do
  let sources ← sourcesOf repository settings package
  let library := libraryFiles settings package sources
  let scripts := (TextSet.ofList sources.keys).difference library
  pure <|
    (if library.isEmpty then [] else [libraryRule repository package sources library.toList]) ++
      scripts.toList.map (scriptRule package sources)

end XsPrep.Build
