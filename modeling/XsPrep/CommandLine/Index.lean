import XsPrep.CommandLine.Outcome
import XsPrep.IncludeIndex.Library
import XsPrep.IncludeIndex.Stored

/-!
# The indexer as a command

The command stores the include index of a library in a file.  Operands mean
nothing, and flags behind the first one mean nothing either.
-/

namespace XsPrep.CommandLine.Index

/-- The file an index is stored in if no other one is given. -/
def presetOutput : Text := bytes "xs.xsidx"

/-- The options of the command. -/
structure Options where
  /-- The directory of the library.  It is empty if it is not given. -/
  directory : Text := []
  /-- The file the index is stored in. -/
  output : Text := presetOutput
  /-- The repository of the library. -/
  repository : Text := []
  /-- The target of the directory of the library.  If it is empty, then the target
  is named like the directory. -/
  rootTarget : Text := []
  /-- Whether the log shows the index. -/
  verbose : Bool := false
deriving DecidableEq, Repr

/-- The flags, in the order of the usage. -/
def flags : List (Flag Options) := [
  ⟨"dir", .value "string" fun directory options => { options with directory },
    "Root directory of the indexed XS library, the directory passed to adex with -p", none⟩,
  ⟨"output", .value "string" fun output options => { options with output },
    "Output file path for index", some presetOutput⟩,
  ⟨"repo", .value "string" fun repository options => { options with repository },
    "Name of the external repository defining the library, empty if defined in the main repository",
    none⟩,
  ⟨"root_target", .value "string" fun rootTarget options => { options with rootTarget },
    "Name of the target defined in the root directory of the library, defaults to the directory name",
    none⟩,
  ⟨"verbose", .switch fun verbose options => { options with verbose },
    "Enable verbose logging", none⟩]

/-- The usage of the command. -/
def usage : Text := bytes "Usage of adex-index:\n" ++ flagsUsage flags

/-- The message of a missing directory. -/
def directoryMissing : Text := bytes "Missing required -dir flag"

/-- What the log says about a stored index. -/
def endMessage (index : IncludeIndex) (directory output : Text) : Text :=
  bytes "Indexed " ++ Text.decimal index.size ++ bytes " include paths of " ++ directory ++
    bytes " into " ++ output

/-- Indexes the library in the directory with the given absolute path. -/
def execute (disk : Files.Disk) (options : Options) (directory : Text) : Outcome :=
  let rootTarget :=
    if options.rootTarget.isEmpty then Path.base directory else options.rootTarget
  let index := IncludeIndex.ofLibrary disk directory options.repository rootTarget
  match index.store disk options.output with
  | .error e => { code := failure, messages := [e.message], disk }
  | .ok disk =>
    let shown := if options.verbose then [index.summary ++ bytes "\n"] else []
    { code := success, messages := shown ++ [endMessage index directory options.output], disk,
      wrote := [options.output] }

/-- Runs the command. -/
def run (disk : Files.Disk) (arguments : List Text) : Outcome :=
  match parseRound flags arguments {} with
  | .error refusal => .refused disk usage refusal
  | .ok (options, _) =>
    if options.directory.isEmpty then
      { code := failure, errors := usage, messages := [directoryMissing], disk }
    else execute disk options (disk.absolute options.directory)

end XsPrep.CommandLine.Index
