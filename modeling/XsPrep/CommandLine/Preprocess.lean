import XsPrep.CommandLine.Outcome
import XsPrep.Files.Change
import XsPrep.Glob.Expand
import XsPrep.Macro.Definition
import XsPrep.Preprocess.Session

/-!
# The preprocessor as a command

The command takes one script and writes one output file.  It checks its options
in the order in which a user is likely to mend them: the script, the additional
include directories, the output file and then the macros.  Warnings and the error
that ends the run go to the standard output in colour.
-/

namespace XsPrep.CommandLine.Preprocess

/-! ## Options -/

/-- The options of the command. -/
structure Options where
  /-- The path of the output file.  It is empty if it is not given. -/
  out : Text := []
  /-- The patterns of additional include directories. -/
  paths : List Text := []
  /-- The definitions of predefined macros. -/
  defines : List Text := []
  /-- Whether the bundled library is left out. -/
  withoutLibrary : Bool := false
  /-- Whether the log says what is done. -/
  verbose : Bool := false
  /-- Whether only the version is asked for. -/
  version : Bool := false
deriving DecidableEq, Repr

/-- Sets the output file. -/
def Options.setOut (out : Text) (options : Options) : Options := { options with out }

/-- Adds a pattern of include directories. -/
def Options.addPath (path : Text) (options : Options) : Options :=
  { options with paths := options.paths ++ [path] }

/-- Adds the definition of a macro. -/
def Options.addDefine (definition : Text) (options : Options) : Options :=
  { options with defines := options.defines ++ [definition] }

/-- Sets whether only the version is asked for. -/
def Options.setVersion (version : Bool) (options : Options) : Options := { options with version }

/-- The flags, in the order of the usage. -/
def flags : List (Flag Options) := [
  ⟨"D", .value "value" .addDefine,
    "Predefine a macro as NAME or NAME=value. Can be repeated", none⟩,
  ⟨"no-libs", .switch fun withoutLibrary options => { options with withoutLibrary },
    "Don't implicitly include the adex XS library directory", none⟩,
  ⟨"o", .value "string" .setOut, "Shorthand for -out", none⟩,
  ⟨"out", .value "string" .setOut,
    "Path of the output script, must have the .xs extension", none⟩,
  ⟨"p", .value "value" .addPath, "Shorthand for -paths", none⟩,
  ⟨"paths", .value "value" .addPath,
    "Additional include directory, may be a glob pattern. Can be repeated", none⟩,
  ⟨"v", .switch .setVersion, "Shorthand for -version", none⟩,
  ⟨"verbose", .switch fun verbose options => { options with verbose },
    "Enable verbose logging", none⟩,
  ⟨"version", .switch .setVersion, "Print the version and exit", none⟩]

/-- The usage of the command. -/
def usage : Text :=
  bytes "Usage: adex [flags] <script.xs>\n\nAoE2DE XS script preprocessor.\n\nFlags:\n" ++
    flagsUsage flags

/-- The version as the command prints it. -/
def versionText : Text := bytes "adex 0.1.0\n"

/-! ## Complaints -/

/-- Why the command cannot start. -/
inductive Complaint where
  /-- The script leads nowhere. -/
  | scriptMissing (script : Text)
  /-- The script is no regular file. -/
  | scriptNotFile (script : Text)
  /-- The pattern of include directories is invalid. -/
  | pathInvalid (pattern : Text)
  /-- The pattern of include directories matches nothing. -/
  | pathMissing (pattern : Text)
  /-- An include directory is no directory. -/
  | pathNotDirectory (path : Text)
  /-- There is no output file. -/
  | outMissing
  /-- The output file has the wrong extension. -/
  | outExtension
  /-- Definitions of macros are refused. -/
  | definesRefused (refusals : List Text)
  /-- The output file cannot be written. -/
  | outUnwritable (failure : Files.Failure)
deriving DecidableEq, Repr

/-- How messages call an include directory. -/
def pathText (path : Text) : Text := bytes "additional include path " ++ path.quoted

/-- The message of a complaint. -/
def Complaint.message : Complaint → Text
  | .scriptMissing script => bytes "input script file " ++ script.quoted ++ bytes " does not exist"
  | .scriptNotFile script => bytes "input script path " ++ script.quoted ++ bytes " is not a file"
  | .pathInvalid pattern =>
    pathText pattern ++ bytes " is not a valid pattern: syntax error in pattern"
  | .pathMissing pattern => pathText pattern ++ bytes " does not exist"
  | .pathNotDirectory path => pathText path ++ bytes " is not a directory"
  | .outMissing => bytes "output script path is required, use -out or -o"
  | .outExtension =>
    bytes "output script file extension must be .xs for the scenario editor to detect it"
  | .definesRefused refusals =>
    bytes "invalid macro definition: " ++ Text.joined (bytes "\n") refusals
  | .outUnwritable failure => bytes "failed to write output script: " ++ failure.text

/-- A line in the colour of a severity. -/
def coloured (severity : Severity) (t : Text) : Text :=
  (match severity with
    | .error => bytes "\x1b[91m"
    | .warning => bytes "\x1b[93m") ++
  bytes "[" ++ severity.text ++ bytes "] " ++ t ++ bytes "\x1b[0m\n"

/-- The line of a complaint. -/
def Complaint.line (complaint : Complaint) : Text := coloured .error complaint.message

/-- The line of a diagnostic. -/
def diagnosticLine (d : Diagnostic) : Text :=
  coloured d.severity <|
    d.message ++ bytes " File: " ++ d.place.path ++ bytes ", Line: " ++
      Text.decimal d.place.line ++ bytes ", Col: " ++ Text.decimal d.place.column

/-! ## Checks -/

/-- The include directories of a pattern.  A pattern has to match something, and
only directories. -/
def expandPath (disk : Files.Disk) (pattern : Text) : Except Complaint (List Text) :=
  match Glob.expand disk pattern with
  | none => .error (.pathInvalid pattern)
  | some [] => .error (.pathMissing pattern)
  | some paths =>
    match paths.find? (!disk.isDirectory ·) with
    | some path => .error (.pathNotDirectory path)
    | none => .ok paths

/-- The extension of an output file. -/
def outExtension : Text := bytes ".xs"

/-- Checks the script. -/
def checkScript (disk : Files.Disk) (script : Text) : Except Complaint Unit :=
  if !disk.leadsSomewhere script then .error (.scriptMissing script)
  else if (disk.regularFile? script).isNone then .error (.scriptNotFile script)
  else .ok ()

/-- Checks the output file. -/
def checkOut (out : Text) : Except Complaint Unit :=
  if out.isEmpty then .error .outMissing
  else if Path.extension out ≠ outExtension then .error .outExtension
  else .ok ()

/-- The include directories, the bundled library first.  Its path is empty if
there is none. -/
def includeDirectories (disk : Files.Disk) (options : Options) (library : Text) :
    Except Complaint (List Text) := do
  let paths ← options.paths.mapM (expandPath disk)
  .ok ((if options.withoutLibrary || library.isEmpty then [] else [library]) ++ paths.flatten)

/-- The predefined macros. -/
def predefined (options : Options) : Except Complaint Macros :=
  match Definition.parseAll options.defines with
  | (macros, []) => .ok macros
  | (_, refusals) => .error (.definesRefused refusals)

/-- What a run needs: the include directories and the predefined macros. -/
def prepare (disk : Files.Disk) (options : Options) (script library : Text) :
    Except Complaint (List Text × Macros) := do
  checkScript disk script
  let directories ← includeDirectories disk options library
  checkOut options.out
  let macros ← predefined options
  .ok (directories, macros)

/-! ## The run -/

/-- What the log says before a run. -/
def startMessage (script : Text) (directories : List Text) : Text :=
  bytes "Processing " ++ script ++ bytes " with include directories [" ++
    Text.joined (bytes " ") directories ++ bytes "]"

/-- What the log says after a run. -/
def endMessage (out : Text) (count : Nat) : Text :=
  bytes "Wrote " ++ out ++ bytes " from " ++ Text.decimal count ++ bytes " file(s)"

/-- Preprocesses a script and writes the output file. -/
def execute (disk : Files.Disk) (options : Options) (script : Text) (directories : List Text)
    (macros : Macros) : Outcome :=
  let started := if options.verbose then [startMessage script directories] else []
  let (stop, session) := (Session.new disk directories macros).process disk script
  let warnings := session.run.warnings.flatMap diagnosticLine
  let read := session.run.processed
  match stop with
  | some stop =>
    { code := failure, output := warnings ++ diagnosticLine stop.diagnostic, messages := started,
      disk, read }
  | none =>
    match disk.write options.out session.run.output with
    | .error e =>
      { code := failure, output := warnings ++ (Complaint.outUnwritable e).line,
        messages := started, disk, read }
    | .ok disk =>
      let ended :=
        if options.verbose then [endMessage options.out session.processedFiles.length] else []
      { code := success, output := warnings, messages := started ++ ended, disk, read,
        wrote := [options.out] }

/-- The mark of the log of the command. -/
def logMark : Text := bytes "adex: "

/-- The name of the directory of the bundled library. -/
def libraryName : Text := bytes "xs"

/-- The message of a wrong number of operands. -/
def operandsMessage (count : Nat) : Text :=
  bytes "expected exactly 1 input script, got " ++ Text.decimal count ++ bytes "\n"

/-- Runs the command.  `library` is the path of the bundled library, and empty if
there is none. -/
def run (disk : Files.Disk) (library : Text) (arguments : List Text) : Outcome :=
  match parseAll flags arguments {} with
  | .error refusal => .refused disk usage refusal
  | .ok (options, operands) =>
    if options.version then { code := success, output := versionText, disk }
    else
      match operands with
      | [script] =>
        match prepare disk options script library with
        | .error complaint => { code := failure, output := complaint.line, disk }
        | .ok (directories, macros) => execute disk options script directories macros
      | _ =>
        { code := wrongUsage, errors := operandsMessage operands.length ++ usage, disk }

end XsPrep.CommandLine.Preprocess
