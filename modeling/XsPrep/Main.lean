import XsPrep.CommandLine.Reach

/-!
# The commands on a real file system

The commands are functions of a disk.  Here the part of the file system that a
command can reach is read into a disk, the command is run, and what it wrote is
written back.  The contents of files are read when the command first uses them:
it is run again with the contents it used until it uses no other ones.
-/

namespace XsPrep.Main

open Files

/-- A text as a string.  A text that is not valid UTF-8 has none. -/
def string (t : Text) : String := (String.fromUTF8? ⟨t.toArray⟩).getD ""

/-- The address of an absolute path. -/
def addressOf (path : String) : Address := Path.components (bytes path)

/-- A disk in the making. -/
structure Snapshot where
  /-- What is known so far.  Contents are missing. -/
  disk : Disk
  /-- Where links lead that are still to be looked at. -/
  pending : List Address

/-- The snapshot with one more node. -/
def Snapshot.add (snapshot : Snapshot) (address : Address) (node : Node) : Snapshot :=
  { snapshot with disk := snapshot.disk.put address node }

/-- The snapshot with a link at an address, if it leads anywhere.  The target is
kept in its absolute form. -/
def readLink (snapshot : Snapshot) (address rest : Address) : IO Snapshot := do
  try
    let target := addressOf (← IO.FS.realPath (string address.path)).toString
    return { snapshot.add address (.link (Address.path target)) with
      pending := (target ++ rest) :: snapshot.pending }
  catch _ => return snapshot

/-- The snapshot with the node at an address and everything below it, at most
`depth` levels down. -/
def readTree : (depth : Nat) → Snapshot → Address → IO Snapshot
  | 0, snapshot, _ => return snapshot
  | depth + 1, snapshot, address => do
    try
      let path := (← IO.currentDir) / string address.path
      match (← path.symlinkMetadata).type with
      | .file => return snapshot.add address (.file [])
      | .symlink => readLink snapshot address []
      | .dir =>
        let names := (← path.readDir).toList.map fun entry => bytes entry.fileName
        let snapshot := if address.isEmpty then snapshot else snapshot.add address .directory
        names.foldlM (fun snapshot name => readTree depth snapshot (address ++ [name])) snapshot
      | .other => return snapshot
    catch _ => return snapshot

/-- No path has more components. -/
def depthLimit : Nat := 4096

/-- The snapshot with the tree at an address.  `passed` leads to the part `rest` of
the address that is still to be looked at. -/
def readFrom (snapshot : Snapshot) (passed : Address) : (rest : Address) → IO Snapshot
  | [] => readTree depthLimit snapshot passed
  | name :: rest => do
    let address := passed ++ [name]
    try
      let path := (← IO.currentDir) / string address.path
      match (← path.symlinkMetadata).type with
      | .symlink => readLink snapshot address rest
      | .dir =>
        if rest.isEmpty then readTree depthLimit snapshot address
        else readFrom (snapshot.add address .directory) address rest
      | _ => readTree depthLimit snapshot address
    catch _ => return snapshot

/-- The disk with the trees at all pending addresses.  `seen` holds the addresses
that were looked at. -/
def readPending : (rounds : Nat) → (seen : List Address) → Snapshot → IO Disk
  | 0, _, snapshot => return snapshot.disk
  | rounds + 1, seen, snapshot =>
    match snapshot.pending with
    | [] => return snapshot.disk
    | address :: pending => do
      let snapshot := { snapshot with pending }
      if seen.any (·.isPrefixOf address) then readPending rounds seen snapshot
      else readPending rounds (address :: seen) (← readFrom snapshot [] address)

/-- The most trees that are read. -/
def treeLimit : Nat := 100000

/-- The disk with the trees at some paths. -/
def readDisk (paths : List Text) : IO Disk := do
  let disk : Disk := ⟨[], addressOf (← IO.currentDir).toString⟩
  readPending treeLimit [] ⟨disk, paths.map fun path => Path.components (disk.absolute path)⟩

/-- The disk with the contents of some files. -/
def readContents (disk : Disk) (files : List Address) : IO Disk :=
  files.foldlM (fun disk file => do
    let content ← IO.FS.readBinFile (string file.path)
    return disk.put file (.file content.toList)) disk

/-- Runs a command until the contents of all files that it uses are known. -/
def runOn (command : Disk → CommandLine.Outcome) :
    (rounds : Nat) → (known : List Address) → Disk → IO CommandLine.Outcome
  | 0, _, disk => return command disk
  | rounds + 1, known, disk => do
    let outcome := command disk
    match outcome.read.filter (!known.contains ·) with
    | [] => return outcome
    | files => runOn command rounds (known ++ files) (← readContents disk files)

/-- Runs a command on the real file system. -/
def runCommand (command : Disk → CommandLine.Outcome) (reach : List Text) (mark : Text) :
    IO UInt32 := do
  let disk ← readDisk reach
  let outcome ← runOn command (disk.nodes.length + 1) [] disk
  for path in outcome.wrote do
    if let .ok content := outcome.disk.read path then
      IO.FS.writeBinFile (string path) ⟨content.toArray⟩
  (← IO.getStdout).write ⟨outcome.output.toArray⟩
  (← IO.getStderr).write ⟨(outcome.errorStream mark).toArray⟩
  return outcome.code.toUInt32

end XsPrep.Main

open XsPrep XsPrep.CommandLine in
/-- Runs the command that the program is called by: the indexer by its name, and
the preprocessor by any other one. -/
def main (arguments : List String) : IO UInt32 := do
  let program := bytes (← IO.appPath).toString
  let arguments := arguments.map bytes
  if Path.base program = bytes "adex-index" then
    Main.runCommand (Index.run · arguments) (Index.reach arguments) []
  else
    let library := Path.join [Path.directory program, Preprocess.libraryName]
    Main.runCommand (Preprocess.run · library arguments) (Preprocess.reach library arguments)
      Preprocess.logMark
