import XsPrep.Preprocess.Run

/-!
# Sessions

A session has settings and keeps the state that its last run left.  Each run
starts from the settings alone.
-/

namespace XsPrep

/-- What every run of a session starts from. -/
structure Settings where
  /-- The directories searched for included files, as absolute paths. -/
  includeDirectories : List Text
  /-- The macros bound before the root file is read. -/
  predefined : Macros

/-- A session. -/
structure Session where
  /-- The settings. -/
  settings : Settings
  /-- The state left by the last run. -/
  run : Run

namespace Session

/-- A session before its first run.  The include directories are made absolute
by their text. -/
def new (disk : Files.Disk) (includeDirectories : List Text) (predefined : Macros) : Session :=
  ⟨⟨includeDirectories.map disk.absolute, predefined⟩, .ofMacros predefined⟩

/-- The session without the state of its last run. -/
def reset (session : Session) : Session :=
  { session with run := .ofMacros session.settings.predefined }

/-- Runs the preprocessor over a root file and everything it includes.  The
result is the problem that ended the run, if there was one, and the session
afterwards. -/
def process (session : Session) (disk : Files.Disk) (root : Text) : Option Stop × Session :=
  let session := session.reset
  let path := disk.canonical root
  match disk.fetch path with
  | .error failure => (some ⟨.ofFile path, .unreadable failure⟩, session)
  | .ok (file, content) =>
    match (session.run.enter file content).finish disk session.settings.includeDirectories with
    | .ok run => (none, { session with run := run.warnUnclosed })
    | .error (stop, run) => (some stop, { session with run := run.abandon })

/-- The paths of the files the last run entered, in ascending order. -/
def processedFiles (session : Session) : List Text :=
  (Table.ofList (session.run.processed.map fun file => (file.path, ()))).keys

end Session

end XsPrep
