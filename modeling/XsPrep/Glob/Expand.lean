import XsPrep.Files.Access
import XsPrep.Glob.Match
import XsPrep.Ordered.TextSet

/-!
# Expanding patterns

A pattern is expanded into the paths on a disk that it matches.  It is taken
apart from its end.  The part behind the last slash is matched against the names
in every directory that the part before it expands to.  A pattern whose last
part has alternatives is expanded once for each of them, and the results are put
together in order and without repetition.

Links are followed everywhere, and a path that leads nowhere matches nothing.
-/

namespace XsPrep.Glob

/-- What patterns are expanded against. -/
structure Search where
  /-- The disk. -/
  disk : Files.Disk
  /-- The path of the directory that all names are relative to. -/
  base : Text
  /-- Whether the last part of a pattern matches no directories. -/
  filesOnly : Bool
  /-- Whether the results of all alternatives are sorted together, and not only
  those of the same directory. -/
  sortsAll : Bool

namespace Search

/-! ## Names below the base -/

/-- Whether a text names something below the base: it is valid UTF-8 and clean
and does not lead upwards. -/
def isName (name : Text) : Bool :=
  name.characters.all (!·.isStray) &&
    (name == Path.here ||
      (Path.parts name).all fun part => !part.isEmpty && part != Path.here && part != Path.up)

/-- The path of a name. -/
def path (s : Search) (name : Text) : Text :=
  if Text.endsWith [Byte.slash] s.base then s.base ++ name else s.base ++ [Byte.slash] ++ name

/-- Whether a name leads to anything. -/
def leadsSomewhere (s : Search) (name : Text) : Bool :=
  isName name && s.disk.leadsSomewhere (s.path name)

/-- Whether a name leads to a directory. -/
def isDirectory (s : Search) (name : Text) : Bool :=
  isName name && s.disk.isDirectory (s.path name)

/-- The entries of the directory that a name leads to. -/
def entries (s : Search) (name : Text) : List (Text × Files.Node) :=
  if s.isDirectory name then
    match s.disk.address (s.path name) with
    | .ok address => s.disk.entries address
    | .error _ => []
  else []

/-- Whether an entry with the given name is a directory or a link to one. -/
def isDirectoryEntry (s : Search) (name : Text) : Files.Node → Bool
  | .directory => true
  | .link _ => s.isDirectory name
  | .file _ => false

/-! ## One part of a pattern -/

/-- Whether a directory can be a result of a part. -/
def takesDirectories (s : Search) (isLast : Bool) : Bool := !(isLast && s.filesOnly)

/-- Whether an entry can be a result of a part. -/
def takes (s : Search) (isLast isDirectory : Bool) : Bool :=
  if isDirectory then s.takesDirectories isLast else isLast

/-- Everything below a directory, at most `depth` levels down. -/
def below (s : Search) (isLast : Bool) : (depth : Nat) → (directory : Text) → List Text
  | 0, _ => []
  | depth + 1, directory =>
    (s.entries directory).flatMap fun entry =>
      let name := Path.join [directory, entry.1]
      let isDirectory := s.isDirectoryEntry name entry.2
      (if s.takes isLast isDirectory then [name] else []) ++
        (if isDirectory then s.below isLast depth name else [])

/-- The most levels that can be below a directory.  Between two links on the way
no directory is entered twice. -/
def depthLimit (s : Search) : Nat := (Files.Disk.linkLimit + 1) * (s.disk.nodes.length + 1)

/-- The entries of a directory that match one part of a pattern.  Nothing if the
part is found to be invalid. -/
def matching? (s : Search) (isLast : Bool) (directory part : Text) : Option (List Text) := do
  let found ← (s.entries directory).mapM fun entry =>
    let name := Path.join [directory, entry.1]
    match outcome part entry.1 with
    | .invalid => none
    | .failed => some []
    | .matched =>
      some (if s.takes isLast (s.isDirectoryEntry name entry.2) then [name] else [])
  some found.flatten

/-- What one part of a pattern matches in a directory.  The empty part matches
the directory itself, and `**` the directory and everything below it. -/
def inDirectory? (s : Search) (isLast : Bool) (part directory : Text) : Option (List Text) :=
  let itself := if s.takesDirectories isLast && s.isDirectory directory then [directory] else []
  if part.isEmpty then some itself
  else if part = [star, star] then some (itself ++ s.below isLast s.depthLimit directory)
  else s.matching? isLast directory part

/-- The path of a pattern without marks, if it leads to anything. -/
def plain (s : Search) (isLast : Bool) (name : Text) : List Text :=
  let target :=
    if 1 < name.length ∧ Text.endsWith [Byte.slash] name then name.dropLast else name
  if s.leadsSomewhere target && (s.takesDirectories isLast || !s.isDirectory target) then [name]
  else []

end Search

/-! ## The parts of a pattern -/

/-- How the end of a pattern is split off. -/
inductive Split where
  /-- There is one part only. -/
  | whole
  /-- The last part is behind the slash at an index. -/
  | slash (index : Nat)
  /-- The last part has alternatives between the braces at two indexes. -/
  | braces (opening closing : Nat)
deriving DecidableEq, Repr

/-- Whether a byte ends what stands before the last part. -/
def isSplit (b : UInt8) : Bool := b == Byte.slash || b == closeAlternatives

/-- Splits off the end of a pattern.  A closing brace without an opening one is
no special character. -/
def Split.ofPattern (pattern : Text) : Split :=
  match findLast? isSplit pattern with
  | none => .whole
  | some (n, b) =>
    if b = Byte.slash then .slash n
    else
      match opening? (pattern.take n) with
      | some opening => .braces opening n
      | none =>
        match findLast? (· == Byte.slash) (pattern.take n) with
        | some (n, _) => .slash n
        | none => .whole

/-- The alternatives between two braces.  `read` holds the bytes of the current
one, newest first.  An empty last alternative is none. -/
def choicesFrom (depth : Int) (read : Text) : Text → List Text
  | [] => if read.isEmpty then [] else [read.reverse]
  | b :: rest =>
    if b = Byte.backslash then
      match rest with
      | [] => [(b :: read).reverse]
      | c :: rest => choicesFrom depth (c :: b :: read) rest
    else if b = openAlternatives then choicesFrom (depth + 1) (b :: read) rest
    else if b = closeAlternatives then choicesFrom (depth - 1) (b :: read) rest
    else if b = comma ∧ depth = 0 then read.reverse :: choicesFrom depth [] rest
    else choicesFrom depth (b :: read) rest

/-- A pattern with alternatives in its last part. -/
structure Braces where
  /-- The pattern of the directory of the part, if it is expanded on its own. -/
  directory : Option Text
  /-- What stands before the alternatives. -/
  before : Text
  /-- The alternatives. -/
  choices : List Text
  /-- What stands behind the alternatives. -/
  behind : Text
deriving DecidableEq, Repr

/-- The pattern with alternatives between the braces at two indexes.  The
directory is expanded on its own unless other alternatives are nearer. -/
def Braces.ofPattern (pattern : Text) (opening closing : Nat) : Braces :=
  let choices := choicesFrom 0 [] ((pattern.take closing).drop (opening + 1))
  let behind := pattern.drop (closing + 1)
  match findLast? isSplit (pattern.take opening) with
  | some (n, b) =>
    if b = Byte.slash then
      ⟨some (pattern.take n), (pattern.take opening).drop (n + 1), choices, behind⟩
    else ⟨none, pattern.take opening, choices, behind⟩
  | none => ⟨none, pattern.take opening, choices, behind⟩

/-- The pattern of one alternative in a directory. -/
def Braces.pattern (braces : Braces) (directory choice : Text) : Text :=
  (if directory.isEmpty ∨ directory = Path.here then [] else directory ++ [Byte.slash]) ++
    braces.before ++ choice ++ braces.behind

/-! ## Results of alternatives -/

/-- A path in front of the first path that does not precede it. -/
def insertPath (path : Text) : List Text → List Text
  | [] => [path]
  | other :: paths =>
    if other.precedes path then other :: insertPath path paths else path :: other :: paths

/-- Two lists of paths as one.  If both are in order, then so is the result, and
a path of both is in it once. -/
def mergePaths : List Text → List Text → List Text
  | [], right => right
  | left, [] => left
  | x :: left, y :: right =>
    if x = y then x :: mergePaths left right
    else if x.precedes y then x :: mergePaths left (y :: right)
    else y :: mergePaths left (insertPath x right)

/-- The results of alternatives as one list.  There is a list for each directory,
with the results of each alternative. -/
def Search.combine (s : Search) (results : List (List (List Text))) : List Text :=
  if s.sortsAll then (TextSet.ofList results.flatten.flatten).toList
  else results.flatMap fun choices => choices.foldl mergePaths []

/-! ## Whole patterns -/

namespace Search

/-- The names that a pattern matches.  Nothing if a part of it is found to be
invalid.  `rounds` bounds the number of parts and alternatives. -/
def expandWithin (s : Search) : (rounds : Nat) → (isLast : Bool) → Text → Option (List Text)
  | 0, _, _ => some []
  | rounds + 1, isLast, pattern =>
    match firstMark? pattern with
    | none => some (s.plain isLast (unescaped pattern))
    | some mark =>
      match Split.ofPattern pattern with
      | .whole => s.inDirectory? isLast pattern Path.here
      | .slash n =>
        let part := pattern.drop (n + 1)
        if n ≤ mark then s.inDirectory? isLast part (unescaped (pattern.take n))
        else do
          let directories ← s.expandWithin rounds false (pattern.take n)
          let found ← directories.mapM (s.inDirectory? isLast part)
          some found.flatten
      | .braces opening closing => do
        let braces := Braces.ofPattern pattern opening closing
        let directories ←
          match braces.directory with
          | some directory => s.expandWithin rounds false directory
          | none => some [[]]
        let results ← directories.mapM fun directory =>
          braces.choices.mapM fun choice =>
            s.expandWithin rounds isLast (braces.pattern directory choice)
        some (s.combine results)

/-- More rounds than a pattern can take: names on the disk can be put into it in
place of the parts that match them. -/
def roundLimit (s : Search) (pattern : Text) : Nat :=
  let names := s.disk.nodes.flatMap fun node => Path.ofParts node.1
  pattern.length + 1 + s.depthLimit * (names.length + s.disk.nodes.length + 1)

end Search

/-- The names below a directory that a pattern matches.  Nothing if the pattern is
invalid. -/
def expandBelow (disk : Files.Disk) (base : Text) (filesOnly : Bool) (pattern : Text) :
    Option (List Text) :=
  if isValid pattern then
    let s : Search := ⟨disk, base, filesOnly, hasInnerDoubleStar pattern⟩
    s.expandWithin (s.roundLimit pattern) true pattern
  else none

/-- Whether a pattern below its base is left to the operating system. -/
def isPlainEnd (pattern : Text) : Bool :=
  pattern.isEmpty || pattern == Path.here || pattern == Path.up

/-- The paths that a pattern matches.  Nothing if the pattern is invalid. -/
def expand (disk : Files.Disk) (pattern : Text) : Option (List Text) :=
  if pattern.isEmpty then some []
  else
    let pattern := Path.clean pattern
    let (base, rest) := splitBase pattern
    if isPlainEnd rest then some (if disk.leadsSomewhere pattern then [pattern] else [])
    else
      (expandBelow disk base false rest).map fun names =>
        names.map fun name => Path.join [base, name]

end XsPrep.Glob
