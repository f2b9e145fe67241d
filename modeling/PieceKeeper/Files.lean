import PieceKeeper.Bytes.Hex

/-!
# Files and directories

A tree of files as the operating system shows it to a program: paths are resolved name by
name, and every name but the last must lead to a directory.
-/

namespace PieceKeeper

/-- What the operating system refuses with. -/
inductive FileFailure where
  | missing
  | exists
  | notDirectory
  | isDirectory
  | nameTooLong
  /-- A zero byte cannot be part of a path. -/
  | zeroByte
  deriving DecidableEq, Repr

/-- The text of a refusal. -/
def FileFailure.message : FileFailure → String
  | .missing => "No such file or directory (os error 2)"
  | .exists => "File exists (os error 17)"
  | .notDirectory => "Not a directory (os error 20)"
  | .isDirectory => "Is a directory (os error 21)"
  | .nameTooLong => "File name too long (os error 36)"
  | .zeroByte => "file name contained an unexpected NUL byte"

/-- What a path can lead to. -/
inductive FileNode where
  | file (content : Bytes)
  | directory
  deriving DecidableEq, Repr

/-- The names that lead to a file or directory from the root. -/
abbrev Location := List String

/-- A tree of files.  The root is always a directory. -/
structure FileTree where
  nodes : List (Location × FileNode) := []
  /-- Where relative paths start. -/
  workingDirectory : Location := []

namespace FileTree

/-- What is at a location. -/
def at? (tree : FileTree) (location : Location) : Option FileNode :=
  if location.isEmpty then some .directory else tree.nodes.lookup location

/-- Puts something at a location. -/
def put (tree : FileTree) (location : Location) (node : FileNode) : FileTree :=
  { tree with nodes := (location, node) :: tree.nodes.filter (·.1 != location) }

/-- Takes away what is at a location. -/
def erase (tree : FileTree) (location : Location) : FileTree :=
  { tree with nodes := tree.nodes.filter (·.1 != location) }

/-- The names in a path and where they start.  Empty names and single dots lead nowhere; a
slash at the end asks for a directory, as a single dot does. -/
def names (tree : FileTree) (path : String) : Except FileFailure (Location × List String) :=
  if path.isEmpty then .error .missing
  else if path.toList.contains '\x00' then .error .zeroByte
  else if path.utf8ByteSize ≥ 4096 then .error .nameTooLong
  else
    let parts := (path.splitOn "/").filter (· ≠ "")
    let parts := if path.endsWith "/" then parts ++ ["."] else parts
    .ok (if path.startsWith "/" then [] else tree.workingDirectory, parts)

/-- Follows names from a location, through directories. -/
def follow (tree : FileTree) : Location → List String → Except FileFailure Location
  | location, [] => .ok location
  | location, name :: rest =>
    match tree.at? location with
    | none => .error .missing
    | some (.file _) => .error .notDirectory
    | some .directory =>
      if name = "." then follow tree location rest
      else if name = ".." then follow tree location.dropLast rest
      else if name.utf8ByteSize > 255 then .error .nameTooLong
      else follow tree (location ++ [name]) rest

/-- Where a path leads to, whether or not something is there. -/
def locate (tree : FileTree) (path : String) : Except FileFailure Location := do
  let (start, names) ← tree.names path
  tree.follow start names

/-- What a path leads to. -/
def find (tree : FileTree) (path : String) : Except FileFailure FileNode := do
  match tree.at? (← tree.locate path) with
  | some node => .ok node
  | none => .error .missing

/-- The content of a file. -/
def read (tree : FileTree) (path : String) : Except FileFailure Bytes := do
  match ← tree.find path with
  | .file content => .ok content
  | .directory => .error .isDirectory

/-- Whether a path leads to a directory. -/
def isDirectory (tree : FileTree) (path : String) : Bool :=
  (tree.find path).toOption == some .directory

/-- Makes the directories that a list of names leads through, as far as they are missing. -/
def makeAll (tree : FileTree) : Location → List String → Except FileFailure FileTree
  | _, [] => .ok tree
  | location, name :: rest =>
    if name = "." then makeAll tree location rest
    else if name = ".." then makeAll tree location.dropLast rest
    else if name.utf8ByteSize > 255 then .error .nameTooLong
    else
      let location := location ++ [name]
      match tree.at? location with
      | some .directory => makeAll tree location rest
      | some (.file _) => .error (if rest.isEmpty then .exists else .notDirectory)
      | none => makeAll (tree.put location .directory) location rest

/-- Makes a directory and those above it.  Nothing is to be done for the empty path. -/
def makeDirectories (tree : FileTree) (path : String) : Except FileFailure FileTree :=
  if path.isEmpty then .ok tree
  else do
    let (start, names) ← tree.names path
    tree.makeAll start names

/-- Writes a file into a directory that is there. -/
def write (tree : FileTree) (path : String) (content : Bytes) : Except FileFailure FileTree := do
  let location ← tree.locate path
  match tree.at? location.dropLast, tree.at? location with
  | _, some .directory => .error .isDirectory
  | some .directory, _ => .ok (tree.put location (.file content))
  | some (.file _), _ => .error .notDirectory
  | none, _ => .error .missing

/-- Takes away a file. -/
def remove (tree : FileTree) (path : String) : Except FileFailure FileTree := do
  let location ← tree.locate path
  match tree.at? location with
  | none => .error .missing
  | some .directory => .error .isDirectory
  | some (.file _) => .ok (tree.erase location)

end FileTree

end PieceKeeper
