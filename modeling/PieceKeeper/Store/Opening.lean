import PieceKeeper.Fault
import PieceKeeper.Files
import PieceKeeper.Store.Database

/-!
# Opening stores

The table lives in the database of a file and the shelf in a directory.  Both are made when they
are missing, with the directories above them.
-/

namespace PieceKeeper

/-- What the operating system refuses, as a cause. -/
def FileFailure.cause (failure : FileFailure) : Cause := .io failure.message

/-- Takes over what the operating system answers. -/
def Outcome.ofFile {α : Type} : Except FileFailure α → Outcome α
  | .ok value => .ok value
  | .error failure => refuse failure.cause

namespace FileTree

/-- The names of a path that count: neither empty ones nor dots behind the first. -/
def countedNames (path : String) : List String :=
  match (path.splitOn "/").filter (· ≠ "") with
  | [] => []
  | first :: rest =>
    let rest := rest.filter (· ≠ ".")
    if first = "." ∧ path.startsWith "/" then rest else first :: rest

/-- Makes the directories above the last name of a path. -/
def makeParents (tree : FileTree) (path : String) : Except FileFailure FileTree :=
  tree.makeAll (if path.startsWith "/" then [] else tree.workingDirectory)
    (countedNames path).dropLast

/-- Where a path leads to by its names alone, whatever is there. -/
def literalLocation (tree : FileTree) (path : String) : Location :=
  let start := if path.startsWith "/" then [] else tree.workingDirectory
  (path.splitOn "/").foldl
    (fun location name ↦
      if name = "" ∨ name = "." then location
      else if name = ".." then location.dropLast
      else location ++ [name]) start

end FileTree

namespace Table

/-- A file that cannot hold the table. -/
def cannotOpen (path : String) : Cause := .database ("unable to open database file: " ++ path)

/-- Paths that stand for a table without a file. -/
def isFileless (path : String) : Bool := path = "" || path = ":memory:"

/-- Makes what is missing in the database of a file. -/
def setUp (format : Database.Format) (files : FileTree) (location : Location) (content : Bytes) :
    Outcome FileTree :=
  match format.read content with
  | .error detail => refuse (.database detail)
  | .ok database =>
    return if database.initSchema = database then files
      else files.put location (.file (format.make content))

/-- Opens the table in the file that a path leads to. -/
def openAt (format : Database.Format) (files : FileTree) (path : String) : Outcome FileTree := do
  let files ← Outcome.ofFile (files.makeParents path)
  if isFileless path then return files
  else
    let location := files.literalLocation path
    if location.any (255 < ·.utf8ByteSize) then refuse (cannotOpen path)
    else
      match files.at? location, files.at? location.dropLast with
      | some .directory, _ => refuse (cannotOpen path)
      | some (.file content), _ => setUp format files location content
      | none, some .directory => setUp format (files.put location (.file [])) location []
      | none, _ => refuse (cannotOpen path)

/-- The database in the file that a path leads to. -/
def databaseAt? (format : Database.Format) (files : FileTree) (path : String) : Option Database :=
  match files.at? (files.literalLocation path) with
  | some (.file content) => (format.read content).toOption
  | _ => none

end Table

namespace Shelf

/-- Opens the shelf in the directory that a path leads to. -/
def openAt (files : FileTree) (path : String) : Outcome FileTree :=
  Outcome.ofFile (files.makeDirectories path)

end Shelf

end PieceKeeper
