import PieceKeeper.Files
import PieceKeeper.Json.Reader
import PieceKeeper.Settings.Path
import PieceKeeper.Text.Charset

/-!
# Settings from a file

A file of settings is named with or without the ending that tells its format.  Which formats there
are, and how they are read, is not the program's affair.
-/

namespace PieceKeeper.SettingsFile

/-- The formats of files of settings. -/
structure Formats where
  /-- The endings that tell a format, in the order in which they are added to names. -/
  endings : List String
  /-- What a file with an ending sets, if its content has the format. -/
  read? : String → Bytes → Option (List (String × Setting))

/-- The ending of a path: what stands behind the last dot of its last name. -/
def ending (path : String) : String :=
  let name := (path.splitOn "/").getLast?.getD ""
  match (name.splitOn ".").reverse with
  | last :: _ :: _ => if name.startsWith "." ∧ (name.splitOn ".").length = 2 then "" else last
  | _ => ""

/-- Whether a path leads to a file. -/
def isFile (files : FileTree) (path : String) : Bool :=
  match files.find path with
  | .ok (.file _) => true
  | _ => false

/-- A name with the endings added, each with its ending. -/
def Formats.extend (formats : Formats) (name : String) : List (String × String) :=
  formats.endings.map fun ending ↦ (name ++ "." ++ ending, ending)

/-- The file that a name stands for, and its ending: the one with exactly that name, which must have
the ending of a format, or else one with an ending added. -/
def locate? (formats : Formats) (files : FileTree) (name : String) : Option (String × String) :=
  if isFile files name then
    if formats.endings.contains (ending name) then some (name, ending name) else none
  else (formats.extend name).find? (isFile files ·.1)

/-- What the file with a name sets. -/
def load? (formats : Formats) (files : FileTree) (name : String) : Option (List (String × Setting)) := do
  let (path, ending) ← locate? formats files name
  let .ok content := files.read path | none
  formats.read? ending content

/-! ## Braces -/

/-- How many arrays and objects may lie inside each other. -/
def deepest : Nat := 127

/-- The text of a file without the mark at its head. -/
def textOf : Bytes → List Char
  | 0xef :: 0xbb :: 0xbf :: rest => Charset.readUtf8 [] none rest
  | content => Charset.readUtf8 [] none content

/-- The formats in which tables may be written in braces, as far as they are written so. -/
def Formats.braces : Formats where
  endings := ["json", "yaml", "yml", "json5", "ron"]
  read? _ content := do
    let json ← Json.ofText? (String.ofList (textOf content))
    let .table members ← Setting.ofJson? deepest json | none
    return members

end PieceKeeper.SettingsFile
