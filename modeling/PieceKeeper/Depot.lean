import PieceKeeper.Call
import PieceKeeper.Store.Overwrite

/-!
# The depot

What operations share: the piece table, the shelf of blobs, the files of the machine, the
present, and the supply of new names.
-/

namespace PieceKeeper

/-- What operations share. -/
structure Depot where
  table : Table := {}
  shelf : Shelf := {}
  files : FileTree := {}
  now : Instant
  /-- How many names have been given out. -/
  named : Nat := 0

namespace Depot

/-- The digits of names: letters that look like digits are left out. -/
def nameDigits : List Char := "0123456789ABCDEFGHJKMNPQRSTVWXYZ".toList

/-- A number as a name of the given width. -/
def nameOf : Nat → Nat → List Char
  | 0, _ => []
  | width + 1, n => nameOf width (n / 32) ++ [nameDigits.getD (n % 32) '0']

/-- The name with a number, in twenty-six digits. -/
def name (n : Nat) : String := String.ofList (nameOf 26 (Nat.pow 2 124 + Nat.pow 2 61 + n))

/-- Asks the table. -/
def runTable (depot : Depot) (command : Table.Command) : Outcome command.Answer × Depot :=
  let (answer, table) := depot.table.run command
  (answer, { depot with table })

/-- Asks the shelf. -/
def runShelf (depot : Depot) (command : Shelf.Command) : command.Answer × Depot :=
  let (answer, shelf) := depot.shelf.run command
  (answer, { depot with shelf })

end Depot

end PieceKeeper
