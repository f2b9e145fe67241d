import PieceKeeper.Store.Table

/-!
# Overwriting cells

A single cell of a row can be overwritten by hand.  Columns of numbers take texts that are
whole numbers as numbers, and columns of texts take numbers as texts.
-/

namespace PieceKeeper

/-- What a column makes of a cell. -/
inductive Affinity where
  | number
  | text
  | any
  deriving DecidableEq, Repr

/-- The number that a text of digits with an optional sign stands for, if it has 64 bits. -/
def Affinity.number? (value : String) : Option Int64 :=
  let (negative, digits) : Bool × List Char :=
    match value.toList with
    | '-' :: digits => (true, digits)
    | '+' :: digits => (false, digits)
    | digits => (false, digits)
  if digits.isEmpty ∨ ¬ digits.all Char.isDigit then none
  else
    let magnitude : Int := Stamp.decimal digits
    let n := if negative then -magnitude else magnitude
    if Int64.minValue.toInt ≤ n ∧ n ≤ Int64.maxValue.toInt then some (Int64.ofInt n) else none

/-- The cell that a column stores. -/
def Affinity.store : Affinity → Cell → Cell
  | .number, .text value =>
    match Affinity.number? value with
    | some n => .integer n
    | none => .text value
  | .text, .integer value => .text (toString value.toInt)
  | _, cell => cell

/-- The row with the cell of one column overwritten.  Columns go by their names in the table;
other names change nothing. -/
def Row.overwrite (row : Row) (column : String) (cell : Cell) : Row :=
  let number := Affinity.number.store cell
  let text := Affinity.text.store cell
  match column with
  | "id" => { row with id := text }
  | "source_path" => { row with sourcePath := text }
  | "raw_size" => { row with rawSize := number }
  | "padded_size" => { row with paddedSize := number }
  | "piece_size" => { row with pieceSize := number }
  | "commitment_digest" => { row with digest := text }
  | "content_id" => { row with contentId := text }
  | "proof_set_id" => { row with proofSet := number }
  | "root_cid" => { row with rootCid := text }
  | "transaction_ref" => { row with transaction := text }
  | "status" => { row with status := text }
  | "error_message" => { row with errorMessage := text }
  | "submitted_at" => { row with submittedAt := text }
  | "tx_success" => { row with txSuccess := number }
  | "confirmed_block" => { row with confirmedBlock := number }
  | "confirmed_tx_hash" => { row with confirmedTxHash := text }
  | "receipt" => { row with receipt := cell }
  | "created_at" => { row with createdAt := text }
  | "updated_at" => { row with updatedAt := text }
  | _ => row

/-- Overwrites one cell of the row with an id. -/
def Table.overwrite (table : Table) (id column : String) (cell : Cell) : Table :=
  { table with
    rows := table.rows.map fun row ↦
      if row.id == .text id then row.overwrite column cell else row }

end PieceKeeper
