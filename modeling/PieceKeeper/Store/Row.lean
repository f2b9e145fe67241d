import PieceKeeper.Piece.Basic
import PieceKeeper.Time.Stamp

/-!
# Rows of the piece table

A row keeps a piece in nineteen cells.  Sizes are stored as signed numbers with the same
bits, instants as texts in UTC, and absent values as null.  Reading a row can fail, for
cells may hold what no piece writes.
-/

namespace PieceKeeper

/-- A cell of a table. -/
inductive Cell where
  | null
  | integer (value : Int64)
  | text (value : String)
  | blob (value : Bytes)
  deriving DecidableEq, Repr

/-- The name of the kind of a cell. -/
def Cell.kindName : Cell → String
  | .null => "Null"
  | .integer _ => "Integer"
  | .text _ => "Text"
  | .blob _ => "Blob"

/-- A row of the piece table. -/
structure Row where
  id : Cell
  sourcePath : Cell
  rawSize : Cell
  paddedSize : Cell
  pieceSize : Cell
  digest : Cell
  contentId : Cell
  proofSet : Cell
  rootCid : Cell
  transaction : Cell
  status : Cell
  errorMessage : Cell
  submittedAt : Cell
  txSuccess : Cell
  confirmedBlock : Cell
  confirmedTxHash : Cell
  receipt : Cell
  createdAt : Cell
  updatedAt : Cell
  deriving DecidableEq, Repr

namespace Cell

/-! ## Writing cells -/

/-- A text that may be absent. -/
def ofText? : Option String → Cell
  | none => null
  | some value => text value

/-- A number of 64 bits that may be absent, as the signed number with the same bits. -/
def ofSize? : Option UInt64 → Cell
  | none => null
  | some value => integer value.toInt64

/-- A truth value that may be absent. -/
def ofBool? : Option Bool → Cell
  | none => null
  | some value => integer (if value then 1 else 0)

/-- A signed number that may be absent. -/
def ofInt64? : Option Int64 → Cell
  | none => null
  | some value => integer value

/-- Bytes that may be absent. -/
def ofBytes? : Option Bytes → Cell
  | none => null
  | some value => blob value

/-- An instant. -/
def ofInstant (instant : Instant) : Cell := text (instant.text "+00:00")

/-- An instant that may be absent. -/
def ofInstant? : Option Instant → Cell
  | none => null
  | some value => ofInstant value

/-! ## Reading cells

A reader is told the place and the name of the cell's column for what it says when it fails. -/

/-- A cell of a kind that the column does not take. -/
def wrongKind (cell : Cell) (place : Nat) (name : String) : String :=
  "Invalid column type " ++ cell.kindName ++ " at index: " ++ toString place ++ ", name: " ++ name

/-- A text that does not stand for a value of the column. -/
def conversion (place : Nat) (detail : String) : String :=
  "Conversion error from type Text at index: " ++ toString place ++ ", " ++ detail

/-- Reads a text. -/
def toText (place : Nat) (name : String) : Cell → Except String String
  | text value => .ok value
  | cell => .error (cell.wrongKind place name)

/-- Reads a text that may be absent. -/
def toText? (place : Nat) (name : String) : Cell → Except String (Option String)
  | null => .ok none
  | text value => .ok (some value)
  | cell => .error (cell.wrongKind place name)

/-- Reads a signed number that may be absent. -/
def toInt64? (place : Nat) (name : String) : Cell → Except String (Option Int64)
  | null => .ok none
  | integer value => .ok (some value)
  | cell => .error (cell.wrongKind place name)

/-- Reads an unsigned number that may be absent, from the signed one with the same bits. -/
def toSize? (place : Nat) (name : String) (cell : Cell) : Except String (Option UInt64) :=
  return (← cell.toInt64? place name).map Int64.toUInt64

/-- Reads a truth value that may be absent: any number but zero is true. -/
def toBool? (place : Nat) (name : String) (cell : Cell) : Except String (Option Bool) :=
  return (← cell.toInt64? place name).map (· != 0)

/-- Reads bytes that may be absent. -/
def toBytes? (place : Nat) (name : String) : Cell → Except String (Option Bytes)
  | null => .ok none
  | blob value => .ok (some value)
  | cell => .error (cell.wrongKind place name)

/-- Reads the text of an instant. -/
def instant (place : Nat) (value : String) : Except String Instant :=
  match Stamp.parse value with
  | .ok instant => .ok instant
  | .error failure => .error (conversion place failure.message)

/-- Reads an instant. -/
def toInstant (place : Nat) (name : String) (cell : Cell) : Except String Instant := do
  instant place (← cell.toText place name)

/-- Reads an instant that may be absent. -/
def toInstant? (place : Nat) (name : String) (cell : Cell) : Except String (Option Instant) := do
  match ← cell.toText? place name with
  | none => .ok none
  | some value => return some (← instant place value)

/-- Reads a status. -/
def toStatus (place : Nat) (name : String) (cell : Cell) : Except String Status := do
  match Status.parse (← cell.toText place name) with
  | .ok status => .ok status
  | .error fault => .error (conversion place fault.message)

end Cell

namespace Row

/-- The row of a piece. -/
def ofPiece (piece : Piece) : Row where
  id := .text piece.id
  sourcePath := .ofText? piece.sourcePath
  rawSize := .ofSize? piece.rawSize
  paddedSize := .ofSize? piece.paddedSize
  pieceSize := .ofSize? piece.pieceSize
  digest := .ofText? piece.digest
  contentId := .ofText? piece.contentId
  proofSet := .ofSize? piece.proofSet
  rootCid := .ofText? piece.rootCid
  transaction := .ofText? piece.transaction
  status := .text piece.status.name
  errorMessage := .ofText? piece.errorMessage
  submittedAt := .ofInstant? piece.submittedAt
  txSuccess := .ofBool? piece.txSuccess
  confirmedBlock := .ofInt64? piece.confirmedBlock
  confirmedTxHash := .ofText? piece.confirmedTxHash
  receipt := .ofBytes? piece.receipt
  createdAt := .ofInstant piece.createdAt
  updatedAt := .ofInstant piece.updatedAt

/-- Reads a row: the status first, then the other cells in order. -/
def toPiece (row : Row) : Except String Piece := do
  let status ← row.status.toStatus 10 "status"
  let id ← row.id.toText 0 "id"
  let sourcePath ← row.sourcePath.toText? 1 "source_path"
  let rawSize ← row.rawSize.toSize? 2 "raw_size"
  let paddedSize ← row.paddedSize.toSize? 3 "padded_size"
  let pieceSize ← row.pieceSize.toSize? 4 "piece_size"
  let digest ← row.digest.toText? 5 "commitment_digest"
  let contentId ← row.contentId.toText? 6 "content_id"
  let proofSet ← row.proofSet.toSize? 7 "proof_set_id"
  let rootCid ← row.rootCid.toText? 8 "root_cid"
  let transaction ← row.transaction.toText? 9 "transaction_ref"
  let errorMessage ← row.errorMessage.toText? 11 "error_message"
  let submittedAt ← row.submittedAt.toInstant? 12 "submitted_at"
  let txSuccess ← row.txSuccess.toBool? 13 "tx_success"
  let confirmedBlock ← row.confirmedBlock.toInt64? 14 "confirmed_block"
  let confirmedTxHash ← row.confirmedTxHash.toText? 15 "confirmed_tx_hash"
  let receipt ← row.receipt.toBytes? 16 "receipt"
  let createdAt ← row.createdAt.toInstant 17 "created_at"
  let updatedAt ← row.updatedAt.toInstant 18 "updated_at"
  return {
    id, sourcePath, rawSize, paddedSize, pieceSize, digest, contentId, proofSet, rootCid,
    transaction, status, errorMessage, submittedAt, txSuccess, confirmedBlock, confirmedTxHash,
    receipt, createdAt, updatedAt }

/-- The row with every cell but the id and the time of creation taken from another. -/
def takeOver (row source : Row) : Row :=
  { source with id := row.id, createdAt := row.createdAt }

end Row

end PieceKeeper
