import PieceKeeper.Store.Row

/-!
# The statements of the table

Statements go by position.  An insertion lists the columns of the table and gives each the value
with its number.  An update or a claim sets some columns to values by their numbers, in the rows that have
other values in other columns.  A query lists the columns again, and what it answers with is read
by place.

As rows go by names, every statement is told here by names too.
-/

namespace PieceKeeper

/-- The columns of the piece table that statements name. -/
inductive Column where
  | id
  | sourcePath
  | rawSize
  | paddedSize
  | pieceSize
  | digest
  | contentId
  | proofSet
  | rootCid
  | transaction
  | status
  | errorMessage
  | submittedAt
  | txSuccess
  | confirmedBlock
  | confirmedTxHash
  | receipt
  | createdAt
  | updatedAt
  deriving DecidableEq, Repr

namespace Column

/-- The name in the table. -/
def name : Column → String
  | id => "id"
  | sourcePath => "source_path"
  | rawSize => "raw_size"
  | paddedSize => "padded_size"
  | pieceSize => "piece_size"
  | digest => "commitment_digest"
  | contentId => "content_id"
  | proofSet => "proof_set_id"
  | rootCid => "root_cid"
  | transaction => "transaction_ref"
  | status => "status"
  | errorMessage => "error_message"
  | submittedAt => "submitted_at"
  | txSuccess => "tx_success"
  | confirmedBlock => "confirmed_block"
  | confirmedTxHash => "confirmed_tx_hash"
  | receipt => "receipt"
  | createdAt => "created_at"
  | updatedAt => "updated_at"

/-- The columns in the order in which insertions and queries list them. -/
def listed : List Column :=
  [id, sourcePath, rawSize, paddedSize, pieceSize, digest, contentId, proofSet, rootCid, transaction,
    status, errorMessage, submittedAt, txSuccess, confirmedBlock, confirmedTxHash, receipt, createdAt,
    updatedAt]

end Column

namespace Row

/-- The cell in a column. -/
def cell (row : Row) : Column → Cell
  | .id => row.id
  | .sourcePath => row.sourcePath
  | .rawSize => row.rawSize
  | .paddedSize => row.paddedSize
  | .pieceSize => row.pieceSize
  | .digest => row.digest
  | .contentId => row.contentId
  | .proofSet => row.proofSet
  | .rootCid => row.rootCid
  | .transaction => row.transaction
  | .status => row.status
  | .errorMessage => row.errorMessage
  | .submittedAt => row.submittedAt
  | .txSuccess => row.txSuccess
  | .confirmedBlock => row.confirmedBlock
  | .confirmedTxHash => row.confirmedTxHash
  | .receipt => row.receipt
  | .createdAt => row.createdAt
  | .updatedAt => row.updatedAt

/-- The row with another cell in a column. -/
def withCell (row : Row) (column : Column) (cell : Cell) : Row :=
  match column with
  | .id => { row with id := cell }
  | .sourcePath => { row with sourcePath := cell }
  | .rawSize => { row with rawSize := cell }
  | .paddedSize => { row with paddedSize := cell }
  | .pieceSize => { row with pieceSize := cell }
  | .digest => { row with digest := cell }
  | .contentId => { row with contentId := cell }
  | .proofSet => { row with proofSet := cell }
  | .rootCid => { row with rootCid := cell }
  | .transaction => { row with transaction := cell }
  | .status => { row with status := cell }
  | .errorMessage => { row with errorMessage := cell }
  | .submittedAt => { row with submittedAt := cell }
  | .txSuccess => { row with txSuccess := cell }
  | .confirmedBlock => { row with confirmedBlock := cell }
  | .confirmedTxHash => { row with confirmedTxHash := cell }
  | .receipt => { row with receipt := cell }
  | .createdAt => { row with createdAt := cell }
  | .updatedAt => { row with updatedAt := cell }

/-- A row of nulls. -/
def blank : Row where
  id := .null
  sourcePath := .null
  rawSize := .null
  paddedSize := .null
  pieceSize := .null
  digest := .null
  contentId := .null
  proofSet := .null
  rootCid := .null
  transaction := .null
  status := .null
  errorMessage := .null
  submittedAt := .null
  txSuccess := .null
  confirmedBlock := .null
  confirmedTxHash := .null
  receipt := .null
  createdAt := .null
  updatedAt := .null

end Row

/-- The value with a number.  Numbers begin at one. -/
def numbered (values : List Cell) (number : Nat) : Cell := values.getD (number - 1) .null

/-- Sets columns to the values with the numbers beside them. -/
def Row.assign (row : Row) (values : List Cell) (columns : List (Column × Nat)) : Row :=
  columns.foldl (fun row entry ↦ row.withCell entry.1 (numbered values entry.2)) row

/-! ## Inserting -/

namespace Insertion

/-- Every column with the number of its value. -/
def columns : List (Column × Nat) :=
  Column.listed.zip [1, 2, 3, 4, 5, 6, 7, 8, 9, 10, 11, 12, 13, 14, 15, 16, 17, 18, 19]

/-- The values for a piece. -/
def values (piece : Piece) : List Cell :=
  [.text piece.id,
    .ofText? piece.sourcePath,
    .ofSize? piece.rawSize,
    .ofSize? piece.paddedSize,
    .ofSize? piece.pieceSize,
    .ofText? piece.digest,
    .ofText? piece.contentId,
    .ofSize? piece.proofSet,
    .ofText? piece.rootCid,
    .ofText? piece.transaction,
    .text piece.status.name,
    .ofText? piece.errorMessage,
    .ofInstant? piece.submittedAt,
    .ofBool? piece.txSuccess,
    .ofInt64? piece.confirmedBlock,
    .ofText? piece.confirmedTxHash,
    .ofBytes? piece.receipt,
    .ofInstant piece.createdAt,
    .ofInstant piece.updatedAt]

/-- The row that is inserted for a piece. -/
def row (piece : Piece) : Row := Row.blank.assign (values piece) columns

theorem row_eq (piece : Piece) : row piece = Row.ofPiece piece := rfl

end Insertion

/-! ## Changing -/

/-- A statement that changes rows. -/
structure Change where
  /-- The columns that are set, with the numbers of their values. -/
  sets : List (Column × Nat)
  /-- The columns of which a row must have the values with the numbers. -/
  has : List (Column × Nat)
  /-- The columns of which a row must have none. -/
  lacks : List Column := []

namespace Change

/-- Whether a row is changed. -/
def admits (change : Change) (values : List Cell) (row : Row) : Bool :=
  change.has.all (fun entry ↦ row.cell entry.1 == numbered values entry.2) &&
    change.lacks.all fun column ↦ row.cell column == .null

/-- What becomes of a row that is changed. -/
def apply (change : Change) (values : List Cell) (row : Row) : Row := row.assign values change.sets

/-- What is known of every row that has been changed. -/
def written (change : Change) (values : List Cell) : Row :=
  change.apply values (Row.blank.assign values change.has)

/-- Writes a piece over its row, if the row is in the expected status. -/
def update : Change where
  sets :=
    [(.sourcePath, 1), (.rawSize, 2), (.paddedSize, 3), (.pieceSize, 4),
      (.digest, 5), (.contentId, 6), (.proofSet, 7), (.rootCid, 8),
      (.transaction, 9), (.status, 10), (.errorMessage, 11), (.submittedAt, 12),
      (.txSuccess, 13), (.confirmedBlock, 14), (.confirmedTxHash, 15),
      (.receipt, 16), (.updatedAt, 17)]
  has := [(.id, 18), (.status, 19)]

/-- The values for an update. -/
def updateValues (piece : Piece) (expected : Status) : List Cell :=
  [.ofText? piece.sourcePath,
    .ofSize? piece.rawSize,
    .ofSize? piece.paddedSize,
    .ofSize? piece.pieceSize,
    .ofText? piece.digest,
    .ofText? piece.contentId,
    .ofSize? piece.proofSet,
    .ofText? piece.rootCid,
    .ofText? piece.transaction,
    .text piece.status.name,
    .ofText? piece.errorMessage,
    .ofInstant? piece.submittedAt,
    .ofBool? piece.txSuccess,
    .ofInt64? piece.confirmedBlock,
    .ofText? piece.confirmedTxHash,
    .ofBytes? piece.receipt,
    .ofInstant piece.updatedAt,
    .text piece.id,
    .text expected.name]

/-- Records what a piece is claimed for, if its row waits for a claim. -/
def claim : Change where
  sets := [(.proofSet, 1), (.rootCid, 2), (.updatedAt, 3)]
  has := [(.id, 4), (.status, 5)]
  lacks := [.proofSet, .transaction]

/-- The values for a claim. -/
def claimValues (id : String) (proofSet : UInt64) (rootCid : String) (now : Instant) : List Cell :=
  [.ofSize? (some proofSet),
    .text rootCid,
    .ofInstant now,
    .text id,
    .text Status.uploaded.name]

section

variable (row : Row) (piece : Piece) (expected : Status) (id rootCid : String) (proofSet : UInt64)
  (now : Instant)

theorem apply_update :
    update.apply (updateValues piece expected) row = row.takeOver (.ofPiece piece) := by
  cases row
  rfl

theorem admits_update : update.admits (updateValues piece expected) row =
    (row.id == .text piece.id && row.status == .text expected.name) := by
  change (row.id == Cell.text piece.id && (row.status == Cell.text expected.name && true) && true) = _
  rw [Bool.and_true, Bool.and_true]

/-- Of a row that was updated everything is known but when it was created. -/
theorem written_update : update.written (updateValues piece expected) =
    { Row.ofPiece piece with createdAt := .null } := rfl

theorem apply_claim : claim.apply (claimValues id proofSet rootCid now) row =
    { row with
      proofSet := .ofSize? (some proofSet), rootCid := .text rootCid, updatedAt := .ofInstant now } := rfl

theorem admits_claim : claim.admits (claimValues id proofSet rootCid now) row =
    (row.id == .text id && row.status == .text Status.uploaded.name && row.proofSet == .null
      && row.transaction == .null) := by
  change ((row.id == Cell.text id && (row.status == Cell.text Status.uploaded.name && true)) &&
    (row.proofSet == Cell.null && (row.transaction == Cell.null && true))) = _
  rw [Bool.and_true, Bool.and_true, ← Bool.and_assoc]

end

end Change

/-! ## Reading -/

/-- What a query answers with for a row: its cells in the order of the columns. -/
def Row.answered (row : Row) : List (Column × Cell) :=
  Column.listed.map fun column ↦ (column, row.cell column)

/-- Reads the cell at a place.  Places begin at zero. -/
def readAt {α : Type} (cells : List (Column × Cell)) (place : Nat)
    (read : Nat → String → Cell → Except String α) : Except String α :=
  match cells[place]? with
  | some entry => read place entry.1.name entry.2
  | none => .error ("Invalid column index: " ++ toString place)

/-- Reads a piece: the status first, then the other cells in order. -/
def Piece.ofCells (cells : List (Column × Cell)) : Except String Piece := do
  let status ← readAt cells 10 Cell.toStatus
  let id ← readAt cells 0 Cell.toText
  let sourcePath ← readAt cells 1 Cell.toText?
  let rawSize ← readAt cells 2 Cell.toSize?
  let paddedSize ← readAt cells 3 Cell.toSize?
  let pieceSize ← readAt cells 4 Cell.toSize?
  let digest ← readAt cells 5 Cell.toText?
  let contentId ← readAt cells 6 Cell.toText?
  let proofSet ← readAt cells 7 Cell.toSize?
  let rootCid ← readAt cells 8 Cell.toText?
  let transaction ← readAt cells 9 Cell.toText?
  let errorMessage ← readAt cells 11 Cell.toText?
  let submittedAt ← readAt cells 12 Cell.toInstant?
  let txSuccess ← readAt cells 13 Cell.toBool?
  let confirmedBlock ← readAt cells 14 Cell.toInt64?
  let confirmedTxHash ← readAt cells 15 Cell.toText?
  let receipt ← readAt cells 16 Cell.toBytes?
  let createdAt ← readAt cells 17 Cell.toInstant
  let updatedAt ← readAt cells 18 Cell.toInstant
  return {
    id, sourcePath, rawSize, paddedSize, pieceSize, digest, contentId, proofSet, rootCid,
    transaction, status, errorMessage, submittedAt, txSuccess, confirmedBlock, confirmedTxHash,
    receipt, createdAt, updatedAt }

theorem Piece.ofCells_answered (row : Row) : ofCells row.answered = row.toPiece := rfl

end PieceKeeper
