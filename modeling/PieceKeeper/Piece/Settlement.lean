import PieceKeeper.Ledger.Transaction
import PieceKeeper.Piece.Basic

/-!
# Settlement

What the ledger's record of a transaction does to the piece that waits for it, and the
count of such findings over one round.
-/

namespace PieceKeeper

/-- What a look at the ledger found out about a piece. -/
inductive Finding where
  /-- The ledger does not know the transaction yet. -/
  | notIndexed
  | stillPending
  | added
  | failed
  /-- The piece does not wait for a transaction. -/
  | skipped
  deriving DecidableEq, Repr

/-- The name of a finding. -/
def Finding.name : Finding → String
  | .notIndexed => "not_indexed"
  | .stillPending => "still_pending"
  | .added => "added"
  | .failed => "failed"
  | .skipped => "skipped"

namespace Piece

/-- Copies what a record says about its block. -/
def copyConfirmation (piece : Piece) (record : TransactionRecord) : Piece :=
  { piece with
    txSuccess := record.success
    confirmedBlock := record.confirmedBlock
    confirmedTxHash := record.confirmedTxHash
    receipt := record.receipt }

/-- Moves to a final status.  A refused move leaves the piece as it was handed in. -/
def conclude (piece : Piece) (next : Status) (finding : Finding) (now : Instant) :
    Piece × Outcome Finding :=
  match piece.moveTo next "confirm" now with
  | .ok moved => (moved, .ok finding)
  | .error fault => (piece, .error fault)

/-- What is said of a transaction that is in a block without having succeeded. -/
def failureMessage (record : TransactionRecord) : String :=
  "transaction " ++ record.hash ++ " failed on chain"
    ++ match record.confirmedBlock with
      | some block => " in block " ++ toString block.toInt
      | none => ""

/-- What is said of a transaction that the ledger gave up. -/
def dropMessage (record : TransactionRecord) : String :=
  "transaction " ++ record.hash ++ " was dropped by the ledger"

/-- Takes over what a record says.  Only a confirmed or failed record changes the piece; when
the move it calls for is refused, the copied fields stay. -/
def settle (piece : Piece) (record : TransactionRecord) (now : Instant) : Piece × Outcome Finding :=
  let copied := piece.copyConfirmation record
  match record.status with
  | .pending => (piece, .ok .stillPending)
  | .confirmed =>
    if record.success = some true then copied.conclude .added .added now
    else { copied with errorMessage := some (failureMessage record) }.conclude .failed .failed now
  | .failed => { copied with errorMessage := some (dropMessage record) }.conclude .failed .failed now

end Piece

/-- The findings of one round over the pieces that wait. -/
structure Report where
  examined : Nat := 0
  added : Nat := 0
  failed : Nat := 0
  stillPending : Nat := 0
  skipped : Nat := 0
  errors : Nat := 0
  deriving DecidableEq, Repr

namespace Report

/-- Counts a finding. -/
def count (report : Report) : Finding → Report
  | .added => { report with added := report.added + 1 }
  | .failed => { report with failed := report.failed + 1 }
  | .notIndexed | .stillPending => { report with stillPending := report.stillPending + 1 }
  | .skipped => { report with skipped := report.skipped + 1 }

/-- Counts one more piece and what became of it. -/
def tally (report : Report) (result : Outcome Finding) : Report :=
  let report := { report with examined := report.examined + 1 }
  match result with
  | .ok finding => report.count finding
  | .error _ => { report with errors := report.errors + 1 }

/-- The number of pieces that came to an end. -/
def resolved (report : Report) : Nat := report.added + report.failed

/-- Writes a report. -/
def toJson (report : Report) : Json :=
  .object
    [("examined", .ofNat report.examined),
      ("added", .ofNat report.added),
      ("failed", .ofNat report.failed),
      ("still_pending", .ofNat report.stillPending),
      ("skipped", .ofNat report.skipped),
      ("errors", .ofNat report.errors)]

end Report

end PieceKeeper
