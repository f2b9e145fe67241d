import PieceKeeper.Fault

/-!
# Statuses

The stations of a piece's life and the moves between them.  Three of them are final.
-/

namespace PieceKeeper

/-- Where a piece stands. -/
inductive Status where
  /-- Known, without content. -/
  | prepared
  /-- Content is stored and committed to. -/
  | uploaded
  /-- Submitted to the ledger. -/
  | pending
  /-- The ledger confirmed the submission. -/
  | added
  /-- The ledger's transaction failed. -/
  | failed
  /-- The ledger refused the submission. -/
  | error
  deriving DecidableEq, Repr

namespace Status

/-- The name of a status. -/
def name : Status → String
  | .prepared => "prepared"
  | .uploaded => "uploaded"
  | .pending => "pending_confirmation"
  | .added => "added_to_proofset"
  | .failed => "transaction_failed"
  | .error => "error"

/-- The status with a name. -/
def ofName? : String → Option Status
  | "prepared" => some .prepared
  | "uploaded" => some .uploaded
  | "pending_confirmation" => some .pending
  | "added_to_proofset" => some .added
  | "transaction_failed" => some .failed
  | "error" => some .error
  | _ => none

/-- A name that belongs to no status. -/
def unknown (name : String) : Cause := .persistence ("unknown piece status: " ++ name)

/-- Reads the name of a status. -/
def parse (name : String) : Outcome Status :=
  match ofName? name with
  | some status => .ok status
  | none => refuse (unknown name)

/-- Whether no move leads on. -/
def isFinal : Status → Bool
  | .added | .failed | .error => true
  | .prepared | .uploaded | .pending => false

/-- The moves of the lifecycle. -/
def canMove : Status → Status → Bool
  | .prepared, .uploaded => true
  | .uploaded, .pending | .uploaded, .error => true
  | .pending, .added | .pending, .failed | .pending, .error => true
  | _, _ => false

end Status

end PieceKeeper
