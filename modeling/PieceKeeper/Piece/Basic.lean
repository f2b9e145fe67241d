import PieceKeeper.Bytes.Hex
import PieceKeeper.Piece.Status
import PieceKeeper.Time.Instant

/-!
# Pieces

A piece is the record of one content on its way to the ledger.
-/

namespace PieceKeeper

/-- A record of the piece table. -/
structure Piece where
  id : String
  /-- The file that the content is read from. -/
  sourcePath : Option String := none
  /-- The number of bytes of the content. -/
  rawSize : Option UInt64 := none
  /-- The number of bytes with padding. -/
  paddedSize : Option UInt64 := none
  /-- The number of bytes of the leaves of the commitment tree. -/
  pieceSize : Option UInt64 := none
  /-- The root of the commitment tree as hexadecimal text. -/
  digest : Option String := none
  contentId : Option String := none
  /-- The proof set that the piece was claimed for. -/
  proofSet : Option UInt64 := none
  /-- The identifier of the sector root that goes to the ledger. -/
  rootCid : Option String := none
  /-- The hash of the ledger's transaction. -/
  transaction : Option String := none
  status : Status
  errorMessage : Option String := none
  submittedAt : Option Instant := none
  txSuccess : Option Bool := none
  confirmedBlock : Option Int64 := none
  confirmedTxHash : Option String := none
  receipt : Option Bytes := none
  createdAt : Instant
  updatedAt : Instant
  deriving DecidableEq, Repr

namespace Piece

/-- A piece without content. -/
def prepare (id : String) (sourcePath : Option String) (rawSize : Option UInt64) (now : Instant) :
    Piece :=
  { id, sourcePath, rawSize, status := .prepared, createdAt := now, updatedAt := now }

/-- The refusal of an operation that the status does not admit. -/
def invalidState (piece : Piece) (operation : String) : Cause :=
  .invalidState piece.id operation piece.status.name

/-- Moves to a status, on behalf of an operation, if the lifecycle has that move. -/
def moveTo (piece : Piece) (next : Status) (operation : String) (now : Instant) : Outcome Piece :=
  if piece.status.canMove next then .ok { piece with status := next, updatedAt := now }
  else refuse (piece.invalidState operation)

end Piece

/-- What concerns the ledger in a piece. -/
structure Summary where
  id : String
  status : Status
  transaction : Option String
  submittedAt : Option Instant
  errorMessage : Option String
  deriving DecidableEq, Repr

/-- The summary of a piece. -/
def Piece.summary (piece : Piece) : Summary :=
  ⟨piece.id, piece.status, piece.transaction, piece.submittedAt, piece.errorMessage⟩

end PieceKeeper
