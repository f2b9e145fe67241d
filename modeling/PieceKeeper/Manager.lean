import PieceKeeper.Operation.Monitor
import PieceKeeper.Operation.Submit
import PieceKeeper.Operation.Upload

/-!
# The manager

The entrance to everything that can be done with pieces.  A manager knows the size of the
sectors that pieces are submitted in, and has locks of its own.
-/

namespace PieceKeeper

/-- A manager of pieces. -/
structure Manager where
  sectorSize : UInt64
  /-- The group of the locks that its operations take. -/
  locks : Nat
  valid : isPowerOfTwo sectorSize.toNat = true ∧ minPieceSize ≤ sectorSize

namespace Manager

/-- The largest sector in use, 64 GiB. -/
def defaultSectorSize : UInt64 := 68719476736

/-- How many pieces are listed unless more are asked for. -/
def defaultLimit : UInt64 := 1000

/-- A sector size that no manager works with. -/
def badSectorSize (size : UInt64) : Cause :=
  .config ("sector size " ++ toString size.toNat ++ " must be a power of two of at least "
    ++ toString minPieceSize.toNat ++ " bytes")

/-- A manager for sectors of a size. -/
def create (sectorSize : UInt64) (locks : Nat) : Outcome Manager :=
  if h : isPowerOfTwo sectorSize.toNat = true ∧ minPieceSize ≤ sectorSize then
    .ok ⟨sectorSize, locks, h⟩
  else refuse (badSectorSize sectorSize)

/-- Adds a new piece. -/
def prepare (_ : Manager) (source : Source) : Attempt Piece := Operation.prepare source

/-- Uploads the content of a prepared piece. -/
def upload (manager : Manager) (id : String) (body : Bytes) : Attempt Piece :=
  Attempt.within (return (← Operation.upload manager.locks id body).1) "upload" id

/-- Uploads the content of the file that a piece was prepared from. -/
def uploadFromSource (manager : Manager) (id : String) : Attempt Piece :=
  Attempt.within (return (← Operation.uploadFromSource manager.locks id).1) "upload" id

/-- Submits an uploaded piece to a proof set. -/
def submit (manager : Manager) (id : String) (proofSet : UInt64) : Attempt Piece :=
  (Operation.submit manager.locks manager.sectorSize id proofSet).within "add to proof set" id

/-- The piece with an id. -/
def get (_ : Manager) (id : String) : Attempt Piece := Operation.find id

/-- The first pieces in the order of their creation. -/
def list (_ : Manager) (limit : Option UInt64) : Attempt (List Piece) :=
  Attempt.table (.first (limit.getD defaultLimit))

/-- A piece that has no content. -/
def noContent (id : String) (status : Status) : Cause :=
  .pieceNotFound ("piece " ++ id ++ " has no content yet (status " ++ status.name ++ ")")

/-- The padded content of a piece. -/
def content (manager : Manager) (id : String) : Attempt Bytes := do
  let piece ← manager.get id
  match piece.contentId with
  | none => Attempt.refuse (noContent id piece.status)
  | some contentId => (Operation.unshelve contentId).within "read content" id

/-- Looks after the transaction of a pending piece. -/
def monitor (manager : Manager) (id : String) : Attempt (Piece × Finding) :=
  (Operation.observe manager.locks id true).within "monitor transaction" id

/-- Looks after all pending pieces. -/
def reconcile (manager : Manager) : Attempt Report := Operation.reconcile manager.locks

end Manager

end PieceKeeper
