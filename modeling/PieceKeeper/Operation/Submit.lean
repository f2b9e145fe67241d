import PieceKeeper.Commitment.Basic
import PieceKeeper.Operation.Prepare

/-!
# Submitting a piece to the ledger

An uploaded piece is claimed for a proof set before the ledger is told of it.  The claim stays
whatever happens afterwards: a piece whose submission has no recorded outcome is never
submitted again.
-/

namespace PieceKeeper.Operation

/-- A piece whose submission has no recorded outcome. -/
def alreadyClaimed (id : String) (proofSet : UInt64) : Cause :=
  .conflict ("piece " ++ id ++ " already has a submission to proof set "
    ++ toString proofSet.toNat ++ " with no recorded outcome")

/-- An uploaded piece without commitment. -/
def noCommitment (id : String) : Cause :=
  .internal ("uploaded piece " ++ id ++ " has no commitment")

/-- A row that changed before it could be claimed. -/
def changedBeforeSubmission (id : String) : Cause :=
  .conflict ("piece " ++ id ++ " changed before submission")

/-- A row that changed after it was claimed. -/
def changedDuringSubmission (id : String) : Cause :=
  .conflict ("piece " ++ id ++ " changed during submission")

/-- What is recorded and said of a refused submission. -/
def refusalMessage (proofSet : UInt64) (fault : Fault) : String :=
  "failed to add root to proof set " ++ toString proofSet.toNat ++ ": " ++ fault.message

/-- The root of a sector that holds one piece. -/
def rootOf (piece : Piece) (sectorSize : UInt64) : Outcome Root :=
  match piece.contentId, piece.pieceSize with
  | some contentId, some pieceSize => do
    let digest ← ContentId.toDigest contentId
    let root ← (Commitment.mk digest pieceSize).sectorRoot sectorSize
    return ⟨ContentId.ofDigest root, [contentId]⟩
  | _, _ => refuse (noCommitment piece.id)

/-- Refuses a piece that is not free for submission. -/
def checkFree (piece : Piece) : Outcome Unit :=
  if piece.status ≠ .uploaded then refuse (piece.invalidState "add to proof set")
  else
    match piece.proofSet with
    | some proofSet => refuse (alreadyClaimed piece.id proofSet)
    | none => .ok ()

/-- Writes what became of a claimed piece. -/
def record (piece : Piece) : Attempt Unit := do
  if ← Attempt.table (.update piece .uploaded) then return ()
  else Attempt.refuse (changedDuringSubmission piece.id)

/-- Records the ledger's answer to the submission of a claimed piece. -/
def recordSubmission (piece : Piece) (proofSet : UInt64) : Outcome String → Attempt Piece
  | .ok hash => do
    let submitted ← Attempt.ask .now
    let now ← Attempt.ask .now
    let piece ← Attempt.ofOutcome <|
      { piece with transaction := some hash, submittedAt := some submitted }.moveTo
        .pending "add to proof set" now
    record piece
    return piece
  | .error fault => do
    let message := refusalMessage proofSet fault
    let now ← Attempt.ask .now
    let piece ← Attempt.ofOutcome <|
      { piece with errorMessage := some message }.moveTo .error "add to proof set" now
    let _ ← ExceptT.lift (record piece).run
    Attempt.refuse (.ledger message)

/-- What a submission must do while it holds the lock of its piece. -/
def submitLocked (sectorSize : UInt64) (id : String) (proofSet : UInt64) : Attempt Piece := do
  let piece ← find id
  Attempt.ofOutcome (checkFree piece)
  let root ← Attempt.ofOutcome (rootOf piece sectorSize)
  let now ← Attempt.ask .now
  if ← Attempt.table (.claim piece.id proofSet root.rootCid now) then
    let claimed := { piece with proofSet := some proofSet, rootCid := some root.rootCid }
    recordSubmission claimed proofSet (← Attempt.ask (.submit proofSet root))
  else Attempt.refuse (changedBeforeSubmission piece.id)

/-- Submits an uploaded piece to a proof set. -/
def submit (locks : Nat) (sectorSize : UInt64) (id : String) (proofSet : UInt64) : Attempt Piece :=
  Attempt.holding ⟨locks, id⟩ (submitLocked sectorSize id proofSet)

end PieceKeeper.Operation
