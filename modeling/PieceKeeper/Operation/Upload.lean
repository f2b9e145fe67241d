import PieceKeeper.Commitment.Basic
import PieceKeeper.Operation.Prepare

/-!
# Uploading content

The content of a prepared piece is committed to, shelved under the identifier of its
commitment, and then recorded in the piece's row.  The row is written last and only if it is
still prepared, so a failure on the way leaves at most a blob that nobody names.
-/

namespace PieceKeeper.Operation

/-- Shelves a content under a key, unless something is there already.  Tells whether this call
put it there. -/
def shelve (key : String) (content : Bytes) : Attempt Bool := do
  Attempt.ofOutcome (Shelf.checkKey key)
  if ← Attempt.shelf (.holds key) then return false
  Attempt.ask .pause
  Attempt.ofFile (← Attempt.shelf (.makePlace key))
  let draft ← Attempt.shelf .newDraft
  Attempt.ask .pause
  match ← Attempt.shelf (.writeDraft draft key content) with
  | .error failure =>
    let _ ← Attempt.shelf (.discard draft)
    Attempt.ofFile (.error failure)
  | .ok () =>
    if ← Attempt.shelf (.holds key) then
      Attempt.ask .pause
      Attempt.ofFile (← Attempt.shelf (.discard draft))
      return false
    else
      Attempt.ask .pause
      Attempt.ofFile (← Attempt.shelf (.publish draft key))
      return true

/-- Reads what is shelved under a key. -/
def unshelve (key : String) : Attempt Bytes := do
  Attempt.ofOutcome (Shelf.checkKey key)
  if ← Attempt.shelf (.holds key) then
    Attempt.ask .pause
    Attempt.ofFile (← Attempt.shelf (.read key))
  else Attempt.refuse (.pieceNotFound ("blob " ++ key))

/-- A piece that has content already. -/
def alreadyUploaded (id : String) (status : Status) : Cause :=
  .conflict ("piece " ++ id ++ " was already uploaded (status " ++ status.name ++ ")")

/-- An upload without content. -/
def emptyContent : Cause := .validation "piece content cannot be empty"

/-- An upload of a size other than the announced one. -/
def wrongSize (id : String) (declared size : UInt64) : Cause :=
  .validation ("piece " ++ id ++ " declared " ++ toString declared.toNat ++ " bytes but "
    ++ toString size.toNat ++ " were uploaded")

/-- A content that another piece holds. -/
def contentHeld (contentId holder : String) : Cause :=
  .conflict ("content " ++ contentId ++ " is already held by piece " ++ holder)

/-- A row that changed behind the upload's back. -/
def changedDuringUpload (id : String) : Cause :=
  .conflict ("piece " ++ id ++ " changed during upload")

/-- Refuses content that a piece cannot take. -/
def checkContent (piece : Piece) (id : String) (size : UInt64) : Outcome Unit :=
  if piece.status ≠ .prepared then refuse (alreadyUploaded id piece.status)
  else if size = 0 then refuse emptyContent
  else
    match piece.rawSize with
    | some declared => if declared ≠ size then refuse (wrongSize id declared size) else .ok ()
    | none => .ok ()

end Operation

/-- The piece with what its content says. -/
def Piece.withContent (piece : Piece) (size : UInt64) (committed : CommittedPiece) : Piece :=
  { piece with
    rawSize := some size
    paddedSize := some committed.paddedSize
    pieceSize := some committed.commitment.pieceSize
    digest := some committed.commitment.digest.hex
    contentId := some committed.contentId }

namespace Operation

/-- What an upload must do while it holds the lock of its piece. -/
def uploadLocked (id : String) (body : Bytes) : Attempt (Piece × Bool) := do
  let piece ← find id
  let size := UInt64.ofNat body.length
  Attempt.ofOutcome (checkContent piece id size)
  Attempt.ask .pause
  let committed ← Attempt.ofOutcome (CommittedPiece.ofContent body)
  if let some holder ← Attempt.table (.findContent committed.contentId) then
    Attempt.refuse (contentHeld committed.contentId holder.id)
  let written ← shelve committed.contentId committed.padded
  let now ← Attempt.ask .now
  let piece ← Attempt.ofOutcome ((piece.withContent size committed).moveTo .uploaded "upload" now)
  if ← Attempt.table (.update piece .prepared) then return (piece, written)
  else Attempt.refuse (changedDuringUpload id)

/-- Uploads the content of a prepared piece.  The answer also tells whether the content is new
on the shelf. -/
def upload (locks : Nat) (id : String) (body : Bytes) : Attempt (Piece × Bool) :=
  Attempt.holding ⟨locks, id⟩ (uploadLocked id body)

/-- A piece that was not prepared from a file. -/
def noSource (id : String) : Cause := .validation ("piece " ++ id ++ " has no source file")

/-- Uploads the content of the file that a piece was prepared from. -/
def uploadFromSource (locks : Nat) (id : String) : Attempt (Piece × Bool) := do
  let piece ← find id
  match piece.sourcePath with
  | none => Attempt.refuse (noSource id)
  | some path =>
    Attempt.ask .pause
    match ← Attempt.ask (.readFile path) with
    | .error failure => Attempt.refuse (Source.unreadable path failure)
    | .ok body => upload locks id body

end Operation

end PieceKeeper
