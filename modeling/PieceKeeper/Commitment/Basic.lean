import PieceKeeper.Commitment.Accumulator
import PieceKeeper.Commitment.ContentId

/-!
# Commitments

Content is padded with zeros to a power of two and committed to by the root of its tree.
A sector holds one piece at its start and zero pieces behind it; its root is reached from
the root of the piece by joining zero subtrees.
-/

namespace PieceKeeper

/-- Content with zeros behind it, up to the least power of two that is not smaller. -/
def pad (data : Bytes) : Bytes :=
  if data.isEmpty then []
  else data ++ List.replicate (nextPowerOfTwo data.length - data.length) 0

/-- The commitment to a stream of chunks. -/
def Commitment.ofChunks (chunks : List Bytes) : Outcome Commitment :=
  (chunks.foldl Accumulator.update .empty).finish

/-- The identifier of a commitment. -/
def Commitment.contentId (commitment : Commitment) : String := ContentId.ofDigest commitment.digest

/-- Padded content and the commitment to it. -/
structure CommittedPiece where
  padded : Bytes
  commitment : Commitment

namespace CommittedPiece

/-- The number of padded bytes. -/
def paddedSize (piece : CommittedPiece) : UInt64 := UInt64.ofNat piece.padded.length

/-- The identifier of the commitment. -/
def contentId (piece : CommittedPiece) : String := piece.commitment.contentId

/-- The most bytes that have room for their padding: a vector has fewer than `2 ^ 63` bytes, so
these are `2 ^ 62`. -/
def maxLength : Nat := 4611686018427387904

/-- Pads and commits. -/
def ofContent (data : Bytes) : Outcome CommittedPiece :=
  if data.isEmpty then refuse (.validation "cannot commit an empty piece")
  else if maxLength < data.length then
    refuse (.internal "commitment task failed: capacity overflow")
  else do
    let padded := pad data
    return ⟨padded, ← Commitment.ofChunks [padded]⟩

end CommittedPiece

/-- The least size of a piece. -/
def minPieceSize : UInt64 := 128

/-- Joins `steps` zero subtrees to the right of a root, each as large as what is there. -/
def Node.extend : Nat → Node → Node → Node
  | 0, node, _ => node
  | steps + 1, node, zeros => Node.extend steps (node.join zeros) (zeros.join zeros)

/-- The root of a sector that begins with a piece and holds zeros behind it. -/
def Commitment.sectorRoot (commitment : Commitment) (sectorSize : UInt64) : Outcome Node :=
  let piece := commitment.pieceSize.toNat
  let sector := sectorSize.toNat
  if ¬ isPowerOfTwo piece ∨ commitment.pieceSize < minPieceSize then
    refuse (.validation ("invalid piece size " ++ toString piece))
  else if ¬ isPowerOfTwo sector ∨ sector < piece then
    refuse (.validation
      ("piece size " ++ toString piece ++ " does not fit sector size " ++ toString sector))
  else
    let level := twos (piece / 32)
    .ok (commitment.digest.extend (twos (sector / 32) - level) (Node.zeroRoot level))

end PieceKeeper
