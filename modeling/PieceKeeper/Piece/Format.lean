import PieceKeeper.Json.Record
import PieceKeeper.Piece.Basic
import PieceKeeper.Time.Stamp

/-!
# Pieces in JSON

A piece is written as an object with a member for each column, null where a value is
absent; only an absent receipt is left out.  Instants are written in UTC.
-/

namespace PieceKeeper

/-- Writes an instant. -/
def Instant.toJson (instant : Instant) : Json := .string (instant.text "Z")

/-- Reads an instant. -/
def Instant.ofJson? (json : Json) : Option Instant := do
  let text ← json.string?
  (Stamp.parseLoose text).toOption

/-- Writes a status. -/
def Status.toJson (status : Status) : Json := .string status.name

/-- Reads a status. -/
def Status.ofJson? (json : Json) : Option Status := json.alternative?.bind Status.ofName?

/-- Writes bytes as an array of numbers. -/
def Bytes.toJson (bytes : Bytes) : Json := .array (bytes.map fun byte ↦ .ofNat byte.toNat)

namespace Piece

/-- The columns of a piece. -/
def columnNames : List String :=
  ["id", "source_path", "raw_size", "padded_size", "piece_size", "commitment_digest",
    "content_id", "proof_set_id", "root_cid", "transaction_ref", "status", "error_message",
    "submitted_at", "tx_success", "confirmed_block", "confirmed_tx_hash", "receipt",
    "created_at", "updated_at"]

/-- Writes a piece. -/
def toJson (piece : Piece) : Json :=
  let text := Json.ofOption Json.string
  let size := Json.ofOption Json.ofUInt64
  .object <|
    [("id", .string piece.id),
      ("source_path", text piece.sourcePath),
      ("raw_size", size piece.rawSize),
      ("padded_size", size piece.paddedSize),
      ("piece_size", size piece.pieceSize),
      ("commitment_digest", text piece.digest),
      ("content_id", text piece.contentId),
      ("proof_set_id", size piece.proofSet),
      ("root_cid", text piece.rootCid),
      ("transaction_ref", text piece.transaction),
      ("status", piece.status.toJson),
      ("error_message", text piece.errorMessage),
      ("submitted_at", Json.ofOption Instant.toJson piece.submittedAt),
      ("tx_success", Json.ofOption Json.bool piece.txSuccess),
      ("confirmed_block", Json.ofOption (fun n ↦ .integer n.toInt) piece.confirmedBlock),
      ("confirmed_tx_hash", text piece.confirmedTxHash)]
    ++ (match piece.receipt with
      | none => []
      | some receipt => [("receipt", Bytes.toJson receipt)])
    ++ [("created_at", piece.createdAt.toJson), ("updated_at", piece.updatedAt.toJson)]

/-- Reads a piece. -/
def ofJson? (json : Json) : Option Piece := do
  let [id, sourcePath, rawSize, paddedSize, pieceSize, digest, contentId, proofSet, rootCid,
    transaction, status, errorMessage, submittedAt, txSuccess, confirmedBlock, confirmedTxHash,
    receipt, createdAt, updatedAt] ← json.columns columnNames 19 | none
  return {
    id := ← Json.required Json.string? id
    sourcePath := ← Json.optional Json.string? sourcePath
    rawSize := ← Json.optional Json.uint64? rawSize
    paddedSize := ← Json.optional Json.uint64? paddedSize
    pieceSize := ← Json.optional Json.uint64? pieceSize
    digest := ← Json.optional Json.string? digest
    contentId := ← Json.optional Json.string? contentId
    proofSet := ← Json.optional Json.uint64? proofSet
    rootCid := ← Json.optional Json.string? rootCid
    transaction := ← Json.optional Json.string? transaction
    status := ← Json.required Status.ofJson? status
    errorMessage := ← Json.optional Json.string? errorMessage
    submittedAt := ← Json.optional Instant.ofJson? submittedAt
    txSuccess := ← Json.optional Json.bool? txSuccess
    confirmedBlock := ← Json.optional Json.int64? confirmedBlock
    confirmedTxHash := ← Json.optional Json.string? confirmedTxHash
    receipt := ← Json.optional Json.bytes? receipt
    createdAt := ← Json.required Instant.ofJson? createdAt
    updatedAt := ← Json.required Instant.ofJson? updatedAt }

end Piece

/-- Writes a summary. -/
def Summary.toJson (summary : Summary) : Json :=
  .object
    [("id", .string summary.id),
      ("status", summary.status.toJson),
      ("transaction_ref", Json.ofOption Json.string summary.transaction),
      ("submitted_at", Json.ofOption Instant.toJson summary.submittedAt),
      ("error_message", Json.ofOption Json.string summary.errorMessage)]

end PieceKeeper
