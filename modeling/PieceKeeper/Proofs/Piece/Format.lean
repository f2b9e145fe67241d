import Mathlib.Tactic.IntervalCases
import PieceKeeper.Piece.Format
import PieceKeeper.Proofs.Json.Record
import PieceKeeper.Proofs.Time.Loose

/-!
# Pieces and their JSON form

A piece that is written and read again is the piece it was, whatever its columns hold.  Every
column is written, as null if it has no value, but for a receipt: one that is absent is left out.
Instants are written with as many digits behind the second as they need, and read with any number
that leaves nothing of them out.
-/

namespace PieceKeeper

/-! ## Instants and statuses -/

namespace Instant

/-- The JSON form of an instant with so many digits behind the second. -/
def toJsonIn (digits : Nat) (instant : Instant) : Json := .string (Stamp.textIn digits instant)

theorem ofJson?_toJsonIn {digits : Nat} {instant : Instant} (h : Stamp.Suffices digits instant) :
    ofJson? (instant.toJsonIn digits) = some instant := by
  simp only [toJsonIn, ofJson?, Json.string?, Option.bind_eq_bind, Option.bind_some,
    Stamp.parseLoose_textIn h, Except.toOption]

theorem exists_toJson_eq (instant : Instant) : ∃ digits ∈ [0, 3, 6, 9],
    Stamp.Suffices digits instant ∧ instant.toJson = instant.toJsonIn digits := by
  obtain ⟨digits, hdigits, hsuffices, htext⟩ := Stamp.exists_text_eq instant
  exact ⟨digits, hdigits, hsuffices, congrArg Json.string htext⟩

/-- Every instant is read back. -/
theorem ofJson?_toJson (instant : Instant) : ofJson? instant.toJson = some instant := by
  obtain ⟨digits, -, hsuffices, heq⟩ := instant.exists_toJson_eq
  rw [heq]
  exact ofJson?_toJsonIn hsuffices

end Instant

theorem Status.ofJson?_toJson (status : Status) : ofJson? status.toJson = some status := by
  cases status <;> rfl

namespace Piece

/-! ## Columns -/

theorem optional_text (text : Option String) :
    Json.optional Json.string? (some (Json.ofOption Json.string text)) = some text :=
  Json.optional_ofOption (fun _ ↦ by rfl) (fun _ ↦ by nofun) text

theorem optional_size (size : Option UInt64) :
    Json.optional Json.uint64? (some (Json.ofOption Json.ofUInt64 size)) = some size :=
  Json.optional_ofOption Json.uint64?_ofUInt64 (fun _ ↦ by nofun) size

theorem optional_receipt (receipt : Option Bytes) :
    Json.optional Json.bytes? (receipt.map Bytes.toJson) = some receipt := by
  cases receipt with
  | none => rfl
  | some receipt =>
    have hne : Bytes.toJson receipt ≠ .null := nofun
    rw [Option.map_some, Json.optional_some hne, Bytes.toJson, Json.bytes?_map_ofNat,
      Option.map_some]

/-- What is written for the columns of a piece, when its instants are written in some way.  Only
the receipt may be left out. -/
def cells (piece : Piece) (submittedAt createdAt updatedAt : Json) : List (Option Json) :=
  let text := Json.ofOption Json.string
  let size := Json.ofOption Json.ofUInt64
  [some (.string piece.id), some (text piece.sourcePath), some (size piece.rawSize),
    some (size piece.paddedSize), some (size piece.pieceSize), some (text piece.digest),
    some (text piece.contentId), some (size piece.proofSet), some (text piece.rootCid),
    some (text piece.transaction), some piece.status.toJson, some (text piece.errorMessage),
    some submittedAt, some (Json.ofOption Json.bool piece.txSuccess),
    some (Json.ofOption (fun n ↦ .integer n.toInt) piece.confirmedBlock),
    some (text piece.confirmedTxHash), piece.receipt.map Bytes.toJson, some createdAt,
    some updatedAt]

theorem toJson_eq (piece : Piece) : piece.toJson = .object (Json.members columnNames
    (piece.cells (Json.ofOption Instant.toJson piece.submittedAt) piece.createdAt.toJson
      piece.updatedAt.toJson)) := by
  cases h : piece.receipt <;> simp only [toJson, cells, h] <;> rfl

variable {piece : Piece} {submittedAt createdAt updatedAt : Json}

/-- A piece is read from its columns, as soon as its instants are. -/
theorem ofJson?_cells
    (hsubmitted : Json.optional Instant.ofJson? (some submittedAt) = some piece.submittedAt)
    (hcreated : Instant.ofJson? createdAt = some piece.createdAt)
    (hupdated : Instant.ofJson? updatedAt = some piece.updatedAt) :
    ofJson? (.object (Json.members columnNames (piece.cells submittedAt createdAt updatedAt))) =
      some piece := by
  have hcolumns : (Json.object (Json.members columnNames
      (piece.cells submittedAt createdAt updatedAt))).columns columnNames 19 =
        some (piece.cells submittedAt createdAt updatedAt) :=
    Json.columns_object_members (by decide) rfl 19
  have hsuccess : Json.optional Json.bool? (some (Json.ofOption Json.bool piece.txSuccess)) =
      some piece.txSuccess :=
    Json.optional_ofOption (fun _ ↦ by rfl) (fun _ ↦ by nofun) _
  have hblock := Json.optional_ofOption Json.int64?_integer (fun _ ↦ by nofun) piece.confirmedBlock
  refine Option.bind_eq_some_iff.2 ⟨_, hcolumns, ?_⟩
  refine Option.bind_eq_some_iff.2 ⟨piece.id, rfl, ?_⟩
  refine Option.bind_eq_some_iff.2 ⟨_, optional_text piece.sourcePath, ?_⟩
  refine Option.bind_eq_some_iff.2 ⟨_, optional_size piece.rawSize, ?_⟩
  refine Option.bind_eq_some_iff.2 ⟨_, optional_size piece.paddedSize, ?_⟩
  refine Option.bind_eq_some_iff.2 ⟨_, optional_size piece.pieceSize, ?_⟩
  refine Option.bind_eq_some_iff.2 ⟨_, optional_text piece.digest, ?_⟩
  refine Option.bind_eq_some_iff.2 ⟨_, optional_text piece.contentId, ?_⟩
  refine Option.bind_eq_some_iff.2 ⟨_, optional_size piece.proofSet, ?_⟩
  refine Option.bind_eq_some_iff.2 ⟨_, optional_text piece.rootCid, ?_⟩
  refine Option.bind_eq_some_iff.2 ⟨_, optional_text piece.transaction, ?_⟩
  refine Option.bind_eq_some_iff.2 ⟨_, piece.status.ofJson?_toJson, ?_⟩
  refine Option.bind_eq_some_iff.2 ⟨_, optional_text piece.errorMessage, ?_⟩
  refine Option.bind_eq_some_iff.2 ⟨_, hsubmitted, ?_⟩
  refine Option.bind_eq_some_iff.2 ⟨_, hsuccess, ?_⟩
  refine Option.bind_eq_some_iff.2 ⟨_, hblock, ?_⟩
  refine Option.bind_eq_some_iff.2 ⟨_, optional_text piece.confirmedTxHash, ?_⟩
  refine Option.bind_eq_some_iff.2 ⟨_, optional_receipt piece.receipt, ?_⟩
  refine Option.bind_eq_some_iff.2 ⟨_, hcreated, ?_⟩
  refine Option.bind_eq_some_iff.2 ⟨_, hupdated, ?_⟩
  rfl

/-! ## The round trip -/

/-- The JSON form of a piece with so many digits behind the seconds of its instants. -/
def toJsonIn (submitted created updated : Nat) (piece : Piece) : Json :=
  .object (Json.members columnNames (piece.cells
    (Json.ofOption (Instant.toJsonIn submitted) piece.submittedAt)
    (piece.createdAt.toJsonIn created) (piece.updatedAt.toJsonIn updated)))

/-- So many digits behind the seconds leave nothing of a piece's instants out. -/
structure Suffice (submitted created updated : Nat) (piece : Piece) : Prop where
  submittedAt : ∀ instant ∈ piece.submittedAt, Stamp.Suffices submitted instant
  createdAt : Stamp.Suffices created piece.createdAt
  updatedAt : Stamp.Suffices updated piece.updatedAt

theorem ofJson?_toJsonIn {submitted created updated : Nat}
    (h : Suffice submitted created updated piece) :
    ofJson? (piece.toJsonIn submitted created updated) = some piece := by
  refine ofJson?_cells ?_ (Instant.ofJson?_toJsonIn h.createdAt)
    (Instant.ofJson?_toJsonIn h.updatedAt)
  cases hsubmitted : piece.submittedAt with
  | none => rfl
  | some instant =>
    have hne : instant.toJsonIn submitted ≠ .null := nofun
    rw [Json.ofOption, Json.optional_some hne,
      Instant.ofJson?_toJsonIn (h.submittedAt instant hsubmitted), Option.map_some]

/-- Every instant of a piece is written with no digits behind the second, or with three, six or
nine. -/
theorem exists_toJson_eq (piece : Piece) :
    ∃ submitted ∈ [0, 3, 6, 9], ∃ created ∈ [0, 3, 6, 9], ∃ updated ∈ [0, 3, 6, 9],
      Suffice submitted created updated piece ∧
        piece.toJson = piece.toJsonIn submitted created updated := by
  obtain ⟨created, hcreated, hcreatedSuffices, hcreatedEq⟩ := piece.createdAt.exists_toJson_eq
  obtain ⟨updated, hupdated, hupdatedSuffices, hupdatedEq⟩ := piece.updatedAt.exists_toJson_eq
  obtain ⟨submitted, hsubmitted, hsubmittedSuffices, hsubmittedEq⟩ :
      ∃ submitted ∈ [0, 3, 6, 9],
        (∀ instant ∈ piece.submittedAt, Stamp.Suffices submitted instant) ∧
          Json.ofOption Instant.toJson piece.submittedAt =
            Json.ofOption (Instant.toJsonIn submitted) piece.submittedAt := by
    cases piece.submittedAt with
    | none =>
      refine ⟨0, by decide, fun _ hmem ↦ absurd hmem (Option.not_mem_none _), ?_⟩
      rw [Json.ofOption, Json.ofOption]
    | some instant =>
      obtain ⟨digits, hdigits, hsuffices, heq⟩ := instant.exists_toJson_eq
      exact ⟨digits, hdigits, fun _ hmem ↦ Option.mem_some.mp hmem ▸ hsuffices, heq⟩
  refine ⟨submitted, hsubmitted, created, hcreated, updated, hupdated,
    ⟨hsubmittedSuffices, hcreatedSuffices, hupdatedSuffices⟩, ?_⟩
  rw [toJson_eq, hcreatedEq, hupdatedEq, hsubmittedEq, toJsonIn]

/-- A written piece is read back. -/
theorem ofJson?_toJson (piece : Piece) : ofJson? piece.toJson = some piece := by
  obtain ⟨_, -, _, -, _, -, hsuffice, heq⟩ := piece.exists_toJson_eq
  rw [heq]
  exact ofJson?_toJsonIn hsuffice

theorem exists_cell {i : Nat} (hi : i < 19) (hne : i ≠ 16) :
    ∃ value, (piece.cells submittedAt createdAt updatedAt)[i]? = some (some value) := by
  interval_cases i <;> first | exact ⟨_, rfl⟩ | exact absurd rfl hne

/-- Only the receipt's member may be missing, and it is if there is no receipt. -/
theorem get?_toJson (piece : Piece) :
    piece.toJson.get? "receipt" = piece.receipt.map Bytes.toJson ∧
      ∀ name ∈ columnNames, name ≠ "receipt" → ∃ value, piece.toJson.get? name = some value := by
  rw [toJson_eq]
  refine ⟨Json.get?_members (i := 16) (by decide) rfl rfl rfl, fun name hname hne ↦ ?_⟩
  obtain ⟨i, hi, rfl⟩ := List.mem_iff_getElem.1 hname
  have hother : i ≠ 16 := by
    rintro rfl
    exact hne rfl
  obtain ⟨value, hvalue⟩ := exists_cell hi hother
  exact ⟨value, Json.get?_members (by decide) rfl (List.getElem?_eq_getElem hi) hvalue⟩

/-- **Pieces survive their JSON form.**  A piece that is written and read is the same piece,
whatever its columns hold, and so is one that was read from any JSON value, written and read
again.  Every instant is written with no digits behind the second, or with three, six or nine; and
a piece is read back to the nanosecond from any number of digits that leaves nothing out, also if
its instants have different numbers of them.  The receipt's member is missing exactly if there is
no receipt, and no other member is ever missing. -/
theorem survives_json :
    (∀ piece : Piece, ofJson? piece.toJson = some piece) ∧
    (∀ json piece, ofJson? json = some piece → ofJson? piece.toJson = some piece) ∧
    (∀ piece : Piece, ∃ submitted ∈ [0, 3, 6, 9], ∃ created ∈ [0, 3, 6, 9],
      ∃ updated ∈ [0, 3, 6, 9], Suffice submitted created updated piece ∧
        piece.toJson = piece.toJsonIn submitted created updated) ∧
    (∀ submitted created updated piece, Suffice submitted created updated piece →
      ofJson? (piece.toJsonIn submitted created updated) = some piece) ∧
    (∀ piece : Piece, piece.toJson.get? "receipt" = piece.receipt.map Bytes.toJson) ∧
    (∀ piece : Piece, ∀ name ∈ columnNames, name ≠ "receipt" →
      ∃ value, piece.toJson.get? name = some value) :=
  ⟨ofJson?_toJson, fun _ piece _ ↦ ofJson?_toJson piece, exists_toJson_eq,
    fun _ _ _ _ ↦ ofJson?_toJsonIn, fun piece ↦ piece.get?_toJson.1,
    fun piece ↦ piece.get?_toJson.2⟩

/-- A piece with the largest size, the least block and an empty receipt.  It was made in a leap
second long before the first year, and its half second is written with nine digits. -/
theorem survives_json_largest :
    let created : Instant := ⟨⟨-262143, 1, 1, by decide⟩, 59, 1999999999, by decide⟩
    let updated : Instant := ⟨⟨262142, 12, 31, by decide⟩, 86399, 500000000, by decide⟩
    let piece : Piece :=
      { id := "", rawSize := some 18446744073709551615, status := .added, submittedAt := some updated
        confirmedBlock := some Int64.minValue, receipt := some [], createdAt := created
        updatedAt := updated }
    ofJson? (piece.toJsonIn 9 9 3) = some piece ∧ ofJson? piece.toJson = some piece ∧
      piece.toJson.get? "receipt" = some (.array []) ∧
      ∃ value, piece.toJson.get? "transaction_ref" = some value := by
  intro created updated piece
  obtain ⟨-, hread, -, hwritten, hreceipt, hothers⟩ := survives_json
  have hsuffice : Suffice 9 9 3 piece :=
    ⟨fun _ hmem ↦ Option.mem_some.mp hmem ▸ ⟨by decide, by decide⟩, ⟨by decide, by decide⟩,
      ⟨by decide, by decide⟩⟩
  have hjson := hwritten 9 9 3 piece hsuffice
  exact ⟨hjson, hread _ piece hjson, hreceipt piece, hothers piece _ (by decide) (by decide)⟩

end Piece

end PieceKeeper
