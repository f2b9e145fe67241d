import PieceKeeper.Proofs.Piece.Moves
import PieceKeeper.Proofs.Time.Stamp
import PieceKeeper.Store.Row

/-!
# What is read from a row

A cell that can be read is the cell that its value is written to, except that truth values and
instants have several written forms.  So a piece that is read agrees with its row in all other
columns.
-/

namespace PieceKeeper

namespace Cell

variable {cell : Cell} {place : Nat} {name : String}

theorem eq_of_toText {value : String} (h : cell.toText place name = .ok value) :
    cell = text value := by
  cases cell with
  | text _ => cases h; rfl
  | null | integer _ | blob _ => cases h

theorem eq_of_toText? {value : Option String} (h : cell.toText? place name = .ok value) :
    cell = ofText? value := by
  cases cell with
  | null => cases h; rfl
  | text _ => cases h; rfl
  | integer _ | blob _ => cases h

theorem eq_of_toInt64? {value : Option Int64} (h : cell.toInt64? place name = .ok value) :
    cell = ofInt64? value := by
  cases cell with
  | null => cases h; rfl
  | integer _ => cases h; rfl
  | text _ | blob _ => cases h

theorem eq_of_toSize? {value : Option UInt64} (h : cell.toSize? place name = .ok value) :
    cell = ofSize? value := by
  obtain ⟨signed, hsigned, hvalue⟩ := Except.bind_eq_ok.mp h
  cases hvalue
  rw [eq_of_toInt64? hsigned]
  cases signed with
  | none => rfl
  | some n => simp [ofInt64?, ofSize?]

theorem eq_of_toBytes? {value : Option Bytes} (h : cell.toBytes? place name = .ok value) :
    cell = ofBytes? value := by
  cases cell with
  | null => cases h; rfl
  | blob _ => cases h; rfl
  | integer _ | text _ => cases h

theorem eq_some_of_ofSize? {found : Option UInt64} {size : UInt64}
    (h : ofSize? found = ofSize? (some size)) : found = some size := by
  cases found with
  | none => cases h
  | some n => rw [← n.toUInt64_toInt64, ← size.toUInt64_toInt64, integer.inj h]

theorem eq_some_of_ofText? {found : Option String} {value : String}
    (h : ofText? found = text value) : found = some value := by
  cases found with
  | none => cases h
  | some other => rw [text.inj h]

end Cell

theorem Status.parse_eq_ok {name : String} {status : Status} (h : Status.parse name = .ok status) :
    name = status.name := by
  rw [parse] at h
  split at h
  · rename_i found hfound
    cases h
    unfold ofName? at hfound
    split at hfound <;> cases hfound <;> rfl
  · cases h

theorem Cell.eq_of_toStatus {cell : Cell} {place : Nat} {name : String} {status : Status}
    (h : cell.toStatus place name = .ok status) : cell = text status.name := by
  obtain ⟨value, hvalue, hparse⟩ := Except.bind_eq_ok.mp h
  rw [eq_of_toText hvalue]
  split at hparse
  · rename_i found hfound
    cases hparse
    rw [Status.parse_eq_ok hfound]
  · cases hparse

/-- A row shows a piece in the columns that have one written form. -/
structure Row.Shows (row : Row) (piece : Piece) : Prop where
  id : row.id = .text piece.id
  sourcePath : row.sourcePath = .ofText? piece.sourcePath
  rawSize : row.rawSize = .ofSize? piece.rawSize
  paddedSize : row.paddedSize = .ofSize? piece.paddedSize
  pieceSize : row.pieceSize = .ofSize? piece.pieceSize
  digest : row.digest = .ofText? piece.digest
  contentId : row.contentId = .ofText? piece.contentId
  proofSet : row.proofSet = .ofSize? piece.proofSet
  rootCid : row.rootCid = .ofText? piece.rootCid
  transaction : row.transaction = .ofText? piece.transaction
  status : row.status = .text piece.status.name
  errorMessage : row.errorMessage = .ofText? piece.errorMessage
  confirmedBlock : row.confirmedBlock = .ofInt64? piece.confirmedBlock
  confirmedTxHash : row.confirmedTxHash = .ofText? piece.confirmedTxHash
  receipt : row.receipt = .ofBytes? piece.receipt

theorem Row.shows_of_toPiece {row : Row} {piece : Piece} (h : row.toPiece = .ok piece) :
    row.Shows piece := by
  simp only [toPiece, Except.bind_eq_ok] at h
  obtain ⟨status, hstatus, id, hid, sourcePath, hsourcePath, rawSize, hrawSize, paddedSize,
    hpaddedSize, pieceSize, hpieceSize, digest, hdigest, contentId, hcontentId, proofSet, hproofSet,
    rootCid, hrootCid, transaction, htransaction, errorMessage, herrorMessage, _, _, _, _,
    confirmedBlock, hconfirmedBlock, confirmedTxHash, hconfirmedTxHash, receipt, hreceipt, _, _,
    _, _, hpiece⟩ := h
  cases hpiece
  exact ⟨Cell.eq_of_toText hid, Cell.eq_of_toText? hsourcePath, Cell.eq_of_toSize? hrawSize,
    Cell.eq_of_toSize? hpaddedSize, Cell.eq_of_toSize? hpieceSize, Cell.eq_of_toText? hdigest,
    Cell.eq_of_toText? hcontentId, Cell.eq_of_toSize? hproofSet, Cell.eq_of_toText? hrootCid,
    Cell.eq_of_toText? htransaction, Cell.eq_of_toStatus hstatus, Cell.eq_of_toText? herrorMessage,
    Cell.eq_of_toInt64? hconfirmedBlock, Cell.eq_of_toText? hconfirmedTxHash,
    Cell.eq_of_toBytes? hreceipt⟩

/-! ## Reading what was written -/

/-- An instant can be read from its cell. -/
def Instant.IsReadable (instant : Instant) : Prop := Stamp.parse (instant.text "+00:00") = .ok instant

namespace Cell

variable {place : Nat} {name : String}

@[simp] theorem toText_text (value : String) : (text value).toText place name = .ok value := rfl

@[simp] theorem toText?_ofText? (value : Option String) :
    (ofText? value).toText? place name = .ok value := by
  cases value <;> rfl

@[simp] theorem toInt64?_ofInt64? (value : Option Int64) :
    (ofInt64? value).toInt64? place name = .ok value := by
  cases value <;> rfl

@[simp] theorem toSize?_ofSize? (value : Option UInt64) :
    (ofSize? value).toSize? place name = .ok value := by
  cases value with
  | none => rfl
  | some n =>
    change Except.ok (some n.toInt64.toUInt64) = _
    rw [UInt64.toUInt64_toInt64]

@[simp] theorem toBool?_ofBool? (value : Option Bool) :
    (ofBool? value).toBool? place name = .ok value := by
  cases value with
  | none => rfl
  | some b => cases b <;> rfl

@[simp] theorem toBytes?_ofBytes? (value : Option Bytes) :
    (ofBytes? value).toBytes? place name = .ok value := by
  cases value <;> rfl

@[simp] theorem toStatus_name (status : Status) :
    (text status.name).toStatus place name = .ok status := by
  cases status <;> rfl

theorem instant_text {value : Instant} (h : value.IsReadable) :
    instant place (value.text "+00:00") = .ok value := by
  rw [Instant.IsReadable] at h
  simp only [instant, h]

theorem toInstant_ofInstant {value : Instant} (h : value.IsReadable) :
    (ofInstant value).toInstant place name = .ok value := by
  simp only [toInstant, ofInstant, toText_text, bind, Except.bind, instant_text h]

theorem toInstant?_ofInstant? {value : Option Instant} (h : ∀ instant ∈ value, instant.IsReadable) :
    (ofInstant? value).toInstant? place name = .ok value := by
  cases value with
  | none => rfl
  | some value =>
    simp only [toInstant?, ofInstant?, ofInstant, toText?, bind, Except.bind, pure, Except.pure,
      instant_text (h value rfl)]

theorem eq_of_instant_text {read value : Instant}
    (h : instant place (value.text "+00:00") = .ok read) : read = value := by
  rw [instant] at h
  split at h
  · rename_i hparse
    cases h
    exact Stamp.eq_of_parse_text hparse
  · cases h

theorem eq_of_toInstant_ofInstant {read value : Instant}
    (h : (ofInstant value).toInstant place name = .ok read) : read = value := by
  obtain ⟨written, hwritten, hinstant⟩ := Except.bind_eq_ok.mp h
  cases hwritten
  exact eq_of_instant_text hinstant

theorem eq_of_toInstant?_ofInstant? {read value : Option Instant}
    (h : (ofInstant? value).toInstant? place name = .ok read) : read = value := by
  cases value with
  | none =>
    cases h
    rfl
  | some value =>
    obtain ⟨written, hwritten, hrest⟩ := Except.bind_eq_ok.mp h
    cases hwritten
    obtain ⟨found, hfound, heq⟩ := Except.bind_eq_ok.mp hrest
    cases heq
    rw [eq_of_instant_text hfound]

end Cell

/-- A piece is read from its row, if its instants can be. -/
theorem Row.toPiece_ofPiece {piece : Piece} (hcreated : piece.createdAt.IsReadable)
    (hupdated : piece.updatedAt.IsReadable)
    (hsubmitted : ∀ instant ∈ piece.submittedAt, instant.IsReadable) :
    (ofPiece piece).toPiece = .ok piece := by
  simp [toPiece, ofPiece, Cell.toInstant_ofInstant hcreated, Cell.toInstant_ofInstant hupdated,
    Cell.toInstant?_ofInstant? hsubmitted, bind, Except.bind, pure, Except.pure]

namespace Cell

/-- Values that can be read back are written differently. -/
theorem injective_of_read {α : Type} {write : α → Cell} {read : Cell → Except String α}
    (hread : ∀ value, read (write value) = .ok value) : Function.Injective write := by
  intro a b h
  have hsame := hread a
  rw [h, hread b] at hsame
  exact (Except.ok.inj hsame).symm

theorem ofText?_injective : Function.Injective ofText? := injective_of_read (@toText?_ofText? 0 "")

theorem ofSize?_injective : Function.Injective ofSize? := injective_of_read (@toSize?_ofSize? 0 "")

theorem ofInt64?_injective : Function.Injective ofInt64? :=
  injective_of_read (@toInt64?_ofInt64? 0 "")

theorem ofBool?_injective : Function.Injective ofBool? := injective_of_read (@toBool?_ofBool? 0 "")

theorem ofBytes?_injective : Function.Injective ofBytes? :=
  injective_of_read (@toBytes?_ofBytes? 0 "")

theorem ofInstant_injective : Function.Injective ofInstant :=
  fun _ _ h ↦ Stamp.text_injective (text.inj h)

theorem ofInstant?_injective : Function.Injective ofInstant? := by
  intro a b h
  cases a <;> cases b
  · rfl
  · cases h
  · cases h
  · rw [ofInstant_injective h]

end Cell

/-- A row is the row of one piece. -/
theorem Row.ofPiece_injective : Function.Injective ofPiece := by
  intro a b h
  simp only [ofPiece, mk.injEq] at h
  obtain ⟨hid, hsourcePath, hrawSize, hpaddedSize, hpieceSize, hdigest, hcontentId, hproofSet,
    hrootCid, htransaction, hstatus, herrorMessage, hsubmittedAt, htxSuccess, hconfirmedBlock,
    hconfirmedTxHash, hreceipt, hcreatedAt, hupdatedAt⟩ := h
  obtain ⟨⟩ := a
  obtain ⟨⟩ := b
  cases Cell.text.inj hid
  cases Cell.ofText?_injective hsourcePath
  cases Cell.ofSize?_injective hrawSize
  cases Cell.ofSize?_injective hpaddedSize
  cases Cell.ofSize?_injective hpieceSize
  cases Cell.ofText?_injective hdigest
  cases Cell.ofText?_injective hcontentId
  cases Cell.ofSize?_injective hproofSet
  cases Cell.ofText?_injective hrootCid
  cases Cell.ofText?_injective htransaction
  cases Status.name_injective (Cell.text.inj hstatus)
  cases Cell.ofText?_injective herrorMessage
  cases Cell.ofInstant?_injective hsubmittedAt
  cases Cell.ofBool?_injective htxSuccess
  cases Cell.ofInt64?_injective hconfirmedBlock
  cases Cell.ofText?_injective hconfirmedTxHash
  cases Cell.ofBytes?_injective hreceipt
  cases Cell.ofInstant_injective hcreatedAt
  cases Cell.ofInstant_injective hupdatedAt
  rfl

/-- Whatever is read from the row of a piece is that piece. -/
theorem Row.eq_of_toPiece_ofPiece {piece read : Piece} (h : (ofPiece piece).toPiece = .ok read) :
    read = piece := by
  simp only [toPiece, Except.bind_eq_ok, ofPiece, Cell.toText_text, Cell.toText?_ofText?,
    Cell.toSize?_ofSize?, Cell.toInt64?_ofInt64?, Cell.toBool?_ofBool?, Cell.toBytes?_ofBytes?,
    Cell.toStatus_name, Except.ok.injEq, exists_eq_left'] at h
  obtain ⟨submitted, hsubmitted, created, hcreated, updated, hupdated, hpiece⟩ := h
  cases hpiece
  rw [Cell.eq_of_toInstant?_ofInstant? hsubmitted, Cell.eq_of_toInstant_ofInstant hcreated,
    Cell.eq_of_toInstant_ofInstant hupdated]

end PieceKeeper
