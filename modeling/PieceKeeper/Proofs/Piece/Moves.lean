import Mathlib.Logic.Basic
import PieceKeeper.Operation.Submit
import PieceKeeper.Operation.Upload
import PieceKeeper.Piece.Settlement

/-!
# Moves of a piece

A piece moves only along the lifecycle, and keeps its id and its content while the ledger's
answers are written into it.
-/

namespace PieceKeeper

/-- A chain of steps succeeds if every step does. -/
theorem Except.bind_eq_ok {ε α β : Type} {first : Except ε α} {next : α → Except ε β} {b : β} :
    (first >>= next) = .ok b ↔ ∃ a, first = .ok a ∧ next a = .ok b := by
  cases first with
  | error e => simp [bind, Except.bind]
  | ok a => simp [bind, Except.bind]

theorem Status.name_injective {a b : Status} (h : a.name = b.name) : a = b := by
  revert h
  cases a <;> cases b <;> decide

namespace Piece

theorem moveTo_eq_ok {piece moved : Piece} {next : Status} {operation : String} {now : Instant} :
    piece.moveTo next operation now = .ok moved ↔
      piece.status.canMove next = true ∧ moved = { piece with status := next, updatedAt := now } := by
  rw [moveTo]
  split
  · rename_i hmove
    simp [hmove, eq_comm]
  · rename_i hmove
    simp [hmove, refuse]

theorem conclude_eq_ok {piece moved : Piece} {next : Status} {finding found : Finding}
    {now : Instant} (h : piece.conclude next finding now = (moved, .ok found)) :
    piece.status.canMove next = true ∧ found = finding ∧
      moved = { piece with status := next, updatedAt := now } := by
  rw [conclude] at h
  split at h
  · rename_i hmove
    obtain ⟨hcan, rfl⟩ := moveTo_eq_ok.mp hmove
    cases h
    exact ⟨hcan, rfl, rfl⟩
  · cases h

/-- A piece that the record of its transaction has settled. -/
def settledAs (piece : Piece) (record : TransactionRecord) (status : Status)
    (errorMessage : Option String) (now : Instant) : Piece :=
  { piece.copyConfirmation record with status, errorMessage, updatedAt := now }

/-- A record leaves a piece alone, or it settles the piece with success, or with a failure and what
is said of it. -/
theorem settle_cases {piece settled : Piece} {record : TransactionRecord} {now : Instant}
    {finding : Finding} (h : piece.settle record now = (settled, .ok finding)) :
    finding = .stillPending ∧ settled = piece ∨
    (finding = .added ∧ piece.status.canMove .added = true ∧ record.success = some true ∧
      settled = piece.settledAs record .added piece.errorMessage now) ∨
    (finding = .failed ∧ piece.status.canMove .failed = true ∧
      ∃ message, settled = piece.settledAs record .failed (some message) now) := by
  rw [settle] at h
  split at h
  · cases h
    exact Or.inl ⟨rfl, rfl⟩
  · split at h
    · rename_i hsuccess
      obtain ⟨hcan, rfl, rfl⟩ := conclude_eq_ok h
      exact Or.inr (Or.inl ⟨rfl, hcan, hsuccess, rfl⟩)
    · obtain ⟨hcan, rfl, rfl⟩ := conclude_eq_ok h
      exact Or.inr (Or.inr ⟨rfl, hcan, _, rfl⟩)
  · obtain ⟨hcan, rfl, rfl⟩ := conclude_eq_ok h
    exact Or.inr (Or.inr ⟨rfl, hcan, _, rfl⟩)

/-- A record that settles a piece does so in one of two ways. -/
theorem settle_final_cases {piece settled : Piece} {record : TransactionRecord} {now : Instant}
    {finding : Finding} (h : piece.settle record now = (settled, .ok finding))
    (hfinding : finding = .added ∨ finding = .failed) :
    (finding = .added ∧ piece.status.canMove .added = true ∧ record.success = some true ∧
      settled = piece.settledAs record .added piece.errorMessage now) ∨
    (finding = .failed ∧ piece.status.canMove .failed = true ∧
      ∃ message, settled = piece.settledAs record .failed (some message) now) := by
  refine (settle_cases h).resolve_left ?_
  rintro ⟨rfl, -⟩
  simp at hfinding

/-- A record that settles a piece moves it to a final status and changes nothing but what is said
of the transaction. -/
theorem settle_eq_ok {piece settled : Piece} {record : TransactionRecord} {now : Instant}
    {finding : Finding} (h : piece.settle record now = (settled, .ok finding))
    (hfinding : finding = .added ∨ finding = .failed) :
    piece.status.canMove settled.status = true ∧ settled.id = piece.id ∧
      settled.contentId = piece.contentId := by
  rcases settle_final_cases h hfinding with ⟨-, hmove, -, rfl⟩ | ⟨-, hmove, message, rfl⟩
  · exact ⟨hmove, rfl, rfl⟩
  · exact ⟨hmove, rfl, rfl⟩

/-- A record leaves a pending piece as it is, or it brings it to an end. -/
theorem settle_of_pending {piece : Piece} (h : piece.status = .pending) (record : TransactionRecord)
    (now : Instant) :
    record.status = .pending ∧ piece.settle record now = (piece, .ok .stillPending) ∨
    ∃ settled finding, piece.settle record now = (settled, .ok finding) ∧ (finding = .added ∨ finding = .failed) := by
  have hconclude (copied : Piece) (hcopied : copied.status = piece.status) {next : Status}
      (hnext : next = .added ∨ next = .failed) (finding : Finding) :
      ∃ settled, copied.conclude next finding now = (settled, .ok finding) := by
    have hcan : copied.status.canMove next = true := by
      rw [hcopied, h]
      rcases hnext with rfl | rfl
      · rfl
      · rfl
    rw [conclude, moveTo, if_pos hcan]
    exact ⟨_, rfl⟩
  rw [settle]
  cases hrecord : record.status with
  | pending => exact Or.inl ⟨rfl, rfl⟩
  | confirmed =>
    dsimp only
    split
    · obtain ⟨settled, hsettled⟩ := hconclude (piece.copyConfirmation record) rfl (Or.inl rfl) .added
      exact Or.inr ⟨settled, .added, hsettled, Or.inl rfl⟩
    · obtain ⟨settled, hsettled⟩ := hconclude { piece.copyConfirmation record with
        errorMessage := some (failureMessage record) } rfl (Or.inr rfl) .failed
      exact Or.inr ⟨settled, .failed, hsettled, Or.inr rfl⟩
  | failed =>
    obtain ⟨settled, hsettled⟩ := hconclude { piece.copyConfirmation record with
      errorMessage := some (dropMessage record) } rfl (Or.inr rfl) .failed
    exact Or.inr ⟨settled, .failed, hsettled, Or.inr rfl⟩

/-- A record that waits brings nothing to its end. -/
theorem ne_pending_of_settle {piece settled : Piece} {record : TransactionRecord} {now : Instant}
    {finding : Finding} (h : piece.settle record now = (settled, .ok finding))
    (hfinal : finding = .added ∨ finding = .failed) : record.status ≠ .pending := by
  intro hwaits
  rw [settle, hwaits] at h
  cases h
  rcases hfinal with h | h
  · cases h
  · cases h

end Piece

namespace Operation

theorem status_of_checkContent {piece : Piece} {id : String} {size : UInt64}
    (h : checkContent piece id size = .ok ()) : piece.status = .prepared := by
  rw [checkContent] at h
  split at h
  · cases h
  · rename_i heq
    exact not_not.mp heq

theorem size_of_checkContent {piece : Piece} {id : String} {size : UInt64}
    (h : checkContent piece id size = .ok ()) : size ≠ 0 := by
  rw [checkContent, if_neg (not_not_intro (status_of_checkContent h))] at h
  rintro rfl
  cases h

/-- The size that was announced is the size of the content. -/
theorem rawSize_of_checkContent {piece : Piece} {id : String} {size declared : UInt64}
    (h : checkContent piece id size = .ok ()) (hdeclared : piece.rawSize = some declared) :
    declared = size := by
  have hstatus := not_not_intro (status_of_checkContent h)
  have hsize := size_of_checkContent h
  rw [checkContent, if_neg hstatus, if_neg hsize, hdeclared] at h
  dsimp only at h
  split at h
  · cases h
  · rename_i hne
    exact not_not.mp hne

theorem checkFree_eq_ok {piece : Piece} :
    checkFree piece = .ok () ↔ piece.status = .uploaded ∧ piece.proofSet = none := by
  rw [checkFree]
  split
  · rename_i hne
    simp [hne, refuse]
  · rename_i heq
    rw [not_not] at heq
    cases hset : piece.proofSet with
    | none => simp [heq]
    | some proofSet => simp [refuse]

theorem checkFree_of_claimed {piece : Piece} {proofSet : UInt64} (hstatus : piece.status = .uploaded)
    (hset : piece.proofSet = some proofSet) :
    checkFree piece = .error { cause := alreadyClaimed piece.id proofSet } := by
  rw [checkFree, if_neg (not_not_intro hstatus), hset]
  rfl

/-- The root of a piece is that of a sector which begins with it, and has the piece as its only
part. -/
theorem rootOf_eq_ok {piece : Piece} {sectorSize : UInt64} {root : Root}
    (h : rootOf piece sectorSize = .ok root) :
    ∃ contentId pieceSize digest node, piece.contentId = some contentId ∧
      piece.pieceSize = some pieceSize ∧ ContentId.toDigest contentId = .ok digest ∧
      (Commitment.mk digest pieceSize).sectorRoot sectorSize = .ok node ∧
      root = ⟨ContentId.ofDigest node, [contentId]⟩ := by
  rw [rootOf] at h
  split at h
  · rename_i contentId pieceSize hcontent hsize
    obtain ⟨digest, hdigest, hrest⟩ := Except.bind_eq_ok.mp h
    obtain ⟨node, hnode, hroot⟩ := Except.bind_eq_ok.mp hrest
    cases hroot
    exact ⟨contentId, pieceSize, digest, node, hcontent, hsize, hdigest, hnode, rfl⟩
  · cases h

end Operation

end PieceKeeper
