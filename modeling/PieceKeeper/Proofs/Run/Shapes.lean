import PieceKeeper.Proofs.Run.Versions

/-!
# What a status promises

The columns of a row fit its status: a prepared piece is blank, every later one carries what its
content says, a claimed one the root of its sector, a submitted one its transaction, and what
befell the transaction is told of exactly where the piece has come to an end.  Every next version
of a piece keeps to this.
-/

namespace PieceKeeper

namespace Piece

/-- A piece holds the sizes of its content and the commitment to it. -/
def Commits (piece : Piece) (commitment : Commitment) : Prop :=
  (∃ raw padded : UInt64, piece.rawSize = some raw ∧ 1 ≤ raw.toNat ∧
    piece.paddedSize = some padded ∧
    IsLeast {n | raw.toNat ≤ n ∧ ∃ k, n = 2 ^ k} padded.toNat ∧
    commitment.pieceSize.toNat = if padded.toNat ≤ 64 then 128 else 2 * padded.toNat) ∧
  piece.pieceSize = some commitment.pieceSize ∧
  piece.digest = some commitment.digest.hex ∧
  piece.contentId = some (ContentId.ofDigest commitment.digest)

/-- A piece holds a content, and its root is that of a sector which begins with the content. -/
def IsCommitted (sectors : UInt64 → Prop) (piece : Piece) : Prop :=
  ∃ commitment, piece.Commits commitment ∧
    ∀ rootCid, piece.rootCid = some rootCid → ∃ size root, sectors size ∧
      commitment.sectorRoot size = .ok root ∧ rootCid = ContentId.ofDigest root

/-- A piece has a transaction. -/
def IsSubmitted (piece : Piece) : Prop :=
  piece.proofSet.isSome ∧ piece.transaction.isSome ∧ piece.submittedAt.isSome

/-- A piece has no transaction. -/
def IsUnsubmitted (piece : Piece) : Prop := piece.transaction = none ∧ piece.submittedAt = none

/-- Nothing is said of what became of a transaction. -/
def IsUnconfirmed (piece : Piece) : Prop :=
  piece.txSuccess = none ∧ piece.confirmedBlock = none ∧ piece.confirmedTxHash = none ∧
    piece.receipt = none

/-- The columns of a piece fit its status, in sectors of some sizes. -/
structure Shaped (sectors : UInt64 → Prop) (piece : Piece) : Prop where
  prepared : piece.status = .prepared →
    ∃ id path size now, piece = .prepare id path size now ∧ size ≠ some 0
  committed : piece.status ≠ .prepared → piece.IsCommitted sectors
  claimed : piece.proofSet.isSome = piece.rootCid.isSome
  submitted : piece.status = .pending ∨ piece.status = .added ∨ piece.status = .failed →
    piece.IsSubmitted
  unsubmitted : piece.status = .uploaded ∨ piece.status = .error → piece.IsUnsubmitted
  unconfirmed : piece.status ≠ .added → piece.status ≠ .failed → piece.IsUnconfirmed
  succeeded : piece.status = .added → piece.txSuccess = some true
  refused : piece.status = .error → piece.proofSet.isSome
  faulty : piece.errorMessage.isSome ↔ piece.status = .failed ∨ piece.status = .error

variable {sectors : UInt64 → Prop} {piece : Piece}

/-- What an upload writes is what its content says. -/
theorem commits_uploadedAs {body : Bytes} {committed : CommittedPiece} {now : Instant}
    (h : CommittedPiece.ofContent body = .ok committed) :
    (piece.uploadedAs (UInt64.ofNat body.length) committed now).Commits committed.commitment := by
  obtain ⟨hne, hle, rfl⟩ := ofContent_eq_ok.mp h
  have hraw : (UInt64.ofNat body.length).toNat = body.length :=
    UInt64.toNat_ofNat_of_lt' (Nat.lt_of_le_of_lt hle (by decide))
  have hpadded : (UInt64.ofNat (pad body).length).toNat = (pad body).length :=
    UInt64.toNat_ofNat_of_lt' (Nat.lt_of_le_of_lt (length_pad_le hle) (by decide))
  refine ⟨⟨_, UInt64.ofNat (pad body).length, rfl, ?_, rfl, ?_, ?_⟩, rfl, rfl, rfl⟩
  · rw [hraw]
    exact List.length_pos_iff.mpr hne
  · rw [hraw, hpadded, length_pad hne]
    exact isLeast_nextPowerOfTwo _
  · rw [hpadded]
    exact toNat_pieceSize_ofTree_pad hne hle

namespace Shaped

theorem mono {sectors' : UInt64 → Prop} (h : piece.Shaped sectors)
    (hsectors : ∀ size, sectors size → sectors' size) : piece.Shaped sectors' :=
  { h with
    committed := fun hstatus ↦ by
      obtain ⟨commitment, hcommits, hroot⟩ := h.committed hstatus
      refine ⟨commitment, hcommits, fun rootCid hrootCid ↦ ?_⟩
      obtain ⟨size, root, hsize, hrest⟩ := hroot rootCid hrootCid
      exact ⟨size, root, hsectors size hsize, hrest⟩ }

/-! ## Every version -/

theorem prepare {id : String} {path : Option String} {size : Option UInt64} {now : Instant}
    (hsize : size ≠ some 0) : (Piece.prepare id path size now).Shaped sectors where
  prepared _ := ⟨id, path, size, now, rfl, hsize⟩
  committed h := absurd rfl h
  claimed := rfl
  submitted := nofun
  unsubmitted := nofun
  unconfirmed _ _ := ⟨rfl, rfl, rfl, rfl⟩
  succeeded := nofun
  refused := nofun
  faulty := by simp [Piece.prepare]

theorem upload (h : piece.Shaped sectors) {id : String} {body : Bytes} {committed : CommittedPiece}
    {now : Instant}
    (hcheck : Operation.checkContent piece id (UInt64.ofNat body.length) = .ok ())
    (hcommitted : CommittedPiece.ofContent body = .ok committed) :
    (piece.uploadedAs (UInt64.ofNat body.length) committed now).Shaped sectors := by
  obtain ⟨_, path, size, created, rfl, -⟩ := h.prepared (Operation.status_of_checkContent hcheck)
  exact {
    prepared := nofun
    committed := fun _ ↦ ⟨committed.commitment, commits_uploadedAs hcommitted, nofun⟩
    claimed := rfl
    submitted := nofun
    unsubmitted := fun _ ↦ ⟨rfl, rfl⟩
    unconfirmed := fun _ _ ↦ ⟨rfl, rfl, rfl, rfl⟩
    succeeded := nofun
    refused := nofun
    faulty := by simp [uploadedAs, withContent, Piece.prepare] }

theorem claim (h : piece.Shaped sectors) {proofSet size : UInt64} {root : Root} {now : Instant}
    (hfree : Operation.checkFree piece = .ok ()) (hroot : Operation.rootOf piece size = .ok root)
    (hsize : sectors size) : (piece.heldFor proofSet root.rootCid now).Shaped sectors := by
  obtain ⟨hstatus, -⟩ := Operation.checkFree_eq_ok.mp hfree
  obtain ⟨commitment, hcommits, -⟩ := h.committed (by rw [hstatus]; nofun)
  obtain ⟨contentId, pieceSize, digest, node, hcontent, hpieceSize, hdigest, hnode, rfl⟩ :=
    Operation.rootOf_eq_ok hroot
  -- The digest that the root is reached from is read from the content id.
  obtain rfl : pieceSize = commitment.pieceSize :=
    Option.some.inj (hpieceSize.symm.trans hcommits.2.1)
  obtain rfl : digest = commitment.digest := by
    rw [Option.some.inj (hcontent.symm.trans hcommits.2.2.2), ContentId.toDigest_ofDigest] at hdigest
    exact (Except.ok.inj hdigest).symm
  refine { h with
    prepared := fun hprepared ↦ nomatch hstatus.symm.trans hprepared
    committed := fun _ ↦ ⟨commitment, hcommits, ?_⟩
    claimed := rfl
    submitted := fun hlater ↦ by simp [heldFor, claimedFor, hstatus] at hlater
    refused := fun _ ↦ rfl }
  rintro rootCid ⟨⟩
  exact ⟨size, node, hsize, hnode, rfl⟩

theorem submission (h : piece.Shaped sectors) {hash : String} {submitted now : Instant}
    (hstatus : piece.status = .uploaded) (hset : piece.proofSet.isSome) :
    (piece.submittedAs hash submitted now).Shaped sectors where
  prepared := nofun
  committed _ := h.committed (by rw [hstatus]; nofun)
  claimed := h.claimed
  submitted _ := ⟨hset, rfl, rfl⟩
  unsubmitted := nofun
  unconfirmed _ _ := h.unconfirmed (by rw [hstatus]; nofun) (by rw [hstatus]; nofun)
  succeeded := nofun
  refused := nofun
  faulty := h.faulty.trans (by simp [hstatus, submittedAs])

theorem refusal (h : piece.Shaped sectors) {message : String} {now : Instant}
    (hstatus : piece.status = .uploaded) (hset : piece.proofSet.isSome) :
    (piece.refusedWith message now).Shaped sectors where
  prepared := nofun
  committed _ := h.committed (by rw [hstatus]; nofun)
  claimed := h.claimed
  submitted := nofun
  unsubmitted _ := h.unsubmitted (Or.inl hstatus)
  unconfirmed _ _ := h.unconfirmed (by rw [hstatus]; nofun) (by rw [hstatus]; nofun)
  succeeded := nofun
  refused _ := hset
  faulty := by simp [refusedWith]

theorem settlement (h : piece.Shaped sectors) {record : TransactionRecord} {now : Instant}
    {settled : Piece} {finding : Finding} (hstatus : piece.status = .pending)
    (hsettle : piece.settle record now = (settled, .ok finding))
    (hfinding : finding = .added ∨ finding = .failed) : settled.Shaped sectors := by
  have hcommitted := h.committed (by rw [hstatus]; nofun)
  have hsubmitted := h.submitted (Or.inl hstatus)
  rcases settle_final_cases hsettle hfinding with ⟨-, -, hsuccess, rfl⟩ | ⟨-, -, message, rfl⟩
  · exact {
      prepared := nofun
      committed := fun _ ↦ hcommitted
      claimed := h.claimed
      submitted := fun _ ↦ hsubmitted
      unsubmitted := nofun
      unconfirmed := fun hne _ ↦ absurd rfl hne
      succeeded := fun _ ↦ hsuccess
      refused := nofun
      faulty := h.faulty.trans (by simp [hstatus, settledAs]) }
  · exact {
      prepared := nofun
      committed := fun _ ↦ hcommitted
      claimed := h.claimed
      submitted := fun _ ↦ hsubmitted
      unsubmitted := nofun
      unconfirmed := fun _ hne ↦ absurd rfl hne
      succeeded := nofun
      refused := nofun
      faulty := by simp [settledAs] }

end Shaped

end Piece

namespace Chronicle

variable {c c' : Chronicle} {piece next : Piece}

/-- Some call was asked of a manager with sectors of a size. -/
def Sectors (c : Chronicle) (size : UInt64) : Prop :=
  ∃ entry ∈ c.log, entry.job.manager.sectorSize = size

/-- The next version of a piece fits its status. -/
theorem Advances.shaped (h : c.Advances piece next) (hpiece : piece.Shaped c.Sectors) :
    next.Shaped c.Sectors := by
  cases h with
  | upload _ _ hcheck hcommitted => exact hpiece.upload hcheck hcommitted
  | claim hclaimed hintends =>
    exact hpiece.claim hintends.free hintends.rooted ⟨_, hclaimed, rfl⟩
  | submission _ howns hheld _ =>
    exact hpiece.submission (howns.status_of_held hheld) (by rw [hheld]; rfl)
  | refusal _ howns hheld _ =>
    exact hpiece.refusal (howns.status_of_held hheld) (by rw [hheld]; rfl)
  | settlement _ _ hpending _ _ hsettle hfinding =>
    exact hpiece.settlement hpending hsettle hfinding

theorem Reachable.shaped (hc : c.Reachable) :
    ∀ row ∈ c.rows, ∃ piece, row = .ofPiece piece ∧ piece.Shaped c.Sectors := by
  refine hc.forall_piece (fun c piece ↦ piece.Shaped c.Sectors) (fun _ _ _ _ _ hsize ↦ .prepare hsize)
    ?_ ?_
  · intro c c' piece hstep hpiece
    refine hpiece.mono fun size ⟨entry, hentry, hsize⟩ ↦ ⟨entry, ?_, hsize⟩
    exact hstep.log_subset hentry
  · intro c piece next _ hpiece hadvances
    exact hadvances.shaped hpiece

end Chronicle

namespace Run

variable {s : State} {size : UInt64}

/-- In every run of managers whose sectors have one size, the columns of every row fit its
status. -/
theorem rows_shaped (hs : Reachable s)
    (hsectors : ∀ entry ∈ s.log, entry.job.manager.sectorSize = size) :
    ∀ row ∈ s.store.table.rows, ∃ piece, row = .ofPiece piece ∧ piece.Shaped (· = size) := by
  intro row hrow
  obtain ⟨piece, hpiece, hshaped⟩ := hs.chronicle.shaped row hrow
  refine ⟨piece, hpiece, hshaped.mono ?_⟩
  rintro _ ⟨entry, hentry, rfl⟩
  exact hsectors entry hentry

/-- The row of a piece that the ledger took fits its status. -/
theorem submitted_row_is_shaped :
    ∃ s piece, Reachable s ∧ (∀ entry ∈ s.log, entry.job.manager.sectorSize = 128) ∧
      .ofPiece piece ∈ s.store.table.rows ∧ piece.status = .pending ∧ piece.Shaped (· = 128) := by
  obtain ⟨s, hs, htable⟩ := exists_submitted "a" .single rfl 7 "hash"
  have hsectors : ∀ entry ∈ s.log, entry.job.manager.sectorSize = 128 := fun entry hentry ↦
    congrArg Manager.sectorSize (hs.managers entry hentry)
  have hrow : s.row? 0 = some _ := congrArg (fun table : Table ↦ table.rows[0]?) htable
  have hmem := List.mem_of_getElem? hrow
  obtain ⟨piece, hpiece, hshaped⟩ := rows_shaped hs.reachable hsectors _ hmem
  obtain rfl := Row.ofPiece_injective hpiece
  exact ⟨s, _, hs.reachable, hsectors, hmem, rfl, hshaped⟩

end Run

end PieceKeeper
