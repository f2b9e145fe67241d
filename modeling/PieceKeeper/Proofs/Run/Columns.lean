import PieceKeeper.Proofs.Run.Shapes

/-!
# Columns that are written once

A version of a piece fills columns that were empty and leaves the others as they are, apart from the
status and the time of the last change.  So what a row has once said it says for good, whoever
writes it later and however long ago the writer has read it.
-/

namespace PieceKeeper

namespace Row

/-- The columns that a row is created with. -/
def fixed : List (Row → Cell) := [id, sourcePath, createdAt]

/-- The columns that are filled once. -/
def filledOnce : List (Row → Cell) :=
  [rawSize, paddedSize, pieceSize, digest, contentId, proofSet, rootCid, transaction, submittedAt,
    errorMessage, txSuccess, confirmedBlock, confirmedTxHash, receipt]

/-- Nothing that a row says is cleared or replaced. -/
structure Keeps (row later : Row) : Prop where
  fixed : ∀ column ∈ fixed, column later = column row
  filled : ∀ column ∈ filledOnce, column row ≠ .null → column later = column row

variable {row later latest : Row}

theorem Keeps.refl (row : Row) : row.Keeps row := ⟨fun _ _ ↦ rfl, fun _ _ _ ↦ rfl⟩

theorem Keeps.trans (h : row.Keeps later) (h' : later.Keeps latest) : row.Keeps latest where
  fixed column hcolumn := (h'.fixed column hcolumn).trans (h.fixed column hcolumn)
  filled column hcolumn hfilled := by
    have hsame := h.filled column hcolumn hfilled
    rw [h'.filled column hcolumn (by rwa [hsame]), hsame]

/-! ## What a version fills -/

variable {piece : Piece} {sectors : UInt64 → Prop}

/-- The size of the content is the one that was announced, and all else that an upload writes was
empty. -/
theorem keeps_uploadedAs (h : piece.Shaped sectors) {id : String} {size : UInt64}
    {committed : CommittedPiece} {now : Instant}
    (hcheck : Operation.checkContent piece id size = .ok ()) :
    (ofPiece piece).Keeps (.ofPiece (piece.uploadedAs size committed now)) := by
  obtain ⟨_, path, announced, created, rfl, -⟩ :=
    h.prepared (Operation.status_of_checkContent hcheck)
  constructor
  · simp [fixed, ofPiece, Piece.uploadedAs, Piece.withContent, Piece.prepare]
  · cases announced with
    | none =>
      simp [filledOnce, ofPiece, Piece.uploadedAs, Piece.withContent, Piece.prepare, Cell.ofSize?,
        Cell.ofText?]
    | some declared =>
      rw [Operation.rawSize_of_checkContent hcheck (rfl : _ = some declared)]
      simp [filledOnce, ofPiece, Piece.uploadedAs, Piece.withContent, Piece.prepare, Cell.ofSize?,
        Cell.ofText?]

theorem keeps_heldFor (h : piece.Shaped sectors) {proofSet : UInt64} {rootCid : String}
    {now : Instant} (hfree : Operation.checkFree piece = .ok ()) :
    (ofPiece piece).Keeps (.ofPiece (piece.heldFor proofSet rootCid now)) := by
  obtain ⟨-, hset⟩ := Operation.checkFree_eq_ok.mp hfree
  have hroot : piece.rootCid = none := by simpa [hset] using h.claimed
  constructor
  · simp [fixed, ofPiece, Piece.heldFor, Piece.claimedFor]
  · simp [filledOnce, ofPiece, Piece.heldFor, Piece.claimedFor, hset, hroot, Cell.ofSize?,
      Cell.ofText?]

theorem keeps_submittedAs (h : piece.Shaped sectors) {hash : String} {submitted now : Instant}
    (hstatus : piece.status = .uploaded) :
    (ofPiece piece).Keeps (.ofPiece (piece.submittedAs hash submitted now)) := by
  obtain ⟨htransaction, hsubmitted⟩ := h.unsubmitted (Or.inl hstatus)
  constructor
  · simp [fixed, ofPiece, Piece.submittedAs]
  · simp [filledOnce, ofPiece, Piece.submittedAs, htransaction, hsubmitted, Cell.ofText?,
      Cell.ofInstant?]

theorem keeps_refusedWith (h : piece.Shaped sectors) {message : String} {now : Instant}
    (hstatus : piece.status = .uploaded) :
    (ofPiece piece).Keeps (.ofPiece (piece.refusedWith message now)) := by
  have hfaultless : piece.errorMessage = none := by simpa [hstatus] using h.faulty
  constructor
  · simp [fixed, ofPiece, Piece.refusedWith]
  · simp [filledOnce, ofPiece, Piece.refusedWith, hfaultless, Cell.ofText?]

theorem keeps_settledAs (h : piece.Shaped sectors) {record : TransactionRecord} {status : Status}
    {message : Option String} {now : Instant} (hpending : piece.status = .pending) :
    (ofPiece piece).Keeps (.ofPiece (piece.settledAs record status message now)) := by
  have hfaultless : piece.errorMessage = none := by simpa [hpending] using h.faulty
  obtain ⟨hsuccess, hblock, hhash, hreceipt⟩ :=
    h.unconfirmed (by simp [hpending]) (by simp [hpending])
  constructor
  · simp [fixed, ofPiece, Piece.settledAs, Piece.copyConfirmation]
  · simp [filledOnce, ofPiece, Piece.settledAs, Piece.copyConfirmation, hsuccess, hblock, hhash,
      hreceipt, hfaultless, Cell.ofText?, Cell.ofBool?, Cell.ofInt64?, Cell.ofBytes?]

end Row

namespace Chronicle

variable {c c' : Chronicle} {piece next : Piece} {sectors : UInt64 → Prop}

/-- The next version of a piece fills only what was empty. -/
theorem Advances.keeps (h : c.Advances piece next) (hpiece : piece.Shaped sectors) :
    (Row.ofPiece piece).Keeps (.ofPiece next) := by
  cases h with
  | upload _ _ hcheck _ => exact Row.keeps_uploadedAs hpiece hcheck
  | claim _ hintends => exact Row.keeps_heldFor hpiece hintends.free
  | submission _ howns hheld _ => exact Row.keeps_submittedAs hpiece (howns.status_of_held hheld)
  | refusal _ howns hheld _ => exact Row.keeps_refusedWith hpiece (howns.status_of_held hheld)
  | settlement _ _ hpending _ _ hsettle hfinding =>
    rcases Piece.settle_final_cases hsettle hfinding with ⟨-, -, -, rfl⟩ | ⟨-, -, message, rfl⟩
    · exact Row.keeps_settledAs hpiece hpending
    · exact Row.keeps_settledAs hpiece hpending

/-- A row keeps what it says. -/
theorem Reaches.keeps (hc : c.Reachable) (h : c.Reaches c') {i : Nat} {row : Row}
    (hrow : c.rows[i]? = some row) : ∃ later, c'.rows[i]? = some later ∧ row.Keeps later := by
  induction h with
  | refl => exact ⟨row, hrow, .refl row⟩
  | @tail d d' hreaches hstep ih =>
    obtain ⟨middle, hmiddle, hkeeps⟩ := ih
    have hd : d.Reachable := Relation.ReflTransGen.trans hc hreaches
    obtain ⟨piece, rfl, hshaped⟩ := hd.shaped middle (List.mem_of_getElem? hmiddle)
    obtain ⟨next, hnext, rfl | hadvances⟩ := hd.versioned.advances hd hstep.rows hmiddle
    · exact ⟨_, hnext, hkeeps⟩
    · exact ⟨_, hnext, hkeeps.trans (hadvances.keeps hshaped)⟩

end Chronicle

namespace Run

variable {s s' : State}

/-- No write is lost.  A row keeps its id, its source and its time of creation, and each of the
other columns, apart from the status and the time of the last change, keeps what it once says: in
every run of any number of managers, whatever fails or is given up.  In particular a claim that was
granted stays in its row. -/
theorem columns_filled_once (hs : Reachable s) (h : Reaches s s') :
    (∀ i row, s.row? i = some row → ∃ later, s'.row? i = some later ∧ row.Keeps later) ∧
    ∀ ticket id proofSet rootCid, (s.log.of ticket).Claimed id proofSet rootCid →
      ∃ row ∈ s'.store.table.rows, row.id = .text id ∧ row.proofSet = .ofSize? (some proofSet) ∧
        row.rootCid = .text rootCid := by
  have hreaches := h.chronicle hs.lawful
  have hs' : Reachable s' := Relation.ReflTransGen.trans hs h
  refine ⟨fun i row hrow ↦ hreaches.keeps hs.chronicle hrow, ?_⟩
  intro ticket id proofSet rootCid hclaimed
  obtain ⟨piece, hpiece, rfl, hheld⟩ := hs'.chronicle.versioned.claims ticket id proofSet rootCid
    (hclaimed.mono (hreaches.of_subset ticket))
  exact ⟨_, hpiece, rfl, congrArg Cell.ofSize? hheld.proofSet, congrArg Cell.ofText? hheld.rootCid⟩

/-- A piece that is added keeps what its row said before. -/
theorem added_row_keeps :
    ∃ s s' row later, Reachable s ∧ Reaches s s' ∧ s.row? 0 = some row ∧ row.At .pending ∧
      s'.row? 0 = some later ∧ later.At .added ∧ row.Keeps later := by
  obtain ⟨s, s', hs, htable, hreaches, -, htable'⟩ := exists_added "a" .single rfl 7 "hash"
  have hrow : s.row? 0 = some _ := congrArg (fun table : Table ↦ table.rows[0]?) htable
  have hrow' : s'.row? 0 = some _ := congrArg (fun table : Table ↦ table.rows[0]?) htable'
  obtain ⟨hkeeps, -⟩ := columns_filled_once hs.reachable hreaches
  obtain ⟨later, hlater, hkept⟩ := hkeeps 0 _ hrow
  cases hrow'.symm.trans hlater
  exact ⟨s, s', _, _, hs.reachable, hreaches, hrow, rfl, hrow', rfl, hkept⟩

end Run

end PieceKeeper
