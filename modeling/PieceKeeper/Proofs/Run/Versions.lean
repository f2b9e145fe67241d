import PieceKeeper.Proofs.Run.Submission

/-!
# The versions of a piece

Every row is the row of a piece, and what happens to a row takes its piece to the next version.  A
call writes the whole of a piece that it has read some time ago.  Since then the piece may have been
claimed, which leaves its status alone, or its status may have risen.  An update expects the status
that was read, so the piece can only have been claimed, and then by the writer itself.  So each
write continues the piece as it is, not as it was.
-/

namespace PieceKeeper

/-! ## How a piece ages -/

namespace Piece

/-- A claimed piece, as its row has it. -/
def heldFor (piece : Piece) (proofSet : UInt64) (rootCid : String) (now : Instant) : Piece :=
  { piece.claimedFor proofSet rootCid with updatedAt := now }

/-- What can have become of a piece that was read. -/
inductive Ages (piece : Piece) : Piece → Prop
  | same : Ages piece piece
  | claimed {proofSet : UInt64} {rootCid : String} {now : Instant} :
    Operation.checkFree piece = .ok () → Ages piece (piece.heldFor proofSet rootCid now)
  | moved {later : Piece} : piece.status.rank < later.status.rank → Ages piece later

/-- A piece carries a claim. -/
structure Claimed (piece : Piece) (proofSet : UInt64) (rootCid : String) : Prop where
  uploaded : piece.status ≠ .prepared
  proofSet : piece.proofSet = some proofSet
  rootCid : piece.rootCid = some rootCid

variable {piece later : Piece}

theorem Ages.rank_le (h : piece.Ages later) : piece.status.rank ≤ later.status.rank := by
  cases h with
  | same => exact Nat.le_refl _
  | claimed _ => exact Nat.le_refl _
  | moved hlt => exact Nat.le_of_lt hlt

/-- While its status is the same, a piece can only be claimed. -/
theorem Ages.eq_or_held (h : piece.Ages later) (hstatus : later.status = piece.status) :
    later = piece ∨ Operation.checkFree piece = .ok () ∧
      ∃ proofSet rootCid now, later = piece.heldFor proofSet rootCid now := by
  cases h with
  | same => exact Or.inl rfl
  | claimed hfree => exact Or.inr ⟨hfree, _, _, _, rfl⟩
  | moved hlt => exact absurd hlt (by rw [hstatus]; exact Nat.lt_irrefl _)

/-- A piece that cannot be claimed does not change without its status. -/
theorem Ages.eq (h : piece.Ages later) (hstatus : later.status = piece.status)
    (hfree : piece.status ≠ .uploaded) : later = piece :=
  (h.eq_or_held hstatus).resolve_right fun ⟨hcheck, _⟩ ↦
    hfree (Operation.checkFree_eq_ok.mp hcheck).1

end Piece

namespace Row

variable {piece written : Piece}

/-- A row takes over all of a piece that has its id and its time of creation. -/
theorem takeOver_ofPiece (hid : written.id = piece.id) (hcreated : written.createdAt = piece.createdAt) :
    (ofPiece piece).takeOver (ofPiece written) = ofPiece written := by
  simp only [takeOver, ofPiece, hid, hcreated]

theorem at_ofPiece {status : Status} (h : (ofPiece piece).At status) : piece.status = status :=
  Status.name_injective (Cell.text.inj h)

theorem checkFree_of_isFree {id : String} (h : (ofPiece piece).IsFree id) :
    Operation.checkFree piece = .ok () :=
  Operation.checkFree_eq_ok.mpr ⟨at_ofPiece h.1.2,
    Cell.ofSize?_injective (h.2.1.trans (rfl : Cell.null = .ofSize? none))⟩

end Row

theorem Job.Owns.status_of_held {job : Job} {history : History} {id rootCid : String}
    {proofSet : UInt64} {piece found : Piece} {root : Root} {now : Instant}
    (h : job.Owns history id proofSet found root) (hheld : piece = found.heldFor proofSet rootCid now) :
    piece.status = .uploaded := by
  rw [hheld]
  exact (Operation.checkFree_eq_ok.mp h.free).1

namespace Chronicle

/-! ## How a piece goes on -/

/-- An update was made. -/
def Updated (c : Chronicle) (ticket : Nat) (job : Job) (piece : Piece) (expected : Status) : Prop :=
  ⟨ticket, job, .answered (.table (.update piece expected)) (.ok true)⟩ ∈ c.log

/-- The next version of a piece, and what is known to the call that made it. -/
inductive Advances (c : Chronicle) (piece : Piece) : Piece → Prop
  | upload {ticket : Nat} {job : Job} {body : Bytes} {committed : CommittedPiece} {now : Instant} :
    c.Updated ticket job (piece.uploadedAs (UInt64.ofNat body.length) committed now) .prepared →
    job.task.Offers (c.log.of ticket) piece.id body →
    Operation.checkContent piece piece.id (UInt64.ofNat body.length) = .ok () →
    CommittedPiece.ofContent body = .ok committed →
    Advances c piece (piece.uploadedAs (UInt64.ofNat body.length) committed now)
  | claim {ticket : Nat} {job : Job} {proofSet : UInt64} {root : Root} {now : Instant} :
    ⟨ticket, job, .answered (.table (.claim piece.id proofSet root.rootCid now)) (.ok true)⟩ ∈ c.log →
    job.Intends (c.log.of ticket) piece.id proofSet piece root →
    Advances c piece (piece.heldFor proofSet root.rootCid now)
  | submission {ticket : Nat} {job : Job} {proofSet : UInt64} {found : Piece} {root : Root}
      {hash : String} {claimed submitted now : Instant} :
    c.Updated ticket job (piece.submittedAs hash submitted now) .uploaded →
    job.Owns (c.log.of ticket) piece.id proofSet found root →
    piece = found.heldFor proofSet root.rootCid claimed →
    .answered (.submit proofSet root) (.ok hash) ∈ c.log.of ticket →
    Advances c piece (piece.submittedAs hash submitted now)
  | refusal {ticket : Nat} {job : Job} {proofSet : UInt64} {found : Piece} {root : Root}
      {fault : Fault} {claimed now : Instant} :
    c.Updated ticket job (piece.refusedWith (Operation.refusalMessage proofSet fault) now) .uploaded →
    job.Owns (c.log.of ticket) piece.id proofSet found root →
    piece = found.heldFor proofSet root.rootCid claimed →
    .answered (.submit proofSet root) (.error fault) ∈ c.log.of ticket →
    Advances c piece (piece.refusedWith (Operation.refusalMessage proofSet fault) now)
  | settlement {ticket : Nat} {job : Job} {hash : String} {settled : Piece}
      {record : TransactionRecord} {now : Instant} {finding : Finding} :
    c.Updated ticket job settled .pending → job.task.Watches → piece.status = .pending →
    piece.transaction = some hash →
    .answered (.lookup hash) (.ok (some record)) ∈ c.log.of ticket →
    piece.settle record now = (settled, .ok finding) → finding = .added ∨ finding = .failed →
    Advances c piece settled

variable {c c' : Chronicle} {piece next : Piece}

/-- Only a claim leaves the status as it is. -/
theorem Advances.claim_or_rank_lt (h : c.Advances piece next) :
    (Operation.checkFree piece = .ok () ∧
      ∃ proofSet rootCid now, next = piece.heldFor proofSet rootCid now) ∨
    piece.status.rank < next.status.rank := by
  cases h with
  | upload _ _ hcheck _ =>
    rw [Operation.status_of_checkContent hcheck]
    exact Or.inr (Status.rank_lt_of_canMove (rfl : Status.canMove .prepared .uploaded = true))
  | claim _ hintends => exact Or.inl ⟨hintends.free, _, _, _, rfl⟩
  | submission _ howns heq _ =>
    rw [howns.status_of_held heq]
    exact Or.inr (Status.rank_lt_of_canMove (rfl : Status.canMove .uploaded .pending = true))
  | refusal _ howns heq _ =>
    rw [howns.status_of_held heq]
    exact Or.inr (Status.rank_lt_of_canMove (rfl : Status.canMove .uploaded .error = true))
  | settlement _ _ _ _ _ hsettle hfinding =>
    exact Or.inr (Status.rank_lt_of_canMove (Piece.settle_eq_ok hsettle hfinding).1)

theorem Advances.id_eq (h : c.Advances piece next) : next.id = piece.id := by
  cases h with
  | settlement _ _ _ _ _ hsettle hfinding => exact (Piece.settle_eq_ok hsettle hfinding).2.1
  | upload _ _ _ _ | claim _ _ | submission _ _ _ _ | refusal _ _ _ _ => rfl

/-- What was read of a piece stays behind its versions. -/
theorem Advances.ages {found : Piece} (h : c.Advances piece next) (hages : found.Ages piece) :
    found.Ages next := by
  rcases h.claim_or_rank_lt with ⟨hfree, proofSet, rootCid, now, rfl⟩ | hlt
  · cases hages with
    | same => exact .claimed hfree
    | claimed _ => cases (Operation.checkFree_eq_ok.mp hfree).2
    | moved hlt => exact .moved hlt
  · exact .moved (Nat.lt_of_le_of_lt hages.rank_le hlt)

/-- A claim stays in the piece. -/
theorem Advances.claimed (h : c.Advances piece next) {proofSet : UInt64} {rootCid : String}
    (hclaimed : piece.Claimed proofSet rootCid) : next.Claimed proofSet rootCid := by
  obtain ⟨hstatus, hset, hroot⟩ := hclaimed
  cases h with
  | upload _ _ hcheck _ => exact absurd (Operation.status_of_checkContent hcheck) hstatus
  | claim _ hintends =>
    rw [(Operation.checkFree_eq_ok.mp hintends.free).2] at hset
    cases hset
  | submission _ _ _ _ | refusal _ _ _ _ => exact ⟨nofun, hset, hroot⟩
  | settlement _ _ _ _ _ hsettle hfinding =>
    rcases Piece.settle_final_cases hsettle hfinding with ⟨-, -, -, rfl⟩ | ⟨-, -, message, rfl⟩
    · exact ⟨nofun, hset, hroot⟩
    · exact ⟨nofun, hset, hroot⟩

/-! ## Reads and claims -/

/-- Every row is the row of a piece; what was read is behind it, and what was claimed is in it. -/
structure Versioned (c : Chronicle) : Prop where
  pieces : ∀ row ∈ c.rows, ∃ piece, row = .ofPiece piece
  reads : ∀ ticket id found, (c.log.of ticket).Found id found →
    ∃ piece, .ofPiece piece ∈ c.rows ∧ piece.id = id ∧ found.Ages piece
  claims : ∀ ticket id proofSet rootCid, (c.log.of ticket).Claimed id proofSet rootCid →
    ∃ piece, .ofPiece piece ∈ c.rows ∧ piece.id = id ∧ piece.Claimed proofSet rootCid

theorem HasIds.piece_unique (hc : c.HasIds) {other : Piece} (hpiece : .ofPiece piece ∈ c.rows)
    (hother : .ofPiece other ∈ c.rows) (hid : piece.id = other.id) : piece = other :=
  Row.ofPiece_injective (hc.row_unique hpiece hother (congrArg Cell.text hid))

namespace Versioned

variable {ticket : Nat} {job : Job} {history : History} {written : Piece} {expected : Status}

theorem ages (hc : c.Reachable) (hv : c.Versioned) {id : String} {found : Piece}
    (hfound : (c.log.of ticket).Found id found) (hpiece : .ofPiece piece ∈ c.rows)
    (hid : piece.id = found.id) : found.Ages piece := by
  obtain ⟨other, hother, hotherId, hages⟩ := hv.reads ticket id found hfound
  have hsame : piece.id = other.id := by rw [hid, hc.id_of_found hfound, hotherId]
  rwa [hc.hasIds.piece_unique hpiece hother hsame]

theorem claimed (hc : c.Reachable) (hv : c.Versioned) {id rootCid : String} {proofSet : UInt64}
    (hclaimed : (c.log.of ticket).Claimed id proofSet rootCid) (hpiece : .ofPiece piece ∈ c.rows)
    (hid : piece.id = id) : piece.Claimed proofSet rootCid := by
  obtain ⟨other, hother, hotherId, hheld⟩ := hv.claims ticket id proofSet rootCid hclaimed
  rwa [hc.hasIds.piece_unique hpiece hother (hid.trans hotherId.symm)]

/-- The piece of an owner is the one that it found, with its claim. -/
theorem held (hc : c.Reachable) (hv : c.Versioned) {name : String} {proofSet : UInt64} {found : Piece}
    {root : Root} (howns : job.Owns (c.log.of ticket) name proofSet found root)
    (hpiece : .ofPiece piece ∈ c.rows) (hid : piece.id = found.id) (hstatus : piece.status = .uploaded) :
    ∃ now, piece = found.heldFor proofSet root.rootCid now := by
  obtain ⟨hfoundStatus, hunclaimed⟩ := Operation.checkFree_eq_ok.mp howns.free
  obtain ⟨-, hset, hroot⟩ := hv.claimed hc howns.claimed hpiece hid
  rcases (hv.ages hc howns.found hpiece hid).eq_or_held (hstatus.trans hfoundStatus.symm) with
    rfl | ⟨-, proofSet', rootCid', now, rfl⟩
  · rw [hunclaimed] at hset
    cases hset
  · cases hset
    cases hroot
    exact ⟨now, rfl⟩

/-- An update writes the next version of the piece. -/
theorem update (hc : c.Reachable) (hv : c.Versioned) (hsub : c.log.of ticket ⊆ c'.log.of ticket)
    (hhistory : history ⊆ c.log.of ticket) (hwrites : job.Writes history written expected)
    (hupdated : c'.Updated ticket job written expected) (hpiece : .ofPiece piece ∈ c.rows)
    (his : (Row.ofPiece piece).Is written.id expected) :
    (Row.ofPiece piece).takeOver (Row.ofPiece written) = .ofPiece written ∧
      c'.Advances piece written := by
  have hid : piece.id = written.id := Cell.text.inj his.1
  have hstatus : piece.status = expected := Row.at_ofPiece his.2
  cases hwrites with
  | @upload id body found committed now hoffers hfound hcheck hcommitted _ =>
    have hlogged := hfound.mono hhistory
    obtain rfl : piece = found := (hv.ages hc hlogged hpiece hid).eq
      (hstatus.trans (Operation.status_of_checkContent hcheck).symm) (by
        rw [Operation.status_of_checkContent hcheck]
        nofun)
    obtain rfl := hc.id_of_found hlogged
    exact ⟨Row.takeOver_ofPiece rfl rfl, .upload hupdated
      ((hoffers.mono hhistory).mono hsub) hcheck hcommitted⟩
  | submission howns hanswer =>
    have howns := howns.mono hhistory
    obtain ⟨claimed, rfl⟩ := hv.held hc howns hpiece hid hstatus
    obtain rfl := hc.id_of_found howns.found
    exact ⟨Row.takeOver_ofPiece rfl rfl, .submission hupdated (howns.mono hsub) rfl
      (hsub (hhistory hanswer))⟩
  | refusal howns hanswer =>
    have howns := howns.mono hhistory
    obtain ⟨claimed, rfl⟩ := hv.held hc howns hpiece hid hstatus
    obtain rfl := hc.id_of_found howns.found
    exact ⟨Row.takeOver_ofPiece rfl rfl, .refusal hupdated (howns.mono hsub) rfl
      (hsub (hhistory hanswer))⟩
  | settlement hfound hpending htransaction hlookup hsettle hfinding hwatches =>
    obtain ⟨-, hsame, -⟩ := Piece.settle_eq_ok hsettle hfinding
    obtain rfl := (hv.ages hc (hfound.mono hhistory) hpiece (hid.trans hsame)).eq
      (hstatus.trans hpending.symm) (by rw [hpending]; nofun)
    refine ⟨Row.takeOver_ofPiece hsame ?_, .settlement hupdated hwatches hpending htransaction
      (hsub (hhistory hlookup)) hsettle hfinding⟩
    rcases Piece.settle_final_cases hsettle hfinding with ⟨-, -, -, rfl⟩ | ⟨-, -, message, rfl⟩
    · rfl
    · rfl

/-- A claim takes the piece that the claimer has read. -/
theorem claim (hc : c.Reachable) (hv : c.Versioned) (hsub : c.log.of ticket ⊆ c'.log.of ticket)
    (hhistory : history ⊆ c.log.of ticket) {name : String} {proofSet : UInt64} {found : Piece}
    {root : Root} {now : Instant} (hintends : job.Intends history name proofSet found root)
    (hclaimed : ⟨ticket, job, .answered (.table (.claim found.id proofSet root.rootCid now))
      (.ok true)⟩ ∈ c'.log) (hpiece : .ofPiece piece ∈ c.rows)
    (hfree : (Row.ofPiece piece).IsFree found.id) :
    c'.Advances piece (piece.heldFor proofSet root.rootCid now) := by
  have hintends := hintends.mono hhistory
  obtain ⟨hstatus, hunclaimed⟩ := Operation.checkFree_eq_ok.mp (Row.checkFree_of_isFree hfree)
  obtain ⟨hfoundStatus, -⟩ := Operation.checkFree_eq_ok.mp hintends.free
  have hages := hv.ages hc hintends.found hpiece (Cell.text.inj hfree.1.1)
  rcases hages.eq_or_held (hstatus.trans hfoundStatus.symm) with rfl | ⟨-, _, _, _, rfl⟩
  · obtain rfl := hc.id_of_found hintends.found
    exact .claim hclaimed (hintends.mono hsub)
  · cases hunclaimed

/-- A step leaves the piece of a row as it is, or takes it to its next version. -/
theorem advances (hc : c.Reachable) (hv : c.Versioned) (h : c.RowStep c') {i : Nat}
    (hrow : c.rows[i]? = some (.ofPiece piece)) :
    ∃ next, c'.rows[i]? = some (.ofPiece next) ∧ (next = piece ∨ c'.Advances piece next) := by
  have hpiece : .ofPiece piece ∈ c.rows := List.mem_of_getElem? hrow
  have hsub := h.of_subset
  cases h with
  | quiet _ hrows _ _ => exact ⟨piece, hrows ▸ hrow, Or.inl rfl⟩
  | insert _ hrows _ _ =>
    refine ⟨piece, ?_, Or.inl rfl⟩
    rw [hrows, List.getElem?_append_left (List.getElem?_eq_some_iff.mp hrow).1, hrow]
  | @update ticket job history written expected hasked hwrites _ hrows hlog =>
    rw [hrows, List.getElem?_map, hrow]
    by_cases his : (Row.ofPiece piece).Is written.id expected
    · have hupdated : c'.Updated ticket job written expected := by
        rw [Updated, hlog]
        exact List.mem_cons_self
      obtain ⟨hwritten, hadvances⟩ := hv.update hc (hsub _) (hasked ▸ List.subset_cons_self _ _)
        hwrites hupdated hpiece his
      exact ⟨_, congrArg some ((if_pos his).trans hwritten), Or.inr hadvances⟩
    · exact ⟨piece, congrArg some (if_neg his), Or.inl rfl⟩
  | @claim ticket job history name proofSet found root now hasked hintends _ hrows hlog =>
    rw [hrows, List.getElem?_map, hrow]
    by_cases hfree : (Row.ofPiece piece).IsFree found.id
    · exact ⟨_, congrArg some (if_pos hfree), Or.inr (hv.claim hc (hsub _)
        (hasked ▸ List.subset_cons_self _ _) hintends (hlog ▸ List.mem_cons_self) hpiece hfree)⟩
    · exact ⟨piece, congrArg some (if_neg hfree), Or.inl rfl⟩

/-- What holds of a piece and of its next version holds of some row behind a step. -/
theorem mem_of_step (hc : c.Reachable) (hv : c.Versioned) (h : c.RowStep c') {P : Piece → Prop}
    (hP : P piece) (hnext : ∀ next, c'.Advances piece next → P next)
    (hpiece : .ofPiece piece ∈ c.rows) :
    ∃ next, .ofPiece next ∈ c'.rows ∧ next.id = piece.id ∧ P next := by
  obtain ⟨i, hi⟩ := List.getElem?_of_mem hpiece
  obtain ⟨next, hmem, rfl | hadvances⟩ := hv.advances hc h hi
  · exact ⟨next, List.mem_of_getElem? hmem, rfl, hP⟩
  · exact ⟨next, List.mem_of_getElem? hmem, hadvances.id_eq, hnext next hadvances⟩

end Versioned

/-- A row is new, or it is where a row was. -/
theorem RowStep.origin (h : c.RowStep c') {row' : Row} (hrow : row' ∈ c'.rows) :
    (∃ id path size now, row' = .ofPiece (.prepare id path size now) ∧ size ≠ some 0) ∨
      ∃ (i : Nat) (row : Row), c.rows[i]? = some row ∧ c'.rows[i]? = some row' := by
  obtain ⟨i, hi⟩ := List.getElem?_of_mem hrow
  rcases Nat.lt_or_ge i c.rows.length with hlt | hle
  · exact Or.inr ⟨i, c.rows[i], List.getElem?_eq_getElem hlt, hi⟩
  · cases h with
    | quiet _ hrows _ _ => rw [hrows, List.getElem?_eq_none hle] at hi; cases hi
    | insert _ hrows _ hsize =>
      rw [hrows, List.getElem?_append_right hle] at hi
      exact Or.inl ⟨_, _, _, _, List.mem_singleton.mp (List.mem_of_getElem? hi), hsize⟩
    | update _ _ _ hrows _ | claim _ _ _ hrows _ =>
      rw [hrows, List.getElem?_eq_none (by rwa [List.length_map])] at hi
      cases hi

/-- A piece is new, or it is what a step has made of a piece. -/
theorem Versioned.origin (hc : c.Reachable) (hv : c.Versioned) (h : c.RowStep c') {row : Row}
    (hrow : row ∈ c'.rows) :
    (∃ id path size now, row = .ofPiece (.prepare id path size now) ∧ size ≠ some 0) ∨
      ∃ piece next, .ofPiece piece ∈ c.rows ∧ row = .ofPiece next ∧
        (next = piece ∨ c'.Advances piece next) := by
  refine (h.origin hrow).imp_right fun ⟨i, old, hold, hnew⟩ ↦ ?_
  obtain ⟨piece, rfl⟩ := hv.pieces old (List.mem_of_getElem? hold)
  obtain ⟨next, hnext, hadvances⟩ := hv.advances hc h hold
  exact ⟨piece, next, List.mem_of_getElem? hold, Option.some.inj (hnew.symm.trans hnext), hadvances⟩

/-- A claim that is in the log was there before, or it has just been granted. -/
theorem RowStep.claimed (h : c.RowStep c') {ticket : Nat} {id rootCid : String} {proofSet : UInt64}
    (hclaimed : (c'.log.of ticket).Claimed id proofSet rootCid) :
    (c.log.of ticket).Claimed id proofSet rootCid ∨
      ∃ now, (∃ row ∈ c.rows, row.IsFree id) ∧ c'.rows = c.rows.map fun row ↦
        if row.IsFree id then row.claimed proofSet rootCid now else row := by
  obtain ⟨now, hmem⟩ := hclaimed
  have hentry {entry : Entry} (hlog : c'.log = entry :: c.log) :
      (entry.event = .answered (.table (.claim id proofSet rootCid now)) (.ok true)) ∨
        (c.log.of ticket).Claimed id proofSet rootCid := by
    rw [hlog] at hmem
    exact (Log.mem_of_cons hmem).imp (·.2) fun hold ↦ ⟨now, hold⟩
  cases h with
  | quiet new _ hlog hquiet =>
    rw [hlog, Log.of_append, List.mem_append] at hmem
    rcases hmem with hnew | hold
    · obtain ⟨job, hnew⟩ := Log.mem_of.mp hnew
      exact absurd rfl (hquiet _ hnew)
    · exact Or.inl ⟨now, hold⟩
  | insert _ _ hlog _ => exact Or.inl ((hentry hlog).resolve_left nofun)
  | update _ _ _ _ hlog => exact Or.inl ((hentry hlog).resolve_left nofun)
  | claim _ _ hfree hrows hlog =>
    rcases hentry hlog with heq | hold
    · cases heq
      exact Or.inr ⟨_, hfree, hrows⟩
    · exact Or.inl hold

theorem Versioned.step (hc : c.Reachable) (hv : c.Versioned) (h : c.Step c') : c'.Versioned := by
  refine ⟨?_, ?_, ?_⟩
  · intro row hrow
    rcases hv.origin hc h.rows hrow with ⟨id, path, size, now, rfl, -⟩ | ⟨_, next, -, rfl, -⟩
    · exact ⟨_, rfl⟩
    · exact ⟨next, rfl⟩
  · intro ticket id found hfound
    have hbefore : ∃ piece, .ofPiece piece ∈ c.rows ∧ piece.id = id ∧ found.Ages piece := by
      rcases h.enters with hlog | ⟨⟨_, job, _⟩, henters⟩
      · exact hv.reads ticket id found (hlog ▸ hfound)
      · rcases Log.mem_of_cons (henters.log ▸ hfound) with ⟨rfl, rfl⟩ | hold
        · obtain ⟨row, hrow, hid, hread⟩ := henters.admits.row
          obtain ⟨piece, rfl⟩ := hv.pieces row hrow
          obtain rfl := Row.eq_of_toPiece_ofPiece hread
          exact ⟨found, hrow, Cell.text.inj hid, .same⟩
        · exact hv.reads ticket id found hold
    obtain ⟨piece, hpiece, rfl, hages⟩ := hbefore
    exact hv.mem_of_step hc h.rows hages (fun _ hadvances ↦ hadvances.ages hages) hpiece
  · intro ticket id proofSet rootCid hclaimed
    rcases h.rows.claimed hclaimed with hold | ⟨now, ⟨row, hrow, hfree⟩, hrows⟩
    · obtain ⟨piece, hpiece, rfl, hheld⟩ := hv.claims ticket id proofSet rootCid hold
      exact hv.mem_of_step hc h.rows hheld (fun _ hadvances ↦ hadvances.claimed hheld) hpiece
    · obtain ⟨piece, rfl⟩ := hv.pieces row hrow
      obtain ⟨hstatus, -⟩ := Operation.checkFree_eq_ok.mp (Row.checkFree_of_isFree hfree)
      refine ⟨piece.heldFor proofSet rootCid now, ?_, Cell.text.inj hfree.1.1, ?_, rfl, rfl⟩
      · rw [hrows]
        exact List.mem_map.mpr ⟨_, hrow, if_pos hfree⟩
      · change piece.status ≠ .prepared
        rw [hstatus]
        nofun

theorem Reachable.versioned (hc : c.Reachable) : c.Versioned := by
  induction hc with
  | refl =>
    exact ⟨fun _ h ↦ absurd h List.not_mem_nil, fun _ _ _ h ↦ absurd h List.not_mem_nil,
      fun _ _ _ _ ⟨_, h⟩ ↦ absurd h List.not_mem_nil⟩
  | tail hreaches hstep ih => exact ih.step hreaches hstep

/-! ## What holds of every piece -/

/-- What holds of new pieces and is kept by every step holds of all pieces.  What is known to the
log only grows. -/
theorem Reachable.forall_piece (hc : c.Reachable) (P : Chronicle → Piece → Prop)
    (hnew : ∀ c id path size now, size ≠ some 0 → P c (.prepare id path size now))
    (hgrow : ∀ c c' piece, c.Step c' → P c piece → P c' piece)
    (hadvance : ∀ c piece next, c.Reachable → P c piece → c.Advances piece next → P c next) :
    ∀ row ∈ c.rows, ∃ piece, row = .ofPiece piece ∧ P c piece := by
  induction hc with
  | refl => exact fun _ h ↦ absurd h List.not_mem_nil
  | @tail c c' hreaches hstep ih =>
    intro row hrow
    rcases (Reachable.versioned hreaches).origin hreaches hstep.rows hrow with
      ⟨id, path, size, now, rfl, hsize⟩ | ⟨piece, next, hpiece, rfl, hnext⟩
    · exact ⟨_, rfl, hnew _ _ _ _ _ hsize⟩
    · obtain ⟨other, hother, hP⟩ := ih _ hpiece
      obtain rfl := Row.ofPiece_injective hother
      have hP' := hgrow c c' piece hstep hP
      rcases hnext with rfl | hadvances
      · exact ⟨_, rfl, hP'⟩
      · exact ⟨_, rfl, hadvance c' piece next (Relation.ReflTransGen.tail hreaches hstep) hP' hadvances⟩

end Chronicle

end PieceKeeper
