import PieceKeeper.Proofs.Run.Lifecycle

/-!
# One submission for each piece

A claim is granted only for a free row, and what it writes stays until the claimer itself writes
what became of its submission: nobody else may write over an uploaded row, and the row never
comes back to where it could be claimed.  So a piece is claimed at most once, and the ledger is told
of a piece only by the call that claimed it, once.
-/

namespace PieceKeeper

/-! ## Claims and submissions in the log -/

namespace Entry

/-- A piece was claimed. -/
def claims (id : String) (entry : Entry) : Bool :=
  match entry.event with
  | .answered (.table (.claim claimed _ _ _)) (.ok true) => claimed == id
  | _ => false

/-- The ledger was told of a piece. -/
def submits (id : String) (entry : Entry) : Bool :=
  match entry.job.task, entry.event with
  | .submit submitted _, .asked (.submit _ _) => submitted == id
  | _, _ => false

theorem claims_iff {id : String} {entry : Entry} :
    entry.claims id = true ↔ ∃ proofSet rootCid now,
      entry.event = .answered (.table (.claim id proofSet rootCid now)) (.ok true) := by
  rw [claims]
  split
  · rename_i claimed proofSet rootCid now heq
    simp [heq]
  · rename_i hnot
    simp only [Bool.false_eq_true, false_iff, not_exists]
    exact fun proofSet rootCid now heq ↦ hnot _ _ _ _ heq

theorem submits_iff {id : String} {entry : Entry} :
    entry.submits id = true ↔ (∃ proofSet, entry.job.task = .submit id proofSet) ∧
      ∃ proofSet root, entry.event = .asked (.submit proofSet root) := by
  rw [submits]
  split
  · rename_i submitted _ _ _ htask hevent
    simp [htask, hevent]
  · rename_i hnot
    simp only [Bool.false_eq_true, false_iff, not_and, not_exists]
    exact fun ⟨proofSet, htask⟩ proofSet' root hevent ↦ hnot _ _ _ _ htask hevent

end Entry

/-- Two entries that are counted at most once are one. -/
theorem Log.eq_of_countP_le_one {log : Log} {p : Entry → Bool} (h : log.countP p ≤ 1)
    {entry other : Entry} (hentry : entry ∈ log) (hother : other ∈ log) (hp : p entry = true)
    (hp' : p other = true) : entry = other := by
  rw [List.countP_eq_length_filter] at h
  have hentry' := List.mem_filter.mpr ⟨hentry, hp⟩
  have hother' := List.mem_filter.mpr ⟨hother, hp'⟩
  generalize log.filter p = found at h hentry' hother'
  rcases found with _ | ⟨single, _ | ⟨second, rest⟩⟩
  · cases hentry'
  · rw [List.mem_singleton.mp hentry', List.mem_singleton.mp hother']
  · simp at h

/-- The call with a ticket has written what became of its submission. -/
def History.Records (history : History) : Prop :=
  ∃ piece, Event.answered (.table (.update piece .uploaded)) (.ok true) ∈ history

/-- A write over an uploaded row is made by the call that claimed it. -/
theorem Operation.owns_of_writes {job : Job} {history : History} {piece : Piece}
    (h : job.Writes history piece .uploaded) :
    ∃ name proofSet found root, job.Owns history name proofSet found root ∧ piece.id = found.id := by
  cases h with
  | submission howns _ => exact ⟨_, _, _, _, howns, rfl⟩
  | refusal howns _ => exact ⟨_, _, _, _, howns, rfl⟩

theorem Cell.ofSize?_some_ne_null (size : UInt64) : ofSize? (some size) ≠ .null := by
  rw [ofSize?]
  rintro ⟨⟩

namespace Chronicle

variable {c c' : Chronicle}

/-! ## The invariant -/

/-- A claim stands: the row still carries it, or the claimer has written what became of its
submission. -/
def Stands (c : Chronicle) (ticket : Nat) (id : String) (proofSet : UInt64) : Prop :=
  ∃ row ∈ c.rows, row.id = .text id ∧
    (row.At .uploaded ∧ row.proofSet = .ofSize? (some proofSet) ∨
      (∃ a, row.At a ∧ 1 < a.rank) ∧ (c.log.of ticket).Records)

/-- Every piece is claimed at most once, and its claim stands. -/
structure Guarded (c : Chronicle) : Prop where
  ids : c.HasIds
  once : ∀ id, c.log.countP (Entry.claims id) ≤ 1
  stands : ∀ ticket id proofSet rootCid, (c.log.of ticket).Claimed id proofSet rootCid →
    c.Stands ticket id proofSet

theorem guarded_initial : ({} : Chronicle).Guarded where
  ids := List.nodup_nil
  once _ := Nat.zero_le _
  stands _ _ _ _ h := by
    obtain ⟨_, h⟩ := h
    cases h

namespace Guarded

/-- Entries that are no claims leave the number of claims alone. -/
theorem once_append (hc : c.Guarded) {new : Log} (hlog : c'.log = new ++ c.log)
    (hnew : ∀ entry ∈ new, ∀ id, ¬ entry.claims id = true) (id : String) :
    c'.log.countP (Entry.claims id) ≤ 1 := by
  rw [hlog, List.countP_append, List.countP_eq_zero.mpr fun entry hentry ↦ hnew entry hentry id,
    Nat.zero_add]
  exact hc.once id

theorem claimed_of_append {new : Log} (hlog : c'.log = new ++ c.log)
    (hnew : ∀ entry ∈ new, ∀ id, ¬ entry.claims id = true) {ticket : Nat} {id rootCid : String}
    {proofSet : UInt64} (h : (c'.log.of ticket).Claimed id proofSet rootCid) :
    (c.log.of ticket).Claimed id proofSet rootCid := by
  obtain ⟨now, hmem⟩ := h
  rw [hlog, Log.of_append, List.mem_append] at hmem
  rcases hmem with hmem | hmem
  · obtain ⟨job, hentry⟩ := Log.mem_of.mp hmem
    exact absurd (Entry.claims_iff.mpr ⟨_, _, _, rfl⟩) (hnew _ hentry id)
  · exact ⟨now, hmem⟩

theorem claimer_unique (hc : c.Guarded) {ticket ticket' : Nat} {id rootCid rootCid' : String}
    {proofSet proofSet' : UInt64} (h : (c.log.of ticket).Claimed id proofSet rootCid)
    (h' : (c.log.of ticket').Claimed id proofSet' rootCid') :
    ticket = ticket' ∧ proofSet = proofSet' := by
  obtain ⟨now, hmem⟩ := h
  obtain ⟨now', hmem'⟩ := h'
  obtain ⟨job, hentry⟩ := Log.mem_of.mp hmem
  obtain ⟨job', hentry'⟩ := Log.mem_of.mp hmem'
  cases Log.eq_of_countP_le_one (hc.once id) hentry hentry' (Entry.claims_iff.mpr ⟨_, _, _, rfl⟩)
    (Entry.claims_iff.mpr ⟨_, _, _, rfl⟩)
  exact ⟨rfl, rfl⟩

/-- No piece that was claimed is free. -/
theorem not_claimed_of_isFree (hc : c.Guarded) {row : Row} {id : String} (hrow : row ∈ c.rows)
    (hfree : row.IsFree id) (ticket : Nat) (proofSet : UInt64) (rootCid : String) :
    ¬ (c.log.of ticket).Claimed id proofSet rootCid := by
  intro hclaimed
  obtain ⟨claimed, hmem, hid, hstands⟩ := hc.stands _ _ _ _ hclaimed
  obtain rfl := hc.ids.row_unique hrow hmem (hfree.1.1.trans hid.symm)
  rcases hstands with ⟨-, hset⟩ | ⟨⟨a, ha, hrank⟩, -⟩
  · exact Cell.ofSize?_some_ne_null proofSet (hset.symm.trans hfree.2.1)
  · obtain rfl := ha.unique hfree.1.2
    exact absurd hrank (by decide)

/-- A claim stands as long as its row does. -/
theorem stands_of_mem {ticket : Nat} {id : String} {proofSet : UInt64} {row : Row}
    (hsub : c.log.of ticket ⊆ c'.log.of ticket) (hrow : row ∈ c'.rows) (hid : row.id = .text id)
    (h : row.At .uploaded ∧ row.proofSet = .ofSize? (some proofSet) ∨
      (∃ a, row.At a ∧ 1 < a.rank) ∧ (c.log.of ticket).Records) : c'.Stands ticket id proofSet :=
  ⟨row, hrow, hid, h.imp_right fun ⟨hrank, piece, hrecord⟩ ↦
    ⟨hrank, piece, hsub hrecord⟩⟩

/-- Without new claims it is enough that the old ones stand. -/
theorem of_append (hc : c.Guarded) (hids : c'.HasIds) {new : Log} (hlog : c'.log = new ++ c.log)
    (hnew : ∀ entry ∈ new, ∀ id, ¬ entry.claims id = true)
    (hstands : ∀ ticket id proofSet rootCid, (c.log.of ticket).Claimed id proofSet rootCid →
      c'.Stands ticket id proofSet) : c'.Guarded := by
  refine ⟨hids, hc.once_append hlog hnew, ?_⟩
  intro ticket id proofSet rootCid hclaimed
  exact hstands ticket id proofSet rootCid (claimed_of_append hlog hnew hclaimed)

/-! ### Updates -/

section Update

variable {writer : Nat} {job : Job} {history : History} {piece : Piece} {expected : Status}

/-- Whoever writes over the row of a claimed piece that is still uploaded is its claimer. -/
theorem writer_eq (hc : c.Guarded)
    (hasked : c.log.of writer = .asked (.table (.update piece expected)) :: history)
    (hwrites : job.Writes history piece expected) {row : Row} (his : row.Is piece.id expected)
    (hat : row.At .uploaded) {ticket : Nat} {proofSet : UInt64} {rootCid : String}
    (hclaimed : (c.log.of ticket).Claimed piece.id proofSet rootCid) : ticket = writer := by
  obtain rfl := hat.unique his.2
  obtain ⟨name, proofSet', found, root, howns, hid⟩ := Operation.owns_of_writes hwrites
  have hwriter : (c.log.of writer).Claimed piece.id proofSet' root.rootCid :=
    hid ▸ howns.claimed.mono (hasked ▸ List.subset_cons_self _ _)
  exact (hc.claimer_unique hclaimed hwriter).1

/-- A claim stands when a row is written: if it is the row of the claimed piece, then its claimer has
written it now or before. -/
theorem stands_update (hc : c.Guarded) (hsub : ∀ ticket, c.log.of ticket ⊆ c'.log.of ticket)
    (hasked : c.log.of writer = .asked (.table (.update piece expected)) :: history)
    (hwrites : job.Writes history piece expected)
    (hrows : c'.rows = c.rows.map (fun row ↦
      if row.Is piece.id expected then row.takeOver (Row.ofPiece piece) else row))
    (hlog : c'.log = ⟨writer, job, .answered (.table (.update piece expected)) (.ok true)⟩ :: c.log)
    {ticket : Nat} {id rootCid : String} {proofSet : UInt64}
    (hclaimed : (c.log.of ticket).Claimed id proofSet rootCid) : c'.Stands ticket id proofSet := by
  obtain ⟨row, hrow, hid, hstands⟩ := hc.stands _ _ _ _ hclaimed
  by_cases his : row.Is piece.id expected
  · obtain rfl : id = piece.id := Cell.text.inj (hid.symm.trans his.1)
    have hmem : row.takeOver (Row.ofPiece piece) ∈ c'.rows := by
      rw [hrows]
      exact List.mem_map.mpr ⟨row, hrow, if_pos his⟩
    have hmove := Status.rank_lt_of_canMove (Operation.canMove_of_writes hwrites)
    rcases hstands with ⟨hat, -⟩ | ⟨⟨a, ha, hrank⟩, hrecords⟩
    · obtain rfl := hc.writer_eq hasked hwrites his hat hclaimed
      obtain rfl := hat.unique his.2
      exact ⟨_, hmem, hid, Or.inr ⟨⟨_, rfl, hmove⟩, piece, by rw [hlog]; simp⟩⟩
    · obtain rfl := ha.unique his.2
      exact stands_of_mem (hsub _) hmem hid (Or.inr ⟨⟨_, rfl, Nat.lt_trans hrank hmove⟩, hrecords⟩)
  · refine stands_of_mem (hsub _) ?_ hid hstands
    rw [hrows]
    exact List.mem_map.mpr ⟨row, hrow, if_neg his⟩

end Update

/-! ### Claims -/

section Claim

variable {claimer : Nat} {job : Job} {name rootCid : String} {proofSet : UInt64} {now : Instant}
  {free : Row}

/-- The claim of a free piece is the first one. -/
theorem once_claim (hc : c.Guarded) (hfree : free ∈ c.rows) (hisFree : free.IsFree name)
    (hlog : c'.log =
      ⟨claimer, job, .answered (.table (.claim name proofSet rootCid now)) (.ok true)⟩ :: c.log)
    (id : String) : c'.log.countP (Entry.claims id) ≤ 1 := by
  rw [hlog]
  by_cases heq : id = name
  · subst heq
    have hzero : c.log.countP (Entry.claims id) = 0 := by
      refine List.countP_eq_zero.mpr ?_
      intro entry hentry hclaims
      obtain ⟨proofSet, rootCid, now, hevent⟩ := Entry.claims_iff.mp hclaims
      exact hc.not_claimed_of_isFree hfree hisFree entry.ticket proofSet rootCid
        ⟨now, Log.mem_of.mpr ⟨entry.job, by rwa [← hevent]⟩⟩
    rw [List.countP_cons, hzero, Nat.zero_add]
    split <;> decide
  · have hother : ¬ Entry.claims id
        ⟨claimer, job, .answered (.table (.claim name proofSet rootCid now)) (.ok true)⟩ = true := by
      simpa [Entry.claims] using Ne.symm heq
    rw [List.countP_cons_of_neg hother]
    exact hc.once id

/-- The new claim stands, and so do the old ones, whose pieces are not free. -/
theorem stands_claim (hc : c.Guarded) (hsub : ∀ ticket, c.log.of ticket ⊆ c'.log.of ticket)
    (hfree : free ∈ c.rows) (hisFree : free.IsFree name)
    (hrows : c'.rows = c.rows.map (fun row ↦
      if row.IsFree name then row.claimed proofSet rootCid now else row))
    (hlog : c'.log =
      ⟨claimer, job, .answered (.table (.claim name proofSet rootCid now)) (.ok true)⟩ :: c.log)
    {ticket : Nat} {id rootCid' : String} {proofSet' : UInt64}
    (hclaimed : (c'.log.of ticket).Claimed id proofSet' rootCid') :
    c'.Stands ticket id proofSet' := by
  obtain ⟨now', hmem⟩ := hclaimed
  rw [hlog] at hmem
  obtain ⟨job', hentry⟩ := Log.mem_of.mp hmem
  rcases List.mem_cons.mp hentry with hnew | hold
  · cases hnew
    have hmem : free.claimed proofSet rootCid now ∈ c'.rows := by
      rw [hrows]
      exact List.mem_map.mpr ⟨free, hfree, if_pos hisFree⟩
    exact ⟨_, hmem, hisFree.1.1, Or.inl ⟨hisFree.1.2, rfl⟩⟩
  · have hclaimed : (c.log.of ticket).Claimed id proofSet' rootCid' :=
      ⟨now', Log.mem_of.mpr ⟨job', hold⟩⟩
    obtain ⟨row, hrow, hid, hstands⟩ := hc.stands _ _ _ _ hclaimed
    have hnot : ¬ row.IsFree name := by
      intro hrowFree
      obtain rfl : id = name := Cell.text.inj (hid.symm.trans hrowFree.1.1)
      exact hc.not_claimed_of_isFree hfree hisFree ticket proofSet' rootCid' hclaimed
    refine stands_of_mem (hsub _) ?_ hid hstands
    rw [hrows]
    exact List.mem_map.mpr ⟨row, hrow, if_neg hnot⟩

end Claim

theorem step (hc : c.Guarded) (h : c.RowStep c') : c'.Guarded := by
  have hids := hc.ids.step h
  have hsub := h.of_subset
  cases h with
  | quiet new hrows hlog hquiet =>
    refine hc.of_append hids hlog ?_ ?_
    · intro entry hentry id hclaims
      obtain ⟨proofSet, rootCid, now, hevent⟩ := Entry.claims_iff.mp hclaims
      have := hquiet entry hentry
      rw [hevent] at this
      exact this rfl
    · intro ticket id proofSet rootCid hclaimed
      obtain ⟨row, hrow, hid, hstands⟩ := hc.stands _ _ _ _ hclaimed
      exact stands_of_mem (hsub _) (hrows ▸ hrow) hid hstands
  | insert _ hrows hlog _ =>
    refine hc.of_append hids (hlog.trans (List.singleton_append).symm)
      (List.forall_mem_singleton.mpr fun _ ↦ Bool.false_ne_true) ?_
    intro ticket id proofSet rootCid hclaimed
    obtain ⟨row, hrow, hid, hstands⟩ := hc.stands _ _ _ _ hclaimed
    exact stands_of_mem (hsub _) (hrows ▸ List.mem_append_left _ hrow) hid hstands
  | update hasked hwrites _ hrows hlog =>
    refine hc.of_append hids (hlog.trans (List.singleton_append).symm)
      (List.forall_mem_singleton.mpr fun _ ↦ Bool.false_ne_true) ?_
    intro ticket id proofSet rootCid hclaimed
    exact hc.stands_update hsub hasked hwrites hrows hlog hclaimed
  | claim _ _ hfound hrows hlog =>
    obtain ⟨free, hfree, hisFree⟩ := hfound
    refine ⟨hids, hc.once_claim hfree hisFree hlog, ?_⟩
    intro ticket id proofSet rootCid hclaimed
    exact hc.stands_claim hsub hfree hisFree hrows hlog hclaimed

end Guarded

theorem Reachable.guarded (h : c.Reachable) : c.Guarded := by
  induction h with
  | refl => exact guarded_initial
  | tail _ hstep ih => exact ih.step hstep.rows

/-! ## Submissions follow claims -/

/-- Only a submission tells the ledger of a piece, after its own claim. -/
theorem Reachable.claimed_of_submit (h : c.Reachable) {ticket : Nat} {job : Job} {proofSet : UInt64}
    {root : Root} (hentry : ⟨ticket, job, .asked (.submit proofSet root)⟩ ∈ c.log ∨
      ∃ answer, ⟨ticket, job, .answered (.submit proofSet root) answer⟩ ∈ c.log) :
    ∃ id, job.task = .submit id proofSet ∧ (c.log.of ticket).Claimed id proofSet root.rootCid := by
  obtain ⟨history, hsub, ⟨name, piece, howns⟩, -⟩ := h.allows hentry
  refine ⟨name, howns.task, ?_⟩
  rw [← h.id_of_found (howns.found.mono hsub)]
  exact howns.claimed.mono hsub

theorem Reachable.claimed_of_submits (h : c.Reachable) {id : String} {entry : Entry}
    (hentry : entry ∈ c.log) (hsubmits : entry.submits id = true) :
    ∃ proofSet rootCid, (c.log.of entry.ticket).Claimed id proofSet rootCid := by
  obtain ⟨⟨proofSet, htask⟩, _, root, hevent⟩ := Entry.submits_iff.mp hsubmits
  obtain ⟨ticket, job, _⟩ := entry
  cases hevent
  obtain ⟨name, htask', hclaimed⟩ := h.claimed_of_submit (Or.inl hentry)
  cases htask.symm.trans htask'
  exact ⟨_, _, hclaimed⟩

/-- The ledger is told of a piece at most once. -/
theorem Reachable.countP_submits_le (h : c.Reachable) (id : String) :
    c.log.countP (Entry.submits id) ≤ 1 := by
  induction h with
  | refl => exact Nat.zero_le _
  | @tail c c' hreaches hstep ih =>
    rcases hstep.log with hlog | ⟨⟨ticket, job, event⟩, hlog, hadmits⟩
    · exact hlog ▸ ih
    rw [hlog, List.countP_cons]
    split
    · rename_i hsubmits
      -- The call has claimed the piece, so nobody else has told the ledger, and neither has it.
      obtain ⟨⟨proofSet, htask⟩, proofSet', root, rfl⟩ := Entry.submits_iff.mp hsubmits
      obtain ⟨⟨name, piece, howns⟩, hfresh⟩ := hadmits
      cases htask.symm.trans howns.task
      have hzero : c.log.countP (Entry.submits id) = 0 := by
        refine List.countP_eq_zero.mpr fun entry hentry hsubmitted ↦ hfresh ?_
        obtain ⟨held, rootCid, hother⟩ := Reachable.claimed_of_submits hreaches hentry hsubmitted
        rw [← Reachable.id_of_found hreaches howns.found] at hother
        obtain ⟨rfl, -⟩ := (Reachable.guarded hreaches).claimer_unique howns.claimed hother
        obtain ⟨-, held', root', hevent⟩ := Entry.submits_iff.mp hsubmitted
        exact ⟨held', root', Log.mem_of.mpr ⟨entry.job, hevent ▸ hentry⟩⟩
      exact hzero.symm ▸ Nat.le_refl 1
    · exact ih

/-! ## Submissions without record -/

/-- A call claimed a piece, and has not written what became of its submission. -/
structure Unrecorded (c : Chronicle) (ticket : Nat) (id : String) (proofSet : UInt64) : Prop where
  claimed : ∃ rootCid, (c.log.of ticket).Claimed id proofSet rootCid
  unrecorded : ¬ (c.log.of ticket).Records

namespace Unrecorded

variable {ticket : Nat} {id : String} {proofSet : UInt64} {row : Row}

/-- The row of the piece is uploaded and carries the claim. -/
theorem exists_row (hc : c.Guarded) (h : c.Unrecorded ticket id proofSet) :
    ∃ row ∈ c.rows, row.Is id .uploaded ∧ row.proofSet = .ofSize? (some proofSet) := by
  obtain ⟨rootCid, hclaimed⟩ := h.claimed
  obtain ⟨row, hrow, hid, hstands⟩ := hc.stands _ _ _ _ hclaimed
  rcases hstands with ⟨hat, hset⟩ | ⟨-, hrecords⟩
  · exact ⟨row, hrow, ⟨hid, hat⟩, hset⟩
  · exact absurd hrecords h.unrecorded

/-- While nothing happens to the claimer, nothing happens to the row. -/
theorem getElem? (hc : c.Guarded) (hu : c.Unrecorded ticket id proofSet) (h : c.RowStep c')
    (hsame : c'.log.of ticket = c.log.of ticket) {i : Nat} (hrow : c.rows[i]? = some row)
    (his : row.Is id .uploaded) : c'.rows[i]? = some row := by
  obtain ⟨rootCid, hclaimed⟩ := hu.claimed
  cases h with
  | quiet _ hrows _ _ => exact hrows ▸ hrow
  | insert _ hrows _ _ =>
    rw [hrows, List.getElem?_append_left (List.getElem?_eq_some_iff.mp hrow).1, hrow]
  | @update writer job history piece expected hasked hwrites _ hrows hlog =>
    rw [hrows, List.getElem?_map, hrow]
    refine congrArg some (if_neg fun hwritten ↦ ?_)
    -- The writer would be the claimer, to whom nothing happens.
    obtain rfl := Row.At.unique his.2 hwritten.2
    obtain ⟨name, _, found, root, howns, hid⟩ := Operation.owns_of_writes hwrites
    have hfound : id = found.id :=
      (Cell.text.inj (his.1.symm.trans hwritten.1)).trans hid
    have hwriter := howns.claimed.mono (hasked ▸ List.subset_cons_self _ _)
    obtain ⟨rfl, -⟩ := hc.claimer_unique hclaimed (hfound ▸ hwriter)
    rw [hlog, Log.of_cons_self] at hsame
    exact absurd hsame (List.cons_ne_self _ _)
  | claim _ _ _ hrows _ =>
    rw [hrows, List.getElem?_map, hrow]
    refine congrArg some (if_neg fun hfree ↦ ?_)
    have hid := Cell.text.inj (his.1.symm.trans hfree.1.1)
    exact hc.not_claimed_of_isFree (List.mem_of_getElem? hrow) hfree ticket proofSet rootCid
      (hid ▸ hclaimed)

end Unrecorded

/-- What follows a submission without record: nothing happens to the row any more, and whoever
reads the piece with a ticket from `next` on finds it claimed. -/
structure Settled (c : Chronicle) (next ticket : Nat) (id : String) (proofSet : UInt64) (i : Nat)
    (row : Row) : Prop where
  unrecorded : c.Unrecorded ticket id proofSet
  row : c.rows[i]? = some row
  reads : ∀ later, next ≤ later → ∀ found,
    Event.answered (.table (.find id)) (.ok found) ∈ c.log.of later →
      ∃ piece, found = some piece ∧ piece.id = id ∧ piece.status = .uploaded ∧
        piece.proofSet = some proofSet

theorem Settled.step {next ticket i : Nat} {id : String} {proofSet : UInt64} {row : Row}
    (hc : c.Guarded) (h : c.Settled next ticket id proofSet i row) (his : row.Is id .uploaded)
    (hset : row.proofSet = .ofSize? (some proofSet)) (hstep : c.Step c')
    (hsame : c'.log.of ticket = c.log.of ticket) : c'.Settled next ticket id proofSet i row := by
  obtain ⟨hclaimed, hunrecorded⟩ := h.unrecorded
  refine ⟨⟨hsame ▸ hclaimed, hsame ▸ hunrecorded⟩,
    h.unrecorded.getElem? hc hstep.rows hsame h.row his, ?_⟩
  intro later hle found hfound
  rcases hstep.log with hlog | ⟨⟨_, job, _⟩, hlog, hadmits⟩
  · exact h.reads later hle found (hlog ▸ hfound)
  · rw [hlog] at hfound
    rcases Log.mem_of_cons hfound with ⟨rfl, rfl⟩ | hold
    · have hmem : row ∈ c.rows := List.mem_of_getElem? h.row
      cases found with
      | none => exact absurd his.1 (hadmits.absent row hmem)
      | some piece =>
        obtain ⟨read, hread, hid, hshows⟩ := hadmits.shows
        obtain rfl := hc.ids.row_unique hmem hread (his.1.trans hid.symm)
        exact ⟨piece, rfl, Cell.text.inj (hshows.id.symm.trans hid),
          Row.At.unique hshows.status his.2,
          Cell.eq_some_of_ofSize? (hshows.proofSet.symm.trans hset)⟩
    · exact h.reads later hle found hold

/-- A later submission of the piece is refused, unless it could not even read the piece. -/
theorem Settled.outcome_eq {next ticket i : Nat} {id : String} {proofSet : UInt64} {row : Row}
    (hc : c.Reachable) (h : c.Settled next ticket id proofSet i row) {later : Nat} {job : Job}
    (hle : next ≤ later) {proofSet' : UInt64} {outcome : Outcome Piece}
    (hended : ⟨later, job, .ended (.submit id proofSet') outcome⟩ ∈ c.log) :
    outcome = .error (({ cause := Operation.alreadyClaimed id proofSet } : Fault).within
      "add to proof set" id) ∨
    ∃ fault, Event.answered (.table (.find id)) (.error fault) ∈ c.log.of later ∧
      outcome = .error (fault.within "add to proof set" id) := by
  obtain ⟨history, hsub, hconcludes⟩ := hc.concludes hended
  rcases hconcludes with ⟨fault, hread, houtcome⟩ | ⟨hread, -⟩ | ⟨piece, hfound, hrest⟩
  · exact Or.inr ⟨fault, hsub hread, houtcome⟩
  · obtain ⟨piece, hnone, -⟩ := h.reads later hle _ (hsub hread)
    cases hnone
  · obtain ⟨read, hsome, hid, hstatus, hset⟩ := h.reads later hle _ (hsub hfound)
    cases hsome
    exact Or.inl (hrest _ (hid ▸ Operation.checkFree_of_claimed hstatus hset))

end Chronicle

namespace Run

variable {s s' : State}

theorem Reaches.settled {ticket i : Nat} {id : String} {proofSet : UInt64} {row : Row}
    (hs : Reachable s) (h : Reaches s s') (hover : s.Over ticket)
    (hunrecorded : s.chronicle.Unrecorded ticket id proofSet) (hrow : s.row? i = some row)
    (his : row.Is id .uploaded) (hset : row.proofSet = .ofSize? (some proofSet)) :
    s'.Over ticket ∧ s'.chronicle.Settled s.next ticket id proofSet i row := by
  induction h with
  | refl =>
    refine ⟨hover, hunrecorded, hrow, ?_⟩
    intro later hle found hfound
    change _ ∈ s.log.of later at hfound
    rw [(hs.lawful.fresh later hle).2] at hfound
    cases hfound
  | @tail s' t hreaches hstep ih =>
    have hs' : Reachable s' := Relation.ReflTransGen.trans hs hreaches
    obtain ⟨hover', hsame⟩ := hstep.over ih.1
    refine ⟨hover', ?_⟩
    rcases hstep.chronicle hs'.lawful with hchronicle | heq
    · exact ih.2.step hs'.chronicle.guarded his hset hchronicle hsame
    · exact heq ▸ ih.2

/-- In every run, each piece is claimed at most once and the ledger is told of it at most once, and
only by a submission of that piece.  When such a call is over and has not recorded what the ledger
answered, if it came to that, the piece stays uploaded with its claim: its row never changes again,
and every later submission of the piece is refused with a conflict, or could not even read the
piece, and does not reach the ledger. -/
theorem submitted_at_most_once (hs : Reachable s) (id : String) :
    s.log.countP (Entry.claims id) ≤ 1 ∧ s.log.countP (Entry.submits id) ≤ 1 ∧
    (∀ ticket job proofSet root, ⟨ticket, job, .asked (.submit proofSet root)⟩ ∈ s.log →
      ∃ name, job.task = .submit name proofSet) ∧
    ∀ ticket job proofSet root, job.task = .submit id proofSet →
      ⟨ticket, job, .asked (.submit proofSet root)⟩ ∈ s.log → s.flights ticket = none →
      ¬ (s.log.of ticket).Records →
      ∃ i row, row.Is id .uploaded ∧ row.proofSet = .ofSize? (some proofSet) ∧
        ∀ s', Reaches s s' → s'.row? i = some row ∧ ∀ later, s.next ≤ later →
          (∀ job event, ⟨later, job, event⟩ ∈ s'.log → ¬ Entry.submits id ⟨later, job, event⟩) ∧
          ∀ job proofSet' outcome, ⟨later, job, .ended (.submit id proofSet') outcome⟩ ∈ s'.log →
            outcome = .error (({ cause := Operation.alreadyClaimed id proofSet } : Fault).within
              "add to proof set" id) ∨
            ∃ fault, Event.answered (.table (.find id)) (.error fault) ∈ s'.log.of later ∧
              outcome = .error (fault.within "add to proof set" id) := by
  have hguarded := hs.chronicle.guarded
  refine ⟨hguarded.once id, hs.chronicle.countP_submits_le id, ?_, ?_⟩
  · intro ticket job proofSet root hasked
    obtain ⟨name, htask, -⟩ := hs.chronicle.claimed_of_submit (Or.inl hasked)
    exact ⟨name, htask⟩
  intro ticket job proofSet root htask hasked hnone hunrecorded
  obtain ⟨name, htask', hclaimed⟩ := hs.chronicle.claimed_of_submit (Or.inl hasked)
  cases htask.symm.trans htask'
  have hlt : ticket < s.next := by
    rcases Nat.lt_or_ge ticket s.next with hlt | hle
    · exact hlt
    · have hnil := (hs.lawful.fresh ticket hle).2
      exact absurd (Log.mem_of.mpr ⟨job, hasked⟩) (hnil ▸ List.not_mem_nil)
  have hu : s.chronicle.Unrecorded ticket id proofSet := ⟨⟨_, hclaimed⟩, hunrecorded⟩
  obtain ⟨row, hrow, his, hset⟩ := hu.exists_row hguarded
  obtain ⟨i, hi⟩ := List.getElem?_of_mem hrow
  refine ⟨i, row, his, hset, ?_⟩
  intro s' hreaches
  obtain ⟨-, hsettled⟩ := hreaches.settled hs ⟨hlt, hnone⟩ hu hi his hset
  have hs' : Reachable s' := Relation.ReflTransGen.trans hs hreaches
  refine ⟨hsettled.row, fun later hle ↦ ⟨fun job' event hentry hsubmits ↦ ?_,
    fun job' proofSet' outcome hended ↦ hsettled.outcome_eq hs'.chronicle hle hended⟩⟩
  -- Whoever tells the ledger has claimed the piece, so it is the claimer, which is no later call.
  obtain ⟨_, hclaimed'⟩ := hsettled.unrecorded.claimed
  obtain ⟨_, _, hlater⟩ := hs'.chronicle.claimed_of_submits hentry hsubmits
  have heq : ticket = later := (hs'.chronicle.guarded.claimer_unique hclaimed' hlater).1
  omega

/-- A piece that the ledger took without a record of that stays uploaded and claimed. -/
theorem unrecorded_submission_stays :
    ∃ s, Reachable s ∧
      (∃ ticket root, .answered (.submit 7 root) (.ok "hash") ∈ s.log.of ticket) ∧
      ∃ i row, row.Is "a" .uploaded ∧ row.proofSet = .ofSize? (some 7) ∧
        ∀ s', Reaches s s' → s'.row? i = some row := by
  have hof : (⟨pad [1], .ofTree (pad [1])⟩ : CommittedPiece).Of [1] :=
    .of_ofTree (by decide) (by decide)
  obtain ⟨s, hs, htable⟩ := exists_filled "a" hof
  obtain ⟨s', -, hs', hstore⟩ := hs.weather (some ⟨.transaction, false⟩) none
  obtain ⟨outcome, scene, hruns, hfree, hasked, hanswered, hclaims, hunrecorded⟩ :=
    exists_unrecorded ⟨s'.store, false, [.started]⟩ "a" 7 "hash" rfl (by rw [hstore, htable]) rfl rfl
  obtain ⟨t, -, ht, -, -, hlog, hover, -⟩ := hs'.perform ⟨keeper, .submit "a" 7⟩ hruns hfree
  have hmem {event : Event} : event ∈ scene.history → event ∈ t.log.of s'.next := by
    rw [hlog]
    exact List.mem_cons_of_mem _
  obtain ⟨job, hentry⟩ := Log.mem_of.mp (hmem hasked)
  obtain ⟨name, htask, now, hclaimed⟩ := ht.reachable.chronicle.claimed_of_submit (Or.inl hentry)
  change _ ∈ t.log.of s'.next at hclaimed
  rw [hlog] at hclaimed
  obtain rfl : name = "a" := hclaims name _ ⟨now, (List.mem_cons.mp hclaimed).resolve_left nofun⟩
  have hrecords : ¬ (t.log.of s'.next).Records := by
    rintro ⟨piece, hrecord⟩
    rw [hlog] at hrecord
    exact hunrecorded piece ((List.mem_cons.mp hrecord).resolve_left nofun)
  obtain ⟨-, -, -, hstays⟩ := submitted_at_most_once ht.reachable "a"
  obtain ⟨i, row, his, hset, hlater⟩ := hstays _ job 7 _ htask hentry hover hrecords
  exact ⟨t, ht.reachable, ⟨_, _, hmem hanswered⟩, i, row, his, hset, fun t' h ↦ (hlater t' h).1⟩

end Run

end PieceKeeper
