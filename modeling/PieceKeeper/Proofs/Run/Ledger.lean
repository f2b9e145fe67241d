import PieceKeeper.Proofs.Run.Versions

/-!
# The ledger's books

What the ledger has accepted is read off the log: a submission that was answered with a hash, also
when nobody waited for the answer any more.  The ledger answers for a piece at most once, so what a
row says of a submission is all that the ledger has of the piece, and an acceptance that no row
tells of is that of a claimed piece, whose row already names the proof set and the root.
-/

namespace PieceKeeper

/-! ## Acceptances -/

/-- A submission that the ledger accepted, and the job that it was made for. -/
structure Acceptance where
  job : Job
  proofSet : UInt64
  root : Root
  hash : String

namespace Acceptance

/-- The ledger was told by a submission of a piece. -/
def isFor (acceptance : Acceptance) (id : String) : Bool :=
  match acceptance.job.task with
  | .submit submitted _ => submitted == id
  | _ => false

theorem isFor_iff {acceptance : Acceptance} {id : String} :
    acceptance.isFor id = true ↔ ∃ proofSet, acceptance.job.task = .submit id proofSet := by
  rw [isFor]
  split
  · rename_i htask
    simp [htask]
  · rename_i hnot
    simp only [Bool.false_eq_true, false_iff, not_exists]
    exact fun proofSet htask ↦ hnot _ _ htask

/-- A piece tells of an acceptance. -/
structure Matches (acceptance : Acceptance) (piece : Piece) : Prop where
  proofSet : piece.proofSet = some acceptance.proofSet
  rootCid : piece.rootCid = some acceptance.root.rootCid
  subrootCids : ∃ contentId, piece.contentId = some contentId ∧
    acceptance.root.subrootCids = [contentId]
  hash : piece.transaction = some acceptance.hash

end Acceptance

namespace Entry

/-- What the ledger accepted. -/
def acceptance? (entry : Entry) : Option Acceptance :=
  match entry.event with
  | .answered (.submit proofSet root) (.ok hash) => some ⟨entry.job, proofSet, root, hash⟩
  | _ => none

theorem acceptance?_eq_some {entry : Entry} {acceptance : Acceptance} :
    entry.acceptance? = some acceptance ↔ entry.job = acceptance.job ∧
      entry.event = .answered (.submit acceptance.proofSet acceptance.root) (.ok acceptance.hash) := by
  obtain ⟨ticket, job, event⟩ := entry
  obtain ⟨job', proofSet', root', hash'⟩ := acceptance
  rw [acceptance?]
  split
  · rename_i heq
    cases heq
    simp [and_assoc]
  · rename_i hnot
    simp only [reduceCtorEq, false_iff, not_and]
    exact fun _ heq ↦ hnot _ _ _ heq

/-- The ledger has answered for a piece. -/
def replies (id : String) (entry : Entry) : Bool :=
  match entry.job.task, entry.event with
  | .submit submitted _, .answered (.submit _ _) _ => submitted == id
  | _, _ => false

theorem replies_iff {id : String} {entry : Entry} :
    entry.replies id = true ↔ (∃ proofSet, entry.job.task = .submit id proofSet) ∧
      ∃ proofSet root answer, entry.event = .answered (.submit proofSet root) answer := by
  rw [replies]
  split
  · rename_i submitted _ proofSet root answer htask hevent
    simp only [htask, hevent, beq_iff_eq]
    constructor
    · rintro rfl
      exact ⟨⟨_, rfl⟩, _, _, _, rfl⟩
    · rintro ⟨⟨_, h⟩, -⟩
      cases h
      rfl
  · rename_i hnot
    simp only [Bool.false_eq_true, false_iff, not_and, not_exists]
    exact fun ⟨proofSet, htask⟩ proofSet' root answer hevent ↦ hnot _ _ _ _ _ htask hevent

end Entry

/-- What the ledger accepted, the latest first. -/
def Log.ledger (log : Log) : List Acceptance := log.filterMap Entry.acceptance?

/-- What the ledger accepted for a piece. -/
def Log.accepted (log : Log) (id : String) : List Acceptance := log.ledger.filter (·.isFor id)

namespace Log

variable {log : Log} {acceptance : Acceptance} {id : String}

theorem mem_ledger : acceptance ∈ log.ledger ↔ ∃ ticket, ⟨ticket, acceptance.job, .answered
    (.submit acceptance.proofSet acceptance.root) (.ok acceptance.hash)⟩ ∈ log := by
  constructor
  · intro h
    obtain ⟨⟨ticket, job, event⟩, hentry, haccepts⟩ := List.mem_filterMap.mp h
    obtain ⟨rfl, rfl⟩ := Entry.acceptance?_eq_some.mp haccepts
    exact ⟨ticket, hentry⟩
  · rintro ⟨ticket, hentry⟩
    exact List.mem_filterMap.mpr ⟨_, hentry, Entry.acceptance?_eq_some.mpr ⟨rfl, rfl⟩⟩

theorem mem_accepted :
    acceptance ∈ log.accepted id ↔ acceptance ∈ log.ledger ∧ acceptance.isFor id = true :=
  List.mem_filter

/-- Every acceptance is an answer. -/
theorem length_accepted_le (log : Log) (id : String) :
    (log.accepted id).length ≤ log.countP (Entry.replies id) := by
  rw [accepted, ← List.countP_eq_length_filter, ledger, List.countP_filterMap]
  refine List.countP_mono_left fun entry _ h ↦ ?_
  cases haccepts : entry.acceptance? with
  | none => simp [haccepts] at h
  | some acceptance =>
    obtain ⟨hjob, hevent⟩ := Entry.acceptance?_eq_some.mp haccepts
    obtain ⟨proofSet, htask⟩ := Acceptance.isFor_iff.mp (by simpa [haccepts] using h)
    exact Entry.replies_iff.mpr ⟨⟨proofSet, hjob ▸ htask⟩, _, _, _, hevent⟩

end Log

namespace Chronicle

variable {c c' : Chronicle} {piece next : Piece} {id : String}

/-! ## The ledger answers once -/

/-- Whom the ledger has answered for a piece is the call that claimed it. -/
theorem Reachable.owner_eq (hc : c.Reachable) {ticket ticket' : Nat} {job job' : Job}
    {proofSet proofSet' held : UInt64} {found : Piece} {root root' : Root} {answer : Outcome String}
    (howns : job.Owns (c.log.of ticket) id proofSet found root) (htask : job'.task = .submit id held)
    (hentry : ⟨ticket', job', .answered (.submit proofSet' root') answer⟩ ∈ c.log) :
    ticket' = ticket := by
  obtain ⟨name, hname, hclaimed⟩ := hc.claimed_of_submit (Or.inr ⟨answer, hentry⟩)
  cases htask.symm.trans hname
  have hclaimed' := howns.claimed
  rw [hc.id_of_found howns.found] at hclaimed'
  exact (hc.guarded.claimer_unique hclaimed hclaimed').1

/-- The ledger answers for a piece at most once. -/
theorem Reachable.countP_replies_le (h : c.Reachable) (id : String) :
    c.log.countP (Entry.replies id) ≤ 1 := by
  induction h with
  | refl => exact Nat.zero_le _
  | @tail c c' hreaches hstep ih =>
    rcases hstep.log with hlog | ⟨⟨ticket, job, event⟩, hlog, hadmits⟩
    · exact hlog ▸ ih
    rw [hlog, List.countP_cons]
    split
    · rename_i hreplies
      -- An earlier answer was to the same call, which would have told the ledger twice.
      obtain ⟨⟨proofSet, htask⟩, proofSet', root, answer, rfl⟩ := Entry.replies_iff.mp hreplies
      obtain ⟨history, _, hasked, ⟨⟨name, found, howns⟩, hfresh⟩, -⟩ := hadmits
      cases htask.symm.trans howns.task
      have hearlier : history <:+ c.log.of ticket := hasked ▸ List.suffix_cons _ _
      have hzero : c.log.countP (Entry.replies id) = 0 := by
        refine List.countP_eq_zero.mpr ?_
        rintro ⟨ticket', job', _⟩ hentry hreplied
        obtain ⟨⟨_, htask'⟩, proofSet'', root', answer', rfl⟩ := Entry.replies_iff.mp hreplied
        obtain rfl := Reachable.owner_eq hreaches (howns.mono hearlier.subset) htask' hentry
        have hanswered := hasked ▸ Log.mem_of.mpr ⟨job', hentry⟩
        exact hfresh ⟨_, _, Reachable.asked_of_answered hreaches hearlier
          ((List.mem_cons.mp hanswered).resolve_left nofun)⟩
      exact hzero.symm ▸ Nat.le_refl 1
    · exact ih

/-- The ledger's books have a piece at most once. -/
theorem Reachable.length_accepted_le (hc : c.Reachable) (id : String) :
    (c.log.accepted id).length ≤ 1 :=
  Nat.le_trans (c.log.length_accepted_le id) (hc.countP_replies_le id)

/-- A piece with an acceptance has no other. -/
theorem Reachable.accepted_eq (hc : c.Reachable) {acceptance : Acceptance}
    (h : acceptance ∈ c.log.accepted id) : c.log.accepted id = [acceptance] := by
  obtain ⟨single, hsingle⟩ := List.length_eq_one_iff.mp
    (Nat.le_antisymm (hc.length_accepted_le id) (List.length_pos_of_mem h))
  rw [hsingle, List.mem_singleton] at h
  rw [hsingle, h]

/-! ## What a row tells of the ledger -/

/-- A refused piece was refused by the ledger, and a submitted one was accepted as it says. -/
structure Recorded (c : Chronicle) (piece : Piece) : Prop where
  refused : piece.status = .error → ∃ ticket job proofSet proofSet' root fault,
    job.task = .submit piece.id proofSet ∧
      ⟨ticket, job, .answered (.submit proofSet' root) (.error fault)⟩ ∈ c.log
  accepted : piece.status = .pending ∨ piece.status = .added ∨ piece.status = .failed →
    ∃ acceptance ∈ c.log.accepted piece.id, acceptance.Matches piece

theorem Recorded.mono (h : c.Recorded piece) (hsub : c.log ⊆ c'.log) : c'.Recorded piece where
  refused hstatus := by
    obtain ⟨ticket, job, proofSet, proofSet', root, fault, htask, hentry⟩ := h.refused hstatus
    exact ⟨ticket, job, proofSet, proofSet', root, fault, htask, hsub hentry⟩
  accepted hstatus := by
    obtain ⟨acceptance, hmem, hmatches⟩ := h.accepted hstatus
    obtain ⟨hledger, hfor⟩ := Log.mem_accepted.mp hmem
    obtain ⟨ticket, hentry⟩ := Log.mem_ledger.mp hledger
    exact ⟨acceptance, Log.mem_accepted.mpr ⟨Log.mem_ledger.mpr ⟨ticket, hsub hentry⟩, hfor⟩,
      hmatches⟩

/-- What happened to the call that made an update is logged with the job of the update. -/
theorem Updated.mem_log (hc : c.Reachable) {ticket : Nat} {job : Job} {written : Piece}
    {expected : Status} {event : Event} (h : c.Updated ticket job written expected)
    (hevent : event ∈ c.log.of ticket) : ⟨ticket, job, event⟩ ∈ c.log := by
  obtain ⟨job', hentry⟩ := Log.mem_of.mp hevent
  obtain rfl : job' = job := hc.job_unique hentry h rfl
  exact hentry

/-- The next version of a piece tells of the ledger's answer to it. -/
theorem Advances.recorded (hc : c.Reachable) (h : c.Advances piece next) (hpiece : c.Recorded piece) :
    c.Recorded next := by
  cases h with
  | upload _ _ _ _ => exact ⟨nofun, nofun⟩
  | claim _ hintends =>
    obtain ⟨hstatus, -⟩ := Operation.checkFree_eq_ok.mp hintends.free
    constructor
    · intro herror
      cases hstatus.symm.trans herror
    · rintro (h | h | h)
      all_goals cases hstatus.symm.trans h
  | @submission ticket job proofSet found root hash claimed submitted now hupdated howns hheld
      hanswer =>
    refine ⟨nofun, fun _ ↦ ⟨⟨job, proofSet, root, hash⟩, ?_, ?_⟩⟩
    · exact Log.mem_accepted.mpr ⟨Log.mem_ledger.mpr ⟨ticket, hupdated.mem_log hc hanswer⟩,
        Acceptance.isFor_iff.mpr ⟨proofSet, howns.task⟩⟩
    · obtain ⟨contentId, _, _, _, hcontent, -, -, -, rfl⟩ := Operation.rootOf_eq_ok howns.rooted
      subst hheld
      exact ⟨rfl, rfl, ⟨contentId, hcontent, rfl⟩, rfl⟩
  | refusal hupdated howns _ hanswer =>
    exact ⟨fun _ ↦ ⟨_, _, _, _, _, _, howns.task, hupdated.mem_log hc hanswer⟩, nofun⟩
  | settlement _ _ hpending _ _ hsettle hfinding =>
    obtain ⟨acceptance, hmem, hset, hroot, hparts, hhash⟩ := hpiece.accepted (Or.inl hpending)
    rcases Piece.settle_final_cases hsettle hfinding with ⟨-, -, -, rfl⟩ | ⟨-, -, message, rfl⟩
    · exact ⟨nofun, fun _ ↦ ⟨acceptance, hmem, hset, hroot, hparts, hhash⟩⟩
    · exact ⟨nofun, fun _ ↦ ⟨acceptance, hmem, hset, hroot, hparts, hhash⟩⟩

theorem Reachable.recorded (hc : c.Reachable) :
    ∀ row ∈ c.rows, ∃ piece, row = .ofPiece piece ∧ c.Recorded piece :=
  hc.forall_piece Recorded (fun _ _ _ _ _ _ ↦ ⟨nofun, nofun⟩)
    (fun _ _ _ hstep hpiece ↦ hpiece.mono hstep.log_subset)
    fun _ _ _ hc hpiece hadvances ↦ hadvances.recorded hc hpiece

/-- Whatever the ledger was told, the row of a piece that carries the claim says it. -/
theorem Reachable.claimed_row (hc : c.Reachable) {ticket : Nat} {job : Job} {proofSet : UInt64}
    {root : Root} (hentry : ⟨ticket, job, .asked (.submit proofSet root)⟩ ∈ c.log ∨
      ∃ answer, ⟨ticket, job, .answered (.submit proofSet root) answer⟩ ∈ c.log) :
    ∃ piece, .ofPiece piece ∈ c.rows ∧ job.task = .submit piece.id proofSet ∧
      piece.Claimed proofSet root.rootCid := by
  obtain ⟨id, htask, hclaimed⟩ := hc.claimed_of_submit hentry
  obtain ⟨piece, hpiece, rfl, hheld⟩ := hc.versioned.claims _ _ _ _ hclaimed
  exact ⟨piece, hpiece, htask, hheld⟩

end Chronicle

/-- What a piece says of the ledger is what the ledger has of it. -/
structure Piece.Agrees (piece : Piece) (accepted : List Acceptance) : Prop where
  submitted : piece.status = .pending ∨ piece.status = .added ∨ piece.status = .failed →
    ∃ acceptance, accepted = [acceptance] ∧ acceptance.Matches piece
  unsubmitted : piece.status = .prepared ∨ piece.status = .uploaded ∧ piece.proofSet = none ∨
    piece.status = .error → accepted = []
  once : accepted.length ≤ 1

namespace Chronicle

variable {c : Chronicle} {piece : Piece}

/-- The ledger has nothing of a piece that it refused. -/
theorem Recorded.accepted_eq_nil (hc : c.Reachable) (h : c.Recorded piece)
    (hstatus : piece.status = .error) : c.log.accepted piece.id = [] := by
  refine List.eq_nil_iff_forall_not_mem.mpr fun acceptance hmem ↦ ?_
  obtain ⟨ticket, job, proofSet, proofSet', root, fault, htask, hrefused⟩ := h.refused hstatus
  obtain ⟨hledger, hfor⟩ := Log.mem_accepted.mp hmem
  obtain ⟨ticket', hentry⟩ := Log.mem_ledger.mp hledger
  cases Log.eq_of_countP_le_one (hc.countP_replies_le piece.id) hrefused hentry
    (Entry.replies_iff.mpr ⟨⟨_, htask⟩, _, _, _, rfl⟩)
    (Entry.replies_iff.mpr ⟨Acceptance.isFor_iff.mp hfor, _, _, _, rfl⟩)

/-- The ledger has nothing of a piece that nobody has claimed. -/
theorem Reachable.accepted_eq_nil (hc : c.Reachable) (hpiece : .ofPiece piece ∈ c.rows)
    (hunclaimed : ∀ proofSet rootCid, ¬ piece.Claimed proofSet rootCid) :
    c.log.accepted piece.id = [] := by
  refine List.eq_nil_iff_forall_not_mem.mpr fun acceptance hmem ↦ ?_
  obtain ⟨hledger, hfor⟩ := Log.mem_accepted.mp hmem
  obtain ⟨ticket, hentry⟩ := Log.mem_ledger.mp hledger
  obtain ⟨proofSet, htask⟩ := Acceptance.isFor_iff.mp hfor
  obtain ⟨other, hother, hname, hclaimed⟩ := hc.claimed_row (Or.inr ⟨_, hentry⟩)
  obtain rfl : other = piece := hc.hasIds.piece_unique hother hpiece
    (Task.submit.inj (hname.symm.trans htask)).1
  exact hunclaimed _ _ hclaimed

theorem Reachable.agrees (hc : c.Reachable) :
    ∀ row ∈ c.rows, ∃ piece, row = .ofPiece piece ∧ piece.Agrees (c.log.accepted piece.id) := by
  intro row hrow
  obtain ⟨piece, rfl, hrecorded⟩ := hc.recorded row hrow
  refine ⟨piece, rfl, ?_, ?_, hc.length_accepted_le piece.id⟩
  · intro hstatus
    obtain ⟨acceptance, hmem, hmatches⟩ := hrecorded.accepted hstatus
    exact ⟨acceptance, hc.accepted_eq hmem, hmatches⟩
  · rintro (hprepared | ⟨-, hset⟩ | herror)
    · exact hc.accepted_eq_nil hrow fun _ _ hclaimed ↦ hclaimed.uploaded hprepared
    · refine hc.accepted_eq_nil hrow fun _ _ hclaimed ↦ ?_
      cases hset.symm.trans hclaimed.proofSet
    · exact hrecorded.accepted_eq_nil hc herror

end Chronicle

namespace Run

variable {s : State}

/-- The table agrees with the ledger, in every run of any number of managers.  The ledger has
accepted a pending, added or failed piece exactly once, with the proof set, the root, the content
and the hash that its row says; it has accepted no prepared piece, none that is uploaded and
unclaimed, and none that it refused; and whatever it was told or accepted is of a piece whose row
carries that proof set and that root. -/
theorem rows_agree_with_ledger (hs : Reachable s) :
    (∀ row ∈ s.store.table.rows, ∃ piece, row = .ofPiece piece ∧
      piece.Agrees (s.log.accepted piece.id)) ∧
    (∀ acceptance ∈ s.log.ledger, ∃ piece, .ofPiece piece ∈ s.store.table.rows ∧
      acceptance.isFor piece.id = true ∧
      piece.Claimed acceptance.proofSet acceptance.root.rootCid) ∧
    ∀ ticket job proofSet root, ⟨ticket, job, .asked (.submit proofSet root)⟩ ∈ s.log →
      ∃ piece, .ofPiece piece ∈ s.store.table.rows ∧ job.task = .submit piece.id proofSet ∧
        piece.Claimed proofSet root.rootCid := by
  have hc := hs.chronicle
  refine ⟨hc.agrees, ?_, ?_⟩
  · intro acceptance hledger
    obtain ⟨ticket, hentry⟩ := Log.mem_ledger.mp hledger
    obtain ⟨piece, hpiece, htask, hclaimed⟩ := hc.claimed_row (Or.inr ⟨_, hentry⟩)
    exact ⟨piece, hpiece, Acceptance.isFor_iff.mpr ⟨_, htask⟩, hclaimed⟩
  · intro ticket job proofSet root hasked
    exact hc.claimed_row (Or.inl hasked)

/-- The ledger has a piece that it took, as the row says. -/
theorem submitted_row_is_accepted :
    ∃ s piece acceptance, Reachable s ∧ .ofPiece piece ∈ s.store.table.rows ∧
      piece.status = .pending ∧ s.log.accepted piece.id = [acceptance] ∧
      acceptance.Matches piece := by
  obtain ⟨s, hs, htable⟩ := exists_submitted "a" .single rfl 7 "hash"
  have hrow : s.row? 0 = some _ := congrArg (fun table : Table ↦ table.rows[0]?) htable
  have hmem := List.mem_of_getElem? hrow
  obtain ⟨hagrees, -, -⟩ := rows_agree_with_ledger hs.reachable
  obtain ⟨piece, hpiece, hpieceAgrees⟩ := hagrees _ hmem
  obtain rfl := Row.ofPiece_injective hpiece
  obtain ⟨acceptance, haccepted, hmatches⟩ := hpieceAgrees.submitted (Or.inl rfl)
  exact ⟨s, _, acceptance, hs.reachable, hmem, rfl, haccepted, hmatches⟩

end Run

end PieceKeeper
