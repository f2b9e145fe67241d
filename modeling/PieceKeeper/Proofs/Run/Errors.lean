import PieceKeeper.Proofs.Operation.Errors
import PieceKeeper.Proofs.Run.Blank
import PieceKeeper.Proofs.Run.Drafts

/-!
# Errors are atomic

When a call fails that has run alone, the table, the blobs and the ledger are as they were before,
up to what its operation cannot take back.
-/

namespace PieceKeeper

variable {job : Job} {fault : Fault} {start h h' : Holdings}

/-! ## What a failed job leaves -/

/-- The task gives a piece its content. -/
def Task.Fills (task : Task) (id : String) : Prop :=
  (∃ body, task = .upload id body) ∨ task = .uploadFromSource id

/-- What a job leaves that has failed. -/
inductive Job.Residue (job : Job) (start : Holdings) (fault : Fault) (h : Holdings) : Prop
  | nothing : start.Same h → Residue job start fault h
  /-- The row could not be written after its content was published. -/
  | blob {id : String} {reason : Fault} : job.task.Fills id → start.Adds h →
    Operation.UpdateFails h.history id reason → fault = reason.within "upload" id →
    Residue job start fault h
  | submission {id : String} {proofSet : UInt64} : job.task = .submit id proofSet →
    Operation.Leaves job id proofSet start h → Residue job start fault h

namespace Job.Residue

theorem mono (h₁ : job.Residue start fault h) (hsame : h.Same h') (hsub : h.history ⊆ h'.history) :
    job.Residue start fault h' := by
  cases h₁ with
  | nothing hnothing => exact .nothing (hnothing.trans hsame)
  | blob htask hadds hfails hfault =>
    exact .blob htask (hadds.trans_same hsame) (hfails.mono hsub) hfault
  | submission htask hleaves => exact .submission htask (hleaves.mono hsame hsub)

theorem of_strands {id : String} {reason : Fault} (htask : job.task.Fills id)
    (h₁ : Operation.Strands id start h reason) : job.Residue start (reason.within "upload" id) h := by
  cases h₁ with
  | nothing hnothing => exact .nothing hnothing
  | blob hadds hfails => exact .blob htask hadds hfails rfl

/-- Rows are neither added nor lost. -/
theorem length_rows (h₁ : job.Residue start fault h) : h.rows.length = start.rows.length := by
  cases h₁ with
  | nothing hnothing => rw [hnothing.rows]
  | blob _ hadds _ _ => rw [hadds.rows]
  | submission _ hleaves =>
    cases hleaves with
    | nothing hnothing => rw [hnothing.rows]
    | refused _ _ _ hwrites => rw [hwrites.rows, List.length_set]
    | unrecorded _ _ _ _ _ _ hwrites => rw [hwrites.rows, List.length_set]

/-- Only the row of a submitted piece can be different. -/
theorem row_eq (h₁ : job.Residue start fault h) {i : Nat} {row : Row} (hrow : start.rows[i]? = some row)
    (hother : ∀ id proofSet, job.task = .submit id proofSet → row.id ≠ .text id) :
    h.rows[i]? = some row := by
  have hset {id : String} {proofSet : UInt64} (htask : job.task = .submit id proofSet) {j : Nat}
      {piece written : Piece} {accepted : List Acceptance}
      (hat : start.rows[j]? = some (.ofPiece piece)) (hid : piece.id = id)
      (hwrites : start.Writes j (.ofPiece written) accepted h) : h.rows[i]? = some row := by
    have hne : j ≠ i := by
      rintro rfl
      cases hrow.symm.trans hat
      exact hother id proofSet htask (congrArg Cell.text hid)
    rw [hwrites.rows, List.getElem?_set_ne hne]
    exact hrow
  cases h₁ with
  | nothing hnothing => rwa [hnothing.rows]
  | blob _ hadds _ _ => rwa [hadds.rows]
  | submission htask hleaves =>
    cases hleaves with
    | nothing hnothing => rwa [hnothing.rows]
    | refused hat hid _ hwrites => exact hset htask hat hid hwrites
    | unrecorded hat hid _ _ _ _ hwrites => exact hset htask hat hid hwrites

end Job.Residue

open Attempt in
/-- Whatever a job is answered, it leaves nothing else when it fails. -/
theorem Job.meets_residue (hsound : start.Sound) (hsame : start.Same h) (job : Job) :
    job.call.Meets job (Closes (fun _ _ ↦ True) fun h' fault ↦ job.Residue start fault h') h := by
  obtain ⟨manager, task⟩ := job
  cases task with
  | prepare source =>
    exact Meets.mono (Operation.meets_prepare hsame) (fun _ _ _ ↦ trivial) fun _ _ ↦ .nothing
  | upload id body =>
    exact Meets.within (Meets.bind (Meets.mono (Operation.meets_upload hsound hsame)
      (fun _ _ _ ↦ meets_pure trivial) fun _ _ ↦ .of_strands (Or.inl ⟨body, rfl⟩)))
  | uploadFromSource id =>
    exact Meets.within (Meets.bind (Meets.mono (Operation.meets_uploadFromSource hsound hsame)
      (fun _ _ _ ↦ meets_pure trivial) fun _ _ ↦ .of_strands (Or.inr rfl)))
  | submit id proofSet =>
    exact Meets.within (Meets.mono (Operation.meets_submit hsound hsame) (fun _ _ _ ↦ trivial)
      fun _ _ ↦ .submission rfl)
  | monitor id =>
    exact Meets.within (Meets.mono (Operation.meets_observe hsame) (fun _ _ _ ↦ trivial)
      fun _ _ ↦ .nothing)
  | reconcile =>
    exact Meets.mono (Operation.meets_reconcile hsame) (fun _ _ _ ↦ trivial) fun _ _ ↦ .nothing
  | get id =>
    exact Meets.mono (Operation.meets_find hsame fun _ _ hbad ↦ hbad) (fun _ _ _ ↦ trivial)
      fun _ _ ↦ .nothing
  | list limit =>
    exact Operation.meets_query trivial hsame (fun _ _ _ ↦ trivial) fun _ _ ↦ .nothing
  | content id =>
    exact Meets.mono (Operation.meets_content hsame) (fun _ _ _ ↦ trivial) fun _ _ ↦ .nothing

namespace Run

variable {s s' : State}

theorem Reachable.sound (hs : Reachable s) (ticket : Nat) : (s.holdings ticket).Sound where
  ids := hs.chronicle.hasIds
  pieces := hs.chronicle.versioned.pieces
  open_ := hs.chronicle.not_blocked

/-- A call that runs alone and fails leaves the table, the blobs and the ledger as they were, except
that an upload whose row cannot be written may leave one new blob, and a submission that fails after
its claim leaves the row of its piece refused, or claimed.  A failed round changes nothing. -/
theorem errors_atomic (hs : Reachable s) (h : RunsAlone s s')
    (hended : ⟨s.next, job, .ended job.task (.error fault)⟩ ∈ s'.log) :
    job.Residue (s.holdings s.next) fault (s'.holdings s.next) ∧
      s'.store.table.rows.length = s.store.table.rows.length ∧
      (∀ (i : Nat) (row : Row), s.store.table.rows[i]? = some row →
        (∀ id proofSet, job.task = .submit id proofSet → row.id ≠ .text id) →
        s'.store.table.rows[i]? = some row) ∧
      (job.task = .reconcile → (s.holdings s.next).Same (s'.holdings s.next)) := by
  have hsame (history : History) : (s.holdings s.next).Same { s.holdings s.next with history } :=
    ⟨rfl, fun _ ↦ rfl, rfl, rfl⟩
  obtain ⟨last, hlast, hlater, hsub⟩ := h.ended hs
    (fun job ↦ job.meets_residue (hs.sound s.next) (hsame [.started])) hended
  have hresidue := hlast.mono hlater hsub
  refine ⟨hresidue, hresidue.length_rows, fun _ _ ↦ hresidue.row_eq, fun htask ↦ ?_⟩
  cases hresidue with
  | nothing hnothing => exact hnothing
  | blob hfills _ _ _ =>
    rcases hfills with ⟨_, hupload⟩ | hupload
    · cases htask.symm.trans hupload
    · cases htask.symm.trans hupload
  | submission hsubmit _ => cases htask.symm.trans hsubmit

/-- The ledger refuses a piece. -/
theorem refusal_is_atomic :
    ∃ (s s' : State) (job : Job) (fault : Fault), (Reachable s ∧ RunsAlone s s' ∧
      ⟨s.next, job, .ended job.task (.error fault)⟩ ∈ s'.log) ∧
      job.Residue (s.holdings s.next) fault (s'.holdings s.next) ∧
      s'.store.table.rows.length = s.store.table.rows.length ∧
      (∀ (i : Nat) (row : Row), s.store.table.rows[i]? = some row →
        (∀ id proofSet, job.task = .submit id proofSet → row.id ≠ .text id) →
        s'.store.table.rows[i]? = some row) ∧
      (job.task = .reconcile → (s.holdings s.next).Same (s'.holdings s.next)) := by
  obtain ⟨s, hs, htable⟩ := exists_filled "a" .single
  have hsubmit : (keeper.submit "a" 7).Yields ⟨s.store, false, [.started]⟩ _ _ :=
    yields_submit_refused rfl htable rfl { cause := .ledger "no" }
  obtain ⟨_, hruns⟩ := hsubmit
  obtain ⟨s', hreaches, -, -, -, hlog, -, hothers, hjobs⟩ :=
    hs.toRests.perform ⟨keeper, .submit "a" 7⟩ hruns rfl
  have halone := hreaches.runsAlone hothers
  have hmem : .ended (.submit "a" 7) _ ∈ s'.log.of s.next := hlog ▸ List.mem_cons_self
  obtain ⟨job, hentry⟩ := Log.mem_of.mp hmem
  rcases hjobs _ hentry with hbefore | hjob
  · have hold : .ended (.submit "a" 7) _ ∈ s.log.of s.next := Log.mem_of.mpr ⟨job, hbefore⟩
    rw [(hs.reachable.lawful.fresh s.next (Nat.le_refl _)).2] at hold
    cases hold
  · cases hjob
    exact ⟨s, s', _, _, ⟨hs.reachable, halone, hentry⟩, errors_atomic hs.reachable halone hentry⟩

end Run

end PieceKeeper
