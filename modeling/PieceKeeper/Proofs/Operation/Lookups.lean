import PieceKeeper.Proofs.Operation.Monitor

/-!
# Watchers heed the ledger

Only a call that looks after pending pieces asks for transactions.  All that it writes are pieces
that the ledger's latest answer to it has settled, and any other answer makes it write nothing.
-/

namespace PieceKeeper

/-! ## Answers of the ledger -/

/-- The status that a record gives to the piece that waits for it. -/
def TransactionRecord.verdict? (record : TransactionRecord) : Option Status :=
  match record.status with
  | .pending => none
  | .confirmed => if record.success = some true then some .added else some .failed
  | .failed => some .failed

/-- The transaction that was asked for, and what the ledger said of it. -/
def Event.ruling? : Event → Option (String × Outcome (Option TransactionRecord))
  | .answered (.lookup hash) answer => some (hash, answer)
  | _ => none

/-- The transaction that was asked for last, and what the ledger said of it. -/
def History.ruling? (history : History) : Option (String × Outcome (Option TransactionRecord)) :=
  history.findSome? Event.ruling?

/-- Whether a request asks for a transaction. -/
def Request.IsLookup : Request → Prop
  | .lookup _ => True
  | _ => False

/-- A piece is settled as the record says. -/
theorem Piece.settle_verdict {piece settled : Piece} {record : TransactionRecord} {now : Instant}
    {finding : Finding} (h : piece.settle record now = (settled, .ok finding))
    (hfinding : finding = .added ∨ finding = .failed) :
    ∃ status message, record.verdict? = some status ∧
      settled = piece.settledAs record status message now := by
  rw [settle] at h
  split at h
  · cases h
    simp at hfinding
  · split at h
    · rename_i hstatus hsuccess
      obtain ⟨-, -, rfl⟩ := conclude_eq_ok h
      exact ⟨.added, _, by rw [TransactionRecord.verdict?, hstatus]; exact if_pos hsuccess, rfl⟩
    · rename_i hstatus hsuccess
      obtain ⟨-, -, rfl⟩ := conclude_eq_ok h
      exact ⟨.failed, _, by rw [TransactionRecord.verdict?, hstatus]; exact if_neg hsuccess, rfl⟩
  · rename_i hstatus
    obtain ⟨-, -, rfl⟩ := conclude_eq_ok h
    exact ⟨.failed, _, by rw [TransactionRecord.verdict?, hstatus], rfl⟩

/-! ## The rule -/

namespace Job

variable (job : Job) (history : History)

/-- A piece was found pending, and the ledger's latest answer has settled it. -/
def Settles (settled : Piece) : Prop :=
  ∃ id piece hash record now finding, history.Found id piece ∧ piece.status = .pending ∧
    piece.transaction = some hash ∧ history.ruling? = some (hash, .ok (some record)) ∧
    piece.settle record now = (settled, .ok finding) ∧ (finding = .added ∨ finding = .failed)

/-- Who asks for transactions is a watcher, and a watcher writes only what the ledger settled. -/
def Heeds : Request → Prop
  | .lookup _ => job.task.Watches
  | .table (.insert _) | .table (.claim _ _ _ _) => ¬ job.task.Watches
  | .table (.update settled _) => job.task.Watches → Settles history settled
  | _ => True

variable {job history}

/-- Who does not watch may ask for anything but a transaction. -/
theorem heeds_of_not_watches (h : ¬ job.task.Watches) (history : History) (request : Request)
    (hlookup : ¬ request.IsLookup) : job.Heeds history request := by
  cases request with
  | lookup hash => exact absurd trivial hlookup
  | table command =>
    cases command with
    | insert _ | claim _ _ _ _ => exact h
    | update _ _ => exact fun hwatches ↦ absurd hwatches h
    | find _ | findContent _ | withStatus _ | first _ => trivial
  | _ => trivial

end Job

namespace Operation

open Attempt

section Watching

variable {job : Job} {history : History}

theorem heeds_recordFinding (id : String) {hash : String} {piece settled : Piece} {record : TransactionRecord}
    {now : Instant} {finding : Finding} (hfound : history.Found id piece)
    (hstatus : piece.status = .pending) (htransaction : piece.transaction = some hash)
    (hruling : history.ruling? = some (hash, .ok (some record)))
    (hsettle : piece.settle record now = (settled, .ok finding)) :
    (recordFinding settled finding).Follows job.Heeds (fun _ _ ↦ True) (fun _ _ ↦ True) history := by
  rw [recordFinding]
  split
  · rename_i hfinal
    refine Follows.bind (follows_table (fun _ ↦ ⟨id, piece, hash, record, now, finding, hfound,
      hstatus, htransaction, hruling, hsettle, hfinal⟩) (fun updated ↦ ?_) fun _ ↦ trivial)
    cases updated with
    | false => exact follows_refuse trivial
    | true => exact follows_pure trivial
  · exact follows_pure trivial

theorem heeds_observe {locks : Nat} {id : String} {strict : Bool} (hwatches : job.task.Watches) :
    (observe locks id strict).Follows job.Heeds (fun _ _ ↦ True) (fun _ _ ↦ True) history := by
  refine Follows.holding trivial (fun _ ↦ trivial) ?_
  rw [observeLocked, find]
  refine Follows.bind (Follows.bind (follows_table trivial (fun found ↦ ?_) fun _ ↦ trivial))
  cases found with
  | none => exact follows_refuse trivial
  | some piece =>
    refine follows_pure ?_
    split
    · split
      · exact follows_refuse trivial
      · exact follows_pure trivial
    · rename_i hstatus
      split
      · split
        · exact follows_refuse trivial
        · exact follows_pure trivial
      · rename_i hash htransaction
        refine Follows.bind ⟨hwatches, fun answer ↦ ?_⟩
        rcases answer with fault | _ | record
        · trivial
        · exact follows_pure trivial
        · refine Follows.bind (follows_ask trivial fun now ↦ ?_)
          refine Follows.bind (follows_ofOutcome (fun finding hfinding ↦ ?_) fun _ _ ↦ trivial)
          exact heeds_recordFinding id (by simp [History.Found]) (not_not.mp hstatus) htransaction rfl
            (Prod.ext rfl hfinding)

theorem heeds_observeAll {locks : Nat} {report : Report} {pieces : List Piece}
    (hwatches : job.task.Watches) :
    (observeAll locks report pieces).Follows job.Heeds (fun _ _ ↦ True) history := by
  induction pieces generalizing report history with
  | nil => trivial
  | cons piece rest ih =>
    exact Call.Follows.bind (Call.Follows.mono (heeds_observe hwatches) fun _ _ _ ↦ ih)

end Watching

/-! ## Operations that do not ask for transactions -/

section Others

variable {rule : History → Request → Prop} {history : History}
  (hrule : ∀ history request, ¬ request.IsLookup → rule history request)

include hrule

theorem quiet_find {id : String} {good : History → Piece → Prop}
    (hgood : ∀ later piece, good later piece) :
    (find id).Follows rule good (fun _ _ ↦ True) history := by
  refine Follows.bind (follows_table (hrule _ _ not_false) (fun found ↦ ?_) fun _ ↦ trivial)
  cases found with
  | none => exact follows_refuse trivial
  | some piece => exact follows_pure (hgood _ piece)

theorem quiet_prepare {source : Source} :
    (prepare source).Follows rule (fun _ _ ↦ True) (fun _ _ ↦ True) history := by
  have hmeasure : source.measure.Follows rule (fun _ _ ↦ True) (fun _ _ ↦ True) history := by
    cases source with
    | declared size =>
      rw [Source.measure]
      split
      · exact follows_refuse trivial
      · exact follows_pure trivial
    | file path =>
      refine Follows.bind (follows_ask (hrule _ _ not_false) fun _ ↦ ?_)
      refine Follows.bind (follows_ask (hrule _ _ not_false) fun found ↦ ?_)
      split
      · exact follows_refuse trivial
      · exact follows_refuse trivial
      · dsimp only
        split
        · exact follows_refuse trivial
        · exact follows_pure trivial
  refine Follows.bind (Follows.mono hmeasure (fun _ _ _ ↦ ?_) fun _ _ _ ↦ trivial)
  refine Follows.bind (follows_ask (hrule _ _ not_false) fun _ ↦ ?_)
  refine Follows.bind (follows_ask (hrule _ _ not_false) fun _ ↦ ?_)
  exact Follows.bind (follows_table (hrule _ _ not_false) (fun _ ↦ follows_pure trivial) fun _ ↦ trivial)

theorem quiet_shelve {key : String} {content : Bytes} {good : History → Bool → Prop}
    (hgood : ∀ later written, good later written) :
    (shelve key content).Follows rule good (fun _ _ ↦ True) history := by
  refine Follows.bind (follows_ofOutcome (fun _ _ ↦ ?_) fun _ _ ↦ trivial)
  refine Follows.bind (follows_shelf (hrule _ _ not_false) fun held ↦ ?_)
  split
  · exact follows_pure (hgood _ _)
  refine Follows.bind (follows_ask (hrule _ _ not_false) fun _ ↦ ?_)
  refine Follows.bind (follows_shelf (hrule _ _ not_false) fun place ↦ ?_)
  refine Follows.bind (follows_ofFile (fun _ _ ↦ ?_) fun _ _ ↦ trivial)
  refine Follows.bind (follows_shelf (hrule _ _ not_false) fun draft ↦ ?_)
  refine Follows.bind (follows_ask (hrule _ _ not_false) fun _ ↦ ?_)
  refine Follows.bind (follows_shelf (hrule _ _ not_false) fun written ↦ ?_)
  cases written with
  | error failure =>
    refine Follows.bind (follows_shelf (hrule _ _ not_false) fun _ ↦ ?_)
    exact follows_ofFile (fun _ h ↦ nomatch h) fun _ _ ↦ trivial
  | ok _ =>
    refine Follows.bind (follows_shelf (hrule _ _ not_false) fun again ↦ ?_)
    split
    · refine Follows.bind (follows_ask (hrule _ _ not_false) fun _ ↦ ?_)
      refine Follows.bind (follows_shelf (hrule _ _ not_false) fun _ ↦ ?_)
      exact Follows.bind (follows_ofFile (fun _ _ ↦ follows_pure (hgood _ _)) fun _ _ ↦ trivial)
    · refine Follows.bind (follows_ask (hrule _ _ not_false) fun _ ↦ ?_)
      refine Follows.bind (follows_shelf (hrule _ _ not_false) fun _ ↦ ?_)
      exact Follows.bind (follows_ofFile (fun _ _ ↦ follows_pure (hgood _ _)) fun _ _ ↦ trivial)

theorem quiet_upload {locks : Nat} {id : String} {body : Bytes} :
    (upload locks id body).Follows rule (fun _ _ ↦ True) (fun _ _ ↦ True) history := by
  refine Follows.holding (hrule _ _ not_false) (fun _ ↦ hrule _ _ not_false) ?_
  refine Follows.bind (quiet_find hrule fun later piece ↦ ?_)
  refine Follows.bind (follows_ofOutcome (fun _ _ ↦ ?_) fun _ _ ↦ trivial)
  refine Follows.bind (follows_ask (hrule _ _ not_false) fun _ ↦ ?_)
  refine Follows.bind (follows_ofOutcome (fun committed _ ↦ ?_) fun _ _ ↦ trivial)
  refine Follows.bind (follows_table (hrule _ _ not_false) (fun holder ↦ ?_) fun _ ↦ trivial)
  cases holder with
  | some holder => exact Follows.bind (follows_refuse trivial)
  | none =>
    refine Follows.bind (quiet_shelve hrule fun later written ↦ ?_)
    refine Follows.bind (follows_ask (hrule _ _ not_false) fun now ↦ ?_)
    refine Follows.bind (follows_ofOutcome (fun moved _ ↦ ?_) fun _ _ ↦ trivial)
    refine Follows.bind (follows_table (hrule _ _ not_false) (fun updated ↦ ?_) fun _ ↦ trivial)
    split
    · exact follows_pure trivial
    · exact follows_refuse trivial

theorem quiet_uploadFromSource {locks : Nat} {id : String} :
    (uploadFromSource locks id).Follows rule (fun _ _ ↦ True) (fun _ _ ↦ True) history := by
  refine Follows.bind (quiet_find hrule fun later piece ↦ ?_)
  split
  · exact follows_refuse trivial
  · refine Follows.bind (follows_ask (hrule _ _ not_false) fun _ ↦ ?_)
    refine Follows.bind (follows_ask (hrule _ _ not_false) fun read ↦ ?_)
    cases read with
    | error failure => exact follows_refuse trivial
    | ok body => exact quiet_upload hrule

theorem quiet_recordSubmission {piece : Piece} {proofSet : UInt64} {answer : Outcome String} :
    (recordSubmission piece proofSet answer).Follows rule (fun _ _ ↦ True) (fun _ _ ↦ True)
      history := by
  have hrecord (history : History) (piece : Piece) :
      (record piece).Follows rule (fun _ _ ↦ True) (fun _ _ ↦ True) history := by
    refine Follows.bind (follows_table (hrule _ _ not_false) (fun updated ↦ ?_) fun _ ↦ trivial)
    split
    · exact follows_pure trivial
    · exact follows_refuse trivial
  cases answer with
  | ok hash =>
    refine Follows.bind (follows_ask (hrule _ _ not_false) fun submitted ↦ ?_)
    refine Follows.bind (follows_ask (hrule _ _ not_false) fun now ↦ ?_)
    refine Follows.bind (follows_ofOutcome (fun moved _ ↦ ?_) fun _ _ ↦ trivial)
    exact Follows.bind (Follows.mono (hrecord _ moved) (fun _ _ _ ↦ follows_pure trivial)
      fun _ _ _ ↦ trivial)
  | error fault =>
    refine Follows.bind (follows_ask (hrule _ _ not_false) fun now ↦ ?_)
    refine Follows.bind (follows_ofOutcome (fun moved _ ↦ ?_) fun _ _ ↦ trivial)
    exact Follows.bind (follows_lift (Call.Follows.mono (hrecord _ moved) fun _ _ _ ↦
      follows_refuse trivial))

theorem quiet_submit {locks : Nat} {sectorSize proofSet : UInt64} {id : String} :
    (submit locks sectorSize id proofSet).Follows rule (fun _ _ ↦ True) (fun _ _ ↦ True) history := by
  refine Follows.holding (hrule _ _ not_false) (fun _ ↦ hrule _ _ not_false) ?_
  refine Follows.bind (quiet_find hrule fun later piece ↦ ?_)
  refine Follows.bind (follows_ofOutcome (fun _ _ ↦ ?_) fun _ _ ↦ trivial)
  refine Follows.bind (follows_ofOutcome (fun root _ ↦ ?_) fun _ _ ↦ trivial)
  refine Follows.bind (follows_ask (hrule _ _ not_false) fun now ↦ ?_)
  refine Follows.bind (follows_table (hrule _ _ not_false) (fun claimed ↦ ?_) fun _ ↦ trivial)
  split
  · exact Follows.bind (follows_ask (hrule _ _ not_false) fun answer ↦ quiet_recordSubmission hrule)
  · exact follows_refuse trivial

theorem quiet_content {manager : Manager} {id : String} :
    (manager.content id).Follows rule (fun _ _ ↦ True) (fun _ _ ↦ True) history := by
  refine Follows.bind (quiet_find hrule fun later piece ↦ ?_)
  split
  · exact follows_refuse trivial
  · refine Follows.within (Follows.bind (follows_ofOutcome (fun _ _ ↦ ?_) fun _ _ ↦ trivial))
    refine Follows.bind (follows_shelf (hrule _ _ not_false) fun held ↦ ?_)
    split
    · refine Follows.bind (follows_ask (hrule _ _ not_false) fun _ ↦ ?_)
      refine Follows.bind (follows_shelf (hrule _ _ not_false) fun read ↦ ?_)
      exact follows_ofFile (fun _ _ ↦ trivial) fun _ _ ↦ trivial
    · exact follows_refuse trivial

end Others

end Operation

/-- Every job heeds the ledger. -/
theorem Job.heeds (job : Job) : job.call.Follows job.Heeds (fun _ _ ↦ True) [.started] := by
  obtain ⟨manager, task⟩ := job
  cases task with
  | prepare source =>
    exact Attempt.Follows.ends (Operation.quiet_prepare (Job.heeds_of_not_watches id))
  | upload piece body =>
    exact Attempt.Follows.ends (Attempt.Follows.within (Attempt.Follows.bind (Attempt.Follows.mono
      (Operation.quiet_upload (Job.heeds_of_not_watches id)) (fun _ _ _ ↦ trivial)
      fun _ _ _ ↦ trivial)))
  | uploadFromSource piece =>
    exact Attempt.Follows.ends (Attempt.Follows.within (Attempt.Follows.bind (Attempt.Follows.mono
      (Operation.quiet_uploadFromSource (Job.heeds_of_not_watches id)) (fun _ _ _ ↦ trivial)
      fun _ _ _ ↦ trivial)))
  | submit piece proofSet =>
    exact Attempt.Follows.ends (Attempt.Follows.within
      (Operation.quiet_submit (Job.heeds_of_not_watches id)))
  | monitor piece =>
    exact Attempt.Follows.ends (Attempt.Follows.within (Operation.heeds_observe trivial))
  | reconcile =>
    refine Attempt.Follows.ends (Attempt.Follows.bind (Attempt.follows_table trivial (fun pieces ↦ ?_)
      fun _ ↦ trivial))
    exact Attempt.follows_lift (Operation.heeds_observeAll trivial)
  | get piece =>
    exact Attempt.Follows.ends (Operation.quiet_find (Job.heeds_of_not_watches id) fun _ _ ↦ trivial)
  | list limit =>
    exact Attempt.Follows.ends (Attempt.follows_table trivial (fun _ ↦ trivial) fun _ ↦ trivial)
  | content piece =>
    exact Attempt.Follows.ends (Operation.quiet_content (Job.heeds_of_not_watches id))

end PieceKeeper
