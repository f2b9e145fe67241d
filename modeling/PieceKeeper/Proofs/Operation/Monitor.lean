import PieceKeeper.Proofs.Operation.Reading
import PieceKeeper.Proofs.Piece.Moves

/-!
# Observations keep to the rules
-/

namespace PieceKeeper

variable {job : Job} {history : History}

namespace Operation

open Attempt

/-- A successful update settles its piece with the status that the finding names. -/
theorem resolved?_settlement {piece settled : Piece} {record : TransactionRecord} {now : Instant}
    {finding : Finding} (h : piece.settle record now = (settled, .ok finding))
    (hfinding : finding = .added ∨ finding = .failed) (status : Status) :
    (Event.answered (.table (.update settled .pending)) (.ok true)).resolved? status =
      if finding.status? = some status then some settled.id else none := by
  rcases Piece.settle_final_cases h hfinding with ⟨rfl, -, -, rfl⟩ | ⟨rfl, -, message, rfl⟩
  · cases status <;> rfl
  · cases status <;> rfl

theorem follows_recordFinding {start : History} {id hash : String} {piece settled : Piece}
    {record : TransactionRecord} {now : Instant} {finding : Finding} (hwatches : job.task.Watches)
    (hstart : start.Spares history) (hfound : history.Found id piece)
    (hstatus : piece.status = .pending) (htransaction : piece.transaction = some hash)
    (hlookup : Event.answered (.lookup hash) (.ok (some record)) ∈ history)
    (hsettle : piece.settle record now = (settled, .ok finding)) :
    (recordFinding settled finding).Follows job.Allows
      (fun later answer ↦ start.Resolves later id answer.1 answer.2)
      (fun later _ ↦ start.Spares later) history := by
  rw [recordFinding]
  split
  · rename_i hfinal
    obtain ⟨-, hid, -⟩ := Piece.settle_eq_ok hsettle hfinal
    refine Follows.bind (follows_table (.settlement hfound hstatus htransaction hlookup hsettle hfinal
      hwatches) (fun updated ↦ ?_) fun fault ↦ hstart.exchange fun _ ↦ rfl)
    cases updated with
    | false => exact follows_refuse (hstart.exchange fun _ ↦ rfl)
    | true =>
      refine follows_pure ⟨⟨piece, hfound.mono (history.subset_exchange _ _), hid.symm⟩, ?_⟩
      intro status
      rw [History.resolved_exchange, resolved?_settlement hsettle hfinal, hstart status]
      split <;> rfl
  · rename_i hfinal
    rcases Piece.settle_cases hsettle with ⟨rfl, rfl⟩ | ⟨rfl, -⟩ | ⟨rfl, -⟩
    · exact follows_pure (hstart.resolves hfound rfl)
    · simp at hfinal
    · simp at hfinal

theorem follows_settleBy {start : History} {id hash : String} {piece : Piece}
    {found : Option TransactionRecord} (hwatches : job.task.Watches)
    (hstart : start.Spares history) (hfound : history.Found id piece)
    (hstatus : piece.status = .pending) (htransaction : piece.transaction = some hash)
    (hlookup : Event.answered (.lookup hash) (.ok found) ∈ history) :
    (settleBy piece found).Follows job.Allows
      (fun later answer ↦ start.Resolves later id answer.1 answer.2)
      (fun later _ ↦ start.Spares later) history := by
  cases found with
  | none => exact follows_pure (hstart.resolves hfound rfl)
  | some record =>
    refine Follows.bind (follows_ask trivial fun now ↦ ?_)
    refine Follows.bind (follows_ofOutcome (fun finding hfinding ↦ ?_)
      fun _ _ ↦ hstart.exchange fun _ ↦ rfl)
    exact follows_recordFinding hwatches (hstart.exchange fun _ ↦ rfl)
      (hfound.mono (history.subset_exchange _ _)) hstatus htransaction
      (history.subset_exchange _ _ hlookup) (Prod.ext rfl hfinding)

theorem follows_observeLocked {start : History} {id : String} {strict : Bool}
    (hwatches : job.task.Watches) (hstart : start.Spares history) :
    (observeLocked id strict).Follows job.Allows
      (fun later answer ↦ start.Resolves later id answer.1 answer.2)
      (fun later _ ↦ start.Spares later) history := by
  have hread (found : Outcome (Option Piece)) :
      start.Spares (history.exchange (.table (.find id)) found) := hstart.exchange fun _ ↦ rfl
  refine Follows.bind (follows_find (fun piece ↦ ?_) (hread _) fun _ ↦ hread _)
  have hfound : (history.exchange (.table (.find id)) (.ok (some piece))).Found id piece := by
    simp [History.Found]
  split
  · split
    · exact follows_refuse (hread _)
    · exact follows_pure ((hread _).resolves hfound rfl)
  · rename_i hstatus
    split
    · split
      · exact follows_refuse (hread _)
      · exact follows_pure ((hread _).resolves hfound rfl)
    · rename_i hash htransaction
      refine Follows.bind ⟨trivial, fun answer ↦ ?_⟩
      cases answer with
      | error fault => exact (hread _).exchange fun _ ↦ rfl
      | ok found =>
        exact follows_settleBy hwatches ((hread _).exchange fun _ ↦ rfl)
          (hfound.mono (History.subset_exchange _ _ _)) (not_not.mp hstatus) htransaction (by simp)

/-- A look at a piece settles it if it says so, and nothing else, whatever it is answered. -/
theorem follows_observe {locks : Nat} {id : String} {strict : Bool} (hwatches : job.task.Watches) :
    (observe locks id strict).Follows job.Allows
      (fun later answer ↦ history.Resolves later id answer.1 answer.2)
      (fun later _ ↦ history.Spares later) history := by
  refine Follows.holding trivial (fun _ ↦ trivial) (Follows.mono (follows_observeLocked hwatches
    ((History.Spares.refl history).exchange fun _ ↦ rfl)) ?_ ?_)
  · rintro later ⟨piece, finding⟩ ⟨⟨found, hfound, hid⟩, hresolved⟩
    exact ⟨⟨found, hfound.mono (later.subset_exchange _ _), hid⟩, hresolved⟩
  · intro later fault hspares
    exact hspares.exchange fun _ ↦ rfl

theorem settled_tally (report : Report) (result : Outcome (Piece × Finding)) (status : Status) :
    (report.tally (result.map (·.2))).settled status =
      report.settled status + settled result status := by
  cases result with
  | error fault => cases status <;> rfl
  | ok answer =>
    obtain ⟨piece, finding⟩ := answer
    cases finding <;> cases status <;> rfl

/-- What a look at a piece reports, it has added to what was settled. -/
theorem length_resolved {start later : History} {id : String} {result : Outcome (Piece × Finding)}
    (h : Ends (fun later answer ↦ start.Resolves later id answer.1 answer.2)
      (fun later _ ↦ start.Spares later) later result) (status : Status) :
    (later.resolved status).length = settled result status + (start.resolved status).length := by
  cases result with
  | error fault =>
    rw [h status]
    exact (Nat.zero_add _).symm
  | ok answer =>
    rw [h.resolved status, List.length_append, settled]
    congr 1
    split <;> rfl

/-- A round counts the pieces that it settles. -/
theorem follows_observeAll {locks : Nat} {report : Report} {pieces : List Piece}
    (hwatches : job.task.Watches) :
    (observeAll locks report pieces).Follows job.Allows
      (fun later final ↦ ∀ status, (later.resolved status).length + report.settled status =
        (history.resolved status).length + final.settled status) history := by
  induction pieces generalizing report history with
  | nil => exact fun _ ↦ rfl
  | cons piece rest ih =>
    refine Call.Follows.bind (Call.Follows.mono (follows_observe hwatches)
      fun middle result hresult ↦ Call.Follows.mono ih ?_)
    intro later final hfinal status
    have hone := length_resolved hresult status
    have hrest := hfinal status
    rw [settled_tally] at hrest
    omega

theorem follows_reconcile {locks : Nat} (hwatches : job.task.Watches) :
    Call.Follows job.Allows (Task.Concludes .reconcile) (reconcile locks).run [.started] := by
  refine Attempt.Follows.ends (Follows.bind (follows_table trivial (fun pieces ↦ follows_lift
    (Call.Follows.mono (follows_observeAll hwatches) fun later report hreport status ↦ ?_))
    fun fault status ↦ rfl))
  have hnone : Report.settled {} status = 0 := by cases status <;> rfl
  have hcount := hreport status
  rw [hnone] at hcount
  exact hcount.trans (Nat.zero_add _)

end Operation

theorem Manager.follows_monitor {manager : Manager} {id : String} (hwatches : job.task.Watches) :
    Call.Follows job.Allows (Task.Concludes (.monitor id)) (manager.monitor id).run [.started] := by
  refine Attempt.Follows.ends (Attempt.Follows.within (Attempt.Follows.mono
    (Operation.follows_observe hwatches) ?_ ?_))
  · rintro later ⟨piece, finding⟩ hresolves
    refine ⟨@Operation.length_resolved _ later id (.ok (piece, finding)) hresolves, ?_⟩
    intro status settled hsettled
    rw [hresolves.resolved status] at hsettled
    rcases List.mem_append.mp hsettled with hnew | hold
    · split at hnew
      · rw [List.mem_singleton.mp hnew]
        exact hresolves.found
      · cases hnew
    · cases hold
  · intro later fault hspares
    refine ⟨fun status ↦ congrArg List.length (hspares status), ?_⟩
    intro status settled hsettled
    rw [hspares status] at hsettled
    cases hsettled

end PieceKeeper
