import PieceKeeper.Proofs.Operation.Monitor
import PieceKeeper.Proofs.Operation.Submit
import PieceKeeper.Proofs.Operation.Upload

/-!
# Every job keeps to its rules
-/

namespace PieceKeeper

variable {job : Job} {history : History}

namespace Operation

open Attempt

/-- No source is measured as empty. -/
theorem follows_measure {source : Source} :
    source.measure.Follows job.Allows (fun _ measured ↦ measured.2 ≠ some 0) (fun _ _ ↦ True)
      history := by
  cases source with
  | declared size =>
    rw [Source.measure]
    split
    · exact follows_refuse trivial
    · rename_i hsize
      exact follows_pure hsize
  | file path =>
    refine Follows.bind (follows_ask trivial fun _ ↦ ?_)
    refine Follows.bind (follows_ask trivial fun found ↦ ?_)
    split
    · exact follows_refuse trivial
    · exact follows_refuse trivial
    · dsimp only
      split
      · exact follows_refuse trivial
      · rename_i hsize
        exact follows_pure fun heq ↦ hsize (Option.some.inj heq)

theorem follows_prepare {source : Source} :
    (prepare source).Follows job.Allows (fun _ _ ↦ True) (fun _ _ ↦ True) history := by
  refine Follows.bind (Follows.mono follows_measure (fun later measured hsize ↦ ?_)
    fun _ _ _ ↦ trivial)
  refine Follows.bind (follows_ask trivial fun id ↦ ?_)
  refine Follows.bind (follows_ask trivial fun now ↦ ?_)
  exact Follows.bind (follows_table ⟨id, measured.1, measured.2, now, rfl, hsize⟩
    (fun _ ↦ follows_pure trivial) fun _ ↦ trivial)

end Operation

/-- Every task, whoever does it, makes only requests that its rule allows, and its outcome says
what it should. -/
theorem Job.follows (job : Job) : job.call.Follows job.Allows job.task.Concludes [.started] := by
  obtain ⟨manager, task⟩ := job
  cases task with
  | prepare source =>
    exact Attempt.Follows.ends (Attempt.Follows.mono Operation.follows_prepare (fun _ _ _ ↦ trivial)
      fun _ _ _ ↦ trivial)
  | upload id body =>
    exact Attempt.Follows.ends (Attempt.Follows.within (Attempt.Follows.bind (Attempt.Follows.mono
      (Operation.follows_upload (Or.inl rfl) fun _ ↦ rfl) (fun _ _ hstored ↦ hstored)
      fun _ _ _ ↦ trivial)))
  | uploadFromSource id =>
    exact Attempt.Follows.ends (Attempt.Follows.within (Attempt.Follows.bind (Attempt.Follows.mono
      (Operation.follows_uploadFromSource rfl fun _ ↦ rfl) (fun _ _ hstored ↦ hstored)
      fun _ _ _ ↦ trivial)))
  | submit id proofSet =>
    exact Manager.follows_submit rfl (by rintro ⟨_, _, h⟩; simp at h)
  | monitor id => exact Manager.follows_monitor trivial
  | reconcile => exact Operation.follows_reconcile trivial
  | get id =>
    exact Attempt.Follows.ends (Operation.follows_find (fun _ ↦ trivial) trivial fun _ ↦ trivial)
  | list limit =>
    exact Attempt.Follows.ends (Attempt.follows_table trivial (fun _ ↦ trivial) fun _ ↦ trivial)
  | content id => exact Manager.follows_content

end PieceKeeper
