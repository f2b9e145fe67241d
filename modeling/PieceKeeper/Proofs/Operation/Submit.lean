import PieceKeeper.Proofs.Operation.Reading
import PieceKeeper.Proofs.Piece.Moves

/-!
# Submissions keep to the rules
-/

namespace PieceKeeper

variable {job : Job} {history : History}

namespace Operation

open Attempt

theorem follows_record {piece : Piece} (hwrites : job.Writes history piece .uploaded) :
    (record piece).Follows job.Allows (fun _ _ ↦ True) (fun _ _ ↦ True) history := by
  refine Follows.bind (follows_table hwrites (fun updated ↦ ?_) fun _ ↦ trivial)
  split
  · exact follows_pure trivial
  · exact follows_refuse trivial

theorem follows_recordSubmission {id : String} {proofSet : UInt64} {piece : Piece} {root : Root}
    {answer : Outcome String} (howns : job.Owns history id proofSet piece root)
    (hanswer : Event.answered (.submit proofSet root) answer ∈ history) :
    (recordSubmission (piece.claimedFor proofSet root.rootCid) proofSet answer).Follows job.Allows
      (fun _ _ ↦ True) (fun _ _ ↦ True) history := by
  cases answer with
  | ok hash =>
    refine Follows.bind (follows_ask trivial fun submitted ↦ ?_)
    refine Follows.bind (follows_ask trivial fun now ↦ ?_)
    refine Follows.bind (follows_ofOutcome (fun moved hmoved ↦ ?_) fun _ _ ↦ trivial)
    obtain ⟨-, rfl⟩ := Piece.moveTo_eq_ok.mp hmoved
    have howns' : job.Owns ((history.exchange .now submitted).exchange .now now) id proofSet piece
      root := howns.mono fun _ h ↦ by simp [h]
    have hwrites : job.Writes ((history.exchange .now submitted).exchange .now now)
      ((piece.claimedFor proofSet root.rootCid).submittedAs hash submitted now) .uploaded :=
      .submission howns' (by simp [hanswer])
    exact Follows.bind (Follows.mono (follows_record hwrites) (fun _ _ _ ↦ follows_pure trivial)
      fun _ _ _ ↦ trivial)
  | error fault =>
    refine Follows.bind (follows_ask trivial fun now ↦ ?_)
    refine Follows.bind (follows_ofOutcome (fun moved hmoved ↦ ?_) fun _ _ ↦ trivial)
    obtain ⟨-, rfl⟩ := Piece.moveTo_eq_ok.mp hmoved
    have howns' : job.Owns (history.exchange .now now) id proofSet piece root :=
      howns.mono (history.subset_exchange .now now)
    have hwrites : job.Writes (history.exchange .now now)
      ((piece.claimedFor proofSet root.rootCid).refusedWith (refusalMessage proofSet fault) now)
      .uploaded := .refusal howns' (by simp [hanswer])
    exact Follows.bind (follows_lift (Call.Follows.mono (follows_record hwrites)
      fun _ _ _ ↦ follows_refuse trivial))

/-- Once a piece is free and its root is known, it is claimed, and the ledger is told of it only
if the claim was granted. -/
theorem follows_submitLocked {id : String} {proofSet : UInt64}
    (htask : job.task = .submit id proofSet) (hfresh : ¬ history.Submits) :
    (submitLocked job.manager.sectorSize id proofSet).Follows job.Allows
      (fun later _ ↦ ∃ piece, later.Found id piece ∧ checkFree piece = .ok ())
      (fun later fault ↦ Task.Reads later id (fun fault ↦ fault)
        (fun piece outcome ↦ ∀ refusal, checkFree piece = .error refusal →
          outcome = .error refusal) (.error fault : Outcome Piece)) history := by
  refine Follows.bind (follows_find (fun piece ↦ ?_) (Or.inr (Or.inl ⟨by simp, rfl⟩))
    fun fault ↦ Or.inl ⟨fault, by simp, rfl⟩)
  refine Follows.bind (follows_ofOutcome (fun _ hfree ↦ ?_) fun fault hfault ↦ ?_)
  · have hfound : (history.exchange (.table (.find id)) (.ok (some piece))).Found id piece := by
      simp [History.Found]
    -- What comes now has no bearing on the outcome for a piece that is not free.
    refine Follows.weaken ?_ (fun later _ hsub ↦ ⟨piece, hfound.mono hsub, hfree⟩)
      fun later _ hsub ↦ Or.inr (Or.inr ⟨piece, hfound.mono hsub, fun refusal hrefusal ↦ ?_⟩)
    rotate_left
    · rw [hfree] at hrefusal
      cases hrefusal
    refine Follows.bind (follows_ofOutcome (fun root hroot ↦ ?_) fun _ _ ↦ trivial)
    refine Follows.bind (follows_ask trivial fun now ↦ ?_)
    have hintends : job.Intends (history.exchange (.table (.find id)) (.ok (some piece))) id proofSet
      piece root := ⟨htask, hfound, hfree, hroot⟩
    refine Follows.bind (follows_table ⟨id, piece, root, hintends.mono fun _ h ↦ by simp [h], rfl, rfl⟩
      (fun claimed ↦ ?_) fun _ ↦ trivial)
    split
    · rename_i hclaimed
      subst hclaimed
      refine Follows.bind (follows_ask ⟨⟨id, piece, hintends.mono fun _ h ↦ by simp [h], now,
        by simp⟩, by simp [hfresh]⟩ fun answer ↦ ?_)
      exact follows_recordSubmission ⟨hintends.mono fun _ h ↦ by simp [h], now, by simp⟩ (by simp)
    · exact follows_refuse trivial
  · refine Or.inr (Or.inr ⟨piece, by simp [History.Found], fun refusal hrefusal ↦ ?_⟩)
    rw [hfault] at hrefusal
    cases hrefusal
    rfl

end Operation

theorem Manager.follows_submit {id : String} {proofSet : UInt64}
    (htask : job.task = .submit id proofSet) (hfresh : ¬ history.Submits) :
    Call.Follows job.Allows (Task.Concludes (.submit id proofSet))
      (job.manager.submit id proofSet).run history := by
  refine Attempt.Follows.ends (Attempt.Follows.within (Attempt.Follows.holding trivial
    (fun _ ↦ trivial) (Attempt.Follows.mono (Operation.follows_submitLocked htask
      (by simpa using hfresh)) ?_ ?_)))
  · rintro later answer ⟨piece, hfound, hfree⟩
    refine Or.inr (Or.inr ⟨piece, hfound.mono (later.subset_exchange _ _), fun fault hfault ↦ ?_⟩)
    rw [hfree] at hfault
    cases hfault
  · rintro later fault (⟨cause, hread, hfault⟩ | ⟨hread, hfault⟩ | ⟨piece, hfound, hrest⟩)
    · cases hfault
      exact Or.inl ⟨cause, later.subset_exchange _ _ hread, rfl⟩
    · cases hfault
      exact Or.inr (Or.inl ⟨later.subset_exchange _ _ hread, rfl⟩)
    · refine Or.inr (Or.inr ⟨piece, hfound.mono (later.subset_exchange _ _), fun refusal hrefusal ↦ ?_⟩)
      cases hrest refusal hrefusal
      rfl

end PieceKeeper
