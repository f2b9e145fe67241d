import PieceKeeper.Proofs.Operation.Reading
import PieceKeeper.Proofs.Piece.Moves

/-!
# Uploads keep to the rules
-/

namespace PieceKeeper

variable {job : Job} {history : History}

namespace Operation

open Attempt

theorem follows_shelve {id : String} {body : Bytes} {committed : CommittedPiece}
    (hoffers : job.task.Offers history id body) (hof : committed.Of body)
    (hfresh : ∀ draft, history.handled draft = []) :
    (shelve committed.contentId committed.padded).Follows job.Allows
      (fun later _ ↦ Shelf.checkKey committed.contentId = .ok () ∧ later.Shelved committed.contentId)
      (fun _ _ ↦ True) history := by
  refine Follows.bind (follows_ofOutcome (fun _ hkey ↦ ?_) fun _ _ ↦ trivial)
  refine Follows.bind (follows_shelf trivial fun held ↦ ?_)
  split
  · rename_i hheld
    exact follows_pure ⟨hkey, Or.inl (by simp [← hheld])⟩
  refine Follows.bind (follows_ask trivial fun _ ↦ ?_)
  refine Follows.bind (follows_shelf trivial fun place ↦ ?_)
  refine Follows.bind (follows_ofFile (fun _ _ ↦ ?_) fun _ _ ↦ trivial)
  refine Follows.bind (follows_shelf trivial fun draft ↦ ?_)
  refine Follows.bind (follows_ask trivial fun _ ↦ ?_)
  refine Follows.bind (follows_shelf ⟨by simp [History.Drew], by simp [hfresh, Request.draft?], id, body,
    committed, hoffers.mono fun _ h ↦ by simp [h], hof, rfl, rfl⟩ fun written ↦ ?_)
  cases written with
  | error failure =>
    refine Follows.bind (follows_shelf (by simp [Job.Allows, History.Drew]) fun _ ↦ ?_)
    exact follows_ofFile (fun _ h ↦ nomatch h) fun _ _ ↦ trivial
  | ok _ =>
    refine Follows.bind (follows_shelf trivial fun again ↦ ?_)
    split
    · rename_i hagain
      refine Follows.bind (follows_ask trivial fun _ ↦ ?_)
      refine Follows.bind (follows_shelf (by simp [Job.Allows, History.Drew]) fun _ ↦ ?_)
      refine Follows.bind (follows_ofFile (fun _ _ ↦ ?_) fun _ _ ↦ trivial)
      exact follows_pure ⟨hkey, Or.inl (by simp [← hagain])⟩
    · refine Follows.bind (follows_ask trivial fun _ ↦ ?_)
      refine Follows.bind (follows_shelf ⟨by simp [History.Drew], committed.padded,
        by simp [History.Wrote], by simp [hfresh, Request.draft?]⟩ fun published ↦ ?_)
      refine Follows.bind (follows_ofFile (fun _ hpublished ↦ ?_) fun _ _ ↦ trivial)
      exact follows_pure ⟨hkey, Or.inr ⟨draft, by simp [hpublished]⟩⟩

theorem follows_uploadLocked {id : String} {body : Bytes}
    (hoffers : job.task.Offers history id body) (hfresh : ∀ draft, history.handled draft = []) :
    (uploadLocked id body).Follows job.Allows
      (fun later answer ↦ job.task.Stored later id answer.1) (fun _ _ ↦ True) history := by
  refine Follows.bind (follows_find (fun piece ↦ ?_) trivial fun _ ↦ trivial)
  refine Follows.bind (follows_ofOutcome (fun _ hcheck ↦ ?_) fun _ _ ↦ trivial)
  refine Follows.bind (follows_ask trivial fun _ ↦ ?_)
  refine Follows.bind (follows_ofOutcome (fun committed hcommitted ↦ ?_) fun _ _ ↦ trivial)
  refine Follows.bind (follows_table trivial (fun holder ↦ ?_) fun _ ↦ trivial)
  cases holder with
  | some holder => exact Follows.bind (follows_refuse trivial)
  | none =>
    refine Follows.bind (Follows.mono (follows_shelve (hoffers.mono fun _ h ↦ by simp [h])
      ⟨size_of_checkContent hcheck, hcommitted⟩ (by simp [hfresh, Request.draft?])).grows ?_
      fun _ _ _ ↦ trivial)
    rintro later written ⟨hsub, hkey, hshelved⟩
    have hfound : later.Found id piece := hsub (by simp)
    have hoffers' : job.task.Offers later id body := hoffers.mono fun _ h ↦ hsub (by simp [h])
    refine Follows.bind (follows_ask trivial fun now ↦ ?_)
    refine Follows.bind (follows_ofOutcome (fun moved hmoved ↦ ?_) fun _ _ ↦ trivial)
    obtain ⟨-, rfl⟩ := Piece.moveTo_eq_ok.mp hmoved
    refine Follows.bind (follows_table (Job.Writes.upload
      (hoffers'.mono (later.subset_exchange _ _)) (hfound.mono (later.subset_exchange _ _)) hcheck
      hcommitted (hshelved.mono (later.subset_exchange _ _))) (fun updated ↦ ?_) fun _ ↦ trivial)
    split
    · rename_i hupdated
      refine follows_pure ⟨⟨body, committed, hoffers'.mono fun _ h ↦ by simp [h],
        ⟨size_of_checkContent hcheck, hcommitted⟩, hkey, piece, hfound.mono fun _ h ↦ by simp [h], now,
        rfl⟩, by simp [← hupdated]⟩
    · exact follows_refuse trivial

theorem follows_upload {locks : Nat} {id : String} {body : Bytes}
    (hoffers : job.task.Offers history id body) (hfresh : ∀ draft, history.handled draft = []) :
    (upload locks id body).Follows job.Allows
      (fun later answer ↦ job.task.Stored later id answer.1) (fun _ _ ↦ True) history := by
  refine Follows.holding trivial (fun _ ↦ trivial) ?_
  refine Follows.mono (follows_uploadLocked (hoffers.mono fun _ h ↦ by simp [h])
    (by simp [hfresh, Request.draft?])) (fun later answer hstored ↦ ?_) fun _ _ _ ↦ trivial
  exact hstored.mono fun _ h ↦ by simp [h]

theorem follows_uploadFromSource {locks : Nat} {id : String}
    (htask : job.task = .uploadFromSource id) (hfresh : ∀ draft, history.handled draft = []) :
    (uploadFromSource locks id).Follows job.Allows
      (fun later answer ↦ job.task.Stored later id answer.1) (fun _ _ ↦ True) history := by
  refine Follows.bind (follows_find (fun piece ↦ ?_) trivial fun _ ↦ trivial)
  split
  · exact follows_refuse trivial
  · rename_i path _
    refine Follows.bind (follows_ask trivial fun _ ↦ ?_)
    refine Follows.bind (follows_ask trivial fun read ↦ ?_)
    cases read with
    | error failure => exact follows_refuse trivial
    | ok body =>
      exact follows_upload (Or.inr ⟨htask, path, by simp⟩) (by simp [hfresh, Request.draft?])

end Operation

end PieceKeeper
