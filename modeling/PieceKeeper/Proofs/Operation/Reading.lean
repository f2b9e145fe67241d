import PieceKeeper.Proofs.Run.Conduct

/-!
# Reading keeps to the rules
-/

namespace PieceKeeper

variable {job : Job} {history : History}

namespace Operation

open Attempt

theorem follows_find {id : String} {good : History → Piece → Prop} {bad : History → Fault → Prop}
    (hgood : ∀ piece, good (history.exchange (.table (.find id)) (.ok (some piece))) piece)
    (hnone : bad (history.exchange (.table (.find id)) (.ok none)) { cause := notFound id })
    (herror : ∀ fault, bad (history.exchange (.table (.find id)) (.error fault)) fault) :
    (find id).Follows job.Allows good bad history := by
  refine Follows.bind (follows_table trivial (fun found ↦ ?_) herror)
  cases found with
  | none => exact follows_refuse hnone
  | some piece => exact follows_pure (hgood piece)

theorem follows_unshelve {key : String} :
    (unshelve key).Follows job.Allows
      (fun later content ↦ Event.answered (.shelf (.read key)) (.ok content) ∈ later)
      (fun later _ ↦ Shelf.checkKey key = .ok () →
        Event.answered (.shelf (.holds key)) false ∈ later ∨
          ∃ failure, Event.answered (.shelf (.read key)) (.error failure) ∈ later) history := by
  refine Follows.bind (follows_ofOutcome (fun _ _ ↦ ?_) fun fault hfault hkey ↦ ?_)
  · refine Follows.bind (follows_shelf trivial fun held ↦ ?_)
    split
    · refine Follows.bind (follows_ask trivial fun _ ↦ ?_)
      refine Follows.bind (follows_shelf trivial fun read ↦ ?_)
      exact follows_ofFile (fun content hread ↦ by simp [hread])
        fun failure hread _ ↦ Or.inr ⟨failure, by simp [hread]⟩
    · rename_i hheld
      rw [Bool.not_eq_true] at hheld
      exact follows_refuse fun _ ↦ Or.inl (by simp [hheld])
  · rw [hkey] at hfault
    cases hfault

end Operation

theorem Manager.follows_content {manager : Manager} {id : String} :
    Call.Follows job.Allows (Task.Concludes (.content id)) (manager.content id).run history := by
  refine Attempt.Follows.ends (Attempt.Follows.bind (Operation.follows_find (fun piece ↦ ?_)
    (Or.inr (Or.inl ⟨by simp, rfl⟩)) fun fault ↦ Or.inl ⟨fault, by simp, rfl⟩))
  have hfound : (history.exchange (.table (.find id)) (.ok (some piece))).Found id piece := by
    simp [History.Found]
  split
  · rename_i hnone
    refine Attempt.follows_refuse (Or.inr (Or.inr ⟨piece, hfound, fun contentId hsome ↦ ?_⟩))
    rw [hnone] at hsome
    cases hsome
  · rename_i contentId hsome
    refine Attempt.Follows.within (Attempt.Follows.mono Operation.follows_unshelve.grows ?_ ?_)
    · rintro later content ⟨hsub, hread⟩
      refine Or.inr (Or.inr ⟨piece, hfound.mono hsub, fun other hother _ ↦ ?_⟩)
      rw [hsome] at hother
      cases hother
      exact Or.inr (Or.inr ⟨content, hread, rfl⟩)
    · rintro later fault ⟨hsub, hfailed⟩
      refine Or.inr (Or.inr ⟨piece, hfound.mono hsub, fun other hother hkey ↦ ?_⟩)
      rw [hsome] at hother
      cases hother
      exact (hfailed hkey).imp_right Or.inl

end PieceKeeper
