import PieceKeeper.Proofs.Company.Requests

/-!
# Errands in company

Every errand keeps its place among the turns: a preparation takes its turn when its row is added, an
upload and a look at a piece when the row is written or it is known that it will not be, and a
submission when the ledger answers.
-/

namespace PieceKeeper

open Company

variable {stage : Stage} {ticket : Nat} {errand : Errand} {id : String} {piece : Piece}

namespace Operation

open Attempt

theorem refines_prepare (source : Source) :
    (prepare source).Refines stage ticket (.prepare source)
      (fun answer ↦ Stand.Done stage ticket (.prepare source) (.ok (answer.timeless, none)))
      (fun fault ↦ Stand.Done stage ticket (.prepare source) (.error fault.kind)) {} := by
  cases hmeasured : source.measured (stage.outside ticket) with
  | error fault =>
    refine Refines.bind (refines_measure ?_)
    rw [hmeasured]
    refine ⟨rfl, Or.inr ⟨rfl, fun w hw _ ↦ hw.turn_rest fun mirror hmirror _ ↦ ?_⟩⟩
    exact Stage.ends_prepare_unmeasured hmirror hmeasured
  | ok measured =>
    obtain ⟨path, size⟩ := measured
    refine Refines.bind (refines_measure ?_)
    rw [hmeasured]
    refine Refines.bind (refines_silent trivial ?_)
    refine Refines.bind (refines_now fun now hnow ↦ ?_)
    have hread : (Piece.prepare (stage.outside ticket .freshId) path size now).IsReadable :=
      ⟨hnow, hnow, fun _ heq ↦ by cases heq⟩
    refine Refines.bind (refines_insert hread rfl
      (fun mirror hmirror htaken ↦ Stage.ends_prepare_taken hmirror hmeasured htaken)
      (fun mirror hmirror hfree ↦ Stage.ends_prepare_new hmirror hmeasured rfl hfree)
      (fun fault hkind ↦ ?_) (refines_pure ⟨rfl, Or.inl rfl⟩))
    rw [hkind]
    exact ⟨rfl, Or.inl rfl⟩

theorem refines_uploadLocked (id : String) (body : Bytes) :
    (uploadLocked id body).Refines stage ticket (.upload id body)
      (fun answer ↦ Stand.Leaves stage ticket (.upload id body) id (.ok (answer.1.timeless, none)))
      (fun fault ↦ Stand.Leaves stage ticket (.upload id body) id (.error fault.kind))
      { piece := some id } := by
  refine Refines.bind (refines_find (fun mirror hmirror hnone ↦ Stage.ends_upload_missing hmirror hnone)
    ⟨rfl, rfl, Or.inl rfl⟩ fun piece hid hread ↦ ?_)
  cases hcheck : checkContent piece id (.ofNat body.length) with
  | error fault =>
    refine Refines.bind (refines_ofOutcome hcheck (Stand.leaves_of_ends fun mirror hmirror hhas ↦ ?_))
    exact Stage.ends_upload_refused hmirror hhas (by rw [hcheck]; rfl)
  | ok _ =>
    refine Refines.bind (refines_ofOutcome hcheck (Refines.bind (refines_silent trivial ?_)))
    cases hcommitted : CommittedPiece.ofContent body with
    | error fault =>
      refine Refines.bind (refines_ofOutcome rfl (Stand.leaves_of_ends fun mirror hmirror hhas ↦ ?_))
      exact Stage.ends_upload_refused hmirror hhas (by rw [hcheck]; exact hcommitted)
    | ok committed =>
      have hheld (mirror : Archive) (hmirror : mirror.Sound) (hhas : mirror.book.Has id piece)
          (hholder : mirror.book.holder? committed.contentId ≠ none) :
          stage.Ends ticket (.upload id body) mirror (.error .conflict) (· = mirror.book) [] :=
        Stage.ends_upload_held hmirror hhas hcheck hcommitted hholder
      refine Refines.bind (refines_ofOutcome rfl ?_)
      refine Refines.bind (refines_findContent hheld
        (fun holder ↦ Refines.bind (refines_refuse ⟨rfl, rfl, Or.inl rfl⟩)) fun hown ↦ ?_)
      refine Refines.bind (refines_shelve rfl committed.checkKey_contentId
        committed.length_contentId_le fun written ↦ ?_)
      refine Refines.bind (refines_now fun now hnow ↦ ?_)
      have hstatus := status_of_checkContent hcheck
      have hmove : (piece.withContent (.ofNat body.length) committed).moveTo .uploaded "upload" now =
          .ok (piece.uploadedAs (.ofNat body.length) committed now) :=
        Piece.moveTo_eq_ok.mpr ⟨by rw [Piece.withContent, hstatus]; rfl, rfl⟩
      refine Refines.bind (refines_ofOutcome hmove ?_)
      refine Refines.bind (refines_store hstatus rfl rfl rfl hown
        ⟨hread.created, hnow, hread.submitted⟩
        (fun mirror hmirror hhas hnone ↦ Stage.ends_upload_new hmirror hhas hcheck hcommitted hnone)
        hheld (fun fault hkind ↦ ?_) (refines_pure ⟨rfl, rfl, Or.inl rfl⟩))
      rw [hkind]
      exact ⟨rfl, rfl, Or.inl rfl⟩

theorem refines_submitLocked (id : String) (proofSet : UInt64) :
    (submitLocked stage.manager.sectorSize id proofSet).Refines stage ticket (.submit id proofSet)
      (fun answer ↦ Stand.Leaves stage ticket (.submit id proofSet) id (.ok (answer.timeless, none)))
      (fun fault ↦ Stand.Leaves stage ticket (.submit id proofSet) id (.error fault.kind))
      { piece := some id } := by
  refine Refines.bind (refines_find (fun mirror hmirror hnone ↦ Stage.ends_submit_missing hmirror hnone)
    ⟨rfl, rfl, Or.inl rfl⟩ fun piece hid hread ↦ ?_)
  cases hfree : checkFree piece with
  | error fault =>
    refine Refines.bind (refines_ofOutcome rfl (Stand.leaves_of_ends fun mirror hmirror hhas ↦ ?_))
    exact Stage.ends_submit_refused hmirror hhas (by rw [hfree]; rfl)
  | ok _ =>
    refine Refines.bind (refines_ofOutcome rfl ?_)
    cases hroot : rootOf piece stage.manager.sectorSize with
    | error fault =>
      refine Refines.bind (refines_ofOutcome rfl (Stand.leaves_of_ends fun mirror hmirror hhas ↦ ?_))
      exact Stage.ends_submit_refused hmirror hhas (by rw [hfree]; exact hroot)
    | ok root =>
      refine Refines.bind (refines_ofOutcome rfl ?_)
      refine Refines.bind (refines_now fun now hnow ↦ ?_)
      by_cases htransaction : piece.transaction = none
      · refine Refines.bind (refines_claim hfree htransaction hid hread hnow ?_)
        have hstatus : (piece.heldFor proofSet root.rootCid now).status = .uploaded :=
          (checkFree_eq_ok.mp hfree).1
        cases hanswer : stage.outside ticket (.submit proofSet root) with
        | ok hash =>
          refine Refines.bind (refines_submit (fun mirror hmirror hhas ↦ Stage.ends_submit_accepted
            hmirror hhas hfree hroot htransaction hanswer) hid rfl ?_)
          rw [hanswer]
          refine Refines.bind (refines_now fun submitted hsubmitted ↦ ?_)
          refine Refines.bind (refines_now fun later hlater ↦ ?_)
          refine Refines.bind (refines_ofOutcome (moveTo_submittedAs submitted later hstatus) ?_)
          refine Refines.bind (refines_record hstatus rfl rfl rfl ?_ rfl ?_)
          · exact ⟨hread.created, hlater, fun _ heq ↦ Option.some.inj heq ▸ hsubmitted⟩
          · exact refines_pure ⟨rfl, rfl, Or.inl rfl⟩
        | error fault =>
          refine Refines.bind (refines_submit (fun mirror hmirror hhas ↦ Stage.ends_submit_rejected
            hmirror hhas hfree hroot htransaction hanswer) hid rfl ?_)
          rw [hanswer]
          refine Refines.bind (refines_now fun later hlater ↦ ?_)
          refine Refines.bind (refines_ofOutcome (moveTo_refusedWith proofSet fault later hstatus) ?_)
          have hrecorded : (record ((piece.claimedFor proofSet root.rootCid).refusedWith
              (refusalMessage proofSet fault) later)).Refines stage ticket (.submit id proofSet)
              (fun _ ↦ Stand.Leaves stage ticket (.submit id proofSet) id (.error .ledger))
              (fun _ _ ↦ False)
              { piece := some id, row := some (piece.heldFor proofSet root.rootCid now)
                edit := some ((piece.claimedFor proofSet root.rootCid).refusedWith
                  (refusalMessage proofSet fault) .epoch)
                verdict := some (.error .ledger) } :=
            refines_record hstatus rfl rfl rfl ⟨hread.created, hlater, hread.submitted⟩ rfl
              ⟨rfl, rfl, Or.inl rfl⟩
          refine Refines.bind (refines_lift (Call.Refines.mono hrecorded fun outcome st hend ↦ ?_))
          cases outcome with
          | ok _ => exact refines_refuse hend
          | error fault => exact hend.elim
      · refine Refines.bind (refines_claim_taken htransaction hid (refines_refuse ?_))
        exact Stand.leaves_of_ends fun mirror hmirror hhas ↦
          Stage.ends_submit_taken hmirror hhas hfree hroot htransaction

section Watching

variable {strict : Bool}

/-- A look at a piece ends that has nothing to write. -/
theorem leaves_of_outlook {verdict : Verdict}
    (houtlook : outlook (stage.outside ticket) piece strict = verdict)
    (hrest : ∀ settled finding, verdict = .ok (settled, some finding) → ¬ finding.IsFinal) :
    Stand.Leaves stage ticket (.look id strict) id verdict { piece := some id, row := some piece } :=
  Stand.leaves_of_ends fun _ hmirror hhas ↦ Stage.ends_look_rest hmirror hhas houtlook hrest

theorem refines_recordFinding {settled : Piece} {record : TransactionRecord} {now : Instant}
    {finding : Finding} (hread : piece.IsReadable) (hstatus : piece.status = .pending)
    (hnow : now.IsReadable) (hsettle : piece.settle record now = (settled, .ok finding))
    (houtlook : outlook (stage.outside ticket) piece strict = .ok (settled.timeless, some finding)) :
    (recordFinding settled finding).Refines stage ticket (.look id strict)
      (fun answer ↦ Stand.Leaves stage ticket (.look id strict) id
        (.ok (answer.1.timeless, some answer.2)))
      (fun fault ↦ Stand.Leaves stage ticket (.look id strict) id (.error fault.kind))
      { piece := some id, row := some piece } := by
  rw [recordFinding]
  split
  · rename_i hfinal
    have hends (mirror : Archive) (hmirror : mirror.Sound) (hhas : mirror.book.Has id piece) :=
      Stage.ends_look_settled hmirror hhas houtlook hfinal
    obtain ⟨status, message, rfl⟩ :
        ∃ status message, settled = piece.settledAs record status message now := by
      rcases Piece.settle_final_cases hsettle hfinal with ⟨-, -, -, rfl⟩ | ⟨-, -, message, rfl⟩
      · exact ⟨_, _, rfl⟩
      · exact ⟨_, _, rfl⟩
    exact Refines.bind (refines_settle hstatus rfl rfl rfl ⟨hread.created, hnow, hread.submitted⟩ hends
      (refines_pure ⟨rfl, rfl, Or.inl rfl⟩))
  · rename_i hrest
    refine refines_pure (leaves_of_outlook houtlook ?_)
    rintro _ _ ⟨⟩
    exact hrest

theorem refines_settleBy {answer : Option TransactionRecord} (hread : piece.IsReadable)
    (hstatus : piece.status = .pending)
    (houtlook : outlook (stage.outside ticket) piece strict = ruling piece answer) :
    (settleBy piece answer).Refines stage ticket (.look id strict)
      (fun answer ↦ Stand.Leaves stage ticket (.look id strict) id
        (.ok (answer.1.timeless, some answer.2)))
      (fun fault ↦ Stand.Leaves stage ticket (.look id strict) id (.error fault.kind))
      { piece := some id, row := some piece } := by
  cases answer with
  | none =>
    refine refines_pure (leaves_of_outlook houtlook ?_)
    rintro _ _ ⟨⟩
    exact (by decide : ¬ Finding.notIndexed.IsFinal)
  | some record =>
    refine Refines.bind (refines_now fun now hnow ↦ ?_)
    have hruling := houtlook.trans (ruling_settle piece record now)
    cases hsettle : piece.settle record now with
    | mk settled result =>
      rw [hsettle] at hruling
      cases result with
      | error fault =>
        refine Refines.bind (refines_ofOutcome rfl (leaves_of_outlook hruling fun _ _ heq ↦ ?_))
        cases heq
      | ok finding =>
        refine Refines.bind (refines_ofOutcome rfl ?_)
        exact refines_recordFinding hread hstatus hnow hsettle hruling

/-- Only who asks for the one piece is told that there is nothing to watch. -/
theorem refines_unwatched {cause : Cause} (houtlook : outlook (stage.outside ticket) piece strict =
    if strict then .error cause.kind else .ok (piece.timeless, some .skipped)) :
    Attempt.Refines stage ticket (.look id strict)
      (fun answer ↦ Stand.Leaves stage ticket (.look id strict) id
        (.ok (answer.1.timeless, some answer.2)))
      (fun fault ↦ Stand.Leaves stage ticket (.look id strict) id (.error fault.kind))
      (if strict then Attempt.refuse cause else return (piece, .skipped))
      { piece := some id, row := some piece } := by
  split
  · rename_i hstrict
    rw [if_pos hstrict] at houtlook
    refine refines_refuse (leaves_of_outlook houtlook fun _ _ heq ↦ ?_)
    cases heq
  · rename_i hlenient
    rw [if_neg hlenient] at houtlook
    refine refines_pure (leaves_of_outlook houtlook ?_)
    rintro _ _ ⟨⟩
    exact (by decide : ¬ Finding.skipped.IsFinal)

theorem refines_observeLocked (id : String) (strict : Bool) :
    (observeLocked id strict).Refines stage ticket (.look id strict)
      (fun answer ↦ Stand.Leaves stage ticket (.look id strict) id
        (.ok (answer.1.timeless, some answer.2)))
      (fun fault ↦ Stand.Leaves stage ticket (.look id strict) id (.error fault.kind))
      { piece := some id } := by
  refine Refines.bind (refines_find (fun mirror hmirror hnone ↦ Stage.ends_look_missing hmirror hnone)
    ⟨rfl, rfl, Or.inl rfl⟩ fun piece hid hread ↦ ?_)
  split
  · rename_i hstatus
    exact refines_unwatched (by rw [outlook, if_pos hstatus]; rfl)
  · rename_i hstatus
    cases htransaction : piece.transaction with
    | none => exact refines_unwatched (by rw [outlook, if_neg hstatus, htransaction]; rfl)
    | some hash =>
      cases hanswer : stage.outside ticket (.lookup hash) with
      | error fault =>
        have houtlook : outlook (stage.outside ticket) piece strict = .error fault.kind := by
          rw [outlook, if_neg hstatus, htransaction]
          simp only [hanswer]
        refine Refines.bind (refines_lookup hanswer (leaves_of_outlook houtlook fun _ _ heq ↦ ?_))
        cases heq
      | ok answer =>
        have houtlook : outlook (stage.outside ticket) piece strict = ruling piece answer := by
          rw [outlook, if_neg hstatus, htransaction]
          simp only [hanswer]
        exact Refines.bind (refines_lookup hanswer
          (refines_settleBy hread (not_not.mp hstatus) houtlook))

end Watching

end Operation

/-! ## Whole errands -/

open Attempt Operation

/-- Whatever happens beside it, a call that does an errand takes just one turn, and says what is to be
said of its turn. -/
theorem Manager.callFor_refines (errand : Errand) :
    (stage.manager.callFor errand).Refines stage ticket errand
      (fun outcome ↦ Stand.Done stage ticket errand (errand.verdict outcome)) {} := by
  have hattempt (h : (stage.manager.attend errand).Refines stage ticket errand
      (fun answer ↦ Stand.Done stage ticket errand (errand.verdict (.ok answer)))
      (fun fault ↦ Stand.Done stage ticket errand (.error fault.kind)) {}) :
      (stage.manager.callFor errand).Refines stage ticket errand
        (fun outcome ↦ Stand.Done stage ticket errand (errand.verdict outcome)) {} := by
    refine Call.Refines.mono h fun outcome st hend ↦ ?_
    cases outcome with
    | ok answer => exact hend
    | error fault => exact hend
  refine hattempt ?_
  cases errand with
  | prepare source => exact refines_prepare source
  | upload id body =>
    have hupload : (Operation.upload stage.manager.locks id body).Refines stage ticket (.upload id body)
        (fun answer ↦ Stand.Done stage ticket (.upload id body) (.ok (answer.1.timeless, none)))
        (fun fault ↦ Stand.Done stage ticket (.upload id body) (.error fault.kind)) {} :=
      Refines.holding (fun outcome ↦ Errand.verdict (.upload id body) (outcome.map Prod.fst)) rfl
        (refines_uploadLocked id body)
    exact Refines.within (Refines.bind (Refines.mono hupload (fun _ _ hdone ↦ refines_pure hdone)
      fun _ _ hdone ↦ hdone))
  | submit id proofSet =>
    exact Refines.within (Refines.holding (Errand.verdict (.submit id proofSet)) rfl
      (refines_submitLocked id proofSet))
  | monitor id =>
    exact Refines.within (Refines.holding (Errand.verdict (.monitor id)) rfl
      (refines_observeLocked id true))
  | watch id =>
    exact Refines.holding (Errand.verdict (.watch id)) rfl (refines_observeLocked id false)

end PieceKeeper
