import PieceKeeper.Proofs.Company.Moves

/-!
# Errands one after the other

How each errand ends when its turn comes, for each of its exits: what is said, what becomes of the
pieces, and what is sent to the ledger.
-/

namespace PieceKeeper

/-! ## How an errand ends -/

/-- When its turn comes, an errand ends with a verdict, changes the pieces in a way, and sends
something. -/
def Company.Stage.Ends (stage : Stage) (ticket : Nat) (errand : Errand) (a : Archive) (verdict : Verdict)
    (change : Book → Prop) (sent : List Submission) : Prop :=
  (stage.manager.callFor errand).Plays stage ticket
    (fun outcome a' ↦ errand.verdict outcome = verdict ∧ a.Leaves change sent a') a

open Company Attempt Operation

variable {stage : Stage} {ticket : Nat} {errand : Errand} {a : Archive} {verdict : Verdict}
  {change : Book → Prop} {sent : List Submission} {piece : Piece} {id : String} {body : Bytes}
  {proofSet : UInt64} {root : Root} {fault : Fault} {committed : CommittedPiece}

theorem Company.Stage.Ends.of_plays (h : (stage.manager.attend errand).Plays stage ticket
    (fun answer a' ↦ .ok (errand.view answer) = verdict ∧ a.Leaves change sent a')
    (fun fault a' ↦ .error fault.kind = verdict ∧ a.Leaves change sent a') a) :
    stage.Ends ticket errand a verdict change sent := by
  refine Call.Plays.mono h fun outcome a' hend ↦ ?_
  cases outcome with
  | ok answer => exact hend
  | error fault => exact hend

theorem Attempt.plays_measure {source : Source} {good : Option String × Option UInt64 → Archive → Prop}
    {bad : Fault → Archive → Prop} (h : Concludes good bad (source.measured (stage.outside ticket)) a) :
    source.measure.Plays stage ticket good bad a :=
  Call.plays_silent source.measure_isSilent h

/-- A verdict is what a report says, but for the text of a fault. -/
theorem Errand.verdict_eq (errand : Errand) (outcome : Outcome errand.Answer) :
    errand.verdict outcome = (errand.report outcome).mapError Fault.kind := by
  cases outcome with
  | ok answer => rfl
  | error fault => rfl

/-- Naming the operation in a fault does not change what kind of a fault it is. -/
theorem Company.Move.kind_mapFault (move : Move) (effect : Effect) :
    (effect.mapFault move.blame).result.mapError Fault.kind = effect.result.mapError Fault.kind := by
  obtain ⟨result, version, blob, sent⟩ := effect
  cases result with
  | ok answer => rfl
  | error fault => exact congrArg Except.error (move.kind_blame fault)

/-- A move ends as its effect says. -/
theorem Company.Stage.Ends.of_effect {effect : Effect} (move : Move) (ha : a.Sound)
    (heffect : move.effect stage ticket a.book = effect.mapFault move.blame)
    (hverdict : effect.result.mapError Fault.kind = verdict)
    (hchange : ∀ book, effect.Writes a.book book → change book) (hsent : effect.sent = sent) :
    stage.Ends ticket move.errand a verdict change sent := by
  refine Call.Plays.mono (move.plays ha) fun outcome a' hend ↦ ?_
  rw [heffect] at hend
  refine ⟨?_, hend.changes.open_, hchange _ hend.changes.book, hsent ▸ hend.changes.sent⟩
  rw [move.errand.verdict_eq, hend.result, move.kind_mapFault, hverdict]

theorem Company.Stage.Ends.of_missing (move : Move) (ha : a.Sound)
    (hnone : a.book.piece? move.piece = none) :
    stage.Ends ticket move.errand a (.error .notFound) (· = a.book) [] :=
  .of_effect move ha (Move.effect_of_none hnone) rfl (fun _ hbook ↦ hbook) rfl

/-- A move ends as its effect on a piece says that is there up to times. -/
theorem Company.Stage.Ends.of_has {effect : Effect} (move : Move) (ha : a.Sound)
    (hhas : a.book.Has move.piece piece)
    (heffect : move.effectOn stage ticket (a.book.keeper? move.contentId?) piece.timeless = effect)
    (hverdict : effect.result.mapError Fault.kind = verdict)
    (hchange : ∀ book, effect.Writes a.book book → change book) (hsent : effect.sent = sent) :
    stage.Ends ticket move.errand a verdict change sent := by
  obtain ⟨image, himage, hsame⟩ := hhas
  refine .of_effect move ha ?_ hverdict hchange hsent
  rw [Move.effect_of_some himage, hsame, heffect]

namespace Company.Stage

/-! ## Preparing -/

theorem ends_prepare_unmeasured {source : Source} (ha : a.Sound)
    (hmeasured : source.measured (stage.outside ticket) = .error fault) :
    stage.Ends ticket (.prepare source) a (.error fault.kind) (· = a.book) [] := by
  refine .of_plays (Plays.bind (plays_measure ?_))
  rw [hmeasured]
  exact ⟨rfl, ha.leaves⟩

theorem ends_prepare_taken {source : Source} {path : Option String} {size : Option UInt64} (ha : a.Sound)
    (hmeasured : source.measured (stage.outside ticket) = .ok (path, size))
    (htaken : (a.book.piece? (stage.outside ticket .freshId)).isSome) :
    stage.Ends ticket (.prepare source) a (.error .conflict) (· = a.book) [] := by
  refine .of_plays (Plays.bind (plays_measure ?_))
  rw [hmeasured]
  refine Plays.bind (plays_silent trivial ?_)
  refine Plays.bind (plays_now fun now _ ↦ ?_)
  exact Plays.bind (plays_table (Book.run_insert_taken rfl htaken) ⟨rfl, ha.leaves⟩)

theorem ends_prepare_new {source : Source} {path : Option String} {size : Option UInt64} (ha : a.Sound)
    (hmeasured : source.measured (stage.outside ticket) = .ok (path, size))
    (hid : stage.outside ticket .freshId = id) (hfree : a.book.piece? id = none) :
    stage.Ends ticket (.prepare source) a (.ok ((Piece.prepare id path size .epoch).timeless, none))
      (a.book.Gains (Piece.prepare id path size .epoch)) [] := by
  refine .of_plays (Plays.bind (plays_measure ?_))
  rw [hmeasured]
  refine Plays.bind (plays_silent trivial ?_)
  refine Plays.bind (plays_now fun now hnow ↦ ?_)
  rw [hid]
  have hread : (Piece.prepare id path size now).IsReadable := by
    refine ⟨hnow, hnow, fun _ h ↦ ?_⟩
    cases h
  have hinsert : a.book.table.run (.insert (Piece.prepare id path size now)) = _ :=
    Book.run_insert rfl hfree
  refine Plays.bind (plays_table hinsert (plays_pure ⟨rfl, ha.open_, ?_, ?_⟩))
  · exact ⟨Piece.prepare id path size now, hread, rfl, rfl⟩
  · exact (List.append_nil _).symm

/-! ## Uploading -/

theorem ends_upload_missing (ha : a.Sound) (hnone : a.book.piece? id = none) :
    stage.Ends ticket (.upload id body) a (.error .notFound) (· = a.book) [] :=
  .of_missing (.upload id body) ha hnone

theorem ends_upload_refused (ha : a.Sound) (hpiece : a.book.Has id piece)
    (hrefused : (checkContent piece id (.ofNat body.length) >>= fun _ ↦
      CommittedPiece.ofContent body) = .error fault) :
    stage.Ends ticket (.upload id body) a (.error fault.kind) (· = a.book) [] :=
  .of_has (.upload id body) ha hpiece (Effect.ofUpload_refused hrefused) rfl (fun _ hbook ↦ hbook) rfl

theorem ends_upload_held (ha : a.Sound) (hpiece : a.book.Has id piece)
    (hcheck : checkContent piece id (.ofNat body.length) = .ok ())
    (hcommitted : CommittedPiece.ofContent body = .ok committed)
    (hheld : a.book.holder? committed.contentId ≠ none) :
    stage.Ends ticket (.upload id body) a (.error .conflict) (· = a.book) [] := by
  obtain ⟨holder, hholder⟩ := Option.ne_none_iff_exists'.mp hheld
  have heffect := Move.effectOn_upload stage ticket a.book hcheck hcommitted
  rw [hholder] at heffect
  exact .of_has (.upload id body) ha hpiece heffect rfl (fun _ hbook ↦ hbook) rfl

theorem ends_upload_new (ha : a.Sound) (hpiece : a.book.Has id piece)
    (hcheck : checkContent piece id (.ofNat body.length) = .ok ())
    (hcommitted : CommittedPiece.ofContent body = .ok committed)
    (hfree : a.book.holder? committed.contentId = none) :
    stage.Ends ticket (.upload id body) a
      (.ok ((piece.uploadedAs (.ofNat body.length) committed .epoch).timeless, none))
      (a.book.Takes (piece.uploadedAs (.ofNat body.length) committed .epoch)) [] := by
  have heffect := Move.effectOn_upload stage ticket a.book hcheck hcommitted
  rw [hfree] at heffect
  exact .of_has (.upload id body) ha hpiece heffect rfl (fun _ hbook ↦ hbook) rfl

/-! ## Submitting -/

theorem ends_submit_missing (ha : a.Sound) (hnone : a.book.piece? id = none) :
    stage.Ends ticket (.submit id proofSet) a (.error .notFound) (· = a.book) [] :=
  .of_missing (.submit id proofSet) ha hnone

theorem ends_submit_refused (ha : a.Sound) (hpiece : a.book.Has id piece)
    (hrefused : (checkFree piece >>= fun _ ↦ rootOf piece stage.manager.sectorSize) = .error fault) :
    stage.Ends ticket (.submit id proofSet) a (.error fault.kind) (· = a.book) [] :=
  .of_has (.submit id proofSet) ha hpiece (Effect.ofSubmit_refused hrefused) rfl (fun _ hbook ↦ hbook) rfl

theorem ends_submit_taken (ha : a.Sound) (hpiece : a.book.Has id piece)
    (hfree : checkFree piece = .ok ()) (hroot : rootOf piece stage.manager.sectorSize = .ok root)
    (htransaction : piece.transaction ≠ none) :
    stage.Ends ticket (.submit id proofSet) a (.error .conflict) (· = a.book) [] :=
  .of_has (.submit id proofSet) ha hpiece (Effect.ofSubmit_taken hfree hroot htransaction) rfl
    (fun _ hbook ↦ hbook) rfl

theorem ends_submit_accepted {hash : String} (ha : a.Sound) (hpiece : a.book.Has id piece)
    (hfree : checkFree piece = .ok ()) (hroot : rootOf piece stage.manager.sectorSize = .ok root)
    (htransaction : piece.transaction = none)
    (hanswer : stage.outside ticket (.submit proofSet root) = .ok hash) :
    stage.Ends ticket (.submit id proofSet) a
      (.ok (((piece.claimedFor proofSet root.rootCid).submittedAs hash .epoch .epoch).timeless, none))
      (a.book.Takes ((piece.claimedFor proofSet root.rootCid).submittedAs hash .epoch .epoch))
      [⟨ticket, proofSet, root⟩] := by
  have heffect := @Effect.ofSubmit_free piece stage ticket proofSet root hfree hroot htransaction
  rw [hanswer] at heffect
  exact .of_has (.submit id proofSet) ha hpiece heffect rfl (fun _ hbook ↦ hbook) rfl

theorem ends_submit_rejected (ha : a.Sound) (hpiece : a.book.Has id piece)
    (hfree : checkFree piece = .ok ()) (hroot : rootOf piece stage.manager.sectorSize = .ok root)
    (htransaction : piece.transaction = none)
    (hanswer : stage.outside ticket (.submit proofSet root) = .error fault) :
    stage.Ends ticket (.submit id proofSet) a (.error .ledger)
      (a.book.Takes ((piece.claimedFor proofSet root.rootCid).refusedWith
        (refusalMessage proofSet fault) .epoch)) [⟨ticket, proofSet, root⟩] := by
  have heffect := @Effect.ofSubmit_free piece stage ticket proofSet root hfree hroot htransaction
  rw [hanswer] at heffect
  exact .of_has (.submit id proofSet) ha hpiece heffect rfl (fun _ hbook ↦ hbook) rfl

end Company.Stage

/-! ## Watching -/

namespace Operation

/-- What is said of a pending piece by the ledger's answer. -/
def ruling (piece : Piece) : Option TransactionRecord → Verdict
  | none => .ok (piece.timeless, some .notIndexed)
  | some record =>
    match piece.settle record .epoch with
    | (settled, .ok finding) => .ok (settled.timeless, some finding)
    | (_, .error fault) => .error fault.kind

/-- What is said to who looks after a piece. -/
def outlook (outside : Outside) (piece : Piece) (strict : Bool) : Verdict :=
  if piece.status ≠ .pending then
    if strict then .error .state else .ok (piece.timeless, some .skipped)
  else
    match piece.transaction with
    | none => if strict then .error .notFound else .ok (piece.timeless, some .skipped)
    | some hash =>
      match outside (.lookup hash) with
      | .error fault => .error fault.kind
      | .ok answer => ruling piece answer

theorem verdict_foundOut (piece : Piece) (answer : Option TransactionRecord) :
    (Effect.ofFinding (foundOut piece.timeless answer)).result.mapError Fault.kind = ruling piece answer := by
  cases answer with
  | none => rfl
  | some record =>
    rw [foundOut, ruling, Piece.timeless_settle piece record .epoch]
    obtain ⟨settled, result⟩ := piece.settle record .epoch
    cases result with
    | ok finding => rfl
    | error fault => rfl

/-- What is said of a piece is what its record makes of it, at any time. -/
theorem ruling_settle (piece : Piece) (record : TransactionRecord) (now : Instant) :
    ruling piece (some record) =
      Errand.verdict (.monitor piece.id)
        ((piece.settle record now).2.map ((piece.settle record now).1, ·)) := by
  rw [← verdict_foundOut, foundOut, Piece.timeless_settle piece record now]
  obtain ⟨settled, result⟩ := piece.settle record now
  cases result with
  | ok finding => rfl
  | error fault => rfl

/-- What is said to who looks after a piece is what a look finds out. -/
theorem verdict_foundBy (outside : Outside) (strict : Bool) (piece : Piece) :
    (Effect.ofFinding (foundBy outside strict piece.timeless)).result.mapError Fault.kind =
      outlook outside piece strict := by
  have hstatus : piece.timeless.status = piece.status := rfl
  have htransaction : piece.timeless.transaction = piece.transaction := rfl
  rw [foundBy, outlook, hstatus, htransaction]
  split
  · cases strict with
    | true => rfl
    | false => rfl
  · cases piece.transaction with
    | none =>
      cases strict with
      | true => rfl
      | false => rfl
    | some hash =>
      dsimp only
      cases outside (.lookup hash) with
      | error fault => rfl
      | ok answer => exact verdict_foundOut piece answer

end Operation

namespace Company.Stage

variable {strict : Bool} {finding : Finding}

theorem ends_look_missing (ha : a.Sound) (hnone : a.book.piece? id = none) :
    stage.Ends ticket (.look id strict) a (.error .notFound) (· = a.book) [] :=
  .of_missing (.look id strict) ha hnone

/-- Nothing is written about a piece that has not come to an end. -/
theorem ends_look_rest (ha : a.Sound) (hpiece : a.book.Has id piece)
    (houtlook : outlook (stage.outside ticket) piece strict = verdict)
    (hrest : ∀ settled finding, verdict = .ok (settled, some finding) → ¬ finding.IsFinal) :
    stage.Ends ticket (.look id strict) a verdict (· = a.book) [] := by
  have hverdict := (verdict_foundBy (stage.outside ticket) strict piece).trans houtlook
  cases hfound : foundBy (stage.outside ticket) strict piece.timeless with
  | error fault =>
    rw [hfound] at hverdict
    exact .of_has (.look id strict) ha hpiece (congrArg Effect.ofFinding hfound) hverdict
      (fun _ hbook ↦ hbook) rfl
  | ok found =>
    obtain ⟨settled, finding⟩ := found
    rw [hfound] at hverdict
    have heffect := (congrArg Effect.ofFinding hfound).trans (Effect.ofFinding_rest (hrest _ _ hverdict.symm))
    exact .of_has (.look id strict) ha hpiece heffect hverdict (fun _ hbook ↦ hbook) rfl

/-- A piece that has come to an end is written. -/
theorem ends_look_settled {settled : Piece} (ha : a.Sound) (hpiece : a.book.Has id piece)
    (houtlook : outlook (stage.outside ticket) piece strict = .ok (settled.timeless, some finding))
    (hfinal : finding.IsFinal) :
    stage.Ends ticket (.look id strict) a (.ok (settled.timeless, some finding))
      (a.book.Takes settled) [] := by
  have hverdict := (verdict_foundBy (stage.outside ticket) strict piece).trans houtlook
  cases hfound : foundBy (stage.outside ticket) strict piece.timeless with
  | error fault =>
    rw [hfound] at hverdict
    cases hverdict
  | ok found =>
    obtain ⟨version, found⟩ := found
    rw [hfound] at hverdict
    obtain ⟨rfl, hsame⟩ := Prod.ext_iff.mp (Except.ok.inj hverdict)
    obtain rfl := Option.some.inj hsame
    have heffect := (congrArg Effect.ofFinding hfound).trans (Effect.ofFinding_final hfinal)
    exact .of_has (.look id strict) ha hpiece heffect rfl (fun _ hbook ↦ hbook) rfl

end Company.Stage

end PieceKeeper
