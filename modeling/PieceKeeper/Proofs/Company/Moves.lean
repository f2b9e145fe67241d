import PieceKeeper.Proofs.Company.Effects

/-!
# Moves in their turn

An operation that has no company, on a table that nothing disturbs, has the effect that it should have.  Each
operation is followed from request to request while it holds the lock of its piece.
-/

namespace PieceKeeper

/-! ## What is left of an archive -/

/-- What is left of an archive: the shelf can be used, the pieces have changed in a way, and something
was sent. -/
structure Archive.Leaves (a : Archive) (change : Book → Prop) (sent : List Submission) (a' : Archive) :
    Prop where
  open_ : a'.shelf.blocked = false
  book : change a'.book
  sent : a'.sent = a.sent ++ sent

theorem Archive.Sound.leaves {a : Archive} (ha : a.Sound) : a.Leaves (· = a.book) [] a :=
  ⟨ha.open_, rfl, (List.append_nil _).symm⟩

/-- An effect is all that has changed. -/
structure Company.Effect.Changes (effect : Effect) (a a' : Archive) : Prop extends
    a.Leaves (effect.Writes a.book) effect.sent a' where
  blobs : ∀ key, a'.shelf.blob? key = (a.shelf.blob? key).or (effect.blob? key)

/-- What is said is what an effect says, and the effect is all that has changed. -/
structure Company.Effect.Ends (effect : Effect) (a : Archive) (result : Outcome (Piece × Option Finding))
    (a' : Archive) : Prop where
  result : result = effect.result
  changes : effect.Changes a a'

open Company Attempt Operation

variable {α : Type} {stage : Stage} {ticket : Nat} {a a' : Archive} {effect : Effect} {image piece : Piece}
  {id : String} {body : Bytes} {proofSet : UInt64} {root : Root} {holder : Option String}
  {result : Outcome (Piece × Option Finding)}

namespace Company.Effect

/-- Nothing is changed when something is only said. -/
theorem Ends.said (ha : a.Sound) : (Effect.said result).Ends a result a :=
  ⟨rfl, { ha.leaves with blobs := fun _ ↦ Option.or_none.symm }⟩

theorem Ends.mapFault (h : effect.Ends a result a') (f : Fault → Fault) :
    (effect.mapFault f).Ends a (result.mapError f) a' :=
  ⟨congrArg (Except.mapError f) h.result, { h.changes with }⟩

theorem mapFault_self (effect : Effect) : effect.mapFault (fun fault ↦ fault) = effect := by
  obtain ⟨result, version, blob, sent⟩ := effect
  cases result with
  | ok answer => rfl
  | error fault => rfl

end Company.Effect

namespace Attempt

/-- An attempt has an effect, and its answer is viewed in a way. -/
def Does (stage : Stage) (ticket : Nat) (view : α → Piece × Option Finding) (effect : Effect)
    (attempt : Attempt α) (a : Archive) : Prop :=
  attempt.Plays stage ticket (fun answer a' ↦ effect.Ends a (.ok (view answer)) a')
    (fun fault a' ↦ effect.Ends a (.error fault) a') a

theorem Does.within {attempt : Attempt α} {view : α → Piece × Option Finding}
    (h : attempt.Does stage ticket view effect a) (operation name : String) :
    (attempt.within operation name).Does stage ticket view (effect.mapFault (·.within operation name)) a :=
  Plays.within (Plays.mono h (fun _ _ hend ↦ hend.mapFault _) fun _ _ hend ↦ hend.mapFault _)

/-- What is refused is said. -/
theorem plays_refused {good : α → Archive → Prop} {outcome : Outcome α} {fault : Fault} (ha : a.Sound)
    (houtcome : outcome = .error fault) :
    (ofOutcome outcome).Plays stage ticket good
      (fun other a' ↦ (Effect.said (.error fault)).Ends a (.error other) a') a := by
  rw [houtcome]
  exact Call.plays_done (.said ha)

section

variable {good : Piece → Archive → Prop} {bad : Fault → Archive → Prop}

theorem plays_find (ha : a.Sound) (hpiece : a.book.piece? id = some piece) (h : good piece a) :
    (find id).Plays stage ticket good bad a := by
  refine Plays.bind (plays_table (ha.book.run_find id) ?_)
  rw [hpiece]
  exact plays_pure h

theorem plays_find_none (ha : a.Sound) (hnone : a.book.piece? id = none)
    (h : bad { cause := notFound id } a) : (find id).Plays stage ticket good bad a := by
  refine Plays.bind (plays_table (ha.book.run_find id) ?_)
  rw [hnone]
  exact plays_refuse h

/-- A blob is there in the end, if no other is under its key. -/
theorem plays_shelve {key : String} {content : Bytes} {good : Bool → Archive → Prop}
    (hopen : a.shelf.blocked = false) (hkey : Shelf.checkKey key = .ok ())
    (hlength : key.length ≤ Shelf.longestKey)
    (h : ∀ written shelf, shelf.blocked = false → (∀ other, shelf.blob? other =
      (a.shelf.blob? other).or (if other = key then some content else none)) → good written { a with shelf }) :
    (shelve key content).Plays stage ticket good bad a := by
  refine Plays.bind (plays_ofOutcome hkey ?_)
  cases hblob : a.shelf.blob? key with
  | some blob =>
    refine Plays.bind (plays_shelf (Shelf.run_holds hblob hopen) ?_)
    refine plays_pure (h false _ hopen fun other ↦ ?_)
    by_cases heq : other = key
    · rw [heq, hblob]
      rfl
    · rw [if_neg heq, Option.or_none]
  | none =>
    have hdrawn : Shelf.blocked { a.shelf with next := a.shelf.next + 1 } = false := hopen
    have hwrite := Shelf.run_writeDraft hdrawn hlength a.shelf.next content
    have hpublish : { a.shelf with
        drafts := (a.shelf.next, content) :: a.shelf.drafts, next := a.shelf.next + 1 }.run
        (.publish a.shelf.next key) = _ := Shelf.run_publish key List.lookup_cons_self
    refine Plays.bind (plays_shelf (Shelf.run_holds_none hblob) ?_)
    refine Plays.bind (plays_silent trivial ?_)
    refine Plays.bind (plays_shelf (Shelf.run_makePlace hopen key) ?_)
    refine Plays.bind (plays_ofFile rfl ?_)
    refine Plays.bind (plays_shelf rfl ?_)
    refine Plays.bind (plays_silent trivial ?_)
    refine Plays.bind (plays_shelf hwrite ?_)
    refine Plays.bind (plays_shelf (Shelf.run_holds_none hblob) ?_)
    refine Plays.bind (plays_silent trivial ?_)
    refine Plays.bind (plays_shelf hpublish ?_)
    refine Plays.bind (plays_ofFile rfl (plays_pure (h true _ hopen fun other ↦ ?_)))
    by_cases heq : other = key
    · rw [heq, hblob, if_pos rfl]
      exact List.lookup_cons_self
    · rw [if_neg heq, Option.or_none]
      exact (lookup_cons_of_ne heq content _).trans (lookup_filter_of_ne heq a.shelf.blobs)

end

end Attempt

namespace Operation

/-- A piece that is not there is missed. -/
theorem does_missing {view : α → Piece × Option Finding} {next : Piece → Attempt α} (ha : a.Sound)
    (hnone : a.book.piece? id = none) :
    (find id >>= next).Does stage ticket view (.said (refuse (notFound id))) a :=
  Plays.bind (plays_find_none ha hnone (.said ha))

/-! ## Uploading -/

theorem does_uploadLocked (ha : a.Sound) (hpiece : a.book.piece? id = some piece)
    (hholder : ∀ committed, CommittedPiece.ofContent body = .ok committed →
      (a.book.holder? committed.contentId).map (·.id) = holder) :
    (uploadLocked id body).Does stage ticket (fun answer ↦ (answer.1.timeless, none))
      (.ofUpload id body holder piece.timeless) a := by
  refine Plays.bind (plays_find ha hpiece ?_)
  cases hcheck : checkContent piece id (.ofNat body.length) with
  | error fault =>
    rw [Effect.ofUpload_refused (by rw [hcheck]; rfl)]
    exact Plays.bind (plays_refused ha hcheck)
  | ok _ =>
    refine Plays.bind (plays_ofOutcome hcheck (Plays.bind (plays_silent trivial ?_)))
    cases hcommitted : CommittedPiece.ofContent body with
    | error fault =>
      rw [Effect.ofUpload_refused (by rw [hcheck]; exact hcommitted)]
      exact Plays.bind (plays_refused ha rfl)
    | ok committed =>
      rw [Effect.ofUpload_committed hcheck hcommitted, ← hholder committed hcommitted]
      refine Plays.bind (plays_ofOutcome rfl (Plays.bind (plays_table (ha.book.run_findContent _) ?_)))
      cases hheld : a.book.holder? committed.contentId with
      | some holder => exact Plays.bind (plays_refuse (.said ha))
      | none =>
        refine Plays.bind (plays_shelve ha.open_ committed.checkKey_contentId
          committed.length_contentId_le fun written shelf hopen hblobs ↦ ?_)
        refine Plays.bind (plays_now fun now hnow ↦ ?_)
        have hstatus := status_of_checkContent hcheck
        have hread := ha.book.readable piece (Book.mem_of_piece? hpiece)
        have hmove : (piece.withContent (.ofNat body.length) committed).moveTo .uploaded "upload" now =
            .ok (piece.uploadedAs (.ofNat body.length) committed now) :=
          Piece.moveTo_eq_ok.mpr ⟨by rw [Piece.withContent, hstatus]; rfl, rfl⟩
        refine Plays.bind (plays_ofOutcome hmove ?_)
        have hothers : ∀ other ∈ a.book, other.id ≠ id → other.contentId = some committed.contentId →
            some committed.contentId = none :=
          fun other hother _ hcontent ↦ absurd hcontent (Book.holder?_eq_none.mp hheld other hother)
        have hid : piece.id = id := Book.id_of_piece? hpiece
        refine Plays.bind (plays_table (ha.book.run_update hpiece hstatus hid rfl hothers) (plays_pure ?_))
        exact ⟨rfl, ⟨hopen, ⟨_, hread.uploadedAs _ _ hnow, rfl, rfl⟩, (List.append_nil _).symm⟩, hblobs⟩

/-! ## Submitting -/

/-- What became of a claimed piece is recorded. -/
theorem plays_recorded {now : Instant} {version : Piece} {sent : List Submission}
    {good : Unit → Archive → Prop} {bad : Fault → Archive → Prop} (ha : a.Sound)
    (hpiece : a.book.piece? id = some piece) (hfree : checkFree piece = .ok ()) (hnow : now.IsReadable)
    (hid : version.id = piece.id) (hcreated : version.createdAt = piece.createdAt)
    (hcontent : version.contentId = piece.contentId)
    (h : good () (Archive.send { a with book := a.book.put version } sent)) :
    (record version).Plays stage ticket good bad (Archive.send
      { a with book := a.book.put (piece.heldFor proofSet root.rootCid now) } sent) := by
  have hmem := Book.mem_of_piece? hpiece
  have hself := ha.book.piece?_eq hmem
  have hheld : (a.book.put (piece.heldFor proofSet root.rootCid now)).Sound :=
    ha.book.put ((ha.book.readable piece hmem).heldFor proofSet root.rootCid hnow)
      (ha.book.free_of_same hself rfl)
  have hclaimed : (a.book.put (piece.heldFor proofSet root.rootCid now)).piece? piece.id = some _ :=
    Book.piece?_put hself
  have hupdate := hheld.run_update hclaimed (checkFree_eq_ok.mp hfree).1 hid hcreated
    (hheld.free_of_same hclaimed hcontent)
  have hput : (a.book.put (piece.heldFor proofSet root.rootCid now)).put version = a.book.put version :=
    Book.put_put hid
  rw [hput] at hupdate
  exact Plays.bind (plays_table hupdate (plays_pure h))

/-- The ledger's answer to the submission of a claimed piece is recorded. -/
theorem does_recordSubmission {now : Instant} (ha : a.Sound) (hpiece : a.book.piece? id = some piece)
    (hfree : checkFree piece = .ok ()) (hnow : now.IsReadable) (answer : Outcome String) :
    (recordSubmission (piece.claimedFor proofSet root.rootCid) proofSet answer).Plays stage ticket
      (fun answered a' ↦ Effect.Ends
        { Effect.ofAnswer (piece.timeless.claimedFor proofSet root.rootCid) proofSet answer with
          sent := [⟨ticket, proofSet, root⟩] } a (.ok (answered.timeless, none)) a')
      (fun fault a' ↦ Effect.Ends
        { Effect.ofAnswer (piece.timeless.claimedFor proofSet root.rootCid) proofSet answer with
          sent := [⟨ticket, proofSet, root⟩] } a (.error fault) a')
      (Archive.send { a with book := a.book.put (piece.heldFor proofSet root.rootCid now) }
        [⟨ticket, proofSet, root⟩]) := by
  have hread := ha.book.readable piece (Book.mem_of_piece? hpiece)
  have hstatus := (checkFree_eq_ok.mp hfree).1
  cases answer with
  | ok hash =>
    refine Plays.bind (plays_now fun submitted hsubmitted ↦ ?_)
    refine Plays.bind (plays_now fun later hlater ↦ ?_)
    refine Plays.bind (plays_ofOutcome (moveTo_submittedAs submitted later hstatus) ?_)
    refine Plays.bind (plays_recorded ha hpiece hfree hnow rfl rfl rfl (plays_pure ?_))
    refine ⟨rfl, ⟨ha.open_, ⟨_, ?_, rfl, rfl⟩, rfl⟩, fun _ ↦ Option.or_none.symm⟩
    exact ⟨hread.created, hlater, fun _ heq ↦ Option.some.inj heq ▸ hsubmitted⟩
  | error fault =>
    refine Plays.bind (plays_now fun later hlater ↦ ?_)
    refine Plays.bind (plays_ofOutcome (moveTo_refusedWith proofSet fault later hstatus) ?_)
    have hrecorded : (record ((piece.claimedFor proofSet root.rootCid).refusedWith
        (refusalMessage proofSet fault) later)).Plays stage ticket
        (fun _ a' ↦ a' = Archive.send { a with book := a.book.put ((piece.claimedFor proofSet
          root.rootCid).refusedWith (refusalMessage proofSet fault) later) } [⟨ticket, proofSet, root⟩])
        (fun _ _ ↦ False)
        (Archive.send { a with book := a.book.put (piece.heldFor proofSet root.rootCid now) }
          [⟨ticket, proofSet, root⟩]) :=
      plays_recorded ha hpiece hfree hnow rfl rfl rfl rfl
    refine Plays.bind (plays_lift (Call.Plays.mono hrecorded fun outcome a' hend ↦ ?_))
    cases outcome with
    | error _ => exact hend.elim
    | ok _ =>
      obtain rfl := hend
      refine plays_refuse ⟨rfl, ⟨ha.open_, ⟨_, ?_, rfl, rfl⟩, rfl⟩, fun _ ↦ Option.or_none.symm⟩
      exact ⟨hread.created, hlater, hread.submitted⟩

theorem does_submitLocked (ha : a.Sound) (hpiece : a.book.piece? id = some piece) :
    (submitLocked stage.manager.sectorSize id proofSet).Does stage ticket
      (fun answer ↦ (answer.timeless, none)) (.ofSubmit stage ticket proofSet piece.timeless) a := by
  refine Plays.bind (plays_find ha hpiece ?_)
  cases hfree : checkFree piece with
  | error fault =>
    rw [Effect.ofSubmit_refused (by rw [hfree]; rfl)]
    exact Plays.bind (plays_refused ha rfl)
  | ok _ =>
    refine Plays.bind (plays_ofOutcome rfl ?_)
    cases hroot : rootOf piece stage.manager.sectorSize with
    | error fault =>
      rw [Effect.ofSubmit_refused (by rw [hfree]; exact hroot)]
      exact Plays.bind (plays_refused ha rfl)
    | ok root =>
      refine Plays.bind (plays_ofOutcome rfl (Plays.bind (plays_now fun now hnow ↦ ?_)))
      by_cases htransaction : piece.transaction = none
      · rw [Effect.ofSubmit_free hfree hroot htransaction]
        have hself := ha.book.piece?_eq (Book.mem_of_piece? hpiece)
        have hclaim := ha.book.run_claim hself hfree htransaction proofSet root.rootCid now
        refine Plays.bind (plays_table hclaim (Plays.bind (plays_submit ?_)))
        exact does_recordSubmission ha hpiece hfree hnow _
      · rw [Effect.ofSubmit_taken hfree hroot htransaction]
        have hself := ha.book.piece?_eq (Book.mem_of_piece? hpiece)
        have hclaim := ha.book.run_claim_taken hself htransaction proofSet root.rootCid now
        exact Plays.bind (plays_table hclaim (plays_refuse (.said ha)))

/-! ## Watching -/

/-- A piece that the record of its transaction settled is written. -/
theorem does_recordFinding {settled : Piece} {record : TransactionRecord} {finding : Finding} {now : Instant}
    (ha : a.Sound) (hpiece : a.book.piece? id = some piece) (hstatus : piece.status = .pending)
    (hnow : now.IsReadable) (hsettle : piece.settle record now = (settled, .ok finding)) :
    (recordFinding settled finding).Does stage ticket (fun answer ↦ (answer.1.timeless, some answer.2))
      (.ofFinding (.ok (settled.timeless, finding))) a := by
  by_cases hfinal : finding = .added ∨ finding = .failed
  · rw [recordFinding, if_pos hfinal, Effect.ofFinding_final hfinal]
    obtain ⟨status, message, rfl⟩ :
        ∃ status message, settled = piece.settledAs record status message now := by
      rcases Piece.settle_final_cases hsettle hfinal with ⟨-, -, -, rfl⟩ | ⟨-, -, message, rfl⟩
      · exact ⟨_, _, rfl⟩
      · exact ⟨_, _, rfl⟩
    have hread := ha.book.readable piece (Book.mem_of_piece? hpiece)
    have hid : piece.id = id := Book.id_of_piece? hpiece
    refine Plays.bind (plays_table (ha.book.run_update hpiece hstatus hid rfl
      (ha.book.free_of_same hpiece rfl)) (plays_pure ?_))
    refine ⟨rfl, ⟨ha.open_, ⟨_, ?_, rfl, rfl⟩, (List.append_nil _).symm⟩, fun _ ↦ Option.or_none.symm⟩
    exact ⟨hread.created, hnow, hread.submitted⟩
  · rw [recordFinding, if_neg hfinal, Effect.ofFinding_rest hfinal]
    exact plays_pure (.said ha)

/-- A pending piece that is looked after is settled, or it stays as it is. -/
theorem does_settleBy (answer : Option TransactionRecord) (ha : a.Sound)
    (hpiece : a.book.piece? id = some piece) (hstatus : piece.status = .pending) :
    (settleBy piece answer).Does stage ticket (fun answer ↦ (answer.1.timeless, some answer.2))
      (.ofFinding (foundOut piece.timeless answer)) a := by
  cases answer with
  | none => exact plays_pure (.said ha)
  | some record =>
    refine Plays.bind (plays_now fun now hnow ↦ ?_)
    rw [foundOut, Piece.timeless_settle piece record now]
    cases hsettle : piece.settle record now with
    | mk settled result =>
      cases result with
      | error fault => exact Plays.bind (plays_refused ha rfl)
      | ok finding =>
        exact Plays.bind (plays_ofOutcome rfl (does_recordFinding ha hpiece hstatus hnow hsettle))

/-- There is nothing to watch about a piece. -/
theorem does_unwatched {strict : Bool} {cause : Cause} (ha : a.Sound) :
    Attempt.Does stage ticket (fun answer ↦ (answer.1.timeless, some answer.2))
      (.ofFinding (unwatched piece.timeless strict cause))
      (if strict then Attempt.refuse cause else return (piece, .skipped)) a := by
  rw [unwatched]
  split
  · exact plays_refuse (.said ha)
  · exact plays_pure (.said ha)

theorem does_observeLocked {strict : Bool} (ha : a.Sound) (hpiece : a.book.piece? id = some piece) :
    (observeLocked id strict).Does stage ticket (fun answer ↦ (answer.1.timeless, some answer.2))
      (.ofFinding (foundBy (stage.outside ticket) strict piece.timeless)) a := by
  have hcongr : piece.timeless.status = piece.status := rfl
  have hcongr' : piece.timeless.transaction = piece.transaction := rfl
  refine Plays.bind (plays_find ha hpiece ?_)
  rw [foundBy, hcongr, hcongr']
  split
  · exact does_unwatched ha
  · rename_i hstatus
    cases piece.transaction with
    | none => exact does_unwatched ha
    | some hash =>
      dsimp only
      cases hanswer : stage.outside ticket (.lookup hash) with
      | error fault => exact Plays.bind (plays_lookup hanswer (.said ha))
      | ok answer =>
        exact Plays.bind (plays_lookup hanswer (does_settleBy answer ha hpiece (not_not.mp hstatus)))

end Operation

/-! ## Whole errands -/

/-- What is said to who asked for something, up to times. -/
def Errand.report (errand : Errand) (outcome : Outcome errand.Answer) : Outcome (Piece × Option Finding) :=
  outcome.map errand.view

/-- A call ends with the effect of its attempt. -/
theorem Attempt.Does.callFor {errand : Errand}
    (h : (stage.manager.attend errand).Does stage ticket errand.view effect a) :
    (stage.manager.callFor errand).Plays stage ticket
      (fun outcome a' ↦ effect.Ends a (errand.report outcome) a') a := by
  refine Call.Plays.mono h fun outcome a' hend ↦ ?_
  cases outcome with
  | ok answer => exact hend
  | error fault => exact hend

/-- What a move does while it holds its lock is what it does. -/
theorem Attempt.Does.upload
    (h : (uploadLocked id body).Does stage ticket (fun answer ↦ (answer.1.timeless, none)) effect a) :
    (stage.manager.attend (.upload id body)).Does stage ticket (Errand.view (.upload id body))
      (effect.mapFault (Move.blame (.upload id body))) a := by
  refine Does.within (Plays.bind ?_) "upload" id
  exact Plays.mono (Plays.holding h) (fun _ _ hend ↦ plays_pure hend) fun _ _ hend ↦ hend

theorem Attempt.Does.submit
    (h : (submitLocked stage.manager.sectorSize id proofSet).Does stage ticket
      (fun answer ↦ (answer.timeless, none)) effect a) :
    (stage.manager.attend (.submit id proofSet)).Does stage ticket (Errand.view (.submit id proofSet))
      (effect.mapFault (Move.blame (.submit id proofSet))) a :=
  Does.within (Plays.holding h) "add to proof set" id

theorem Attempt.Does.look {strict : Bool}
    (h : (observeLocked id strict).Does stage ticket (fun answer ↦ (answer.1.timeless, some answer.2)) effect a) :
    (stage.manager.attend (.look id strict)).Does stage ticket (Errand.view (.look id strict))
      (effect.mapFault (Move.blame (.look id strict))) a := by
  cases strict with
  | true => exact Does.within (Plays.holding h) "monitor transaction" id
  | false =>
    have hsame : effect.mapFault (Move.blame (.look id false)) = effect := effect.mapFault_self
    rw [hsame]
    exact Plays.holding h

/-- When its turn comes, a move has its effect. -/
theorem Company.Move.plays (move : Move) (ha : a.Sound) :
    (stage.manager.callFor move.errand).Plays stage ticket
      (fun outcome a' ↦ (move.effect stage ticket a.book).Ends a (move.errand.report outcome) a') a := by
  refine Does.callFor ?_
  cases hpiece : a.book.piece? move.piece with
  | none =>
    rw [effect_of_none hpiece]
    cases move with
    | upload id body => exact Does.upload (does_missing ha hpiece)
    | submit id proofSet => exact Does.submit (does_missing ha hpiece)
    | look id strict => exact Does.look (does_missing ha hpiece)
  | some piece =>
    rw [effect_of_some hpiece]
    cases move with
    | upload id body =>
      refine Does.upload (does_uploadLocked ha hpiece fun committed hcommitted ↦ ?_)
      rw [contentId?_upload hcommitted, Book.keeper?_some]
    | submit id proofSet => exact Does.submit (does_submitLocked ha hpiece)
    | look id strict => exact Does.look (does_observeLocked ha hpiece)

end PieceKeeper
