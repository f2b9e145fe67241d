import PieceKeeper.Proofs.Company.Turns

/-!
# What an errand does

What comes of an errand about one piece depends on that piece, on whether another piece holds the content
that the errand brings, and on what lies outside.  Nothing else is changed than that piece, the blob of that
content, and what the ledger was sent.
-/

namespace PieceKeeper

/-! ## Pieces without their times -/

namespace Piece

variable {piece : Piece} {now : Instant}

theorem IsReadable.uploadedAs (h : piece.IsReadable) (size : UInt64) (committed : CommittedPiece)
    (hnow : now.IsReadable) : (piece.uploadedAs size committed now).IsReadable :=
  ⟨h.created, hnow, h.submitted⟩

theorem IsReadable.heldFor (h : piece.IsReadable) (proofSet : UInt64) (rootCid : String)
    (hnow : now.IsReadable) : (piece.heldFor proofSet rootCid now).IsReadable :=
  ⟨h.created, hnow, h.submitted⟩

theorem timeless_conclude (piece : Piece) (next : Status) (finding : Finding) (now : Instant) :
    (piece.timeless.conclude next finding .epoch) =
      ((piece.conclude next finding now).1.timeless, (piece.conclude next finding now).2) := by
  have hmove : piece.timeless.moveTo next "confirm" .epoch =
      (piece.moveTo next "confirm" now).map timeless := by
    rw [moveTo, moveTo, apply_ite (Except.map timeless)]
    rfl
  rw [conclude, conclude, hmove]
  cases piece.moveTo next "confirm" now with
  | ok moved => rfl
  | error fault => rfl

/-- What a record does to a piece does not depend on times. -/
theorem timeless_settle (piece : Piece) (record : TransactionRecord) (now : Instant) :
    piece.timeless.settle record .epoch =
      ((piece.settle record now).1.timeless, (piece.settle record now).2) := by
  rw [settle, settle]
  split
  · rfl
  · split
    · exact timeless_conclude (piece.copyConfirmation record) .added .added now
    · exact timeless_conclude
        { piece.copyConfirmation record with errorMessage := some (failureMessage record) }
        .failed .failed now
  · exact timeless_conclude
      { piece.copyConfirmation record with errorMessage := some (dropMessage record) }
      .failed .failed now

end Piece

/-- A finding that is written into its piece. -/
def Finding.IsFinal (finding : Finding) : Prop := finding = .added ∨ finding = .failed

instance : DecidablePred Finding.IsFinal := fun _ ↦ inferInstanceAs (Decidable (_ ∨ _))

/-! ## What is found out -/

namespace Operation

/-- What the record of its transaction makes of a pending piece. -/
def foundOut (piece : Piece) : Option TransactionRecord → Outcome (Piece × Finding)
  | none => .ok (piece, .notIndexed)
  | some record => (piece.settle record .epoch).2.map ((piece.settle record .epoch).1, ·)

/-- What is said of a piece that there is nothing to watch about. -/
def unwatched (piece : Piece) (strict : Bool) (cause : Cause) : Outcome (Piece × Finding) :=
  if strict then refuse cause else .ok (piece, .skipped)

/-- What a look at a piece finds out, as the ledger answers. -/
def foundBy (outside : Outside) (strict : Bool) (piece : Piece) : Outcome (Piece × Finding) :=
  if piece.status ≠ .pending then unwatched piece strict (piece.invalidState "monitor transaction of")
  else
    match piece.transaction with
    | none => unwatched piece strict (noTransaction piece.id)
    | some hash => outside (.lookup hash) >>= foundOut piece

section

variable {piece settled : Piece} {outside : Outside} {strict : Bool} {finding : Finding}

theorem eq_of_unwatched {cause : Cause} (h : unwatched piece strict cause = .ok (settled, finding)) :
    settled = piece := by
  rw [unwatched] at h
  split at h
  · cases h
  · cases h
    rfl

/-- Whatever is found out about a piece, it keeps its id and its content. -/
theorem key_of_foundBy (h : foundBy outside strict piece = .ok (settled, finding)) :
    settled.id = piece.id ∧ settled.contentId = piece.contentId := by
  rw [foundBy] at h
  split at h
  · rw [eq_of_unwatched h]
    exact ⟨rfl, rfl⟩
  · split at h
    · rw [eq_of_unwatched h]
      exact ⟨rfl, rfl⟩
    · obtain ⟨answer, -, hfound⟩ := Except.bind_eq_ok.mp h
      cases answer with
      | none =>
        cases hfound
        exact ⟨rfl, rfl⟩
      | some record =>
        rw [foundOut] at hfound
        generalize hsettle : piece.settle record .epoch = result at hfound
        obtain ⟨later, result⟩ := result
        cases result with
        | error fault => cases hfound
        | ok found =>
          cases hfound
          rcases Piece.settle_cases hsettle with ⟨-, rfl⟩ | ⟨-, -, -, rfl⟩ | ⟨-, -, message, rfl⟩
          · exact ⟨rfl, rfl⟩
          · exact ⟨rfl, rfl⟩
          · exact ⟨rfl, rfl⟩

end

end Operation

/-! ## Effects -/

/-- The id of the piece that holds a content, if there is a content. -/
def Book.keeper? (book : Book) (contentId? : Option String) : Option String :=
  contentId?.bind fun contentId ↦ (book.holder? contentId).map (·.id)

theorem Book.keeper?_some (book : Book) (contentId : String) :
    book.keeper? (some contentId) = (book.holder? contentId).map (·.id) :=
  rfl

namespace Company

open Operation

/-- What is said, and what becomes of a piece, of the blobs and of the ledger.  The pieces are without their
times. -/
structure Effect where
  result : Outcome (Piece × Option Finding)
  /-- Another version of the piece. -/
  version : Option Piece := none
  /-- A blob that is there in the end, if no other is under its key. -/
  blob : Option (String × Bytes) := none
  sent : List Submission := []

namespace Effect

/-- Nothing happens but that something is said. -/
def said (result : Outcome (Piece × Option Finding)) : Effect := { result }

/-- Something is made of a fault. -/
def mapFault (effect : Effect) (f : Fault → Fault) : Effect :=
  { effect with result := effect.result.mapError f }

/-- The blob of an effect under a key. -/
def blob? (effect : Effect) (key : String) : Option Bytes :=
  effect.blob.bind fun (held, content) ↦ if key = held then some content else none

/-- The pieces of another book are those that an effect leaves of a book. -/
def Writes (effect : Effect) (book book' : Book) : Prop :=
  match effect.version with
  | none => book' = book
  | some version =>
    ∃ written : Piece, written.IsReadable ∧ written.timeless = version ∧ book' = book.put written

/-- What becomes of a piece and its content by who holds the content already. -/
def ofContent (piece : Piece) (size : UInt64) (committed : CommittedPiece) : Option String → Effect
  | some holder => said (refuse (contentHeld committed.contentId holder))
  | none =>
    { result := .ok (piece.uploadedAs size committed .epoch, none)
      version := some (piece.uploadedAs size committed .epoch)
      blob := some (committed.contentId, committed.padded) }

/-- An upload to a piece. -/
def ofUpload (id : String) (body : Bytes) (holder : Option String) (piece : Piece) : Effect :=
  match checkContent piece id (.ofNat body.length) >>= fun _ ↦ CommittedPiece.ofContent body with
  | .error fault => said (.error fault)
  | .ok committed => ofContent piece (.ofNat body.length) committed holder

/-- What becomes of a claimed piece by the ledger's answer. -/
def ofAnswer (claimed : Piece) (proofSet : UInt64) : Outcome String → Effect
  | .ok hash =>
    { result := .ok (claimed.submittedAs hash .epoch .epoch, none)
      version := some (claimed.submittedAs hash .epoch .epoch) }
  | .error fault =>
    { result := refuse (.ledger (refusalMessage proofSet fault))
      version := some (claimed.refusedWith (refusalMessage proofSet fault) .epoch) }

/-- A submission of a piece, as the ledger answers. -/
def ofSubmit (stage : Stage) (ticket : Nat) (proofSet : UInt64) (piece : Piece) : Effect :=
  match checkFree piece >>= fun _ ↦ rootOf piece stage.manager.sectorSize with
  | .error fault => said (.error fault)
  | .ok root =>
    if piece.transaction ≠ none then said (refuse (changedBeforeSubmission piece.id))
    else
      { ofAnswer (piece.claimedFor proofSet root.rootCid) proofSet
          (stage.outside ticket (.submit proofSet root)) with
        sent := [⟨ticket, proofSet, root⟩] }

/-- What is found out about a piece, which is written if it has come to an end. -/
def ofFinding : Outcome (Piece × Finding) → Effect
  | .error fault => said (.error fault)
  | .ok (piece, finding) =>
    { result := .ok (piece, some finding), version := if finding.IsFinal then some piece else none }

section

variable {piece : Piece} {id : String} {body : Bytes} {holder : Option String} {committed : CommittedPiece}
  {stage : Stage} {ticket : Nat} {proofSet : UInt64} {root : Root} {fault : Fault} {finding : Finding}

theorem ofUpload_refused (h : (checkContent piece id (.ofNat body.length) >>= fun _ ↦
    CommittedPiece.ofContent body) = .error fault) :
    ofUpload id body holder piece.timeless = said (.error fault) := by
  change (checkContent piece.timeless id (.ofNat body.length) >>= fun _ ↦ _) = _ at h
  rw [ofUpload, h]

theorem ofUpload_committed (hcheck : checkContent piece id (.ofNat body.length) = .ok ())
    (hcommitted : CommittedPiece.ofContent body = .ok committed) :
    ofUpload id body holder piece.timeless = ofContent piece.timeless (.ofNat body.length) committed holder := by
  change checkContent piece.timeless id (.ofNat body.length) = _ at hcheck
  rw [ofUpload, hcheck, hcommitted]
  rfl

theorem ofSubmit_refused (h : (checkFree piece >>= fun _ ↦ rootOf piece stage.manager.sectorSize) =
    .error fault) : ofSubmit stage ticket proofSet piece.timeless = said (.error fault) := by
  change (checkFree piece.timeless >>= fun _ ↦ rootOf piece.timeless stage.manager.sectorSize) = _ at h
  rw [ofSubmit, h]

theorem ofSubmit_taken (hfree : checkFree piece = .ok ())
    (hroot : rootOf piece stage.manager.sectorSize = .ok root) (htransaction : piece.transaction ≠ none) :
    ofSubmit stage ticket proofSet piece.timeless = said (refuse (changedBeforeSubmission piece.id)) := by
  change checkFree piece.timeless = _ at hfree
  change rootOf piece.timeless stage.manager.sectorSize = _ at hroot
  rw [ofSubmit, hfree, hroot]
  exact if_pos htransaction

theorem ofSubmit_free (hfree : checkFree piece = .ok ())
    (hroot : rootOf piece stage.manager.sectorSize = .ok root) (htransaction : piece.transaction = none) :
    ofSubmit stage ticket proofSet piece.timeless =
      { ofAnswer (piece.timeless.claimedFor proofSet root.rootCid) proofSet
          (stage.outside ticket (.submit proofSet root)) with
        sent := [⟨ticket, proofSet, root⟩] } := by
  change checkFree piece.timeless = _ at hfree
  change rootOf piece.timeless stage.manager.sectorSize = _ at hroot
  rw [ofSubmit, hfree, hroot]
  exact if_neg (not_not.mpr htransaction)

theorem ofFinding_rest (h : ¬ finding.IsFinal) :
    ofFinding (.ok (piece, finding)) = said (.ok (piece, some finding)) := by
  rw [ofFinding, if_neg h]
  rfl

theorem ofFinding_final (h : finding.IsFinal) :
    ofFinding (.ok (piece, finding)) = { result := .ok (piece, some finding), version := some piece } := by
  rw [ofFinding, if_pos h]

end

/-- What every effect on a piece does: the piece keeps its id, and its content unless it was prepared and
nobody holds the new one.  A blob is the new content. -/
structure Fits (effect : Effect) (contentId? holder : Option String) (piece : Piece) : Prop where
  id : ∀ version, effect.version = some version → version.id = piece.id
  content : ∀ version, effect.version = some version → version.contentId = piece.contentId ∨
    piece.status = .prepared ∧ holder = none ∧ version.contentId = contentId?
  blob : ∀ key content, effect.blob = some (key, content) → contentId? = some key

section

variable {contentId? holder : Option String} {piece : Piece}

theorem fits_said (result : Outcome (Piece × Option Finding)) : (said result).Fits contentId? holder piece where
  id _ h := by cases h
  content _ h := by cases h
  blob _ _ h := by cases h

theorem fits_ofContent (size : UInt64) (committed : CommittedPiece) (hstatus : piece.status = .prepared) :
    (ofContent piece size committed holder).Fits (some committed.contentId) holder piece := by
  cases holder with
  | some holder => exact fits_said _
  | none =>
    refine ⟨fun _ h ↦ ?_, fun _ h ↦ ?_, fun _ _ h ↦ ?_⟩
    · cases h
      rfl
    · cases h
      exact Or.inr ⟨hstatus, rfl, rfl⟩
    · cases h
      rfl

theorem fits_ofSubmit (stage : Stage) (ticket : Nat) (proofSet : UInt64) :
    (ofSubmit stage ticket proofSet piece).Fits contentId? holder piece := by
  rw [ofSubmit]
  split
  · exact fits_said _
  · rename_i root _
    split
    · exact fits_said _
    · cases stage.outside ticket (.submit proofSet root) with
      | ok _ | error _ =>
        refine ⟨fun _ h ↦ ?_, fun _ h ↦ ?_, fun _ _ h ↦ by cases h⟩
        · cases h
          rfl
        · cases h
          exact Or.inl rfl

theorem fits_ofFinding {found : Outcome (Piece × Finding)} (hkey : ∀ settled finding,
    found = .ok (settled, finding) → settled.id = piece.id ∧ settled.contentId = piece.contentId) :
    (ofFinding found).Fits contentId? holder piece := by
  cases found with
  | error fault => exact fits_said _
  | ok found =>
    obtain ⟨settled, finding⟩ := found
    obtain ⟨hid, hcontent⟩ := hkey settled finding rfl
    by_cases hfinal : finding.IsFinal
    · rw [ofFinding_final hfinal]
      refine ⟨fun _ h ↦ ?_, fun _ h ↦ ?_, fun _ _ h ↦ by cases h⟩
      · cases h
        exact hid
      · cases h
        exact Or.inl hcontent
    · rw [ofFinding_rest hfinal]
      exact fits_said _

end

end Effect

/-! ## Moves -/

/-- An errand about one piece that should be there. -/
inductive Move where
  | upload (id : String) (body : Bytes)
  | submit (id : String) (proofSet : UInt64)
  /-- A look at the piece, for somebody or in a round. -/
  | look (id : String) (strict : Bool)

namespace Move

/-- The errand of a move. -/
def errand : Move → Errand
  | .upload id body => .upload id body
  | .submit id proofSet => .submit id proofSet
  | .look id strict => .look id strict

/-- The piece that a move is about. -/
def piece : Move → String
  | .upload id _ | .submit id _ | .look id _ => id

/-- The content that a move brings. -/
def contentId? : Move → Option String
  | .upload _ body => (CommittedPiece.ofContent body).toOption.map (·.contentId)
  | .submit _ _ | .look _ _ => none

/-- What a move does to a piece, when somebody may hold the content that it brings. -/
def effectOn (stage : Stage) (ticket : Nat) (holder : Option String) (piece : Piece) : Move → Effect
  | .upload id body => .ofUpload id body holder piece
  | .submit _ proofSet => .ofSubmit stage ticket proofSet piece
  | .look _ strict => .ofFinding (foundBy (stage.outside ticket) strict piece)

/-- What a move makes of a fault: it names its operation and its piece, but a round does not. -/
def blame : Move → Fault → Fault
  | .upload id _, fault => fault.within "upload" id
  | .submit id _, fault => fault.within "add to proof set" id
  | .look id true, fault => fault.within "monitor transaction" id
  | .look _ false, fault => fault

theorem kind_blame (move : Move) (fault : Fault) : (move.blame fault).kind = fault.kind := by
  cases move with
  | upload _ _ | submit _ _ => rfl
  | look _ strict =>
    cases strict with
    | true => rfl
    | false => rfl

/-- What a move does to the pieces of a book. -/
def effect (move : Move) (stage : Stage) (ticket : Nat) (book : Book) : Effect :=
  let effect : Effect :=
    match book.piece? move.piece with
    | none => .said (refuse (notFound move.piece))
    | some piece => move.effectOn stage ticket (book.keeper? move.contentId?) piece.timeless
  effect.mapFault move.blame

section

variable {move : Move} {stage : Stage} {ticket : Nat} {book : Book} {piece : Piece}

theorem contentId?_upload {id : String} {body : Bytes} {committed : CommittedPiece}
    (h : CommittedPiece.ofContent body = .ok committed) :
    (upload id body).contentId? = some committed.contentId := by
  rw [contentId?, h]
  rfl

/-- What an upload does to a piece that can take its content. -/
theorem effectOn_upload {id : String} {body : Bytes} {committed : CommittedPiece} (stage : Stage)
    (ticket : Nat) (book : Book) (hcheck : checkContent piece id (.ofNat body.length) = .ok ())
    (hcommitted : CommittedPiece.ofContent body = .ok committed) :
    (upload id body).effectOn stage ticket (book.keeper? (upload id body).contentId?) piece.timeless =
      .ofContent piece.timeless (.ofNat body.length) committed
        ((book.holder? committed.contentId).map (·.id)) := by
  rw [contentId?_upload hcommitted]
  exact Effect.ofUpload_committed hcheck hcommitted

theorem fits_effectOn (move : Move) (stage : Stage) (ticket : Nat) (holder : Option String) (piece : Piece) :
    (move.effectOn stage ticket holder piece).Fits move.contentId? holder piece := by
  cases move with
  | upload id body =>
    rw [effectOn, Effect.ofUpload]
    split
    · exact Effect.fits_said _
    · rename_i committed hcommitted
      obtain ⟨_, hcheck, hcommitted⟩ := Except.bind_eq_ok.mp hcommitted
      rw [contentId?_upload hcommitted]
      exact Effect.fits_ofContent _ committed (status_of_checkContent hcheck)
  | submit id proofSet => exact Effect.fits_ofSubmit stage ticket proofSet
  | look id strict => exact Effect.fits_ofFinding fun settled finding ↦ key_of_foundBy

theorem effect_of_none (h : book.piece? move.piece = none) :
    move.effect stage ticket book = (Effect.said (refuse (notFound move.piece))).mapFault move.blame := by
  rw [effect, h]

theorem effect_of_some (h : book.piece? move.piece = some piece) : move.effect stage ticket book =
    (move.effectOn stage ticket (book.keeper? move.contentId?) piece.timeless).mapFault move.blame := by
  rw [effect, h]

end

end Move

end Company

end PieceKeeper
