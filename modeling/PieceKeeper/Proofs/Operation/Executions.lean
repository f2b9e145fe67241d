import PieceKeeper.Proofs.Cid.Text
import PieceKeeper.Proofs.Run.Solo
import PieceKeeper.Proofs.Store.Shelf
import PieceKeeper.Proofs.Store.Table

/-!
# Operations without company

How preparing, uploading, submitting, watching and reading go when nobody else does anything and
every answer is known.
-/

namespace PieceKeeper

/-- The shelf with a new blob. -/
def Shelf.stock (shelf : Shelf) (key : String) (content : Bytes) : Shelf :=
  { shelf with
    blobs := (key, content) :: shelf.blobs.filter (·.1 != key)
    drafts := ((shelf.next, content) :: shelf.drafts).filter (·.1 != shelf.next)
    next := shelf.next + 1 }

namespace Operation

open Attempt

variable {scene : Scene} {id key : String} {body content : Bytes} {piece : Piece}
  {committed : CommittedPiece}

theorem runs_find (h : scene.store.table.run (.find id) = (.ok (some piece), scene.store.table)) :
    (find id).Runs scene (.ok piece) (scene.exchange (.table (.find id)) (.ok (some piece))) :=
  (runs_table h).bind (runs_pure _ _)

theorem runs_prepare {size : Option UInt64} {now : Instant} {table : Table} (hsize : size ≠ some 0)
    (h : scene.store.table.run (.insert (.prepare id none size now)) = (.ok (), table)) :
    (prepare (.declared size)).Runs scene (.ok (.prepare id none size now))
      ({ (scene.exchange .freshId id).exchange .now now with store.table := table }.exchange
        (.table (.insert (.prepare id none size now))) (.ok ())) := by
  have hmeasure : (Source.declared size).measure.Runs scene (.ok (none, size)) scene := by
    rw [Source.measure, if_neg hsize]
    exact runs_pure _ _
  refine hmeasure.bind ?_
  refine (runs_ask .freshId id trivial rfl).bind ?_
  refine (runs_ask .now now trivial rfl).bind ?_
  exact Runs.bind (runs_table (by exact h)) (runs_pure _ _)

theorem yields_prepare {size : Option UInt64} {now : Instant} {table : Table} (hsize : size ≠ some 0)
    (h : scene.store.table.run (.insert (.prepare id none size now)) = (.ok (), table)) :
    (prepare (.declared size)).Yields scene (.ok (.prepare id none size now))
      { scene.store with table } :=
  (runs_prepare hsize h).yields rfl

/-! ## Shelving -/

/-- Something is there already. -/
theorem yields_shelve_held {written : Bytes} (hkey : Shelf.checkKey key = .ok ())
    (hblob : scene.store.shelf.blob? key = some written)
    (hblocked : scene.store.shelf.blocked = false) :
    (shelve key content).Yields scene (.ok false) scene.store := by
  refine (runs_ofOutcome hkey scene).bind_yields rfl ?_
  refine (runs_shelf (Shelf.run_holds hblob hblocked)).bind_yields rfl ?_
  exact (runs_pure _ _).yields rfl

/-- Nothing is there yet, so the content is published. -/
theorem yields_shelve_new (hkey : Shelf.checkKey key = .ok ()) (hlength : key.length ≤ Shelf.longestKey)
    (hblob : scene.store.shelf.blob? key = none) (hblocked : scene.store.shelf.blocked = false) :
    (shelve key content).Yields scene (.ok true)
      { scene.store with shelf := scene.store.shelf.stock key content } := by
  obtain ⟨⟨table, shelf⟩, held, history⟩ := scene
  have hheld (drafts : List (Nat × Bytes)) (next : Nat) :
      { shelf with drafts, next }.run (.holds key) = (false, { shelf with drafts, next }) :=
    Shelf.run_holds_none hblob
  have hplace : shelf.run (.makePlace key) = (.ok (), shelf) := Shelf.run_makePlace hblocked key
  have hopen : { shelf with next := shelf.next + 1 }.blocked = false := hblocked
  have hwrite : { shelf with next := shelf.next + 1 }.run (.writeDraft shelf.next key content) =
      (.ok (), { shelf with
        drafts := (shelf.next, content) :: shelf.drafts, next := shelf.next + 1 }) :=
    Shelf.run_writeDraft hopen hlength shelf.next content
  have hpublish : { shelf with
      drafts := (shelf.next, content) :: shelf.drafts, next := shelf.next + 1 }.run
      (.publish shelf.next key) = _ := Shelf.run_publish key List.lookup_cons_self
  refine (runs_ofOutcome hkey _).bind_yields rfl ?_
  refine (runs_shelf (hheld shelf.drafts shelf.next)).bind_yields rfl ?_
  refine (runs_ask .pause () trivial rfl).bind_yields rfl ?_
  refine (runs_shelf hplace).bind_yields rfl ?_
  refine (runs_ofFile rfl _).bind_yields rfl ?_
  refine (runs_shelf rfl).bind_yields rfl ?_
  refine (runs_ask .pause () trivial rfl).bind_yields rfl ?_
  refine (runs_shelf hwrite).bind_yields rfl ?_
  refine (runs_shelf (hheld _ _)).bind_yields rfl ?_
  refine (runs_ask .pause () trivial rfl).bind_yields rfl ?_
  refine (runs_shelf hpublish).bind_yields rfl ?_
  refine (runs_ofFile rfl _).bind_yields rfl ?_
  exact (runs_pure _ _).yields rfl

/-! ## Uploading -/

/-- An upload comes to the update of its row, which decides. -/
theorem yields_uploadLocked (now : Instant) {written : Bool} {updated : Outcome Bool} {table : Table}
    {shelf : Shelf}
    (hfind : scene.store.table.run (.find id) = (.ok (some piece), scene.store.table))
    (hcheck : checkContent piece id (UInt64.ofNat body.length) = .ok ())
    (hcommitted : CommittedPiece.ofContent body = .ok committed)
    (hfree : scene.store.table.run (.findContent committed.contentId) = (.ok none, scene.store.table))
    (hshelve : ∀ history, (shelve committed.contentId committed.padded).Yields
      ⟨scene.store, scene.held, history⟩ (.ok written) { scene.store with shelf })
    (hupdate : scene.store.table.run
      (.update (piece.uploadedAs (UInt64.ofNat body.length) committed now) .prepared) =
        (updated, table)) :
    (uploadLocked id body).Yields scene
      (updated.bind fun stored ↦
        if stored then .ok (piece.uploadedAs (UInt64.ofNat body.length) committed now, written)
        else refuse (changedDuringUpload id)) { table, shelf } := by
  have hmove : (piece.withContent (UInt64.ofNat body.length) committed).moveTo .uploaded "upload" now =
      .ok (piece.uploadedAs (UInt64.ofNat body.length) committed now) :=
    Piece.moveTo_eq_ok.mpr ⟨by
      rw [Piece.withContent, status_of_checkContent hcheck]
      rfl, rfl⟩
  refine (runs_find hfind).bind_yields rfl ?_
  refine (runs_ofOutcome hcheck _).bind_yields rfl ?_
  refine (runs_ask .pause () trivial rfl).bind_yields rfl ?_
  refine (runs_ofOutcome hcommitted _).bind_yields rfl ?_
  refine Runs.bind_yields (runs_table (by exact hfree)) rfl ?_
  refine (hshelve _).bind fun history ↦ ?_
  refine (runs_ask .now now trivial rfl).bind_yields rfl ?_
  refine (runs_ofOutcome hmove _).bind_yields rfl ?_
  cases updated with
  | error fault => exact ((runs_table (by exact hupdate)).yields rfl).fail
  | ok stored =>
    refine Runs.bind_yields (runs_table (by exact hupdate)) rfl ?_
    cases stored with
    | true => exact (runs_pure _ _).yields rfl
    | false => exact (runs_refuse _ _).yields rfl

/-! ## Submitting -/

/-- A submission comes to the ledger's answer, which is to be recorded. -/
theorem runs_submitLocked {sectorSize proofSet : UInt64} {root : Root} {table : Table}
    {outcome : Outcome Piece} {scene' : Scene} (now : Instant) (answer : Outcome String)
    (hfind : scene.store.table.run (.find id) = (.ok (some piece), scene.store.table))
    (hfree : checkFree piece = .ok ()) (hroot : rootOf piece sectorSize = .ok root)
    (hclaim : scene.store.table.run (.claim piece.id proofSet root.rootCid now) = (.ok true, table))
    (hrest : (recordSubmission (piece.claimedFor proofSet root.rootCid) proofSet answer).Runs
      (({ (scene.exchange (.table (.find id)) (.ok (some piece))).exchange .now now with
        store.table := table }.exchange (.table (.claim piece.id proofSet root.rootCid now))
        (.ok true)).exchange (.submit proofSet root) answer) outcome scene') :
    (submitLocked sectorSize id proofSet).Runs scene outcome scene' := by
  refine (runs_find hfind).bind ?_
  refine (runs_ofOutcome hfree _).bind ?_
  refine (runs_ofOutcome hroot _).bind ?_
  refine (runs_ask .now now trivial rfl).bind ?_
  refine Runs.bind (runs_table (by exact hclaim)) ?_
  exact (runs_ask (.submit proofSet root) answer trivial rfl).bind hrest

theorem yields_submitLocked {sectorSize proofSet : UInt64} {root : Root} {table : Table}
    {outcome : Outcome Piece} {store : Store} (now : Instant) (answer : Outcome String)
    (hfind : scene.store.table.run (.find id) = (.ok (some piece), scene.store.table))
    (hfree : checkFree piece = .ok ()) (hroot : rootOf piece sectorSize = .ok root)
    (hclaim : scene.store.table.run (.claim piece.id proofSet root.rootCid now) = (.ok true, table))
    (hrest : ∀ history, (recordSubmission (piece.claimedFor proofSet root.rootCid) proofSet
      answer).Yields ⟨{ scene.store with table }, scene.held, history⟩ outcome store) :
    (submitLocked sectorSize id proofSet).Yields scene outcome store :=
  (hrest _).imp fun _ hrest ↦ runs_submitLocked now answer hfind hfree hroot hclaim hrest

theorem runs_record {table : Table}
    (h : scene.store.table.run (.update piece .uploaded) = (.ok true, table)) :
    (record piece).Runs scene (.ok ())
      ({ scene with store.table := table }.exchange (.table (.update piece .uploaded)) (.ok true)) :=
  (runs_table h).bind (runs_pure _ _)

theorem moveTo_submittedAs {hash : String} (submitted now : Instant)
    (hstatus : piece.status = .uploaded) :
    { piece with transaction := some hash, submittedAt := some submitted }.moveTo .pending
      "add to proof set" now = .ok (piece.submittedAs hash submitted now) :=
  Piece.moveTo_eq_ok.mpr ⟨by rw [hstatus]; rfl, rfl⟩

theorem moveTo_refusedWith (proofSet : UInt64) (fault : Fault) (now : Instant)
    (hstatus : piece.status = .uploaded) :
    { piece with errorMessage := some (refusalMessage proofSet fault) }.moveTo .error
      "add to proof set" now = .ok (piece.refusedWith (refusalMessage proofSet fault) now) :=
  Piece.moveTo_eq_ok.mpr ⟨by rw [hstatus]; rfl, rfl⟩

/-- The ledger took the piece, and that is recorded. -/
theorem yields_recordSubmission_accepted {proofSet : UInt64} {hash : String} {table : Table}
    (submitted now : Instant) (hstatus : piece.status = .uploaded)
    (hupdate : scene.store.table.run (.update (piece.submittedAs hash submitted now) .uploaded) =
      (.ok true, table)) :
    (recordSubmission piece proofSet (.ok hash)).Yields scene
      (.ok (piece.submittedAs hash submitted now)) { scene.store with table } := by
  refine (runs_ask .now submitted trivial rfl).bind_yields rfl ?_
  refine (runs_ask .now now trivial rfl).bind_yields rfl ?_
  refine (runs_ofOutcome (moveTo_submittedAs submitted now hstatus) _).bind_yields rfl ?_
  refine Runs.bind_yields (runs_record (by exact hupdate)) rfl ?_
  exact (runs_pure _ _).yields rfl

/-- The ledger took the piece, but that is not recorded. -/
theorem runs_recordSubmission_lost {proofSet : UInt64} {hash : String} {fault : Fault}
    (submitted now : Instant) (hstatus : piece.status = .uploaded)
    (hupdate : scene.store.table.run (.update (piece.submittedAs hash submitted now) .uploaded) =
      (.error fault, scene.store.table)) :
    (recordSubmission piece proofSet (.ok hash)).Runs scene (.error fault)
      (((scene.exchange .now submitted).exchange .now now).exchange
        (.table (.update (piece.submittedAs hash submitted now) .uploaded)) (.error fault)) := by
  refine (runs_ask .now submitted trivial rfl).bind ?_
  refine (runs_ask .now now trivial rfl).bind ?_
  refine (runs_ofOutcome (moveTo_submittedAs submitted now hstatus) _).bind ?_
  exact (runs_table (by exact hupdate)).fail.fail

/-- The ledger refused the piece, and that is recorded. -/
theorem yields_recordSubmission_refused {proofSet : UInt64} {fault : Fault} {table : Table}
    (now : Instant) (hstatus : piece.status = .uploaded)
    (hupdate : scene.store.table.run
      (.update (piece.refusedWith (refusalMessage proofSet fault) now) .uploaded) = (.ok true, table)) :
    (recordSubmission piece proofSet (.error fault)).Yields scene
      (.error { cause := .ledger (refusalMessage proofSet fault) }) { scene.store with table } := by
  refine (runs_ask .now now trivial rfl).bind_yields rfl ?_
  refine (runs_ofOutcome (moveTo_refusedWith proofSet fault now hstatus) _).bind_yields rfl ?_
  refine (runs_record (by exact hupdate)).lift.bind_yields rfl ?_
  exact (runs_refuse _ _).yields rfl

/-! ## Watching -/

/-- A pending piece is settled by the record of its transaction. -/
theorem yields_observeLocked_settled {strict : Bool} {hash : String} {record : TransactionRecord}
    {settled : Piece} {finding : Finding} {table : Table} (now : Instant)
    (hfind : scene.store.table.run (.find id) = (.ok (some piece), scene.store.table))
    (hstatus : piece.status = .pending) (htransaction : piece.transaction = some hash)
    (hsettle : piece.settle record now = (settled, .ok finding))
    (hfinding : finding = .added ∨ finding = .failed)
    (hupdate : scene.store.table.run (.update settled .pending) = (.ok true, table)) :
    (observeLocked id strict).Yields scene (.ok (settled, finding)) { scene.store with table } := by
  refine (runs_find hfind).bind_yields rfl ?_
  rw [if_neg (not_not_intro hstatus), htransaction]
  have hlookup (scene : Scene) : Attempt.Runs (ExceptT.mk (Call.request (.lookup hash))) scene
      (.ok (some record)) (scene.exchange (.lookup hash) (.ok (some record))) :=
    .ask rfl (.outside _ _ trivial) (.done _ _)
  refine (hlookup _).bind_yields rfl ?_
  refine (runs_ask .now now trivial rfl).bind_yields rfl ?_
  rw [hsettle]
  refine (runs_ofOutcome rfl _).bind_yields rfl ?_
  rw [recordFinding, if_pos hfinding]
  refine Runs.bind_yields (runs_table (by exact hupdate)) rfl ?_
  exact (runs_pure _ _).yields rfl

end Operation

namespace Manager

open Operation

variable {manager : Manager} {scene : Scene} {id : String} {body : Bytes} {store : Store}

theorem yields_upload_ok {piece : Piece} {written : Bool} (hfree : scene.held = false)
    (h : (uploadLocked id body).Yields
      ({ scene with held := true }.exchange (.acquire ⟨manager.locks, id⟩) ()) (.ok (piece, written))
      store) :
    (manager.upload id body).Yields scene (.ok piece) store := by
  refine Attempt.Yields.within_ok ((h.holding hfree).bind fun _ ↦ ?_)
  exact (Attempt.runs_pure _ _).yields rfl

theorem yields_upload_error {fault : Fault} (hfree : scene.held = false)
    (h : (uploadLocked id body).Yields
      ({ scene with held := true }.exchange (.acquire ⟨manager.locks, id⟩) ()) (.error fault) store) :
    (manager.upload id body).Yields scene (.error (fault.within "upload" id)) store :=
  (h.holding hfree).fail.within_error

/-- The content of a piece is what is under its content id. -/
theorem runs_content {piece : Piece} {key : String} {content : Bytes}
    (hfind : scene.store.table.run (.find id) = (.ok (some piece), scene.store.table))
    (hcontent : piece.contentId = some key) (hkey : Shelf.checkKey key = .ok ())
    (hblob : scene.store.shelf.blob? key = some content)
    (hblocked : scene.store.shelf.blocked = false) :
    (manager.content id).Runs scene (.ok content)
      ((((scene.exchange (.table (.find id)) (.ok (some piece))).exchange
        (.shelf (.holds key)) true).exchange .pause ()).exchange (.shelf (.read key)) (.ok content)) := by
  refine (runs_find hfind).bind ?_
  rw [hcontent]
  refine Attempt.Runs.within_ok ?_
  refine (Attempt.runs_ofOutcome hkey _).bind ?_
  refine Attempt.Runs.bind (Attempt.runs_shelf (by exact Shelf.run_holds hblob hblocked)) ?_
  refine (Attempt.runs_ask .pause () trivial rfl).bind ?_
  refine Attempt.Runs.bind (Attempt.runs_shelf (by exact Shelf.run_read hblob hblocked)) ?_
  exact Attempt.runs_ofFile rfl _

end Manager

end PieceKeeper
