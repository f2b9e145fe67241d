import Mathlib.Data.List.Induction
import Mathlib.Data.List.Nodup
import PieceKeeper.Proofs.Cid.Reading
import PieceKeeper.Proofs.Commitment.Streaming
import PieceKeeper.Proofs.Operation.Executions

/-!
# Runs that begin with blank pieces

Any number of pieces can be prepared, every content that is committed to can be uploaded for one of
them, and the ledger may refuse it, or take it and have it added in the end.
-/

namespace PieceKeeper

/-- The beginning of the year 1970. -/
def Instant.epoch : Instant := ⟨⟨1970, 1, 1, by decide⟩, 0, 0, by decide⟩

theorem Instant.isReadable_epoch : epoch.IsReadable := by rfl

theorem CommittedPiece.checkKey_contentId (committed : CommittedPiece) :
    Shelf.checkKey committed.contentId = .ok () :=
  ContentId.checkKey_ofDigest _

theorem CommittedPiece.length_contentId_le (committed : CommittedPiece) :
    committed.contentId.length ≤ Shelf.longestKey :=
  Nat.le_trans (ContentId.length_ofDigest_le _) (by decide)

theorem CommittedPiece.Of.of_ofTree {body : Bytes} (hne : body ≠ []) (hle : body.length ≤ 2 ^ 62) :
    (⟨pad body, .ofTree (pad body)⟩ : CommittedPiece).Of body := by
  refine ⟨?_, ofContent_eq_ofTree hne hle⟩
  intro hsize
  have hpos := List.length_pos_iff.mpr hne
  have hzero := congrArg UInt64.toNat hsize
  rw [UInt64.toNat_ofNat_of_lt' (by omega : body.length < 2 ^ 64)] at hzero
  exact hpos.ne' hzero

/-- A single byte is committed to. -/
theorem CommittedPiece.Of.single : (⟨pad [1], .ofTree (pad [1])⟩ : CommittedPiece).Of [1] :=
  .of_ofTree (by decide) (by decide)

/-- A sector that is filled by one piece has the root of the piece. -/
theorem Commitment.sectorRoot_self {commitment : Commitment}
    (hpower : isPowerOfTwo commitment.pieceSize.toNat = true)
    (hsize : ¬ commitment.pieceSize < minPieceSize) :
    commitment.sectorRoot commitment.pieceSize = .ok commitment.digest := by
  rw [sectorRoot, if_neg (by simp [hpower, hsize]), if_neg (by simp [hpower])]
  simp [Node.extend]

namespace Run

variable {id : String} {ids : List String} {body : Bytes} {committed : CommittedPiece}

/-- A manager of the smallest sectors. -/
def keeper : Manager := ⟨128, 0, by decide⟩

/-- A state at rest, to which one manager has come with calls that have all ended. -/
structure State.Kept (s : State) : Prop extends s.Rests where
  managers : ∀ entry ∈ s.log, entry.job.manager = keeper
  ended : ∀ ticket, s.log.of ticket ≠ [] → s.Ended ticket

theorem State.kept_initial : ({} : State).Kept where
  toRests := rests_initial
  managers _ h := nomatch h
  ended _ h := absurd rfl h

/-- The manager does one more task. -/
theorem State.Kept.attend {s : State} (hs : s.Kept) (task : Task) {outcome : Outcome task.Answer}
    {scene : Scene} (h : (keeper.perform task).Runs ⟨s.store, false, [.started]⟩ outcome scene)
    (hfree : scene.held = false) : ∃ s', Reaches s s' ∧ s'.Kept ∧ s'.store = scene.store := by
  obtain ⟨s', hreaches, hrests, -, hstore, hlog, -, hothers, hjobs⟩ :=
    hs.toRests.perform ⟨keeper, task⟩ h hfree
  refine ⟨s', hreaches, ⟨hrests, fun entry hentry ↦ ?_, fun ticket hticket ↦ ?_⟩, hstore⟩
  · rcases hjobs entry hentry with hbefore | hjob
    · exact hs.managers entry hbefore
    · rw [hjob]
  · by_cases heq : ticket = s.next
    · subst heq
      have hmem : .ended task outcome ∈ s'.log.of s.next := hlog ▸ List.mem_cons_self
      exact State.ended_of_isEnd hmem trivial
    · rw [hothers ticket heq] at hticket
      obtain ⟨job, task, outcome, hentry⟩ := hs.ended ticket hticket
      have hmem : .ended task outcome ∈ s'.log.of ticket :=
        hothers ticket heq ▸ Log.mem_of.mpr ⟨job, hentry⟩
      exact State.ended_of_isEnd hmem trivial

/-- A piece without content. -/
def blank (id : String) : Piece := .prepare id none none .epoch

/-- A blank piece that got a content. -/
def filled (id : String) (body : Bytes) (committed : CommittedPiece) : Piece :=
  (blank id).uploadedAs (UInt64.ofNat body.length) committed .epoch

theorem toPiece_blank (id : String) : (Row.ofPiece (blank id)).toPiece = .ok (blank id) :=
  Row.toPiece_ofPiece Instant.isReadable_epoch Instant.isReadable_epoch fun _ h ↦ nomatch h

theorem toPiece_filled (id : String) (body : Bytes) (committed : CommittedPiece) :
    (Row.ofPiece (filled id body committed)).toPiece = .ok (filled id body committed) :=
  Row.toPiece_ofPiece Instant.isReadable_epoch Instant.isReadable_epoch fun _ h ↦ nomatch h

theorem find?_filled (id : String) (body : Bytes) (committed : CommittedPiece) :
    [Row.ofPiece (filled id body committed)].find? (·.id == .text id) =
      some (Row.ofPiece (filled id body committed)) :=
  List.find?_cons_of_pos (beq_self_eq_true (Cell.text id))

theorem checkContent_blank (id : String) {size : UInt64} (hsize : size ≠ 0) :
    Operation.checkContent (blank id) id size = .ok () := by
  simp [Operation.checkContent, blank, Piece.prepare, hsize]

/-- The rows of blank pieces. -/
def blanks (ids : List String) : List Row := ids.map fun id ↦ Row.ofPiece (blank id)

theorem mem_blanks (h : id ∈ ids) : Row.ofPiece (blank id) ∈ blanks ids :=
  List.mem_map_of_mem h

theorem contentId_blanks (ids : List String) (contentId : String) :
    ∀ row ∈ blanks ids, row.contentId ≠ .text contentId := by
  simp [blanks, blank, Piece.prepare, Row.ofPiece, Cell.ofText?]

theorem find?_blanks (h : id ∈ ids) :
    (blanks ids).find? (·.id == .text id) = some (Row.ofPiece (blank id)) := by
  induction ids with
  | nil => cases h
  | cons other ids ih =>
    rw [blanks, List.map_cons, List.find?_cons]
    by_cases heq : other = id
    · simp [heq, blank, Piece.prepare, Row.ofPiece]
    · have hne : ((Row.ofPiece (blank other)).id == .text id) = false := by
        simpa [blank, Piece.prepare, Row.ofPiece] using heq
      rw [hne]
      exact ih ((List.mem_cons.mp h).resolve_left (Ne.symm heq))

/-- Any number of pieces can be prepared. -/
theorem exists_blanks (ids : List String) (hids : ids.Nodup) :
    ∃ s : State, s.Kept ∧ s.store = { table := { rows := blanks ids } } := by
  induction ids using List.reverseRecOn with
  | nil => exact ⟨{}, State.kept_initial, rfl⟩
  | append_singleton ids id ih =>
    obtain ⟨hids, -, hnew⟩ := List.nodup_append.mp hids
    obtain ⟨s, hs, hstore⟩ := ih hids
    have hfresh : ∀ row ∈ blanks ids, row.id ≠ .text (Piece.prepare id none none .epoch).id := by
      intro row hrow heq
      obtain ⟨other, hother, rfl⟩ := List.mem_map.mp hrow
      exact hnew other hother id (List.mem_singleton_self _) (Cell.text.inj heq)
    have hprepare : (keeper.prepare (.declared none)).Yields ⟨s.store, false, [.started]⟩
        (.ok (blank id)) { table := { rows := blanks (ids ++ [id]) } } := by
      have hrows : blanks (ids ++ [id]) = blanks ids ++ [Row.ofPiece (blank id)] := List.map_append
      rw [hstore, hrows]
      exact Operation.yields_prepare (by simp) (Table.run_insert rfl rfl rfl hfresh)
    obtain ⟨_, hruns⟩ := hprepare
    obtain ⟨s', -, hs', hstore'⟩ := hs.attend (.prepare (.declared none)) hruns rfl
    exact ⟨s', hs', hstore'⟩

/-- A blank piece takes a content, whether that is new on the shelf or not. -/
theorem yields_upload {scene : Scene} {shelf shelf' : Shelf} {written : Bool}
    (hheld : scene.held = false) (hstore : scene.store = { table := { rows := blanks ids }, shelf })
    (hid : id ∈ ids) (hof : committed.Of body)
    (hshelve : ∀ held history, (Operation.shelve committed.contentId committed.padded).Yields
      ⟨scene.store, held, history⟩ (.ok written) { scene.store with shelf := shelf' }) :
    (keeper.upload id body).Yields scene (.ok (filled id body committed))
      { table := { rows := (blanks ids).map fun row ↦ if row.Is id .prepared then
          row.takeOver (Row.ofPiece (filled id body committed)) else row }, shelf := shelf' } := by
  obtain ⟨store, held, history⟩ := scene
  cases hstore
  have hfree : ∀ row ∈ blanks ids, row.id ≠ .text id →
      Table.sameContent (Row.ofPiece (filled id body committed)) row = false := by
    intro row hmem _
    have hne := (contentId_blanks ids committed.contentId row hmem).symm
    simp [Table.sameContent, Row.ofPiece, filled, Piece.uploadedAs, Piece.withContent, Cell.ofText?, hne]
  exact Manager.yields_upload_ok hheld (Operation.yields_uploadLocked .epoch
    (Table.run_find rfl (find?_blanks hid) (toPiece_blank id)) (checkContent_blank id hof.1) hof.2
    (Table.run_findContent rfl (contentId_blanks _ _)) (hshelve true)
    (Table.run_update rfl rfl (mem_blanks hid) ⟨rfl, rfl⟩ hfree))

/-- Every content that is committed to can be uploaded. -/
theorem exists_filled (id : String) (hof : committed.Of body) :
    ∃ s : State, s.Kept ∧ s.store.table = { rows := [Row.ofPiece (filled id body committed)] } := by
  obtain ⟨s, hs, hstore⟩ := exists_blanks [id] (List.nodup_singleton id)
  have hshelve (held : Bool) (history : History) :
      (Operation.shelve committed.contentId committed.padded).Yields ⟨s.store, held, history⟩ (.ok true)
        { s.store with shelf := ({} : Shelf).stock committed.contentId committed.padded } := by
    rw [hstore]
    exact Operation.yields_shelve_new committed.checkKey_contentId committed.length_contentId_le rfl rfl
  have hupload : (keeper.upload id body).Yields ⟨s.store, false, [.started]⟩ _ _ :=
    yields_upload rfl hstore (List.mem_singleton_self id) hof hshelve
  obtain ⟨_, hruns⟩ := hupload
  obtain ⟨s', -, hs', hstore'⟩ := hs.attend (.upload id body) hruns rfl
  refine ⟨s', hs', hstore' ▸ ?_⟩
  simp only [blanks, List.map_cons, List.map_nil]
  rw [if_pos ⟨rfl, rfl⟩]
  rfl

/-! ## Submissions -/

/-- A piece that is as large as a sector is its root. -/
theorem rootOf_filled (hsize : committed.commitment.pieceSize = 128) :
    Operation.rootOf (filled id body committed) 128 =
      .ok ⟨committed.contentId, [committed.contentId]⟩ := by
  have hdigest : ContentId.toDigest committed.contentId = .ok committed.commitment.digest :=
    ContentId.toDigest_ofDigest _
  have hroot : committed.commitment.sectorRoot 128 = .ok committed.commitment.digest :=
    hsize ▸ Commitment.sectorRoot_self (by rw [hsize]; rfl) (by rw [hsize]; decide)
  change (ContentId.toDigest committed.contentId >>= fun digest ↦
    (Commitment.mk digest committed.commitment.pieceSize).sectorRoot 128 >>= fun root ↦
      pure (⟨ContentId.ofDigest root, [committed.contentId]⟩ : Root)) = _
  rw [hdigest]
  change committed.commitment.sectorRoot 128 >>= _ = _
  rw [hroot]
  rfl

/-- The row of a piece with a claim. -/
def taken (id : String) (body : Bytes) (committed : CommittedPiece) (proofSet : UInt64) : Row :=
  (Row.ofPiece (filled id body committed)).claimed proofSet committed.contentId .epoch

/-- A piece that the ledger refused. -/
def refused (id : String) (body : Bytes) (committed : CommittedPiece) (proofSet : UInt64)
    (fault : Fault) : Piece :=
  ((filled id body committed).claimedFor proofSet committed.contentId).refusedWith
    (Operation.refusalMessage proofSet fault) .epoch

/-- A piece that the ledger took. -/
def submitted (id : String) (body : Bytes) (committed : CommittedPiece) (proofSet : UInt64)
    (hash : String) : Piece :=
  ((filled id body committed).claimedFor proofSet committed.contentId).submittedAs hash .epoch .epoch

/-- A piece that the ledger has added. -/
def added (id : String) (body : Bytes) (committed : CommittedPiece) (proofSet : UInt64)
    (hash : String) : Piece :=
  (submitted id body committed proofSet hash).settledAs (.confirmed hash true 1) .added none .epoch

theorem toPiece_submitted (id : String) (body : Bytes) (committed : CommittedPiece)
    (proofSet : UInt64) (hash : String) :
    (Row.ofPiece (submitted id body committed proofSet hash)).toPiece =
      .ok (submitted id body committed proofSet hash) :=
  Row.toPiece_ofPiece Instant.isReadable_epoch Instant.isReadable_epoch fun _ h ↦
    Option.some.inj h ▸ Instant.isReadable_epoch

variable {proofSet : UInt64} {scene : Scene}

/-- An update writes the only row. -/
theorem run_update_only {row : Row} {piece : Piece} {expected : Status} (his : row.Is piece.id expected) :
    Table.run { rows := [row] } (.update piece expected) =
      (.ok true, { rows := [row.takeOver (Row.ofPiece piece)] }) := by
  rw [Table.run_update rfl rfl List.mem_cons_self his]
  · simp only [List.map_cons, List.map_nil]
    rw [if_pos his]
  · exact List.forall_mem_singleton.mpr fun hne ↦ absurd his.1 hne

/-- A piece is claimed when nothing disturbs that. -/
theorem run_claim_filled {disturbance : Option Disturbance}
    (hmiss : ∀ d ∈ disturbance, Table.Disturbance.hitsClaim id d.target = false) :
    Table.run { rows := [Row.ofPiece (filled id body committed)], disturbance }
        (.claim id proofSet committed.contentId .epoch) =
      (.ok true, { rows := [taken id body committed proofSet], disturbance }) := by
  have hfree : (Row.ofPiece (filled id body committed)).IsFree id := ⟨⟨rfl, rfl⟩, rfl, rfl⟩
  rw [Table.run_claim rfl hmiss List.mem_cons_self hfree]
  simp only [List.map_cons, List.map_nil]
  rw [if_pos hfree]
  rfl

theorem yields_submit_refused (hheld : scene.held = false)
    (htable : scene.store.table = { rows := [Row.ofPiece (filled id body committed)] })
    (hsize : committed.commitment.pieceSize = 128) (fault : Fault) :
    (keeper.submit id proofSet).Yields scene
      (.error (Fault.within { cause := .ledger (Operation.refusalMessage proofSet fault) }
        "add to proof set" id))
      { scene.store with
        table := { rows := [Row.ofPiece (refused id body committed proofSet fault)] } } := by
  obtain ⟨⟨table, shelf⟩, held, history⟩ := scene
  cases htable
  cases hheld
  refine Attempt.Yields.within_error (Attempt.Yields.holding rfl ?_)
  refine Operation.yields_submitLocked .epoch (.error fault)
    (Table.run_find rfl (find?_filled id body committed) (toPiece_filled id body committed)) rfl
    (rootOf_filled hsize) (run_claim_filled fun _ h ↦ nomatch h) fun history ↦ ?_
  exact Operation.yields_recordSubmission_refused .epoch rfl (run_update_only ⟨rfl, rfl⟩)

/-- The ledger may refuse a piece. -/
theorem exists_refused (id : String) (hof : committed.Of body)
    (hsize : committed.commitment.pieceSize = 128) (proofSet : UInt64) (fault : Fault) :
    ∃ s : State, s.Kept ∧
      s.store.table = { rows := [Row.ofPiece (refused id body committed proofSet fault)] } := by
  obtain ⟨s, hs, htable⟩ := exists_filled id hof
  have hsubmit : (keeper.submit id proofSet).Yields ⟨s.store, false, [.started]⟩ _ _ :=
    yields_submit_refused rfl htable hsize fault
  obtain ⟨_, hruns⟩ := hsubmit
  obtain ⟨s', -, hs', hstore'⟩ := hs.attend (.submit id proofSet) hruns rfl
  exact ⟨s', hs', by rw [hstore']⟩

theorem yields_submit_accepted (hheld : scene.held = false)
    (htable : scene.store.table = { rows := [Row.ofPiece (filled id body committed)] })
    (hsize : committed.commitment.pieceSize = 128) (hash : String) :
    (keeper.submit id proofSet).Yields scene (.ok (submitted id body committed proofSet hash))
      { scene.store with
        table := { rows := [Row.ofPiece (submitted id body committed proofSet hash)] } } := by
  obtain ⟨⟨table, shelf⟩, held, history⟩ := scene
  cases htable
  cases hheld
  refine Attempt.Yields.within_ok (Attempt.Yields.holding rfl ?_)
  refine Operation.yields_submitLocked .epoch (.ok hash)
    (Table.run_find rfl (find?_filled id body committed) (toPiece_filled id body committed)) rfl
    (rootOf_filled hsize) (run_claim_filled fun _ h ↦ nomatch h) fun history ↦ ?_
  exact Operation.yields_recordSubmission_accepted .epoch .epoch rfl (run_update_only ⟨rfl, rfl⟩)

/-- The ledger may take a piece. -/
theorem exists_submitted (id : String) (hof : committed.Of body)
    (hsize : committed.commitment.pieceSize = 128) (proofSet : UInt64) (hash : String) :
    ∃ s : State, s.Kept ∧
      s.store.table = { rows := [Row.ofPiece (submitted id body committed proofSet hash)] } := by
  obtain ⟨s, hs, htable⟩ := exists_filled id hof
  have hsubmit : (keeper.submit id proofSet).Yields ⟨s.store, false, [.started]⟩ _ _ :=
    yields_submit_accepted rfl htable hsize hash
  obtain ⟨_, hruns⟩ := hsubmit
  obtain ⟨s', -, hs', hstore'⟩ := hs.attend (.submit id proofSet) hruns rfl
  exact ⟨s', hs', by rw [hstore']⟩

theorem yields_monitor_added (hheld : scene.held = false) (hash : String)
    (htable : scene.store.table =
      { rows := [Row.ofPiece (submitted id body committed proofSet hash)] }) :
    (keeper.monitor id).Yields scene (.ok (added id body committed proofSet hash, .added))
      { scene.store with
        table := { rows := [Row.ofPiece (added id body committed proofSet hash)] } } := by
  obtain ⟨⟨table, shelf⟩, held, history⟩ := scene
  cases htable
  cases hheld
  refine Attempt.Yields.within_ok (Attempt.Yields.holding rfl ?_)
  have hfind : [Row.ofPiece (submitted id body committed proofSet hash)].find? (·.id == .text id) =
      some _ := List.find?_cons_of_pos (beq_self_eq_true (Cell.text id))
  have hsettle : (submitted id body committed proofSet hash).settle (.confirmed hash true 1) .epoch =
      (added id body committed proofSet hash, .ok .added) := rfl
  exact Operation.yields_observeLocked_settled .epoch
    (Table.run_find rfl hfind (toPiece_submitted id body committed proofSet hash)) rfl rfl hsettle
    (Or.inl rfl) (run_update_only ⟨rfl, rfl⟩)

/-- A piece that the ledger took may be added. -/
theorem exists_added (id : String) (hof : committed.Of body)
    (hsize : committed.commitment.pieceSize = 128) (proofSet : UInt64) (hash : String) :
    ∃ s s' : State, s.Kept ∧
      s.store.table = { rows := [Row.ofPiece (submitted id body committed proofSet hash)] } ∧
      Reaches s s' ∧ s'.Kept ∧
      s'.store.table = { rows := [Row.ofPiece (added id body committed proofSet hash)] } := by
  obtain ⟨s, hs, htable⟩ := exists_submitted id hof hsize proofSet hash
  have hmonitor : (keeper.monitor id).Yields ⟨s.store, false, [.started]⟩ _ _ :=
    yields_monitor_added rfl hash htable
  obtain ⟨_, hruns⟩ := hmonitor
  obtain ⟨s', hreaches, hs', hstore'⟩ := hs.attend (.monitor id) hruns rfl
  exact ⟨s, s', hs, htable, hreaches, hs', by rw [hstore']⟩

/-- The ledger may take a piece without a record of that. -/
theorem exists_unrecorded (scene : Scene) (id : String) (proofSet : UInt64) (hash : String)
    (hheld : scene.held = false)
    (htable : scene.store.table =
      { rows := [Row.ofPiece (filled id body committed)], disturbance := some ⟨.transaction, false⟩ })
    (hhistory : scene.history = [.started]) (hsize : committed.commitment.pieceSize = 128) :
    ∃ outcome scene', (keeper.submit id proofSet).Runs scene outcome scene' ∧
      scene'.held = false ∧
      .asked (.submit proofSet ⟨committed.contentId, [committed.contentId]⟩) ∈ scene'.history ∧
      .answered (.submit proofSet ⟨committed.contentId, [committed.contentId]⟩) (.ok hash) ∈
        scene'.history ∧
      (∀ name rootCid, scene'.history.Claimed name proofSet rootCid → name = id) ∧
      ∀ piece, .answered (.table (.update piece .uploaded)) (.ok true) ∉ scene'.history := by
  obtain ⟨⟨table, shelf⟩, held, history⟩ := scene
  cases htable
  cases hheld
  cases hhistory
  refine ⟨_, _, Attempt.Runs.within_error (Attempt.Runs.holding rfl (Operation.runs_submitLocked
    .epoch (.ok hash)
    (Table.run_find rfl (find?_filled id body committed) (toPiece_filled id body committed)) rfl
    (rootOf_filled hsize) (run_claim_filled (by simp [Table.Disturbance.hitsClaim]))
    (Operation.runs_recordSubmission_lost .epoch .epoch rfl
      (Table.run_update_disturbed rfl rfl rfl List.mem_cons_self ⟨rfl, rfl⟩))) rfl), rfl, ?_, ?_, ?_, ?_⟩
  · simp [Scene.exchange]
  · simp [Scene.exchange]
  · rintro name rootCid ⟨now, hclaimed⟩
    simp [Scene.exchange] at hclaimed
    exact hclaimed.1
  · simp [Scene.exchange]

end Run

end PieceKeeper
