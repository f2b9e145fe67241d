import PieceKeeper.Proofs.Operation.Laws
import PieceKeeper.Proofs.Run.Errors
import PieceKeeper.Proofs.Run.Shapes
import PieceKeeper.Proofs.Service.Effects

/-!
# Uploads that are alone

How an upload ends that nobody disturbs, when the storage does not fail.  What it finds in the table decides: a
body is taken for a piece, or something speaks against it, and of several objections the first one is told.  An
upload that is taken writes its row and nothing else in the table, and puts its content on the shelf unless its
content id is there already.

So whatever is checked later on is a precaution: the commitment has been made, its content id is a key, and the
row is as it was read.
-/

namespace PieceKeeper

variable {α : Type}

/-! ## What an upload finds -/

namespace Table

/-- The table does not fail: it is within reach, its writes do not go wrong, and its rows can be read. -/
structure IsSteady (table : Table) : Prop extends table.IsCalm where
  readable : ∀ row ∈ table.rows, ∃ piece, row.toPiece = .ok piece

/-- A row can be filled with a body. -/
structure Takes (table : Table) (i : Nat) (piece : Piece) (body : Bytes) (committed : CommittedPiece) : Prop where
  has : table.Has i piece
  prepared : piece.status = .prepared
  nonempty : body ≠ []
  declared : ∀ size, piece.rawSize = some size → size.toNat = body.length
  commits : CommittedPiece.ofContent body = .ok committed
  /-- No other row holds the content. -/
  free : ∀ row ∈ table.rows, row.id ≠ .text piece.id → row.contentId ≠ .text committed.contentId

open Operation in
/-- What speaks first against a body for the piece with an id. -/
inductive Objects (table : Table) (id : String) (body : Bytes) : Cause → Prop
  | missing : (∀ row ∈ table.rows, row.id ≠ .text id) → Objects table id body (notFound id)
  | taken {i : Nat} {piece : Piece} : table.Has i piece → piece.id = id → piece.status ≠ .prepared →
    Objects table id body (alreadyUploaded id piece.status)
  | empty {i : Nat} {piece : Piece} : table.Has i piece → piece.id = id → piece.status = .prepared → body = [] →
    Objects table id body emptyContent
  | wrongSize {i : Nat} {piece : Piece} {size : UInt64} : table.Has i piece → piece.id = id →
    piece.status = .prepared → body ≠ [] → piece.rawSize = some size → size.toNat ≠ body.length →
    Objects table id body (wrongSize id size (.ofNat body.length))
  | held {i j : Nat} {piece holder : Piece} {committed : CommittedPiece} : table.Has i piece → piece.id = id →
    piece.status = .prepared → body ≠ [] → (∀ size, piece.rawSize = some size → size.toNat = body.length) →
    CommittedPiece.ofContent body = .ok committed → table.Has j holder → holder.id ≠ id →
    holder.contentId = some committed.contentId →
    Objects table id body (contentHeld committed.contentId holder.id)

variable {table : Table} {i : Nat} {piece : Piece} {id : String} {body : Bytes} {cause : Cause}

theorem Has.readable (hsteady : table.IsSteady) (h : table.Has i piece) : (Row.ofPiece piece).toPiece = .ok piece := by
  obtain ⟨read, hread⟩ := hsteady.readable _ h.mem
  rwa [Row.eq_of_toPiece_ofPiece hread] at hread

theorem run_find_none (h : table.outage = none) (habsent : ∀ row ∈ table.rows, row.id ≠ .text id) :
    table.run (.find id) = (.ok none, table) := by
  have hnone : table.rows.find? (·.id == .text id) = none :=
    List.find?_eq_none.mpr fun row hrow ↦ by simp [habsent row hrow]
  rw [run_of_reached h, perform, findRow, hnone]

/-- A row that is found by a test that no other row passes. -/
theorem Has.find?_eq (h : table.Has i piece) {test : Row → Bool} (htest : test (.ofPiece piece) = true)
    (honly : ∀ row ∈ table.rows, test row = true → row = .ofPiece piece) :
    table.rows.find? test = some (.ofPiece piece) := by
  cases hfound : table.rows.find? test with
  | none => exact absurd htest (List.find?_eq_none.mp hfound _ h.mem)
  | some row => rw [honly row (List.mem_of_find?_eq_some hfound) (List.find?_some hfound)]

namespace Lawful

theorem eq_of_id_eq (h : table.Lawful) (hhas : table.Has i piece) {row : Row} (hrow : row ∈ table.rows)
    (hid : row.id = .text piece.id) : row = .ofPiece piece := by
  obtain ⟨other, rfl⟩ := h.pieces row hrow
  obtain ⟨j, hj⟩ := List.mem_iff_getElem?.mp hrow
  rw [(h.has_unique hj hhas (Cell.text.inj hid)).2]

theorem find (h : table.Lawful) (hsteady : table.IsSteady) (hhas : table.Has i piece) :
    table.run (.find piece.id) = (.ok (some piece), table) := by
  refine run_find hsteady.outage (hhas.find?_eq (beq_self_eq_true _) fun row hrow hfound ↦ ?_)
    (hhas.readable hsteady)
  exact h.eq_of_id_eq hhas hrow (beq_iff_eq.mp hfound)

/-- The holder of a content is found by it. -/
theorem findContent (h : table.Lawful) (hsteady : table.IsSteady) (hhas : table.Has i piece) {contentId : String}
    (hcontent : piece.contentId = some contentId) :
    table.run (.findContent contentId) = (.ok (some piece), table) := by
  have hcell : (Row.ofPiece piece).contentId = .text contentId := congrArg Cell.ofText? hcontent
  have hfind : table.rows.find? (·.contentId == .text contentId) = some (.ofPiece piece) := by
    refine hhas.find?_eq (beq_iff_eq.mpr hcell) fun row hrow hfound ↦ h.eq_of_id_eq hhas hrow ?_
    refine h.contents i piece hhas row hrow (sameContent_iff.mpr ⟨?_, hcell.trans (beq_iff_eq.mp hfound).symm⟩)
    rw [hcell]
    exact fun hnull ↦ Cell.noConfusion hnull
  have hread : readRow (.ofPiece piece) = .ok piece := readRow_eq_ok.mpr (hhas.readable hsteady)
  rw [run_of_reached hsteady.outage, perform, findRow, hfind]
  simp only [hread]
  rfl

end Lawful

/-- A body is taken for a piece, or something speaks against it. -/
theorem Lawful.takes_or_objects (h : table.Lawful) (id : String) (hle : body.length ≤ 2 ^ 62) :
    (∃ i piece committed, piece.id = id ∧ table.Takes i piece body committed) ∨
      ∃ cause, table.Objects id body cause := by
  by_cases hmissing : ∀ row ∈ table.rows, row.id ≠ .text id
  · exact Or.inr ⟨_, .missing hmissing⟩
  push Not at hmissing
  obtain ⟨row, hrow, hid⟩ := hmissing
  obtain ⟨piece, rfl⟩ := h.pieces row hrow
  obtain ⟨i, hhas⟩ := List.mem_iff_getElem?.mp hrow
  replace hid : piece.id = id := Cell.text.inj hid
  by_cases hstatus : piece.status = .prepared
  swap
  · exact Or.inr ⟨_, .taken hhas hid hstatus⟩
  by_cases hempty : body = []
  · exact Or.inr ⟨_, .empty hhas hid hstatus hempty⟩
  by_cases hsize : ∀ size, piece.rawSize = some size → size.toNat = body.length
  swap
  · push Not at hsize
    obtain ⟨size, hdeclared, hne⟩ := hsize
    exact Or.inr ⟨_, .wrongSize hhas hid hstatus hempty hdeclared hne⟩
  have hcommitted := ofContent_eq_ofTree hempty hle
  by_cases hfree : ∀ row ∈ table.rows, row.id ≠ .text piece.id →
      row.contentId ≠ .text (CommittedPiece.mk (pad body) (.ofTree (pad body))).contentId
  · exact Or.inl ⟨i, piece, _, hid, hhas, hstatus, hempty, hsize, hcommitted, hfree⟩
  · push Not at hfree
    obtain ⟨row, hrow, hother, hcontent⟩ := hfree
    obtain ⟨holder, rfl⟩ := h.pieces row hrow
    obtain ⟨j, hj⟩ := List.mem_iff_getElem?.mp hrow
    refine Or.inr ⟨_, .held hhas hid hstatus hempty hsize hcommitted hj ?_ (Cell.eq_some_of_ofText? hcontent)⟩
    exact fun heq ↦ hother (congrArg Cell.text (heq.trans hid.symm))

end Table

/-! ## The shelf -/

namespace Shelf

variable {shelf : Shelf} {key : String} {content : Bytes}

/-- There is a blob under a key, and it is the one from before, if there was one. -/
structure Gains (shelf : Shelf) (key : String) (content : Bytes) (written : Bool) (shelf' : Shelf) : Prop where
  written : written = true ↔ shelf.blob? key = none
  blob : shelf'.blob? key = (shelf.blob? key).or (some content)
  others : ∀ other, other ≠ key → shelf'.blob? other = shelf.blob? other

theorem gains_of_held {held : Bytes} (h : shelf.blob? key = some held) : shelf.Gains key content false shelf where
  written := by simp [h]
  blob := by simp [h]
  others _ _ := rfl

theorem gains_stock (h : shelf.blob? key = none) : shelf.Gains key content true (shelf.stock key content) where
  written := by simp [h]
  blob := by
    rw [h]
    exact List.lookup_cons_self
  others other hne := (lookup_cons_of_ne hne _ _).trans (lookup_filter_of_ne hne _)

end Shelf

/-! ## Where calls end -/

/-- Something can be answered to every request. -/
theorem Request.exists_answer : (request : Request) → Nonempty request.Answer
  | .table _ => ⟨.error { cause := Table.unavailable }⟩
  | .shelf (.holds _) => ⟨false⟩
  | .shelf .newDraft => ⟨(0 : Nat)⟩
  | .shelf (.makePlace _) | .shelf (.writeDraft _ _ _) | .shelf (.discard _) | .shelf (.publish _ _)
  | .shelf (.read _) => ⟨.error .missing⟩
  | .findFile _ | .readFile _ => ⟨.error .missing⟩
  | .now => ⟨.epoch⟩
  | .freshId => ⟨""⟩
  | .acquire _ | .release _ | .pause | .sleep _ => ⟨()⟩
  | .clock => ⟨(0 : Nat)⟩
  | .submit _ _ | .lookup _ => ⟨.error { cause := Table.unavailable }⟩

theorem Stock.exists_serves (stock : Stock) (request : Request) :
    ∃ answer stock', stock.Serves request answer stock' := by
  cases request with
  | table command => exact ⟨_, _, .table command⟩
  | shelf command => exact ⟨_, _, .shelf command⟩
  | submit proofSet root => exact ⟨_, _, .refused proofSet root { cause := Table.unavailable }⟩
  | findFile _ | readFile _ | now | freshId | acquire _ | release _ | pause | sleep _ | clock | lookup _ =>
    obtain ⟨answer⟩ := Request.exists_answer _
    exact ⟨answer, stock, .outside _ answer trivial fun _ _ h ↦ Request.noConfusion h⟩

/-- Every call comes to an end. -/
theorem Call.exists_brings (call : Call α) (stock : Stock) : ∃ answer stock', call.Brings stock answer stock' := by
  induction call generalizing stock with
  | done answer => exact ⟨answer, stock, .done answer stock⟩
  | ask request next ih =>
    obtain ⟨answer, between, hserves⟩ := stock.exists_serves request
    obtain ⟨result, stock', hrest⟩ := ih answer between
    exact ⟨result, stock', .ask hserves hrest⟩

namespace Attempt

variable {good : α → Stock → Prop} {bad : Fault → Stock → Prop} {stock : Stock}

/-- What lies outside changes nothing. -/
theorem ensures_outside (request : Request) {good : request.Answer → Stock → Prop} (houtside : request.IsOutside)
    (hsubmit : ∀ proofSet root, request ≠ .submit proofSet root) (h : ∀ answer, good answer stock) :
    (ask request).Ensures good bad stock := by
  refine ensures_ask request fun answer stock' hserves ↦ ?_
  cases hserves with
  | table _ | shelf _ => exact houtside.elim
  | accepted proofSet root _ | refused proofSet root _ => exact absurd rfl (hsubmit proofSet root)
  | outside _ _ _ _ => exact h answer

theorem ensures_pause {good : Unit → Stock → Prop} (h : good () stock) : (ask .pause).Ensures good bad stock :=
  ensures_outside .pause trivial (fun _ _ hsubmit ↦ Request.noConfusion hsubmit) fun _ ↦ h

theorem ensures_shelf_eq {command : Shelf.Command} {good : command.Answer → Stock → Prop} {answer : command.Answer}
    {shelf : Shelf} (hrun : stock.store.shelf.run command = (answer, shelf))
    (h : good answer { stock with store.shelf := shelf }) : (Attempt.shelf command).Ensures good bad stock := by
  refine ensures_ask (.shelf command) fun answer' stock' hserves ↦ ?_
  cases hserves with
  | shelf _ =>
    rw [hrun]
    exact h
  | outside _ _ houtside _ => exact houtside.elim

theorem ensures_ofFile_ok {answer : α} (h : good answer stock) : (ofFile (.ok answer)).Ensures good bad stock :=
  ensures_pure h

theorem ensures_ofOutcome_error {outcome : Outcome α} {fault : Fault} (houtcome : outcome = .error fault)
    (h : bad fault stock) : (ofOutcome outcome).Ensures good bad stock := by
  rw [houtcome]
  exact Call.ensures_done h

end Attempt

namespace Operation

open Attempt

variable {bad : Fault → Stock → Prop} {stock : Stock} {id : String} {i : Nat} {piece : Piece} {body : Bytes}
  {committed : CommittedPiece}

theorem ensures_find_eq {good : Piece → Stock → Prop}
    (hfind : stock.store.table.run (.find id) = (.ok (some piece), stock.store.table)) (h : good piece stock) :
    (find id).Ensures good bad stock :=
  Ensures.bind (ensures_table hfind (ensures_pure h))

/-- A content is shelved unless there is something under its key. -/
theorem ensures_shelve_eq {key : String} {content : Bytes} {good : Bool → Stock → Prop}
    (hkey : Shelf.checkKey key = .ok ()) (hlength : key.length ≤ Shelf.longestKey)
    (hopen : stock.store.shelf.blocked = false)
    (hgood : ∀ written shelf, stock.store.shelf.Gains key content written shelf →
      good written { stock with store.shelf := shelf }) :
    (shelve key content).Ensures good bad stock := by
  obtain ⟨⟨table, shelf⟩, taken⟩ := stock
  refine Ensures.bind (ensures_ofOutcome_ok hkey ?_)
  cases hblob : shelf.blob? key with
  | some written =>
    refine Ensures.bind (ensures_shelf_eq (Shelf.run_holds hblob hopen) ?_)
    exact ensures_pure (hgood false shelf (Shelf.gains_of_held hblob))
  | none =>
    have hfree (drafts : List (Nat × Bytes)) (next : Nat) :
        { shelf with drafts, next }.run (.holds key) = (false, { shelf with drafts, next }) :=
      Shelf.run_holds_none hblob
    have hopen' : { shelf with next := shelf.next + 1 }.blocked = false := hopen
    have hwrite : { shelf with next := shelf.next + 1 }.run (.writeDraft shelf.next key content) =
        (.ok (), { shelf with
          drafts := (shelf.next, content) :: shelf.drafts, next := shelf.next + 1 }) :=
      Shelf.run_writeDraft hopen' hlength shelf.next content
    have hpublish : { shelf with
        drafts := (shelf.next, content) :: shelf.drafts, next := shelf.next + 1 }.run
        (.publish shelf.next key) = _ := Shelf.run_publish key List.lookup_cons_self
    refine Ensures.bind (ensures_shelf_eq (hfree shelf.drafts shelf.next) ?_)
    refine Ensures.bind (ensures_pause ?_)
    refine Ensures.bind (ensures_shelf_eq (Shelf.run_makePlace hopen key) ?_)
    refine Ensures.bind (ensures_ofFile_ok ?_)
    refine Ensures.bind (ensures_shelf_eq rfl ?_)
    refine Ensures.bind (ensures_pause ?_)
    refine Ensures.bind (ensures_shelf_eq hwrite ?_)
    refine Ensures.bind (ensures_shelf_eq (hfree _ _) ?_)
    refine Ensures.bind (ensures_pause ?_)
    refine Ensures.bind (ensures_shelf_eq hpublish ?_)
    refine Ensures.bind (ensures_ofFile_ok ?_)
    exact ensures_pure (hgood true _ (Shelf.gains_stock hblob))

/-! ## Uploading -/

theorem checkContent_eq_ok {size : UInt64} (hstatus : piece.status = .prepared) (hsize : size ≠ 0)
    (hdeclared : ∀ declared, piece.rawSize = some declared → declared = size) :
    checkContent piece id size = .ok () := by
  rw [checkContent, if_neg (not_not_intro hstatus), if_neg hsize]
  cases hraw : piece.rawSize with
  | none => rfl
  | some declared => exact if_neg (not_not_intro (hdeclared declared hraw))

/-- The size of a body as it is recorded. -/
theorem toNat_ofNat_length (hle : body.length ≤ 2 ^ 62) : (UInt64.ofNat body.length).toNat = body.length :=
  UInt64.toNat_ofNat_of_lt' (Nat.lt_of_le_of_lt hle (by decide))

theorem ofNat_length_ne_zero (hle : body.length ≤ 2 ^ 62) (hne : body ≠ []) : UInt64.ofNat body.length ≠ 0 := by
  intro hzero
  have hlength := toNat_ofNat_length hle
  rw [hzero] at hlength
  exact hne (List.length_eq_zero_iff.mp hlength.symm)

theorem checkContent_of_fits (hle : body.length ≤ 2 ^ 62) (hstatus : piece.status = .prepared) (hne : body ≠ [])
    (hsize : ∀ size, piece.rawSize = some size → size.toNat = body.length) :
    checkContent piece id (.ofNat body.length) = .ok () :=
  checkContent_eq_ok hstatus (ofNat_length_ne_zero hle hne) fun declared hdeclared ↦
    UInt64.toNat_inj.mp ((hsize declared hdeclared).trans (toNat_ofNat_length hle).symm)

variable {cause : Cause}

/-- An upload that something speaks against is refused for it, and changes nothing. -/
theorem ensures_uploadLocked_objected (h : stock.store.table.Lawful) (hsteady : stock.store.table.IsSteady)
    (hle : body.length ≤ 2 ^ 62) (hobjects : stock.store.table.Objects id body cause) :
    (uploadLocked id body).Ensures (fun _ _ ↦ False) (fun fault stock' ↦ fault = { cause } ∧ stock' = stock)
      stock := by
  -- every objection but the first is about a piece that is found, and three are seen before anything is committed to
  have hchecked {i : Nat} {piece : Piece} {cause : Cause} (hhas : stock.store.table.Has i piece)
      (hcheck : checkContent piece piece.id (.ofNat body.length) = refuse cause) :
      (uploadLocked piece.id body).Ensures (fun _ _ ↦ False)
        (fun fault stock' ↦ fault = { cause } ∧ stock' = stock) stock :=
    Ensures.bind (ensures_find_eq (h.find hsteady hhas)
      (Ensures.bind (ensures_ofOutcome_error hcheck ⟨rfl, rfl⟩)))
  cases hobjects with
  | missing habsent =>
    refine Ensures.bind (Ensures.bind (ensures_table (Table.run_find_none hsteady.outage habsent) ?_))
    exact ensures_refuse ⟨rfl, rfl⟩
  | taken hhas hid hstatus =>
    subst hid
    exact hchecked hhas (if_pos hstatus)
  | empty hhas hid hstatus hempty =>
    subst hid hempty
    exact hchecked hhas ((if_neg (not_not_intro hstatus)).trans (if_pos rfl))
  | @wrongSize i piece size hhas hid hstatus hne hdeclared hother =>
    subst hid
    refine hchecked hhas ?_
    rw [checkContent, if_neg (not_not_intro hstatus), if_neg (ofNat_length_ne_zero hle hne), hdeclared]
    refine if_pos fun heq ↦ hother ?_
    rw [heq, toNat_ofNat_length hle]
  | held hhas hid hstatus hne hsize hcommitted hholder _ hcontent =>
    subst hid
    refine Ensures.bind (ensures_find_eq (h.find hsteady hhas) ?_)
    refine Ensures.bind (ensures_ofOutcome_ok (checkContent_of_fits hle hstatus hne hsize) ?_)
    refine Ensures.bind (ensures_pause ?_)
    refine Ensures.bind (ensures_ofOutcome_ok hcommitted ?_)
    refine Ensures.bind (ensures_table (h.findContent hsteady hholder hcontent) ?_)
    exact Ensures.bind (ensures_refuse ⟨rfl, rfl⟩)

end Operation

/-- A body was stored for a piece: its row is written, and its content is on the shelf. -/
structure Store.Stores (store : Store) (i : Nat) (old : Piece) (body : Bytes) (committed : CommittedPiece)
    (piece : Piece) (written : Bool) (store' : Store) : Prop where
  filled : ∃ now, piece =
    { old with
      rawSize := some (.ofNat body.length)
      paddedSize := some committed.paddedSize
      pieceSize := some committed.commitment.pieceSize
      digest := some committed.commitment.digest.hex
      contentId := some committed.contentId
      status := .uploaded
      updatedAt := now }
  /-- The row is that of the piece, and every other row is as it was. -/
  table : store'.table = store.table.put i piece
  shelf : store.shelf.Gains committed.contentId committed.padded written store'.shelf

namespace Operation

open Attempt

variable {stock : Stock} {id : String} {i : Nat} {piece : Piece} {body : Bytes} {committed : CommittedPiece}

/-- An upload that nothing speaks against is stored. -/
theorem ensures_uploadLocked_taken (h : stock.store.table.Lawful) (hsteady : stock.store.table.IsSteady)
    (hopen : stock.store.shelf.blocked = false) (hle : body.length ≤ 2 ^ 62)
    (htakes : stock.store.table.Takes i piece body committed) (hblank : piece.contentId = none) :
    (uploadLocked piece.id body).Ensures
      (fun answer stock' ↦ stock.store.Stores i piece body committed answer.1 answer.2 stock'.store)
      (fun _ _ ↦ False) stock := by
  have habsent : ∀ row ∈ stock.store.table.rows, row.contentId ≠ .text committed.contentId := by
    intro row hrow hcontent
    by_cases hid : row.id = .text piece.id
    · rw [h.eq_of_id_eq htakes.has hrow hid, Row.ofPiece, hblank] at hcontent
      cases hcontent
    · exact htakes.free row hrow hid hcontent
  have hmove (now : Instant) : (piece.withContent (.ofNat body.length) committed).moveTo .uploaded "upload" now =
      .ok (piece.uploadedAs (.ofNat body.length) committed now) :=
    Piece.moveTo_eq_ok.mpr ⟨by rw [Piece.withContent, htakes.prepared]; rfl, rfl⟩
  refine Ensures.bind (ensures_find_eq (h.find hsteady htakes.has) ?_)
  refine Ensures.bind (ensures_ofOutcome_ok
    (checkContent_of_fits hle htakes.prepared htakes.nonempty htakes.declared) ?_)
  refine Ensures.bind (ensures_pause ?_)
  refine Ensures.bind (ensures_ofOutcome_ok htakes.commits ?_)
  refine Ensures.bind (ensures_table (Table.run_findContent hsteady.outage habsent) ?_)
  refine Ensures.bind (ensures_shelve_eq committed.checkKey_contentId committed.length_contentId_le hopen ?_)
  intro written shelf hgains
  refine Ensures.bind (ensures_outside .now trivial (fun _ _ hsubmit ↦ Request.noConfusion hsubmit) fun now ↦ ?_)
  refine Ensures.bind (ensures_ofOutcome_ok (hmove now) ?_)
  refine Ensures.bind (ensures_update h hsteady.toIsCalm rfl htakes.has htakes.prepared rfl rfl
    (Table.admits_of_absent habsent) ?_)
  exact ensures_pure ⟨⟨now, rfl⟩, rfl, hgains⟩

end Operation

/-! ## Precautions -/

theorem Shelf.cause_of_checkKey {key : String} {cause : Cause} (h : checkKey key = refuse cause) :
    ∃ text, cause = .validation ("invalid blob key: " ++ text) := by
  rw [checkKey] at h
  split at h
  · cases h
  · cases h
    exact ⟨_, rfl⟩

open Operation in
/-- What speaks against a body is no failed precaution: it is not about the commitment or the blob's key, and it
is not the row that changed. -/
theorem Table.Objects.not_precaution {table : Table} {id : String} {body : Bytes} {cause : Cause}
    (h : table.Objects id body cause) :
    cause.kind ≠ .internal ∧ (∀ key, Shelf.checkKey key ≠ refuse cause) ∧ cause ≠ changedDuringUpload id := by
  have hother {cause : Cause} (hkind : cause.kind ≠ .validation) (key : String) :
      Shelf.checkKey key ≠ refuse cause := by
    intro hcheck
    obtain ⟨text, rfl⟩ := Shelf.cause_of_checkKey hcheck
    exact hkind rfl
  have hkey {detail : String} (hdetail : ∀ text, detail ≠ "invalid blob key: " ++ text) (key : String) :
      Shelf.checkKey key ≠ refuse (.validation detail) := by
    intro hcheck
    obtain ⟨text, heq⟩ := Shelf.cause_of_checkKey hcheck
    exact hdetail text (Cause.validation.inj heq)
  cases h with
  | missing _ =>
    exact ⟨fun hkind ↦ (by cases hkind), hother (fun hkind ↦ (by cases hkind)), fun hcause ↦ Cause.noConfusion hcause⟩
  | taken _ _ _ =>
    refine ⟨fun hkind ↦ (by cases hkind), hother (fun hkind ↦ (by cases hkind)), fun hcause ↦ ?_⟩
    have hchars := congrArg String.toList (Cause.conflict.inj hcause)
    simp only [String.toList_append, List.append_assoc, List.append_cancel_left_eq] at hchars
    cases hchars
  | empty _ _ _ _ =>
    refine ⟨fun hkind ↦ (by cases hkind), hkey fun text hdetail ↦ ?_, fun hcause ↦ Cause.noConfusion hcause⟩
    have hchars := congrArg String.toList hdetail
    rw [String.toList_append] at hchars
    cases hchars
  | wrongSize _ _ _ _ _ _ =>
    refine ⟨fun hkind ↦ (by cases hkind), hkey fun text hdetail ↦ ?_, fun hcause ↦ Cause.noConfusion hcause⟩
    have hchars := congrArg String.toList hdetail
    simp only [String.toList_append, List.append_assoc] at hchars
    cases hchars
  | held _ _ _ _ _ _ _ _ _ =>
    refine ⟨fun hkind ↦ (by cases hkind), hother (fun hkind ↦ (by cases hkind)), fun hcause ↦ ?_⟩
    have hchars := congrArg String.toList (Cause.conflict.inj hcause)
    simp only [String.toList_append, List.append_assoc] at hchars
    cases hchars

/-! ## In every run -/

open Operation in
/-- How an upload of a body for an id ends that begins with a store, and what it leaves. -/
structure Store.Settles (store : Store) (id : String) (body : Bytes) (outcome : Outcome (Piece × Bool))
    (store' : Store) : Prop where
  ok_iff : (∃ answer, outcome = .ok answer) ↔
    ∃ i piece committed, piece.id = id ∧ store.table.Takes i piece body committed
  error_iff : ∀ fault, outcome = .error fault ↔ ∃ cause, store.table.Objects id body cause ∧ fault = { cause }
  /-- The piece that is told is what its row holds now. -/
  stored : ∀ piece written, outcome = .ok (piece, written) → ∃ i old committed, old.id = id ∧
    store.table.Takes i old body committed ∧ store.Stores i old body committed piece written store' ∧
    store'.table.Has i piece
  refused : ∀ fault, outcome = .error fault → store' = store
  /-- No failure comes from the commitment, the blob's key or the last write. -/
  precautions : ∀ fault, outcome = .error fault → fault.kind ≠ .internal ∧
    (∀ key, Shelf.checkKey key ≠ .error fault) ∧ fault ≠ { cause := changedDuringUpload id }

theorem Call.brings_mapAnswer {β : Type} {call : Call α} {f : α → β} {stock stock' : Stock} {result : β} :
    (call.mapAnswer f).Brings stock result stock' ↔
      ∃ answer, call.Brings stock answer stock' ∧ result = f answer := by
  rw [mapAnswer, brings_bind]
  constructor
  · rintro ⟨answer, between, hcall, hdone⟩
    cases hdone
    exact ⟨answer, hcall, rfl⟩
  · rintro ⟨answer, hcall, rfl⟩
    exact ⟨answer, stock', hcall, .done _ _⟩

namespace Run

variable {s s' : State}

theorem Step.table_lawful (h : Step s s') (hs : s.store.table.Lawful) : s'.store.table.Lawful := by
  cases h with
  | answer _ _ hreacts | settle _ hreacts =>
    cases hreacts with
    | table command => exact hs.run command
    | shelf _ | shelfFails _ | outside _ _ _ => exact hs
  | weather disturbance outage => exact ⟨hs.pieces, hs.ids, hs.contents⟩
  | start _ | ask _ | finish _ | drop _ | orphan _ | crash => exact hs

/-- The table obeys its rules in every run. -/
theorem Reachable.table_lawful (h : Reachable s) : s.store.table.Lawful := by
  induction h with
  | refl => exact Table.lawful_nil
  | tail _ hstep ih => exact hstep.table_lawful ih

theorem Reachable.contentId_of_prepared (hs : Reachable s) {i : Nat} {piece : Piece}
    (hhas : s.store.table.Has i piece) (hstatus : piece.status = .prepared) : piece.contentId = none := by
  obtain ⟨shaped, heq, hshaped⟩ := hs.chronicle.shaped _ hhas.mem
  obtain rfl := Row.ofPiece_injective heq
  obtain ⟨id, path, size, now, rfl, -⟩ := hshaped.prepared hstatus
  rfl

theorem Reachable.ensures_upload (hs : Reachable s) (hsteady : s.store.table.IsSteady) {body : Bytes}
    (hle : body.length ≤ 2 ^ 62) (locks : Nat) {id : String} (taken : List Intake) {outcome : Outcome (Piece × Bool)}
    {stock : Stock} (h : (Operation.upload locks id body).run.Brings ⟨s.store, taken⟩ outcome stock) :
    s.store.Settles id body outcome stock.store := by
  have hlawful := hs.table_lawful
  have htaken {i : Nat} {old : Piece} {committed : CommittedPiece} (hid : old.id = id)
      (htakes : s.store.table.Takes i old body committed) :
      ∃ answer, outcome = .ok answer ∧ s.store.Stores i old body committed answer.1 answer.2 stock.store := by
    subst hid
    have hend := Attempt.Ensures.holding (@Operation.ensures_uploadLocked_taken ⟨s.store, taken⟩ i old body committed
      hlawful hsteady hs.chronicle.not_blocked hle htakes (hs.contentId_of_prepared htakes.has htakes.prepared)) _ _ h
    cases outcome with
    | ok answer => exact ⟨answer, rfl, hend⟩
    | error fault => exact hend.elim
  have hobjected {cause : Cause} (hobjects : s.store.table.Objects id body cause) :
      outcome = .error { cause } ∧ stock.store = s.store := by
    have hend := Attempt.Ensures.holding (@Operation.ensures_uploadLocked_objected ⟨s.store, taken⟩ id body cause
      hlawful hsteady hle hobjects) _ _ h
    cases outcome with
    | ok answer => exact hend.elim
    | error fault =>
      obtain ⟨rfl, rfl⟩ := hend
      exact ⟨rfl, rfl⟩
  rcases hlawful.takes_or_objects id hle with ⟨i, old, committed, hid, htakes⟩ | ⟨cause, hobjects⟩
  · obtain ⟨answer, rfl, hstores⟩ := htaken hid htakes
    refine ⟨⟨fun _ ↦ ⟨i, old, committed, hid, htakes⟩, fun _ ↦ ⟨answer, rfl⟩⟩, fun fault ↦ ⟨?_, ?_⟩, ?_, ?_, ?_⟩
    · intro herror
      cases herror
    · rintro ⟨cause, hobjects, rfl⟩
      exact (hobjected hobjects).1
    · rintro piece written hok
      cases hok
      refine ⟨i, old, committed, hid, htakes, hstores, ?_⟩
      rw [hstores.table]
      exact Table.has_put htakes.has
    · intro fault herror
      cases herror
    · intro fault herror
      cases herror
  · obtain ⟨rfl, hsame⟩ := hobjected hobjects
    refine ⟨⟨?_, ?_⟩, fun fault ↦ ⟨fun herror ↦ ⟨cause, hobjects, (Except.error.inj herror).symm⟩, ?_⟩, ?_, ?_, ?_⟩
    · rintro ⟨answer, hok⟩
      cases hok
    · rintro ⟨j, other, committed, hid, htakes⟩
      obtain ⟨answer, hok, -⟩ := htaken hid htakes
      exact ⟨answer, hok⟩
    · rintro ⟨other, hother, rfl⟩
      exact (hobjected hother).1
    · intro piece written hok
      cases hok
    · exact fun _ _ ↦ hsame
    · intro fault herror
      cases herror
      obtain ⟨hkind, hkey, hchanged⟩ := hobjects.not_precaution
      exact ⟨hkind, hkey, fun heq ↦ hchanged (congrArg Fault.cause heq)⟩

/-- In every run, what the table holds decides how an upload ends that nobody disturbs, when the storage does not
fail.  It ends, and it ends well exactly if its piece is there and prepared, the body is not empty and of the
announced size, and no other row holds the content; otherwise the first of these that fails is told, and nothing
is changed. -/
theorem uploads_settled (hs : Reachable s) (hsteady : s.store.table.IsSteady) {body : Bytes}
    (hle : body.length ≤ 2 ^ 62) (manager : Manager) (id : String) (taken : List Intake) :
    (∃ outcome stock, (Operation.upload manager.locks id body).run.Brings ⟨s.store, taken⟩ outcome stock) ∧
    (∀ outcome stock, (Operation.upload manager.locks id body).run.Brings ⟨s.store, taken⟩ outcome stock →
      s.store.Settles id body outcome stock.store) ∧
    ∀ outcome stock, (manager.upload id body).run.Brings ⟨s.store, taken⟩ outcome stock ↔
      ∃ ended, (Operation.upload manager.locks id body).run.Brings ⟨s.store, taken⟩ ended stock ∧
        outcome = (ended.map (·.1)).mapError (·.within "upload" id) := by
  refine ⟨Call.exists_brings _ _, fun _ _ h ↦ hs.ensures_upload hsteady hle _ taken h, fun outcome stock ↦ ?_⟩
  rw [Manager.upload, Attempt.run_within, Call.brings_mapAnswer]
  constructor
  · rintro ⟨told, htold, rfl⟩
    obtain ⟨ended, hended, rfl⟩ := Call.brings_mapAnswer.mp ((Attempt.run_map _ Prod.fst) ▸ htold)
    exact ⟨ended, hended, rfl⟩
  · rintro ⟨ended, hended, rfl⟩
    refine ⟨ended.map (·.1), ?_, rfl⟩
    rw [Attempt.run_map]
    exact Call.brings_mapAnswer.mpr ⟨ended, hended, rfl⟩

/-- The byte 1 is taken for the only piece. -/
theorem first_byte_settled :
    ∃ s : State, Reachable s ∧ s.store.table.IsSteady ∧ ([1] : Bytes).length ≤ 2 ^ 62 ∧
      ∃ piece written stock, (Operation.upload keeper.locks "a" [1]).run.Brings ⟨s.store, []⟩
        (.ok (piece, written)) stock ∧ s.store.Settles "a" [1] (.ok (piece, written)) stock.store := by
  obtain ⟨s, hs, hstore⟩ := exists_blanks ["a"] (by decide)
  have hsteady : s.store.table.IsSteady := by
    rw [hstore]
    refine ⟨⟨rfl, rfl⟩, fun row hrow ↦ ⟨blank "a", ?_⟩⟩
    rw [List.mem_singleton.mp hrow]
    exact toPiece_blank "a"
  have hhas : s.store.table.Has 0 (blank "a") := by
    rw [hstore]
    rfl
  have htakes : s.store.table.Takes 0 (blank "a") [1] ⟨pad [1], .ofTree (pad [1])⟩ :=
    { has := hhas
      prepared := rfl
      nonempty := by decide
      declared := fun size hsize ↦ by cases hsize
      commits := ofContent_eq_ofTree (by decide) (by decide)
      free := fun row hrow _ ↦ by
        rw [hstore] at hrow
        exact contentId_blanks ["a"] _ row hrow }
  have hle : ([1] : Bytes).length ≤ 2 ^ 62 := by decide
  obtain ⟨⟨outcome, stock, hbrings⟩, hsettles, -⟩ := uploads_settled hs.reachable hsteady hle keeper "a" []
  have hsettled := hsettles outcome stock hbrings
  obtain ⟨⟨piece, written⟩, rfl⟩ := hsettled.ok_iff.mpr ⟨0, blank "a", _, rfl, htakes⟩
  exact ⟨s, hs.reachable, hsteady, hle, piece, written, stock, hbrings, hsettled⟩

end Run

end PieceKeeper
