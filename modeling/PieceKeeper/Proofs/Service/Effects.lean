import PieceKeeper.Proofs.Operation.Executions
import PieceKeeper.Proofs.Service.Stock

/-!
# What operations change

An operation that is alone with a storage that does not fail writes one row when it ends well, and nothing when it
fails; only a piece that the ledger refused is left with its error.  In particular nothing goes wrong any more once
a blob was published or a piece was claimed, but for the ledger.
-/

namespace PieceKeeper

variable {α : Type}

/-- One row of a table was written, and is that of a piece now: a new row, or the row of a piece that was named. -/
inductive Table.Writes (table : Table) (piece : Piece) : Option String → Table → Prop
  | created : (∀ row ∈ table.rows, row.id ≠ .text piece.id) → Writes table piece none (table.add piece)
  | changed {i : Nat} {old : Piece} : table.Has i old → old.id = piece.id →
    Writes table piece (some piece.id) (table.put i piece)

namespace Table.Has

variable {table : Table} {i : Nat} {old piece : Piece}

theorem writes_put (h : table.Has i old) (hid : piece.id = old.id) :
    table.Writes piece (some old.id) (table.put i piece) :=
  hid ▸ .changed h hid.symm

/-- A named piece that stays as it is. -/
theorem writes (h : table.Has i piece) : table.Writes piece (some piece.id) table := by
  have hwrites := h.writes_put (rfl : piece.id = piece.id)
  rwa [put_self h] at hwrites

end Table.Has

/-! ## Faults that are not the ledger's -/

section

variable {fault : Fault} {table : Table} {id : String}

theorem Table.kind_reach (h : table.reach = .error fault) : fault.kind ≠ .ledger := by
  rw [reach] at h
  split at h
  · cases h
    intro hkind
    cases hkind
  · cases h

theorem Table.kind_find (h : (table.run (.find id)).1 = .error fault) : fault.kind ≠ .ledger := by
  rw [run] at h
  split at h
  · rename_i hreach
    cases h
    exact kind_reach hreach
  · change table.findRow _ = _ at h
    rw [findRow] at h
    split at h
    · cases h
    · rename_i row _
      rw [readRow, Piece.ofCells_answered] at h
      cases hread : row.toPiece with
      | ok piece =>
        rw [hread] at h
        cases h
      | error detail =>
        rw [hread] at h
        cases h
        intro hkind
        cases hkind

theorem Table.kind_claim {proofSet : UInt64} {rootCid : String} {now : Instant}
    (h : (table.claim id proofSet rootCid now).1 = .error fault) : fault.kind ≠ .ledger := by
  rw [claim_eq, replace] at h
  split at h
  · cases h
  · split at h
    · dsimp only at h
      split at h
      · cases h
      · cases h
        intro hkind
        cases hkind
    · cases h

theorem Operation.kind_checkFree {piece : Piece} (h : checkFree piece = .error fault) : fault.kind ≠ .ledger := by
  rw [checkFree] at h
  split at h
  · cases h
    intro hkind
    cases hkind
  · split at h
    · cases h
      intro hkind
      cases hkind
    · cases h

theorem ContentId.kind_toDigest {text : String} (h : toDigest text = .error fault) : fault.kind ≠ .ledger := by
  rw [toDigest] at h
  split at h
  · cases h
    intro hkind
    cases hkind
  · split at h
    · cases h
      intro hkind
      cases hkind
    · split at h
      · cases h
      · cases h
        intro hkind
        cases hkind

theorem Commitment.kind_sectorRoot {commitment : Commitment} {size : UInt64}
    (h : commitment.sectorRoot size = .error fault) : fault.kind ≠ .ledger := by
  rw [sectorRoot] at h
  dsimp only at h
  split at h
  · cases h
    intro hkind
    cases hkind
  · split at h
    · cases h
      intro hkind
      cases hkind
    · cases h

theorem Operation.kind_rootOf {piece : Piece} {size : UInt64} (h : rootOf piece size = .error fault) :
    fault.kind ≠ .ledger := by
  rw [rootOf] at h
  split at h
  · rename_i contentId pieceSize _ _
    cases hdigest : ContentId.toDigest contentId with
    | error reason =>
      rw [hdigest] at h
      cases h
      exact ContentId.kind_toDigest hdigest
    | ok digest =>
      rw [hdigest] at h
      cases hroot : (Commitment.mk digest pieceSize).sectorRoot size with
      | error reason =>
        simp only [bind, Except.bind, hroot] at h
        cases h
        exact Commitment.kind_sectorRoot hroot
      | ok root =>
        simp only [bind, Except.bind, hroot] at h
        cases h
  · cases h
    intro hkind
    cases hkind

end

namespace Stock

variable {stock stock' : Stock}

/-- A publication takes place, or it changes nothing. -/
theorem Serves.publish {draft : Nat} {key : String} {answer : Except FileFailure Unit}
    (h : stock.Serves (.shelf (.publish draft key)) answer stock') :
    (answer = .ok () ∧ stock.Keeps stock') ∨ (∃ failure, answer = .error failure) ∧ stock.Same stock' := by
  cases h with
  | shelf _ =>
    rw [Shelf.run]
    split
    · exact Or.inr ⟨⟨_, rfl⟩, .refl stock⟩
    · exact Or.inl ⟨rfl, rfl, rfl⟩
  | outside _ _ houtside _ => exact houtside.elim

end Stock

namespace Call

/-- A call whose requests are silent changes nothing. -/
theorem IsSilent.ensures {call : Call α} {post : α → Stock → Prop} {stock : Stock} (h : call.IsSilent)
    (hpost : ∀ answer stock', stock.Same stock' → post answer stock') : call.Ensures post stock := by
  induction call generalizing stock with
  | done answer => exact ensures_done (hpost answer stock (.refl stock))
  | ask request next ih =>
    obtain ⟨hrequest, hnext⟩ := h
    refine ensures_ask fun answer stock' hserves ↦ ih answer (hnext answer) fun result stock'' hsame ↦ ?_
    refine hpost result stock'' ((hserves.same ?_).trans hsame)
    cases request with
    | table _ | shelf _ | submit _ _ => exact hrequest.elim
    | _ => trivial

end Call

namespace Operation

open Attempt

variable {start stock : Stock} {table : Table} {i : Nat} {piece old held : Piece} {id : String} {proofSet : UInt64}
  {bad : Fault → Stock → Prop}

/-! ## Reading -/

theorem ensures_find {good : Piece → Stock → Prop} (h : stock.store.table.Lawful)
    (hgood : ∀ i piece, stock.store.table.Has i piece → piece.id = id → good piece stock)
    (hbad : ∀ fault, fault.kind ≠ .ledger → bad fault stock) : (find id).Ensures good bad stock := by
  refine Ensures.bind (ensures_query (.find id) trivial (fun found hfound ↦ ?_)
    fun fault hfault ↦ hbad fault (Table.kind_find hfault))
  cases found with
  | none => exact ensures_refuse (hbad _ nofun)
  | some piece =>
    obtain ⟨i, hhas, hid⟩ := h.has_of_found hfound
    exact ensures_pure (hgood i piece hhas hid)

theorem ensures_unshelve {key : String} :
    (unshelve key).Ensures (fun _ ↦ stock.Same) (fun _ ↦ stock.Same) stock := by
  refine Ensures.bind (ensures_ofOutcome (fun _ _ ↦ ?_) fun _ _ ↦ .refl stock)
  refine Ensures.bind (ensures_shelf trivial fun isHeld stock₁ hsame₁ ↦ ?_)
  split
  · refine Ensures.bind (ensures_quiet .pause trivial fun _ stock₂ hsame₂ ↦ ?_)
    refine Ensures.bind (ensures_shelf trivial fun read stock₃ hsame₃ ↦ ?_)
    have hsame := (hsame₁.trans hsame₂).trans hsame₃
    exact ensures_ofFile (fun _ _ ↦ hsame) fun _ ↦ hsame
  · exact ensures_refuse hsame₁

/-! ## Preparing -/

theorem ensures_prepare (source : Source) (hcalm : start.store.table.IsCalm) :
    (prepare source).Ensures
      (fun piece stock' ↦ (∀ row ∈ start.store.table.rows, row.id ≠ .text piece.id) ∧
        (start.withTable (start.store.table.add piece)).Same stock')
      (fun _ ↦ start.Same) start := by
  refine Ensures.bind (source.measure_isSilent.ensures fun measured stock₁ hsame₁ ↦ ?_)
  cases measured with
  | error fault => exact hsame₁
  | ok measured =>
    refine Ensures.bind (ensures_quiet .freshId trivial fun id stock₂ hsame₂ ↦ ?_)
    refine Ensures.bind (ensures_quiet .now trivial fun now stock₃ hsame₃ ↦ ?_)
    have hsame := (hsame₁.trans hsame₂).trans hsame₃
    have hrun (piece : Piece) : stock₃.store.table.run (.insert piece) = start.store.table.insert piece := by
      rw [hsame.table, Table.run_of_reached hcalm.outage, Table.perform]
    rcases hcalm.insert (Piece.prepare id measured.1 measured.2 now) with ⟨fault, heq⟩ | ⟨hfresh, heq⟩
    · exact Ensures.bind (ensures_table ((hrun _).trans heq) (hsame.withTable _))
    · exact Ensures.bind (ensures_table ((hrun _).trans heq) (ensures_pure ⟨hfresh, hsame.withTable _⟩))

/-! ## Writing over a row -/

/-- An update of a piece that is in its row. -/
theorem ensures_update {expected : Status} {good : Bool → Stock → Prop} (h : table.Lawful) (hcalm : table.IsCalm)
    (htable : stock.store.table = table) (hhas : table.Has i old) (hstatus : old.status = expected)
    (hid : piece.id = old.id) (hcreated : piece.createdAt = old.createdAt) (hadmits : table.Admits piece)
    (hgood : good true (stock.withTable (table.put i piece))) :
    (Attempt.table (.update piece expected)).Ensures good bad stock := by
  subst htable
  exact ensures_table (h.run_update hcalm hhas hstatus hid hcreated hadmits) hgood

theorem ensures_publish {draft : Nat} {key : String} {good : Except FileFailure Unit → Stock → Prop}
    (hdone : ∀ stock', stock.Keeps stock' → good (.ok ()) stock')
    (hfailed : ∀ failure stock', stock.Same stock' → good (.error failure) stock') :
    (Attempt.shelf (.publish draft key)).Ensures good bad stock := by
  refine Call.ensures_ask fun answer stock' hserves ↦ Call.ensures_done ?_
  rcases hserves.publish with ⟨rfl, hkeeps⟩ | ⟨⟨failure, rfl⟩, hsame⟩
  · exact hdone stock' hkeeps
  · exact hfailed failure stock' hsame

theorem ensures_shelve {key : String} {content : Bytes} {good : Bool → Stock → Prop}
    (hgood : ∀ written stock', stock.Keeps stock' → good written stock')
    (hbad : ∀ fault stock', stock.Same stock' → bad fault stock') :
    (shelve key content).Ensures good bad stock := by
  refine Ensures.bind (ensures_ofOutcome (fun _ _ ↦ ?_) fun fault _ ↦ hbad fault stock (.refl stock))
  refine Ensures.bind (ensures_shelf trivial fun isHeld stock₁ hsame₁ ↦ ?_)
  split
  · exact ensures_pure (hgood _ _ hsame₁.toKeeps)
  · refine Ensures.bind (ensures_quiet .pause trivial fun _ stock₂ hsame₂ ↦ ?_)
    refine Ensures.bind (ensures_shelf trivial fun place stock₃ hsame₃ ↦ ?_)
    have hsame := (hsame₁.trans hsame₂).trans hsame₃
    refine Ensures.bind (ensures_ofFile (fun _ _ ↦ ?_) fun fault ↦ hbad fault stock₃ hsame)
    refine Ensures.bind (ensures_shelf trivial fun draft stock₄ hsame₄ ↦ ?_)
    refine Ensures.bind (ensures_quiet .pause trivial fun _ stock₅ hsame₅ ↦ ?_)
    refine Ensures.bind (ensures_shelf trivial fun drafted stock₆ hsame₆ ↦ ?_)
    replace hsame := ((hsame.trans hsame₄).trans hsame₅).trans hsame₆
    split
    · refine Ensures.bind (ensures_shelf trivial fun _ stock₇ hsame₇ ↦ ?_)
      exact ensures_ofFile nofun fun fault ↦ hbad fault stock₇ (hsame.trans hsame₇)
    · refine Ensures.bind (ensures_shelf trivial fun isHeld stock₇ hsame₇ ↦ ?_)
      replace hsame := hsame.trans hsame₇
      split
      · refine Ensures.bind (ensures_quiet .pause trivial fun _ stock₈ hsame₈ ↦ ?_)
        refine Ensures.bind (ensures_shelf trivial fun discarded stock₉ hsame₉ ↦ ?_)
        replace hsame := (hsame.trans hsame₈).trans hsame₉
        exact Ensures.bind (ensures_ofFile (fun _ _ ↦ ensures_pure (hgood _ _ hsame.toKeeps))
          fun fault ↦ hbad fault stock₉ hsame)
      · refine Ensures.bind (ensures_quiet .pause trivial fun _ stock₈ hsame₈ ↦ ?_)
        replace hsame := hsame.trans hsame₈
        refine Ensures.bind (ensures_publish (fun stock₉ hkeeps₉ ↦ ?_) fun failure stock₉ hsame₉ ↦ ?_)
        · exact ensures_pure (hgood _ _ (hsame.toKeeps.trans hkeeps₉))
        · exact ensures_refuse (hbad _ stock₉ (hsame.trans hsame₉))

/-! ## Uploading -/

theorem ensures_uploadLocked {body : Bytes} (h : start.store.table.Lawful) (hcalm : start.store.table.IsCalm)
    (hsame : start.Same stock) :
    (uploadLocked id body).Ensures
      (fun answer stock' ↦ start.store.table.Writes answer.1 (some id) stock'.store.table ∧
        stock'.taken = start.taken)
      (fun _ ↦ start.Same) stock := by
  refine Ensures.bind (ensures_find (hsame.table ▸ h) (fun i piece hhas hid ↦ ?_) fun _ _ ↦ hsame)
  rw [hsame.table] at hhas
  subst hid
  refine Ensures.bind (ensures_ofOutcome (fun _ hcheck ↦ ?_) fun _ _ ↦ hsame)
  refine Ensures.bind (ensures_quiet .pause trivial fun _ stock₁ hsame₁ ↦ ?_)
  replace hsame := hsame.trans hsame₁
  refine Ensures.bind (ensures_ofOutcome (fun committed _ ↦ ?_) fun _ _ ↦ hsame)
  refine Ensures.bind (ensures_query (.findContent _) trivial (fun holder hholder ↦ ?_) fun _ _ ↦ hsame)
  cases holder with
  | some holder => exact Ensures.bind (ensures_refuse hsame)
  | none =>
    rw [hsame.table] at hholder
    refine Ensures.bind (ensures_shelve (fun written stock₂ hkeeps₂ ↦ ?_) fun _ _ hsame₂ ↦ hsame.trans hsame₂)
    refine Ensures.bind (ensures_quiet .now trivial fun now stock₃ hsame₃ ↦ ?_)
    have hkeeps := (hsame.toKeeps.trans hkeeps₂).trans hsame₃.toKeeps
    have hstatus := status_of_checkContent hcheck
    have hmove : (piece.withContent (.ofNat body.length) committed).moveTo .uploaded "upload" now =
        .ok (piece.uploadedAs (.ofNat body.length) committed now) :=
      Piece.moveTo_eq_ok.mpr ⟨by rw [Piece.withContent, hstatus]; rfl, rfl⟩
    have hadmits : start.store.table.Admits (piece.uploadedAs (.ofNat body.length) committed now) :=
      Table.admits_of_absent (Table.absent_of_findContent hholder)
    refine Ensures.bind (ensures_ofOutcome_ok hmove ?_)
    refine Ensures.bind (ensures_update h hcalm hkeeps.table hhas hstatus rfl rfl hadmits ?_)
    exact ensures_pure ⟨hhas.writes_put rfl, hkeeps.taken⟩

/-! ## Submitting -/

/-- A piece was claimed, and nothing else in the table or on the shelf is different. -/
structure Claimed (start : Stock) (i : Nat) (piece held : Piece) (stock : Stock) : Prop where
  has : start.store.table.Has i piece
  id : held.id = piece.id
  content : held.contentId = piece.contentId
  status : held.status = .uploaded
  table : stock.store.table = start.store.table.put i held
  blobs : stock.store.shelf.blobs = start.store.shelf.blobs

theorem Claimed.same {stock' : Stock} (h : Claimed start i piece held stock) (hsame : stock.Same stock') :
    Claimed start i piece held stock' :=
  ⟨h.has, h.id, h.content, h.status, hsame.table.trans h.table, hsame.blobs.trans h.blobs⟩

/-- What became of a claimed piece is recorded in its row. -/
theorem ensures_record {written : Piece} {good : Unit → Stock → Prop} (h : start.store.table.Lawful)
    (hcalm : start.store.table.IsCalm) (hclaimed : Claimed start i piece held stock)
    (hid : written.id = held.id) (hcreated : written.createdAt = held.createdAt)
    (hcontent : written.contentId = held.contentId)
    (hgood : good () (stock.withTable (start.store.table.put i written))) :
    (record written).Ensures good bad stock := by
  have hlawful : (start.store.table.put i held).Lawful :=
    h.put hclaimed.has hclaimed.id (h.admits hclaimed.has hclaimed.id hclaimed.content)
  have hcalm' : (start.store.table.put i held).IsCalm := ⟨hcalm.1, hcalm.2⟩
  have hheld : (start.store.table.put i held).Has i held := Table.has_put hclaimed.has
  refine Ensures.bind (ensures_update hlawful hcalm' hclaimed.table hheld hclaimed.status hid hcreated
    (hlawful.admits hheld hid hcontent) (ensures_pure ?_))
  rw [Table.put_put]
  exact hgood

/-- What a submission changes that the ledger refused. -/
structure Refused (start : Stock) (id : String) (fault : Fault) (stock' : Stock) : Prop where
  kind : fault.kind = .ledger
  table : ∃ piece, start.store.table.Writes piece (some id) stock'.store.table ∧ piece.status = .error
  blobs : stock'.store.shelf.blobs = start.store.shelf.blobs
  taken : stock'.taken = start.taken

section

variable {rootCid : String} {now : Instant} (h : start.store.table.Lawful) (hcalm : start.store.table.IsCalm)
  (hclaimed : Claimed start i piece (piece.heldFor proofSet rootCid now) stock)
include h hcalm hclaimed

/-- That the ledger took a piece is recorded. -/
theorem ensures_recordAccepted {hash : String} :
    (recordSubmission (piece.claimedFor proofSet rootCid) proofSet (.ok hash)).Ensures
      (fun written stock' ↦ start.store.table.Writes written (some piece.id) stock'.store.table ∧
        stock'.store.shelf.blobs = start.store.shelf.blobs) bad stock := by
  refine Ensures.bind (ensures_quiet .now trivial fun submitted stock₁ hsame₁ ↦ ?_)
  refine Ensures.bind (ensures_quiet .now trivial fun later stock₂ hsame₂ ↦ ?_)
  replace hclaimed := hclaimed.same (hsame₁.trans hsame₂)
  refine Ensures.bind (ensures_ofOutcome_ok (moveTo_submittedAs submitted later hclaimed.status) ?_)
  refine Ensures.bind (ensures_record h hcalm hclaimed rfl rfl rfl ?_)
  exact ensures_pure ⟨hclaimed.has.writes_put rfl, hclaimed.blobs⟩

/-- That the ledger refused a piece is recorded, and told. -/
theorem ensures_recordRefused {good : Piece → Stock → Prop} (htaken : stock.taken = start.taken) {reason : Fault} :
    (recordSubmission (piece.claimedFor proofSet rootCid) proofSet (.error reason)).Ensures good
      (fun fault stock' ↦ Refused start piece.id fault stock') stock := by
  refine Ensures.bind (ensures_quiet .now trivial fun later stock₁ hsame₁ ↦ ?_)
  replace hclaimed := hclaimed.same hsame₁
  have hmove := @moveTo_refusedWith (piece.claimedFor proofSet rootCid) proofSet reason later hclaimed.status
  refine Ensures.bind (ensures_ofOutcome_ok hmove ?_)
  have hrecorded : (record ((piece.claimedFor proofSet rootCid).refusedWith (refusalMessage proofSet reason)
      later)).Ensures (fun _ ↦ Refused start piece.id { cause := .ledger (refusalMessage proofSet reason) })
      (fun _ _ ↦ False) stock₁ := by
    refine ensures_record h hcalm hclaimed rfl rfl rfl ?_
    exact ⟨rfl, ⟨_, hclaimed.has.writes_put rfl, rfl⟩, hclaimed.blobs, hsame₁.taken.trans htaken⟩
  -- nothing can go wrong when the refusal is recorded, so the attempt ends with it
  refine Ensures.bind (ensures_lift (Call.Ensures.mono hrecorded fun outcome stock₂ hend ↦ ?_))
  cases outcome with
  | ok _ => exact ensures_refuse hend
  | error fault => exact hend.elim

end

theorem ensures_submitLocked {sectorSize : UInt64} (h : start.store.table.Lawful)
    (hcalm : start.store.table.IsCalm) (hsame : start.Same stock) :
    (submitLocked sectorSize id proofSet).Ensures
      (fun piece stock' ↦ start.store.table.Writes piece (some id) stock'.store.table ∧
        stock'.store.shelf.blobs = start.store.shelf.blobs)
      (fun fault stock' ↦ fault.kind ≠ .ledger ∧ start.Same stock' ∨ Refused start id fault stock') stock := by
  refine Ensures.bind (ensures_find (hsame.table ▸ h) (fun i piece hhas hid ↦ ?_)
    fun _ hkind ↦ Or.inl ⟨hkind, hsame⟩)
  rw [hsame.table] at hhas
  subst hid
  refine Ensures.bind (ensures_ofOutcome (fun _ hfree ↦ ?_) fun _ hfault ↦ Or.inl ⟨kind_checkFree hfault, hsame⟩)
  refine Ensures.bind (ensures_ofOutcome (fun root _ ↦ ?_) fun _ hfault ↦ Or.inl ⟨kind_rootOf hfault, hsame⟩)
  refine Ensures.bind (ensures_quiet .now trivial fun now stock₁ hsame₁ ↦ ?_)
  replace hsame := hsame.trans hsame₁
  have hrun : stock₁.store.table.run (.claim piece.id proofSet root.rootCid now) =
      start.store.table.claim piece.id proofSet root.rootCid now := by
    rw [hsame.table, Table.run_of_reached hcalm.outage, Table.perform]
  rcases h.claim_cases piece.id proofSet root.rootCid now with ⟨hrefused, hkept⟩ | ⟨j, found, hfound, hid, heq⟩
  · cases hclaim : start.store.table.claim piece.id proofSet root.rootCid now with
    | mk answer table =>
      rw [hclaim] at hrun hrefused hkept
      obtain rfl : table = start.store.table := hkept
      have hleft : start.Same (stock₁.withTable start.store.table) := hsame.withTable _
      cases answer with
      | error fault =>
        have hkind := Table.kind_claim (congrArg Prod.fst hclaim)
        exact Ensures.bind (ensures_table hrun (Or.inl ⟨hkind, hleft⟩))
      | ok isClaimed =>
        cases isClaimed with
        | false =>
          exact Ensures.bind (ensures_table hrun (ensures_refuse (Or.inl ⟨fun hkind ↦ (by cases hkind), hleft⟩)))
        | true => exact absurd rfl hrefused
  · obtain ⟨rfl, rfl⟩ := h.has_unique hfound hhas hid
    refine Ensures.bind (ensures_table (hrun.trans heq) ?_)
    have hclaimed (taken : List Intake) : Claimed start j found (found.heldFor proofSet root.rootCid now)
        { stock₁.withTable (start.store.table.put j (found.heldFor proofSet root.rootCid now)) with taken } :=
      ⟨hfound, rfl, rfl, (checkFree_eq_ok.mp hfree).1, rfl, hsame.blobs⟩
    refine Ensures.bind (ensures_submit (fun hash ↦ ?_) fun fault ↦ ?_)
    · exact ensures_recordAccepted h hcalm (hclaimed _)
    · exact Ensures.mono (ensures_recordRefused h hcalm (hclaimed stock₁.taken) hsame.taken)
        (fun _ _ hgood ↦ hgood) fun _ _ hrefused ↦ Or.inr hrefused

/-! ## Watching -/

/-- A piece was written in its row, and nothing else. -/
def Wrote (start : Stock) (id : String) (piece : Piece) (stock' : Stock) : Prop :=
  ∃ table, start.store.table.Writes piece (some id) table ∧ (start.withTable table).Same stock'

theorem ensures_recordFinding {settled : Piece} {record : TransactionRecord} {finding : Finding} {now : Instant}
    (h : start.store.table.Lawful) (hcalm : start.store.table.IsCalm) (hsame : start.Same stock)
    (hhas : start.store.table.Has i piece) (hpending : piece.status = .pending)
    (hsettle : piece.settle record now = (settled, .ok finding)) :
    (recordFinding settled finding).Ensures (fun answer ↦ Wrote start piece.id answer.1) (fun _ ↦ start.Same)
      stock := by
  rw [recordFinding]
  split
  · rename_i hfinal
    obtain ⟨status, message, rfl⟩ :
        ∃ status message, settled = piece.settledAs record status message now := by
      rcases Piece.settle_final_cases hsettle hfinal with ⟨-, -, -, rfl⟩ | ⟨-, -, message, rfl⟩
      · exact ⟨_, _, rfl⟩
      · exact ⟨_, _, rfl⟩
    refine Ensures.bind (ensures_update h hcalm hsame.table hhas hpending rfl rfl (h.admits hhas rfl rfl) ?_)
    exact ensures_pure ⟨_, hhas.writes_put rfl, hsame.withTable _⟩
  · rename_i hrest
    obtain rfl : settled = piece := by
      rcases Piece.settle_cases hsettle with ⟨-, heq⟩ | ⟨hadded, -⟩ | ⟨hfailed, -⟩
      · exact heq
      · exact absurd (Or.inl hadded) hrest
      · exact absurd (Or.inr hfailed) hrest
    exact ensures_pure ⟨_, hhas.writes, hsame⟩

theorem ensures_observeLocked (h : start.store.table.Lawful) (hcalm : start.store.table.IsCalm)
    (hsame : start.Same stock) :
    (observeLocked id true).Ensures (fun answer ↦ Wrote start id answer.1) (fun _ ↦ start.Same) stock := by
  refine Ensures.bind (ensures_find (hsame.table ▸ h) (fun i piece hhas hid ↦ ?_) fun _ _ ↦ hsame)
  rw [hsame.table] at hhas
  subst hid
  split
  · exact ensures_refuse hsame
  · rename_i hstatus
    split
    · exact ensures_refuse hsame
    · refine Ensures.bind (ensures_lookup (fun answer ↦ ?_) fun _ ↦ hsame)
      cases answer with
      | none => exact ensures_pure ⟨_, hhas.writes, hsame⟩
      | some record =>
        refine Ensures.bind (ensures_quiet .now trivial fun now stock₁ hsame₁ ↦ ?_)
        replace hsame := hsame.trans hsame₁
        cases hsettle : piece.settle record now with
        | mk settled result =>
          refine Ensures.bind (ensures_ofOutcome (fun finding hresult ↦ ?_) fun _ _ ↦ hsame)
          obtain rfl : result = .ok finding := hresult
          exact ensures_recordFinding h hcalm hsame hhas (not_not.mp hstatus) hsettle

end Operation

end PieceKeeper
