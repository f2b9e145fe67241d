import PieceKeeper.Proofs.Run.Alone

/-!
# What a failed operation leaves

An operation that fails has changed nothing, up to what it cannot take back: a blob that was
published before the row could not be written, and the claim of a piece whose submission went out.
-/

namespace PieceKeeper

variable {α : Type} {job : Job} {start h h' h'' : Holdings}

/-! ## Residues -/

namespace Holdings

/-- The rows are those of pieces with different ids, and the shelf can be used. -/
structure Sound (h : Holdings) : Prop where
  ids : (h.rows.map (·.id)).Nodup
  pieces : ∀ row ∈ h.rows, ∃ piece, row = .ofPiece piece
  open_ : h.shelf.blocked = false

/-- Nothing is different but one more blob. -/
structure Adds (h h' : Holdings) : Prop where
  rows : h'.rows = h.rows
  blob : ∃ key, h.shelf.blob? key = none ∧ (h'.shelf.blob? key).isSome ∧
    ∀ other, other ≠ key → h'.shelf.blob? other = h.shelf.blob? other
  ledger : h'.ledger = h.ledger

/-- Nothing is different but one row, and what the ledger has accepted. -/
structure Writes (h : Holdings) (i : Nat) (row : Row) (accepted : List Acceptance) (h' : Holdings) :
    Prop where
  rows : h'.rows = h.rows.set i row
  blobs : ∀ key, h'.shelf.blob? key = h.shelf.blob? key
  ledger : h'.ledger = accepted ++ h.ledger

theorem exchange_same (h : Holdings) (request : Request) (answer : request.Answer) :
    h.Same (h.exchange request answer) := ⟨rfl, fun _ ↦ rfl, rfl, rfl⟩

theorem Adds.trans_same (hadds : h.Adds h') (hsame : h'.Same h'') : h.Adds h'' where
  rows := hsame.rows.trans hadds.rows
  blob := by
    obtain ⟨key, hnone, hsome, hothers⟩ := hadds.blob
    refine ⟨key, hnone, ?_, fun other hne ↦ (hsame.blobs other).trans (hothers other hne)⟩
    rw [hsame.blobs key]
    exact hsome
  ledger := hsame.ledger.trans hadds.ledger

theorem Writes.trans_same {i : Nat} {row : Row} {accepted : List Acceptance}
    (hwrites : h.Writes i row accepted h') (hsame : h'.Same h'') : h.Writes i row accepted h'' where
  rows := hsame.rows.trans hwrites.rows
  blobs key := (hsame.blobs key).trans (hwrites.blobs key)
  ledger := hsame.ledger.trans hwrites.ledger

end Holdings

/-- The last write of an upload went wrong, and this is what came of it. -/
inductive Operation.UpdateFails (history : History) (id : String) : Fault → Prop
  | error {piece : Piece} {fault : Fault} :
    .answered (.table (.update piece .prepared)) (.error fault) ∈ history →
    UpdateFails history id fault
  | unmatched {piece : Piece} : .answered (.table (.update piece .prepared)) (.ok false) ∈ history →
    UpdateFails history id { cause := changedDuringUpload id }

/-- What a submission that has failed leaves: nothing, or a refusal that was recorded, or a claim
that tells nothing of what the ledger said, because that could not be written. -/
inductive Operation.Leaves (job : Job) (id : String) (proofSet : UInt64) (start h : Holdings) : Prop
  | nothing : start.Same h → Leaves job id proofSet start h
  | refused {i : Nat} {piece : Piece} {root : Root} {reason : Fault} {now : Instant} :
    start.rows[i]? = some (.ofPiece piece) → piece.id = id →
    .answered (.submit proofSet root) (.error reason) ∈ h.history →
    start.Writes i (.ofPiece ((piece.claimedFor proofSet root.rootCid).refusedWith
      (refusalMessage proofSet reason) now)) [] h →
    Leaves job id proofSet start h
  | unrecorded {i : Nat} {piece written : Piece} {root : Root} {answer : Outcome String}
      {stored : Outcome Bool} {now : Instant} :
    start.rows[i]? = some (.ofPiece piece) → piece.id = id → piece.status = .uploaded →
    .answered (.submit proofSet root) answer ∈ h.history → stored ≠ .ok true →
    .answered (.table (.update written .uploaded)) stored ∈ h.history →
    start.Writes i (.ofPiece (piece.heldFor proofSet root.rootCid now))
      ((answer.toOption.map (⟨job, proofSet, root, ·⟩)).toList) h →
    Leaves job id proofSet start h

theorem Operation.Leaves.mono {id : String} {proofSet : UInt64}
    (hleaves : Leaves job id proofSet start h) (hsame : h.Same h') (hsub : h.history ⊆ h'.history) :
    Leaves job id proofSet start h' := by
  cases hleaves with
  | nothing hnothing => exact .nothing (hnothing.trans hsame)
  | refused hrow hid hanswer hwrites =>
    exact .refused hrow hid (hsub hanswer) (hwrites.trans_same hsame)
  | unrecorded hrow hid hstatus hanswer hstored hwritten hwrites =>
    exact .unrecorded hrow hid hstatus (hsub hanswer) hstored (hsub hwritten)
      (hwrites.trans_same hsame)

/-- What an upload that has failed leaves: nothing, or one more blob, if its last write failed. -/
inductive Operation.Strands (id : String) (start h : Holdings) (fault : Fault) : Prop
  | nothing : start.Same h → Strands id start h fault
  | blob : start.Adds h → UpdateFails h.history id fault → Strands id start h fault

theorem Operation.UpdateFails.mono {history later : History} {id : String} {fault : Fault}
    (hfails : UpdateFails history id fault) (hsub : history ⊆ later) : UpdateFails later id fault := by
  cases hfails with
  | error hupdate => exact .error (hsub hupdate)
  | unmatched hupdate => exact .unmatched (hsub hupdate)

theorem Operation.Strands.mono {id : String} {fault : Fault} (hstrands : Strands id start h fault)
    (hsame : h.Same h') (hsub : h.history ⊆ h'.history) : Strands id start h' fault := by
  cases hstrands with
  | nothing hnothing => exact .nothing (hnothing.trans hsame)
  | blob hadds hfails => exact .blob (hadds.trans_same hsame) (hfails.mono hsub)

/-! ## One row of a table -/

/-- Among rows with different ids, a change of those that pass a test is a change of one row, if no
row with another id passes. -/
theorem map_ite_eq_set {rows : List Row} (hids : (rows.map (·.id)).Nodup) {i : Nat} {row : Row}
    (hrow : rows[i]? = some row) {test : Row → Prop} [DecidablePred test] (htest : test row)
    (honly : ∀ other, test other → other.id = row.id) (change : Row → Row) :
    rows.map (fun other ↦ if test other then change other else other) = rows.set i (change row) := by
  have hi := (List.getElem?_eq_some_iff.mp hrow).1
  refine List.ext_getElem? fun j ↦ ?_
  by_cases heq : i = j
  · subst heq
    rw [List.getElem?_map, List.getElem?_set_self hi, hrow, Option.map_some, if_pos htest]
  · rw [List.getElem?_map, List.getElem?_set_ne heq]
    cases hother : rows[j]? with
    | none => rfl
    | some other =>
      refine congrArg some (if_neg fun hpasses ↦ heq ?_)
      refine (List.getElem?_inj (by rwa [List.length_map]) hids).mp ?_
      rw [List.getElem?_map, List.getElem?_map, hrow, hother]
      exact congrArg some (honly other hpasses).symm

namespace Operation

open Attempt Holdings

/-! ## Requests that change nothing -/

section Quiet

variable {good : Holdings → α → Prop} {bad : Holdings → Fault → Prop}

theorem meets_quiet {request : Request} {good : Holdings → request.Answer → Prop}
    (hquiet : request.IsQuiet) (hsame : start.Same h)
    (hgood : ∀ answer h', start.Same h' → good h' answer) :
    (ask request).Meets job good bad h :=
  meets_ask fun answer h' hgives ↦ hgood answer h' (hsame.trans (hgives.same hquiet))

/-- A question to the table, whose failure changes nothing either. -/
theorem meets_query {command : Table.Command} {good : Holdings → command.Answer → Prop}
    (hquiet : (Request.table command).IsQuiet) (hsame : start.Same h)
    (hgood : ∀ answer h', start.Same h' → good h' answer)
    (hbad : ∀ fault h', start.Same h' → bad h' fault) :
    (table command).Meets job good bad h :=
  meets_table (fun answer h' hgives ↦ hgood answer h' (hsame.trans (hgives.same hquiet)))
    fun fault h' hgives ↦ hbad fault h' (hsame.trans (hgives.same hquiet))

theorem meets_find {id : String} (hsame : start.Same h) (hbad : ∀ h' fault, start.Same h' → bad h' fault) :
    (find id).Meets job
      (fun h' piece ↦ start.Same h' ∧ ∃ row ∈ start.rows, row.id = .text id ∧ row.toPiece = .ok piece)
      bad h := by
  refine Meets.bind (meets_table (fun found h' hgives ↦ ?_) fun fault h' hgives ↦
    hbad h' fault (hsame.trans (hgives.same trivial)))
  have hsame' := hsame.trans (hgives.same trivial)
  cases found with
  | none => exact meets_refuse (hbad h' _ hsame')
  | some piece =>
    obtain ⟨row, hrow, hfound⟩ := hgives.find
    exact meets_pure ⟨hsame', row, hsame.rows ▸ hrow, hfound⟩

end Quiet

/-! ## Operations that change nothing when they fail -/

theorem meets_prepare {source : Source} (hsame : start.Same h) :
    (prepare source).Meets job (fun _ _ ↦ True) (fun h' _ ↦ start.Same h') h := by
  have hmeasure : source.measure.Meets job (fun h' _ ↦ start.Same h') (fun h' _ ↦ start.Same h') h := by
    cases source with
    | declared size =>
      rw [Source.measure]
      split
      · exact meets_refuse hsame
      · exact meets_pure hsame
    | file path =>
      refine Meets.bind (meets_quiet trivial hsame fun _ h₁ hsame₁ ↦ ?_)
      refine Meets.bind (meets_quiet trivial hsame₁ fun found h₂ hsame₂ ↦ ?_)
      split
      · exact meets_refuse hsame₂
      · exact meets_refuse hsame₂
      · dsimp only
        split
        · exact meets_refuse hsame₂
        · exact meets_pure hsame₂
  refine Meets.bind (Meets.mono hmeasure (fun h₁ measured hsame₁ ↦ ?_) fun _ _ hbad ↦ hbad)
  refine Meets.bind (meets_quiet trivial hsame₁ fun id h₂ hsame₂ ↦ ?_)
  refine Meets.bind (meets_quiet trivial hsame₂ fun now h₃ hsame₃ ↦ ?_)
  exact Meets.bind (meets_table (fun _ _ _ ↦ meets_pure trivial) fun fault h₄ hgives₄ ↦
    hsame₃.trans hgives₄.insert_error)

theorem meets_unshelve {key : String} (hsame : start.Same h) :
    (unshelve key).Meets job (fun _ _ ↦ True) (fun h' _ ↦ start.Same h') h := by
  refine Meets.bind (meets_ofOutcome (fun _ _ ↦ ?_) fun _ _ ↦ hsame)
  refine Meets.bind (meets_quiet trivial hsame fun held h₁ hsame₁ ↦ ?_)
  split
  · refine Meets.bind (meets_quiet trivial hsame₁ fun _ h₂ hsame₂ ↦ ?_)
    refine Meets.bind (meets_quiet trivial hsame₂ fun read h₃ hsame₃ ↦ ?_)
    exact meets_ofFile (fun _ _ ↦ trivial) fun _ _ ↦ hsame₃
  · exact meets_refuse hsame₁

theorem meets_content {manager : Manager} {id : String} (hsame : start.Same h) :
    (manager.content id).Meets job (fun _ _ ↦ True) (fun h' _ ↦ start.Same h') h := by
  refine Meets.bind (Meets.mono (meets_find hsame fun _ _ hbad ↦ hbad) ?_ fun _ _ hbad ↦ hbad)
  rintro h₁ piece ⟨hsame₁, -⟩
  split
  · exact meets_refuse hsame₁
  · exact Meets.within (meets_unshelve hsame₁)

theorem meets_recordFinding {piece : Piece} {finding : Finding} (hsame : start.Same h) :
    (recordFinding piece finding).Meets job (fun _ _ ↦ True) (fun h' _ ↦ start.Same h') h := by
  rw [recordFinding]
  split
  · refine Meets.bind (meets_table (fun stored h₁ hgives₁ ↦ ?_) fun fault h₁ hgives₁ ↦ ?_)
    · split
      · exact meets_pure trivial
      · rename_i hstored
        rcases hgives₁.update with ⟨-, hsame₁⟩ | ⟨hok, -⟩
        · exact meets_refuse (hsame.trans hsame₁)
        · exact absurd (Except.ok.inj hok) hstored
    · rcases hgives₁.update with ⟨-, hsame₁⟩ | ⟨hok, -⟩
      · exact hsame.trans hsame₁
      · cases hok
  · exact meets_pure trivial

theorem meets_observeLocked {id : String} {strict : Bool} (hsame : start.Same h) :
    (observeLocked id strict).Meets job (fun _ _ ↦ True) (fun h' _ ↦ start.Same h') h := by
  refine Meets.bind (Meets.mono (meets_find hsame fun _ _ hbad ↦ hbad) ?_ fun _ _ hbad ↦ hbad)
  rintro h₁ piece ⟨hsame₁, -⟩
  split
  · split
    · exact meets_refuse hsame₁
    · exact meets_pure trivial
  · split
    · split
      · exact meets_refuse hsame₁
      · exact meets_pure trivial
    · refine Meets.bind fun answer h₂ hgives₂ ↦ ?_
      have hsame₂ := hsame₁.trans (hgives₂.same trivial)
      cases answer with
      | error fault => exact hsame₂
      | ok found =>
        cases found with
        | none => exact meets_pure trivial
        | some record =>
          refine Meets.bind (meets_quiet trivial hsame₂ fun now h₃ hsame₃ ↦ ?_)
          refine Meets.bind (meets_ofOutcome (fun finding _ ↦ ?_) fun _ _ ↦ hsame₃)
          exact meets_recordFinding hsame₃

theorem meets_observe {locks : Nat} {id : String} {strict : Bool} (hsame : start.Same h) :
    (observe locks id strict).Meets job (fun _ _ ↦ True) (fun h' _ ↦ start.Same h') h :=
  Meets.holding (Meets.mono (meets_observeLocked (hsame.trans (exchange_same h _ _)))
    (fun _ _ _ ↦ trivial) fun h' _ hbad ↦ hbad.trans (exchange_same h' _ _))

/-- A round cannot fail once it has the pieces. -/
theorem meets_reconcile {locks : Nat} (hsame : start.Same h) :
    (reconcile locks).Meets job (fun _ _ ↦ True) (fun h' _ ↦ start.Same h') h :=
  Meets.bind (meets_query trivial hsame
    (fun _ _ _ ↦ meets_lift (Call.meets_of_forall (fun _ _ ↦ trivial) _)) fun _ _ hsame' ↦ hsame')

/-! ## Uploading -/

/-- What is published under a key that is free is one more blob. -/
theorem meets_shelve {key : String} {content : Bytes} (hsound : start.Sound) (hsame : start.Same h) :
    (shelve key content).Meets job (fun h' _ ↦ start.Same h' ∨ start.Adds h')
      (fun h' _ ↦ start.Same h') h := by
  refine Meets.bind (meets_ofOutcome (fun _ _ ↦ ?_) fun _ _ ↦ hsame)
  refine Meets.bind (meets_quiet trivial hsame fun held h₁ hsame₁ ↦ ?_)
  split
  · exact meets_pure (Or.inl hsame₁)
  refine Meets.bind (meets_quiet trivial hsame₁ fun _ h₂ hsame₂ ↦ ?_)
  refine Meets.bind (meets_quiet trivial hsame₂ fun place h₃ hsame₃ ↦ ?_)
  refine Meets.bind (meets_ofFile (fun _ _ ↦ ?_) fun _ _ ↦ hsame₃)
  refine Meets.bind (meets_quiet trivial hsame₃ fun draft h₄ hsame₄ ↦ ?_)
  refine Meets.bind (meets_quiet trivial hsame₄ fun _ h₅ hsame₅ ↦ ?_)
  refine Meets.bind (meets_quiet trivial hsame₅ fun written h₆ hsame₆ ↦ ?_)
  split
  · refine Meets.bind (meets_quiet trivial hsame₆ fun _ h₇ hsame₇ ↦ ?_)
    exact meets_ofFile (fun _ hfailed ↦ nomatch hfailed) fun _ _ ↦ hsame₇
  · refine Meets.bind (meets_shelf fun held' h₇ hgives₇ ↦ ?_)
    have hsame₇ := hsame₆.trans (hgives₇.same trivial)
    split
    · refine Meets.bind (meets_quiet trivial hsame₇ fun _ h₈ hsame₈ ↦ ?_)
      refine Meets.bind (meets_quiet trivial hsame₈ fun discarded h₉ hsame₉ ↦ ?_)
      exact Meets.bind (meets_ofFile (fun _ _ ↦ meets_pure (Or.inl hsame₉)) fun _ _ ↦ hsame₉)
    · rename_i hheld
      -- nothing is held under the key when the draft takes its place
      have hnone : start.shelf.blob? key = none := by
        have hblocked : h₆.shelf.blocked = false := hsame₆.blocked.trans hsound.open_
        rw [hgives₇.holds hblocked, hsame₆.blobs key, Option.not_isSome_iff_eq_none] at hheld
        exact hheld
      refine Meets.bind (meets_quiet trivial hsame₇ fun _ h₈ hsame₈ ↦ ?_)
      refine Meets.bind (meets_shelf fun published h₉ hgives₉ ↦ ?_)
      rcases hgives₉.publish with ⟨⟨failure, rfl⟩, hsame₉⟩ | ⟨rfl, hblob, hothers, -, hrows, hledger⟩
      · exact Meets.bind (meets_ofFile (fun _ hfailed ↦ nomatch hfailed) fun _ _ ↦
          hsame₈.trans hsame₉)
      · refine Meets.bind (meets_ofFile (fun _ _ ↦ meets_pure (Or.inr ?_)) fun _ hfailed ↦
          nomatch hfailed)
        exact ⟨hrows.trans hsame₈.rows,
          ⟨key, hnone, hblob, fun other hne ↦ (hothers other hne).trans (hsame₈.blobs other)⟩,
          hledger.trans hsame₈.ledger⟩

/-- After shelving only the last write can fail. -/
theorem meets_uploadLocked {id : String} {body : Bytes} (hsound : start.Sound)
    (hsame : start.Same h) :
    (uploadLocked id body).Meets job (fun _ _ ↦ True) (Strands id start) h := by
  refine Meets.bind (Meets.mono (meets_find hsame fun _ _ hbad ↦ .nothing hbad) ?_ fun _ _ hbad ↦ hbad)
  rintro h₁ piece ⟨hsame₁, -⟩
  refine Meets.bind (meets_ofOutcome (fun _ hcheck ↦ ?_) fun _ _ ↦ .nothing hsame₁)
  refine Meets.bind (meets_quiet trivial hsame₁ fun _ h₂ hsame₂ ↦ ?_)
  refine Meets.bind (meets_ofOutcome (fun committed _ ↦ ?_) fun _ _ ↦ .nothing hsame₂)
  refine Meets.bind (meets_query trivial hsame₂ (fun holder h₃ hsame₃ ↦ ?_) fun _ _ hsame₃ ↦
    .nothing hsame₃)
  cases holder with
  | some holder => exact Meets.bind (meets_refuse (.nothing hsame₃))
  | none =>
    refine Meets.bind (Meets.mono (meets_shelve hsound hsame₃) (fun h₄ written hshelved ↦ ?_)
      fun _ _ hbad ↦ .nothing hbad)
    refine Meets.bind (meets_ask fun now h₅ hgives₅ ↦ ?_)
    have hshelved₅ : start.Same h₅ ∨ start.Adds h₅ := hshelved.imp
      (·.trans (hgives₅.same trivial)) (·.trans_same (hgives₅.same trivial))
    refine Meets.bind (meets_ofOutcome (fun uploaded _ ↦ ?_) fun fault hfault ↦ ?_)
    · refine Meets.bind (meets_table (fun stored h₆ hgives₆ ↦ ?_) fun fault h₆ hgives₆ ↦ ?_)
      · split
        · exact meets_pure trivial
        · rename_i hstored
          rcases hgives₆.update with ⟨-, hsame₆⟩ | ⟨hok, -⟩
          · refine meets_refuse (hshelved₅.elim (fun hold ↦ .nothing (hold.trans hsame₆))
              fun hnew ↦ .blob (hnew.trans_same hsame₆) ?_)
            rw [Bool.not_eq_true] at hstored
            exact .unmatched (hstored ▸ hgives₆.mem_history)
          · exact absurd (Except.ok.inj hok) hstored
      · rcases hgives₆.update with ⟨-, hsame₆⟩ | ⟨hok, -⟩
        · exact hshelved₅.elim (fun hold ↦ .nothing (hold.trans hsame₆))
            fun hnew ↦ .blob (hnew.trans_same hsame₆) (.error hgives₆.mem_history)
        · cases hok
    · have hmove : (piece.withContent (UInt64.ofNat body.length) committed).moveTo .uploaded
          "upload" now = .ok (piece.uploadedAs (UInt64.ofNat body.length) committed now) := by
        refine Piece.moveTo_eq_ok.mpr ⟨?_, rfl⟩
        exact congrArg (Status.canMove · .uploaded) (status_of_checkContent hcheck)
      cases hmove.symm.trans hfault

theorem meets_upload {locks : Nat} {id : String} {body : Bytes} (hsound : start.Sound)
    (hsame : start.Same h) :
    (upload locks id body).Meets job (fun _ _ ↦ True) (Strands id start) h :=
  Meets.holding (Meets.mono (meets_uploadLocked hsound (hsame.trans (exchange_same h _ _)))
    (fun _ _ _ ↦ trivial) fun h' _ hbad ↦
      hbad.mono (exchange_same h' _ _) (h'.history.subset_exchange _ _))

theorem meets_uploadFromSource {locks : Nat} {id : String} (hsound : start.Sound)
    (hsame : start.Same h) :
    (uploadFromSource locks id).Meets job (fun _ _ ↦ True) (Strands id start) h := by
  refine Meets.bind (Meets.mono (meets_find hsame fun _ _ hbad ↦ .nothing hbad) ?_ fun _ _ hbad ↦ hbad)
  rintro h₁ piece ⟨hsame₁, -⟩
  split
  · exact meets_refuse (.nothing hsame₁)
  · refine Meets.bind (meets_quiet trivial hsame₁ fun _ h₂ hsame₂ ↦ ?_)
    refine Meets.bind (meets_quiet trivial hsame₂ fun read h₃ hsame₃ ↦ ?_)
    split
    · exact meets_refuse (.nothing hsame₃)
    · exact meets_upload hsound hsame₃

/-! ## Submitting -/

/-- A claim writes the row that a free piece was read from. -/
theorem claim_writes {i : Nat} {piece : Piece} {proofSet : UInt64} {rootCid : String} {now : Instant}
    (hsound : start.Sound) (hrow : start.rows[i]? = some (.ofPiece piece)) (hsame : start.Same h)
    (hgives : h.Gives job (.table (.claim piece.id proofSet rootCid now)) (.ok true) h') :
    start.Writes i (.ofPiece (piece.heldFor proofSet rootCid now)) [] h' := by
  rcases hgives.claim with ⟨hrefused, -⟩ | ⟨-, ⟨free, hmem, hfree⟩, hrows, hshelf, hledger⟩
  · exact absurd rfl hrefused
  rw [hsame.rows] at hmem hrows
  obtain rfl : free = .ofPiece piece :=
    List.inj_on_of_nodup_map hsound.ids hmem (List.mem_of_getElem? hrow) hfree.1.1
  refine ⟨?_, fun key ↦ (congrArg (Shelf.blob? · key) hshelf).trans (hsame.blobs key),
    hledger.trans hsame.ledger⟩
  exact hrows.trans (map_ite_eq_set hsound.ids hrow hfree (fun _ hpasses ↦ hpasses.1.1) _)

/-- An update of the only row that was written writes nothing else. -/
theorem update_writes {i : Nat} {piece held written : Piece} {status : Status}
    {accepted : List Acceptance} (hsound : start.Sound)
    (hrow : start.rows[i]? = some (.ofPiece piece))
    (hwrites : start.Writes i (.ofPiece held) accepted h) (hheld : held.id = piece.id)
    (hstatus : held.status = status) (hid : written.id = held.id)
    (hcreated : written.createdAt = held.createdAt)
    (hgives : h.Gives job (.table (.update written status)) (.ok true) h') :
    start.Writes i (.ofPiece written) accepted h' := by
  rcases hgives.update with ⟨hrefused, -⟩ | ⟨-, -, hrows, hshelf, hledger⟩
  · exact absurd rfl hrefused
  subst hstatus
  obtain ⟨hi, hget⟩ := List.getElem?_eq_some_iff.mp hrow
  have hat : h.rows[i]? = some (.ofPiece held) := by
    rw [hwrites.rows, List.getElem?_set_self hi]
  have hids : (h.rows.map (·.id)).Nodup := by
    have hlength : i < (start.rows.map (·.id)).length := by rwa [List.length_map]
    have hsame : Cell.text held.id = (start.rows.map (·.id))[i] := by
      rw [List.getElem_map, hget, hheld]
      rfl
    rw [hwrites.rows, List.map_set]
    change ((start.rows.map (·.id)).set i (.text held.id)).Nodup
    rw [hsame, List.set_getElem_self]
    exact hsound.ids
  have his : (Row.ofPiece held).Is written.id held.status := ⟨congrArg Cell.text hid.symm, rfl⟩
  refine ⟨?_, fun key ↦ (congrArg (Shelf.blob? · key) hshelf).trans (hwrites.blobs key),
    hledger.trans hwrites.ledger⟩
  rw [hrows, map_ite_eq_set hids hat his (fun _ hpasses ↦ hpasses.1.trans his.1.symm) _,
    Row.takeOver_ofPiece hid hcreated, hwrites.rows, List.set_set]

theorem meets_record {piece : Piece} :
    (record piece).Meets job (fun h' _ ↦ h.Gives job (.table (.update piece .uploaded)) (.ok true) h')
      (fun h' _ ↦ ∃ stored, stored ≠ .ok true ∧
        h.Gives job (.table (.update piece .uploaded)) stored h') h := by
  refine Meets.bind (meets_table (fun stored h' hgives ↦ ?_) fun fault h' hgives ↦
    ⟨.error fault, nofun, hgives⟩)
  cases stored with
  | true => exact meets_pure hgives
  | false => exact meets_refuse ⟨.ok false, nofun, hgives⟩

/-- Once the ledger has answered, only the record of its answer can still fail. -/
theorem meets_recordSubmission {i : Nat} {piece : Piece} {proofSet : UInt64} {root : Root}
    {now : Instant} {answer : Outcome String} (hsound : start.Sound)
    (hrow : start.rows[i]? = some (.ofPiece piece)) (hstatus : piece.status = .uploaded)
    (hanswer : .answered (.submit proofSet root) answer ∈ h.history)
    (hwrites : start.Writes i (.ofPiece (piece.heldFor proofSet root.rootCid now))
      ((answer.toOption.map (⟨job, proofSet, root, ·⟩)).toList) h) :
    (recordSubmission (piece.claimedFor proofSet root.rootCid) proofSet answer).Meets job
      (fun _ _ ↦ True) (fun h' _ ↦ Leaves job piece.id proofSet start h') h := by
  have hunrecorded {written : Piece} {h₁ h₂ : Holdings} (hsame : h.Same h₁)
      (hsub : h.history ⊆ h₁.history) (hfails : ∃ stored, stored ≠ .ok true ∧
        h₁.Gives job (.table (.update written .uploaded)) stored h₂) :
      Leaves job piece.id proofSet start h₂ := by
    obtain ⟨stored, hstored, hgives⟩ := hfails
    rcases hgives.update with ⟨-, hsame₂⟩ | ⟨hok, -⟩
    · exact .unrecorded hrow rfl hstatus (hgives.subset (hsub hanswer)) hstored hgives.mem_history
        ((hwrites.trans_same hsame).trans_same hsame₂)
    · exact absurd hok hstored
  cases answer with
  | ok hash =>
    refine Meets.bind (meets_ask fun submitted h₁ hgives₁ ↦ ?_)
    refine Meets.bind (meets_ask fun now' h₂ hgives₂ ↦ ?_)
    have hsame₂ := (hgives₁.same trivial).trans (hgives₂.same trivial)
    have hsub₂ : h.history ⊆ h₂.history := List.Subset.trans hgives₁.subset hgives₂.subset
    have hmove : { piece.claimedFor proofSet root.rootCid with
        transaction := some hash, submittedAt := some submitted }.moveTo .pending
          "add to proof set" now' = .ok ((piece.claimedFor proofSet root.rootCid).submittedAs hash
            submitted now') :=
      Piece.moveTo_eq_ok.mpr ⟨congrArg (Status.canMove · .pending) hstatus, rfl⟩
    refine Meets.bind (meets_ofOutcome (fun moved _ ↦ ?_) fun fault hfault ↦ ?_)
    · exact Meets.bind (Meets.mono meets_record (fun _ _ _ ↦ meets_pure trivial) fun _ _ hfails ↦
        hunrecorded hsame₂ hsub₂ hfails)
    · cases hmove.symm.trans hfault
  | error reason =>
    refine Meets.bind (meets_ask fun now' h₁ hgives₁ ↦ ?_)
    have hsame₁ := hgives₁.same trivial
    have hmove : { piece.claimedFor proofSet root.rootCid with
        errorMessage := some (refusalMessage proofSet reason) }.moveTo .error "add to proof set" now' =
          .ok ((piece.claimedFor proofSet root.rootCid).refusedWith (refusalMessage proofSet reason)
            now') :=
      Piece.moveTo_eq_ok.mpr ⟨congrArg (Status.canMove · .error) hstatus, rfl⟩
    refine Meets.bind (meets_ofOutcome (fun moved hmoved ↦ ?_) fun fault hfault ↦ ?_)
    · obtain rfl := Except.ok.inj (hmove.symm.trans hmoved)
      -- whether the refusal is recorded or not, the attempt ends with it
      refine Meets.bind (meets_lift (Call.Meets.mono meets_record fun h₂ outcome hend ↦ ?_))
      cases outcome with
      | ok _ =>
        have hupdated : Gives job h₁ _ _ h₂ := hend
        exact meets_refuse (.refused hrow rfl (hupdated.subset (hgives₁.subset hanswer))
          (update_writes hsound hrow (hwrites.trans_same hsame₁) rfl hstatus rfl rfl hupdated))
      | error fault => exact meets_refuse (hunrecorded hsame₁ hgives₁.subset hend)
    · cases hmove.symm.trans hfault

theorem meets_submitLocked {sectorSize proofSet : UInt64} {id : String} (hsound : start.Sound)
    (hsame : start.Same h) :
    (submitLocked sectorSize id proofSet).Meets job (fun _ _ ↦ True)
      (fun h' _ ↦ Leaves job id proofSet start h') h := by
  refine Meets.bind (Meets.mono (meets_find hsame fun _ _ hbad ↦ .nothing hbad) ?_ fun _ _ hbad ↦ hbad)
  rintro h₁ piece ⟨hsame₁, row, hmem, hid, hread⟩
  obtain ⟨found, rfl⟩ := hsound.pieces row hmem
  obtain rfl := Row.eq_of_toPiece_ofPiece hread
  obtain rfl : piece.id = id := Cell.text.inj hid
  obtain ⟨i, hrow⟩ := List.mem_iff_getElem?.mp hmem
  refine Meets.bind (meets_ofOutcome (fun _ hfree ↦ ?_) fun _ _ ↦ .nothing hsame₁)
  refine Meets.bind (meets_ofOutcome (fun root _ ↦ ?_) fun _ _ ↦ .nothing hsame₁)
  refine Meets.bind (meets_quiet trivial hsame₁ fun now h₂ hsame₂ ↦ ?_)
  refine Meets.bind (meets_table (fun stored h₃ hgives₃ ↦ ?_) fun fault h₃ hgives₃ ↦ ?_)
  · split
    · rename_i hstored
      subst hstored
      have hwrites := claim_writes hsound hrow hsame₂ hgives₃
      refine Meets.bind (meets_ask fun answer h₄ hgives₄ ↦ ?_)
      have hwrites₄ : start.Writes i (.ofPiece (piece.heldFor proofSet root.rootCid now))
          ((answer.toOption.map (⟨job, proofSet, root, ·⟩)).toList) h₄ := by
        cases hgives₄ with
        | accepted _ _ hash => exact ⟨hwrites.rows, hwrites.blobs, congrArg (_ :: ·) hwrites.ledger⟩
        | refused _ _ reason => exact hwrites.trans_same (exchange_same h₃ _ _)
        | outside _ _ _ hother => exact absurd rfl (hother proofSet root)
      exact meets_recordSubmission hsound hrow (checkFree_eq_ok.mp hfree).1 hgives₄.mem_history hwrites₄
    · rename_i hstored
      rcases hgives₃.claim with ⟨-, hsame₃⟩ | ⟨hok, -⟩
      · exact meets_refuse (.nothing (hsame₂.trans hsame₃))
      · exact absurd (Except.ok.inj hok) hstored
  · rcases hgives₃.claim with ⟨-, hsame₃⟩ | ⟨hok, -⟩
    · exact .nothing (hsame₂.trans hsame₃)
    · cases hok

theorem meets_submit {locks : Nat} {sectorSize proofSet : UInt64} {id : String}
    (hsound : start.Sound) (hsame : start.Same h) :
    (submit locks sectorSize id proofSet).Meets job (fun _ _ ↦ True)
      (fun h' _ ↦ Leaves job id proofSet start h') h :=
  Meets.holding (Meets.mono (meets_submitLocked hsound (hsame.trans (exchange_same h _ _)))
    (fun _ _ _ ↦ trivial) fun h' _ hbad ↦
      hbad.mono (exchange_same h' _ _) (h'.history.subset_exchange _ _))

end Operation

end PieceKeeper
