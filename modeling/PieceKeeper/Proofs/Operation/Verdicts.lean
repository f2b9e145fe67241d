import PieceKeeper.Proofs.Operation.Errors
import PieceKeeper.Proofs.Run.Shapes

/-!
# How a submission ends

A submission ends in one of seven ways.  Before its claim it changes nothing, and it is turned away
because the piece cannot be read, is not there, or may not be submitted; its claim may fail; and once
the ledger has answered, the answer decides, whatever becomes of the write that records it.  No piece
that fits its status is turned away for any other reason.
-/

namespace PieceKeeper

variable {job : Job} {start h h' : Holdings}

/-! ## Deeds -/

instance : DecidablePred Request.IsQuiet
  | .table (.insert _) | .table (.update _ _) | .table (.claim _ _ _ _) => .isFalse id
  | .shelf (.publish _ _) | .submit _ _ => .isFalse id
  | .table (.find _) | .table (.findContent _) | .table (.withStatus _) | .table (.first _) => .isTrue trivial
  | .shelf (.holds _) | .shelf (.makePlace _) | .shelf .newDraft | .shelf (.writeDraft _ _ _) => .isTrue trivial
  | .shelf (.discard _) | .shelf (.read _) => .isTrue trivial
  | .findFile _ | .readFile _ | .now | .freshId | .acquire _ | .release _ | .pause | .sleep _ => .isTrue trivial
  | .clock | .lookup _ => .isTrue trivial

/-- A request and the answer to it. -/
abbrev Deed := (request : Request) × request.Answer

/-- An answer to a request that can have changed a row, a blob or the ledger's books. -/
def Event.deed? : Event → Option Deed
  | .answered request answer => if request.IsQuiet then none else some ⟨request, answer⟩
  | _ => none

/-- What a call has done, the latest first. -/
def History.deeds (history : History) : List Deed := history.filterMap Event.deed?

theorem History.deeds_exchange_of_quiet {request : Request} (hquiet : request.IsQuiet)
    (history : History) (answer : request.Answer) :
    (history.exchange request answer).deeds = history.deeds := by
  have hanswer : Event.deed? (.answered request answer) = none := if_pos hquiet
  rw [exchange, deeds, List.filterMap_cons_none hanswer, List.filterMap_cons_none rfl, deeds]

theorem History.deeds_exchange {request : Request} (hloud : ¬ request.IsQuiet) (history : History)
    (answer : request.Answer) :
    (history.exchange request answer).deeds = ⟨request, answer⟩ :: history.deeds := by
  have hanswer : Event.deed? (.answered request answer) = some ⟨request, answer⟩ := if_neg hloud
  rw [exchange, deeds, List.filterMap_cons_some hanswer, List.filterMap_cons_none rfl, deeds]

theorem History.mem_deeds {history : History} (request : Request) {answer : request.Answer}
    (hloud : ¬ request.IsQuiet) :
    ⟨request, answer⟩ ∈ history.deeds ↔ .answered request answer ∈ history := by
  rw [deeds, List.mem_filterMap]
  constructor
  · rintro ⟨event, hmem, hdeed⟩
    cases event with
    | answered other found =>
      rw [Event.deed?] at hdeed
      split at hdeed
      · cases hdeed
      · cases hdeed
        exact hmem
    | started | asked _ | ended _ _ => cases hdeed
  · exact fun hmem ↦ ⟨_, hmem, if_neg hloud⟩

/-- Just what was asked has been answered. -/
def History.Settled (history : History) : Prop :=
  ∀ request, .asked request ∈ history ↔ ∃ answer, .answered request answer ∈ history

theorem History.Settled.exchange {history : History} (hsettled : history.Settled) (request : Request)
    (answer : request.Answer) : (history.exchange request answer).Settled := by
  intro other
  constructor
  · intro hmem
    rcases mem_exchange.mp hmem with heq | heq | hold
    · cases heq
    · cases heq
      exact ⟨answer, List.mem_cons_self⟩
    · obtain ⟨found, hfound⟩ := (hsettled other).mp hold
      exact ⟨found, history.subset_exchange request answer hfound⟩
  · rintro ⟨found, hmem⟩
    rcases mem_exchange.mp hmem with heq | heq | hold
    · cases heq
      exact List.mem_cons_of_mem _ List.mem_cons_self
    · cases heq
    · exact history.subset_exchange request answer ((hsettled other).mpr ⟨found, hold⟩)

/-- When a call ends, it waits for no answer. -/
theorem Call.Meets.settled {α : Type} {post : Holdings → α → Prop} {call : Call α}
    (hmeets : call.Meets job post h) (hsettled : h.history.Settled) :
    call.Meets job (fun h' answer ↦ post h' answer ∧ h'.history.Settled) h := by
  induction call generalizing h with
  | done answer => exact ⟨hmeets, hsettled⟩
  | ask request next ih =>
    intro answer h' hgives
    refine ih answer (hmeets answer h' hgives) ?_
    rw [hgives.history_eq]
    exact hsettled.exchange request answer

/-- Nothing is different, for nothing has been done. -/
structure Holdings.Idle (start h : Holdings) : Prop extends start.Same h where
  deeds : h.history.deeds = []

theorem Holdings.Gives.deeds_of_quiet {request : Request} {answer : request.Answer}
    (hgives : h.Gives job request answer h') (hquiet : request.IsQuiet) :
    h'.history.deeds = h.history.deeds := by
  rw [hgives.history_eq, History.deeds_exchange_of_quiet hquiet]

theorem Holdings.Gives.deeds {request : Request} {answer : request.Answer}
    (hgives : h.Gives job request answer h') (hloud : ¬ request.IsQuiet) :
    h'.history.deeds = ⟨request, answer⟩ :: h.history.deeds := by
  rw [hgives.history_eq, History.deeds_exchange hloud]

theorem Holdings.Idle.gives {request : Request} {answer : request.Answer} (hidle : start.Idle h)
    (hgives : h.Gives job request answer h') (hquiet : request.IsQuiet) : start.Idle h' where
  toSame := hidle.toSame.trans (hgives.same hquiet)
  deeds := (hgives.deeds_of_quiet hquiet).trans hidle.deeds

/-- A piece that is not found has no row. -/
theorem Holdings.Gives.find_none {id : String}
    (hgives : h.Gives job (.table (.find id)) (.ok none) h') : ∀ row ∈ h.rows, row.id ≠ .text id := by
  generalize hanswer : (.ok none : Outcome (Option Piece)) = answer at hgives
  cases hgives with
  | table table _ hrows => exact hrows ▸ Table.absent_of_find hanswer.symm
  | outside _ _ houtside _ => exact houtside.elim

/-! ## Reasons -/

/-- The fault of a conditional write that did not take place: the store's own, or what is said where
there was no row to write. -/
inductive Outcome.Spoils (unmatched : Cause) : Outcome Bool → Fault → Prop
  | failed (fault : Fault) : Spoils unmatched (.error fault) fault
  | unmatched : Spoils unmatched (.ok false) { cause := unmatched }

/-- A piece is to be submitted in sectors of a size. -/
structure Piece.IsDue (piece : Piece) (sectorSize : UInt64) : Prop where
  uploaded : piece.status = .uploaded
  unclaimed : piece.proofSet = none
  fits : ∃ size, piece.pieceSize = some size ∧ size ≤ sectorSize

namespace Operation

/-- A piece that is larger than the sectors. -/
def doesNotFit (size sectorSize : UInt64) : Cause :=
  .validation ("piece size " ++ toString size.toNat ++ " does not fit sector size "
    ++ toString sectorSize.toNat)

/-- Why a piece may not be submitted, in the order in which this is looked at. -/
inductive Bars (piece : Piece) (sectorSize : UInt64) : Cause → Prop
  | status : piece.status ≠ .uploaded → Bars piece sectorSize (piece.invalidState "add to proof set")
  | claimed {proofSet : UInt64} : piece.status = .uploaded → piece.proofSet = some proofSet →
    Bars piece sectorSize (alreadyClaimed piece.id proofSet)
  | size {size : UInt64} : piece.status = .uploaded → piece.proofSet = none →
    piece.pieceSize = some size → sectorSize < size → Bars piece sectorSize (doesNotFit size sectorSize)

/-- Why a piece is not read: the table failed, or there is no row. -/
inductive Unread (rows : List Row) (history : History) (id : String) : Fault → Prop
  | failed {fault : Fault} : .answered (.table (.find id)) (.error fault) ∈ history →
    Unread rows history id fault
  | missing : (∀ row ∈ rows, row.id ≠ .text id) → Unread rows history id { cause := notFound id }

theorem Unread.mono {rows : List Row} {history later : History} {id : String} {fault : Fault}
    (hunread : Unread rows history id fault) (hsub : history ⊆ later) : Unread rows later id fault := by
  cases hunread with
  | failed hanswer => exact .failed (hsub hanswer)
  | missing hmissing => exact .missing hmissing

variable {sectors : UInt64 → Prop} {piece : Piece} {sectorSize proofSet : UInt64} {id : String}

theorem bars_of_checkFree (sectorSize : UInt64) {fault : Fault} (hcheck : checkFree piece = .error fault) :
    ∃ cause, fault = { cause } ∧ Bars piece sectorSize cause := by
  rw [checkFree] at hcheck
  split at hcheck
  · rename_i hstatus
    cases hcheck
    exact ⟨_, rfl, .status hstatus⟩
  · rename_i hstatus
    rw [not_not] at hstatus
    split at hcheck
    · rename_i held hset
      cases hcheck
      exact ⟨_, rfl, .claimed hstatus hset⟩
    · cases hcheck

/-- The size of a committed piece is a power of two, and not too small. -/
theorem size_of_commits {commitment : Commitment} (hcommits : piece.Commits commitment) :
    isPowerOfTwo commitment.pieceSize.toNat = true ∧ ¬ commitment.pieceSize < minPieceSize := by
  obtain ⟨⟨raw, padded, -, -, -, ⟨⟨-, k, hpadded⟩, -⟩, hsize⟩, -⟩ := hcommits
  have hmin : minPieceSize.toNat = 128 := rfl
  rw [UInt64.lt_iff_toNat_lt, hmin, hsize]
  split
  · exact ⟨isPowerOfTwo_iff.mpr ⟨7, rfl⟩, Nat.lt_irrefl _⟩
  · refine ⟨isPowerOfTwo_iff.mpr ⟨k + 1, ?_⟩, by omega⟩
    rw [hpadded, Nat.pow_succ']

/-- The root of a piece that fits its status can be reached, unless the piece is too large. -/
theorem rootOf_cases (hshaped : piece.Shaped sectors) (hfree : checkFree piece = .ok ())
    (hsector : isPowerOfTwo sectorSize.toNat = true) :
    (∃ root, rootOf piece sectorSize = .ok root) ∧ piece.IsDue sectorSize ∨
    ∃ cause, rootOf piece sectorSize = .error { cause } ∧ Bars piece sectorSize cause := by
  obtain ⟨hstatus, hset⟩ := checkFree_eq_ok.mp hfree
  obtain ⟨commitment, hcommits, -⟩ := hshaped.committed (by rw [hstatus]; nofun)
  obtain ⟨hpower, hmin⟩ := size_of_commits hcommits
  obtain ⟨-, hsize, -, hcontent⟩ := hcommits
  have hroot : rootOf piece sectorSize = commitment.sectorRoot sectorSize >>= fun root ↦
      pure (⟨ContentId.ofDigest root, [ContentId.ofDigest commitment.digest]⟩ : Root) := by
    rw [rootOf, hcontent, hsize]
    dsimp only
    rw [ContentId.toDigest_ofDigest]
    rfl
  rw [hroot, Commitment.sectorRoot, if_neg (by simp [hpower, hmin])]
  by_cases hfits : sectorSize.toNat < commitment.pieceSize.toNat
  · refine Or.inr ⟨doesNotFit commitment.pieceSize sectorSize, ?_, .size hstatus hset hsize hfits⟩
    rw [if_pos (Or.inr hfits)]
    rfl
  · refine Or.inl ⟨?_, hstatus, hset, _, hsize, UInt64.not_lt.mp hfits⟩
    rw [if_neg (by simp [hsector, hfits])]
    exact ⟨_, rfl⟩

/-! ## Ends -/

/-- The deed of a claim. -/
abbrev claimDeed (id : String) (proofSet : UInt64) (root : Root) (now : Instant)
    (answer : Outcome Bool) : Deed := ⟨.table (.claim id proofSet root.rootCid now), answer⟩

/-- The deed of a submission. -/
abbrev submitDeed (proofSet : UInt64) (root : Root) (answer : Outcome String) : Deed :=
  ⟨.submit proofSet root, answer⟩

/-- The deed that records what the ledger has answered. -/
abbrev recordDeed (written : Piece) (answer : Outcome Bool) : Deed :=
  ⟨.table (.update written .uploaded), answer⟩

/-- A piece that is due has been claimed, and the ledger has been told of it. -/
structure Told (sectorSize proofSet : UInt64) (id : String) (start : Holdings) (i : Nat) (piece : Piece)
    (root : Root) : Prop where
  row : start.rows[i]? = some (.ofPiece piece)
  id : piece.id = id
  due : piece.IsDue sectorSize
  root : rootOf piece sectorSize = .ok root

/-- How a submission ends, and what it has done. -/
inductive SubmissionEnds (job : Job) (sectorSize proofSet : UInt64) (id : String) (start h : Holdings) :
    Outcome Piece → Prop
  | unread {fault : Fault} : start.Idle h → Unread start.rows h.history id fault →
    SubmissionEnds job sectorSize proofSet id start h (.error fault)
  | barred {piece : Piece} {cause : Cause} : start.Idle h → .ofPiece piece ∈ start.rows →
    piece.id = id → Bars piece sectorSize cause →
    SubmissionEnds job sectorSize proofSet id start h (.error { cause })
  | unclaimed {i : Nat} {piece : Piece} {root : Root} {now : Instant} {answer : Outcome Bool}
      {fault : Fault} : start.Same h → Told sectorSize proofSet id start i piece root →
    h.history.deeds = [claimDeed id proofSet root now answer] →
    Outcome.Spoils (changedBeforeSubmission id) answer fault →
    SubmissionEnds job sectorSize proofSet id start h (.error fault)
  /-- The row says what the ledger said, or it still has the claim. -/
  | refused {i : Nat} {piece written : Piece} {root : Root} {claimed now : Instant} {reason : Fault}
      {stored : Outcome Bool} : Told sectorSize proofSet id start i piece root →
    h.history.deeds = [recordDeed written stored, submitDeed proofSet root (.error reason),
      claimDeed id proofSet root claimed (.ok true)] →
    written = (piece.claimedFor proofSet root.rootCid).refusedWith (refusalMessage proofSet reason) now →
    start.Writes i (.ofPiece
      (if stored = .ok true then written else piece.heldFor proofSet root.rootCid claimed)) [] h →
    SubmissionEnds job sectorSize proofSet id start h
      (.error { cause := .ledger (refusalMessage proofSet reason) })
  | unrecorded {i : Nat} {piece written : Piece} {root : Root} {claimed : Instant} {hash : String}
      {stored : Outcome Bool} {fault : Fault} : Told sectorSize proofSet id start i piece root →
    h.history.deeds = [recordDeed written stored, submitDeed proofSet root (.ok hash),
      claimDeed id proofSet root claimed (.ok true)] →
    Outcome.Spoils (changedDuringSubmission id) stored fault →
    start.Writes i (.ofPiece (piece.heldFor proofSet root.rootCid claimed))
      [⟨job, proofSet, root, hash⟩] h →
    SubmissionEnds job sectorSize proofSet id start h (.error fault)
  | accepted {i : Nat} {piece written : Piece} {root : Root} {claimed submitted now : Instant}
      {hash : String} : Told sectorSize proofSet id start i piece root →
    h.history.deeds = [recordDeed written (.ok true), submitDeed proofSet root (.ok hash),
      claimDeed id proofSet root claimed (.ok true)] →
    written = (piece.claimedFor proofSet root.rootCid).submittedAs hash submitted now →
    start.Writes i (.ofPiece written) [⟨job, proofSet, root, hash⟩] h →
    SubmissionEnds job sectorSize proofSet id start h (.ok written)

/-- A request that changes nothing changes nothing of how a submission has ended. -/
theorem SubmissionEnds.gives {outcome : Outcome Piece} {request : Request} {answer : request.Answer}
    (hends : SubmissionEnds job sectorSize proofSet id start h outcome)
    (hgives : h.Gives job request answer h') (hquiet : request.IsQuiet) :
    SubmissionEnds job sectorSize proofSet id start h' outcome := by
  have hsame := hgives.same hquiet
  have hdeeds := hgives.deeds_of_quiet hquiet
  cases hends with
  | unread hidle hunread => exact .unread (hidle.gives hgives hquiet) (hunread.mono hgives.subset)
  | barred hidle hrow hid hbars => exact .barred (hidle.gives hgives hquiet) hrow hid hbars
  | unclaimed hstart htold hclaim hspoils =>
    exact .unclaimed (hstart.trans hsame) htold (hdeeds.trans hclaim) hspoils
  | refused htold hdone hwritten hwrites =>
    exact .refused htold (hdeeds.trans hdone) hwritten (hwrites.trans_same hsame)
  | unrecorded htold hdone hspoils hwrites =>
    exact .unrecorded htold (hdeeds.trans hdone) hspoils (hwrites.trans_same hsame)
  | accepted htold hdone hwritten hwrites =>
    exact .accepted htold (hdeeds.trans hdone) hwritten (hwrites.trans_same hsame)

open Attempt Holdings

/-- A piece that is found stands in a row, and one that is not found has none, or the table failed. -/
theorem meets_find_idle (hsound : start.Sound) (hidle : start.Idle h) (id : String) :
    (find id).Meets job
      (fun h' piece ↦ start.Idle h' ∧ piece.id = id ∧ ∃ i : Nat, start.rows[i]? = some (.ofPiece piece))
      (fun h' fault ↦ start.Idle h' ∧ Unread start.rows h'.history id fault) h := by
  refine Meets.bind (meets_table (fun found h' hgives ↦ ?_) fun fault h' hgives ↦ ?_)
  · cases found with
    | none =>
      refine meets_refuse ⟨hidle.gives hgives trivial, .missing fun row hrow ↦ ?_⟩
      exact hgives.find_none row (hidle.rows ▸ hrow)
    | some piece =>
      obtain ⟨row, hmem, hid, hread⟩ := hgives.find
      obtain ⟨found, rfl⟩ := hsound.pieces row (hidle.rows ▸ hmem)
      obtain rfl := Row.eq_of_toPiece_ofPiece hread
      exact meets_pure ⟨hidle.gives hgives trivial, Cell.text.inj hid,
        List.mem_iff_getElem?.mp (hidle.rows ▸ hmem)⟩
  · exact ⟨hidle.gives hgives trivial, .failed hgives.mem_history⟩

/-- The write of a version that records the ledger's answer, and what it leaves. -/
theorem meets_record_writes {i : Nat} {piece held written : Piece} {accepted : List Acceptance}
    (hsound : start.Sound) (hrow : start.rows[i]? = some (.ofPiece piece))
    (hwrites : start.Writes i (.ofPiece held) accepted h) (hheld : held.id = piece.id)
    (hstatus : held.status = .uploaded) (hid : written.id = held.id)
    (hcreated : written.createdAt = held.createdAt) :
    (record written).Meets job
      (fun h' _ ↦ h'.history.deeds = recordDeed written (.ok true) :: h.history.deeds ∧
        start.Writes i (.ofPiece written) accepted h')
      (fun h' fault ↦ ∃ stored, Outcome.Spoils (changedDuringSubmission written.id) stored fault ∧
        h'.history.deeds = recordDeed written stored :: h.history.deeds ∧
        start.Writes i (.ofPiece held) accepted h') h := by
  refine Meets.bind (meets_table (fun stored h' hgives ↦ ?_) fun fault h' hgives ↦ ?_)
  · cases stored with
    | true =>
      exact meets_pure ⟨hgives.deeds nofun,
        update_writes hsound hrow hwrites hheld hstatus hid hcreated hgives⟩
    | false =>
      refine meets_refuse ⟨.ok false, .unmatched, hgives.deeds nofun, ?_⟩
      rcases hgives.update with ⟨-, hsame⟩ | ⟨hok, -⟩
      · exact hwrites.trans_same hsame
      · cases hok
  · refine ⟨.error fault, .failed fault, hgives.deeds nofun, ?_⟩
    rcases hgives.update with ⟨-, hsame⟩ | ⟨hok, -⟩
    · exact hwrites.trans_same hsame
    · cases hok

/-- Once the ledger has been told of a piece, its answer decides. -/
theorem meets_recordSubmission_ends {i : Nat} {piece : Piece} {root : Root} {claimed : Instant}
    {answer : Outcome String} (hsound : start.Sound)
    (htold : Told sectorSize proofSet id start i piece root)
    (hdeeds : h.history.deeds = [submitDeed proofSet root answer,
      claimDeed id proofSet root claimed (.ok true)])
    (hwrites : start.Writes i (.ofPiece (piece.heldFor proofSet root.rootCid claimed))
      ((answer.toOption.map (⟨job, proofSet, root, ·⟩)).toList) h) :
    (recordSubmission (piece.claimedFor proofSet root.rootCid) proofSet answer).Meets job
      (fun h' written ↦ SubmissionEnds job sectorSize proofSet id start h' (.ok written))
      (fun h' fault ↦ SubmissionEnds job sectorSize proofSet id start h' (.error fault)) h := by
  have hstatus := htold.due.uploaded
  cases answer with
  | ok hash =>
    refine Meets.bind (meets_ask fun submitted h₁ hgives₁ ↦ ?_)
    refine Meets.bind (meets_ask fun now h₂ hgives₂ ↦ ?_)
    have hsame₂ := (hgives₁.same trivial).trans (hgives₂.same trivial)
    have hdeeds₂ := (hgives₂.deeds_of_quiet trivial).trans (hgives₁.deeds_of_quiet trivial)
    have hmove : { piece.claimedFor proofSet root.rootCid with
        transaction := some hash, submittedAt := some submitted }.moveTo .pending
          "add to proof set" now = .ok ((piece.claimedFor proofSet root.rootCid).submittedAs hash
            submitted now) :=
      Piece.moveTo_eq_ok.mpr ⟨congrArg (Status.canMove · .pending) hstatus, rfl⟩
    refine Meets.bind (meets_ofOutcome (fun moved hmoved ↦ ?_) fun fault hfault ↦ ?_)
    · obtain rfl := Except.ok.inj (hmove.symm.trans hmoved)
      refine Meets.bind (Meets.mono (meets_record_writes hsound htold.row
        (hwrites.trans_same hsame₂) rfl hstatus rfl rfl) ?_ ?_)
      · rintro h₃ - ⟨hdone, hwritten⟩
        exact meets_pure (.accepted htold (by rw [hdone, hdeeds₂, hdeeds]) rfl hwritten)
      · rintro h₃ fault ⟨stored, hspoils, hdone, hkept⟩
        refine .unrecorded htold (by rw [hdone, hdeeds₂, hdeeds]) ?_ hkept
        rw [← htold.id]
        exact hspoils
    · cases hmove.symm.trans hfault
  | error reason =>
    refine Meets.bind (meets_ask fun now h₁ hgives₁ ↦ ?_)
    have hdeeds₁ := hgives₁.deeds_of_quiet trivial
    have hmove : { piece.claimedFor proofSet root.rootCid with
        errorMessage := some (refusalMessage proofSet reason) }.moveTo .error "add to proof set" now =
          .ok ((piece.claimedFor proofSet root.rootCid).refusedWith (refusalMessage proofSet reason)
            now) :=
      Piece.moveTo_eq_ok.mpr ⟨congrArg (Status.canMove · .error) hstatus, rfl⟩
    refine Meets.bind (meets_ofOutcome (fun moved hmoved ↦ ?_) fun fault hfault ↦ ?_)
    · obtain rfl := Except.ok.inj (hmove.symm.trans hmoved)
      -- the fault is the ledger's, whether its refusal gets recorded or not
      refine Meets.bind (meets_lift (Call.Meets.mono (meets_record_writes hsound htold.row
        (hwrites.trans_same (hgives₁.same trivial)) rfl hstatus rfl rfl) fun h₂ outcome hend ↦ ?_))
      cases outcome with
      | ok _ =>
        obtain ⟨hdone, hwritten⟩ := hend
        refine meets_refuse (.refused htold (by rw [hdone, hdeeds₁, hdeeds]) rfl ?_)
        rwa [if_pos rfl]
      | error fault =>
        obtain ⟨stored, hspoils, hdone, hkept⟩ := hend
        refine meets_refuse (.refused htold (by rw [hdone, hdeeds₁, hdeeds]) rfl ?_)
        rwa [if_neg]
        rintro rfl
        cases hspoils
    · cases hmove.symm.trans hfault

theorem meets_submitLocked_ends (hsound : start.Sound)
    (hshaped : ∀ piece, .ofPiece piece ∈ start.rows → piece.Shaped sectors)
    (hsector : isPowerOfTwo sectorSize.toNat = true) (hidle : start.Idle h) :
    (submitLocked sectorSize id proofSet).Meets job
      (fun h' written ↦ SubmissionEnds job sectorSize proofSet id start h' (.ok written))
      (fun h' fault ↦ SubmissionEnds job sectorSize proofSet id start h' (.error fault)) h := by
  refine Meets.bind (Meets.mono (meets_find_idle hsound hidle id) ?_ fun h' fault hunread ↦
    .unread hunread.1 hunread.2)
  rintro h₁ piece ⟨hidle₁, rfl, i, hrow⟩
  have hmem : .ofPiece piece ∈ start.rows := List.mem_of_getElem? hrow
  refine Meets.bind (meets_ofOutcome (fun _ hfree ↦ ?_) fun fault hcheck ↦ ?_)
  · rcases rootOf_cases (hshaped piece hmem) hfree hsector with ⟨⟨root, hroot⟩, hdue⟩ |
      ⟨cause, hroot, hbars⟩
    · rw [hroot]
      have htold : Told sectorSize proofSet piece.id start i piece root := ⟨hrow, rfl, hdue, hroot⟩
      refine Meets.bind (meets_pure ?_)
      refine Meets.bind (meets_ask fun now h₂ hgives₂ ↦ ?_)
      have hidle₂ := hidle₁.gives hgives₂ trivial
      refine Meets.bind (meets_table (fun stored h₃ hgives₃ ↦ ?_) fun fault h₃ hgives₃ ↦ ?_)
      · have hclaimed : h₃.history.deeds = [claimDeed piece.id proofSet root now (.ok stored)] := by
          rw [hgives₃.deeds nofun, hidle₂.deeds]
        cases stored with
        | true =>
          have hwrites := claim_writes hsound hrow hidle₂.toSame hgives₃
          refine Meets.bind (meets_ask fun answer h₄ hgives₄ ↦ ?_)
          have hdone : h₄.history.deeds = [submitDeed proofSet root answer,
              claimDeed piece.id proofSet root now (.ok true)] := by
            rw [hgives₄.deeds nofun, hclaimed]
          refine meets_recordSubmission_ends hsound htold hdone ?_
          cases hgives₄ with
          | accepted _ _ hash => exact ⟨hwrites.rows, hwrites.blobs, congrArg (_ :: ·) hwrites.ledger⟩
          | refused _ _ reason => exact hwrites.trans_same (exchange_same h₃ _ _)
          | outside _ _ _ hother => exact absurd rfl (hother proofSet root)
        | false =>
          rcases hgives₃.claim with ⟨-, hsame₃⟩ | ⟨hok, -⟩
          · exact meets_refuse (.unclaimed (hidle₂.toSame.trans hsame₃) htold hclaimed .unmatched)
          · cases hok
      · rcases hgives₃.claim with ⟨-, hsame₃⟩ | ⟨hok, -⟩
        · have hclaimed : h₃.history.deeds = [claimDeed piece.id proofSet root now (.error fault)] := by
            rw [hgives₃.deeds nofun, hidle₂.deeds]
          exact .unclaimed (hidle₂.toSame.trans hsame₃) htold hclaimed (.failed fault)
        · cases hok
    · rw [hroot]
      exact Meets.bind (meets_refuse (.barred hidle₁ hmem rfl hbars))
  · obtain ⟨cause, rfl, hbars⟩ := bars_of_checkFree sectorSize hcheck
    exact .barred hidle₁ hmem rfl hbars

/-- However it is answered, a submission ends in one of these ways. -/
theorem meets_submit_ends {locks : Nat} (hsound : start.Sound)
    (hshaped : ∀ piece, .ofPiece piece ∈ start.rows → piece.Shaped sectors)
    (hsector : isPowerOfTwo sectorSize.toNat = true) (hidle : start.Idle h) :
    (submit locks sectorSize id proofSet).Meets job
      (fun h' written ↦ SubmissionEnds job sectorSize proofSet id start h' (.ok written))
      (fun h' fault ↦ SubmissionEnds job sectorSize proofSet id start h' (.error fault)) h := by
  have hacquire : h.Gives job (.acquire ⟨locks, id⟩) () _ :=
    .outside (.acquire ⟨locks, id⟩) () trivial nofun
  have hrelease (h' : Holdings) : h'.Gives job (.release ⟨locks, id⟩) () _ :=
    .outside (.release ⟨locks, id⟩) () trivial nofun
  refine Meets.holding (Meets.mono
    (meets_submitLocked_ends hsound hshaped hsector (hidle.gives hacquire trivial)) ?_ ?_)
  · exact fun h' _ hends ↦ hends.gives (hrelease h') trivial
  · exact fun h' _ hends ↦ hends.gives (hrelease h') trivial

/-! ## What the end tells -/

namespace SubmissionEnds

variable {outcome : Outcome Piece} {root : Root}

/-- What has been done of a piece that the ledger has been told of. -/
theorem mem_deeds_iff {written : Piece} {stored : Outcome Bool} {told : Root} {said answer : Outcome String}
    {claimed : Instant} :
    submitDeed proofSet root answer ∈ [recordDeed written stored, submitDeed proofSet told said,
      claimDeed id proofSet told claimed (.ok true)] ↔ root = told ∧ answer = said := by
  constructor
  · intro hmem
    rcases List.mem_cons.mp hmem with heq | hmem
    · cases heq
    · rcases List.mem_cons.mp hmem with heq | hmem
      · cases heq
        exact ⟨rfl, rfl⟩
      · cases List.mem_singleton.mp hmem
  · rintro ⟨rfl, rfl⟩
    exact List.mem_cons_of_mem _ List.mem_cons_self

theorem claim_mem_deeds {written : Piece} {stored : Outcome Bool} {answer : Outcome String}
    {claimed : Instant} :
    claimDeed id proofSet root claimed (.ok true) ∈ [recordDeed written stored,
      submitDeed proofSet root answer, claimDeed id proofSet root claimed (.ok true)] :=
  List.mem_cons_of_mem _ (List.mem_cons_of_mem _ List.mem_cons_self)

/-- The ledger has been told of a piece, or the submission was turned away, and why. -/
theorem told_or_turned_away (hends : SubmissionEnds job sectorSize proofSet id start h outcome) :
    (∃ i piece root claimed answer, Told sectorSize proofSet id start i piece root ∧
      claimDeed id proofSet root claimed (.ok true) ∈ h.history.deeds ∧
      ∀ other said, submitDeed proofSet other said ∈ h.history.deeds ↔ other = root ∧ said = answer) ∨
    start.Same h ∧ (∀ proofSet root answer, submitDeed proofSet root answer ∉ h.history.deeds) ∧
      (∀ root claimed, claimDeed id proofSet root claimed (.ok true) ∉ h.history.deeds) ∧
      ∃ fault, outcome = .error fault ∧ (Unread start.rows h.history id fault ∨
        (∃ piece cause, .ofPiece piece ∈ start.rows ∧ piece.id = id ∧ fault = { cause } ∧
          Bars piece sectorSize cause) ∨
        ∃ piece root claimed answer, .ofPiece piece ∈ start.rows ∧ piece.id = id ∧
          piece.IsDue sectorSize ∧ claimDeed id proofSet root claimed answer ∈ h.history.deeds ∧
          Outcome.Spoils (changedBeforeSubmission id) answer fault) := by
  cases hends with
  | unread hidle hunread =>
    refine Or.inr ⟨hidle.toSame, ?_, ?_, _, rfl, Or.inl hunread⟩
    · exact fun _ _ _ hmem ↦ List.not_mem_nil (hidle.deeds ▸ hmem)
    · exact fun _ _ hmem ↦ List.not_mem_nil (hidle.deeds ▸ hmem)
  | barred hidle hrow hid hbars =>
    refine Or.inr ⟨hidle.toSame, ?_, ?_, _, rfl, Or.inr (Or.inl ⟨_, _, hrow, hid, rfl, hbars⟩)⟩
    · exact fun _ _ _ hmem ↦ List.not_mem_nil (hidle.deeds ▸ hmem)
    · exact fun _ _ hmem ↦ List.not_mem_nil (hidle.deeds ▸ hmem)
  | @unclaimed i piece root now answer fault hsame htold hclaim hspoils =>
    refine Or.inr ⟨hsame, fun _ _ _ hmem ↦ ?_, fun root claimed hmem ↦ ?_, fault, rfl, Or.inr (Or.inr
      ⟨piece, root, now, answer, List.mem_of_getElem? htold.row, htold.id, htold.due, ?_, hspoils⟩)⟩
    · rw [hclaim] at hmem
      cases List.mem_singleton.mp hmem
    · rw [hclaim] at hmem
      obtain rfl : .ok true = answer := eq_of_heq (Sigma.mk.inj (List.mem_singleton.mp hmem)).2
      cases hspoils
    · rw [hclaim]
      exact List.mem_cons_self
  | refused htold hdone _ _ | unrecorded htold hdone _ _ | accepted htold hdone _ _ =>
    have hclaimed := hdone.symm ▸ claim_mem_deeds
    exact Or.inl ⟨_, _, _, _, _, htold, hclaimed, fun other said ↦ hdone ▸ mem_deeds_iff⟩

/-- The ledger's refusal is what the caller is told. -/
theorem of_refused (hends : SubmissionEnds job sectorSize proofSet id start h outcome) {reason : Fault}
    (hrefused : submitDeed proofSet root (.error reason) ∈ h.history.deeds) :
    outcome = .error { cause := .ledger (refusalMessage proofSet reason) } := by
  cases hends with
  | unread hidle _ | barred hidle _ _ _ =>
    rw [hidle.deeds] at hrefused
    cases hrefused
  | unclaimed _ _ hclaim _ =>
    rw [hclaim] at hrefused
    cases List.mem_singleton.mp hrefused
  | refused _ hdone _ _ =>
    rw [hdone] at hrefused
    cases (mem_deeds_iff.mp hrefused).2
    rfl
  | unrecorded _ hdone _ _ | accepted _ hdone _ _ =>
    rw [hdone] at hrefused
    cases (mem_deeds_iff.mp hrefused).2

/-- A piece that the ledger took is submitted as soon as this is written into its row. -/
theorem of_accepted (hends : SubmissionEnds job sectorSize proofSet id start h outcome) {hash : String}
    (haccepted : submitDeed proofSet root (.ok hash) ∈ h.history.deeds) :
    (∃ written, recordDeed written (.ok true) ∈ h.history.deeds ∧ outcome = .ok written ∧
      .ofPiece written ∈ h.rows ∧ written.id = id ∧ written.status = .pending ∧
      written.transaction = some hash ∧ written.proofSet = some proofSet ∧
      written.rootCid = some root.rootCid) ∨
    (∀ written, recordDeed written (.ok true) ∉ h.history.deeds) ∧
      ∃ written stored fault, recordDeed written stored ∈ h.history.deeds ∧ outcome = .error fault ∧
        Outcome.Spoils (changedDuringSubmission id) stored fault := by
  cases hends with
  | unread hidle _ | barred hidle _ _ _ =>
    rw [hidle.deeds] at haccepted
    cases haccepted
  | unclaimed _ _ hclaim _ =>
    rw [hclaim] at haccepted
    cases List.mem_singleton.mp haccepted
  | refused _ hdone _ _ =>
    rw [hdone] at haccepted
    cases (mem_deeds_iff.mp haccepted).2
  | @unrecorded _ _ written _ _ _ stored fault _ hdone hspoils _ =>
    refine Or.inr ⟨fun written hmem ↦ ?_, written, stored, fault, ?_, rfl, hspoils⟩
    · rw [hdone] at hmem
      rcases List.mem_cons.mp hmem with heq | hmem
      · cases heq
        cases hspoils
      · rcases List.mem_cons.mp hmem with heq | hmem
        · cases heq
        · cases List.mem_singleton.mp hmem
    · rw [hdone]
      exact List.mem_cons_self
  | @accepted _ _ written _ _ _ _ _ htold hdone hwritten hwrites =>
    rw [hdone] at haccepted
    obtain ⟨rfl, hsaid⟩ := mem_deeds_iff.mp haccepted
    cases hsaid
    subst hwritten
    refine Or.inl ⟨_, ?_, rfl, ?_, htold.id, rfl, rfl, rfl, rfl⟩
    · rw [hdone]
      exact List.mem_cons_self
    · rw [hwrites.rows]
      exact List.mem_iff_getElem?.mpr ⟨_, List.getElem?_set_self (List.getElem?_eq_some_iff.mp htold.row).1⟩

end SubmissionEnds

end Operation

end PieceKeeper
