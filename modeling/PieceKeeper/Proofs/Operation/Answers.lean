import PieceKeeper.Proofs.Operation.Errors
import PieceKeeper.Proofs.Store.RoundTrip

/-!
# Pieces that are handed out

A piece that an operation answers with stands in its row as it was handed out.  It can be read from the
row if the times can that the operation was told.
-/

namespace PieceKeeper

variable {job : Job} {start h h' : Holdings}

/-! ## Rows that obey the rules -/

theorem Table.Lawful.congr {table other : Table} (hs : table.Lawful) (hrows : other.rows = table.rows) :
    other.Lawful where
  pieces := hrows ▸ hs.pieces
  ids := hrows ▸ hs.ids
  contents i piece hhas row hrow :=
    hs.contents i piece ((congrArg (·[i]?) hrows).symm.trans hhas) row (hrows ▸ hrow)

namespace Holdings

/-- The rows obey the rules of a table. -/
def Lawful (h : Holdings) : Prop := Table.Lawful { rows := h.rows }

theorem Lawful.same (hs : h.Lawful) (hsame : h.Same h') : h'.Lawful := Table.Lawful.congr hs hsame.rows

/-- A command that was answered was run by some lawful table. -/
theorem Gives.run_table {command : Table.Command} {answer : Outcome command.Answer} (hs : h.Lawful)
    (hgives : h.Gives job (.table command) answer h') :
    ∃ table : Table, table.Lawful ∧ table.rows = h.rows ∧ answer = (table.run command).1 ∧
      h'.rows = (table.run command).2.rows := by
  cases hgives with
  | table table command hrows => exact ⟨table, Table.Lawful.congr hs hrows, hrows, rfl, rfl⟩
  | outside _ _ houtside _ => exact houtside.elim

theorem Gives.lawful {request : Request} {answer : request.Answer} (hs : h.Lawful)
    (hgives : h.Gives job request answer h') : h'.Lawful := by
  cases hgives with
  | table table command hrows =>
    exact Table.Lawful.congr ((Table.Lawful.congr hs hrows : table.Lawful).run command) rfl
  | shelf _ _ | accepted _ _ _ | refused _ _ _ | outside _ _ _ _ => exact hs

/-- An update that took place stands in the row of its piece. -/
theorem Gives.mem_of_update {held written : Piece} {expected : Status} (hs : h.Lawful)
    (hgives : h.Gives job (.table (.update written expected)) (.ok true) h') (hrow : .ofPiece held ∈ h.rows)
    (hid : written.id = held.id) (hcreated : written.createdAt = held.createdAt) : .ofPiece written ∈ h'.rows := by
  obtain ⟨table, hlawful, hrows, hanswer, hrows'⟩ := hgives.run_table hs
  obtain ⟨-, hrun⟩ := Table.reached_of_ok hanswer.symm
  change _ = table.update written expected at hrun
  rw [hrun] at hanswer hrows'
  rcases hlawful.update_cases written expected with ⟨hrefused, -⟩ | ⟨i, old, hhas, hold, -, heq⟩
  · exact absurd hanswer.symm hrefused
  · obtain ⟨j, hj⟩ := List.mem_iff_getElem?.mp (hrows ▸ hrow)
    obtain ⟨-, rfl⟩ := hlawful.has_unique hhas hj (hold.symm.trans hid)
    rw [heq] at hrows'
    have hmem : .ofPiece { written with createdAt := old.createdAt } ∈ h'.rows :=
      hrows' ▸ (Table.has_put hhas).mem
    rwa [← hcreated] at hmem

/-- A claim that took place stands in its row. -/
theorem Gives.mem_of_claim {held : Piece} {proofSet : UInt64} {rootCid : String} {now : Instant} (hs : h.Lawful)
    (hgives : h.Gives job (.table (.claim held.id proofSet rootCid now)) (.ok true) h')
    (hrow : .ofPiece held ∈ h.rows) : .ofPiece (held.heldFor proofSet rootCid now) ∈ h'.rows := by
  obtain ⟨table, hlawful, hrows, hanswer, hrows'⟩ := hgives.run_table hs
  obtain ⟨-, hrun⟩ := Table.reached_of_ok hanswer.symm
  change _ = table.claim held.id proofSet rootCid now at hrun
  rw [hrun] at hanswer hrows'
  rcases hlawful.claim_cases held.id proofSet rootCid now with ⟨hrefused, -⟩ | ⟨i, old, hhas, hold, heq⟩
  · exact absurd hanswer.symm hrefused
  · obtain ⟨j, hj⟩ := List.mem_iff_getElem?.mp (hrows ▸ hrow)
    obtain ⟨-, rfl⟩ := hlawful.has_unique hhas hj hold
    rw [hrows', heq]
    exact (Table.has_put hhas).mem

/-- A piece that was inserted has a row, or it was lost. -/
theorem Gives.mem_of_insert {piece : Piece} (hs : h.Lawful)
    (hgives : h.Gives job (.table (.insert piece)) (.ok ()) h') :
    .ofPiece piece ∈ h'.rows ∨ h'.rows = h.rows := by
  obtain ⟨table, -, hrows, hanswer, hrows'⟩ := hgives.run_table hs
  obtain ⟨-, hrun⟩ := Table.reached_of_ok hanswer.symm
  change _ = table.insert piece at hrun
  rw [hrun] at hrows'
  rcases table.insert_cases piece with ⟨-, hsame⟩ | ⟨-, -, heq⟩
  · exact Or.inr (hrows'.trans ((congrArg Table.rows hsame).trans hrows))
  · rw [hrows', heq]
    exact Or.inl (List.mem_append_right _ (List.mem_singleton_self _))

end Holdings

/-! ## What is shown -/

/-- What the clock was read as can be written down. -/
def History.IsReadable (history : History) : Prop :=
  ∀ now, .answered .now now ∈ history → now.IsReadable

/-- A piece stands in a row, and can be read from there if the clock could be written down. -/
structure Holdings.Shows (h : Holdings) (piece : Piece) : Prop where
  row : .ofPiece piece ∈ h.rows
  readable : h.history.IsReadable → piece.IsReadable

theorem Holdings.Shows.same {piece : Piece} (hshows : h.Shows piece) (hsame : h.Same h')
    (hsub : h.history ⊆ h'.history) : h'.Shows piece where
  row := hsame.rows.symm ▸ hshows.row
  readable hread := hshows.readable fun now hnow ↦ hread now (hsub hnow)

/-- What the clock was read as can be written down, if everything can. -/
theorem Holdings.Gives.isReadable_now {now : Instant} (hgives : h.Gives job .now now h')
    {later : History} (hsub : h'.history ⊆ later) (hread : later.IsReadable) : now.IsReadable :=
  hread now (hsub hgives.mem_history)

namespace Operation

open Attempt Holdings

/-- Nothing is said of a fault. -/
abbrev anyFault : Holdings → Fault → Prop := fun _ _ ↦ True

theorem meets_find_shows {id : String} (hs : start.Lawful) (hsame : start.Same h) :
    (find id).Meets job
      (fun h' piece ↦ start.Same h' ∧ .ofPiece piece ∈ start.rows ∧ piece.IsReadable) anyFault h := by
  refine Meets.mono (meets_find hsame fun _ _ _ ↦ trivial) ?_ fun _ _ _ ↦ trivial
  rintro h' piece ⟨hsame', row, hmem, hid, hread⟩
  obtain ⟨found, rfl⟩ := hs.pieces row hmem
  obtain rfl := Row.eq_of_toPiece_ofPiece hread
  exact ⟨hsame', hmem, Piece.isReadable_of_toPiece hread⟩

/-! ## Preparing and uploading -/

theorem meets_prepare_shows {source : Source} (hs : start.Lawful) (hsame : start.Same h) :
    (prepare source).Meets job (fun h' piece ↦ h'.Shows piece ∨
      .answered (.table (.insert piece)) (.ok ()) ∈ h'.history ∧ h'.rows = start.rows) anyFault h := by
  have hmeasure : source.measure.Meets job (fun h' _ ↦ start.Same h') anyFault h := by
    cases source with
    | declared size =>
      rw [Source.measure]
      split
      · exact meets_refuse trivial
      · exact meets_pure hsame
    | file path =>
      refine Meets.bind (meets_quiet trivial hsame fun _ h₁ hsame₁ ↦ ?_)
      refine Meets.bind (meets_quiet trivial hsame₁ fun found h₂ hsame₂ ↦ ?_)
      split
      · exact meets_refuse trivial
      · exact meets_refuse trivial
      · dsimp only
        split
        · exact meets_refuse trivial
        · exact meets_pure hsame₂
  refine Meets.bind (Meets.mono hmeasure (fun h₁ measured hsame₁ ↦ ?_) fun _ _ _ ↦ trivial)
  refine Meets.bind (meets_quiet trivial hsame₁ fun id h₂ hsame₂ ↦ ?_)
  refine Meets.bind (meets_ask fun now h₃ hgives₃ ↦ ?_)
  have hsame₃ := hsame₂.trans (hgives₃.same trivial)
  refine Meets.bind (meets_table (fun _ h₄ hgives₄ ↦ meets_pure ?_) fun _ _ _ ↦ trivial)
  rcases hgives₄.mem_of_insert (hs.same hsame₃) with hrow | hrows
  · refine Or.inl ⟨hrow, fun hread ↦ ?_⟩
    have hnow := hgives₃.isReadable_now hgives₄.subset hread
    exact ⟨hnow, hnow, fun _ hmem ↦ (by cases hmem)⟩
  · exact Or.inr ⟨hgives₄.mem_history, hrows.trans hsame₃.rows⟩

theorem meets_uploadLocked_shows {id : String} {body : Bytes} (hs : start.Lawful) (hsound : start.Sound)
    (hsame : start.Same h) :
    (uploadLocked id body).Meets job (fun h' answer ↦ h'.Shows answer.1) anyFault h := by
  refine Meets.bind (Meets.mono (meets_find_shows hs hsame) ?_ fun _ _ _ ↦ trivial)
  rintro h₁ piece ⟨hsame₁, hrow, hpiece⟩
  refine Meets.bind (meets_ofOutcome (fun _ hcheck ↦ ?_) fun _ _ ↦ trivial)
  refine Meets.bind (meets_quiet trivial hsame₁ fun _ h₂ hsame₂ ↦ ?_)
  refine Meets.bind (meets_ofOutcome (fun committed _ ↦ ?_) fun _ _ ↦ trivial)
  refine Meets.bind (meets_query trivial hsame₂ (fun holder h₃ hsame₃ ↦ ?_) fun _ _ _ ↦ trivial)
  cases holder with
  | some holder => exact Meets.bind (meets_refuse trivial)
  | none =>
    refine Meets.bind (Meets.mono (meets_shelve hsound hsame₃) (fun h₄ written hshelved ↦ ?_)
      fun _ _ _ ↦ trivial)
    have hrows₄ : h₄.rows = start.rows := hshelved.elim (·.rows) (·.rows)
    refine Meets.bind (meets_ask fun now h₅ hgives₅ ↦ ?_)
    have hrows₅ : h₅.rows = start.rows := (hgives₅.same trivial).rows.trans hrows₄
    have hrow₅ : .ofPiece piece ∈ h₅.rows := hrows₅.symm ▸ hrow
    refine Meets.bind (meets_ofOutcome (fun uploaded hmoved ↦ ?_) fun _ _ ↦ trivial)
    obtain ⟨-, rfl⟩ := Piece.moveTo_eq_ok.mp hmoved
    refine Meets.bind (meets_table (fun stored h₆ hgives₆ ↦ ?_) fun _ _ _ ↦ trivial)
    cases stored with
    | false => exact meets_refuse trivial
    | true =>
      refine meets_pure ⟨?_, fun hread ↦ ?_⟩
      · exact hgives₆.mem_of_update (Table.Lawful.congr hs hrows₅) hrow₅ rfl rfl
      · exact hpiece.uploadedAs _ committed (hgives₅.isReadable_now hgives₆.subset hread)

theorem meets_upload_shows {locks : Nat} {id : String} {body : Bytes} (hs : start.Lawful)
    (hsound : start.Sound) (hsame : start.Same h) :
    (upload locks id body).Meets job (fun h' answer ↦ h'.Shows answer.1) anyFault h :=
  Meets.holding (Meets.mono (meets_uploadLocked_shows hs hsound (hsame.trans (exchange_same h _ _)))
    (fun h' _ hshows ↦ hshows.same (exchange_same h' _ _) (h'.history.subset_exchange _ _)) fun _ _ _ ↦ trivial)

theorem meets_uploadFromSource_shows {locks : Nat} {id : String} (hs : start.Lawful)
    (hsound : start.Sound) (hsame : start.Same h) :
    (uploadFromSource locks id).Meets job (fun h' answer ↦ h'.Shows answer.1) anyFault h := by
  refine Meets.bind (Meets.mono (meets_find_shows hs hsame) ?_ fun _ _ _ ↦ trivial)
  rintro h₁ piece ⟨hsame₁, -⟩
  split
  · exact meets_refuse trivial
  · refine Meets.bind (meets_quiet trivial hsame₁ fun _ h₂ hsame₂ ↦ ?_)
    refine Meets.bind (meets_quiet trivial hsame₂ fun read h₃ hsame₃ ↦ ?_)
    split
    · exact meets_refuse trivial
    · exact meets_upload_shows hs hsound hsame₃

/-! ## Submitting and watching -/

/-- A claimed piece whose submission is recorded. -/
theorem meets_recordSubmission_shows {piece : Piece} {proofSet : UInt64} {root : Root} {claimed : Instant}
    {answer : Outcome String} (hs : h.Lawful) (hpiece : piece.IsReadable)
    (hrow : .ofPiece (piece.heldFor proofSet root.rootCid claimed) ∈ h.rows) :
    (recordSubmission (piece.claimedFor proofSet root.rootCid) proofSet answer).Meets job
      (fun h' written ↦ h'.Shows written) anyFault h := by
  cases answer with
  | error reason =>
    refine Meets.bind (meets_ask fun now h₁ _ ↦ ?_)
    refine Meets.bind (meets_ofOutcome (fun moved _ ↦ ?_) fun _ _ ↦ trivial)
    exact Meets.bind (meets_lift (Call.meets_of_forall (fun _ _ ↦ meets_refuse trivial) _))
  | ok hash =>
    refine Meets.bind (meets_ask fun submitted h₁ hgives₁ ↦ ?_)
    refine Meets.bind (meets_ask fun now h₂ hgives₂ ↦ ?_)
    refine Meets.bind (meets_ofOutcome (fun moved hmoved ↦ ?_) fun _ _ ↦ trivial)
    obtain ⟨-, rfl⟩ := Piece.moveTo_eq_ok.mp hmoved
    have hsame₂ := (hgives₁.same trivial).trans (hgives₂.same trivial)
    have hrow₂ : .ofPiece (piece.heldFor proofSet root.rootCid claimed) ∈ h₂.rows := hsame₂.rows.symm ▸ hrow
    refine Meets.bind (Meets.mono meets_record (fun h₃ _ hgives₃ ↦ ?_) fun _ _ _ ↦ trivial)
    refine meets_pure ⟨?_, fun hread ↦ ⟨hpiece.created, ?_, ?_⟩⟩
    · exact hgives₃.mem_of_update (hs.same hsame₂) hrow₂ rfl rfl
    · exact hgives₂.isReadable_now hgives₃.subset hread
    · intro instant hmem
      cases hmem
      exact hgives₁.isReadable_now (List.Subset.trans hgives₂.subset hgives₃.subset) hread

theorem meets_submitLocked_shows {sectorSize proofSet : UInt64} {id : String} (hs : start.Lawful)
    (hsame : start.Same h) :
    (submitLocked sectorSize id proofSet).Meets job (fun h' written ↦ h'.Shows written) anyFault h := by
  refine Meets.bind (Meets.mono (meets_find_shows hs hsame) ?_ fun _ _ _ ↦ trivial)
  rintro h₁ piece ⟨hsame₁, hrow, hpiece⟩
  refine Meets.bind (meets_ofOutcome (fun _ _ ↦ ?_) fun _ _ ↦ trivial)
  refine Meets.bind (meets_ofOutcome (fun root _ ↦ ?_) fun _ _ ↦ trivial)
  refine Meets.bind (meets_quiet trivial hsame₁ fun now h₂ hsame₂ ↦ ?_)
  refine Meets.bind (meets_table (fun stored h₃ hgives₃ ↦ ?_) fun _ _ _ ↦ trivial)
  cases stored with
  | false => exact meets_refuse trivial
  | true =>
    have hlawful₂ : h₂.Lawful := hs.same hsame₂
    have hheld₃ := hgives₃.mem_of_claim hlawful₂ (hsame₂.rows.symm ▸ hrow)
    refine Meets.bind (meets_ask fun answer h₄ hgives₄ ↦ ?_)
    have hrows₄ : h₄.rows = h₃.rows := by
      cases hgives₄ <;> rfl
    exact meets_recordSubmission_shows (hgives₄.lawful (hgives₃.lawful hlawful₂)) hpiece (hrows₄ ▸ hheld₃)

theorem meets_submit_shows {locks : Nat} {sectorSize proofSet : UInt64} {id : String} (hs : start.Lawful)
    (hsame : start.Same h) :
    (submit locks sectorSize id proofSet).Meets job (fun h' written ↦ h'.Shows written) anyFault h :=
  Meets.holding (Meets.mono (meets_submitLocked_shows hs (hsame.trans (exchange_same h _ _)))
    (fun h' _ hshows ↦ hshows.same (exchange_same h' _ _) (h'.history.subset_exchange _ _)) fun _ _ _ ↦ trivial)

/-- A piece that its record settles is written, and one that still waits stays. -/
theorem meets_settleBy_shows {piece : Piece} {answer : Option TransactionRecord} (hs : h.Lawful)
    (hrow : .ofPiece piece ∈ h.rows) (hpiece : piece.IsReadable) :
    (settleBy piece answer).Meets job (fun h' found ↦ h'.Shows found.1) anyFault h := by
  cases answer with
  | none => exact meets_pure ⟨hrow, fun _ ↦ hpiece⟩
  | some record =>
    refine Meets.bind (meets_ask fun now h₁ hgives₁ ↦ ?_)
    have hsame₁ := hgives₁.same trivial
    have hrow₁ : .ofPiece piece ∈ h₁.rows := hsame₁.rows.symm ▸ hrow
    refine Meets.bind (meets_ofOutcome (fun finding hfound ↦ ?_) fun _ _ ↦ trivial)
    have hsettles : piece.settle record now = ((piece.settle record now).1, .ok finding) :=
      Prod.ext rfl hfound
    have hkeeps : (piece.settle record now).1.id = piece.id ∧
        (piece.settle record now).1.createdAt = piece.createdAt := by
      rcases Piece.settle_cases hsettles with ⟨-, heq⟩ | ⟨-, -, -, heq⟩ | ⟨-, -, message, heq⟩
      · rw [heq]
        exact ⟨rfl, rfl⟩
      · rw [heq]
        exact ⟨rfl, rfl⟩
      · rw [heq]
        exact ⟨rfl, rfl⟩
    have hreadable (hnow : now.IsReadable) : (piece.settle record now).1.IsReadable := by
      rcases Piece.settle_cases hsettles with ⟨-, heq⟩ | ⟨-, -, -, heq⟩ | ⟨-, -, message, heq⟩
      · rw [heq]
        exact hpiece
      · rw [heq]
        exact ⟨hpiece.created, hnow, hpiece.submitted⟩
      · rw [heq]
        exact ⟨hpiece.created, hnow, hpiece.submitted⟩
    rw [recordFinding]
    split
    · refine Meets.bind (meets_table (fun stored h₂ hgives₂ ↦ ?_) fun _ _ _ ↦ trivial)
      cases stored with
      | false => exact meets_refuse trivial
      | true =>
        refine meets_pure ⟨hgives₂.mem_of_update (hs.same hsame₁) hrow₁ hkeeps.1 hkeeps.2, fun hread ↦ ?_⟩
        exact hreadable (hgives₁.isReadable_now hgives₂.subset hread)
    · rename_i hwaits
      rcases Piece.settle_cases hsettles with ⟨-, heq⟩ | ⟨hadded, -⟩ | ⟨hfailed, -⟩
      · have hshows : h₁.Shows (piece.settle record now).1 := heq.symm ▸ ⟨hrow₁, fun _ ↦ hpiece⟩
        exact meets_pure hshows
      · exact absurd (Or.inl hadded) hwaits
      · exact absurd (Or.inr hfailed) hwaits

theorem meets_observeLocked_shows {id : String} {strict : Bool} (hs : start.Lawful) (hsame : start.Same h) :
    (observeLocked id strict).Meets job (fun h' found ↦ h'.Shows found.1) anyFault h := by
  refine Meets.bind (Meets.mono (meets_find_shows hs hsame) ?_ fun _ _ _ ↦ trivial)
  rintro h₁ piece ⟨hsame₁, hrow, hpiece⟩
  have hrow₁ : .ofPiece piece ∈ h₁.rows := hsame₁.rows.symm ▸ hrow
  split
  · split
    · exact meets_refuse trivial
    · exact meets_pure ⟨hrow₁, fun _ ↦ hpiece⟩
  · split
    · split
      · exact meets_refuse trivial
      · exact meets_pure ⟨hrow₁, fun _ ↦ hpiece⟩
    · refine Meets.bind fun answer h₂ hgives₂ ↦ ?_
      have hsame₂ := hsame₁.trans (hgives₂.same trivial)
      cases answer with
      | error fault => exact trivial
      | ok found => exact meets_settleBy_shows (hs.same hsame₂) (hsame₂.rows.symm ▸ hrow) hpiece

theorem meets_observe_shows {locks : Nat} {id : String} {strict : Bool} (hs : start.Lawful)
    (hsame : start.Same h) :
    (observe locks id strict).Meets job (fun h' found ↦ h'.Shows found.1) anyFault h :=
  Meets.holding (Meets.mono (meets_observeLocked_shows hs (hsame.trans (exchange_same h _ _)))
    (fun h' _ hshows ↦ hshows.same (exchange_same h' _ _) (h'.history.subset_exchange _ _)) fun _ _ _ ↦ trivial)

end Operation

/-! ## Tasks -/

/-- The piece that a task hands out. -/
def Task.handed? : (task : Task) → Outcome task.Answer → Option Piece
  | .prepare _, outcome | .upload _ _, outcome | .uploadFromSource _, outcome | .submit _ _, outcome =>
    outcome.toOption
  | .monitor _, outcome => outcome.toOption.map (·.1)
  | _, _ => none

/-- The piece that a task has handed out is shown, unless a preparation has inserted and lost it. -/
def Job.Shows (start : Holdings) (job : Job) (h : Holdings) (outcome : Outcome job.task.Answer) : Prop :=
  ∀ piece, job.task.handed? outcome = some piece → h.Shows piece ∨
    (∃ source, job.task = .prepare source) ∧
      .answered (.table (.insert piece)) (.ok ()) ∈ h.history ∧ h.rows = start.rows

/-- How a call ends that makes an attempt. -/
theorem Attempt.Meets.close {α : Type} {good : Holdings → α → Prop} {bad : Holdings → Fault → Prop}
    {post : Holdings → Outcome α → Prop} {attempt : Attempt α} (hmeets : attempt.Meets job good bad h)
    (hgood : ∀ h' answer, good h' answer → post h' (.ok answer))
    (hbad : ∀ h' fault, bad h' fault → post h' (.error fault)) : Call.Meets job post attempt.run h := by
  refine Call.Meets.mono hmeets fun h' outcome hend ↦ ?_
  cases outcome with
  | ok answer => exact hgood h' answer hend
  | error fault => exact hbad h' fault hend

open Attempt Operation in
/-- Every task shows what it hands out. -/
theorem Job.meets_shows (job : Job) (hs : start.Lawful) (hsound : start.Sound) (hsame : start.Same h) :
    job.call.Meets job (Job.Shows start job) h := by
  obtain ⟨manager, task⟩ := job
  cases task with
  | prepare source =>
    refine Meets.close (meets_prepare_shows hs hsame) (fun h' answer hshows piece heq ↦ ?_)
      fun _ _ _ _ heq ↦ nomatch heq
    cases heq
    exact hshows.imp_right fun hlost ↦ ⟨⟨source, rfl⟩, hlost⟩
  | upload id body =>
    have hmeets : (manager.upload id body).Meets ⟨manager, .upload id body⟩ (fun h' piece ↦ h'.Shows piece)
        anyFault h :=
      Meets.within (Meets.bind (Meets.mono (meets_upload_shows hs hsound hsame)
        (fun h' answer hshows ↦ meets_pure hshows) fun _ _ _ ↦ trivial))
    refine Meets.close hmeets (fun h' answer hshows piece heq ↦ ?_) fun _ _ _ _ heq ↦ nomatch heq
    cases heq
    exact Or.inl hshows
  | uploadFromSource id =>
    have hmeets : (manager.uploadFromSource id).Meets ⟨manager, .uploadFromSource id⟩
        (fun h' piece ↦ h'.Shows piece) anyFault h :=
      Meets.within (Meets.bind (Meets.mono (meets_uploadFromSource_shows hs hsound hsame)
        (fun h' answer hshows ↦ meets_pure hshows) fun _ _ _ ↦ trivial))
    refine Meets.close hmeets (fun h' answer hshows piece heq ↦ ?_) fun _ _ _ _ heq ↦ nomatch heq
    cases heq
    exact Or.inl hshows
  | submit id proofSet =>
    have hmeets : (manager.submit id proofSet).Meets ⟨manager, .submit id proofSet⟩
        (fun h' piece ↦ h'.Shows piece) anyFault h := Meets.within (meets_submit_shows hs hsame)
    refine Meets.close hmeets (fun h' answer hshows piece heq ↦ ?_) fun _ _ _ _ heq ↦ nomatch heq
    cases heq
    exact Or.inl hshows
  | monitor id =>
    have hmeets : (manager.monitor id).Meets ⟨manager, .monitor id⟩ (fun h' found ↦ h'.Shows found.1)
        anyFault h := Meets.within (meets_observe_shows hs hsame)
    refine Meets.close hmeets (fun h' answer hshows piece heq ↦ ?_) fun _ _ _ _ heq ↦ nomatch heq
    cases heq
    exact Or.inl hshows
  | _ => exact Call.meets_of_forall (fun _ _ _ heq ↦ nomatch heq) _

end PieceKeeper
