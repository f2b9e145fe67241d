import PieceKeeper.Proofs.Operation.Verdicts
import PieceKeeper.Proofs.Run.Errors

/-!
# What decides a submission

A submission that runs alone reaches the ledger exactly when its piece is there, is due, and could be
claimed.  Otherwise it is turned away and leaves the row alone.  Once the ledger has been told, its
answer decides: a refusal is what the caller is told, whatever becomes of its record, and a piece that
was taken is submitted if this could be written into its row.
-/

namespace PieceKeeper

variable {α β : Type}

/-! ## Ending -/

namespace Attempt

/-- Without company an attempt can end, whatever it finds. -/
def CanEnd (attempt : Attempt α) : Prop :=
  ∀ scene : Scene, ∃ outcome store, attempt.Yields scene outcome store

theorem canEnd_pure (answer : α) : (pure answer : Attempt α).CanEnd :=
  fun scene ↦ ⟨_, _, (runs_pure answer scene).yields rfl⟩

theorem canEnd_refuse (cause : Cause) : (refuse cause : Attempt α).CanEnd :=
  fun scene ↦ ⟨_, _, (runs_refuse cause scene).yields rfl⟩

theorem canEnd_ofOutcome (outcome : Outcome α) : (ofOutcome outcome).CanEnd :=
  fun scene ↦ ⟨_, _, (runs_ofOutcome rfl scene).yields rfl⟩

theorem canEnd_table (command : Table.Command) : (table command).CanEnd :=
  fun _ ↦ ⟨_, _, (runs_table rfl).yields rfl⟩

theorem canEnd_ask (request : Request) (answer : request.Answer) (houtside : request.IsOutside)
    (hheld : ∀ held, request.holds? held = some held) : (ask request).CanEnd :=
  fun scene ↦ ⟨_, _, (runs_ask request answer houtside (hheld scene.held)).yields rfl⟩

theorem CanEnd.bind {attempt : Attempt α} {next : α → Attempt β} (h : attempt.CanEnd)
    (hnext : ∀ answer, (next answer).CanEnd) : (attempt >>= next).CanEnd := by
  intro scene
  obtain ⟨outcome, store, hyields⟩ := h scene
  cases outcome with
  | error fault => exact ⟨_, _, hyields.fail⟩
  | ok answer =>
    obtain ⟨history, hruns⟩ := hyields
    obtain ⟨outcome, store', hrest⟩ := hnext answer ⟨store, scene.held, history⟩
    obtain ⟨later, hlater⟩ := hrest
    exact ⟨outcome, store', later, hruns.bind hlater⟩

theorem CanEnd.lift {attempt : Attempt α} (h : attempt.CanEnd) :
    CanEnd (ExceptT.lift attempt.run) := by
  intro scene
  obtain ⟨outcome, store, history, hruns⟩ := h scene
  exact ⟨.ok outcome, store, history, hruns.lift⟩

end Attempt

namespace Operation

open Attempt

theorem canEnd_find (id : String) : (find id).CanEnd := by
  refine (canEnd_table _).bind fun found ↦ ?_
  cases found with
  | none => exact canEnd_refuse _
  | some piece => exact canEnd_pure _

theorem canEnd_record (piece : Piece) : (record piece).CanEnd := by
  refine (canEnd_table _).bind fun stored ↦ ?_
  split
  · exact canEnd_pure _
  · exact canEnd_refuse _

theorem canEnd_now : (ask .now).CanEnd := canEnd_ask .now .epoch trivial fun _ ↦ rfl

theorem canEnd_recordSubmission (piece : Piece) (proofSet : UInt64) (answer : Outcome String) :
    (recordSubmission piece proofSet answer).CanEnd := by
  cases answer with
  | ok hash =>
    refine canEnd_now.bind fun submitted ↦ canEnd_now.bind fun now ↦ ?_
    exact (canEnd_ofOutcome _).bind fun moved ↦ (canEnd_record moved).bind fun _ ↦ canEnd_pure _
  | error reason =>
    refine canEnd_now.bind fun now ↦ (canEnd_ofOutcome _).bind fun moved ↦ ?_
    exact (canEnd_record moved).lift.bind fun _ ↦ canEnd_refuse _

theorem canEnd_submitLocked (sectorSize : UInt64) (id : String) (proofSet : UInt64) :
    (submitLocked sectorSize id proofSet).CanEnd := by
  refine (canEnd_find id).bind fun piece ↦ (canEnd_ofOutcome _).bind fun _ ↦ ?_
  refine (canEnd_ofOutcome _).bind fun root ↦ canEnd_now.bind fun now ↦ ?_
  refine (canEnd_table _).bind fun stored ↦ ?_
  split
  · refine CanEnd.bind (canEnd_ask (.submit proofSet root) (.ok "") trivial fun _ ↦ rfl) ?_
    exact canEnd_recordSubmission _ proofSet
  · exact canEnd_refuse _

end Operation

namespace Run

variable {s s' : State} {manager : Manager} {id : String} {proofSet : UInt64} {outcome : Outcome Piece}

/-- What a task does without company, it can do in a run that is alone and leaves the weather as it is. -/
theorem State.Rests.perform_alone (hs : s.Rests) (job : Job) {outcome : Outcome job.task.Answer}
    {scene : Scene} (h : (job.manager.perform job.task).Runs ⟨s.store, false, [.started]⟩ outcome scene)
    (hfree : scene.held = false) :
    ∃ s', Relation.ReflTransGen (StepBy s.next) s s' ∧ RunsAlone s s' ∧ s'.Rests ∧
      s'.store = scene.store ∧ s'.log.of s.next = .ended job.task outcome :: scene.history ∧
      ⟨s.next, job, .ended job.task outcome⟩ ∈ s'.log := by
  obtain ⟨s', hsteps, hrests, -, hstore, hlog, -, hjobs⟩ := hs.perform_steps job h hfree
  have halone : StepBy s.next ≤ StepOf s.next := fun _ _ hstep ↦ ⟨hstep.step, hstep.others⟩
  have hmem : .ended job.task outcome ∈ s'.log.of s.next := hlog ▸ List.mem_cons_self
  obtain ⟨other, hentry⟩ := Log.mem_of.mp hmem
  refine ⟨s', hsteps, Relation.ReflTransGen.mono halone s s' hsteps, hrests, hstore, hlog, ?_⟩
  rcases hjobs _ hentry with hbefore | hjob
  · have hold : .ended job.task outcome ∈ s.log.of s.next := Log.mem_of.mpr ⟨other, hbefore⟩
    rw [(hs.reachable.lawful.fresh s.next (Nat.le_refl _)).2] at hold
    cases hold
  · exact (show other = job from hjob) ▸ hentry

/-- In every state a submission can be made that runs alone and ends. -/
theorem exists_submission (hs : Reachable s) (manager : Manager) (id : String) (proofSet : UInt64) :
    ∃ s' outcome, RunsAlone s s' ∧
      ⟨s.next, ⟨manager, .submit id proofSet⟩, .ended (.submit id proofSet) outcome⟩ ∈ s'.log := by
  -- whoever holds a lock is given up first
  have hcrash : Step s { s with flights := fun _ ↦ none, locks := {} } := .crash
  have hrests : State.Rests { s with flights := fun _ ↦ none, locks := {} } :=
    ⟨hs.tail hcrash, fun _ h ↦ nomatch h⟩
  obtain ⟨verdict, store, hlocked⟩ :=
    Operation.canEnd_submitLocked manager.sectorSize id proofSet
      (Scene.exchange ⟨s.store, true, [.started]⟩ (.acquire ⟨manager.locks, id⟩) ())
  have hsubmit : ∃ outcome, (manager.submit id proofSet).Yields ⟨s.store, false, [.started]⟩ outcome store := by
    have hheld : (Operation.submit manager.locks manager.sectorSize id proofSet).Yields
        ⟨s.store, false, [.started]⟩ verdict store := Attempt.Yields.holding rfl hlocked
    cases verdict with
    | ok piece => exact ⟨_, hheld.within_ok⟩
    | error fault => exact ⟨_, hheld.within_error⟩
  obtain ⟨outcome, history, hruns⟩ := hsubmit
  obtain ⟨s', -, halone, -, -, -, hended⟩ := hrests.perform_alone ⟨manager, .submit id proofSet⟩ hruns rfl
  exact ⟨s', outcome, Relation.ReflTransGen.head ⟨hcrash, fun _ _ ↦ rfl⟩ halone, hended⟩

/-! ## Verdicts -/

/-- Why a submission was turned away before the ledger was told: the piece could not be read or was not
there, it may not be submitted, or it could not be claimed. -/
inductive TurnedAway (rows : List Row) (history : History) (sectorSize : UInt64) (id : String)
    (proofSet : UInt64) : Fault → Prop
  | unread {fault : Fault} : Operation.Unread rows history id fault →
    TurnedAway rows history sectorSize id proofSet fault
  | barred {piece : Piece} {cause : Cause} : .ofPiece piece ∈ rows → piece.id = id →
    Operation.Bars piece sectorSize cause → TurnedAway rows history sectorSize id proofSet { cause }
  | unclaimed {piece : Piece} {root : Root} {now : Instant} {answer : Outcome Bool} {fault : Fault} :
    .ofPiece piece ∈ rows → piece.id = id → piece.IsDue sectorSize →
    .answered (.table (.claim id proofSet root.rootCid now)) answer ∈ history →
    Outcome.Spoils (Operation.changedBeforeSubmission id) answer fault →
    TurnedAway rows history sectorSize id proofSet fault

/-- What decides how a submission ends that has run alone from a state to another. -/
structure Decides (s s' : State) (manager : Manager) (id : String) (proofSet : UInt64)
    (outcome : Outcome Piece) : Prop where
  reaches : (∃ root, .asked (.submit proofSet root) ∈ s'.log.of s.next) ↔
    ∃ (piece : Piece) (root : Root) (now : Instant), .ofPiece piece ∈ s.store.table.rows ∧ piece.id = id ∧
      piece.IsDue manager.sectorSize ∧
      .answered (.table (.claim id proofSet root.rootCid now)) (.ok true) ∈ s'.log.of s.next
  turnedAway : (∀ root, .asked (.submit proofSet root) ∉ s'.log.of s.next) →
    (s.holdings s.next).Same (s'.holdings s.next) ∧ ∃ fault,
      outcome = .error (fault.within "add to proof set" id) ∧
      TurnedAway s.store.table.rows (s'.log.of s.next) manager.sectorSize id proofSet fault
  refused : ∀ root reason, .answered (.submit proofSet root) (.error reason) ∈ s'.log.of s.next →
    ∃ said, outcome = .error (Fault.within { cause := .ledger (said ++ reason.message) }
      "add to proof set" id)
  accepted : ∀ root hash, .answered (.submit proofSet root) (.ok hash) ∈ s'.log.of s.next →
    ((∃ piece, outcome = .ok piece) ↔
      ∃ written, .answered (.table (.update written .uploaded)) (.ok true) ∈ s'.log.of s.next) ∧
    ∀ piece, outcome = .ok piece → .ofPiece piece ∈ s'.store.table.rows ∧ piece.id = id ∧
      piece.status = .pending ∧ piece.transaction = some hash ∧ piece.proofSet = some proofSet ∧
      piece.rootCid = some root.rootCid ∧
      ∃ now, .answered (.table (.claim id proofSet root.rootCid now)) (.ok true) ∈ s'.log.of s.next
  /-- Only the write of its row is in the way of a piece that the ledger took. -/
  unrecorded : ∀ root hash fault, .answered (.submit proofSet root) (.ok hash) ∈ s'.log.of s.next →
    outcome = .error fault → ∃ (written : Piece) (stored : Outcome Bool) (reason : Fault),
      .answered (.table (.update written .uploaded)) stored ∈ s'.log.of s.next ∧
        Outcome.Spoils (Operation.changedDuringSubmission id) stored reason ∧
        fault = reason.within "add to proof set" id

/-- How a task has ended, if it is a submission. -/
def SubmissionEnds (start : Holdings) (job : Job) (h : Holdings) : (task : Task) → Outcome task.Answer → Prop
  | .submit id proofSet, outcome => h.history.Settled ∧ ∃ verdict,
    Operation.SubmissionEnds job job.manager.sectorSize proofSet id start h verdict ∧
      outcome = verdict.mapError (·.within "add to proof set" id)
  | _, _ => True

theorem meets_submissionEnds {start h : Holdings} {sectors : UInt64 → Prop} (hsound : start.Sound)
    (hshaped : ∀ piece, .ofPiece piece ∈ start.rows → piece.Shaped sectors) (hidle : start.Idle h)
    (hsettled : h.history.Settled) (job : Job) :
    job.call.Meets job (fun h' outcome ↦ SubmissionEnds start job h' job.task outcome) h := by
  obtain ⟨manager, task⟩ := job
  cases task with
  | submit id proofSet =>
    have hends : (manager.submit id proofSet).Meets ⟨manager, .submit id proofSet⟩
        (fun h' written ↦ Operation.SubmissionEnds ⟨manager, .submit id proofSet⟩ manager.sectorSize
          proofSet id start h' (.ok written))
        (fun h' fault ↦ ∃ reason, fault = Fault.within reason "add to proof set" id ∧
          Operation.SubmissionEnds ⟨manager, .submit id proofSet⟩ manager.sectorSize proofSet id start
            h' (.error reason)) h :=
      Attempt.Meets.within (Attempt.Meets.mono
        (Operation.meets_submit_ends hsound hshaped manager.valid.1 hidle) (fun _ _ hend ↦ hend)
        fun _ fault hend ↦ ⟨fault, rfl, hend⟩)
    refine Call.Meets.mono (Call.Meets.settled hends hsettled) ?_
    rintro h' outcome ⟨hcloses, hover⟩
    cases outcome with
    | ok written => exact ⟨hover, _, hcloses, rfl⟩
    | error fault =>
      obtain ⟨cause, rfl, hcause⟩ := hcloses
      exact ⟨hover, _, hcause, rfl⟩
  | _ => exact Call.meets_of_forall (fun _ _ ↦ trivial) _

/-- A submission that has run alone was decided by its piece and by the ledger. -/
theorem decides_of_runsAlone (hs : Reachable s) (h : RunsAlone s s')
    (hended : ⟨s.next, ⟨manager, .submit id proofSet⟩, .ended (.submit id proofSet) outcome⟩ ∈ s'.log) :
    Decides s s' manager id proofSet outcome := by
  have hshaped : ∀ piece, .ofPiece piece ∈ (s.holdings s.next).rows → piece.Shaped s.chronicle.Sectors := by
    intro piece hmem
    obtain ⟨shaped, heq, hpiece⟩ := hs.chronicle.shaped _ hmem
    rwa [Row.ofPiece_injective heq]
  have hbegun : (s.holdings s.next).Idle { s.holdings s.next with history := [.started] } :=
    ⟨⟨rfl, fun _ ↦ rfl, rfl, rfl⟩, rfl⟩
  have hsettled : History.Settled [.started] := by
    intro request
    simp
  obtain ⟨last, ⟨hover, verdict, hends, rfl⟩, hsame, hhistory⟩ := h.ended_history hs
    (meets_submissionEnds (hs.sound s.next) hshaped hbegun hsettled) hended
  have hdone (request : Request) (hloud : ¬ request.IsQuiet) {answer : request.Answer} :
      .answered request answer ∈ s'.log.of s.next ↔ ⟨request, answer⟩ ∈ last.history.deeds := by
    rw [hhistory, List.mem_cons, History.mem_deeds request hloud]
    exact ⟨fun hmem ↦ hmem.resolve_left nofun, Or.inr⟩
  have hasked (root : Root) : .asked (.submit proofSet root) ∈ s'.log.of s.next ↔
      ∃ answer, Operation.submitDeed proofSet root answer ∈ last.history.deeds := by
    have hevent : .asked (.submit proofSet root) ∈ s'.log.of s.next ↔
        .asked (.submit proofSet root) ∈ last.history := by
      rw [hhistory, List.mem_cons]
      exact ⟨fun hmem ↦ hmem.resolve_left nofun, Or.inr⟩
    rw [hevent, hover]
    exact exists_congr fun answer ↦ (History.mem_deeds (.submit proofSet root) nofun).symm
  have hclaimed (root : Root) (now : Instant) (answer : Outcome Bool) :
      .answered (.table (.claim id proofSet root.rootCid now)) answer ∈ s'.log.of s.next ↔
        Operation.claimDeed id proofSet root now answer ∈ last.history.deeds :=
    hdone (.table (.claim id proofSet root.rootCid now)) nofun
  have hrecorded (written : Piece) (stored : Outcome Bool) :
      .answered (.table (.update written .uploaded)) stored ∈ s'.log.of s.next ↔
        Operation.recordDeed written stored ∈ last.history.deeds :=
    hdone (.table (.update written .uploaded)) nofun
  refine ⟨?_, fun hunasked ↦ ?_, fun root reason hanswer ↦ ?_, fun root hash hanswer ↦ ?_,
    fun root hash fault hanswer hfault ↦ ?_⟩
  · simp only [hasked, hclaimed]
    rcases hends.told_or_turned_away with ⟨i, piece, root, now, answer, htold, hclaim, hsaid⟩ | hturned
    · exact iff_of_true ⟨root, answer, (hsaid root answer).mpr ⟨rfl, rfl⟩⟩
        ⟨piece, root, now, List.mem_of_getElem? htold.row, htold.id, htold.due, hclaim⟩
    · obtain ⟨-, hunsaid, hunclaimed, -⟩ := hturned
      refine iff_of_false ?_ ?_
      · rintro ⟨root, answer, hsaid⟩
        exact hunsaid proofSet root answer hsaid
      · rintro ⟨piece, root, now, -, -, -, hclaim⟩
        exact hunclaimed root now hclaim
  · rcases hends.told_or_turned_away with ⟨i, piece, root, now, answer, -, -, hsaid⟩ | hturned
    · exact absurd ((hasked root).mpr ⟨answer, (hsaid root answer).mpr ⟨rfl, rfl⟩⟩) (hunasked root)
    · obtain ⟨hstart, -, -, fault, rfl, hreason⟩ := hturned
      refine ⟨hstart.trans hsame, fault, rfl, ?_⟩
      rcases hreason with hunread | ⟨piece, cause, hrow, hid, rfl, hbars⟩ |
        ⟨piece, root, now, answer, hrow, hid, hdue, hclaim, hspoils⟩
      · exact .unread (hunread.mono (hhistory ▸ List.subset_cons_self _ _))
      · exact .barred hrow hid hbars
      · exact .unclaimed hrow hid hdue ((hclaimed root now answer).mpr hclaim) hspoils
  · rw [hdone (.submit proofSet root) nofun] at hanswer
    rw [hends.of_refused hanswer]
    exact ⟨_, rfl⟩
  · rw [hdone (.submit proofSet root) nofun] at hanswer
    simp only [hrecorded, hclaimed]
    rcases hends.of_accepted hanswer with ⟨written, hmade, rfl, hrow, hid, hstatus, htransaction, hset, hroot⟩ |
      ⟨hnever, written, stored, fault, -, rfl, -⟩
    · refine ⟨iff_of_true ⟨written, rfl⟩ ⟨written, hmade⟩, fun piece hpiece ↦ ?_⟩
      cases hpiece
      have hrows : s'.store.table.rows = last.rows := hsame.rows
      refine ⟨hrows ▸ hrow, hid, hstatus, htransaction, hset, hroot, ?_⟩
      rcases hends.told_or_turned_away with ⟨i, piece, told, now, answer, -, hclaim, hsaid⟩ | hturned
      · obtain ⟨rfl, -⟩ := (hsaid root (.ok hash)).mp hanswer
        exact ⟨now, hclaim⟩
      · exact absurd hanswer (hturned.2.1 proofSet root (.ok hash))
    · refine ⟨iff_of_false ?_ ?_, fun piece hpiece ↦ ?_⟩
      · rintro ⟨piece, hpiece⟩
        cases hpiece
      · rintro ⟨written, hmade⟩
        exact hnever written hmade
      · cases hpiece
  · rw [hdone (.submit proofSet root) nofun] at hanswer
    rcases hends.of_accepted hanswer with ⟨written, -, rfl, -⟩ |
      ⟨-, written, stored, reason, hmade, rfl, hspoils⟩
    · cases hfault
    · cases hfault
      exact ⟨written, stored, reason, (hrecorded written stored).mpr hmade, hspoils, rfl⟩

/-- Without company a submission ends, and what decides how is its piece and then the ledger. -/
theorem submission_decided (hs : Reachable s) (manager : Manager) (id : String) (proofSet : UInt64) :
    (∃ s' outcome, RunsAlone s s' ∧
      ⟨s.next, ⟨manager, .submit id proofSet⟩, .ended (.submit id proofSet) outcome⟩ ∈ s'.log) ∧
    ∀ s' outcome, RunsAlone s s' →
      ⟨s.next, ⟨manager, .submit id proofSet⟩, .ended (.submit id proofSet) outcome⟩ ∈ s'.log →
      Decides s s' manager id proofSet outcome :=
  ⟨exists_submission hs manager id proofSet, fun _ _ halone hended ↦ decides_of_runsAlone hs halone hended⟩

/-- The ledger takes a piece, which is then in its table as it was returned. -/
theorem submission_accepted :
    ∃ (s s' : State) (piece : Piece), Reachable s ∧ RunsAlone s s' ∧
      ⟨s.next, ⟨keeper, .submit "a" 7⟩, .ended (.submit "a" 7) (.ok piece)⟩ ∈ s'.log ∧
      Decides s s' keeper "a" 7 (.ok piece) := by
  obtain ⟨s, hs, htable⟩ := exists_filled "a" .single
  have hsubmit : (keeper.submit "a" 7).Yields ⟨s.store, false, [.started]⟩ _ _ :=
    yields_submit_accepted rfl htable rfl "0xabc"
  obtain ⟨_, hruns⟩ := hsubmit
  obtain ⟨s', -, halone, -, -, -, hended⟩ := hs.toRests.perform_alone ⟨keeper, .submit "a" 7⟩ hruns rfl
  exact ⟨s, s', _, hs.reachable, halone, hended,
    (submission_decided hs.reachable keeper "a" 7).2 s' _ halone hended⟩

end Run

end PieceKeeper
