import PieceKeeper.Proofs.Run.Chronicle
import PieceKeeper.Proofs.Store.Table

/-!
# Calls without company

What a call does while all others rest: each of its requests is answered at once, and nobody else
holds a lock.  Such executions go along the combinators that operations are built from, and are
runs.  They show what can happen, where the rules say what cannot.
-/

namespace PieceKeeper

variable {α β : Type}

/-- What a call without company sees: the store, whether it holds a lock, and what happened. -/
structure Scene where
  store : Store
  held : Bool
  history : History

/-- Adds a request and its answer, which changed nothing. -/
def Scene.exchange (scene : Scene) (request : Request) (answer : request.Answer) : Scene :=
  { scene with history := scene.history.exchange request answer }

/-- Whether a lock is held behind a request; none is asked for while one is held. -/
def Request.holds? (held : Bool) : Request → Option Bool
  | .acquire _ => if held then none else some true
  | .release _ => if held then some false else none
  | _ => some held

/-- A call ends with an answer, and in a new scene. -/
inductive Call.Runs : Call α → Scene → α → Scene → Prop
  | done (answer : α) (scene : Scene) : Runs (.done answer) scene answer scene
  | ask {request : Request} {next : request.Answer → Call α} {answer : request.Answer}
      {store store' : Store} {held held' : Bool} {history : History} {scene : Scene} {result : α} :
    request.holds? held = some held' → store.Reacts request answer store' →
      Runs (next answer) ⟨store', held', history.exchange request answer⟩ result scene →
      Runs (.ask request next) ⟨store, held, history⟩ result scene

theorem Call.Runs.bind {call : Call α} {next : α → Call β} {scene scene' scene'' : Scene}
    {answer : α} {result : β} (h : call.Runs scene answer scene')
    (hnext : (next answer).Runs scene' result scene'') :
    (call.bind next).Runs scene result scene'' := by
  induction h with
  | done _ _ => exact hnext
  | ask hheld hreacts _ ih => exact .ask hheld hreacts (ih hnext)

namespace Attempt

/-- An attempt ends with an outcome, and in a new scene. -/
def Runs (attempt : Attempt α) (scene : Scene) (outcome : Outcome α) (scene' : Scene) : Prop :=
  Call.Runs attempt.run scene outcome scene'

variable {scene scene' scene'' : Scene} {attempt : Attempt α}

theorem runs_pure (answer : α) (scene : Scene) :
    (pure answer : Attempt α).Runs scene (.ok answer) scene :=
  .done _ _

theorem runs_refuse (cause : Cause) (scene : Scene) :
    (refuse cause : Attempt α).Runs scene (.error { cause }) scene :=
  .done _ _

theorem runs_ofOutcome {outcome result : Outcome α} (h : outcome = result) (scene : Scene) :
    (ofOutcome outcome).Runs scene result scene := by
  rw [h]
  exact .done _ _

theorem runs_ofFile {result : Except FileFailure α} {answer : α} (h : result = .ok answer)
    (scene : Scene) : (ofFile result).Runs scene (.ok answer) scene := by
  rw [h]
  exact .done _ _

/-- A request to the outside may be answered with anything. -/
theorem runs_ask (request : Request) (answer : request.Answer) (houtside : request.IsOutside)
    (hheld : request.holds? scene.held = some scene.held) :
    (ask request).Runs scene (.ok answer) (scene.exchange request answer) :=
  .ask hheld (.outside _ _ houtside) (.done _ _)

theorem runs_shelf {command : Shelf.Command} {answer : command.Answer} {shelf : Shelf}
    (h : scene.store.shelf.run command = (answer, shelf)) :
    (Attempt.shelf command).Runs scene (.ok answer)
      ({ scene with store.shelf := shelf }.exchange (.shelf command) answer) := by
  have hreacts : scene.store.Reacts (.shelf command) _ _ := .shelf command
  rw [h] at hreacts
  exact .ask rfl hreacts (.done _ _)

theorem runs_table {command : Table.Command} {outcome : Outcome command.Answer} {table : Table}
    (h : scene.store.table.run command = (outcome, table)) :
    (Attempt.table command).Runs scene outcome
      ({ scene with store.table := table }.exchange (.table command) outcome) := by
  have hreacts : scene.store.Reacts (.table command) _ _ := .table command
  rw [h] at hreacts
  exact .ask rfl hreacts (.done _ _)

theorem Runs.bind {next : α → Attempt β} {answer : α} {outcome : Outcome β}
    (h : attempt.Runs scene (.ok answer) scene') (hnext : (next answer).Runs scene' outcome scene'') :
    (attempt >>= next).Runs scene outcome scene'' :=
  Call.Runs.bind h hnext

/-- An attempt whose fault is dropped. -/
theorem Runs.lift {outcome : Outcome α} (h : attempt.Runs scene outcome scene') :
    Runs (ExceptT.lift attempt.run) scene (.ok outcome) scene' :=
  Call.Runs.bind h (.done _ _)

/-- What fails goes no further. -/
theorem Runs.fail {next : α → Attempt β} {fault : Fault}
    (h : attempt.Runs scene (.error fault) scene') :
    (attempt >>= next).Runs scene (.error fault) scene' :=
  Call.Runs.bind h (.done _ _)

theorem Runs.within_ok {answer : α} {operation piece : String}
    (h : attempt.Runs scene (.ok answer) scene') :
    (attempt.within operation piece).Runs scene (.ok answer) scene' :=
  Call.Runs.bind h (.done _ _)

theorem Runs.within_error {fault : Fault} {operation piece : String}
    (h : attempt.Runs scene (.error fault) scene') :
    (attempt.within operation piece).Runs scene (.error (fault.within operation piece)) scene' :=
  Call.Runs.bind h (.done _ _)

/-- A lock is taken, and given back at the end. -/
theorem Runs.holding {key : LockKey} {outcome : Outcome α} (hfree : scene.held = false)
    (h : attempt.Runs ({ scene with held := true }.exchange (.acquire key) ()) outcome scene')
    (hheld : scene'.held = true) :
    (attempt.holding key).Runs scene outcome
      ({ scene' with held := scene.held }.exchange (.release key) ()) := by
  obtain ⟨before, held, earlier⟩ := scene
  obtain ⟨after, held', later⟩ := scene'
  cases hfree
  cases hheld
  refine .ask rfl (.outside (.acquire key) () trivial) ?_
  change Call.Runs (attempt.run.bind fun outcome ↦ .ask (.release key) fun _ ↦ .done outcome) _ _ _
  exact Call.Runs.bind h (.ask rfl (.outside (.release key) () trivial) (.done _ _))

/-! ## Without the history -/

/-- An attempt ends with an outcome and leaves a store; it holds the locks that it held. -/
def Yields (attempt : Attempt α) (scene : Scene) (outcome : Outcome α) (store : Store) : Prop :=
  ∃ history, attempt.Runs scene outcome ⟨store, scene.held, history⟩

variable {store : Store}

theorem Runs.yields {outcome : Outcome α} (h : attempt.Runs scene outcome scene')
    (hheld : scene'.held = scene.held) : attempt.Yields scene outcome scene'.store :=
  ⟨scene'.history, hheld ▸ h⟩

theorem Runs.bind_yields {next : α → Attempt β} {answer : α} {outcome : Outcome β}
    (h : attempt.Runs scene (.ok answer) scene') (hheld : scene'.held = scene.held)
    (hnext : (next answer).Yields scene' outcome store) :
    (attempt >>= next).Yields scene outcome store := by
  obtain ⟨history, hruns⟩ := hnext
  exact ⟨history, hheld ▸ h.bind hruns⟩

theorem Yields.bind {next : α → Attempt β} {answer : α} {outcome : Outcome β} {store' : Store}
    (h : attempt.Yields scene (.ok answer) store)
    (hnext : ∀ history, (next answer).Yields ⟨store, scene.held, history⟩ outcome store') :
    (attempt >>= next).Yields scene outcome store' := by
  obtain ⟨history, hruns⟩ := h
  obtain ⟨later, hlater⟩ := hnext history
  exact ⟨later, hruns.bind hlater⟩

theorem Yields.fail {next : α → Attempt β} {fault : Fault}
    (h : attempt.Yields scene (.error fault) store) :
    (attempt >>= next).Yields scene (.error fault) store :=
  h.imp fun _ hruns ↦ hruns.fail

theorem Yields.within_ok {answer : α} {operation piece : String}
    (h : attempt.Yields scene (.ok answer) store) :
    (attempt.within operation piece).Yields scene (.ok answer) store :=
  h.imp fun _ hruns ↦ hruns.within_ok

theorem Yields.within_error {fault : Fault} {operation piece : String}
    (h : attempt.Yields scene (.error fault) store) :
    (attempt.within operation piece).Yields scene (.error (fault.within operation piece)) store :=
  h.imp fun _ hruns ↦ hruns.within_error

theorem Yields.holding {key : LockKey} {outcome : Outcome α} (hfree : scene.held = false)
    (h : attempt.Yields ({ scene with held := true }.exchange (.acquire key) ()) outcome store) :
    (attempt.holding key).Yields scene outcome store := by
  obtain ⟨history, hruns⟩ := h
  exact ⟨_, hruns.holding hfree rfl⟩

end Attempt

/-! ## Locks at rest -/

namespace Locks

variable {locks : Locks LockKey} {key : LockKey} {ticket : Nat}

/-- Nobody holds a lock or waits for one, or one ticket holds the only one. -/
def Rest (locks : Locks LockKey) (ticket : Nat) : Bool → Prop
  | false => ∀ lock ∈ locks.locks, lock.inUse = false
  | true => ∃ serial, locks.locks = [{ serial, holder := some ticket }]

theorem Rest.request (h : locks.Rest ticket false) : (locks.request key ticket).Rest ticket true := by
  have hlocks : locks.locks.filter Lock.inUse = [] :=
    List.filter_eq_nil_iff.mpr fun lock hlock ↦ by simp [h lock hlock]
  have hentries : locks.entries.filter (fun (_, serial) ↦ locks.inUse serial) = [] :=
    List.filter_eq_nil_iff.mpr fun entry _ ↦ by
      simp only [inUse, List.any_eq_true, Bool.and_eq_true, not_exists, not_and]
      exact fun lock hlock _ ↦ by simp [h lock hlock]
  refine ⟨locks.next, ?_⟩
  simp [Locks.request, prune, enter, change, hlocks, hentries, Lock.ask, Lock.inUse]

theorem Rest.holds (h : locks.Rest ticket true) : locks.holds ticket = true := by
  obtain ⟨serial, hlocks⟩ := h
  simp [Locks.holds, hlocks]

theorem Rest.release (h : locks.Rest ticket true) : (locks.release ticket).1.Rest ticket false := by
  obtain ⟨serial, hlocks⟩ := h
  simp [Locks.release, hlocks, change, Lock.handOver, Rest, Lock.inUse]

/-- A lock that is asked for is granted, and one that is given back is free. -/
theorem Rest.exchange {request : Request} {held held' : Bool} (h : locks.Rest ticket held)
    (hheld : request.holds? held = some held') :
    (locks.hear ticket request).Grants ticket request ∧
      ((locks.hear ticket request).answer ticket request).Rest ticket held' := by
  cases request with
  | acquire key =>
    cases held with
    | true => cases hheld
    | false =>
      cases hheld
      exact ⟨h.request.holds, h.request⟩
  | release key =>
    cases held with
    | true =>
      cases hheld
      exact ⟨trivial, h.release⟩
    | false => cases hheld
  | _ =>
    cases hheld
    exact ⟨trivial, h⟩

end Locks

/-! ## Executions are runs -/

/-- An entry was there before, or is of the call that the last one is of. -/
theorem Log.mem_or_job_eq {log : Log} {entry made : Entry}
    (h : entry ∈ made :: log) : entry ∈ log ∨ entry.job = made.job :=
  (List.mem_cons.mp h).symm.imp_right (congrArg Entry.job)

namespace Run

variable {s s' : State}

/-- A state of a run in which nobody holds a lock or waits for one. -/
structure State.Rests (s : State) : Prop where
  reachable : Reachable s
  idle : ∀ lock ∈ s.locks.locks, lock.inUse = false

/-- A state in which a call is under way without company. -/
structure State.Hosts (s : State) (ticket : Nat) (job : Job)
    (call : Call (Outcome job.task.Answer)) (scene : Scene) : Prop where
  reachable : Reachable s
  flight : s.flights ticket = some ⟨job, .running call⟩
  rest : s.locks.Rest ticket scene.held
  store : s.store = scene.store
  history : s.log.of ticket = scene.history

/-- A step in which nothing happens to other calls, and which leaves the weather as it is. -/
structure StepBy (ticket : Nat) (s s' : State) : Prop where
  step : Step s s'
  others : ∀ other, other ≠ ticket → s'.log.of other = s.log.of other
  disturbance : s'.store.table.disturbance = s.store.table.disturbance

/-- A later state that differs only in its store and in what happened to one call. -/
structure State.Grows (s : State) (ticket : Nat) (job : Job) (s' : State) : Prop where
  steps : Relation.ReflTransGen (StepBy ticket) s s'
  next : s'.next = s.next
  jobs : ∀ entry ∈ s'.log, entry ∈ s.log ∨ entry.job = job

theorem State.Grows.trans {ticket : Nat} {job : Job} {t : State} (h : s.Grows ticket job s')
    (h' : s'.Grows ticket job t) : s.Grows ticket job t where
  steps := Relation.ReflTransGen.trans h.steps h'.steps
  next := h'.next.trans h.next
  jobs entry hentry := (h'.jobs entry hentry).elim (h.jobs entry) Or.inr

/-- An answer leaves the weather as it is. -/
theorem disturbance_of_reacts {store store' : Store} {request : Request} {answer : request.Answer}
    (h : store.Reacts request answer store') : store'.table.disturbance = store.table.disturbance := by
  cases h with
  | table command => exact (store.table.weather_run command).1
  | shelf _ | shelfFails _ | outside _ _ _ => rfl

/-- A request is made and answered. -/
theorem State.Hosts.exchange {ticket : Nat} {job : Job} {request : Request}
    {next : request.Answer → Call (Outcome job.task.Answer)} {answer : request.Answer}
    {store store' : Store} {held held' : Bool} {history : History}
    (hs : s.Hosts ticket job (.ask request next) ⟨store, held, history⟩)
    (hheld : request.holds? held = some held') (hreacts : store.Reacts request answer store') :
    ∃ s', s.Grows ticket job s' ∧
      s'.Hosts ticket job (next answer) ⟨store', held', history.exchange request answer⟩ := by
  obtain ⟨hreachable, hflight, hrest, rfl, rfl⟩ := hs
  obtain ⟨hgrants, hrest'⟩ := hrest.exchange hheld
  have hask := Step.ask hflight
  have hanswer : Step ({ s with locks := s.locks.hear ticket request }.advance ticket job
      (.awaiting request next) |>.note ticket job (.asked request)) _ :=
    .answer (Function.update_self ticket _ s.flights) hgrants hreacts
  have hasked : StepBy ticket s _ := ⟨hask, fun _ hne ↦ Log.of_cons_of_ne hne.symm, rfl⟩
  have hanswered : StepBy ticket _ _ :=
    ⟨hanswer, fun _ hne ↦ Log.of_cons_of_ne hne.symm, disturbance_of_reacts hreacts⟩
  refine ⟨_, ⟨(Relation.ReflTransGen.single hasked).tail hanswered, rfl, fun entry hentry ↦ ?_⟩,
    ⟨(hreachable.tail hask).tail hanswer, Function.update_self _ _ _, hrest', rfl, ?_⟩⟩
  · exact (Log.mem_or_job_eq hentry).elim Log.mem_or_job_eq Or.inr
  · exact (Log.of_cons_self _ _ _ _).trans (congrArg _ (Log.of_cons_self _ _ _ _))

/-- A call goes on to its end. -/
theorem State.Hosts.runs {ticket : Nat} {job : Job} {call : Call (Outcome job.task.Answer)}
    {scene scene' : Scene} {outcome : Outcome job.task.Answer} (hs : s.Hosts ticket job call scene)
    (h : call.Runs scene outcome scene') (hfree : scene'.held = false) :
    ∃ s', s.Grows ticket job s' ∧ s'.Rests ∧ s'.store = scene'.store ∧
      s'.log.of ticket = .ended job.task outcome :: scene'.history ∧ s'.flights ticket = none := by
  induction h generalizing s with
  | done outcome scene =>
    have hfinish := Step.finish hs.flight
    refine ⟨_, ⟨.single ⟨hfinish, fun _ hne ↦ Log.of_cons_of_ne hne.symm, rfl⟩, rfl,
      fun entry hentry ↦ Log.mem_or_job_eq hentry⟩,
      ⟨hs.reachable.tail hfinish, ?_⟩, hs.store, ?_, Function.update_self _ _ _⟩
    · have hrest := hs.rest
      rw [hfree] at hrest
      exact hrest
    · exact (Log.of_cons_self _ _ _ _).trans (congrArg _ hs.history)
  | ask hheld hreacts _ ih =>
    obtain ⟨t, hgrows, ht⟩ := hs.exchange hheld hreacts
    obtain ⟨s', hgrows', hs'⟩ := ih ht hfree
    exact ⟨s', hgrows.trans hgrows', hs'⟩

theorem StepBy.reaches {ticket : Nat} (h : Relation.ReflTransGen (StepBy ticket) s s') : Reaches s s' := by
  have hsteps : StepBy ticket ≤ Step := fun _ _ hstep ↦ hstep.step
  exact Relation.ReflTransGen.mono hsteps s s' h

theorem StepBy.of_other {ticket other : Nat} (h : Relation.ReflTransGen (StepBy ticket) s s')
    (hne : other ≠ ticket) : s'.log.of other = s.log.of other := by
  induction h with
  | refl => rfl
  | tail _ hstep ih => exact (hstep.others other hne).trans ih

/-- What a task does without company, it can do in steps of its own. -/
theorem State.Rests.perform_steps (hs : s.Rests) (job : Job) {outcome : Outcome job.task.Answer}
    {scene : Scene}
    (h : (job.manager.perform job.task).Runs ⟨s.store, false, [.started]⟩ outcome scene)
    (hfree : scene.held = false) :
    ∃ s', Relation.ReflTransGen (StepBy s.next) s s' ∧ s'.Rests ∧ s'.next = s.next + 1 ∧
      s'.store = scene.store ∧ s'.log.of s.next = .ended job.task outcome :: scene.history ∧
      s'.flights s.next = none ∧ ∀ entry ∈ s'.log, entry ∈ s.log ∨ entry.job = job := by
  have hstart : Step s _ := .start job
  have hhosts : State.Hosts _ s.next job job.call ⟨s.store, false, [.started]⟩ :=
    ⟨hs.reachable.tail hstart, Function.update_self _ _ _, hs.idle, rfl, by
      exact (Log.of_cons_self _ _ _ _).trans
        (congrArg _ (hs.reachable.lawful.fresh s.next (Nat.le_refl _)).2)⟩
  obtain ⟨s', hgrows, hrests, hstore, hlog, hover⟩ := hhosts.runs h hfree
  have hstarted : StepBy s.next s _ := ⟨hstart, fun _ hne ↦ Log.of_cons_of_ne hne.symm, rfl⟩
  refine ⟨s', Relation.ReflTransGen.head hstarted hgrows.steps, hrests, hgrows.next, hstore, hlog,
    hover, ?_⟩
  intro entry hentry
  exact (hgrows.jobs entry hentry).elim Log.mem_or_job_eq Or.inr

/-- What a task does without company, it can do in a run. -/
theorem State.Rests.perform (hs : s.Rests) (job : Job) {outcome : Outcome job.task.Answer}
    {scene : Scene}
    (h : (job.manager.perform job.task).Runs ⟨s.store, false, [.started]⟩ outcome scene)
    (hfree : scene.held = false) :
    ∃ s', Reaches s s' ∧ s'.Rests ∧ s'.next = s.next + 1 ∧ s'.store = scene.store ∧
      s'.log.of s.next = .ended job.task outcome :: scene.history ∧ s'.flights s.next = none ∧
      (∀ other, other ≠ s.next → s'.log.of other = s.log.of other) ∧
      ∀ entry ∈ s'.log, entry ∈ s.log ∨ entry.job = job := by
  obtain ⟨s', hsteps, hrests, hnext, hstore, hlog, hover, hjobs⟩ := hs.perform_steps job h hfree
  exact ⟨s', StepBy.reaches hsteps, hrests, hnext, hstore, hlog, hover, fun _ ↦ StepBy.of_other hsteps, hjobs⟩

theorem State.rests_initial : ({} : State).Rests := ⟨.refl, fun _ h ↦ nomatch h⟩

/-- Nobody is disturbed when the table's writes begin or cease to go wrong. -/
theorem State.Rests.weather (hs : s.Rests) (disturbance : Option Disturbance)
    (outage : Option String) :
    ∃ s', Reaches s s' ∧ s'.Rests ∧
      s'.store = { s.store with table := { s.store.table with disturbance, outage } } :=
  have hstep : Step s _ := .weather disturbance outage
  ⟨_, .single hstep, ⟨hs.reachable.tail hstep, hs.idle⟩, rfl⟩

end Run

end PieceKeeper
