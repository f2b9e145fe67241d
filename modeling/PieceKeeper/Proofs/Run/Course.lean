import PieceKeeper.Proofs.Run.Chronicle

/-!
# The course of a call

What happened to a call tells what is left of it, and in a run every call on its way stands where
its history has led it.  So a rule that a call follows by itself is kept by each of its requests in
every run, whichever rule it is.
-/

namespace PieceKeeper

variable {α : Type}

/-- What is left of a call after what happened to it. -/
inductive Call.Leads (call : Call α) : History → Call α → Prop
  | start : Leads call [.started] call
  | exchange {history : History} {request : Request} {next : request.Answer → Call α}
      (answer : request.Answer) :
    Leads call history (.ask request next) →
      Leads call (history.exchange request answer) (next answer)

/-- What is left of a call goes on following the rule of the call. -/
theorem Call.Leads.follows {call rest : Call α} {history : History}
    {rule : History → Request → Prop} {post : History → α → Prop} (h : call.Leads history rest)
    (hfollows : call.Follows rule post [.started]) : rest.Follows rule post history := by
  induction h with
  | start => exact hfollows
  | exchange answer _ ih => exact ih.2 answer

/-- A call stands where its history has led it. -/
def Progress.Stands (job : Job) (history : History) : Progress (Outcome job.task.Answer) → Prop
  | .running call => job.call.Leads history call
  | .awaiting request next =>
    ∃ earlier, history = .asked request :: earlier ∧ job.call.Leads earlier (.ask request next)
  | .orphaned request =>
    ∃ earlier next, history = .asked request :: earlier ∧ job.call.Leads earlier (.ask request next)

namespace Run

variable {s s' : State}

/-- Every call on its way stands where its history has led it. -/
def State.Placed (s : State) : Prop :=
  ∀ ticket flight, s.flights ticket = some flight →
    flight.progress.Stands flight.job (s.log.of ticket)

/-- Only the call that a step is about has to be looked at. -/
theorem State.Placed.change (hs : s.Placed) (ticket : Nat)
    (hothers : ∀ other, other ≠ ticket →
      s'.flights other = s.flights other ∧ s'.log.of other = s.log.of other)
    (hcall : ∀ flight, s'.flights ticket = some flight →
      flight.progress.Stands flight.job (s'.log.of ticket)) : s'.Placed := by
  intro other flight hflight
  by_cases heq : other = ticket
  · subst heq
    exact hcall flight hflight
  · obtain ⟨hsame, hlog⟩ := hothers other heq
    rw [hlog]
    exact hs other flight (hsame ▸ hflight)

/-- A call goes on, and something is logged of it. -/
theorem State.Placed.advance {ticket : Nat} {job : Job} {event : Event}
    {progress : Progress (Outcome job.task.Answer)} (hs : s.Placed)
    (hflights : s'.flights = Function.update s.flights ticket (some ⟨job, progress⟩))
    (hlog : s'.log = ⟨ticket, job, event⟩ :: s.log)
    (hstands : progress.Stands job (event :: s.log.of ticket)) : s'.Placed := by
  refine hs.change ticket (fun other hne ↦ ?_) fun flight hflight ↦ ?_
  · rw [hflights, hlog, Function.update_of_ne hne, Log.of_cons_of_ne hne.symm]
    exact ⟨rfl, rfl⟩
  · rw [hflights, Function.update_self] at hflight
    cases hflight
    rwa [hlog, Log.of_cons_self]

/-- A call is gone. -/
theorem State.Placed.forget {ticket : Nat} (hs : s.Placed)
    (hflights : s'.flights = Function.update s.flights ticket none)
    (hlog : ∀ other, other ≠ ticket → s'.log.of other = s.log.of other) : s'.Placed := by
  refine hs.change ticket (fun other hne ↦ ?_) fun flight hflight ↦ ?_
  · rw [hflights, Function.update_of_ne hne]
    exact ⟨rfl, hlog other hne⟩
  · rw [hflights, Function.update_self] at hflight
    cases hflight

theorem Step.placed (hs : s.Placed) (hnew : s.log.of s.next = []) (h : Step s s') : s'.Placed := by
  cases h with
  | start job =>
    refine hs.advance rfl rfl ?_
    rw [hnew]
    exact .start
  | ask hflight => exact hs.advance rfl rfl ⟨_, rfl, hs _ _ hflight⟩
  | answer hflight _ _ =>
    obtain ⟨earlier, hhistory, hleads⟩ := hs _ _ hflight
    refine hs.advance rfl rfl ?_
    rw [hhistory]
    exact hleads.exchange _
  | finish _ => exact hs.forget rfl fun _ hne ↦ Log.of_cons_of_ne hne.symm
  | drop _ => exact hs.forget rfl fun _ _ ↦ rfl
  | @orphan ticket job request next hflight =>
    obtain ⟨earlier, hhistory, hleads⟩ := hs _ _ hflight
    refine hs.change ticket (fun other hne ↦ ⟨Function.update_of_ne hne _ _, rfl⟩) ?_
    intro flight hflight
    cases (Function.update_self ticket _ s.flights).symm.trans hflight
    exact ⟨earlier, next, hhistory, hleads⟩
  | settle _ _ => exact hs.forget rfl fun _ hne ↦ Log.of_cons_of_ne hne.symm
  | crash => exact fun _ _ hflight ↦ nomatch hflight
  | weather _ _ => exact hs

theorem Reachable.placed (h : Reachable s) : s.Placed := by
  induction h with
  | refl => exact fun _ _ hflight ↦ nomatch hflight
  | tail hreaches hstep ih =>
    exact hstep.placed ih ((Reachable.lawful hreaches).fresh _ (Nat.le_refl _)).2

/-- A request that is answered keeps to every rule that its call follows. -/
theorem Step.obeys (hs : Reachable s) (h : Step s s') {ticket : Nat} {job : Job} {request : Request}
    {answer : request.Answer}
    (hlog : s'.log = ⟨ticket, job, .answered request answer⟩ :: s.log)
    {rule : History → Request → Prop} {post : History → Outcome job.task.Answer → Prop}
    (hfollows : job.call.Follows rule post [.started]) :
    ∃ history : History, s.log.of ticket = .asked request :: history ∧ rule history request := by
  cases h with
  | start _ | ask _ | finish _ => cases (List.cons.inj hlog).1
  | drop _ | orphan _ | crash | weather _ _ => exact absurd hlog.symm (List.cons_ne_self _ _)
  | answer hflight _ _ =>
    cases (List.cons.inj hlog).1
    obtain ⟨earlier, hhistory, hleads⟩ := hs.placed _ _ hflight
    exact ⟨earlier, hhistory, (hleads.follows hfollows).1⟩
  | settle hflight _ =>
    cases (List.cons.inj hlog).1
    obtain ⟨earlier, next, hhistory, hleads⟩ := hs.placed _ _ hflight
    exact ⟨earlier, hhistory, (hleads.follows hfollows).1⟩

/-- Every request that was ever made kept to the rule of its call, by what had happened to the call
until then. -/
theorem Reachable.obeyed (hs : Reachable s) {rule : Job → History → Request → Prop}
    {post : (job : Job) → History → Outcome job.task.Answer → Prop}
    (hfollows : ∀ job : Job, job.call.Follows (rule job) (post job) [.started]) {ticket : Nat}
    {job : Job} {request : Request} (hasked : ⟨ticket, job, .asked request⟩ ∈ s.log) :
    ∃ history, history ⊆ s.log.of ticket ∧ rule job history request := by
  induction hs with
  | refl => cases hasked
  | @tail s s' hreaches hstep ih =>
    have hs : Reachable s := hreaches
    have hold (hasked : ⟨ticket, job, .asked request⟩ ∈ s.log) (new : Log)
        (hlog : s'.log = new ++ s.log) :
        ∃ history, history ⊆ s'.log.of ticket ∧ rule job history request := by
      obtain ⟨history, hsub, hrule⟩ := ih hasked
      exact ⟨history, List.Subset.trans hsub (hlog ▸ Log.of_subset_append new s.log ticket), hrule⟩
    cases hstep with
    | start _ | answer _ _ _ | finish _ | settle _ _ =>
      rcases List.mem_cons.mp hasked with heq | hmem
      · cases heq
      · exact hold hmem [_] rfl
    | drop _ | orphan _ | crash | weather _ _ => exact hold hasked [] rfl
    | ask hflight =>
      rcases List.mem_cons.mp hasked with heq | hmem
      · cases heq
        exact ⟨s.log.of ticket, Log.of_subset_append [_] s.log ticket,
          ((hs.placed _ _ hflight).follows (hfollows job)).1⟩
      · exact hold hmem [_] rfl

end Run

end PieceKeeper
