import PieceKeeper.Proofs.Operation.Job

/-!
# Chronicles

A chronicle is a store with the log of what led to it.  It forgets how far the calls have come;
what is left of them are the rules that they follow.  Every step of a run is a step of its
chronicle or leaves it alone, so what all chronicles have in common holds of all runs.
-/

namespace PieceKeeper

/-! ## Entries of one call -/

/-- An event behind which nothing happens to a call. -/
def Event.IsEnd : Event → Prop
  | .ended _ _ => True
  | _ => False

namespace Log

variable {log : Log} {ticket : Nat} {job : Job}

/-- The entries of the call with a ticket. -/
def entries (log : Log) (ticket : Nat) : Log := log.filter (·.ticket = ticket)

theorem entries_cons_of_ne {entry : Entry} (h : entry.ticket ≠ ticket) :
    entries (entry :: log) ticket = log.entries ticket := by
  simp [entries, h]

theorem of_congr {log' : Log} (h : log'.entries ticket = log.entries ticket) :
    log'.of ticket = log.of ticket :=
  congrArg (List.map Entry.event) h

/-- A call does a job and has not ended. -/
def Open (log : Log) (ticket : Nat) (job : Job) : Prop :=
  ∀ entry ∈ log.entries ticket, entry.job = job ∧ ¬ entry.event.IsEnd

theorem Open.cons {event : Event} (h : log.Open ticket job) (hevent : ¬ event.IsEnd) :
    Open (⟨ticket, job, event⟩ :: log) ticket job := by
  intro entry hentry
  rw [entries, List.filter_cons_of_pos (by simp)] at hentry
  rcases List.mem_cons.mp hentry with rfl | hold
  · exact ⟨rfl, hevent⟩
  · exact h entry hold

theorem Open.of_mem {entry : Entry} (h : log.Open ticket job) (hentry : entry ∈ log)
    (hticket : entry.ticket = ticket) : entry.job = job ∧ ¬ entry.event.IsEnd :=
  h entry (List.mem_filter.mpr ⟨hentry, by simpa using hticket⟩)

theorem open_of_nil (h : log.of ticket = []) (job : Job) : log.Open ticket job := by
  intro entry hentry
  have hnil : log.entries ticket = [] := List.map_eq_nil_iff.mp h
  rw [hnil] at hentry
  cases hentry

end Log

/-! ## Chronicles -/

/-- The store and what happened so far. -/
structure Chronicle where
  store : Store := {}
  log : Log := []

namespace Chronicle

/-- Logs an event. -/
def note (c : Chronicle) (ticket : Nat) (job : Job) (event : Event) : Chronicle :=
  { c with log := ⟨ticket, job, event⟩ :: c.log }

/-- How a chronicle goes on. -/
inductive Step (c : Chronicle) : Chronicle → Prop
  | start (ticket : Nat) (job : Job) :
    c.log.of ticket = [] → Step c (c.note ticket job .started)
  /-- A call makes a request that its rule allows. -/
  | ask {ticket : Nat} {job : Job} {request : Request} :
    c.log.Open ticket job → job.Allows (c.log.of ticket) request →
      Step c (c.note ticket job (.asked request))
  /-- The last request of a call is answered. -/
  | answer {ticket : Nat} {job : Job} {request : Request} {history : History}
      {answer : request.Answer} {store : Store} :
    c.log.Open ticket job → c.log.of ticket = .asked request :: history →
      job.Allows history request → c.store.Reacts request answer store →
      Step c ({ c with store }.note ticket job (.answered request answer))
  /-- A call ends as its task says. -/
  | finish {ticket : Nat} {job : Job} {outcome : Outcome job.task.Answer} :
    c.log.Open ticket job → job.task.Concludes (c.log.of ticket) outcome →
      Step c (c.note ticket job (.ended job.task outcome))
  | weather (disturbance : Option Disturbance) (outage : Option String) :
    Step c { c with store.table := { c.store.table with disturbance, outage } }

/-- What is behind a new entry. -/
def Admits (c : Chronicle) (entry : Entry) : Prop :=
  match entry.event with
  | .started => True
  | .asked request => entry.job.Allows (c.log.of entry.ticket) request
  | .answered request answer => ∃ history store, c.log.of entry.ticket = .asked request :: history ∧
    entry.job.Allows history request ∧ c.store.Reacts request answer store
  | .ended task outcome => task.Concludes (c.log.of entry.ticket) outcome

/-- A step adds at most one entry to the log, and one that the rules admit. -/
theorem Step.log {c c' : Chronicle} (h : c.Step c') :
    c'.log = c.log ∨ ∃ entry, c'.log = entry :: c.log ∧ c.Admits entry := by
  cases h with
  | start ticket job _ => exact Or.inr ⟨_, rfl, trivial⟩
  | ask _ hallows => exact Or.inr ⟨_, rfl, hallows⟩
  | answer _ hasked hallows hreacts => exact Or.inr ⟨_, rfl, _, _, hasked, hallows, hreacts⟩
  | finish _ hconcludes => exact Or.inr ⟨_, rfl, hconcludes⟩
  | weather _ _ => exact Or.inl rfl

/-- Whether one chronicle is continued by another. -/
def Reaches : Chronicle → Chronicle → Prop := Relation.ReflTransGen Step

/-- Whether a chronicle tells of a run. -/
def Reachable (c : Chronicle) : Prop := Reaches {} c

/-- A step makes an entry. -/
structure Enters (c : Chronicle) (entry : Entry) (c' : Chronicle) : Prop where
  step : c.Step c'
  log : c'.log = entry :: c.log
  admits : c.Admits entry

variable {c c' c'' : Chronicle} {entry : Entry} {ticket : Nat} {job : Job}

theorem Step.enters (h : c.Step c') : c'.log = c.log ∨ ∃ entry, c.Enters entry c' :=
  h.log.imp (fun hlog ↦ hlog) fun ⟨entry, hlog, hadmits⟩ ↦ ⟨entry, h, hlog, hadmits⟩

/-- Nothing that was logged is lost. -/
theorem Step.log_subset (h : c.Step c') : c.log ⊆ c'.log := by
  rcases h.enters with hlog | ⟨entry, henters⟩
  · exact hlog ▸ List.Subset.refl _
  · exact henters.log ▸ List.subset_cons_self _ _

theorem Step.of_subset (h : c.Step c') (ticket : Nat) : c.log.of ticket ⊆ c'.log.of ticket := by
  rcases h.enters with hlog | ⟨entry, henters⟩
  · exact hlog ▸ List.Subset.refl _
  · exact henters.log ▸ Log.of_subset_append [entry] _ ticket

theorem Reaches.of_subset (h : c.Reaches c') (ticket : Nat) :
    c.log.of ticket ⊆ c'.log.of ticket := by
  induction h with
  | refl => exact List.Subset.refl _
  | tail _ hstep ih => exact List.Subset.trans ih (hstep.of_subset ticket)

/-- An entry was there before, or a step on the way made it. -/
theorem Reaches.entered (h : c.Reaches c') (hentry : entry ∈ c'.log) :
    entry ∈ c.log ∨ ∃ d d', c.Reaches d ∧ d.Enters entry d' ∧ d'.Reaches c' := by
  induction h with
  | refl => exact Or.inl hentry
  | @tail d d' hreaches hstep ih =>
    have hold (hentry : entry ∈ d.log) :
        entry ∈ c.log ∨ ∃ e e', c.Reaches e ∧ e.Enters entry e' ∧ e'.Reaches d' :=
      (ih hentry).imp_right fun ⟨e, e', hbefore, henters, hafter⟩ ↦
        ⟨e, e', hbefore, henters, hafter.tail hstep⟩
    rcases hstep.enters with hlog | ⟨made, henters⟩
    · exact hold (hlog ▸ hentry)
    · rcases List.mem_cons.mp (henters.log ▸ hentry) with rfl | hmem
      · exact Or.inr ⟨d, d', hreaches, henters, .refl⟩
      · exact hold hmem

theorem Reachable.entered (h : c.Reachable) (hentry : entry ∈ c.log) :
    ∃ d d' : Chronicle, d.Reachable ∧ d.Enters entry d' ∧ d'.Reaches c :=
  (Reaches.entered h hentry).resolve_left List.not_mem_nil

theorem Enters.of_subset (h : c.Enters entry c') (hafter : c'.Reaches c'') (ticket : Nat) :
    c.log.of ticket ⊆ c''.log.of ticket :=
  List.Subset.trans (h.step.of_subset ticket) (hafter.of_subset ticket)

/-- Requests were allowed when they were made. -/
theorem Reachable.allows (h : c.Reachable) {request : Request}
    (hentry : ⟨ticket, job, .asked request⟩ ∈ c.log ∨
      ∃ answer, ⟨ticket, job, .answered request answer⟩ ∈ c.log) :
    ∃ history, history ⊆ c.log.of ticket ∧ job.Allows history request := by
  rcases hentry with hasked | ⟨answer, hanswered⟩
  · obtain ⟨d, d', -, henters, hafter⟩ := h.entered hasked
    exact ⟨_, henters.of_subset hafter ticket, henters.admits⟩
  · obtain ⟨d, d', -, henters, hafter⟩ := h.entered hanswered
    obtain ⟨history, _, hhistory, hallows, -⟩ := henters.admits
    have hsub : history ⊆ d.log.of ticket := hhistory ▸ List.subset_cons_self _ _
    exact ⟨history, List.Subset.trans hsub (henters.of_subset hafter ticket), hallows⟩

/-- What happens, happens to a call that has not ended. -/
theorem Enters.isOpen (h : c.Enters entry c') : c.log.Open entry.ticket entry.job := by
  obtain ⟨hstep, hlog, -⟩ := h
  cases hstep with
  | start ticket job hnil =>
    obtain ⟨rfl, -⟩ := List.cons.inj hlog
    exact Log.open_of_nil hnil job
  | ask hopen _ | answer hopen _ _ _ | finish hopen _ =>
    obtain ⟨rfl, -⟩ := List.cons.inj hlog
    exact hopen
  | weather _ _ => exact absurd hlog.symm (List.cons_ne_self _ _)

/-- A call does one job. -/
theorem Reachable.job_unique (h : c.Reachable) {other : Entry} (hentry : entry ∈ c.log)
    (hother : other ∈ c.log) (hticket : entry.ticket = other.ticket) : entry.job = other.job := by
  induction h with
  | refl => cases hentry
  | tail _ hstep ih =>
    rcases hstep.enters with hlog | ⟨made, henters⟩
    · exact ih (hlog ▸ hentry) (hlog ▸ hother)
    · rcases List.mem_cons.mp (henters.log ▸ hentry) with rfl | hold
      · rcases List.mem_cons.mp (henters.log ▸ hother) with rfl | hold'
        · rfl
        · exact (henters.isOpen.of_mem hold' hticket.symm).1.symm
      · rcases List.mem_cons.mp (henters.log ▸ hother) with rfl | hold'
        · exact (henters.isOpen.of_mem hold hticket).1
        · exact ih hold hold'

/-- Every answer has its request before it. -/
theorem Reachable.asked_of_answered (h : c.Reachable) {history : History}
    (hsuffix : history <:+ c.log.of ticket) {request : Request} {answer : request.Answer}
    (hanswered : .answered request answer ∈ history) : .asked request ∈ history := by
  induction h generalizing history with
  | refl => cases List.suffix_nil.mp hsuffix ▸ hanswered
  | @tail c _ _ hstep ih =>
    rcases hstep.enters with hlog | ⟨⟨other, job, event⟩, henters⟩
    · exact ih (hlog ▸ hsuffix) hanswered
    rw [henters.log] at hsuffix
    by_cases hother : other = ticket
    · subst hother
      rw [Log.of_cons_self] at hsuffix
      rcases List.suffix_cons_iff.mp hsuffix with rfl | hearlier
      · rcases List.mem_cons.mp hanswered with rfl | hold
        · obtain ⟨earlier, _, hasked, -⟩ := henters.admits
          exact List.mem_cons_of_mem _ (hasked ▸ List.mem_cons_self)
        · exact List.mem_cons_of_mem _ (ih (List.suffix_refl _) hold)
      · exact ih hearlier hanswered
    · rw [Log.of_cons_of_ne (by exact hother)] at hsuffix
      exact ih hsuffix hanswered

/-- Nothing happens to a call that has ended. -/
theorem Reaches.of_eq (h : c.Reaches c') {event : Event} (hended : ⟨ticket, job, event⟩ ∈ c.log)
    (hevent : event.IsEnd) : c'.log.of ticket = c.log.of ticket ∧ ⟨ticket, job, event⟩ ∈ c'.log := by
  induction h with
  | refl => exact ⟨rfl, hended⟩
  | tail _ hstep ih =>
    obtain ⟨hsame, hended⟩ := ih
    refine ⟨?_, hstep.log_subset hended⟩
    rcases hstep.enters with hlog | ⟨made, henters⟩
    · rw [hlog, hsame]
    · have hne : made.ticket ≠ ticket := fun heq ↦
        (henters.isOpen.of_mem hended heq.symm).2 hevent
      rw [henters.log, Log.of_cons_of_ne hne, hsame]

/-- A call that ended has done its task, its outcome says what happened to it, and it ended
once. -/
theorem Reachable.ended (h : c.Reachable) {task : Task} {outcome : Outcome task.Answer}
    (hended : ⟨ticket, job, .ended task outcome⟩ ∈ c.log) :
    ∃ history, c.log.of ticket = .ended task outcome :: history ∧ task = job.task ∧
      task.Concludes history outcome ∧ ∀ event ∈ history, ¬ event.IsEnd := by
  obtain ⟨d, d', -, henters, hafter⟩ := h.entered hended
  have hmade : ⟨ticket, job, .ended task outcome⟩ ∈ d'.log := henters.log ▸ List.mem_cons_self
  have htask : task = job.task := by
    obtain ⟨hstep, hlog, -⟩ := henters
    cases hstep with
    | start _ _ _ | ask _ _ | answer _ _ _ _ => cases (List.cons.inj hlog).1
    | finish _ _ =>
      cases (List.cons.inj hlog).1
      rfl
    | weather _ _ => exact absurd hlog.symm (List.cons_ne_self _ _)
  refine ⟨d.log.of ticket, ?_, htask, henters.admits, fun event hevent ↦ ?_⟩
  · rw [(hafter.of_eq hmade trivial).1, henters.log, Log.of_cons_self]
  · obtain ⟨_, hentry⟩ := Log.mem_of.mp hevent
    exact (henters.isOpen.of_mem hentry rfl).2

/-- The outcome of a call that ended says what happened to it. -/
theorem Reachable.concludes (h : c.Reachable) {task : Task} {outcome : Outcome task.Answer}
    (hended : ⟨ticket, job, .ended task outcome⟩ ∈ c.log) :
    ∃ history, history ⊆ c.log.of ticket ∧ task.Concludes history outcome := by
  obtain ⟨history, hlog, -, hconcludes, -⟩ := h.ended hended
  exact ⟨history, hlog ▸ List.subset_cons_self _ _, hconcludes⟩

end Chronicle

/-! ## Runs have chronicles -/

/-- The rest of a call follows its rule. -/
def Progress.Follows (job : Job) (history : History) :
    Progress (Outcome job.task.Answer) → Prop
  | .running call => call.Follows job.Allows job.task.Concludes history
  | .awaiting request next =>
    ∃ earlier, history = .asked request :: earlier ∧ job.Allows earlier request ∧
      ∀ answer, (next answer).Follows job.Allows job.task.Concludes
        (History.exchange earlier request answer)
  | .orphaned request => ∃ earlier, history = .asked request :: earlier ∧ job.Allows earlier request

namespace Run

namespace State

/-- What a state says without its calls. -/
def chronicle (s : State) : Chronicle := ⟨s.store, s.log⟩

/-- Every call on its way follows its rule and has not ended, and the next ticket is new. -/
structure Lawful (s : State) : Prop where
  follows : ∀ ticket flight, s.flights ticket = some flight →
    flight.progress.Follows flight.job (s.log.of ticket)
  ongoing : ∀ ticket flight, s.flights ticket = some flight → s.log.Open ticket flight.job
  fresh : ∀ ticket, s.next ≤ ticket → s.flights ticket = none ∧ s.log.of ticket = []

theorem lawful_initial : ({} : State).Lawful where
  follows _ _ h := nomatch h
  ongoing _ _ h := nomatch h
  fresh _ _ := ⟨rfl, rfl⟩

theorem Lawful.lt_next {s : State} (hs : s.Lawful) {ticket : Nat} {flight : Flight}
    (h : s.flights ticket = some flight) : ticket < s.next := by
  rcases Nat.lt_or_ge ticket s.next with hlt | hle
  · exact hlt
  · rw [(hs.fresh ticket hle).1] at h
    cases h

/-- Only the call that a step is about has to be looked at. -/
theorem Lawful.change {s s' : State} (hs : s.Lawful) {ticket : Nat} (hnext : s.next ≤ s'.next)
    (hticket : ticket < s'.next)
    (hothers : ∀ other, other ≠ ticket →
      s'.flights other = s.flights other ∧ s'.log.entries other = s.log.entries other)
    (hcall : ∀ flight, s'.flights ticket = some flight →
      flight.progress.Follows flight.job (s'.log.of ticket) ∧ s'.log.Open ticket flight.job) :
    s'.Lawful where
  follows other flight hflight := by
    by_cases heq : other = ticket
    · subst heq
      exact (hcall flight hflight).1
    · rw [(hothers other heq).1] at hflight
      rw [Log.of_congr (hothers other heq).2]
      exact hs.follows other flight hflight
  ongoing other flight hflight := by
    by_cases heq : other = ticket
    · subst heq
      exact (hcall flight hflight).2
    · rw [(hothers other heq).1] at hflight
      rw [Log.Open, (hothers other heq).2]
      exact hs.ongoing other flight hflight
  fresh other hle := by
    have hne : other ≠ ticket := by omega
    rw [(hothers other hne).1, Log.of_congr (hothers other hne).2]
    exact hs.fresh other (Nat.le_trans hnext hle)

/-- A call goes on, and something is logged of it. -/
theorem Lawful.advance {s s' : State} (hs : s.Lawful) {ticket : Nat} {job : Job}
    {progress : Progress (Outcome job.task.Answer)} {event : Event} (hnext : s.next ≤ s'.next)
    (hticket : ticket < s'.next)
    (hflights : s'.flights = Function.update s.flights ticket (some ⟨job, progress⟩))
    (hlog : s'.log = ⟨ticket, job, event⟩ :: s.log) (hopen : s.log.Open ticket job)
    (hevent : ¬ event.IsEnd) (hfollows : progress.Follows job (event :: s.log.of ticket)) :
    s'.Lawful := by
  refine hs.change hnext hticket (fun other hne ↦ ?_) fun flight hflight ↦ ?_
  · rw [hflights, hlog, Function.update_of_ne hne, Log.entries_cons_of_ne hne.symm]
    exact ⟨rfl, rfl⟩
  · rw [hflights, Function.update_self] at hflight
    cases hflight
    rw [hlog, Log.of_cons_self]
    exact ⟨hfollows, hopen.cons hevent⟩

/-- A call is gone. -/
theorem Lawful.forget {s s' : State} (hs : s.Lawful) {ticket : Nat} (hnext : s'.next = s.next)
    (hticket : ticket < s.next) (hflights : s'.flights = Function.update s.flights ticket none)
    (hlog : ∀ other, other ≠ ticket → s'.log.entries other = s.log.entries other) : s'.Lawful := by
  refine hs.change (Nat.le_of_eq hnext.symm) (hnext ▸ hticket) (fun other hne ↦ ?_)
    fun flight hflight ↦ ?_
  · rw [hflights, Function.update_of_ne hne]
    exact ⟨rfl, hlog other hne⟩
  · rw [hflights, Function.update_self] at hflight
    cases hflight

end State

/-- A step is a step of the chronicle, or leaves it alone. -/
theorem Step.chronicle {s s' : State} (hs : s.Lawful) (h : Step s s') :
    s.chronicle.Step s'.chronicle ∨ s'.chronicle = s.chronicle := by
  cases h with
  | start job => exact Or.inl (.start _ _ (hs.fresh s.next (Nat.le_refl _)).2)
  | ask hflight =>
    exact Or.inl (.ask (hs.ongoing _ _ hflight) (hs.follows _ _ hflight).1)
  | answer hflight _ hreacts =>
    obtain ⟨earlier, hhistory, hallows, -⟩ := hs.follows _ _ hflight
    exact Or.inl (.answer (hs.ongoing _ _ hflight) hhistory hallows hreacts)
  | finish hflight => exact Or.inl (.finish (hs.ongoing _ _ hflight) (hs.follows _ _ hflight))
  | drop => exact Or.inr rfl
  | orphan => exact Or.inr rfl
  | settle hflight hreacts =>
    obtain ⟨earlier, hhistory, hallows⟩ := hs.follows _ _ hflight
    exact Or.inl (.answer (hs.ongoing _ _ hflight) hhistory hallows hreacts)
  | crash => exact Or.inr rfl
  | weather disturbance outage => exact Or.inl (.weather _ _)

/-- The rules are followed for good. -/
theorem Step.lawful {s s' : State} (hs : s.Lawful) (h : Step s s') : s'.Lawful := by
  cases h with
  | start job =>
    have hnil := (hs.fresh s.next (Nat.le_refl _)).2
    refine hs.advance (Nat.le_succ _) (Nat.lt_succ_self _) rfl rfl (Log.open_of_nil hnil job) id ?_
    rw [hnil]
    exact job.follows
  | ask hflight =>
    obtain ⟨hallows, hnext⟩ := hs.follows _ _ hflight
    exact hs.advance (Nat.le_refl _) (hs.lt_next hflight) rfl rfl (hs.ongoing _ _ hflight) id
      ⟨_, rfl, hallows, hnext⟩
  | answer hflight _ _ =>
    obtain ⟨earlier, hhistory, -, hnext⟩ := hs.follows _ _ hflight
    refine hs.advance (Nat.le_refl _) (hs.lt_next hflight) rfl rfl (hs.ongoing _ _ hflight) id ?_
    rw [hhistory]
    exact hnext _
  | finish hflight =>
    exact hs.forget rfl (hs.lt_next hflight) rfl fun other hne ↦ Log.entries_cons_of_ne hne.symm
  | drop hflight => exact hs.forget rfl (hs.lt_next hflight) rfl fun _ _ ↦ rfl
  | @orphan ticket job request next hflight =>
    obtain ⟨earlier, hhistory, hallows, -⟩ := hs.follows _ _ hflight
    have hopen := hs.ongoing _ _ hflight
    refine hs.change (Nat.le_refl _) (hs.lt_next hflight)
      (fun other hne ↦ ⟨Function.update_of_ne hne _ _, rfl⟩) fun flight h ↦ ?_
    cases (Function.update_self ticket _ s.flights).symm.trans h
    exact ⟨⟨earlier, hhistory, hallows⟩, hopen⟩
  | settle hflight _ =>
    exact hs.forget rfl (hs.lt_next hflight) rfl fun other hne ↦ Log.entries_cons_of_ne hne.symm
  | crash =>
    constructor
    · intro ticket flight hflight
      cases hflight
    · intro ticket flight hflight
      cases hflight
    · intro ticket hle
      exact ⟨rfl, (hs.fresh ticket hle).2⟩
  | weather disturbance outage => exact ⟨hs.follows, hs.ongoing, hs.fresh⟩

/-- A call that is over was started and is not on its way any more. -/
def State.Over (s : State) (ticket : Nat) : Prop := ticket < s.next ∧ s.flights ticket = none

/-- A call has come to its outcome. -/
def State.Ended (s : State) (ticket : Nat) : Prop :=
  ∃ job task outcome, ⟨ticket, job, .ended task outcome⟩ ∈ s.log

theorem State.ended_of_isEnd {s : State} {ticket : Nat} {event : Event}
    (h : event ∈ s.log.of ticket) (hend : event.IsEnd) : s.Ended ticket := by
  obtain ⟨job, hentry⟩ := Log.mem_of.mp h
  cases event with
  | ended task outcome => exact ⟨job, task, outcome, hentry⟩
  | started | asked _ | answered _ _ => exact hend.elim

/-- Nothing happens to a call that is over. -/
theorem Step.over {s s' : State} (h : Step s s') {ticket : Nat} (hover : s.Over ticket) :
    s'.Over ticket ∧ s'.log.of ticket = s.log.of ticket := by
  obtain ⟨hlt, hnone⟩ := hover
  have hne {other : Nat} {flight : Flight} (hflight : s.flights other = some flight) :
      other ≠ ticket := by
    rintro rfl
    rw [hnone] at hflight
    cases hflight
  cases h with
  | start job =>
    have hne : s.next ≠ ticket := by omega
    exact ⟨⟨Nat.lt_succ_of_lt hlt, (Function.update_of_ne hne.symm _ _).trans hnone⟩,
      Log.of_cons_of_ne hne⟩
  | ask hflight | answer hflight _ _ | finish hflight | settle hflight _ =>
    exact ⟨⟨hlt, (Function.update_of_ne (hne hflight).symm _ _).trans hnone⟩,
      Log.of_cons_of_ne (hne hflight)⟩
  | drop hflight | orphan hflight =>
    exact ⟨⟨hlt, (Function.update_of_ne (hne hflight).symm _ _).trans hnone⟩, rfl⟩
  | crash => exact ⟨⟨hlt, rfl⟩, rfl⟩
  | weather _ _ => exact ⟨⟨hlt, hnone⟩, rfl⟩

theorem Reaches.lawful {s s' : State} (hs : s.Lawful) (h : Reaches s s') : s'.Lawful := by
  induction h with
  | refl => exact hs
  | tail _ hstep ih => exact hstep.lawful ih

theorem Reachable.lawful {s : State} (h : Reachable s) : s.Lawful :=
  Reaches.lawful State.lawful_initial h

theorem Reaches.chronicle {s s' : State} (hs : s.Lawful) (h : Reaches s s') :
    s.chronicle.Reaches s'.chronicle := by
  induction h with
  | refl => exact .refl
  | tail hreaches hstep ih =>
    rcases hstep.chronicle (Reaches.lawful hs hreaches) with h | h
    · exact ih.tail h
    · rwa [h]

/-- Every run has a chronicle. -/
theorem Reachable.chronicle {s : State} (h : Reachable s) : s.chronicle.Reachable :=
  Reaches.chronicle State.lawful_initial h

end Run

end PieceKeeper
