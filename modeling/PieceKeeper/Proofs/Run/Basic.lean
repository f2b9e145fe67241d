import Mathlib.Logic.Function.Basic
import Mathlib.Logic.Relation
import PieceKeeper.Locks
import PieceKeeper.Manager

/-!
# Runs of many calls

Calls of any number of managers run beside each other over one table and one shelf.  A step lets
one call make its next request, or lets the surroundings answer one request, so calls interleave
at every request and between a request and its answer.  At any step a call may be given up, the
process may crash, a write may fail, and whatever lies outside the table and the shelf — the
ledger, the files, the time — may answer anything.

A request that was made may still take effect after its call was given up: the operating system
finishes what it was asked to do.  Such a request is kept as an orphan.

What happens is logged, the latest first, so that a property of a run is a property of the log and
of the store that it leads to.
-/

namespace PieceKeeper

/-! ## Jobs -/

/-- What a manager can be asked to do. -/
inductive Task where
  | prepare (source : Source)
  | upload (id : String) (body : Bytes)
  | uploadFromSource (id : String)
  | submit (id : String) (proofSet : UInt64)
  | monitor (id : String)
  | reconcile
  | get (id : String)
  | list (limit : Option UInt64)
  | content (id : String)

/-- What a task is answered with. -/
abbrev Task.Answer : Task → Type
  | .prepare _ | .upload _ _ | .uploadFromSource _ | .submit _ _ | .get _ => Piece
  | .monitor _ => Piece × Finding
  | .reconcile => Report
  | .list _ => List Piece
  | .content _ => Bytes

/-- A task and the manager that is asked to do it. -/
structure Job where
  manager : Manager
  task : Task

/-- The operation that does a task. -/
def Manager.perform (manager : Manager) : (task : Task) → Attempt task.Answer
  | .prepare source => manager.prepare source
  | .upload id body => manager.upload id body
  | .uploadFromSource id => manager.uploadFromSource id
  | .submit id proofSet => manager.submit id proofSet
  | .monitor id => manager.monitor id
  | .reconcile => manager.reconcile
  | .get id => manager.get id
  | .list limit => manager.list limit
  | .content id => manager.content id

/-- The call that does a job. -/
def Job.call (job : Job) : Call (Outcome job.task.Answer) := (job.manager.perform job.task).run

/-! ## The log -/

/-- What happens to a call. -/
inductive Event where
  | started
  | asked (request : Request)
  | answered (request : Request) (answer : request.Answer)
  | ended (task : Task) (outcome : Outcome task.Answer)

/-- What happened to one call, the latest first. -/
abbrev History := List Event

/-- Adds a request and its answer. -/
def History.exchange (history : History) (request : Request) (answer : request.Answer) : History :=
  .answered request answer :: .asked request :: history

@[simp] theorem History.mem_exchange {history : History} {request : Request}
    {answer : request.Answer} {event : Event} :
    event ∈ history.exchange request answer ↔
      event = .answered request answer ∨ event = .asked request ∨ event ∈ history := by
  rw [exchange, List.mem_cons, List.mem_cons]

theorem History.subset_exchange (history : History) (request : Request) (answer : request.Answer) :
    history ⊆ history.exchange request answer :=
  fun _ h ↦ mem_exchange.mpr (Or.inr (Or.inr h))

/-- An event and the call that it happened to. -/
structure Entry where
  ticket : Nat
  job : Job
  event : Event

/-- What happened, the latest first. -/
abbrev Log := List Entry

/-- What happened to the call with a ticket. -/
def Log.of (log : Log) (ticket : Nat) : History :=
  (log.filter (·.ticket = ticket)).map (·.event)

namespace Log

variable {log : Log} {ticket : Nat}

@[simp] theorem of_cons_self (log : Log) (ticket : Nat) (job : Job) (event : Event) :
    of (⟨ticket, job, event⟩ :: log) ticket = event :: log.of ticket := by
  simp [of]

theorem of_cons_of_ne {entry : Entry} (h : entry.ticket ≠ ticket) :
    of (entry :: log) ticket = log.of ticket := by
  simp [of, h]

/-- An event is the last of its call, or it happened before. -/
theorem mem_of_cons {entry : Entry} {event : Event} (h : event ∈ of (entry :: log) ticket) :
    entry.ticket = ticket ∧ entry.event = event ∨ event ∈ log.of ticket := by
  by_cases heq : entry.ticket = ticket
  · subst heq
    rw [of_cons_self] at h
    exact (List.mem_cons.mp h).imp (fun h ↦ ⟨rfl, h.symm⟩) fun h ↦ h
  · rw [of_cons_of_ne heq] at h
    exact Or.inr h

theorem of_append (new log : Log) (ticket : Nat) :
    of (new ++ log) ticket = new.of ticket ++ log.of ticket := by
  simp [of]

theorem of_subset_append (new log : Log) (ticket : Nat) :
    log.of ticket ⊆ of (new ++ log) ticket := by
  rw [of_append]
  exact List.subset_append_right _ _

theorem mem_of {event : Event} : event ∈ log.of ticket ↔ ∃ job, ⟨ticket, job, event⟩ ∈ log := by
  constructor
  · intro h
    obtain ⟨⟨other, job, _⟩, hfilter, rfl⟩ := List.mem_map.mp h
    obtain ⟨hmem, hticket⟩ := List.mem_filter.mp hfilter
    obtain rfl : other = ticket := by simpa using hticket
    exact ⟨job, hmem⟩
  · rintro ⟨job, hmem⟩
    exact List.mem_map.mpr ⟨_, List.mem_filter.mpr ⟨hmem, by simp⟩, rfl⟩

end Log

/-! ## The store -/

/-- What outlives the calls. -/
structure Store where
  table : Table := {}
  shelf : Shelf := {}

/-- How a command to the shelf can fail.  A failed write can leave a draft with any content. -/
inductive Shelf.Fails (shelf : Shelf) : (command : Shelf.Command) → command.Answer → Shelf → Prop
  | makePlace (key : String) (failure : FileFailure) :
    Fails shelf (.makePlace key) (.error failure) shelf
  | create (draft : Nat) (key : String) (content : Bytes) (failure : FileFailure) :
    Fails shelf (.writeDraft draft key content) (.error failure) shelf
  | writeDraft (draft : Nat) (key : String) (content left : Bytes) (failure : FileFailure) :
    Fails shelf (.writeDraft draft key content) (.error failure)
      { shelf with drafts := (draft, left) :: shelf.drafts }
  | discard (draft : Nat) (failure : FileFailure) :
    Fails shelf (.discard draft) (.error failure) shelf
  | publish (draft : Nat) (key : String) (failure : FileFailure) :
    Fails shelf (.publish draft key) (.error failure) shelf
  | read (key : String) (failure : FileFailure) : Fails shelf (.read key) (.error failure) shelf

/-- Whether a request goes neither to the table nor to the shelf. -/
def Request.IsOutside : Request → Prop
  | .table _ | .shelf _ => False
  | _ => True

/-- How a request can be answered, and what the answer leaves of the store. -/
inductive Store.Reacts (store : Store) : (request : Request) → request.Answer → Store → Prop
  | table (command : Table.Command) :
    Reacts store (.table command) (store.table.run command).1
      { store with table := (store.table.run command).2 }
  | shelf (command : Shelf.Command) :
    Reacts store (.shelf command) (store.shelf.run command).1
      { store with shelf := (store.shelf.run command).2 }
  | shelfFails {command : Shelf.Command} {answer : command.Answer} {shelf : Shelf} :
    store.shelf.Fails command answer shelf →
      Reacts store (.shelf command) answer { store with shelf }
  | outside (request : Request) (answer : request.Answer) :
    request.IsOutside → Reacts store request answer store

/-! ## The locks -/

namespace Locks

/-- Lines up for a lock when one is asked for. -/
def hear (locks : Locks LockKey) (ticket : Nat) : Request → Locks LockKey
  | .acquire key => locks.request key ticket
  | _ => locks

/-- Whether a request need not wait for a lock any more. -/
def Grants (locks : Locks LockKey) (ticket : Nat) : Request → Prop
  | .acquire _ => locks.holds ticket
  | _ => True

/-- Gives back a lock when that is asked for. -/
def answer (locks : Locks LockKey) (ticket : Nat) : Request → Locks LockKey
  | .release _ => (locks.release ticket).1
  | _ => locks

/-- Gives back what a call holds that was given up, and its places in the lines. -/
def leave (locks : Locks LockKey) (ticket : Nat) : Locks LockKey :=
  ((locks.cancel ticket).release ticket).1

end Locks

/-! ## Steps -/

/-- How far a call has come. -/
inductive Progress (α : Type) where
  /-- It is about to make a request, or to end. -/
  | running (call : Call α)
  /-- It made a request and goes on with the answer. -/
  | awaiting (request : Request) (next : request.Answer → Call α)
  /-- It was given up, but its request may still take effect. -/
  | orphaned (request : Request)

/-- A call on its way. -/
structure Flight where
  job : Job
  progress : Progress (Outcome job.task.Answer)

namespace Run

/-- A state of a run: nothing is there in the beginning. -/
structure State where
  store : Store := {}
  locks : Locks LockKey := {}
  /-- The calls on their way, by their tickets. -/
  flights : Nat → Option Flight := fun _ ↦ none
  /-- The ticket of the next call. -/
  next : Nat := 0
  log : Log := []

namespace State

/-- Logs an event. -/
def note (s : State) (ticket : Nat) (job : Job) (event : Event) : State :=
  { s with log := ⟨ticket, job, event⟩ :: s.log }

/-- Sets how far a call has come. -/
def advance (s : State) (ticket : Nat) (job : Job) (progress : Progress (Outcome job.task.Answer)) :
    State :=
  { s with flights := Function.update s.flights ticket (some ⟨job, progress⟩) }

/-- Forgets a call. -/
def forget (s : State) (ticket : Nat) : State :=
  { s with flights := Function.update s.flights ticket none }

end State

/-- What can happen next. -/
inductive Step (s : State) : State → Prop
  /-- Some manager is asked to do something. -/
  | start (job : Job) :
    Step s ({ s with next := s.next + 1 }.advance s.next job (.running job.call) |>.note
      s.next job .started)
  /-- A call makes its next request. -/
  | ask {ticket : Nat} {job : Job} {request : Request}
      {next : request.Answer → Call (Outcome job.task.Answer)} :
    s.flights ticket = some ⟨job, .running (.ask request next)⟩ →
      Step s ({ s with locks := s.locks.hear ticket request }.advance ticket job
        (.awaiting request next) |>.note ticket job (.asked request))
  /-- A request is answered. -/
  | answer {ticket : Nat} {job : Job} {request : Request}
      {next : request.Answer → Call (Outcome job.task.Answer)} {answer : request.Answer}
      {store : Store} :
    s.flights ticket = some ⟨job, .awaiting request next⟩ → s.locks.Grants ticket request →
      s.store.Reacts request answer store →
      Step s ({ s with store, locks := s.locks.answer ticket request }.advance ticket job
        (.running (next answer)) |>.note ticket job (.answered request answer))
  /-- A call ends with its outcome. -/
  | finish {ticket : Nat} {job : Job} {outcome : Outcome job.task.Answer} :
    s.flights ticket = some ⟨job, .running (.done outcome)⟩ →
      Step s ((s.forget ticket).note ticket job (.ended job.task outcome))
  /-- A call is given up. -/
  | drop {ticket : Nat} {flight : Flight} :
    s.flights ticket = some flight →
      Step s { s.forget ticket with locks := s.locks.leave ticket }
  /-- A call is given up, but not what it asked for. -/
  | orphan {ticket : Nat} {job : Job} {request : Request}
      {next : request.Answer → Call (Outcome job.task.Answer)} :
    s.flights ticket = some ⟨job, .awaiting request next⟩ →
      Step s { s.advance ticket job (.orphaned request) with locks := s.locks.leave ticket }
  /-- A request takes effect whose call was given up. -/
  | settle {ticket : Nat} {job : Job} {request : Request} {answer : request.Answer}
      {store : Store} :
    s.flights ticket = some ⟨job, .orphaned request⟩ → s.store.Reacts request answer store →
      Step s (({ s with store }.forget ticket).note ticket job (.answered request answer))
  /-- All calls are lost with their locks; the store stays. -/
  | crash : Step s { s with flights := fun _ ↦ none, locks := {} }
  /-- The table gets out of reach or comes back, and its writes begin or cease to go wrong. -/
  | weather (disturbance : Option Disturbance) (outage : Option String) :
    Step s { s with store.table := { s.store.table with disturbance, outage } }

/-- Whether one state leads to another. -/
def Reaches : State → State → Prop := Relation.ReflTransGen Step

/-- Whether a state occurs in a run. -/
def Reachable (s : State) : Prop := Reaches {} s

end Run

end PieceKeeper
