import PieceKeeper.Manager
import PieceKeeper.Schedule.World
import PieceKeeper.Worker

/-!
# The engine

Calls take turns: the one that has been ready longest goes on until it stops.  Time passes only
when no call is ready; then the clock goes to the next moment at which a call or a worker is
due.  Workers make their rounds beside the calls.
-/

namespace PieceKeeper

/-- A call or a round of a worker on its way.  A round has no answer for anybody. -/
structure Process (ρ : Type) where
  ticket : Nat
  rest : Resumption (Option ρ)

/-- Something that is due at a moment.  Among those due at one moment the serial number tells
which was set first. -/
structure Alarm (ρ : Type) where
  due : Nat
  serial : Nat
  process : Process ρ

/-- A worker and the manager whose pieces it looks after.  Its rounds run under its ticket. -/
structure Employment where
  ticket : Nat
  manager : Manager
  worker : Worker

/-- Calls and workers in a world. -/
structure Engine (ρ : Type) where
  world : World
  /-- Who can go on, the longest ready first. -/
  ready : List (Process ρ) := []
  /-- Who waits for a lock. -/
  parked : List (Process ρ) := []
  alarms : List (Alarm ρ) := []
  workers : List Employment := []
  answers : List (Nat × ρ) := []
  /-- The next ticket. -/
  next : Nat := 0
  /-- The serial number of the next alarm. -/
  serial : Nat := 0

namespace Engine

variable {ρ : Type}

/-- Sets an alarm. -/
def setAlarm (engine : Engine ρ) (due : Nat) (process : Process ρ) : Engine ρ :=
  { engine with
    alarms := ⟨due, engine.serial, process⟩ :: engine.alarms
    serial := engine.serial + 1 }

/-- Puts those who got a lock behind those who are ready. -/
def grant (engine : Engine ρ) (tickets : List Nat) : Engine ρ :=
  let granted := tickets.filterMap fun ticket ↦ engine.parked.find? (·.ticket == ticket)
  { engine with
    ready := engine.ready ++ granted
    parked := engine.parked.filter fun process ↦ ¬ tickets.contains process.ticket }

/-- A round of a worker as a process: whatever comes of it stays with the worker. -/
def round (employment : Employment) : Process ρ :=
  ⟨employment.ticket, .go (employment.manager.reconcile.run.bind fun _ ↦ .done none)⟩

/-- Replaces an employment. -/
def employ (engine : Engine ρ) (employment : Employment) : Engine ρ :=
  { engine with
    workers := employment :: engine.workers.filter (·.ticket != employment.ticket) }

/-- Lets a worker begin a round if one is due, or else wait for the next one. -/
def wake (engine : Engine ρ) (employment : Employment) : Engine ρ :=
  let worker := employment.worker.wake engine.world.clock
  let employment := { employment with worker }
  let engine := engine.employ employment
  match worker.phase with
  | .ended => engine
  | .inRound => { engine with ready := engine.ready ++ [round employment] }
  | .waiting => engine.setAlarm worker.due ⟨employment.ticket, .go (.done none)⟩

/-- What follows when a process under a ticket ends without an answer: its worker goes on. -/
def endRound (engine : Engine ρ) (ticket : Nat) : Engine ρ :=
  match engine.workers.find? (·.ticket == ticket) with
  | none => engine
  | some employment => engine.wake { employment with worker := employment.worker.finish }

/-- Lets a process go on until it stops. -/
def step (engine : Engine ρ) (process : Process ρ) : Engine ρ :=
  let slice := process.rest.run process.ticket engine.world
  let engine := { engine with world := slice.world }.grant slice.granted
  match slice.stop with
  | .answered (some answer) =>
    { engine with answers := (process.ticket, answer) :: engine.answers }
  | .answered none => engine.endRound process.ticket
  | .paused rest => { engine with ready := engine.ready ++ [⟨process.ticket, .go rest⟩] }
  | .locked rest => { engine with parked := ⟨process.ticket, .go rest⟩ :: engine.parked }
  | .asleep milliseconds rest =>
    engine.setAlarm (engine.world.clock + milliseconds) ⟨process.ticket, rest⟩

/-- The next moment at which something is due. -/
def nextMoment (engine : Engine ρ) : Option Nat := (engine.alarms.map (·.due)).min?

/-- Moves the clock to a moment and makes ready what is due then. -/
def passTo (engine : Engine ρ) (moment : Nat) : Engine ρ :=
  let (due, later) := engine.alarms.partition (·.due ≤ moment)
  let due := due.mergeSort fun a b ↦ a.serial ≤ b.serial
  { engine with
    world.clock := moment
    ready := engine.ready ++ due.map (·.process)
    alarms := later }

/-- Runs until a test holds or nothing can happen any more, for at most `room` steps. -/
def runUntil (test : Engine ρ → Bool) : Nat → Engine ρ → Engine ρ
  | 0, engine => engine
  | room + 1, engine =>
    if test engine then engine
    else
      match engine.ready with
      | process :: ready => runUntil test room ({ engine with ready }.step process)
      | [] =>
        match engine.nextMoment with
        | some moment => runUntil test room (engine.passTo moment)
        | none => engine

/-- Starts a call, which runs until it stops for the first time.  Returns its ticket. -/
def start (engine : Engine ρ) (call : Call ρ) : Nat × Engine ρ :=
  let ticket := engine.next
  (ticket, { engine with next := ticket + 1 }.step ⟨ticket, .go (call.bind fun answer ↦ .done (some answer))⟩)

/-- Whether a call has its answer. -/
def hasAnswered (engine : Engine ρ) (ticket : Nat) : Bool := (engine.answers.lookup ticket).isSome

/-- Runs until calls have their answers, which are taken away. -/
def await (room : Nat) (engine : Engine ρ) (tickets : List Nat) : List (Option ρ) × Engine ρ :=
  let engine := engine.runUntil (fun engine ↦ tickets.all engine.hasAnswered) room
  (tickets.map fun ticket ↦ engine.answers.lookup ticket,
    { engine with answers := engine.answers.filter fun (ticket, _) ↦ ¬ tickets.contains ticket })

/-- Starts a call and runs until it has its answer. -/
def runCall (room : Nat) (engine : Engine ρ) (call : Call ρ) : Option ρ × Engine ρ :=
  let (ticket, engine) := engine.start call
  let (answers, engine) := engine.await room [ticket]
  (answers.head?.join, engine)

/-- Starts calls in order, as if at one moment, and runs until all have their answers. -/
def runAll (room : Nat) (engine : Engine ρ) (calls : List (Call ρ)) : List (Option ρ) × Engine ρ :=
  let (tickets, engine) := calls.foldl
    (fun (tickets, engine) call ↦
      let (ticket, engine) := engine.start call
      (tickets ++ [ticket], engine)) ([], engine)
  engine.await room tickets

/-- Starts a worker.  Returns its ticket. -/
def startWorker (engine : Engine ρ) (manager : Manager) (interval : Nat) : Nat × Engine ρ :=
  let ticket := engine.next
  let worker := Worker.start interval engine.world.clock
  (ticket, { engine with next := ticket + 1 }.wake ⟨ticket, manager, worker⟩)

/-- Tells a worker to stop. -/
def signal (engine : Engine ρ) (ticket : Nat) : Engine ρ :=
  { engine with
    workers := engine.workers.map fun employment ↦
      if employment.ticket == ticket then { employment with worker := employment.worker.stop }
      else employment }

/-- Whether a worker has ended. -/
def hasEnded (engine : Engine ρ) (ticket : Nat) : Bool :=
  engine.workers.all fun employment ↦
    employment.ticket != ticket || employment.worker.phase == .ended

/-- Tells a worker to stop and waits for its end, for at most `room` steps. -/
def waitFor (room : Nat) (engine : Engine ρ) (ticket : Nat) : Engine ρ :=
  (engine.signal ticket).runUntil (fun engine ↦ engine.hasEnded ticket) room

/-- Tells a worker to stop, and returns when it has ended.  Without enough room there is no return. -/
def stopWorker (room : Nat) (engine : Engine ρ) (ticket : Nat) : Option (Engine ρ) :=
  let engine := waitFor room engine ticket
  if engine.hasEnded ticket then some engine else none

end Engine

end PieceKeeper
