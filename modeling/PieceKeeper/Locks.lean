/-!
# Locks

Exclusive locks, one for each key, granted in the order in which they are asked for.  A lock
is made when it is first asked for; whenever any lock is asked for, those that nobody holds
or waits for are forgotten.
-/

namespace PieceKeeper

/-- A lock: who holds it and who waits for it, by their tickets. -/
structure Lock where
  serial : Nat
  holder : Option Nat := none
  waiting : List Nat := []
  deriving DecidableEq, Repr

/-- Whether somebody holds the lock or waits for it. -/
def Lock.inUse (lock : Lock) : Bool := lock.holder.isSome || ¬ lock.waiting.isEmpty

/-- The locks by their keys.  A key names its lock by a serial number that is never given
twice. -/
structure Locks (κ : Type) where
  entries : List (κ × Nat) := []
  locks : List Lock := []
  next : Nat := 0

namespace Locks

variable {κ : Type} [BEq κ]

/-- Whether the lock with a serial number is in use. -/
def inUse (table : Locks κ) (serial : Nat) : Bool :=
  table.locks.any fun lock ↦ lock.serial == serial && lock.inUse

/-- Forgets the locks that are not in use. -/
def prune (table : Locks κ) : Locks κ :=
  { table with
    entries := table.entries.filter fun (_, serial) ↦ table.inUse serial
    locks := table.locks.filter Lock.inUse }

/-- The serial number of the lock of a key, which is made if there is none. -/
def enter (table : Locks κ) (key : κ) : Nat × Locks κ :=
  match table.entries.lookup key with
  | some serial => (serial, table)
  | none =>
    (table.next,
      { entries := (key, table.next) :: table.entries
        locks := { serial := table.next } :: table.locks
        next := table.next + 1 })

/-- Changes the lock with a serial number. -/
def change (table : Locks κ) (serial : Nat) (f : Lock → Lock) : Locks κ :=
  { table with locks := table.locks.map fun lock ↦ if lock.serial == serial then f lock else lock }

/-- Takes a free lock, or else lines up for it. -/
def Lock.ask (lock : Lock) (ticket : Nat) : Lock :=
  if lock.inUse then { lock with waiting := lock.waiting ++ [ticket] }
  else { lock with holder := some ticket }

/-- Whether a ticket holds a lock. -/
def holds (table : Locks κ) (ticket : Nat) : Bool :=
  table.locks.any fun lock ↦ lock.holder == some ticket

/-- Asks for the lock of a key. -/
def request (table : Locks κ) (key : κ) (ticket : Nat) : Locks κ :=
  let (serial, table) := table.prune.enter key
  table.change serial fun lock ↦ Lock.ask lock ticket

/-- Hands a lock to the first who waits for it. -/
def Lock.handOver (lock : Lock) : Lock :=
  match lock.waiting with
  | [] => { lock with holder := none }
  | ticket :: waiting => { lock with holder := some ticket, waiting }

/-- Gives back the lock that a ticket holds.  The second part is the ticket that gets it. -/
def release (table : Locks κ) (ticket : Nat) : Locks κ × Option Nat :=
  match table.locks.find? fun lock ↦ lock.holder == some ticket with
  | none => (table, none)
  | some lock => (table.change lock.serial Lock.handOver, lock.waiting.head?)

/-- Gives up waiting. -/
def cancel (table : Locks κ) (ticket : Nat) : Locks κ :=
  { table with
    locks := table.locks.map fun lock ↦
      { lock with waiting := lock.waiting.filter (· != ticket) } }

end Locks

end PieceKeeper
