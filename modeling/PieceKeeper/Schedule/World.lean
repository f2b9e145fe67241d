import PieceKeeper.Depot
import PieceKeeper.Ledger.Endpoint
import PieceKeeper.Ledger.Script
import PieceKeeper.Locks

/-!
# The world of running calls

Running calls share a depot, a ledger, their locks and a clock.  A call runs until it has its
answer or has to wait; what it then waits for is told apart from the rest of the call.
-/

namespace PieceKeeper

/-- A ledger at the other end of a wire. -/
structure Remote where
  endpoint : Endpoint
  wire : Wire

/-- What running calls share. -/
structure World where
  depot : Depot
  script : Script := {}
  /-- The ledger that answers in place of the script. -/
  remote : Option Remote := none
  locks : Locks LockKey := {}
  /-- Milliseconds since the start. -/
  clock : Nat := 0

namespace World

/-- Overwrites a cell of the table. -/
def correct (world : World) : Option Correction → World
  | none => world
  | some correction =>
    { world with
      depot.table :=
        world.depot.table.overwrite correction.id correction.column correction.cell }

/-- How many milliseconds a submission takes. -/
def submitDelay (world : World) : Nat :=
  if world.remote.isSome then 0 else world.script.submitDelay

/-- How many milliseconds a question takes. -/
def lookupDelay (world : World) : Nat :=
  if world.remote.isSome then 0 else world.script.lookupDelay

/-- The ledger's answer to a submission, after its delay. -/
def submit (world : World) (proofSet : UInt64) (root : Root) : Outcome String × World :=
  match world.remote with
  | some { endpoint, wire } =>
    let (answer, wire) := endpoint.submit wire proofSet root
    (answer, { world with remote := some { endpoint, wire } })
  | none =>
    let world := world.correct world.script.onSubmit
    let (answer, script) := world.script.submit proofSet root
    (answer, { world with script })

/-- Logs a question that begins. -/
def note (world : World) (hash : String) : World :=
  if world.remote.isSome then world else { world with script := world.script.note hash }

/-- The ledger's answer to a question, after its delay. -/
def lookup (world : World) (hash : String) : Outcome (Option TransactionRecord) × World :=
  match world.remote with
  | some { endpoint, wire } =>
    let (answer, wire) := endpoint.lookup wire hash
    (answer, { world with remote := some { endpoint, wire } })
  | none =>
    let world := world.correct world.script.onLookup
    (world.script.lookup hash, world)

end World

/-- A call at the point where it goes on. -/
inductive Resumption (α : Type) where
  | go (call : Call α)
  /-- The ledger's delay is over. -/
  | submitted (proofSet : UInt64) (root : Root) (next : Outcome String → Call α)
  /-- The ledger's delay is over. -/
  | lookedUp (hash : String) (next : Outcome (Option TransactionRecord) → Call α)

/-- How a call stops running. -/
inductive Stop (α : Type) where
  | answered (answer : α)
  /-- It lets others go first. -/
  | paused (rest : Call α)
  /-- It waits for a lock. -/
  | locked (rest : Call α)
  /-- It waits for some milliseconds. -/
  | asleep (milliseconds : Nat) (rest : Resumption α)

/-- A call that stopped, the world it leaves, and the tickets that got a lock meanwhile. -/
structure Slice (α : Type) where
  stop : Stop α
  world : World
  granted : List Nat := []

/-- Adds tickets that got a lock before. -/
def Slice.after {α : Type} (slice : Slice α) (ticket : Option Nat) : Slice α :=
  match ticket with
  | none => slice
  | some ticket => { slice with granted := ticket :: slice.granted }

namespace Call

/-- Runs a call on behalf of a ticket until it stops. -/
def run {α : Type} (ticket : Nat) : Call α → World → Slice α
  | .done answer, world => ⟨.answered answer, world, []⟩
  | .ask (.table command) next, world =>
    let (answer, depot) := world.depot.runTable command
    run ticket (next answer) { world with depot }
  | .ask (.shelf command) next, world =>
    let (answer, depot) := world.depot.runShelf command
    run ticket (next answer) { world with depot }
  | .ask (.findFile path) next, world => run ticket (next (world.depot.files.find path)) world
  | .ask (.readFile path) next, world => run ticket (next (world.depot.files.read path)) world
  | .ask .now next, world => run ticket (next world.depot.now) world
  | .ask .freshId next, world =>
    run ticket (next (Depot.name world.depot.named))
      { world with depot.named := world.depot.named + 1 }
  | .ask (.acquire key) next, world =>
    let world := { world with locks := world.locks.request key ticket }
    if world.locks.holds ticket then run ticket (next ()) world
    else ⟨.locked (next ()), world, []⟩
  | .ask (.release _) next, world =>
    let (locks, heir) := world.locks.release ticket
    (run ticket (next ()) { world with locks }).after heir
  | .ask .pause next, world => ⟨.paused (next ()), world, []⟩
  | .ask (.sleep milliseconds) next, world =>
    if milliseconds = 0 then run ticket (next ()) world
    else ⟨.asleep milliseconds (.go (next ())), world, []⟩
  | .ask .clock next, world => run ticket (next world.clock) world
  | .ask (.submit proofSet root) next, world =>
    if world.submitDelay = 0 then
      let (answer, world) := world.submit proofSet root
      run ticket (next answer) world
    else ⟨.asleep world.submitDelay (.submitted proofSet root next), world, []⟩
  | .ask (.lookup hash) next, world =>
    let world := world.note hash
    if world.lookupDelay = 0 then
      let (answer, world) := world.lookup hash
      run ticket (next answer) world
    else ⟨.asleep world.lookupDelay (.lookedUp hash next), world, []⟩

end Call

/-- Goes on where a call stopped. -/
def Resumption.run {α : Type} (ticket : Nat) : Resumption α → World → Slice α
  | .go call, world => call.run ticket world
  | .submitted proofSet root next, world =>
    let (answer, world) := world.submit proofSet root
    (next answer).run ticket world
  | .lookedUp hash next, world =>
    let (answer, world) := world.lookup hash
    (next answer).run ticket world

end PieceKeeper
