import PieceKeeper.Files
import PieceKeeper.Ledger.Transaction
import PieceKeeper.Store.Shelf
import PieceKeeper.Store.Table

/-!
# Calls

An operation is a tree: it either has its answer, or it makes a request to its surroundings
and goes on with what it is answered.  Between two requests nothing else can happen, and at
some requests the operation may have to wait while others go on; so the tree shows every point
at which operations can interleave, fail or be given up.
-/

namespace PieceKeeper

/-- The name of a lock: the group of operations that share their locks, and a piece. -/
structure LockKey where
  group : Nat
  piece : String
  deriving DecidableEq, Repr

/-- What an operation asks of its surroundings. -/
inductive Request where
  | table (command : Table.Command)
  | shelf (command : Shelf.Command)
  /-- What a path leads to. -/
  | findFile (path : String)
  | readFile (path : String)
  /-- The present. -/
  | now
  /-- A name that no piece has. -/
  | freshId
  /-- Waits for a lock and takes it. -/
  | acquire (key : LockKey)
  | release (key : LockKey)
  /-- Lets others go on. -/
  | pause
  /-- Waits for some milliseconds. -/
  | sleep (milliseconds : Nat)
  /-- The milliseconds since the start. -/
  | clock
  /-- Submits a root to the ledger, which answers with the hash of a transaction. -/
  | submit (proofSet : UInt64) (root : Root)
  /-- Asks the ledger for a transaction, which it may not know yet. -/
  | lookup (hash : String)

/-- What a request is answered with. -/
abbrev Request.Answer : Request → Type
  | .table command => Outcome command.Answer
  | .shelf command => command.Answer
  | .findFile _ => Except FileFailure FileNode
  | .readFile _ => Except FileFailure Bytes
  | .now => Instant
  | .freshId => String
  | .acquire _ | .release _ | .pause | .sleep _ => Unit
  | .clock => Nat
  | .submit _ _ => Outcome String
  | .lookup _ => Outcome (Option TransactionRecord)

/-- An operation with answers of a type. -/
inductive Call (α : Type) where
  | done (answer : α)
  | ask (request : Request) (next : request.Answer → Call α)

namespace Call

/-- Goes on with the answer of an operation. -/
def bind {α β : Type} : Call α → (α → Call β) → Call β
  | done answer, next => next answer
  | ask request rest, next => ask request fun answer ↦ (rest answer).bind next

instance : Monad Call where
  pure := done
  bind := bind

/-- Makes one request. -/
def request (r : Request) : Call r.Answer := ask r done

end Call

/-- An operation that can fail. -/
abbrev Attempt (α : Type) := ExceptT Fault Call α

namespace Attempt

/-- Makes one request that cannot fail. -/
def ask (r : Request) : Attempt r.Answer := ExceptT.lift (Call.request r)

/-- Asks the table. -/
def table (command : Table.Command) : Attempt command.Answer :=
  ExceptT.mk (Call.request (.table command))

/-- Asks the shelf. -/
def shelf (command : Shelf.Command) : Attempt command.Answer := ask (.shelf command)

/-- Stops with a cause. -/
def refuse {α : Type} (cause : Cause) : Attempt α := throw { cause }

/-- Takes over an outcome. -/
def ofOutcome {α : Type} (outcome : Outcome α) : Attempt α := ExceptT.mk (pure outcome)

/-- Takes over what the operating system answers. -/
def ofFile {α : Type} : Except FileFailure α → Attempt α
  | .ok value => pure value
  | .error failure => refuse (.io failure.message)

/-- Names the operation and the piece in the fault of an attempt. -/
def within {α : Type} (attempt : Attempt α) (operation piece : String) : Attempt α :=
  ExceptT.mk do
    match ← attempt.run with
    | .ok value => return .ok value
    | .error fault => return .error (fault.within operation piece)

/-- Makes an attempt while holding a lock. -/
def holding {α : Type} (key : LockKey) (attempt : Attempt α) : Attempt α :=
  ExceptT.mk do
    Call.request (.acquire key)
    let outcome ← attempt.run
    Call.request (.release key)
    return outcome

end Attempt

end PieceKeeper
