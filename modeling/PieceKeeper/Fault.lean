/-!
# Faults

What can go wrong with a request: a cause with its detail, and perhaps the operation and
the piece it happened to.  The context is set by the first operation that names one, so an
operation inside another does not pile up text.
-/

namespace PieceKeeper

/-- Why a request failed. -/
inductive Cause where
  | validation (detail : String)
  | pieceNotFound (detail : String)
  | transactionNotFound (detail : String)
  | conflict (detail : String)
  | invalidState (piece operation status : String)
  | ledger (detail : String)
  | persistence (detail : String)
  | database (detail : String)
  | io (detail : String)
  | config (detail : String)
  | http (detail : String)
  | internal (detail : String)
  deriving DecidableEq, Repr

/-- The coarse classes that callers tell apart. -/
inductive FaultKind where
  | validation | notFound | conflict | state | ledger | persistence | internal
  deriving DecidableEq, Repr

/-- The class of a cause. -/
def Cause.kind : Cause → FaultKind
  | .validation _ | .config _ => .validation
  | .pieceNotFound _ | .transactionNotFound _ => .notFound
  | .conflict _ => .conflict
  | .invalidState .. => .state
  | .ledger _ | .http _ => .ledger
  | .persistence _ | .database _ | .io _ => .persistence
  | .internal _ => .internal

/-- The text of a cause. -/
def Cause.message : Cause → String
  | .validation detail => "Invalid request: " ++ detail
  | .pieceNotFound detail => "Piece not found: " ++ detail
  | .transactionNotFound detail => "Transaction not found: " ++ detail
  | .conflict detail => "Conflict: " ++ detail
  | .invalidState piece operation status =>
    "Cannot " ++ operation ++ " piece " ++ piece ++ " in status " ++ status
  | .ledger detail => "Ledger error: " ++ detail
  | .persistence detail => "Persistence error: " ++ detail
  | .database detail => "Database error: " ++ detail
  | .io detail => "IO error: " ++ detail
  | .config detail => "Configuration error: " ++ detail
  | .http detail => "HTTP error: " ++ detail
  | .internal detail => "Internal error: " ++ detail

/-- The operation that failed and the piece it was about. -/
structure FaultContext where
  operation : String
  piece : String
  deriving DecidableEq, Repr

/-- A cause and where it happened. -/
structure Fault where
  cause : Cause
  context : Option FaultContext := none
  deriving DecidableEq, Repr

namespace Fault

instance : Coe Cause Fault := ⟨fun cause ↦ { cause }⟩

/-- The class of a fault is that of its cause. -/
def kind (fault : Fault) : FaultKind := fault.cause.kind

/-- Names the operation and the piece, unless they are named already. -/
def within (fault : Fault) (operation piece : String) : Fault :=
  { fault with context := fault.context.or (some ⟨operation, piece⟩) }

/-- The text of a fault. -/
def message (fault : Fault) : String :=
  match fault.context with
  | none => fault.cause.message
  | some ⟨operation, piece⟩ =>
    operation ++ " failed for piece " ++ piece ++ ": " ++ fault.cause.message

end Fault

/-- The outcome of what can fail. -/
abbrev Outcome := Except Fault

/-- Stops with a cause. -/
def refuse {α : Type} (cause : Cause) : Outcome α := .error { cause }

end PieceKeeper
