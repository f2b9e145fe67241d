import PieceKeeper.Operation.Prepare
import PieceKeeper.Piece.Settlement

/-!
# Watching transactions

A pending piece is settled by the ledger's record of its transaction.  A person who asks for
one piece is told when there is nothing to watch; a round over all pending pieces passes such
a piece by, and counts what goes wrong with a piece instead of stopping.
-/

namespace PieceKeeper.Operation

/-- A pending piece without a transaction. -/
def noTransaction (id : String) : Cause :=
  .transactionNotFound ("piece " ++ id ++ " has no transaction reference")

/-- A row that changed while the ledger was asked. -/
def changedDuringReconciliation (id : String) : Cause :=
  .conflict ("piece " ++ id ++ " changed during reconciliation")

/-- Writes a piece that its record settled. -/
def recordFinding (piece : Piece) (finding : Finding) : Attempt (Piece × Finding) := do
  if finding = .added ∨ finding = .failed then
    if ← Attempt.table (.update piece .pending) then return (piece, finding)
    else Attempt.refuse (changedDuringReconciliation piece.id)
  else return (piece, finding)

/-- Settles a piece by the ledger's answer to the question for its transaction. -/
def settleBy (piece : Piece) : Option TransactionRecord → Attempt (Piece × Finding)
  | none => return (piece, .notIndexed)
  | some transaction => do
    let now ← Attempt.ask .now
    let (piece, result) := piece.settle transaction now
    recordFinding piece (← Attempt.ofOutcome result)

/-- What watching a piece must do while it holds the piece's lock.  With `strict`, a piece that
there is nothing to watch about is refused. -/
def observeLocked (id : String) (strict : Bool) : Attempt (Piece × Finding) := do
  let piece ← find id
  if piece.status ≠ .pending then
    if strict then Attempt.refuse (piece.invalidState "monitor transaction of")
    else return (piece, .skipped)
  else
    match piece.transaction with
    | none => if strict then Attempt.refuse (noTransaction piece.id) else return (piece, .skipped)
    | some hash => settleBy piece (← ExceptT.mk (Call.request (.lookup hash)))

/-- Looks after one piece. -/
def observe (locks : Nat) (id : String) (strict : Bool) : Attempt (Piece × Finding) :=
  Attempt.holding ⟨locks, id⟩ (observeLocked id strict)

/-- Looks after pieces one after the other and counts the findings. -/
def observeAll (locks : Nat) : Report → List Piece → Call Report
  | report, [] => pure report
  | report, piece :: rest => do
    let result ← (observe locks piece.id false).run
    observeAll locks (report.tally (result.map (·.2))) rest

/-- One round over all pending pieces, in the order of their creation. -/
def reconcile (locks : Nat) : Attempt Report := do
  let pieces ← Attempt.table (.withStatus .pending)
  ExceptT.lift (observeAll locks {} pieces)

end PieceKeeper.Operation
