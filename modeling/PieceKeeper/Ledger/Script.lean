import PieceKeeper.Ledger.Transaction
import PieceKeeper.Store.Overwrite

/-!
# A scripted ledger

A ledger that answers as it is told to.  It keeps records by their hashes, gives the
transactions of accepted submissions hashes of its own or those it is handed, and logs what it
is asked.
-/

namespace PieceKeeper

/-- A cell to overwrite while the ledger is at work. -/
structure Correction where
  id : String
  column : String
  cell : Cell
  deriving DecidableEq, Repr

/-- What a scripted ledger answers, and what it has been asked. -/
structure Script where
  records : List (String × TransactionRecord) := []
  /-- The hashes of the next transactions. -/
  hashes : List String := []
  /-- What submissions are refused with. -/
  refusal : Option Fault := none
  /-- What questions for transactions fail with. -/
  failure : Option Fault := none
  /-- How many milliseconds a submission takes. -/
  submitDelay : Nat := 0
  /-- How many milliseconds a question takes. -/
  lookupDelay : Nat := 0
  /-- What changes in the table during every submission. -/
  onSubmit : Option Correction := none
  /-- What changes in the table during every question. -/
  onLookup : Option Correction := none
  /-- The accepted submissions, the last one first. -/
  submissions : List (UInt64 × Root) := []
  /-- The hashes that were asked for, the last one first. -/
  lookups : List String := []

namespace Script

/-- Keeps a record in place of an earlier one of the same transaction. -/
def keep (script : Script) (record : TransactionRecord) : Script :=
  { script with
    records := (record.hash, record) :: script.records.filter (·.1 != record.hash) }

/-- Answers a submission. -/
def submit (script : Script) (proofSet : UInt64) (root : Root) : Outcome String × Script :=
  match script.refusal with
  | some fault => (.error fault, script)
  | none =>
    let script := { script with submissions := (proofSet, root) :: script.submissions }
    match script.hashes with
    | hash :: hashes => (.ok hash, { script with hashes })
    | [] => (.ok ("0xtx" ++ toString script.submissions.length), script)

/-- Logs a question. -/
def note (script : Script) (hash : String) : Script :=
  { script with lookups := hash :: script.lookups }

/-- Answers a question. -/
def lookup (script : Script) (hash : String) : Outcome (Option TransactionRecord) :=
  match script.failure with
  | some fault => .error fault
  | none => .ok (script.records.lookup hash)

end Script

end PieceKeeper
