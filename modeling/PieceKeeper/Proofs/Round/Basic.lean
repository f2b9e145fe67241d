import PieceKeeper.Proofs.Operation.Laws

/-!
# Calls in their surroundings

Calls of which nobody is disturbed by another, in surroundings that may answer anything.  The ledger may say
something else to every question, any rows may refuse to be written, loudly or in silence, and the clock may show
any times.  So each call has one outcome, and the calls before it matter only by the rows that they leave, the
transactions that they asked for, and how often they asked for the time.
-/

namespace PieceKeeper

variable {α β : Type}

/-- What surrounds calls. -/
structure Surroundings where
  /-- What the ledger says of a transaction to a call that looks after a piece, after others were asked for. -/
  ledger : (piece : Option String) → (earlier : List String) → (hash : String) → Outcome (Option TransactionRecord)
  /-- The time, by how often it was asked for. -/
  clock : Nat → Instant
  /-- Which rows cannot be written, and whether their writes are lost in silence. -/
  broken : String → Option Bool
  /-- What is said if the table cannot be reached. -/
  outage : Option String
  /-- What everything else is answered. -/
  other : (request : Request) → request.Answer

/-- Where calls have come to. -/
structure Moment where
  rows : List Row
  /-- The piece whose lock is held. -/
  held : Option String := none
  /-- The transactions that the ledger was asked for. -/
  lookups : List String := []
  /-- How often the time was asked for. -/
  readings : Nat := 0

namespace Surroundings

/-- What goes wrong with a command. -/
def disturbance (around : Surroundings) : Table.Command → Option Disturbance
  | .update piece _ => (around.broken piece.id).map fun silent ↦ ⟨.row piece.id, silent⟩
  | .claim id _ _ _ => (around.broken id).map fun silent ↦ ⟨.row id, silent⟩
  | _ => none

/-- The table as a command finds it. -/
def table (around : Surroundings) (rows : List Row) (command : Table.Command) : Table :=
  ⟨rows, around.disturbance command, around.outage⟩

/-- Answers a request. -/
def answer (around : Surroundings) (m : Moment) : (request : Request) → request.Answer × Moment
  | .table command =>
    (((around.table m.rows command).run command).1,
      { m with rows := ((around.table m.rows command).run command).2.rows })
  | .now => (around.clock m.readings, { m with readings := m.readings + 1 })
  | .lookup hash => (around.ledger m.held m.lookups hash, { m with lookups := m.lookups ++ [hash] })
  | .acquire key => ((), { m with held := some key.piece })
  | .release _ => ((), { m with held := none })
  | request => (around.other request, m)

end Surroundings

namespace Call

/-- The answer of a call in its surroundings, and where it leads. -/
def amid (around : Surroundings) : Call α → Moment → α × Moment
  | .done answer, m => (answer, m)
  | .ask request next, m => (next (around.answer m request).1).amid around (around.answer m request).2

/-- The answers of calls that come one after the other, and where they lead. -/
def amidAll (around : Surroundings) : List (Call α) → Moment → List α × Moment
  | [], m => ([], m)
  | call :: rest, m =>
    ((call.amid around m).1 :: (amidAll around rest (call.amid around m).2).1,
      (amidAll around rest (call.amid around m).2).2)

variable {around : Surroundings} {m : Moment}

theorem amid_bind (call : Call α) (next : α → Call β) :
    (call.bind next).amid around m = (next (call.amid around m).1).amid around (call.amid around m).2 := by
  induction call generalizing m with
  | done answer => rfl
  | ask request rest ih => exact ih _

theorem amid_mapAnswer (call : Call α) (f : α → β) :
    (call.mapAnswer f).amid around m = (f (call.amid around m).1, (call.amid around m).2) :=
  amid_bind call _

/-- Each answer may be changed, by what its call was about. -/
theorem amidAll_mapAnswer {ι : Type} (calls : ι → Call α) (f : ι → α → β) (indices : List ι) :
    amidAll around (indices.map fun i ↦ (calls i).mapAnswer (f i)) m =
      (indices.zipWith f (amidAll around (indices.map calls) m).1, (amidAll around (indices.map calls) m).2) := by
  induction indices generalizing m with
  | nil => rfl
  | cons i indices ih =>
    simp only [List.map_cons, amidAll, amid_mapAnswer, ih, List.zipWith_cons_cons]

theorem length_amidAll (calls : List (Call α)) : (amidAll around calls m).1.length = calls.length := by
  induction calls generalizing m with
  | nil => rfl
  | cons call calls ih => exact congrArg Nat.succ ih

end Call

namespace Attempt

variable {around : Surroundings} {m m' : Moment} {attempt : Attempt α} {next : α → Attempt β}

/-- The outcome of an attempt in its surroundings, and where it leads. -/
def amid (around : Surroundings) (attempt : Attempt α) (m : Moment) : Outcome α × Moment :=
  attempt.run.amid around m

theorem amid_bind_ok {answer : α} (h : attempt.amid around m = (.ok answer, m')) :
    (attempt >>= next).amid around m = (next answer).amid around m' := by
  have hbind := @Call.amid_bind _ _ around m attempt.run (ExceptT.bindCont next)
  change attempt.run.amid around m = _ at h
  rw [h] at hbind
  exact hbind

theorem amid_bind_error {fault : Fault} (h : attempt.amid around m = (.error fault, m')) :
    (attempt >>= next).amid around m = (.error fault, m') := by
  have hbind := @Call.amid_bind _ _ around m attempt.run (ExceptT.bindCont next)
  change attempt.run.amid around m = _ at h
  rw [h] at hbind
  exact hbind

theorem amid_holding (attempt : Attempt α) (key : LockKey) :
    (attempt.holding key).amid around m =
      ((attempt.amid around { m with held := some key.piece }).1,
        { (attempt.amid around { m with held := some key.piece }).2 with held := none }) :=
  Call.amid_bind attempt.run _

theorem amid_lift (call : Call α) :
    (ExceptT.lift call : Attempt α).amid around m = (.ok (call.amid around m).1, (call.amid around m).2) :=
  Call.amid_bind call _

end Attempt

end PieceKeeper
