/-!
# The clockwork of a worker

A worker makes rounds at an interval.  The first round is due one interval after the start, and
each following one an interval after the one before it was due; but when a round is late, the
next one is due an interval after the late one started, so that missed rounds are not made up
for.  A signal to stop lets a round in progress end.

Times are milliseconds.
-/

namespace PieceKeeper

/-- What a worker is doing. -/
inductive WorkerPhase where
  | waiting
  | inRound
  | ended
  deriving DecidableEq, Repr

/-- The clockwork of a worker. -/
structure Worker where
  interval : Nat
  /-- When the next round is due. -/
  due : Nat
  phase : WorkerPhase
  /-- Whether the worker has been told to stop. -/
  stopping : Bool := false
  deriving DecidableEq, Repr

namespace Worker

/-- How late a round may be without moving the following ones. -/
def tolerance : Nat := 5

/-- The first moment that the clock cannot tell: it counts seconds with 63 bits. -/
def horizon : Nat := Nat.pow 2 63 * 1000

/-- A worker that starts now.  Without an interval, or if the first round would be due when the
clock has run out, it has nothing to do. -/
def start (interval now : Nat) : Worker :=
  { interval
    due := now + interval
    phase := if interval = 0 ∨ horizon ≤ now + interval then .ended else .waiting }

/-- Starts a round if one is due. -/
def wake (worker : Worker) (now : Nat) : Worker :=
  if worker.phase = .waiting ∧ worker.due ≤ now then
    { worker with
      phase := .inRound
      due := (if now > worker.due + tolerance then now else worker.due) + worker.interval }
  else worker

/-- Ends a round. -/
def finish (worker : Worker) : Worker :=
  if worker.phase = .inRound then
    { worker with phase := if worker.stopping then .ended else .waiting }
  else worker

/-- Tells the worker to stop. -/
def stop (worker : Worker) : Worker :=
  { worker with
    stopping := true
    phase := if worker.phase = .inRound then .inRound else .ended }

end Worker

end PieceKeeper
