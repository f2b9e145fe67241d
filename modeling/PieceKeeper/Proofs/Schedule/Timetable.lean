import PieceKeeper.Proofs.Run.Blank
import PieceKeeper.Proofs.Schedule.Stopping

/-!
# The timetable of a worker

What a diary may say and what the engine shows of a worker are the same in every run.  So rounds begin in time
and one after the other, none begins when the worker was told to stop, and a round in flight goes on to its end,
for which whoever stops the worker waits.
-/

namespace PieceKeeper

namespace Engine

variable {ρ : Type} {engine : Engine ρ} {ticket interval start : Nat} {manager : Manager} {diary : Diary}

/-- **A worker keeps its timetable.**

In every run of the engine, whatever other tasks do and however time passes, the diary of a worker keeps the
rules: rounds come after one interval, never two at a time, never closer than the interval less the lateness that
is forgiven, and none begins once the worker was told to stop; a round that ended ran as a round does alone.  What
is left of its process is the rest of the round in flight, or nothing.  Whoever stops it returns only when it has
ended and the round in flight has run to its end, and does return with enough room, if that round is never kept
waiting for ever.  And a round in flight ends in every run in which its process gets a turn as long as it has not
ended. -/
theorem worker_keeps_timetable (h : engine.Watched ticket manager interval start diary) :
    diary.Kept manager.reconcile.run interval start ∧ engine.Shows ticket manager diary ∧
    engine.Awaits ticket manager interval start diary ∧
    ∀ (run : Nat → Engine ρ) (notes : Nat → Diary), run 0 = engine →
      (∀ n, Move ticket (run n) (notes n) (run (n + 1))) →
      (∀ n, (diary.after notes n).inFlight = true → ∃ m ≥ n, HasTurn ticket (run m) (notes m) (run (m + 1))) →
      diary.inFlight = true → ∃ n, .ended ∈ notes n := by
  refine ⟨h.attends.kept, h.attends.shows, h.awaits, fun run notes hrun hmoves hturns hflight ↦ ?_⟩
  rcases h.attends with hwaits | ⟨rest, hcarries⟩
  · cases hwaits.inFlight.symm.trans hflight
  · subst hrun
    obtain ⟨m, -, hended⟩ := Carries.ends hmoves hturns 0 hcarries
    exact ⟨m, hended⟩

/-- An engine in which nothing has happened yet. -/
def blank : Engine Unit := { world := { depot := { now := .epoch } } }

/-- A worker whose first round is in flight: whoever stops it now has to wait, and returns when the round has had
its turn. -/
theorem worker_keeps_timetable_first_round : ∃ engine : Engine Unit,
    engine.Watched 0 Run.keeper 20 0 [.began 20] ∧ engine.stopWorker 0 0 = none ∧
      ∃ room later, engine.stopWorker room 0 = some later ∧ later.hasEnded 0 = true := by
  have hstarted := @Watched.started _ 0 Run.keeper 20 0 blank ⟨_, rfl, .refl⟩ rfl rfl
  have hpassed := hstarted.move (@Move.pass _ _ _ 20 (Nat.zero_le 20))
  have hready : ((blank.startWorker Run.keeper 20).2.passTo 20).ready = [] ++ [⟨0, .go (.done none)⟩] := by
    have halarms : (blank.startWorker Run.keeper 20).2.alarms = [⟨20, 0, ⟨0, .go (.done none)⟩⟩] := rfl
    have hnone : (blank.startWorker Run.keeper 20).2.ready = [] := rfl
    rw [passTo, halarms, hnone]
    simp
  have hturn := hpassed.move (.turn hready)
  have hsigns : signs { (blank.startWorker Run.keeper 20).2.passTo 20 with ready := [] ++ [] }
      ⟨0, .go (.done none)⟩ 0 = [.began 20] := rfl
  rw [hsigns] at hturn
  obtain ⟨-, -, ⟨hreturns, -, hsettles⟩, -⟩ := worker_keeps_timetable hturn
  refine ⟨_, hturn, rfl, ?_⟩
  have hstops := hsettles fun n hnot ↦ by
    cases n with
    | zero => exact ⟨0, Nat.le_refl 0, _, List.mem_cons_self⟩
    | succ n =>
      -- its first turn is its last one
      have hended : (waitFor 1 ({ (blank.startWorker Run.keeper 20).2.passTo 20 with ready := [] ++ [] }.step
          ⟨0, .go (.done none)⟩) 0).hasEnded 0 = true := by decide +kernel
      rw [waitFor_of_hasEnded hended (Nat.le_add_left 1 n)] at hnot
      cases hended.symm.trans hnot
  obtain ⟨room, later, hlater⟩ := hstops
  have hstop := hlater room (Nat.le_refl room)
  exact ⟨room, later, hstop, (hreturns room later hstop).1⟩

end Engine

end PieceKeeper
