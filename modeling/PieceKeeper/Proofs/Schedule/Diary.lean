import PieceKeeper.Proofs.Schedule.Slices
import PieceKeeper.Worker

/-!
# Diaries of workers

A diary says when the rounds of a worker began, what each asked for and was answered, when it ended, and when
the worker was told to stop.  The clockwork of a worker keeps to the rules for diaries, however late it is woken
and however long its rounds take.
-/

namespace PieceKeeper

variable {α : Type}

/-- What is noted about a worker. -/
inductive Sign where
  | began (moment : Nat)
  | made (exchange : Exchange)
  | ended
  /-- It was told to stop. -/
  | told

/-- What was noted about a worker, the latest first. -/
abbrev Diary := List Sign

namespace Diary

/-- When rounds began, the latest first. -/
def begins : Diary → List Nat
  | [] => []
  | .began moment :: diary => moment :: begins diary
  | _ :: diary => begins diary

/-- Whether a round began and did not end yet. -/
def inFlight : Diary → Bool
  | [] => false
  | .began _ :: _ => true
  | .ended :: _ => false
  | _ :: diary => inFlight diary

/-- What happened to the last round. -/
def current : Diary → History
  | [] => [.started]
  | .began _ :: _ => [.started]
  | .made exchange :: diary => (current diary).exchange exchange.1 exchange.2
  | _ :: diary => current diary

/-- What may be noted after what about a worker that was started at a moment.

* A round begins when none is in flight and the worker was not told to stop; the first one an interval after the
  start or later, the second one two intervals after it or later, and so on; and each an interval after any one
  before it, up to the tolerance.
* Requests are made while a round is in flight.
* A round ends when its call was answered all its requests. -/
inductive Kept (round : Call α) (interval start : Nat) : Diary → Prop
  | blank : Kept round interval start []
  | began {diary : Diary} {moment : Nat} : Kept round interval start diary → diary.inFlight = false →
    .told ∉ diary → start + (diary.begins.length + 1) * interval ≤ moment →
    (∀ earlier ∈ diary.begins, earlier + interval ≤ moment + Worker.tolerance) →
    Kept round interval start (.began moment :: diary)
  | made {diary : Diary} (exchange : Exchange) : Kept round interval start diary → diary.inFlight = true →
    Kept round interval start (.made exchange :: diary)
  | ended {diary : Diary} {answer : α} : Kept round interval start diary → diary.inFlight = true →
    round.Leads diary.current (.done answer) → Kept round interval start (.ended :: diary)
  | told {diary : Diary} : Kept round interval start diary → Kept round interval start (.told :: diary)

variable {diary : Diary} {made : List Exchange}

@[simp] theorem begins_made : begins (made.map .made ++ diary) = diary.begins := by
  induction made with
  | nil => rfl
  | cons exchange made ih => exact ih

@[simp] theorem inFlight_made : inFlight (made.map .made ++ diary) = diary.inFlight := by
  induction made with
  | nil => rfl
  | cons exchange made ih => exact ih

@[simp] theorem current_made : current (made.map .made ++ diary) = diary.current.extend made := by
  induction made with
  | nil => rfl
  | cons exchange made ih => exact congrArg (History.exchange · exchange.1 exchange.2) ih

theorem told_mem_made : Sign.told ∈ made.map Sign.made ++ diary ↔ .told ∈ diary := by
  simp

theorem Kept.made_append {round : Call α} {interval start : Nat} (h : diary.Kept round interval start)
    (hflight : diary.inFlight = true) (made : List Exchange) :
    Kept round interval start (made.map .made ++ diary) := by
  induction made with
  | nil => exact h
  | cons exchange made ih => exact .made exchange ih (inFlight_made.trans hflight)

end Diary

namespace Worker

/-- A worker is where its diary says. -/
structure Fits (worker : Worker) (interval start : Nat) (diary : Diary) : Prop where
  every : worker.interval = interval
  phase : worker.phase = .inRound ↔ diary.inFlight = true
  stopping : worker.stopping = true ↔ .told ∈ diary
  /-- Who was told to stop does not wait for another round. -/
  stopped : worker.stopping = true → worker.phase ≠ .waiting
  /-- The next round is due after all intervals that have begun. -/
  due : start + (diary.begins.length + 1) * interval ≤ worker.due
  begins : ∀ earlier ∈ diary.begins, earlier + interval ≤ worker.due + tolerance

variable {worker : Worker} {interval start : Nat} {diary : Diary}

theorem fits_start (interval start : Nat) : (Worker.start interval start).Fits interval start [] where
  every := rfl
  phase := by
    refine iff_of_false (fun h ↦ ?_) Bool.false_ne_true
    rw [Worker.start] at h
    dsimp only at h
    split at h <;> cases h
  stopping := iff_of_false Bool.false_ne_true List.not_mem_nil
  stopped h := absurd h Bool.false_ne_true
  due := by
    simp [Worker.start, Diary.begins]
  begins _ h := absurd h List.not_mem_nil

namespace Fits

theorem made (h : worker.Fits interval start diary) (made : List Exchange) :
    worker.Fits interval start (made.map .made ++ diary) := by
  refine ⟨h.every, ?_, ?_, h.stopped, ?_, ?_⟩
  · rw [Diary.inFlight_made, h.phase]
  · rw [Diary.told_mem_made, h.stopping]
  · rw [Diary.begins_made]
    exact h.due
  · rw [Diary.begins_made]
    exact h.begins

/-- A worker that is woken begins a round if one is due, and not otherwise. -/
theorem wake {round : Call α} (h : worker.Fits interval start diary) (hkept : diary.Kept round interval start)
    (hphase : worker.phase ≠ .inRound) (now : Nat) :
    ((worker.wake now).phase = .inRound ∧ (worker.wake now).Fits interval start (.began now :: diary) ∧
      Diary.Kept round interval start (.began now :: diary)) ∨
    (worker.wake now).phase ≠ .inRound ∧ (worker.wake now).Fits interval start diary := by
  rw [Worker.wake]
  split
  · rename_i hwake
    obtain ⟨hwaiting, hdue⟩ := hwake
    refine Or.inl ⟨rfl, ⟨h.every, iff_of_true rfl rfl, ?_, fun _ ↦ nofun, ?_, ?_⟩, ?_⟩
    · simpa using h.stopping
    · have hbefore := h.due
      have hevery := h.every
      simp only [Diary.begins, List.length_cons]
      rw [Nat.succ_mul]
      split <;> omega
    · have hbefore := h.begins
      have hevery := h.every
      refine List.forall_mem_cons.mpr ⟨?_, fun earlier hmem ↦ ?_⟩
      · dsimp only
        split <;> omega
      · have hearlier := hbefore earlier hmem
        dsimp only
        split <;> omega
    · refine .began hkept ?_ ?_ (Nat.le_trans h.due hdue) fun earlier hmem ↦ ?_
      · rw [← Bool.not_eq_true, ← h.phase]
        exact hphase
      · intro htold
        exact h.stopped (h.stopping.mpr htold) hwaiting
      · exact Nat.le_trans (h.begins earlier hmem) (Nat.add_le_add_right hdue tolerance)
  · exact Or.inr ⟨hphase, h⟩

/-- A round ends. -/
theorem finish (h : worker.Fits interval start diary) (hphase : worker.phase = .inRound) :
    worker.finish.phase ≠ .inRound ∧ worker.finish.Fits interval start (.ended :: diary) := by
  rw [Worker.finish, if_pos hphase]
  have hnot : (if worker.stopping = true then WorkerPhase.ended else .waiting) ≠ .inRound := by
    split <;> nofun
  refine ⟨hnot, h.every, iff_of_false hnot Bool.false_ne_true, ?_, fun hstopping ↦ ?_, h.due, h.begins⟩
  · simpa using h.stopping
  · rw [if_pos hstopping]
    nofun

theorem stop (h : worker.Fits interval start diary) : worker.stop.Fits interval start (.told :: diary) := by
  refine ⟨h.every, ?_, iff_of_true rfl List.mem_cons_self, fun _ ↦ ?_, h.due, h.begins⟩
  · refine Iff.trans ?_ h.phase
    rw [Worker.stop]
    split <;> simp_all
  · rw [Worker.stop]
    split <;> nofun

/-- Between rounds, who was told to stop has ended. -/
theorem ended_iff (h : worker.Fits interval start diary) (htold : .told ∈ diary) :
    worker.phase = .ended ↔ diary.inFlight = false := by
  have hstopped := h.stopped (h.stopping.mpr htold)
  rw [← Bool.not_eq_true, ← h.phase]
  cases hphase : worker.phase with
  | waiting => exact absurd hphase hstopped
  | inRound => simp
  | ended => simp

end Fits

end Worker

end PieceKeeper
