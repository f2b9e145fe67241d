import Mathlib.Algebra.BigOperators.Group.Finset.Basic
import Mathlib.Algebra.Order.BigOperators.Group.Finset
import Mathlib.Data.List.Perm.Basic
import PieceKeeper.Proofs.Schedule.Stints
import PieceKeeper.Schedule.Engine

/-!
# Dispatch

The engine lets stints take turns.  Every stint is at one place at a time: among those who can go on, with
those who wait for a lock, at an alarm, or with its answer.  What it does next tells how far it has come.
-/

namespace PieceKeeper

namespace Stint

/-! ## What is left of a stint -/

/-- Gives the lock back. -/
def leave (stint : Stint) (acquired : Nat) : Call (Option (Nat × Nat)) :=
  .ask .clock fun released ↦ .ask (.release stint.key) fun _ ↦ .done (some (acquired, released))

/-- Keeps the lock for its span, and gives it back. -/
def keep (stint : Stint) : Call (Option (Nat × Nat)) :=
  .ask .clock fun acquired ↦ .ask (.sleep stint.span) fun _ ↦ stint.leave acquired

/-- Takes the lock, keeps it and gives it back. -/
def take (stint : Stint) : Call (Option (Nat × Nat)) :=
  .ask (.acquire stint.key) fun _ ↦ stint.keep

variable {stint : Stint} {i : Nat} {world : World}

theorem run_leave (acquired : Nat) : (stint.leave acquired).run i world =
    ⟨.answered (some (acquired, world.clock)), { world with locks := (world.locks.release i).1 },
      (world.locks.release i).2.toList⟩ := by
  simp only [leave, Call.run]
  cases (world.locks.release i).2 with
  | none => rfl
  | some heir => rfl

theorem run_keep_of_span_eq_zero (h : stint.span = 0) :
    stint.keep.run i world = (stint.leave world.clock).run i world := by
  rw [keep, Call.run, Call.run, if_pos h]

theorem run_keep_of_span_ne_zero (h : stint.span ≠ 0) :
    stint.keep.run i world = ⟨.asleep stint.span (.go (stint.leave world.clock)), world, []⟩ := by
  rw [keep, Call.run, Call.run, if_neg h]

theorem run_take_of_holds (h : (world.locks.request stint.key i).holds i = true) :
    stint.take.run i world =
      stint.keep.run i { world with locks := world.locks.request stint.key i } := by
  rw [take, Call.run]
  exact if_pos h

theorem run_take_of_not_holds (h : ¬ (world.locks.request stint.key i).holds i = true) :
    stint.take.run i world =
      ⟨.locked stint.keep, { world with locks := world.locks.request stint.key i }, []⟩ := by
  rw [take, Call.run]
  exact if_neg h

/-- What is left of a stint in a phase. -/
def rest (stint : Stint) (acquired : Nat) : Phase → Call (Option (Nat × Nat))
  | .unborn | .sleeps | .asks => stint.take
  | .waits | .has => stint.keep
  | .holds | .leaves | .done => stint.leave acquired

/-- How many turns a stint takes at most from a phase on. -/
def Phase.weight : Phase → Nat
  | unborn | sleeps => 6
  | asks => 5
  | waits => 4
  | has => 3
  | holds => 2
  | leaves => 1
  | done => 0

/-- How many turns all stints take at most. -/
def Course.weight (s : Course) (total : Nat) : Nat := ∑ i ∈ Finset.range total, (s.phase i).weight

theorem Course.weight_le (s : Course) (total : Nat) : s.weight total ≤ 6 * total := by
  calc s.weight total ≤ ∑ _i ∈ Finset.range total, 6 :=
        Finset.sum_le_sum fun i _ ↦ by cases s.phase i <;> decide
    _ = 6 * total := by simp [Nat.mul_comm]

theorem Course.weight_lt {s s' : Course} {total i : Nat}
    (hle : ∀ j < total, (s'.phase j).weight ≤ (s.phase j).weight) (hi : i < total)
    (hlt : (s'.phase i).weight < (s.phase i).weight) : s'.weight total < s.weight total :=
  Finset.sum_lt_sum (fun j hj ↦ hle j (Finset.mem_range.mp hj)) ⟨i, Finset.mem_range.mpr hi, hlt⟩

end Stint

/-! ## Places -/

namespace Engine

open Stint

/-- A stint on its way. -/
def stintProcess (stint : Nat → Stint) (times : Nat → Nat × Nat) (s : Course) (i : Nat) :
    Process (Nat × Nat) :=
  ⟨i, .go ((stint i).rest (times i).1 (s.phase i))⟩

/-- The first `n` stints are on their way.  Some of them are taken out of their places. -/
structure Places (engine : Engine (Nat × Nat)) (stint : Nat → Stint) (times : Nat → Nat × Nat)
    (s : Course) (n : Nat) (taken : List Nat) : Prop where
  clock : engine.world.clock = s.clock
  forms : engine.world.locks.Forms s.line
  next : engine.next = n
  unborn : ∀ i, s.phase i = .unborn ↔ n ≤ i
  ready : ∀ process ∈ engine.ready, process = stintProcess stint times s process.ticket ∧
    (s.phase process.ticket = .asks ∨ s.phase process.ticket = .has ∨ s.phase process.ticket = .leaves)
  parked : ∀ process ∈ engine.parked, process = stintProcess stint times s process.ticket ∧
    s.phase process.ticket = .waits
  alarms : ∀ alarm ∈ engine.alarms, alarm.serial < engine.serial ∧
    alarm.process = stintProcess stint times s alarm.process.ticket ∧
    (s.phase alarm.process.ticket = .sleeps ∧ alarm.due = (stint alarm.process.ticket).start ∨
      s.phase alarm.process.ticket = .holds ∧ alarm.due = (times alarm.process.ticket).2)
  answers : ∀ answer ∈ engine.answers, s.phase answer.1 = .done ∧ answer.2 = times answer.1
  /-- Each is at one place. -/
  places : (taken ++ engine.ready.map (·.ticket) ++ engine.parked.map (·.ticket) ++
    engine.alarms.map (·.process.ticket) ++ engine.answers.map Prod.fst).Perm (List.range n)
  /-- Those who begin at one moment ask in the order of their numbers. -/
  queue : engine.ready.Pairwise fun first second ↦ s.phase first.ticket = .asks →
    s.phase second.ticket = .asks → first.ticket < second.ticket
  serials : ∀ alarm ∈ engine.alarms, ∀ other ∈ engine.alarms, s.phase alarm.process.ticket = .sleeps →
    s.phase other.process.ticket = .sleeps → alarm.process.ticket < other.process.ticket →
      alarm.serial < other.serial

/-- The one element with a name is taken out of a list by its name. -/
theorem perm_cons_filter {α β : Type} [DecidableEq β] (f : α → β) {l : List α} {a : α}
    (hnodup : (l.map f).Nodup) (hmem : a ∈ l) : l.Perm (a :: l.filter (f · ≠ f a)) := by
  induction l with
  | nil => cases hmem
  | cons b l ih =>
    obtain ⟨hnot, hnodup⟩ := List.nodup_cons.mp hnodup
    rcases List.mem_cons.mp hmem with rfl | hmem
    · rw [List.filter_cons_of_neg (by simp), List.filter_eq_self.mpr fun c hc ↦ ?_]
      exact decide_eq_true fun heq ↦ hnot (heq ▸ List.mem_map_of_mem hc)
    · have hne : f b ≠ f a := fun heq ↦ hnot (heq ▸ List.mem_map_of_mem hmem)
      rw [List.filter_cons_of_pos (by simpa using hne)]
      exact ((ih hnodup hmem).cons b).trans (List.Perm.swap _ _ _)

namespace Places

variable {engine : Engine (Nat × Nat)} {stint : Nat → Stint} {times : Nat → Nat × Nat} {s s' : Course}
  {n i : Nat} {taken : List Nat}

/-- What is taken out of its place is nowhere else. -/
theorem not_taken (h : engine.Places stint times s n taken) {j : Nat} (hj : j ∈ taken) :
    (∀ process ∈ engine.ready, process.ticket ≠ j) ∧ (∀ process ∈ engine.parked, process.ticket ≠ j) ∧
      (∀ alarm ∈ engine.alarms, alarm.process.ticket ≠ j) ∧ ∀ answer ∈ engine.answers, answer.1 ≠ j := by
  have hnodup := h.places.nodup_iff.mpr List.nodup_range
  simp only [List.append_assoc] at hnodup
  have hnot := List.disjoint_of_nodup_append hnodup hj
  simp only [List.mem_append, List.mem_map] at hnot
  exact ⟨fun _ hmem heq ↦ hnot (Or.inl ⟨_, hmem, heq⟩),
    fun _ hmem heq ↦ hnot (Or.inr (Or.inl ⟨_, hmem, heq⟩)),
    fun _ hmem heq ↦ hnot (Or.inr (Or.inr (Or.inl ⟨_, hmem, heq⟩))),
    fun _ hmem heq ↦ hnot (Or.inr (Or.inr (Or.inr ⟨_, hmem, heq⟩)))⟩

/-- Who is at its place stays there, whatever becomes of the others. -/
theorem carry (h : engine.Places stint times s n taken) (s' : Course) {world : World} {n' : Nat}
    {taken' : List Nat} (hphase : ∀ j < n, j ∉ taken → s'.phase j = s.phase j)
    (hunborn : ∀ i, s'.phase i = .unborn ↔ n' ≤ i) (hclock : world.clock = s'.clock)
    (hforms : world.locks.Forms s'.line)
    (hplaces : (taken' ++ engine.ready.map (·.ticket) ++ engine.parked.map (·.ticket) ++
      engine.alarms.map (·.process.ticket) ++ engine.answers.map Prod.fst).Perm (List.range n')) :
    Places { engine with world, next := n' } stint times s' n' taken' := by
  have hplace {j : Nat} (hborn : s.phase j ≠ .unborn) (hj : j ∉ taken) : s'.phase j = s.phase j :=
    hphase j (Nat.lt_of_not_le fun hle ↦ hborn ((h.unborn j).mpr hle)) hj
  have hready {process : Process (Nat × Nat)} (hmem : process ∈ engine.ready) :
      s'.phase process.ticket = s.phase process.ticket := by
    refine hplace (fun hnone ↦ ?_) fun hj ↦ (h.not_taken hj).1 process hmem rfl
    simpa [hnone] using (h.ready process hmem).2
  have hparked {process : Process (Nat × Nat)} (hmem : process ∈ engine.parked) :
      s'.phase process.ticket = s.phase process.ticket := by
    refine hplace (fun hnone ↦ ?_) fun hj ↦ (h.not_taken hj).2.1 process hmem rfl
    simpa [hnone] using (h.parked process hmem).2
  have halarm {alarm : Alarm (Nat × Nat)} (hmem : alarm ∈ engine.alarms) :
      s'.phase alarm.process.ticket = s.phase alarm.process.ticket := by
    refine hplace (fun hnone ↦ ?_) fun hj ↦ (h.not_taken hj).2.2.1 alarm hmem rfl
    simpa [hnone] using (h.alarms alarm hmem).2.2
  have hanswer {answer : Nat × Nat × Nat} (hmem : answer ∈ engine.answers) :
      s'.phase answer.1 = s.phase answer.1 := by
    refine hplace (fun hnone ↦ ?_) fun hj ↦ (h.not_taken hj).2.2.2 answer hmem rfl
    simpa [hnone] using (h.answers answer hmem).1
  refine ⟨hclock, hforms, rfl, hunborn, fun process hmem ↦ ?_, fun process hmem ↦ ?_,
    fun alarm hmem ↦ ?_, fun answer hmem ↦ ?_, hplaces, ?_, fun alarm hmem other hmem' ↦ ?_⟩
  · rw [stintProcess, hready hmem]
    exact h.ready process hmem
  · rw [stintProcess, hparked hmem]
    exact h.parked process hmem
  · rw [stintProcess, halarm hmem]
    exact h.alarms alarm hmem
  · rw [hanswer hmem]
    exact h.answers answer hmem
  · refine h.queue.imp_of_mem fun hfirst hsecond hlt ↦ ?_
    rw [hready hfirst, hready hsecond]
    exact hlt
  · rw [halarm hmem, halarm hmem']
    exact h.serials alarm hmem other hmem'

theorem lt_of_mem (h : engine.Places stint times s n taken) (hi : i ∈ taken) : i < n := by
  refine List.mem_range.mp (h.places.mem_iff.mp ?_)
  simp only [List.mem_append]
  exact Or.inl (Or.inl (Or.inl (Or.inl hi)))

/-- What is taken out of its place goes on. -/
theorem move (h : engine.Places stint times s n taken) (s' : Course) {world : World}
    (hphase : ∀ j ∉ taken, s'.phase j = s.phase j) (hborn : ∀ j ∈ taken, s'.phase j ≠ .unborn)
    (hclock : world.clock = s'.clock) (hforms : world.locks.Forms s'.line) :
    Places { engine with world } stint times s' n taken := by
  obtain rfl := h.next
  refine h.carry s' (fun j _ hj ↦ hphase j hj) (fun j ↦ ?_) hclock hforms h.places
  by_cases hj : j ∈ taken
  · exact iff_of_false (hborn j hj) (Nat.not_le_of_lt (h.lt_of_mem hj))
  · rw [hphase j hj, h.unborn]

/-- The next stint is taken up. -/
theorem born (h : engine.Places stint times s n []) (phase : Phase) (hborn : phase ≠ .unborn) :
    Places { engine with next := n + 1 } stint times (s.goOn n phase) (n + 1) [n] := by
  refine h.carry (s.goOn n phase) (fun j hj _ ↦ Course.phase_goOn_of_ne (Nat.ne_of_lt hj)) (fun j ↦ ?_) h.clock
    h.forms ?_
  · by_cases hj : j = n
    · subst hj
      exact iff_of_false ((s.phase_goOn j phase).trans_ne hborn) (Nat.not_succ_le_self j)
    · rw [Course.phase_goOn_of_ne hj, h.unborn]
      omega
  · rw [List.range_succ]
    exact (h.places.cons n).trans (List.perm_append_singleton n _).symm

/-- The first who can go on is taken out. -/
theorem pickReady (h : engine.Places stint times s n taken) {process : Process (Nat × Nat)}
    {ready : List (Process (Nat × Nat))} (hready : engine.ready = process :: ready) :
    Places { engine with ready } stint times s n (process.ticket :: taken) := by
  obtain ⟨hclock, hforms, hnext, hunborn, hreadys, hparked, halarms, hanswers, hplaces, hqueue, hserials⟩ := h
  rw [hready] at hreadys hplaces hqueue
  refine ⟨hclock, hforms, hnext, hunborn, fun other hmem ↦ hreadys other (List.mem_cons_of_mem _ hmem),
    hparked, halarms, hanswers, List.Perm.trans ?_ hplaces, (List.pairwise_cons.mp hqueue).2, hserials⟩
  rw [List.perm_iff_count]
  intro j
  simp only [List.map_cons, List.count_append, List.count_cons]
  omega

theorem nodup_parked (h : engine.Places stint times s n taken) :
    (engine.parked.map (·.ticket)).Nodup :=
  (h.places.nodup_iff.mpr List.nodup_range).of_append_left.of_append_left.of_append_right

theorem nodup_alarms (h : engine.Places stint times s n taken) :
    (engine.alarms.map (·.process.ticket)).Nodup :=
  (h.places.nodup_iff.mpr List.nodup_range).of_append_left.of_append_right

/-- Who waits for a lock is taken out. -/
theorem pickParked (h : engine.Places stint times s n taken) {process : Process (Nat × Nat)}
    (hmem : process ∈ engine.parked) :
    Places { engine with parked := engine.parked.filter (·.ticket ≠ process.ticket) } stint times s n
      (process.ticket :: taken) := by
  refine ⟨h.clock, h.forms, h.next, h.unborn, h.ready,
    fun other hother ↦ h.parked other (List.mem_of_mem_filter hother), h.alarms, h.answers,
    List.Perm.trans ?_ h.places, h.queue, h.serials⟩
  have hperm := ((perm_cons_filter (·.ticket) h.nodup_parked hmem).map (·.ticket)).count_eq
  rw [List.perm_iff_count]
  intro j
  have hcount := hperm j
  simp only [List.map_cons, List.count_append, List.count_cons] at hcount ⊢
  omega

/-- Who got a lock can go on. -/
theorem putReady (h : engine.Places stint times s n (i :: taken)) (hphase : s.phase i = .has) :
    Places { engine with ready := engine.ready ++ [stintProcess stint times s i] } stint times s n
      taken := by
  refine ⟨h.clock, h.forms, h.next, h.unborn, List.forall_mem_append.mpr ⟨h.ready, ?_⟩, h.parked,
    h.alarms, h.answers, List.Perm.trans ?_ h.places, ?_, h.serials⟩
  · exact List.forall_mem_singleton.mpr ⟨rfl, Or.inr (Or.inl hphase)⟩
  · rw [List.perm_iff_count]
    intro j
    simp only [List.map_append, List.map_singleton, stintProcess, List.count_append, List.count_cons,
      List.count_nil]
    omega
  · refine List.pairwise_append.mpr ⟨h.queue, List.pairwise_singleton _ _, fun first _ second hmem _ hasks ↦ ?_⟩
    obtain rfl := List.mem_singleton.mp hmem
    cases hphase.symm.trans hasks

theorem putParked (h : engine.Places stint times s n (i :: taken)) (hphase : s.phase i = .waits) :
    Places { engine with parked := stintProcess stint times s i :: engine.parked } stint times s n
      taken := by
  refine ⟨h.clock, h.forms, h.next, h.unborn, h.ready, List.forall_mem_cons.mpr ⟨⟨rfl, hphase⟩, h.parked⟩,
    h.alarms, h.answers, List.Perm.trans ?_ h.places, h.queue, h.serials⟩
  rw [List.perm_iff_count]
  intro j
  simp only [List.map_cons, stintProcess, List.count_append, List.count_cons]
  omega

theorem setAlarm (h : engine.Places stint times s n (i :: taken)) {due : Nat}
    (hdue : s.phase i = .sleeps ∧ due = (stint i).start ∨ s.phase i = .holds ∧ due = (times i).2)
    (hlast : s.phase i = .sleeps → ∀ alarm ∈ engine.alarms, alarm.process.ticket < i) :
    (engine.setAlarm due (stintProcess stint times s i)).Places stint times s n taken := by
  refine ⟨h.clock, h.forms, h.next, h.unborn, h.ready, h.parked, List.forall_mem_cons.mpr
    ⟨⟨Nat.lt_succ_self _, rfl, hdue⟩, fun alarm hmem ↦ ?_⟩, h.answers, List.Perm.trans ?_ h.places,
    h.queue, List.forall_mem_cons.mpr ⟨List.forall_mem_cons.mpr ⟨?_, ?_⟩, fun alarm hmem ↦
      List.forall_mem_cons.mpr ⟨?_, ?_⟩⟩⟩
  · obtain ⟨hlt, hrest⟩ := h.alarms alarm hmem
    exact ⟨Nat.lt_succ_of_lt hlt, hrest⟩
  · rw [List.perm_iff_count]
    intro j
    simp only [Engine.setAlarm, List.map_cons, stintProcess, List.count_append, List.count_cons]
    omega
  · exact fun _ _ hlt ↦ absurd hlt (Nat.lt_irrefl _)
  · exact fun other hmem hsleeps _ hlt ↦ absurd hlt (Nat.lt_asymm (hlast hsleeps other hmem))
  · exact fun _ _ _ ↦ (h.alarms alarm hmem).1
  · exact fun other hmem' ↦ h.serials alarm hmem other hmem'

theorem putAnswer (h : engine.Places stint times s n (i :: taken)) (hphase : s.phase i = .done) :
    Places { engine with answers := (i, times i) :: engine.answers } stint times s n taken := by
  refine ⟨h.clock, h.forms, h.next, h.unborn, h.ready, h.parked, h.alarms,
    List.forall_mem_cons.mpr ⟨⟨hphase, rfl⟩, h.answers⟩, List.Perm.trans ?_ h.places, h.queue, h.serials⟩
  rw [List.perm_iff_count]
  intro j
  simp only [List.map_cons, List.count_append, List.count_cons]
  omega

/-- Every stint that is on its way has its place. -/
theorem exists_place (h : engine.Places stint times s n taken) (hi : i < n) (hnot : i ∉ taken) :
    (∃ process ∈ engine.ready, process.ticket = i) ∨ (∃ process ∈ engine.parked, process.ticket = i) ∨
      (∃ alarm ∈ engine.alarms, alarm.process.ticket = i) ∨ ∃ answer ∈ engine.answers, answer.1 = i := by
  have hmem := h.places.mem_iff.mpr (List.mem_range.mpr hi)
  simp only [List.append_assoc, List.mem_append, List.mem_map] at hmem
  exact hmem.resolve_left hnot

theorem lt_of_phase (h : engine.Places stint times s n taken) (hphase : s.phase i ≠ .unborn) : i < n :=
  Nat.lt_of_not_le fun hle ↦ hphase ((h.unborn i).mpr hle)

/-- Who waits for a lock is parked. -/
theorem exists_parked (h : engine.Places stint times s n taken) (hnot : i ∉ taken)
    (hphase : s.phase i = .waits) : ∃ process ∈ engine.parked, process.ticket = i := by
  have hi : i < n := h.lt_of_phase fun hunborn ↦ by simp [hunborn] at hphase
  rcases h.exists_place hi hnot with ⟨process, hmem, rfl⟩ | hparked | ⟨alarm, hmem, rfl⟩ | ⟨answer, hmem, rfl⟩
  · rcases (h.ready process hmem).2 with hready | hready | hready <;> simp [hready] at hphase
  · exact hparked
  · rcases (h.alarms alarm hmem).2.2 with ⟨hsleeps, -⟩ | ⟨hholds, -⟩
    · simp [hsleeps] at hphase
    · simp [hholds] at hphase
  · simp [(h.answers answer hmem).1] at hphase

/-- Who is about to do something can go on. -/
theorem exists_ready (h : engine.Places stint times s n taken) (hnot : i ∉ taken)
    (hphase : s.phase i = .asks ∨ s.phase i = .has ∨ s.phase i = .leaves) :
    ∃ process ∈ engine.ready, process.ticket = i := by
  have hi : i < n := h.lt_of_phase fun hunborn ↦ by simp [hunborn] at hphase
  rcases h.exists_place hi hnot with hready | ⟨process, hmem, rfl⟩ | ⟨alarm, hmem, rfl⟩ | ⟨answer, hmem, rfl⟩
  · exact hready
  · simp [(h.parked process hmem).2] at hphase
  · rcases (h.alarms alarm hmem).2.2 with ⟨hsleeps, -⟩ | ⟨hholds, -⟩
    · simp [hsleeps] at hphase
    · simp [hholds] at hphase
  · simp [(h.answers answer hmem).1] at hphase

/-- Who waits for a moment has an alarm. -/
theorem exists_alarm (h : engine.Places stint times s n taken) (hnot : i ∉ taken)
    (hphase : s.phase i = .sleeps ∨ s.phase i = .holds) :
    ∃ alarm ∈ engine.alarms, alarm.process.ticket = i := by
  have hi : i < n := h.lt_of_phase fun hunborn ↦ by simp [hunborn] at hphase
  rcases h.exists_place hi hnot with ⟨process, hmem, rfl⟩ | ⟨process, hmem, rfl⟩ | halarm | ⟨answer, hmem, rfl⟩
  · rcases (h.ready process hmem).2 with hready | hready | hready <;> simp [hready] at hphase
  · simp [(h.parked process hmem).2] at hphase
  · exact halarm
  · simp [(h.answers answer hmem).1] at hphase

end Places

/-! ## Turns -/

section

variable {engine : Engine (Nat × Nat)} {stint : Nat → Stint} {times : Nat → Nat × Nat} {s : Course}
  {n total i : Nat}

theorem grant_nil : engine.grant [] = engine := by
  simp [grant]

/-- Who got a lock is put behind those who can go on. -/
theorem grant_singleton {process : Process (Nat × Nat)} (hmem : process ∈ engine.parked)
    (hnodup : (engine.parked.map (·.ticket)).Nodup) : engine.grant [process.ticket] =
      { engine with
        ready := engine.ready ++ [process]
        parked := engine.parked.filter (·.ticket ≠ process.ticket) } := by
  have hfind : engine.parked.find? (·.ticket == process.ticket) = some process := by
    have hsome : (engine.parked.find? (·.ticket == process.ticket)).isSome = true :=
      List.find?_isSome.mpr ⟨process, hmem, beq_self_eq_true process.ticket⟩
    obtain ⟨found, hfound⟩ := Option.isSome_iff_exists.mp hsome
    have hticket := List.find?_some hfound
    rw [hfound, List.inj_on_of_nodup_map hnodup (List.mem_of_find?_eq_some hfound) hmem (beq_iff_eq.mp hticket)]
  simp [grant, hfind]

/-- Where the turn of a stint leads. -/
structure Turn (stint : Nat → Stint) (times : Nat → Nat × Nat) (total n i : Nat) (s : Course)
    (engine : Engine (Nat × Nat)) (s' : Course) : Prop where
  places : engine.Places stint times s' n []
  sound : s'.Sound stint total times
  clock : s'.clock = s.clock
  weight : s'.weight total < s.weight total
  asks : ∀ j, s'.phase j = .asks → s.phase j = .asks ∧ j ≠ i

/-! ### What a change of phases does to the weight -/

theorem weight_goOn (phase : Phase) (hle : phase.weight ≤ (s.phase i).weight) (j : Nat) :
    ((s.goOn i phase).phase j).weight ≤ (s.phase j).weight := by
  by_cases hji : j = i
  · rwa [hji, Course.phase_goOn]
  · rw [Course.phase_goOn_of_ne hji]

theorem weight_goOn_lt (hi : i < total) {phase : Phase} (hlt : phase.weight < (s.phase i).weight) :
    (s.goOn i phase).weight total < s.weight total := by
  refine Course.weight_lt (fun j _ ↦ weight_goOn phase (Nat.le_of_lt hlt) j) hi ?_
  rwa [Course.phase_goOn]

theorem asks_goOn (phase : Phase) {j : Nat} (hphase : phase ≠ .asks) (hj : (s.goOn i phase).phase j = .asks) :
    s.phase j = .asks ∧ j ≠ i := by
  have hji : j ≠ i := by
    rintro rfl
    exact hphase ((s.phase_goOn j phase).symm.trans hj)
  exact ⟨(Course.phase_goOn_of_ne hji).symm.trans hj, hji⟩

/-- The turn of a stint that has come further meanwhile. -/
theorem Turn.of_le {s₁ s' : Course} (h : Turn stint times total n i s₁ engine s')
    (hclock : s₁.clock = s.clock) (hweight : ∀ j < total, (s₁.phase j).weight ≤ (s.phase j).weight)
    (hasks : ∀ j ≠ i, s₁.phase j = .asks → s.phase j = .asks) : Turn stint times total n i s engine s' where
  places := h.places
  sound := h.sound
  clock := h.clock.trans hclock
  weight := Nat.lt_of_lt_of_le h.weight (Finset.sum_le_sum fun j hj ↦ hweight j (Finset.mem_range.mp hj))
  asks j hj := ⟨hasks j (h.asks j hj).2 (h.asks j hj).1, (h.asks j hj).2⟩

/-! ### Giving a lock back -/

/-- A stint that leaves its lock to nobody. -/
theorem Places.finish_nil (h : engine.Places stint times s n [i]) {world : World}
    (hclock : world.clock = s.clock)
    (hforms : world.locks.Forms (Function.update s.line (stint i).key [])) :
    Places { engine with world, answers := (i, times i) :: engine.answers } stint times
      (s.finish stint i []) n [] := by
  have hdone := s.phase_finish stint i []
  refine (h.move (s.finish stint i []) (fun j hj ↦ ?_) ?_ hclock hforms).putAnswer hdone
  · exact Course.phase_finish_of_ne (mt List.mem_singleton.mpr hj) nofun
  · exact List.forall_mem_singleton.mpr (hdone.trans_ne (by decide))

/-- A stint that leaves its lock to the next in the line. -/
theorem Places.finish_cons (h : engine.Places stint times s n [i]) {world : World} {rest : List Nat}
    (hclock : world.clock = s.clock) {process : Process (Nat × Nat)} (hmem : process ∈ engine.parked)
    (hforms : world.locks.Forms (Function.update s.line (stint i).key (process.ticket :: rest))) :
    Places { engine with
      world
      ready := engine.ready ++ [process]
      parked := engine.parked.filter (·.ticket ≠ process.ticket)
      answers := (i, times i) :: engine.answers } stint times
      (s.finish stint i (process.ticket :: rest)) n [] := by
  obtain ⟨heq, hwaits⟩ := h.parked process hmem
  have hdone := s.phase_finish stint i (process.ticket :: rest)
  have hne : process.ticket ≠ i := (h.not_taken List.mem_cons_self).2.1 process hmem
  have hhas : (s.finish stint i (process.ticket :: rest)).phase process.ticket = .has :=
    Course.phase_finish_of_head hne rfl
  have hmoved := (h.pickParked hmem).move (s.finish stint i (process.ticket :: rest))
    (fun j hj ↦ ?_) ?_ hclock hforms
  · have hsame : stintProcess stint times (s.finish stint i (process.ticket :: rest)) process.ticket =
        process := by
      rw [heq, stintProcess, stintProcess]
      dsimp only
      rw [hhas, hwaits]
      rfl
    have hput := hmoved.putReady hhas
    rw [hsame] at hput
    exact hput.putAnswer hdone
  · simp only [List.mem_cons, List.not_mem_nil, or_false, not_or] at hj
    refine Course.phase_finish_of_ne hj.2 fun hhead ↦ hj.1 ?_
    exact (Option.some.inj hhead).symm
  · exact List.forall_mem_cons.mpr ⟨hhas.trans_ne (by decide), List.forall_mem_singleton.mpr (hdone.trans_ne (by decide))⟩

/-- A stint leaves its lock to whoever is next. -/
theorem Places.finish (h : engine.Places stint times s n [i]) (hs : s.Sound stint total times)
    (hphase : s.phase i = .leaves) {rest : List Nat} (hline : s.line (stint i).key = i :: rest) {world : World}
    (hclock : world.clock = s.clock) (hforms : world.locks.Forms (Function.update s.line (stint i).key rest)) :
    Places { ({ engine with world }.grant rest.head?.toList) with answers := (i, times i) :: engine.answers } stint
      times (s.finish stint i rest) n [] := by
  cases rest with
  | nil =>
    rw [List.head?_nil, Option.toList_none, grant_nil]
    exact h.finish_nil hclock hforms
  | cons heir rest =>
    obtain ⟨-, -, hwaits⟩ := hs.waits_of_mem hline List.mem_cons_self
    have hne : heir ≠ i := by
      rintro rfl
      cases hphase.symm.trans hwaits
    obtain ⟨process, hmem, rfl⟩ := h.exists_parked (mt List.mem_singleton.mp hne) hwaits
    have hgrant : { engine with world }.grant [process.ticket] = _ :=
      grant_singleton hmem h.nodup_parked
    rw [List.head?_cons, Option.toList_some, hgrant]
    exact h.finish_cons hclock hmem hforms

theorem weight_finish (hs : s.Sound stint total times) {rest : List Nat}
    (hline : s.line (stint i).key = i :: rest) (j : Nat) :
    ((s.finish stint i rest).phase j).weight ≤ (s.phase j).weight := by
  rcases hs.finish_cases hline j with ⟨-, hdone⟩ | ⟨-, -, hwaits, hhas⟩ | ⟨-, -, hsame⟩
  · rw [hdone]
    exact Nat.zero_le _
  · rw [hwaits, hhas]
    decide
  · rw [hsame]

/-! ### Going on -/

/-- A stint goes on where it is. -/
theorem Places.goOn (h : engine.Places stint times s n [i]) (phase : Phase) (hborn : phase ≠ .unborn) :
    engine.Places stint times (s.goOn i phase) n [i] := by
  refine h.move (s.goOn i phase) (fun j hj ↦ ?_) ?_ h.clock h.forms
  · exact Course.phase_goOn_of_ne (mt List.mem_singleton.mpr hj)
  · exact List.forall_mem_singleton.mpr ((s.phase_goOn i phase).trans_ne hborn)

/-- A stint lines up. -/
theorem Places.lineUp (h : engine.Places stint times s n [i]) (phase : Phase) (hborn : phase ≠ .unborn)
    {world : World} (hclock : world.clock = s.clock)
    (hforms : world.locks.Forms (Function.update s.line (stint i).key (s.line (stint i).key ++ [i]))) :
    Places { engine with world } stint times (s.lineUp stint i phase) n [i] := by
  refine h.move (s.lineUp stint i phase) (fun j hj ↦ ?_) ?_ hclock hforms
  · exact Course.phase_lineUp_of_ne (mt List.mem_singleton.mpr hj)
  · exact List.forall_mem_singleton.mpr ((s.phase_lineUp stint i phase).trans_ne hborn)

variable (htimed : Timed stint total times) (hn : n ≤ total)
  (h : engine.Places stint times s n [i]) (hs : s.Sound stint total times)
include htimed hn h hs

/-- A stint gives its lock back. -/
theorem turn_leaves (hphase : s.phase i = .leaves) :
    ∃ s', Turn stint times total n i s (engine.step ⟨i, .go ((stint i).leave (times i).1)⟩) s' := by
  have hi : i < total := Nat.lt_of_lt_of_le (h.lt_of_mem List.mem_cons_self) hn
  have hfits := hs.fits i hi
  rw [hphase] at hfits
  obtain ⟨hheads, htime⟩ := hfits
  obtain ⟨rest, hline⟩ := List.head?_eq_some_iff.mp hheads
  obtain ⟨hforms, hheir⟩ := h.forms.release hline
  have hanswer : ((times i).1, engine.world.clock) = times i := by
    rw [h.clock, ← htime]
  have hstep : engine.step ⟨i, .go ((stint i).leave (times i).1)⟩ =
      { ({ engine with world.locks := (engine.world.locks.release i).1 }.grant rest.head?.toList) with
        answers := (i, times i) :: engine.answers } := by
    simp only [step, Resumption.run, run_leave, hheir, hanswer]
    rfl
  rw [hstep]
  refine ⟨s.finish stint i rest, h.finish hs hphase hline h.clock hforms, hs.finish hline htimed hi hphase, rfl,
    Course.weight_lt (fun j _ ↦ weight_finish hs hline j) hi ?_, fun j hj ↦ ?_⟩
  · rw [Course.phase_finish, hphase]
    decide
  · rcases hs.finish_cases hline j with ⟨-, hdone⟩ | ⟨-, -, -, hhas⟩ | ⟨hji, -, hsame⟩
    · cases hdone.symm.trans hj
    · cases hhas.symm.trans hj
    · exact ⟨hsame.symm.trans hj, hji⟩

/-- A stint that has its lock keeps it for its span. -/
theorem turn_has (hphase : s.phase i = .has) :
    ∃ s', Turn stint times total n i s (engine.step ⟨i, .go (stint i).keep⟩) s' := by
  have hi : i < total := Nat.lt_of_lt_of_le (h.lt_of_mem List.mem_cons_self) hn
  have hfits := hs.fits i hi
  rw [hphase] at hfits
  obtain ⟨hheads, htime⟩ := hfits
  have hend := htimed.span i hi
  have hclock : engine.world.clock = (times i).1 := h.clock.trans htime.symm
  by_cases hspan : (stint i).span = 0
  · -- it gives the lock back at once
    have hsound := hs.goOn i .leaves (by simp [hphase, Phase.Pending])
      (by simp [hphase, Phase.Lined]) (by decide) ⟨hheads, by omega⟩
    obtain ⟨s', hturn⟩ := turn_leaves htimed hn (h.goOn .leaves (by decide)) hsound (s.phase_goOn i .leaves)
    have hstep : engine.step ⟨i, .go (stint i).keep⟩ =
        engine.step ⟨i, .go ((stint i).leave (times i).1)⟩ := by
      simp only [step, Resumption.run, run_keep_of_span_eq_zero hspan, hclock]
    rw [hstep]
    exact ⟨s', hturn.of_le rfl (fun j _ ↦ weight_goOn .leaves (by rw [hphase]; decide) j)
      fun j _ hj ↦ (asks_goOn .leaves (by decide) hj).1⟩
  · have hholds := s.phase_goOn i .holds
    have hsound := hs.goOn i .holds (by simp [hphase, Phase.Pending])
      (by simp [hphase, Phase.Lined]) (by decide) ⟨hheads, by omega⟩
    have hstep : engine.step ⟨i, .go (stint i).keep⟩ =
        engine.setAlarm (times i).2 (stintProcess stint times (s.goOn i .holds) i) := by
      simp only [step, Resumption.run, run_keep_of_span_ne_zero hspan, grant_nil, hclock, hend,
        stintProcess, hholds]
      rfl
    have halarm := (h.goOn .holds (by decide)).setAlarm (Or.inr ⟨hholds, rfl⟩)
      fun hsleeps ↦ by cases hholds.symm.trans hsleeps
    rw [hstep]
    exact ⟨_, halarm, hsound, rfl, weight_goOn_lt hi (by rw [hphase]; decide),
      fun j hj ↦ asks_goOn .holds (by decide) hj⟩

section

variable (hphase : s.phase i = .asks) (hleast : ∀ j < total, j ≠ i → (s.phase j).Pending → Before stint i j)
include hphase hleast

/-- A stint that finds nobody in the line of its key takes its lock. -/
theorem turn_asks_of_nil (hnil : s.line (stint i).key = []) :
    ∃ s', Turn stint times total n i s (engine.step ⟨i, .go (stint i).take⟩) s' := by
  have hi : i < total := Nat.lt_of_lt_of_le (h.lt_of_mem List.mem_cons_self) hn
  have hforms := h.forms.request (hs.not_mem_line hphase) (stint i).key
  have hholds : (engine.world.locks.request (stint i).key i).holds i = true := by
    refine hforms.holds_iff.mpr ⟨(stint i).key, ?_⟩
    rw [Function.update_self, hnil]
    rfl
  have htime := hs.acquired_eq htimed hi hphase hleast hnil
  have hsound := hs.lineUp hi hphase .has trivial hleast (Or.inl ⟨rfl, hnil, htime⟩)
  have hplaces : Places { engine with world.locks := engine.world.locks.request (stint i).key i } stint times
      (s.lineUp stint i .has) n [i] := h.lineUp .has (by decide) h.clock hforms
  obtain ⟨s', hturn⟩ := turn_has htimed hn hplaces hsound (s.phase_lineUp stint i .has)
  have hstep : engine.step ⟨i, .go (stint i).take⟩ =
      { engine with world.locks := engine.world.locks.request (stint i).key i }.step ⟨i, .go (stint i).keep⟩ := by
    simp only [step, Resumption.run, run_take_of_holds hholds]
  rw [hstep]
  exact ⟨s', hturn.of_le rfl (fun j _ ↦ weight_goOn .has (by rw [hphase]; decide) j)
    fun j _ hj ↦ (asks_goOn .has (by decide) hj).1⟩

omit htimed in
/-- A stint that finds somebody in the line of its key waits. -/
theorem turn_asks_of_ne_nil (hnil : s.line (stint i).key ≠ []) :
    ∃ s', Turn stint times total n i s (engine.step ⟨i, .go (stint i).take⟩) s' := by
  have hi : i < total := Nat.lt_of_lt_of_le (h.lt_of_mem List.mem_cons_self) hn
  have hnew := hs.not_mem_line hphase
  have hforms := h.forms.request hnew (stint i).key
  have hholds : ¬ (engine.world.locks.request (stint i).key i).holds i = true := by
    intro hholds
    obtain ⟨key, hhead⟩ := hforms.holds_iff.mp hholds
    by_cases hkey : key = (stint i).key
    · rw [hkey, Function.update_self, List.head?_append_of_ne_nil _ hnil] at hhead
      exact hnew _ (List.mem_of_mem_head? hhead)
    · rw [Function.update_of_ne hkey] at hhead
      exact hnew _ (List.mem_of_mem_head? hhead)
  have hwaits := s.phase_lineUp stint i .waits
  have hsound := hs.lineUp hi hphase .waits trivial hleast (Or.inr ⟨rfl, hnil⟩)
  have hplaces : Places { engine with world.locks := engine.world.locks.request (stint i).key i } stint times
      (s.lineUp stint i .waits) n [i] := h.lineUp .waits (by decide) h.clock hforms
  have hstep : engine.step ⟨i, .go (stint i).take⟩ =
      { engine with
        world.locks := engine.world.locks.request (stint i).key i
        parked := stintProcess stint times (s.lineUp stint i .waits) i :: engine.parked } := by
    simp only [step, Resumption.run, run_take_of_not_holds hholds, grant_nil, stintProcess, hwaits]
    rfl
  rw [hstep]
  exact ⟨_, hplaces.putParked hwaits, hsound, rfl, weight_goOn_lt hi (by rw [hphase]; decide),
    fun j hj ↦ asks_goOn .waits (by decide) hj⟩

/-- A stint asks for its lock, and is the first of those who are about to. -/
theorem turn_asks : ∃ s', Turn stint times total n i s (engine.step ⟨i, .go (stint i).take⟩) s' := by
  by_cases hnil : s.line (stint i).key = []
  · exact turn_asks_of_nil htimed hn h hs hphase hleast hnil
  · exact turn_asks_of_ne_nil hn h hs hphase hleast hnil

end

end

end Engine

end PieceKeeper
