import Mathlib.Logic.Relation
import PieceKeeper.Proofs.Schedule.Diary
import PieceKeeper.Proofs.Schedule.Lodgings

/-!
# Rounds in the engine

A worker in the engine keeps to its schedule, whatever calls and other workers are there beside it, whoever has
the next turn, however late alarms go off, and whatever changes outside.  A round that began has its turns until
its call is answered all its requests, and only then the worker has ended that was told to stop.
-/

namespace PieceKeeper

variable {α β ρ : Type}

/-! ## The locks of a round -/

namespace Attempt

theorem brackets_bind {attempt : Attempt α} {next : α → Attempt β} {held : Bool}
    (h : attempt.run.Brackets held held) (hnext : ∀ answer, (next answer).run.Brackets held held) :
    (attempt >>= next).run.Brackets held held := by
  refine Call.Brackets.bind h fun outcome ↦ ?_
  cases outcome with
  | ok answer => exact hnext answer
  | error fault => rfl

theorem brackets_table (command : Table.Command) (held : Bool) :
    (table command).run.Brackets held held :=
  ⟨held, rfl, fun _ ↦ rfl⟩

theorem brackets_holding {attempt : Attempt α} (key : LockKey) (h : attempt.run.Brackets true true) :
    (attempt.holding key).run.Brackets false false := by
  refine ⟨true, rfl, fun _ ↦ ?_⟩
  change (attempt.run.bind fun outcome ↦ .ask (.release key) fun _ ↦ .done outcome).Brackets true false
  exact h.bind fun outcome ↦ ⟨false, rfl, fun _ ↦ rfl⟩

end Attempt

namespace Operation

open Attempt

theorem brackets_find (id : String) (held : Bool) : (find id).run.Brackets held held := by
  refine brackets_bind (brackets_table _ held) fun found ↦ ?_
  cases found with
  | none => rfl
  | some piece => rfl

theorem brackets_recordFinding (piece : Piece) (finding : Finding) (held : Bool) :
    (recordFinding piece finding).run.Brackets held held := by
  rw [recordFinding]
  split
  · refine brackets_bind (brackets_table _ held) fun updated ↦ ?_
    cases updated with
    | false => rfl
    | true => rfl
  · rfl

theorem brackets_settleBy (piece : Piece) (found : Option TransactionRecord) (held : Bool) :
    (settleBy piece found).run.Brackets held held := by
  cases found with
  | none => rfl
  | some record =>
    refine ⟨held, rfl, fun now ↦ ?_⟩
    have houtcome : (ofOutcome (piece.settle record now).2).run.Brackets held held := rfl
    exact brackets_bind houtcome fun finding ↦ brackets_recordFinding _ finding held

theorem brackets_observeLocked (id : String) (strict held : Bool) :
    (observeLocked id strict).run.Brackets held held := by
  refine brackets_bind (brackets_find id held) fun piece ↦ ?_
  split
  · split
    · rfl
    · rfl
  · split
    · split
      · rfl
      · rfl
    · refine brackets_bind ⟨held, rfl, fun _ ↦ rfl⟩ fun found ↦ ?_
      exact brackets_settleBy piece found held

theorem brackets_observeAll (locks : Nat) (report : Report) (pieces : List Piece) :
    (observeAll locks report pieces).Brackets false false := by
  induction pieces generalizing report with
  | nil => rfl
  | cons piece rest ih =>
    exact Call.Brackets.bind (brackets_holding _ (brackets_observeLocked _ _ _)) fun _ ↦ ih _

end Operation

/-- A round takes one lock at a time and gives back all that it takes. -/
theorem Manager.brackets_reconcile (manager : Manager) : manager.reconcile.run.Brackets false false := by
  refine Attempt.brackets_bind (Attempt.brackets_table _ false) fun pieces ↦ ?_
  exact Call.Brackets.bind (Operation.brackets_observeAll _ _ pieces) fun _ ↦ rfl

namespace Engine

/-! ## What can happen -/

/-- Whether a round of a worker is in flight. -/
def flies (engine : Engine ρ) (ticket : Nat) : Bool :=
  engine.workers.any fun employment ↦ employment.ticket == ticket && employment.worker.phase == .inRound

/-- What is noted about a worker in the turn of a process. -/
def signs (engine : Engine ρ) (process : Process ρ) (ticket : Nat) : Diary :=
  if process.ticket = ticket then
    let made := (process.rest.exchanges ticket engine.world).map .made
    match (process.rest.run ticket engine.world).stop with
    | .answered none =>
      (if (engine.step process).flies ticket then [.began engine.world.clock] else []) ++
        (if engine.flies ticket then [.ended] else []) ++ made
    | _ => made
  else []

/-- What can happen in an engine, and what of it is noted about the worker with a ticket. -/
inductive Move (ticket : Nat) (engine : Engine ρ) : Diary → Engine ρ → Prop
  /-- Anybody who can go on has a turn. -/
  | turn {before after : List (Process ρ)} {process : Process ρ} :
    engine.ready = before ++ process :: after →
      Move ticket engine (signs { engine with ready := before ++ after } process ticket)
        ({ engine with ready := before ++ after }.step process)
  /-- Time passes, even past alarms, or while somebody can go on. -/
  | pass {moment : Nat} : engine.world.clock ≤ moment → Move ticket engine [] (engine.passTo moment)
  | start (call : Call ρ) : Move ticket engine [] (engine.start call).2
  | startWorker (manager : Manager) (interval : Nat) :
    Move ticket engine [] (engine.startWorker manager interval).2
  /-- A worker is told to stop, or it is given up. -/
  | signal (other : Nat) : Move ticket engine (if other = ticket then [.told] else []) (engine.signal other)
  /-- Answers are taken away. -/
  | collect (answers : List (Nat × ρ)) : Move ticket engine [] { engine with answers }
  /-- Whatever is not the engine's own changes. -/
  | outside (depot : Depot) (script : Script) (remote : Option Remote) :
    Move ticket engine [] { engine with world := { engine.world with depot, script, remote } }

/-- An engine comes about that had no locks, calls and workers at first. -/
def Occurs (engine : Engine ρ) : Prop :=
  ∃ world : World, world.locks.locks = [] ∧
    Relation.ReflTransGen (fun engine engine' ↦ ∃ ticket signs, Move ticket engine signs engine')
      { world } engine

/-- The worker with a ticket was started at a moment, and a diary was kept about it since. -/
inductive Watched (ticket : Nat) (manager : Manager) (interval start : Nat) : Engine ρ → Diary → Prop
  | started {engine : Engine ρ} : engine.Occurs → engine.next = ticket → engine.world.clock = start →
    Watched ticket manager interval start (engine.startWorker manager interval).2 []
  | move {engine engine' : Engine ρ} {diary signs : Diary} :
    Watched ticket manager interval start engine diary → Move ticket engine signs engine' →
      Watched ticket manager interval start engine' (signs ++ diary)

/-! ## What the engine has of others -/

namespace Stands

variable {engine : Engine ρ} {ticket other : Nat} {staff : List Employment}
  {awake lined : List (Resumption (Option ρ))} {held : Nat} {process : Process ρ}

theorem passTo (h : engine.Stands ticket staff awake lined held) (moment : Nat) :
    (engine.passTo moment).Stands ticket staff awake lined held :=
  ⟨h.lodges.passTo moment, h.numbered, h.waits, h.held⟩

/-- Neither the tickets nor the answers matter, nor what is outside. -/
theorem same (h : engine.Stands ticket staff awake lined held) (world : World)
    (hlocks : world.locks = engine.world.locks) (answers : List (Nat × ρ)) (next : Nat) :
    Stands { engine with world, answers, next } ticket staff awake lined held := by
  obtain ⟨⟨hstaff, hawake, hlined⟩, hnumbered, hwaits, hheld⟩ := h
  rw [← hlocks] at hnumbered hwaits hheld
  exact ⟨⟨hstaff, hawake, hlined⟩, hnumbered, hwaits, hheld⟩

theorem wake_other (h : engine.Stands ticket staff awake lined held) {employment : Employment}
    (hne : employment.ticket ≠ ticket) :
    (engine.wake employment).Stands ticket staff awake lined held := by
  obtain ⟨hlodges, hnumbered, hwaits, hheld⟩ := h
  rw [← (engine.wake_same employment).1] at hnumbered hwaits hheld
  exact ⟨hlodges.wake_other hne, hnumbered, hwaits, hheld⟩

theorem signal_other (h : engine.Stands ticket staff awake lined held) (hne : other ≠ ticket) :
    (engine.signal other).Stands ticket staff awake lined held := by
  refine ⟨⟨?_, h.lodges.awake, h.lodges.lined⟩, h.numbered, h.waits, h.held⟩
  rw [← h.lodges.staff, signal]
  induction engine.workers with
  | nil => rfl
  | cons employment workers ih =>
    by_cases heq : employment.ticket = other
    · have hnot : employment.ticket ≠ ticket := heq.trans_ne hne
      simp only [List.map_cons, heq, beq_self_eq_true, if_true]
      rw [List.filter_cons_of_neg (by simpa using hne), List.filter_cons_of_neg (by simpa using hnot), ih]
    · rw [List.map_cons, if_neg (by simpa using heq), List.filter_cons, List.filter_cons, ih]

theorem pick_other (h : engine.Stands ticket staff awake lined held) {before after : List (Process ρ)}
    (hready : engine.ready = before ++ process :: after) (hne : process.ticket ≠ ticket) :
    Stands { engine with ready := before ++ after } ticket staff awake lined held :=
  ⟨h.lodges.pick_other hready hne, h.numbered, h.waits, h.held⟩

/-- Whoever can go on has another ticket when nothing of the ticket can. -/
theorem ticket_ne (h : engine.Stands ticket staff [] lined held) {before after : List (Process ρ)}
    (hready : engine.ready = before ++ process :: after) : process.ticket ≠ ticket := by
  intro heq
  have hnone := h.lodges.awake.eq_nil
  rw [hready, restsOf_append, restsOf_cons_of_eq heq] at hnone
  simp at hnone

end Stands

/-- What the engine has of a ticket stays as it is, except that the ticket may get the lock that it waits for. -/
structure Spares (ticket : Nat) (engine engine' : Engine ρ) : Prop where
  next : engine.next ≤ engine'.next
  stands : ∀ staff awake lined held, lined.length ≤ 1 → engine.Stands ticket staff awake lined held →
    engine'.Stands ticket staff awake lined held ∨
      ∃ rest, lined = [rest] ∧ engine'.Stands ticket staff (rest :: awake) [] (held + 1)

section

variable {engine engine' : Engine ρ} {ticket : Nat} {signs : Diary}

/-- Whatever happens is a turn of a process of the ticket, or tells its worker to stop, or has nothing to do with
the ticket. -/
theorem Move.cases_of_ticket (h : Move ticket engine signs engine')
    (hticket : ticket < engine.next ∨ engine'.next ≤ ticket) :
    (∃ before rest after, engine.ready = before ++ ⟨ticket, rest⟩ :: after ∧
      signs = Engine.signs { engine with ready := before ++ after } ⟨ticket, rest⟩ ticket ∧
      engine' = { engine with ready := before ++ after }.step ⟨ticket, rest⟩) ∨
    (signs = [.told] ∧ engine' = engine.signal ticket) ∨ signs = [] ∧ engine.Spares ticket engine' := by
  cases h with
  | @turn before after process hready =>
    obtain ⟨other, rest⟩ := process
    by_cases heq : other = ticket
    · subst heq
      exact Or.inl ⟨before, rest, after, hready, rfl, rfl⟩
    · have hnext : ({ engine with ready := before ++ after }.step ⟨other, rest⟩).next = engine.next :=
        (step_same _ _).2
      refine Or.inr (Or.inr ⟨if_neg heq, Nat.le_of_eq hnext.symm, ?_⟩)
      intro staff awake lined held hone hstands
      exact (hstands.pick_other hready heq).step_other hone heq
  | pass _ =>
    exact Or.inr (Or.inr ⟨rfl, Nat.le_refl _, fun _ _ _ _ _ hstands ↦ Or.inl (hstands.passTo _)⟩)
  | start call =>
    have hnext : (engine.start call).2.next = engine.next + 1 := (step_same _ _).2
    refine Or.inr (Or.inr ⟨rfl, hnext ▸ Nat.le_succ _, fun staff awake lined held hone hstands ↦ ?_⟩)
    refine (hstands.same engine.world rfl engine.answers (engine.next + 1)).step_other hone ?_
    show engine.next ≠ ticket
    omega
  | startWorker manager interval =>
    have hnext : (engine.startWorker manager interval).2.next = engine.next + 1 := (wake_same _ _).2
    refine Or.inr (Or.inr ⟨rfl, hnext ▸ Nat.le_succ _, fun staff awake lined held hone hstands ↦ Or.inl ?_⟩)
    refine (hstands.same engine.world rfl engine.answers (engine.next + 1)).wake_other ?_
    show engine.next ≠ ticket
    omega
  | signal other =>
    by_cases heq : other = ticket
    · subst heq
      exact Or.inr (Or.inl ⟨if_pos rfl, rfl⟩)
    · refine Or.inr (Or.inr ⟨if_neg heq, Nat.le_refl _, ?_⟩)
      exact fun _ _ _ _ _ hstands ↦ Or.inl (hstands.signal_other heq)
  | collect answers =>
    refine Or.inr (Or.inr ⟨rfl, Nat.le_refl _, fun _ _ _ _ _ hstands ↦ Or.inl ?_⟩)
    exact hstands.same engine.world rfl answers engine.next
  | outside depot script remote =>
    refine Or.inr (Or.inr ⟨rfl, Nat.le_refl _, fun _ _ _ _ _ hstands ↦ Or.inl ?_⟩)
    exact hstands.same { engine.world with depot, script, remote } rfl engine.answers engine.next

/-- What happens does not depend on whom it is noted about. -/
theorem Move.about (h : Move ticket engine signs engine') (other : Nat) :
    ∃ signs, Move other engine signs engine' := by
  cases h with
  | turn hready => exact ⟨_, .turn hready⟩
  | pass hle => exact ⟨_, .pass hle⟩
  | start call => exact ⟨_, .start call⟩
  | startWorker manager interval => exact ⟨_, .startWorker manager interval⟩
  | signal told => exact ⟨_, .signal told⟩
  | collect answers => exact ⟨_, .collect answers⟩
  | outside depot script remote => exact ⟨_, .outside depot script remote⟩

/-- Tickets that were given out are not given out again. -/
theorem Move.next_le (h : Move ticket engine signs engine') : engine.next ≤ engine'.next := by
  obtain ⟨signs, h⟩ := h.about engine'.next
  rcases h.cases_of_ticket (Or.inr (Nat.le_refl _)) with ⟨_, _, _, -, -, heq⟩ | ⟨-, heq⟩ | ⟨-, hspares⟩
  · have hnext := congrArg Engine.next heq
    rw [(step_same _ _).2] at hnext
    exact Nat.le_of_eq hnext.symm
  · exact Nat.le_of_eq (congrArg Engine.next heq).symm
  · exact hspares.next

/-- The staff of a ticket is told to stop. -/
theorem Stands.signal_self {staff : List Employment} {awake lined : List (Resumption (Option ρ))} {held : Nat}
    (h : engine.Stands ticket staff awake lined held) : (engine.signal ticket).Stands ticket
      (staff.map fun employment ↦ { employment with worker := employment.worker.stop }) awake lined held := by
  refine ⟨⟨?_, h.lodges.awake, h.lodges.lined⟩, h.numbered, h.waits, h.held⟩
  rw [← h.lodges.staff, signal]
  induction engine.workers with
  | nil => rfl
  | cons employment workers ih =>
    by_cases heq : employment.ticket = ticket
    · rw [List.map_cons, if_pos (by simpa using heq), List.filter_cons_of_pos (by simpa using heq),
        List.filter_cons_of_pos (by simpa using heq), List.map_cons, ih]
    · rw [List.map_cons, if_neg (by simpa using heq), List.filter_cons_of_neg (by simpa using heq),
        List.filter_cons_of_neg (by simpa using heq), ih]

/-! ## Before a worker is started -/

/-- Nothing is there of tickets that were not given out yet. -/
def Unborn (engine : Engine ρ) : Prop := ∀ ticket, engine.next ≤ ticket → engine.Stands ticket [] [] [] 0

theorem Unborn.move (h : engine.Unborn) (hmove : Move ticket engine signs engine') : engine'.Unborn := by
  intro other hother
  obtain ⟨signs, hmove⟩ := hmove.about other
  have hstands := h other (Nat.le_trans hmove.next_le hother)
  rcases hmove.cases_of_ticket (Or.inr hother) with ⟨_, _, _, hready, -, -⟩ | ⟨-, rfl⟩ | ⟨-, hspares⟩
  · exact absurd rfl (hstands.ticket_ne hready)
  · exact hstands.signal_self
  · refine (hspares.stands [] [] [] 0 (Nat.zero_le 1) hstands).resolve_right ?_
    rintro ⟨rest, hnil, -⟩
    cases hnil

theorem Occurs.unborn (h : engine.Occurs) : engine.Unborn := by
  obtain ⟨world, hlocks, hmoves⟩ := h
  induction hmoves with
  | refl =>
    refine fun ticket _ ↦ ⟨⟨rfl, .refl _, rfl⟩, ⟨?_, ?_⟩, ?_, ?_⟩
    all_goals simp [hlocks, Locks.waits, Locks.held, Locks.tally]
  | tail _ hmove ih =>
    obtain ⟨watched, signs, hmove⟩ := hmove
    exact ih.move hmove

/-! ## Alarms -/

/-- No alarm was due before the present. -/
def Ahead (engine : Engine ρ) : Prop := ∀ alarm ∈ engine.alarms, engine.world.clock ≤ alarm.due

theorem Ahead.wake (h : engine.Ahead) (employment : Employment) : (engine.wake employment).Ahead := by
  rw [Ahead, (wake_same _ _).1, Engine.wake]
  dsimp only
  split
  · exact h
  · exact h
  · rename_i hwaiting
    refine List.forall_mem_cons.mpr ⟨?_, h⟩
    rw [Worker.wake] at hwaiting ⊢
    split at hwaiting
    · cases hwaiting
    · rename_i hnot
      rw [if_neg hnot]
      exact Nat.le_of_not_le fun hdue ↦ hnot ⟨hwaiting, hdue⟩

theorem Ahead.endRound (h : engine.Ahead) (ticket : Nat) : (engine.endRound ticket).Ahead := by
  rw [Engine.endRound]
  split
  · exact h
  · exact h.wake _

theorem Ahead.step (h : engine.Ahead) (hnumbered : engine.world.locks.Numbered) (process : Process ρ) :
    (engine.step process).Ahead := by
  have hclock := (process.rest.run_spares (Nat.succ_ne_self process.ticket) hnumbered).clock
  have hgranted : ({ engine with world := (process.rest.run process.ticket engine.world).world }.grant
      (process.rest.run process.ticket engine.world).granted).Ahead :=
    fun alarm hmem ↦ hclock.symm ▸ h alarm hmem
  rw [Engine.step]
  split
  · exact hgranted
  · exact hgranted.endRound _
  · exact hgranted
  · exact hgranted
  · exact List.forall_mem_cons.mpr ⟨Nat.le_add_right _ _, hgranted⟩

theorem Ahead.move (h : engine.Ahead) (hunborn : engine.Unborn) (hmove : Move ticket engine signs engine') :
    engine'.Ahead := by
  have hnumbered := (hunborn engine.next (Nat.le_refl _)).numbered
  cases hmove with
  | turn hready => exact Ahead.step (by exact h) (by exact hnumbered) _
  | pass _ =>
    rw [Engine.passTo, List.partition_eq_filter_filter]
    refine fun alarm hmem ↦ Nat.le_of_lt ?_
    simpa using (List.mem_filter.mp hmem).2
  | start call => exact Ahead.step (by exact h) (by exact hnumbered) _
  | startWorker manager interval => exact Ahead.wake (by exact h) _
  | signal other => exact h
  | collect answers => exact h
  | outside depot script remote => exact h

theorem Occurs.move (h : engine.Occurs) (hmove : Move ticket engine signs engine') : engine'.Occurs := by
  obtain ⟨world, hlocks, hmoves⟩ := h
  exact ⟨world, hlocks, hmoves.tail ⟨ticket, signs, hmove⟩⟩

theorem Occurs.ahead (h : engine.Occurs) : engine.Ahead := by
  obtain ⟨world, hlocks, hmoves⟩ := h
  induction hmoves with
  | refl => exact fun alarm hmem ↦ absurd hmem List.not_mem_nil
  | tail hmoves hmove ih =>
    obtain ⟨watched, signs, hmove⟩ := hmove
    exact ih.move (Occurs.unborn ⟨world, hlocks, hmoves⟩) hmove

theorem Watched.occurs {manager : Manager} {interval start : Nat} {diary : Diary}
    (h : engine.Watched ticket manager interval start diary) : engine.Occurs := by
  induction h with
  | started hoccurs _ _ => exact hoccurs.move (@Move.startWorker _ 0 _ manager interval)
  | move _ hmove ih => exact ih.move hmove

/-- The engine lets its own time pass, and whoever is ready go on. -/
theorem Watched.runUntil {manager : Manager} {interval start : Nat} {diary : Diary}
    (h : engine.Watched ticket manager interval start diary) (test : Engine ρ → Bool) (room : Nat) :
    ∃ later, (engine.runUntil test room).Watched ticket manager interval start (later ++ diary) := by
  induction room generalizing engine diary with
  | zero => exact ⟨[], h⟩
  | succ room ih =>
    rw [Engine.runUntil]
    split
    · exact ⟨[], h⟩
    split
    · rename_i process ready hready
      obtain ⟨later, hlater⟩ := ih (h.move (@Move.turn _ _ _ [] _ _ hready))
      exact ⟨_, List.append_assoc _ _ _ ▸ hlater⟩
    · split
      · rename_i moment hmoment
        obtain ⟨alarm, hmem, rfl⟩ := List.mem_map.mp (List.min?_eq_some_iff.mp hmoment).1
        exact ih (h.move (.pass (h.occurs.ahead alarm hmem)))
      · exact ⟨[], h⟩

end

end Engine

end PieceKeeper
