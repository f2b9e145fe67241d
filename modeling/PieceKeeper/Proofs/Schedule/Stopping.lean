import PieceKeeper.Proofs.Schedule.Attendance

/-!
# Stopping a worker

A round in flight comes to its end if only it has its turns.  Those who are ready have their turns in the order
in which they came, so whoever stops a worker and waits for it finds it ended some time, and returns no sooner.
-/

namespace PieceKeeper

/-! ## Diaries -/

namespace Diary

/-- A diary after what is noted later, one move after the other. -/
def after (diary : Diary) (notes : Nat → Diary) : Nat → Diary
  | 0 => diary
  | n + 1 => notes n ++ after diary notes n

variable {α : Type} {round : Call α} {interval start : Nat} {diary notes : Diary}

/-- No round begins once the worker was told to stop. -/
theorem Kept.began_not_mem (h : Kept round interval start (notes ++ diary)) (htold : .told ∈ diary)
    (moment : Nat) : Sign.began moment ∉ notes := by
  induction notes with
  | nil => exact List.not_mem_nil
  | cons sign notes ih =>
    cases h with
    | began _ _ hnot => exact absurd (List.mem_append_right notes htold) hnot
    | made exchange hkept _ => simpa using ih hkept
    | ended hkept _ _ => simpa using ih hkept
    | told hkept => simpa using ih hkept

/-- No round is in flight any more when one ended after the worker was told to stop. -/
theorem Kept.inFlight_of_ended (h : Kept round interval start (notes ++ diary)) (htold : .told ∈ diary)
    (hended : .ended ∈ notes) : (notes ++ diary).inFlight = false := by
  induction notes with
  | nil => cases hended
  | cons sign notes ih =>
    cases h with
    | began _ _ hnot => exact absurd (List.mem_append_right notes htold) hnot
    | made exchange hkept _ => exact ih hkept (by simpa using hended)
    | ended _ _ _ => rfl
    | told hkept => exact ih hkept (by simpa using hended)

/-- A round that is not in flight any more has ended. -/
theorem ended_mem_of_inFlight (hflight : diary.inFlight = true) (hnot : (notes ++ diary).inFlight = false) :
    .ended ∈ notes := by
  induction notes with
  | nil => cases hflight.symm.trans hnot
  | cons sign notes ih =>
    cases sign with
    | began moment => cases hnot
    | ended => exact List.mem_cons_self
    | made exchange => exact List.mem_cons_of_mem _ (ih hnot)
    | told => exact List.mem_cons_of_mem _ (ih hnot)

theorem told_mem_after (htold : .told ∈ diary) (later : Nat → Diary) (n : Nat) : .told ∈ diary.after later n := by
  induction n with
  | zero => exact htold
  | succ n ih => exact List.mem_append_right _ ih

end Diary

namespace Engine

variable {ρ : Type}

/-! ## Turns -/

/-- The process of a ticket has a turn. -/
def HasTurn (ticket : Nat) (engine : Engine ρ) (noted : Diary) (engine' : Engine ρ) : Prop :=
  ∃ before rest after, engine.ready = before ++ ⟨ticket, rest⟩ :: after ∧
    noted = signs { engine with ready := before ++ after } ⟨ticket, rest⟩ ticket ∧
    engine' = { engine with ready := before ++ after }.step ⟨ticket, rest⟩

/-- What is left of all processes of a ticket. -/
def remains (engine : Engine ρ) (ticket : Nat) : List (Resumption (Option ρ)) :=
  restsOf (engine.ready ++ engine.parked ++ engine.alarms.map (·.process)) ticket

/-- What the engine shows of a worker. -/
structure Shows (engine : Engine ρ) (ticket : Nat) (manager : Manager) (diary : Diary) : Prop where
  /-- A round in flight has one process, and that is what is left of the round after what happened to it. -/
  flying : diary.inFlight = true → ∃ rest before, engine.remains ticket = [rest] ∧
    manager.reconcile.run.Leads diary.current before ∧ rest.call = before.bind fun _ ↦ .done none
  /-- Between two rounds there is nothing left to do. -/
  resting : diary.inFlight = false → ∀ rest ∈ engine.remains ticket, rest = .go (.done none)
  /-- A worker that has ended has no round in flight. -/
  ended : engine.hasEnded ticket = true → diary.inFlight = false
  /-- A worker that was told to stop has ended when its round has. -/
  told : .told ∈ diary → diary.inFlight = false → engine.hasEnded ticket = true

variable {engine : Engine ρ} {ticket interval start : Nat} {manager : Manager} {diary : Diary}
  {rest : Resumption (Option ρ)}

theorem Attends.shows (h : engine.Attends ticket manager interval start diary) :
    engine.Shows ticket manager diary := by
  rcases h with ⟨-, -, hflight, worker, awake, hfits, -, hidle, hstands⟩ |
    ⟨rest, -, -, hflight, hleads, worker, hfits, hrides⟩
  · have hperm := hstands.lodges.perm
    rw [List.append_nil] at hperm
    refine ⟨fun hin ↦ ?_, fun _ rest hmem ↦ hidle rest (hperm.mem_iff.mp hmem), fun _ ↦ hflight, ?_⟩
    · cases hflight.symm.trans hin
    · exact fun htold _ ↦ hstands.hasEnded_iff.mpr ((hfits.ended_iff htold).mpr hflight)
  · obtain ⟨awake, lined, held, hstands, hrest⟩ := hrides.stands
    refine ⟨fun _ ↦ ?_, fun hnot ↦ ?_, fun hended ↦ ?_, fun _ hnot ↦ ?_⟩
    · obtain ⟨before, hbefore, heq⟩ := hleads.of_bind
      exact ⟨rest, before, List.perm_singleton.mp (hrest ▸ hstands.lodges.perm), hbefore, heq⟩
    · cases hflight.symm.trans hnot
    · cases (hfits.phase.mpr hflight).symm.trans (hstands.hasEnded_iff.mp hended)
    · cases hflight.symm.trans hnot

theorem Attends.kept (h : engine.Attends ticket manager interval start diary) :
    diary.Kept manager.reconcile.run interval start := by
  rcases h with hwaits | ⟨rest, hcarries⟩
  · exact hwaits.kept
  · exact hcarries.kept

/-- A round that has turns, as long as it is in flight, comes to its end. -/
theorem Carries.ends {run : Nat → Engine ρ} {notes : Nat → Diary}
    (hmoves : ∀ n, Move ticket (run n) (notes n) (run (n + 1)))
    (hturns : ∀ n, (diary.after notes n).inFlight = true →
      ∃ m ≥ n, HasTurn ticket (run m) (notes m) (run (m + 1))) (n : Nat)
    (h : (run n).Carries ticket manager interval start (diary.after notes n) rest) :
    ∃ m ≥ n, .ended ∈ notes m := by
  induction rest using Resumption.wellFounded_nearer.induction generalizing n with
  | h rest ih =>
    obtain ⟨m, hle, before, other, after, hready, hnoted, hstep⟩ := hturns n h.inFlight
    by_contra hnot
    have hnone (m : Nat) (hle : n ≤ m) : Sign.ended ∉ notes m := fun hended ↦ hnot ⟨m, hle, hended⟩
    -- until its turn it stays what it is
    have hsame (k : Nat) (hk : n ≤ k) :
        (run k).Carries ticket manager interval start (diary.after notes k) rest := by
      induction k, hk using Nat.le_induction with
      | base => exact h
      | succ k hk hcarries =>
        rcases hcarries.move (hmoves k) with ⟨hended, -⟩ | ⟨later, rfl | hnearer, hlater⟩
        · exact absurd hended (hnone k hk)
        · exact hlater
        · obtain ⟨m', hle', hended⟩ := ih later hnearer (k + 1) hlater
          exact absurd hended (hnone m' (by omega))
    obtain ⟨hnext, hkept, hflight, hleads, worker, hfits, hrides⟩ := hsame m hle
    obtain ⟨rfl, held, hbrackets, hstands⟩ := hrides.pick hready
    rcases Carries.of_step (by exact hnext) hkept hflight hleads hfits hbrackets hstands with
      ⟨hended, -⟩ | ⟨later, hnearer, hlater⟩
    · exact hnone m hle (hnoted ▸ hended)
    · rw [← hnoted, ← hstep] at hlater
      obtain ⟨m', hle', hended⟩ := ih later hnearer (m + 1) hlater
      exact absurd hended (hnone m' (by omega))

/-! ## Turns in a row -/

theorem runUntil_of_test {test : Engine ρ → Bool} (h : test engine = true) (room : Nat) :
    engine.runUntil test room = engine := by
  cases room with
  | zero => rfl
  | succ room => rw [runUntil, if_pos h]

theorem runUntil_of_idle {test : Engine ρ → Bool} (hready : engine.ready = [])
    (hnext : engine.nextMoment = none) (room : Nat) : engine.runUntil test room = engine := by
  cases room with
  | zero => rfl
  | succ room => simp only [runUntil, hready, hnext, ite_self]

/-- More room is used after less. -/
theorem runUntil_add (test : Engine ρ → Bool) (room more : Nat) (engine : Engine ρ) :
    engine.runUntil test (room + more) = (engine.runUntil test room).runUntil test more := by
  induction room generalizing engine with
  | zero => rw [Nat.zero_add, runUntil]
  | succ room ih =>
    by_cases htest : test engine = true
    · rw [runUntil_of_test htest, runUntil_of_test htest, runUntil_of_test htest]
    rw [Nat.add_right_comm, runUntil, runUntil, if_neg htest, if_neg htest]
    cases hready : engine.ready with
    | cons process ready => exact ih _
    | nil =>
      cases hnext : engine.nextMoment with
      | some moment => exact ih _
      | none => exact (runUntil_of_idle hready hnext more).symm

/-- Whoever gets ready comes behind those who are. -/
theorem wake_ready (engine : Engine ρ) (employment : Employment) :
    ∃ added, (engine.wake employment).ready = engine.ready ++ added := by
  rw [wake]
  dsimp only
  split
  · exact ⟨[], (List.append_nil _).symm⟩
  · exact ⟨_, rfl⟩
  · exact ⟨[], (List.append_nil _).symm⟩

theorem step_ready (engine : Engine ρ) (process : Process ρ) :
    ∃ added, (engine.step process).ready = engine.ready ++ added := by
  rw [step]
  split
  · exact ⟨_, rfl⟩
  · rw [endRound]
    split
    · exact ⟨_, rfl⟩
    · obtain ⟨added, hadded⟩ := wake_ready (grant { engine with
        world := (process.rest.run process.ticket engine.world).world }
          (process.rest.run process.ticket engine.world).granted) { ‹Employment› with
            worker := (‹Employment›).worker.finish }
      exact ⟨_, hadded.trans (List.append_assoc _ _ _)⟩
  · exact ⟨_, List.append_assoc _ _ _⟩
  · exact ⟨_, rfl⟩
  · exact ⟨_, rfl⟩

/-- The next step of the engine is the turn of the one that has been ready longest. -/
theorem runUntil_one {test : Engine ρ → Bool} (htest : test engine = false) {process : Process ρ}
    {ready : List (Process ρ)} (hready : engine.ready = process :: ready) :
    engine.runUntil test 1 = { engine with ready }.step process := by
  rw [runUntil, if_neg (Bool.not_eq_true _ ▸ htest), hready]
  rfl

/-- The next step of the engine is a move. -/
theorem Occurs.exists_move (h : engine.Occurs) (ticket : Nat) (test : Engine ρ → Bool)
    (htest : test engine = false) : ∃ noted, Move ticket engine noted (engine.runUntil test 1) ∧
      ∀ rest ready, engine.ready = ⟨ticket, rest⟩ :: ready →
        HasTurn ticket engine noted (engine.runUntil test 1) := by
  cases hready : engine.ready with
  | cons process ready =>
    rw [runUntil_one htest hready]
    refine ⟨_, @Move.turn _ _ _ [] _ _ hready, fun rest after heq ↦ ?_⟩
    cases heq
    exact ⟨[], rest, ready, hready, rfl, rfl⟩
  | nil =>
    cases hnext : engine.nextMoment with
    | some moment =>
      obtain ⟨alarm, hmem, rfl⟩ := List.mem_map.mp (List.min?_eq_some_iff.mp hnext).1
      have hpass : engine.runUntil test 1 = engine.passTo alarm.due := by
        rw [runUntil, if_neg (Bool.not_eq_true _ ▸ htest), hready, hnext]
        rfl
      rw [hpass]
      exact ⟨_, .pass (h.ahead alarm hmem), fun _ _ heq ↦ absurd heq.symm (List.cons_ne_nil _ _)⟩
    | none =>
      rw [runUntil_of_idle hready hnext]
      exact ⟨_, .collect engine.answers, fun _ _ heq ↦ absurd heq.symm (List.cons_ne_nil _ _)⟩

/-- Those who are ready have their turns one after the other. -/
theorem exists_head {run : Nat → Engine ρ} {process : Process ρ}
    (hrun : ∀ n next ready, (run n).ready = next :: ready → ∃ added, (run (n + 1)).ready = ready ++ added)
    {n : Nat} (hmem : process ∈ (run n).ready) : ∃ m ≥ n, ∃ ready, (run m).ready = process :: ready := by
  obtain ⟨before, after, hready⟩ := List.append_of_mem hmem
  -- on those who are ready before it
  induction before generalizing n after with
  | nil => exact ⟨n, Nat.le_refl n, after, hready⟩
  | cons next before ih =>
    obtain ⟨added, hadded⟩ := hrun n next (before ++ process :: after) hready
    rw [List.append_assoc, List.cons_append] at hadded
    obtain ⟨m, hle, hhead⟩ := ih (by simp [hadded]) _ hadded
    exact ⟨m, by omega, hhead⟩

/-! ## Waiting for the end -/

/-- Whoever stops a worker waits for its end. -/
structure Awaits (engine : Engine ρ) (ticket : Nat) (manager : Manager) (interval start : Nat)
    (diary : Diary) : Prop where
  /-- A stop that returns finds the worker ended.  No round began since it was told to stop, and the one that was
  in flight ended. -/
  returns : ∀ room later, engine.stopWorker room ticket = some later → later.hasEnded ticket = true ∧
    ∃ notes : Diary, later.Watched ticket manager interval start (notes ++ .told :: diary) ∧
      Diary.inFlight (notes ++ .told :: diary) = false ∧ (∀ moment, .began moment ∉ notes) ∧
      (diary.inFlight = true → .ended ∈ notes)
  /-- A stop that does not return is still waiting for a round. -/
  waits : ∀ room, engine.stopWorker room ticket = none → ∃ notes : Diary,
    (engine.waitFor room ticket).Watched ticket manager interval start (notes ++ .told :: diary) ∧
      Diary.inFlight (notes ++ .told :: diary) = true
  /-- With enough room a stop returns, if only the round gets ready again whenever it waits for a lock or for
  time to pass. -/
  settles : (∀ n, (engine.waitFor n ticket).hasEnded ticket = false →
      ∃ m ≥ n, ∃ rest, ⟨ticket, rest⟩ ∈ (engine.waitFor m ticket).ready) →
    ∃ room later, ∀ more ≥ room, engine.stopWorker more ticket = some later

theorem stopWorker_eq_some {room : Nat} {later : Engine ρ} : engine.stopWorker room ticket = some later ↔
    (engine.waitFor room ticket).hasEnded ticket = true ∧ engine.waitFor room ticket = later := by
  simp [stopWorker]

/-- Whoever has seen the worker end sees nothing more. -/
theorem waitFor_of_hasEnded {room more : Nat} (h : (engine.waitFor room ticket).hasEnded ticket = true)
    (hle : room ≤ more) : engine.waitFor more ticket = engine.waitFor room ticket := by
  obtain ⟨rest, rfl⟩ := Nat.exists_eq_add_of_le hle
  exact (runUntil_add _ room rest _).trans (runUntil_of_test h rest)

theorem waitFor_succ (engine : Engine ρ) (room ticket : Nat) : engine.waitFor (room + 1) ticket =
    (engine.waitFor room ticket).runUntil (fun engine ↦ engine.hasEnded ticket) 1 :=
  runUntil_add _ room 1 _

theorem Watched.told (h : engine.Watched ticket manager interval start diary) :
    (engine.signal ticket).Watched ticket manager interval start (.told :: diary) := by
  have hsignal := h.move (.signal ticket)
  rwa [if_pos rfl] at hsignal

/-- Whoever waits for a worker watches it. -/
theorem Watched.waitFor (h : engine.Watched ticket manager interval start diary) (room : Nat) :
    ∃ notes : Diary,
      (engine.waitFor room ticket).Watched ticket manager interval start (notes ++ .told :: diary) :=
  h.told.runUntil (fun engine ↦ engine.hasEnded ticket) room

/-- The worker ends in a run in which its round gets ready as long as it has not. -/
theorem Watched.exists_hasEnded (h : engine.Watched ticket manager interval start diary)
    (hready : ∀ n, (engine.waitFor n ticket).hasEnded ticket = false →
      ∃ m ≥ n, ∃ rest, ⟨ticket, rest⟩ ∈ (engine.waitFor m ticket).ready) :
    ∃ n, (engine.waitFor n ticket).hasEnded ticket = true := by
  by_contra hnever
  have hnot (n : Nat) : (engine.waitFor n ticket).hasEnded ticket = false :=
    Bool.not_eq_true _ ▸ fun hended ↦ hnever ⟨n, hended⟩
  have hoccurs (n : Nat) : (engine.waitFor n ticket).Occurs := by
    obtain ⟨notes, hlater⟩ := h.waitFor n
    exact hlater.occurs
  choose notes hmoves hturns using fun n ↦
    (hoccurs n).exists_move ticket (fun engine ↦ engine.hasEnded ticket) (hnot n)
  simp only [← waitFor_succ] at hmoves hturns
  have hwatched (n : Nat) : (engine.waitFor n ticket).Watched ticket manager interval start
      (Diary.after (.told :: diary) notes n) := by
    induction n with
    | zero => exact h.told
    | succ n ih => exact ih.move (hmoves n)
  rcases h.told.attends with hwaits | ⟨rest, hcarries⟩
  · have hended := h.told.attends.shows.told List.mem_cons_self hwaits.inFlight
    cases hended.symm.trans (hnot 0)
  have hqueue (n : Nat) (next : Process ρ) (ready : List (Process ρ))
      (hhead : (engine.waitFor n ticket).ready = next :: ready) :
      ∃ added, (engine.waitFor (n + 1) ticket).ready = ready ++ added := by
    rw [waitFor_succ, runUntil_one (hnot n) hhead]
    exact step_ready _ next
  obtain ⟨m, -, hended⟩ := Carries.ends hmoves (fun n _ ↦ by
    obtain ⟨m, hle, rest, hmem⟩ := hready n (hnot n)
    obtain ⟨k, hle', ready, hhead⟩ := exists_head hqueue hmem
    exact ⟨k, Nat.le_trans hle hle', hturns k rest ready hhead⟩) 0 hcarries
  have hattends := (hwatched (m + 1)).attends
  have hin := hattends.kept.inFlight_of_ended (Diary.told_mem_after List.mem_cons_self notes m) hended
  have hend := hattends.shows.told (List.mem_append_right _ (Diary.told_mem_after List.mem_cons_self notes m)) hin
  cases hend.symm.trans (hnot (m + 1))

theorem Watched.awaits (h : engine.Watched ticket manager interval start diary) :
    engine.Awaits ticket manager interval start diary := by
  refine ⟨fun room later hstop ↦ ?_, fun room hstop ↦ ?_, fun hready ↦ ?_⟩
  · obtain ⟨hended, rfl⟩ := stopWorker_eq_some.mp hstop
    obtain ⟨notes, hlater⟩ := h.waitFor room
    have hin := hlater.attends.shows.ended hended
    refine ⟨hended, notes, hlater, hin, hlater.attends.kept.began_not_mem List.mem_cons_self, fun hflight ↦ ?_⟩
    have hfirst : Diary.inFlight (.told :: diary) = true := hflight
    exact Diary.ended_mem_of_inFlight hfirst hin
  · obtain ⟨notes, hlater⟩ := h.waitFor room
    refine ⟨notes, hlater, ?_⟩
    by_contra hnot
    have htold : Sign.told ∈ notes ++ .told :: diary := List.mem_append_right _ List.mem_cons_self
    have hended := hlater.attends.shows.told htold (Bool.eq_false_of_not_eq_true hnot)
    cases hstop.symm.trans (stopWorker_eq_some.mpr ⟨hended, rfl⟩)
  · obtain ⟨room, hended⟩ := h.exists_hasEnded hready
    refine ⟨room, engine.waitFor room ticket, fun more hle ↦ stopWorker_eq_some.mpr ?_⟩
    rw [waitFor_of_hasEnded hended hle]
    exact ⟨hended, rfl⟩

end Engine

end PieceKeeper
