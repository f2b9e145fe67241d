import PieceKeeper.Proofs.Schedule.Rounds

/-!
# Attendance

Between two rounds a worker has at most one process, which only waits.  In a round it has one process, and that
is what is left of the round: it stays until it has a turn, and in its turn it comes nearer to its end.
-/

namespace PieceKeeper.Engine

variable {ρ : Type}

/-- A round as the engine runs it, which has no answer for anybody. -/
def tour (manager : Manager) : Call (Option ρ) := manager.reconcile.run.bind fun _ ↦ .done none

/-! ## What is left of a round -/

/-- What is left of a round in the engine: it has the lock that it has to give back, or waits for it. -/
inductive Rides (engine : Engine ρ) (ticket : Nat) (staff : List Employment) (rest : Resumption (Option ρ)) :
    Prop
  | awake {held : Bool} : rest.call.Brackets held false → engine.Stands ticket staff [rest] [] held.toNat →
    Rides engine ticket staff rest
  | lined : rest.call.Brackets true false → engine.Stands ticket staff [] [rest] 0 →
    Rides engine ticket staff rest

section

variable {engine engine' : Engine ρ} {ticket interval start : Nat} {manager : Manager} {worker : Worker}
  {diary signs : Diary} {staff : List Employment} {awake lined : List (Resumption (Option ρ))} {held : Nat}
  {rest : Resumption (Option ρ)}

theorem Lodges.perm (h : engine.Lodges ticket staff awake lined) :
    (restsOf (engine.ready ++ engine.parked ++ engine.alarms.map (·.process)) ticket).Perm (awake ++ lined) := by
  rw [restsOf_append, restsOf_append, h.lined, List.append_assoc]
  refine (List.perm_append_comm_assoc _ _ _).trans ?_
  exact List.perm_append_comm.trans (h.awake.append_right _)

theorem Rides.spares (h : engine.Rides ticket staff rest) (hspares : engine.Spares ticket engine') :
    engine'.Rides ticket staff rest := by
  cases h with
  | awake hbrackets hstands =>
    rcases hspares.stands _ _ [] _ (Nat.zero_le 1) hstands with hstands | ⟨_, hnil, -⟩
    · exact .awake hbrackets hstands
    · cases hnil
  | lined hbrackets hstands =>
    rcases hspares.stands _ _ [rest] _ (Nat.le_refl 1) hstands with hstands | ⟨_, hsame, hstands⟩
    · exact .lined hbrackets hstands
    · cases hsame
      exact @Rides.awake _ _ _ _ _ true hbrackets hstands

theorem Rides.signal (h : engine.Rides ticket staff rest) : (engine.signal ticket).Rides ticket
    (staff.map fun employment ↦ { employment with worker := employment.worker.stop }) rest := by
  cases h with
  | awake hbrackets hstands => exact .awake hbrackets hstands.signal_self
  | lined hbrackets hstands => exact .lined hbrackets hstands.signal_self

theorem Rides.stands (h : engine.Rides ticket staff rest) : ∃ awake lined held,
    engine.Stands ticket staff awake lined held ∧ awake ++ lined = [rest] := by
  cases h with
  | awake _ hstands => exact ⟨_, _, _, hstands, rfl⟩
  | lined _ hstands => exact ⟨_, _, _, hstands, rfl⟩

/-- Whoever has a turn under the ticket of a round is the round, and it waits for no lock. -/
theorem Rides.pick (h : engine.Rides ticket staff rest) {before after : List (Process ρ)}
    {other : Resumption (Option ρ)} (hready : engine.ready = before ++ ⟨ticket, other⟩ :: after) :
    other = rest ∧ ∃ held : Bool, rest.call.Brackets held false ∧
      Stands { engine with ready := before ++ after } ticket staff [] [] held.toNat := by
  cases h with
  | @awake held hbrackets hstands =>
    obtain ⟨hrest, hlodges⟩ := hstands.lodges.pick_self hready rfl
    exact ⟨hrest, held, hbrackets, hlodges, hstands.numbered, hstands.waits, hstands.held⟩
  | lined _ hstands => exact absurd rfl (hstands.ticket_ne hready)

/-- A process of a ticket runs until it stops.  If it has come to its end, the worker of the ticket goes on. -/
theorem Stands.step_self {held : Bool} (h : engine.Stands ticket staff [] [] held.toNat)
    (hbrackets : rest.call.Brackets held false) :
    ((rest.run ticket engine.world).stop = .answered none ∧ ∃ engine' : Engine ρ,
      engine.step ⟨ticket, rest⟩ = engine'.endRound ticket ∧ engine'.Stands ticket staff [] [] 0 ∧
        engine'.world.clock = engine.world.clock ∧ engine'.next = engine.next) ∨
    (∃ answer, (rest.run ticket engine.world).stop = .answered (some answer)) ∨
    (∀ answer, (rest.run ticket engine.world).stop ≠ .answered answer) ∧
      (engine.step ⟨ticket, rest⟩).Rides ticket staff (rest.run ticket engine.world).stop.rest := by
  obtain ⟨hclock, hnumbered, hgranted, hwaits, later, hlater, hheld⟩ :=
    rest.run_keeps ticket hbrackets h.numbered h.waits h.held
  have hlodges : ({ engine with world := (rest.run ticket engine.world).world }.grant
      (rest.run ticket engine.world).granted).Lodges ticket staff [] [] := by
    refine Lodges.grant_other ?_ hgranted
    exact ⟨h.lodges.staff, h.lodges.awake, h.lodges.lined⟩
  have hstep : engine.step ⟨ticket, rest⟩ = _ := step.eq_1 engine ⟨ticket, rest⟩
  cases hstop : (rest.run ticket engine.world).stop with
  | answered answer =>
    cases answer with
    | some answer => exact Or.inr (Or.inl ⟨answer, rfl⟩)
    | none =>
      rw [hstop] at hstep hwaits hheld hlater
      obtain rfl : later = false := hlater
      exact Or.inl ⟨rfl, _, hstep, ⟨hlodges, hnumbered, hwaits, hheld⟩, hclock, rfl⟩
  | paused rest' =>
    rw [hstop] at hstep hwaits hheld hlater
    rw [hstep]
    exact Or.inr (Or.inr ⟨fun _ hended ↦ (by cases hended), .awake hlater ⟨hlodges.ready_self _, hnumbered, hwaits, hheld⟩⟩)
  | asleep milliseconds rest' =>
    rw [hstop] at hstep hwaits hheld hlater
    rw [hstep]
    exact Or.inr (Or.inr ⟨fun _ hended ↦ (by cases hended), .awake hlater ⟨hlodges.setAlarm_self _ _, hnumbered, hwaits, hheld⟩⟩)
  | locked rest' =>
    rw [hstop] at hstep hwaits hheld hlater
    rw [hstep]
    obtain rfl : later = true := by
      cases later with
      | true => rfl
      | false => cases hheld
    exact Or.inr (Or.inr ⟨fun _ hended ↦ (by cases hended),
      .lined hlater ⟨hlodges.parked_self _, hnumbered, hwaits, Nat.succ.inj hheld⟩⟩)

/-! ## Workers and their diaries -/

/-- A worker is between two rounds, as its diary says. -/
structure Waits (engine : Engine ρ) (ticket : Nat) (manager : Manager) (interval start : Nat) (diary : Diary) :
    Prop where
  next : ticket < engine.next
  kept : diary.Kept manager.reconcile.run interval start
  inFlight : diary.inFlight = false
  worker : ∃ (worker : Worker) (awake : List (Resumption (Option ρ))), worker.Fits interval start diary ∧
    awake.length ≤ 1 ∧ (∀ rest ∈ awake, rest = .go (.done none)) ∧
    engine.Stands ticket [⟨ticket, manager, worker⟩] awake [] 0

/-- A worker is in a round, as its diary says, and this is left of the round. -/
structure Carries (engine : Engine ρ) (ticket : Nat) (manager : Manager) (interval start : Nat) (diary : Diary)
    (rest : Resumption (Option ρ)) : Prop where
  next : ticket < engine.next
  kept : diary.Kept manager.reconcile.run interval start
  inFlight : diary.inFlight = true
  leads : (tour manager).Leads diary.current rest.call
  worker : ∃ worker : Worker, worker.Fits interval start diary ∧
    engine.Rides ticket [⟨ticket, manager, worker⟩] rest

/-- A worker is where its diary says. -/
def Attends (engine : Engine ρ) (ticket : Nat) (manager : Manager) (interval start : Nat) (diary : Diary) :
    Prop :=
  engine.Waits ticket manager interval start diary ∨
    ∃ rest, engine.Carries ticket manager interval start diary rest

theorem Stands.flies_iff (h : engine.Stands ticket [⟨ticket, manager, worker⟩] awake lined held) :
    engine.flies ticket = true ↔ worker.phase = .inRound := by
  rw [flies, ← List.any_filter, h.lodges.staff]
  simp

theorem Stands.hasEnded_iff (h : engine.Stands ticket [⟨ticket, manager, worker⟩] awake lined held) :
    engine.hasEnded ticket = true ↔ worker.phase = .ended := by
  have hended : engine.hasEnded ticket = (engine.workers.filter (·.ticket == ticket)).all
      fun employment ↦ employment.worker.phase == .ended := by
    rw [List.all_filter]
    rfl
  rw [hended, h.lodges.staff]
  simp

theorem flies_wake (h : engine.Lodges ticket staff awake lined) :
    (engine.wake ⟨ticket, manager, worker⟩).flies ticket = true ↔
      (worker.wake engine.world.clock).phase = .inRound := by
  have hemployed : (engine.employ ⟨ticket, manager, worker.wake engine.world.clock⟩).Lodges ticket
    [⟨ticket, manager, worker.wake engine.world.clock⟩] awake lined := Lodges.employ_self h
  have hworkers : (engine.wake ⟨ticket, manager, worker⟩).workers =
      (engine.employ ⟨ticket, manager, worker.wake engine.world.clock⟩).workers := by
    rw [wake]
    dsimp only
    split <;> rfl
  rw [flies, hworkers, ← List.any_filter, hemployed.staff]
  simp

/-- A worker is woken: it begins a round if one is due, and else waits for the next one. -/
theorem Attends.wake (hstands : engine.Stands ticket staff [] [] 0) (hnext : ticket < engine.next)
    (hfits : worker.Fits interval start diary) (hkept : diary.Kept manager.reconcile.run interval start)
    (hphase : worker.phase ≠ .inRound) :
    (engine.wake ⟨ticket, manager, worker⟩).Attends ticket manager interval start
      ((if (engine.wake ⟨ticket, manager, worker⟩).flies ticket then [.began engine.world.clock] else []) ++
        diary) := by
  obtain ⟨hlodges, hnumbered, hwaits, hheld⟩ := hstands
  have hemployed : (engine.employ ⟨ticket, manager, worker.wake engine.world.clock⟩).Lodges ticket
    [⟨ticket, manager, worker.wake engine.world.clock⟩] [] [] := Lodges.employ_self hlodges
  have hnext' : ticket < (engine.wake ⟨ticket, manager, worker⟩).next := by
    rw [(wake_same _ _).2]
    exact hnext
  have hwake : engine.wake ⟨ticket, manager, worker⟩ = _ := wake.eq_1 engine ⟨ticket, manager, worker⟩
  rcases hfits.wake hkept hphase engine.world.clock with ⟨hin, hfits', hkept'⟩ | ⟨hnot, hfits'⟩
  · have hrides : (engine.wake ⟨ticket, manager, worker⟩).Rides ticket
        [⟨ticket, manager, worker.wake engine.world.clock⟩] (.go (tour manager)) := by
      rw [hwake, hin]
      refine @Rides.awake _ _ _ _ _ false ?_ ⟨hemployed.ready_self _, hnumbered, hwaits, hheld⟩
      exact manager.brackets_reconcile.bind fun _ ↦ rfl
    rw [if_pos ((flies_wake hlodges).mpr hin)]
    exact Or.inr ⟨_, hnext', hkept', rfl, .start, _, hfits', hrides⟩
  · have hidle : ∃ awake : List (Resumption (Option ρ)), awake.length ≤ 1 ∧
        (∀ rest ∈ awake, rest = .go (.done none)) ∧ (engine.wake ⟨ticket, manager, worker⟩).Stands ticket
          [⟨ticket, manager, worker.wake engine.world.clock⟩] awake [] 0 := by
      rw [hwake]
      cases hphase' : (worker.wake engine.world.clock).phase with
      | inRound => exact absurd hphase' hnot
      | ended =>
        exact ⟨[], Nat.zero_le 1, fun _ hmem ↦ absurd hmem List.not_mem_nil, hemployed, hnumbered, hwaits, hheld⟩
      | waiting =>
        exact ⟨[.go (.done none)], Nat.le_refl 1, fun _ hmem ↦ List.mem_singleton.mp hmem,
          hemployed.setAlarm_self _ _, hnumbered, hwaits, hheld⟩
    obtain ⟨awake, hone, hidle, hstands⟩ := hidle
    rw [if_neg fun hflies ↦ hnot ((flies_wake hlodges).mp hflies)]
    refine Or.inl ⟨hnext', hkept, ?_, _, awake, hfits', hone, hidle, hstands⟩
    exact Bool.not_eq_true _ ▸ fun hflight ↦ hnot (hfits'.phase.mpr hflight)

/-- The worker of a ticket goes on when a process of the ticket has come to its end. -/
theorem Attends.endRound (hstands : engine.Stands ticket [⟨ticket, manager, worker⟩] [] [] 0)
    (hnext : ticket < engine.next) (hfits : worker.finish.Fits interval start diary)
    (hkept : diary.Kept manager.reconcile.run interval start) (hphase : worker.finish.phase ≠ .inRound) :
    (engine.endRound ticket).Attends ticket manager interval start
      ((if (engine.endRound ticket).flies ticket then [.began engine.world.clock] else []) ++ diary) := by
  have hfind : engine.workers.find? (·.ticket == ticket) = some ⟨ticket, manager, worker⟩ := by
    rw [← List.head?_filter, hstands.lodges.staff]
    rfl
  have hend : engine.endRound ticket = engine.wake ⟨ticket, manager, worker.finish⟩ := by
    rw [Engine.endRound, hfind]
  rw [hend]
  exact Attends.wake hstands hnext hfits hkept hphase

/-! ## Turns of a worker -/

/-- What is noted when a process of the ticket comes to its end. -/
theorem signs_of_answered (hstop : (rest.run ticket engine.world).stop = .answered none) :
    engine.signs ⟨ticket, rest⟩ ticket =
      (if (engine.step ⟨ticket, rest⟩).flies ticket then [.began engine.world.clock] else []) ++
        (if engine.flies ticket then [.ended] else []) ++ (rest.exchanges ticket engine.world).map .made := by
  rw [signs, if_pos rfl]
  dsimp only
  rw [hstop]

/-- What is noted when it only stops for a while. -/
theorem signs_of_not_answered (hstop : ∀ answer, (rest.run ticket engine.world).stop ≠ .answered answer) :
    engine.signs ⟨ticket, rest⟩ ticket = (rest.exchanges ticket engine.world).map .made := by
  rw [signs, if_pos rfl]
  dsimp only
  split
  · exact absurd ‹_› (hstop none)
  · rfl

/-- A round has a turn: it comes to its end, or nearer to it. -/
theorem Carries.of_step (hnext : ticket < engine.next) (hkept : diary.Kept manager.reconcile.run interval start)
    (hflight : diary.inFlight = true) (hleads : (tour manager).Leads diary.current rest.call)
    (hfits : worker.Fits interval start diary) {held : Bool} (hbrackets : rest.call.Brackets held false)
    (hstands : engine.Stands ticket [⟨ticket, manager, worker⟩] [] [] held.toNat) :
    (Sign.ended ∈ engine.signs ⟨ticket, rest⟩ ticket ∧ (engine.step ⟨ticket, rest⟩).Attends ticket manager
      interval start (engine.signs ⟨ticket, rest⟩ ticket ++ diary)) ∨
    ∃ later : Resumption (Option ρ), later.Nearer rest ∧ (engine.step ⟨ticket, rest⟩).Carries ticket manager
      interval start (engine.signs ⟨ticket, rest⟩ ticket ++ diary) later := by
  have hmade := hkept.made_append hflight (rest.exchanges ticket engine.world)
  have hfits' := hfits.made (rest.exchanges ticket engine.world)
  have hflight' : Diary.inFlight ((rest.exchanges ticket engine.world).map .made ++ diary) = true :=
    Diary.inFlight_made.trans hflight
  have hlater := rest.run_leads ticket hleads engine.world
  rw [← Diary.current_made] at hlater
  rcases hstands.step_self hbrackets with ⟨hstop, engine', hstep, hstands', hclock, hnext'⟩ |
    ⟨answer, hstop⟩ | ⟨hstop, hrides⟩
  · rw [hstop] at hlater
    obtain ⟨before, hbefore, hdone⟩ := hlater.of_bind
    cases before with
    | ask request next => cases hdone
    | done outcome =>
      have hphase := hfits.phase.mpr hflight
      obtain ⟨hnot, hfinish⟩ := hfits'.finish hphase
      have hattends := Attends.endRound hstands' (hnext'.symm ▸ hnext) hfinish (.ended hmade hflight' hbefore) hnot
      rw [← hstep, hclock] at hattends
      rw [signs_of_answered hstop, if_pos (hstands.flies_iff.mpr hphase)]
      refine Or.inl ⟨?_, ?_⟩
      · exact List.mem_append_left _ (List.mem_append_right _ List.mem_cons_self)
      · rw [List.append_assoc, List.append_assoc]
        exact hattends
  · -- a round has no answer for anybody
    rw [hstop] at hlater
    obtain ⟨before, -, hdone⟩ := hlater.of_bind
    cases before with
    | ask request next => cases hdone
    | done outcome => cases hdone
  · rw [signs_of_not_answered hstop]
    refine Or.inr ⟨_, (rest.run_nearer ticket engine.world).resolve_left ?_, ?_, hmade, hflight', hlater, worker,
      hfits', hrides⟩
    · rintro ⟨answer, hdone⟩
      obtain ⟨call⟩ | _ | _ := rest
      · obtain rfl : call = .done answer := hdone
        exact hstop answer rfl
      · cases hdone
      · cases hdone
    · rw [(step_same _ _).2]
      exact hnext

/-- A worker that waits for its next round has a turn. -/
theorem Attends.of_step (hnext : ticket < engine.next) (hkept : diary.Kept manager.reconcile.run interval start)
    (hfits : worker.Fits interval start diary) (hflight : diary.inFlight = false)
    (hstands : engine.Stands ticket [⟨ticket, manager, worker⟩] [] [] 0) :
    (engine.step ⟨ticket, .go (.done none)⟩).Attends ticket manager interval start
      (engine.signs ⟨ticket, .go (.done none)⟩ ticket ++ diary) := by
  have hphase : worker.phase ≠ .inRound := fun hin ↦ by
    rw [hfits.phase.mp hin] at hflight
    cases hflight
  have hbrackets : (Resumption.go (.done none) : Resumption (Option ρ)).call.Brackets false false := rfl
  rcases @Stands.step_self _ _ _ _ _ false hstands hbrackets with
    ⟨hstop, engine', hstep, hstands', hclock, hnext'⟩ | ⟨answer, hstop⟩ | ⟨hstop, -⟩
  · have hfinish : worker.finish = worker := if_neg hphase
    have hattends := Attends.endRound hstands' (hnext'.symm ▸ hnext) (hfinish.symm ▸ hfits) hkept
      (hfinish.symm ▸ hphase)
    rw [← hstep, hclock] at hattends
    rw [signs_of_answered hstop, if_neg fun hflies ↦ hphase (hstands.flies_iff.mp hflies), List.append_nil]
    rw [show (Resumption.go (.done none) : Resumption (Option ρ)).exchanges ticket engine.world = [] from rfl,
      List.map_nil, List.append_nil]
    exact hattends
  · cases hstop
  · exact absurd rfl (hstop none)

/-! ## Whatever happens -/

/-- Whatever happens, a round in flight stays what it is, comes nearer to its end, or ends. -/
theorem Carries.move (h : engine.Carries ticket manager interval start diary rest)
    (hmove : Move ticket engine signs engine') :
    (Sign.ended ∈ signs ∧ engine'.Attends ticket manager interval start (signs ++ diary)) ∨
      ∃ later : Resumption (Option ρ), (later = rest ∨ later.Nearer rest) ∧
        engine'.Carries ticket manager interval start (signs ++ diary) later := by
  obtain ⟨hnext, hkept, hflight, hleads, worker, hfits, hrides⟩ := h
  rcases hmove.cases_of_ticket (Or.inl hnext) with ⟨before, other, after, hready, rfl, rfl⟩ | ⟨rfl, rfl⟩ |
    ⟨rfl, hspares⟩
  · obtain ⟨rfl, held, hbrackets, hstands⟩ := hrides.pick hready
    refine (Carries.of_step (by exact hnext) hkept hflight hleads hfits hbrackets hstands).imp_right ?_
    rintro ⟨later, hnearer, hcarries⟩
    exact ⟨later, Or.inr hnearer, hcarries⟩
  · exact Or.inr ⟨rest, Or.inl rfl, hnext, hkept.told, hflight, hleads, worker.stop, hfits.stop, hrides.signal⟩
  · exact Or.inr ⟨rest, Or.inl rfl, Nat.lt_of_lt_of_le hnext hspares.next, hkept, hflight, hleads, worker, hfits,
      hrides.spares hspares⟩

theorem Waits.move (h : engine.Waits ticket manager interval start diary)
    (hmove : Move ticket engine signs engine') :
    engine'.Attends ticket manager interval start (signs ++ diary) := by
  obtain ⟨hnext, hkept, hflight, worker, awake, hfits, hone, hidle, hstands⟩ := h
  rcases hmove.cases_of_ticket (Or.inl hnext) with ⟨before, other, after, hready, rfl, rfl⟩ | ⟨rfl, rfl⟩ |
    ⟨rfl, hspares⟩
  · match awake, hone, hidle, hstands with
    | [], _, _, hstands => exact absurd rfl (hstands.ticket_ne hready)
    | [waits], _, hidle, hstands =>
      obtain ⟨hrest, hlodges⟩ := hstands.lodges.pick_self hready rfl
      obtain rfl := hrest.trans (hidle waits List.mem_cons_self)
      exact Attends.of_step hnext hkept hfits hflight ⟨hlodges, hstands.numbered, hstands.waits, hstands.held⟩
    | _ :: _ :: _, hone, _, _ => simp at hone
  · exact Or.inl ⟨hnext, hkept.told, hflight, worker.stop, awake, hfits.stop, hone, hidle, hstands.signal_self⟩
  · rcases hspares.stands _ _ [] _ (Nat.zero_le 1) hstands with hstands | ⟨_, hnil, -⟩
    · exact Or.inl ⟨Nat.lt_of_lt_of_le hnext hspares.next, hkept, hflight, worker, awake, hfits, hone, hidle,
        hstands⟩
    · cases hnil

/-- Whatever happens in the engine, a worker keeps to its rules. -/
theorem Attends.move (h : engine.Attends ticket manager interval start diary)
    (hmove : Move ticket engine signs engine') :
    engine'.Attends ticket manager interval start (signs ++ diary) := by
  rcases h with hwaits | ⟨rest, hcarries⟩
  · exact hwaits.move hmove
  · rcases hcarries.move hmove with ⟨-, hattends⟩ | ⟨later, -, hcarries⟩
    · exact hattends
    · exact Or.inr ⟨later, hcarries⟩

/-- A worker that is started waits for its first round, or has nothing to do. -/
theorem Unborn.startWorker (h : engine.Unborn) (manager : Manager) (interval : Nat) :
    (engine.startWorker manager interval).2.Attends engine.next manager interval engine.world.clock [] := by
  have hstands := (h engine.next (Nat.le_refl _)).same engine.world rfl engine.answers (engine.next + 1)
  have hfits := Worker.fits_start interval engine.world.clock
  have hphase : (Worker.start interval engine.world.clock).phase ≠ .inRound := fun hin ↦ by
    cases hfits.phase.mp hin
  have hattends := @Attends.wake ρ _ _ _ _ manager _ _ _ hstands (Nat.lt_succ_self _) hfits .blank hphase
  have hstill : (Worker.start interval engine.world.clock).wake engine.world.clock =
      Worker.start interval engine.world.clock := by
    refine if_neg fun hdue ↦ ?_
    obtain ⟨hwaiting, hle⟩ := hdue
    simp only [Worker.start] at hwaiting hle
    split at hwaiting
    · cases hwaiting
    · omega
  rw [if_neg, List.nil_append] at hattends
  · exact hattends
  · rw [flies_wake hstands.lodges, hstill]
    exact hphase

theorem Watched.attends (h : engine.Watched ticket manager interval start diary) :
    engine.Attends ticket manager interval start diary := by
  induction h with
  | started hoccurs hnext hstart =>
    subst hnext hstart
    exact hoccurs.unborn.startWorker manager interval
  | move _ hmove ih => exact ih.move hmove

end

end PieceKeeper.Engine
