import Mathlib.Data.List.Perm.Basic
import PieceKeeper.Proofs.Schedule.Slices
import PieceKeeper.Schedule.Engine

/-!
# Lodgings

Where the processes of one ticket are in the engine, who works under it, and which locks it has.  Whatever
others do, its processes stay where they are, except that a process that waits for a lock can go on when it
got the lock.
-/

namespace PieceKeeper.Engine

variable {ρ : Type}

/-! ## Processes of one ticket -/

/-- What is left of the processes of a ticket. -/
def restsOf (processes : List (Process ρ)) (ticket : Nat) : List (Resumption (Option ρ)) :=
  (processes.filter (·.ticket == ticket)).map (·.rest)

section

variable {processes others : List (Process ρ)} {process : Process ρ} {ticket : Nat}

@[simp] theorem restsOf_nil : restsOf ([] : List (Process ρ)) ticket = [] := rfl

@[simp] theorem restsOf_append :
    restsOf (processes ++ others) ticket = restsOf processes ticket ++ restsOf others ticket := by
  simp [restsOf]

theorem restsOf_cons_of_eq (h : process.ticket = ticket) :
    restsOf (process :: processes) ticket = process.rest :: restsOf processes ticket := by
  simp [restsOf, h]

theorem restsOf_cons_of_ne (h : process.ticket ≠ ticket) :
    restsOf (process :: processes) ticket = restsOf processes ticket := by
  simp [restsOf, h]

theorem Perm.restsOf (h : processes.Perm others) :
    (Engine.restsOf processes ticket).Perm (Engine.restsOf others ticket) :=
  (h.filter _).map _

/-- Who is left of those who wait when some got their locks. -/
theorem restsOf_filter_not (tickets : List Nat) :
    restsOf (processes.filter fun process ↦ ¬ tickets.contains process.ticket) ticket =
      if ticket ∈ tickets then [] else restsOf processes ticket := by
  rw [restsOf, List.filter_filter]
  split
  · rename_i hmem
    rw [List.filter_eq_nil_iff.mpr, List.map_nil]
    intro process _ hboth
    simp only [Bool.and_eq_true, beq_iff_eq, decide_eq_true_eq, List.contains_iff_mem] at hboth
    exact hboth.2 (hboth.1 ▸ hmem)
  · rename_i hnot
    rw [restsOf]
    congr 1
    refine List.filter_congr fun process _ ↦ ?_
    by_cases heq : process.ticket = ticket
    · simp [heq, hnot]
    · simp [heq]

theorem head?_restsOf : (restsOf processes ticket).head? =
    (processes.find? (·.ticket == ticket)).map (·.rest) := by
  rw [restsOf, List.head?_map, List.head?_filter]

/-- Who can go on because they got their locks. -/
theorem restsOf_granted (parked : List (Process ρ)) (tickets : List Nat) (ticket : Nat) :
    restsOf (tickets.filterMap fun ticket ↦ parked.find? (·.ticket == ticket)) ticket =
      (List.replicate (tickets.count ticket) (restsOf parked ticket).head?).filterMap id := by
  induction tickets with
  | nil => rfl
  | cons first tickets ih =>
    by_cases heq : first = ticket
    · subst heq
      rw [List.count_cons_self, List.replicate_succ, List.filterMap_cons, List.filterMap_cons, ← ih,
        head?_restsOf]
      cases hfind : parked.find? (·.ticket == first) with
      | none => rfl
      | some process => exact restsOf_cons_of_eq (by simpa using List.find?_some hfind)
    · rw [List.count_cons_of_ne heq, List.filterMap_cons, ← ih]
      cases hfind : parked.find? (·.ticket == first) with
      | none => rfl
      | some process =>
        have hticket : process.ticket = first := by simpa using List.find?_some hfind
        exact restsOf_cons_of_ne (hticket.trans_ne heq)

end

/-! ## Lodgings -/

/-- What an engine has of a ticket: who works under it, and what is left of its processes, those that can go on
or will be able to at some moment, and those that wait for locks. -/
structure Lodges (engine : Engine ρ) (ticket : Nat) (staff : List Employment)
    (awake lined : List (Resumption (Option ρ))) : Prop where
  staff : engine.workers.filter (·.ticket == ticket) = staff
  awake : (restsOf engine.ready ticket ++ restsOf (engine.alarms.map (·.process)) ticket).Perm awake
  lined : restsOf engine.parked ticket = lined

namespace Lodges

variable {engine : Engine ρ} {ticket : Nat} {staff : List Employment}
  {awake lined : List (Resumption (Option ρ))} {process : Process ρ} {employment : Employment}

/-! ### Others come and go -/

theorem ready_other (h : engine.Lodges ticket staff awake lined) (hne : process.ticket ≠ ticket) :
    Lodges { engine with ready := engine.ready ++ [process] } ticket staff awake lined where
  staff := h.staff
  awake := by
    rw [restsOf_append, restsOf_cons_of_ne hne, restsOf_nil, List.append_nil]
    exact h.awake
  lined := h.lined

theorem parked_other (h : engine.Lodges ticket staff awake lined) (hne : process.ticket ≠ ticket) :
    Lodges { engine with parked := process :: engine.parked } ticket staff awake lined where
  staff := h.staff
  awake := h.awake
  lined := (restsOf_cons_of_ne hne).trans h.lined

theorem setAlarm_other (h : engine.Lodges ticket staff awake lined) (hne : process.ticket ≠ ticket)
    (due : Nat) : (engine.setAlarm due process).Lodges ticket staff awake lined where
  staff := h.staff
  awake := by
    rw [setAlarm, List.map_cons, restsOf_cons_of_ne hne]
    exact h.awake
  lined := h.lined

theorem employ_other (h : engine.Lodges ticket staff awake lined) (hne : employment.ticket ≠ ticket) :
    (engine.employ employment).Lodges ticket staff awake lined where
  staff := by
    rw [employ, List.filter_cons_of_neg (by simpa using hne), List.filter_filter, ← h.staff]
    refine List.filter_congr fun other _ ↦ ?_
    by_cases heq : other.ticket = ticket
    · simp [heq, hne.symm]
    · simp [heq]
  awake := h.awake
  lined := h.lined

theorem wake_other (h : engine.Lodges ticket staff awake lined) (hne : employment.ticket ≠ ticket) :
    (engine.wake employment).Lodges ticket staff awake lined := by
  have hemployed : (engine.employ { employment with worker := employment.worker.wake engine.world.clock }).Lodges
      ticket staff awake lined := h.employ_other hne
  rw [wake]
  dsimp only
  split
  · exact hemployed
  · exact hemployed.ready_other hne
  · exact hemployed.setAlarm_other hne _

theorem endRound_other (h : engine.Lodges ticket staff awake lined) {other : Nat} (hne : other ≠ ticket) :
    (engine.endRound other).Lodges ticket staff awake lined := by
  rw [endRound]
  split
  · exact h
  · rename_i employment hfind
    have hticket : employment.ticket = other := by
      simpa using List.find?_some hfind
    exact h.wake_other (hticket.trans_ne hne)

/-! ### What belongs to the ticket -/

theorem ready_self (h : engine.Lodges ticket staff awake lined) (rest : Resumption (Option ρ)) :
    Lodges { engine with ready := engine.ready ++ [⟨ticket, rest⟩] } ticket staff (rest :: awake) lined where
  staff := h.staff
  awake := by
    rw [restsOf_append, restsOf_cons_of_eq rfl, restsOf_nil, List.append_assoc, List.singleton_append]
    exact List.perm_middle.trans (h.awake.cons _)
  lined := h.lined

theorem parked_self (h : engine.Lodges ticket staff awake lined) (rest : Resumption (Option ρ)) :
    Lodges { engine with parked := ⟨ticket, rest⟩ :: engine.parked } ticket staff awake (rest :: lined) where
  staff := h.staff
  awake := h.awake
  lined := (restsOf_cons_of_eq rfl).trans (congrArg _ h.lined)

theorem setAlarm_self (h : engine.Lodges ticket staff awake lined) (due : Nat) (rest : Resumption (Option ρ)) :
    (engine.setAlarm due ⟨ticket, rest⟩).Lodges ticket staff (rest :: awake) lined where
  staff := h.staff
  awake := by
    rw [setAlarm, List.map_cons, restsOf_cons_of_eq rfl]
    exact List.perm_middle.trans (h.awake.cons _)
  lined := h.lined

theorem employ_self (h : engine.Lodges employment.ticket staff awake lined) :
    (engine.employ employment).Lodges employment.ticket [employment] awake lined where
  staff := by
    rw [employ, List.filter_cons_of_pos (by exact beq_self_eq_true employment.ticket),
      List.filter_filter, List.filter_eq_nil_iff.mpr]
    intro other _
    simp
  awake := h.awake
  lined := h.lined

/-! ### Turns -/

/-- Somebody else is taken out. -/
theorem pick_other (h : engine.Lodges ticket staff awake lined) {before after : List (Process ρ)}
    (hready : engine.ready = before ++ process :: after) (hne : process.ticket ≠ ticket) :
    Lodges { engine with ready := before ++ after } ticket staff awake lined := by
  obtain ⟨hstaff, hawake, hlined⟩ := h
  rw [hready, restsOf_append, restsOf_cons_of_ne hne] at hawake
  exact ⟨hstaff, by rwa [restsOf_append], hlined⟩

/-- The only process of the ticket is taken out. -/
theorem pick_self {rest : Resumption (Option ρ)} (h : engine.Lodges ticket staff [rest] lined)
    {before after : List (Process ρ)} (hready : engine.ready = before ++ process :: after)
    (heq : process.ticket = ticket) :
    process.rest = rest ∧ Lodges { engine with ready := before ++ after } ticket staff [] lined := by
  obtain ⟨hstaff, hawake, hlined⟩ := h
  rw [hready, restsOf_append, restsOf_cons_of_eq heq, List.append_assoc, List.cons_append] at hawake
  obtain ⟨hrest, hnone⟩ := List.cons_eq_cons.mp (List.perm_singleton.mp (List.perm_middle.symm.trans hawake))
  refine ⟨hrest, hstaff, ?_, hlined⟩
  rw [restsOf_append, List.append_assoc, hnone]

/-- Some get their locks, but not the ticket. -/
theorem grant_other (h : engine.Lodges ticket staff awake lined) {tickets : List Nat}
    (hnot : ticket ∉ tickets) : (engine.grant tickets).Lodges ticket staff awake lined where
  staff := h.staff
  awake := by
    rw [grant, restsOf_append, restsOf_granted, List.count_eq_zero.mpr hnot]
    simpa using h.awake
  lined := (restsOf_filter_not tickets).trans ((if_neg hnot).trans h.lined)

/-- Some get their locks, and the ticket among them. -/
theorem grant_self {rest : Resumption (Option ρ)} (h : engine.Lodges ticket staff awake [rest])
    {tickets : List Nat} (honce : tickets.count ticket = 1) :
    (engine.grant tickets).Lodges ticket staff (rest :: awake) [] where
  staff := h.staff
  awake := by
    rw [grant, restsOf_append, restsOf_granted, honce, h.lined, List.append_assoc]
    exact List.perm_middle.trans (h.awake.cons _)
  lined := (restsOf_filter_not tickets).trans (if_pos (List.count_pos_iff.mp (by omega)))

/-- Time passes, and some alarms go off. -/
theorem passTo (h : engine.Lodges ticket staff awake lined) (moment : Nat) :
    (engine.passTo moment).Lodges ticket staff awake lined where
  staff := h.staff
  awake := by
    refine List.Perm.trans ?_ h.awake
    rw [Engine.passTo, List.partition_eq_filter_filter, restsOf_append, List.append_assoc]
    refine List.Perm.append_left _ ?_
    rw [← restsOf_append, ← List.map_append]
    refine Perm.restsOf (List.Perm.map _ ?_)
    exact ((List.mergeSort_perm _ _).append_right _).trans (List.filter_append_perm _ _)
  lined := h.lined

end Lodges

/-! ## Turns of others -/

section

variable {engine : Engine ρ} {process : Process ρ} {employment : Employment} {ticket : Nat}

theorem wake_same (engine : Engine ρ) (employment : Employment) :
    (engine.wake employment).world = engine.world ∧ (engine.wake employment).next = engine.next := by
  rw [wake]
  dsimp only
  split <;> exact ⟨rfl, rfl⟩

theorem endRound_same (engine : Engine ρ) (ticket : Nat) :
    (engine.endRound ticket).world = engine.world ∧ (engine.endRound ticket).next = engine.next := by
  rw [endRound]
  split
  · exact ⟨rfl, rfl⟩
  · exact wake_same _ _

/-- What a turn makes of the world is what its slice makes of it. -/
theorem step_same (engine : Engine ρ) (process : Process ρ) :
    (engine.step process).world = (process.rest.run process.ticket engine.world).world ∧
      (engine.step process).next = engine.next := by
  rw [step]
  split
  · exact ⟨rfl, rfl⟩
  · exact endRound_same _ _
  · exact ⟨rfl, rfl⟩
  · exact ⟨rfl, rfl⟩
  · exact ⟨rfl, rfl⟩

/-- What the engine has of a ticket after the turn of another is what it has when the locks were granted. -/
theorem Lodges.step_other {staff : List Employment} {awake lined : List (Resumption (Option ρ))}
    (hne : process.ticket ≠ ticket)
    (h : ({ engine with world := (process.rest.run process.ticket engine.world).world }.grant
      (process.rest.run process.ticket engine.world).granted).Lodges ticket staff awake lined) :
    (engine.step process).Lodges ticket staff awake lined := by
  rw [step]
  split
  · exact ⟨h.staff, h.awake, h.lined⟩
  · exact h.endRound_other hne
  · exact h.ready_other hne
  · exact h.parked_other hne
  · exact h.setAlarm_other (by exact hne) _

end

/-- What an engine has of a ticket, and how many locks the ticket holds; it waits for as many as its processes
wait for. -/
structure Stands (engine : Engine ρ) (ticket : Nat) (staff : List Employment)
    (awake lined : List (Resumption (Option ρ))) (held : Nat) : Prop where
  lodges : engine.Lodges ticket staff awake lined
  numbered : engine.world.locks.Numbered
  waits : engine.world.locks.waits ticket = lined.length
  held : engine.world.locks.held ticket = held

/-- After the turn of another all is as before, or the ticket got the lock that it waits for. -/
theorem Stands.step_other {engine : Engine ρ} {process : Process ρ} {ticket : Nat} {staff : List Employment}
    {awake lined : List (Resumption (Option ρ))} {held : Nat}
    (h : engine.Stands ticket staff awake lined held) (hlined : lined.length ≤ 1)
    (hne : process.ticket ≠ ticket) : (engine.step process).Stands ticket staff awake lined held ∨
      ∃ rest, lined = [rest] ∧ (engine.step process).Stands ticket staff (rest :: awake) [] (held + 1) := by
  obtain ⟨-, hnumbered, hwaits, hheld⟩ := process.rest.run_spares hne.symm h.numbered
  obtain ⟨hworld, -⟩ := engine.step_same process
  rw [← hworld] at hnumbered hwaits hheld
  rw [h.waits] at hwaits
  rw [h.held] at hheld
  have hlodges : Lodges { engine with world := (process.rest.run process.ticket engine.world).world } ticket
    staff awake lined := ⟨h.lodges.staff, h.lodges.awake, h.lodges.lined⟩
  by_cases hmem : ticket ∈ (process.rest.run process.ticket engine.world).granted
  · have hpos := List.count_pos_iff.mpr hmem
    obtain ⟨rest, rfl⟩ := List.length_eq_one_iff.mp (show lined.length = 1 by omega)
    rw [List.length_singleton] at hwaits
    refine Or.inr ⟨rest, rfl, (hlodges.grant_self (by omega)).step_other hne, hnumbered, ?_, by omega⟩
    rw [List.length_nil]
    omega
  · rw [List.count_eq_zero.mpr hmem] at hwaits hheld
    exact Or.inl ⟨(hlodges.grant_other hmem).step_other hne, hnumbered, hwaits, hheld⟩

end PieceKeeper.Engine
