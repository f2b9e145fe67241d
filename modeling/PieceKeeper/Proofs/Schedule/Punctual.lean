import PieceKeeper.Proofs.Schedule.Dispatch

/-!
# Stints are in time

The engine lets time pass only when nobody can go on, and then up to the next moment at which a stint begins
or has kept its lock for its span.  So whatever stints there are, each takes its lock at once when it can have
it, and when all have had their turns each has the times that it should have.
-/

namespace PieceKeeper.Engine

open Stint

variable {engine : Engine (Nat × Nat)} {stint : Nat → Stint} {times : Nat → Nat × Nat} {s : Course}
  {n total i : Nat}

/-! ## Who can go on -/

/-- Whoever is the first that can go on has a turn. -/
theorem Places.turn (htimed : Timed stint total times) (h : engine.Places stint times s total [])
    (hs : s.Sound stint total times) {process : Process (Nat × Nat)} {ready : List (Process (Nat × Nat))}
    (hready : engine.ready = process :: ready) :
    ∃ s', Turn stint times total total process.ticket s ({ engine with ready }.step process) s' := by
  have hpicked := h.pickReady hready
  obtain ⟨heq, hphase⟩ := h.ready process (hready ▸ List.mem_cons_self)
  have hi : process.ticket < total := hpicked.lt_of_mem List.mem_cons_self
  rw [heq]
  rcases hphase with hasks | hhas | hleaves
  · have hfits := hs.fits _ hi
    rw [hasks] at hfits
    have hturn := turn_asks htimed (Nat.le_refl _) hpicked hs hasks fun j hj hji hpending ↦ ?_
    · rw [stintProcess, hasks]
      exact hturn
    -- all others begin later, or come behind
    have hother := hs.fits j hj
    cases hphase : s.phase j with
    | unborn => exact absurd hj (Nat.not_lt_of_le ((h.unborn j).mp hphase))
    | sleeps =>
      rw [hphase] at hother
      exact Or.inl (Nat.lt_of_le_of_lt (Nat.le_of_eq hfits) hother)
    | asks =>
      rw [hphase] at hother
      obtain ⟨other, hmem, rfl⟩ := h.exists_ready List.not_mem_nil (Or.inl hphase)
      have hqueue := h.queue
      rw [hready] at hmem hqueue
      rcases List.mem_cons.mp hmem with rfl | hmem
      · exact absurd rfl hji
      · exact Or.inr ⟨hfits.trans hother.symm, (List.pairwise_cons.mp hqueue).1 other hmem hasks hphase⟩
    | waits | has | holds | leaves | done =>
      rw [hphase] at hpending
      exact hpending.elim
  · have hturn := turn_has htimed (Nat.le_refl _) hpicked hs hhas
    rw [stintProcess, hhas]
    exact hturn
  · have hturn := turn_leaves htimed (Nat.le_refl _) hpicked hs hleaves
    rw [stintProcess, hleaves]
    exact hturn

/-! ## Time passes -/

/-- Nobody can go on. -/
theorem Places.idle (h : engine.Places stint times s total []) (hidle : engine.ready = []) (i : Nat) :
    s.phase i ≠ .asks ∧ s.phase i ≠ .has ∧ s.phase i ≠ .leaves := by
  have hnone (hphase : s.phase i = .asks ∨ s.phase i = .has ∨ s.phase i = .leaves) : False := by
    obtain ⟨process, hmem, -⟩ := h.exists_ready List.not_mem_nil hphase
    rw [hidle] at hmem
    cases hmem
  exact ⟨fun hasks ↦ hnone (Or.inl hasks), fun hhas ↦ hnone (Or.inr (Or.inl hhas)),
    fun hleaves ↦ hnone (Or.inr (Or.inr hleaves))⟩

/-- An alarm lies ahead. -/
theorem Places.clock_lt (h : engine.Places stint times s total []) (hs : s.Sound stint total times)
    {alarm : Alarm (Nat × Nat)} (hmem : alarm ∈ engine.alarms) : s.clock < alarm.due := by
  obtain ⟨-, -, hdue⟩ := h.alarms alarm hmem
  have hlt : alarm.process.ticket < total := by
    refine h.lt_of_phase fun hunborn ↦ ?_
    rcases hdue with ⟨hphase, -⟩ | ⟨hphase, -⟩ <;> cases hunborn.symm.trans hphase
  have hfits := hs.fits _ hlt
  rcases hdue with ⟨hphase, hdue⟩ | ⟨hphase, hdue⟩
  · rw [hphase] at hfits
    exact hdue ▸ hfits
  · rw [hphase] at hfits
    exact hdue ▸ hfits.2

/-- If there is no alarm either, all stints are done. -/
theorem Places.done_of_no_alarm (h : engine.Places stint times s total [])
    (hs : s.Sound stint total times) (hidle : engine.ready = []) (hnone : engine.alarms = []) :
    ∀ i < total, s.phase i = .done := by
  intro i hi
  obtain ⟨hasks, hhas, hleaves⟩ := h.idle hidle i
  have hawake (i : Nat) : s.phase i ≠ .sleeps ∧ s.phase i ≠ .holds := by
    have hempty (hphase : s.phase i = .sleeps ∨ s.phase i = .holds) : False := by
      obtain ⟨alarm, hmem, -⟩ := h.exists_alarm List.not_mem_nil hphase
      rw [hnone] at hmem
      cases hmem
    exact ⟨fun hsleeps ↦ hempty (Or.inl hsleeps), fun hholds ↦ hempty (Or.inr hholds)⟩
  cases hphase : s.phase i with
  | unborn => exact absurd hi (Nat.not_lt_of_le ((h.unborn i).mp hphase))
  | sleeps => exact absurd hphase (hawake i).1
  | asks => exact absurd hphase hasks
  | has => exact absurd hphase hhas
  | holds => exact absurd hphase (hawake i).2
  | leaves => exact absurd hphase hleaves
  | done => rfl
  | waits =>
    -- whoever is at the head of its line does not wait
    have hmem := hs.mem_line hi (hphase ▸ trivial)
    obtain ⟨first, rest, hline⟩ := List.exists_cons_of_ne_nil (List.ne_nil_of_mem hmem)
    obtain ⟨hlt, hkey, hlined⟩ := (hs.line (stint i).key first).mp (hline ▸ List.mem_cons_self)
    obtain ⟨-, hhas, hleaves⟩ := h.idle hidle first
    have hfits := hs.fits first hlt
    cases hfirst : s.phase first with
    | unborn | sleeps | asks | done =>
      rw [hfirst] at hlined
      exact hlined.elim
    | has => exact absurd hfirst hhas
    | holds => exact absurd hfirst (hawake first).2
    | leaves => exact absurd hfirst hleaves
    | waits =>
      rw [hfirst] at hfits
      refine absurd ?_ hfits.2
      rw [Course.Heads, hkey, hline]
      rfl

/-- What is left of a stint does not depend on the moment. -/
theorem stintProcess_passTo (moment : Nat) :
    stintProcess stint times (s.passTo stint times moment) i = stintProcess stint times s i := by
  cases hphase : s.phase i with
  | sleeps =>
    simp only [stintProcess, Course.passTo, hphase]
    split <;> rfl
  | holds =>
    simp only [stintProcess, Course.passTo, hphase]
    split <;> rfl
  | unborn | asks | waits | has | leaves | done => simp only [stintProcess, Course.passTo, hphase]

theorem passTo_eq_unborn {moment : Nat} :
    (s.passTo stint times moment).phase i = .unborn ↔ s.phase i = .unborn := by
  cases hphase : s.phase i with
  | sleeps =>
    simp only [Course.passTo, hphase]
    split <;> simp
  | holds =>
    simp only [Course.passTo, hphase]
    split <;> simp
  | unborn | asks | waits | has | leaves | done => simp [Course.passTo, hphase]

/-- Who is due at a moment can go on at it. -/
theorem Places.phase_of_due (h : engine.Places stint times s total []) {alarm : Alarm (Nat × Nat)}
    (hmem : alarm ∈ engine.alarms) :
    s.phase alarm.process.ticket = .sleeps ∧
        (s.passTo stint times alarm.due).phase alarm.process.ticket = .asks ∨
      s.phase alarm.process.ticket = .holds ∧
        (s.passTo stint times alarm.due).phase alarm.process.ticket = .leaves := by
  obtain ⟨-, -, ⟨hphase, hdue⟩ | ⟨hphase, hdue⟩⟩ := h.alarms alarm hmem
  · exact Or.inl ⟨hphase, by simp [Course.passTo, hphase, hdue]⟩
  · exact Or.inr ⟨hphase, by simp [Course.passTo, hphase, hdue]⟩

/-- Who is due later stays where it is. -/
theorem Places.phase_of_later (h : engine.Places stint times s total []) {alarm : Alarm (Nat × Nat)}
    (hmem : alarm ∈ engine.alarms) {moment : Nat} (hlater : alarm.due ≠ moment) :
    (s.passTo stint times moment).phase alarm.process.ticket = s.phase alarm.process.ticket := by
  obtain ⟨-, -, ⟨hphase, hdue⟩ | ⟨hphase, hdue⟩⟩ := h.alarms alarm hmem
  · simp [Course.passTo, hphase, ← hdue, hlater]
  · simp [Course.passTo, hphase, ← hdue, hlater]

theorem passTo_phase_of_ne {moment : Nat} (hsleeps : s.phase i ≠ .sleeps) (hholds : s.phase i ≠ .holds) :
    (s.passTo stint times moment).phase i = s.phase i := by
  dsimp only [Course.passTo]
  split
  · exact absurd ‹_› hsleeps
  · exact absurd ‹_› hholds
  · rfl

/-- Whoever is about to ask when time has passed was waiting for its beginning. -/
theorem Places.sleeps_of_asks (h : engine.Places stint times s total []) (hidle : engine.ready = [])
    {moment : Nat} (hasks : (s.passTo stint times moment).phase i = .asks) : s.phase i = .sleeps := by
  by_contra hsleeps
  by_cases hholds : s.phase i = .holds
  · simp only [Course.passTo, hholds] at hasks
    split at hasks <;> cases hasks
  · exact (h.idle hidle i).1 ((passTo_phase_of_ne hsleeps hholds).symm.trans hasks)

/-- The alarms that go off when time passes up to a moment, in the order in which they were set. -/
def rung (engine : Engine (Nat × Nat)) (moment : Nat) : List (Alarm (Nat × Nat)) :=
  (engine.alarms.filter (·.due ≤ moment)).mergeSort fun a b ↦ a.serial ≤ b.serial

/-- The alarms that are left then. -/
def unrung (engine : Engine (Nat × Nat)) (moment : Nat) : List (Alarm (Nat × Nat)) :=
  engine.alarms.filter fun alarm ↦ !decide (alarm.due ≤ moment)

section

variable {moment : Nat} {alarm : Alarm (Nat × Nat)}

theorem passTo_eq (hidle : engine.ready = []) : engine.passTo moment =
    { engine with
      world.clock := moment
      ready := (engine.rung moment).map (·.process)
      alarms := engine.unrung moment } := by
  rw [Engine.passTo, List.partition_eq_filter_filter, hidle]
  rfl

theorem rung_perm (engine : Engine (Nat × Nat)) (moment : Nat) :
    (engine.rung moment ++ engine.unrung moment).Perm engine.alarms :=
  ((List.mergeSort_perm _ _).append_right _).trans (List.filter_append_perm _ _)

/-- Alarms go off in the order in which they were set. -/
theorem rung_sorted (moment : Nat) :
    (engine.rung moment).Pairwise fun first second ↦ first.serial ≤ second.serial := by
  have hsorted := @List.pairwise_mergeSort _ (fun a b : Alarm (Nat × Nat) ↦ decide (a.serial ≤ b.serial))
    (fun a b c hab hbc ↦ decide_eq_true (Nat.le_trans (of_decide_eq_true hab) (of_decide_eq_true hbc)))
    (fun a b ↦ by simpa using Nat.le_total a.serial b.serial) (engine.alarms.filter (·.due ≤ moment))
  exact hsorted.imp of_decide_eq_true

/-- Up to the next moment at which somebody is due, only those go off who are due at it. -/
theorem due_of_mem_rung (hnext : ∀ alarm ∈ engine.alarms, moment ≤ alarm.due)
    (hmem : alarm ∈ engine.rung moment) : alarm ∈ engine.alarms ∧ alarm.due = moment := by
  obtain ⟨hmem, hle⟩ := List.mem_filter.mp ((List.mergeSort_perm _ _).mem_iff.mp hmem)
  exact ⟨hmem, Nat.le_antisymm (of_decide_eq_true hle) (hnext alarm hmem)⟩

theorem due_of_mem_unrung (hmem : alarm ∈ engine.unrung moment) :
    alarm ∈ engine.alarms ∧ alarm.due ≠ moment := by
  obtain ⟨hmem, hnot⟩ := List.mem_filter.mp hmem
  refine ⟨hmem, fun heq ↦ ?_⟩
  simp [heq] at hnot

/-- Those who begin at one moment ask in the order of their numbers. -/
theorem Places.queue_rung (h : engine.Places stint times s total []) (hidle : engine.ready = [])
    (hnext : ∀ alarm ∈ engine.alarms, moment ≤ alarm.due) :
    ((engine.rung moment).map (·.process)).Pairwise fun first second ↦
      (s.passTo stint times moment).phase first.ticket = .asks →
      (s.passTo stint times moment).phase second.ticket = .asks → first.ticket < second.ticket := by
  have hnodup : ((engine.rung moment).map (·.process.ticket)).Nodup := by
    have hall := ((engine.rung_perm moment).map (·.process.ticket)).nodup_iff.mpr h.nodup_alarms
    rw [List.map_append] at hall
    exact hall.of_append_left
  refine List.pairwise_map.mpr (((rung_sorted moment).and (List.pairwise_map.mp hnodup)).imp_of_mem ?_)
  rintro alarm other hmem hmem' ⟨hle, hne⟩ hasks hasks'
  obtain ⟨hthere, -⟩ := due_of_mem_rung hnext hmem
  obtain ⟨hthere', -⟩ := due_of_mem_rung hnext hmem'
  by_contra hlt
  have hserial := h.serials other hthere' alarm hthere (h.sleeps_of_asks hidle hasks')
    (h.sleeps_of_asks hidle hasks) (by omega)
  exact absurd hle (Nat.not_le_of_lt hserial)

/-- The clock goes to the next moment at which somebody is due. -/
theorem Places.passTo (h : engine.Places stint times s total []) (hidle : engine.ready = [])
    (hnext : ∀ alarm ∈ engine.alarms, moment ≤ alarm.due) :
    (engine.passTo moment).Places stint times (s.passTo stint times moment) total [] := by
  rw [passTo_eq hidle]
  refine ⟨rfl, h.forms, h.next, fun i ↦ passTo_eq_unborn.trans (h.unborn i),
    List.forall_mem_map.mpr fun alarm hmem ↦ ?_, fun process hmem ↦ ?_, fun alarm hmem ↦ ?_,
    fun answer hmem ↦ ?_, ?_, h.queue_rung hidle hnext, fun alarm hmem other hmem' ↦ ?_⟩
  · obtain ⟨hthere, rfl⟩ := due_of_mem_rung hnext hmem
    rw [stintProcess_passTo]
    refine ⟨(h.alarms alarm hthere).2.1, ?_⟩
    rcases h.phase_of_due hthere with ⟨-, hphase⟩ | ⟨-, hphase⟩
    · exact Or.inl hphase
    · exact Or.inr (Or.inr hphase)
  · obtain ⟨heq, hphase⟩ := h.parked process hmem
    rw [stintProcess_passTo, passTo_phase_of_ne (by simp [hphase]) (by simp [hphase])]
    exact ⟨heq, hphase⟩
  · obtain ⟨hthere, hne⟩ := due_of_mem_unrung hmem
    rw [stintProcess_passTo, h.phase_of_later hthere hne]
    exact h.alarms alarm hthere
  · obtain ⟨hphase, heq⟩ := h.answers answer hmem
    rw [passTo_phase_of_ne (by simp [hphase]) (by simp [hphase])]
    exact ⟨hphase, heq⟩
  · refine List.Perm.trans ?_ h.places
    have hsplit := (engine.rung_perm moment).map (·.process.ticket)
    rw [List.perm_iff_count]
    intro j
    have hcount := hsplit.count_eq j
    simp only [hidle, List.map_append, List.map_map, List.count_append, Function.comp_def, List.map_nil,
      List.count_nil] at hcount ⊢
    omega
  · obtain ⟨hthere, hne⟩ := due_of_mem_unrung hmem
    obtain ⟨hthere', hne'⟩ := due_of_mem_unrung hmem'
    rw [h.phase_of_later hthere hne, h.phase_of_later hthere' hne']
    exact h.serials alarm hthere other hthere'

end

/-- Time passes up to the next moment at which somebody is due. -/
theorem Places.pass (h : engine.Places stint times s total []) (hs : s.Sound stint total times)
    (hidle : engine.ready = []) {moment : Nat} (hnext : engine.nextMoment = some moment) :
    (engine.passTo moment).Places stint times (s.passTo stint times moment) total [] ∧
      (s.passTo stint times moment).Sound stint total times ∧
      (s.passTo stint times moment).weight total < s.weight total := by
  obtain ⟨hmem, hleast⟩ := List.min?_eq_some_iff.mp hnext
  obtain ⟨first, hfirst, rfl⟩ := List.mem_map.mp hmem
  have hle (alarm : Alarm (Nat × Nat)) (halarm : alarm ∈ engine.alarms) : first.due ≤ alarm.due :=
    hleast _ (List.mem_map_of_mem halarm)
  have hdue (i : Nat) (hphase : s.phase i = .sleeps ∨ s.phase i = .holds) :
      ∃ alarm ∈ engine.alarms, alarm.process.ticket = i ∧ first.due ≤ alarm.due := by
    obtain ⟨alarm, halarm, hticket⟩ := h.exists_alarm List.not_mem_nil hphase
    exact ⟨alarm, halarm, hticket, hle alarm halarm⟩
  refine ⟨h.passTo hidle hle, hs.passTo (Nat.le_of_lt (h.clock_lt hs hfirst)) (fun i _ ↦ h.idle hidle i)
    (fun i _ hsleeps ↦ ?_) (fun i _ hholds ↦ ?_), ?_⟩
  · obtain ⟨alarm, halarm, rfl, hbound⟩ := hdue i (Or.inl hsleeps)
    rcases (h.alarms alarm halarm).2.2 with ⟨-, heq⟩ | ⟨hholds, -⟩
    · exact heq ▸ hbound
    · cases hsleeps.symm.trans hholds
  · obtain ⟨alarm, halarm, rfl, hbound⟩ := hdue i (Or.inr hholds)
    rcases (h.alarms alarm halarm).2.2 with ⟨hsleeps, -⟩ | ⟨-, heq⟩
    · cases hholds.symm.trans hsleeps
    · exact heq ▸ hbound
  · have hlt : first.process.ticket < total := by
      refine h.lt_of_phase fun hunborn ↦ ?_
      rcases (h.alarms first hfirst).2.2 with ⟨hphase, -⟩ | ⟨hphase, -⟩ <;> cases hunborn.symm.trans hphase
    refine Course.weight_lt (fun i _ ↦ ?_) hlt ?_
    · cases hphase : s.phase i with
      | sleeps =>
        simp only [Course.passTo, hphase]
        split <;> decide
      | holds =>
        simp only [Course.passTo, hphase]
        split <;> decide
      | unborn | asks | waits | has | leaves | done => simp [Course.passTo, hphase]
    · rcases h.phase_of_due hfirst with ⟨hold, hnew⟩ | ⟨hold, hnew⟩
      · rw [hold, hnew]
        decide
      · rw [hold, hnew]
        decide

/-! ## Runs -/

/-- With room for all turns, all stints are done in the end. -/
theorem Places.runUntil (htimed : Timed stint total times) {test : Engine (Nat × Nat) → Bool}
    (htest : ∀ engine s, test engine = true → engine.Places stint times s total [] →
      ∀ i < total, s.phase i = .done) (h : engine.Places stint times s total [])
    (hs : s.Sound stint total times) {room : Nat} (hroom : s.weight total ≤ room) :
    ∃ s', (engine.runUntil test room).Places stint times s' total [] ∧ ∀ i < total, s'.phase i = .done := by
  induction room generalizing engine s with
  | zero =>
    refine ⟨s, h, fun i hi ↦ ?_⟩
    have hzero := Finset.sum_eq_zero_iff.mp (Nat.le_zero.mp hroom) i (Finset.mem_range.mpr hi)
    cases hphase : s.phase i with
    | done => rfl
    | unborn | sleeps | asks | waits | has | holds | leaves =>
      rw [hphase] at hzero
      cases hzero
  | succ room ih =>
    rw [Engine.runUntil]
    by_cases hstop : test engine = true
    · rw [if_pos hstop]
      exact ⟨s, h, htest engine s hstop h⟩
    rw [if_neg hstop]
    cases hready : engine.ready with
    | cons process ready =>
      obtain ⟨s', hturn⟩ := h.turn htimed hs hready
      exact ih hturn.places hturn.sound (Nat.le_of_lt_succ (Nat.lt_of_lt_of_le hturn.weight hroom))
    | nil =>
      cases hnext : engine.nextMoment with
      | some moment =>
        obtain ⟨hplaces, hsound, hweight⟩ := h.pass hs hready hnext
        exact ih hplaces hsound (Nat.le_of_lt_succ (Nat.lt_of_lt_of_le hweight hroom))
      | none =>
        have halarms : engine.alarms = [] := List.map_eq_nil_iff.mp (List.min?_eq_none_iff.mp hnext)
        exact ⟨s, h, h.done_of_no_alarm hs hready halarms⟩

/-- Who is done has its answer. -/
theorem Places.lookup_eq (h : engine.Places stint times s total []) (hi : i < total)
    (hphase : s.phase i = .done) : engine.answers.lookup i = some (times i) := by
  obtain ⟨answer, hmem, rfl⟩ : ∃ answer ∈ engine.answers, answer.1 = i := by
    rcases h.exists_place hi List.not_mem_nil with ⟨process, hmem, rfl⟩ | ⟨process, hmem, rfl⟩ |
      ⟨alarm, hmem, rfl⟩ | hanswer
    · rcases (h.ready process hmem).2 with hready | hready | hready <;> cases hphase.symm.trans hready
    · cases hphase.symm.trans (h.parked process hmem).2
    · rcases (h.alarms alarm hmem).2.2 with ⟨halarm, -⟩ | ⟨halarm, -⟩ <;> cases hphase.symm.trans halarm
    · exact hanswer
  cases hlookup : engine.answers.lookup answer.1 with
  | none => exact absurd rfl (bne_iff_ne.mp (List.lookup_eq_none_iff.mp hlookup answer hmem))
  | some found =>
    obtain ⟨before, after, heq, -⟩ := List.lookup_eq_some_iff.mp hlookup
    have hfound : (answer.1, found) ∈ engine.answers := heq ▸ List.mem_append_right before List.mem_cons_self
    exact congrArg some (h.answers _ hfound).2

/-! ## Setting off -/

/-- Stints are set off before any time has passed. -/
structure Opens (engine : Engine (Nat × Nat)) (stint : Nat → Stint) (times : Nat → Nat × Nat)
    (total n : Nat) (s : Course) : Prop where
  places : engine.Places stint times s n []
  sound : s.Sound stint total times
  clock : s.clock = 0
  asks : ∀ i, s.phase i ≠ .asks

theorem opens_initial (world : World) :
    Opens { world := { world with clock := 0, locks := {} } } stint times total 0
      ⟨0, fun _ ↦ .unborn, fun _ ↦ []⟩ where
  places := by
    refine ⟨rfl, Locks.forms_initial, rfl, fun i ↦ iff_of_true rfl (Nat.zero_le i), ?_, ?_, ?_, ?_,
      List.Perm.refl _, List.Pairwise.nil, ?_⟩
    all_goals exact fun _ hmem ↦ absurd hmem List.not_mem_nil
  sound := by
    refine ⟨fun i _ ↦ trivial, fun key i ↦ ?_, fun key ↦ List.Pairwise.nil, fun i _ j _ hnot ↦ ?_,
      fun i _ hdone ↦ ?_⟩
    · exact iff_of_false List.not_mem_nil fun hmem ↦ hmem.2.2
    · exact absurd trivial hnot
    · cases hdone
  clock := rfl
  asks _ := nofun

section

variable (h : Opens engine stint times total n s)
include h

theorem Opens.unborn : s.phase n = .unborn := (h.places.unborn n).mpr (Nat.le_refl n)

/-- A stint that begins at once comes before all others that have not lined up yet. -/
theorem Opens.before (hzero : (stint n).start = 0) (hi : i < total) (hne : i ≠ n)
    (hpending : (s.phase i).Pending) : Before stint n i := by
  have hfits := h.sound.fits i hi
  cases hphase : s.phase i with
  | unborn =>
    have hle := (h.places.unborn i).mp hphase
    simp only [Before]
    omega
  | sleeps =>
    rw [hphase] at hfits
    refine Or.inl ?_
    rw [hzero, ← h.clock]
    exact hfits
  | asks => exact absurd hphase (h.asks i)
  | waits | has | holds | leaves | done =>
    rw [hphase] at hpending
    exact hpending.elim

/-- A stint that begins at once asks for its lock. -/
theorem Opens.start_at_once (htimed : Timed stint total times) (hn : n < total) (hzero : (stint n).start = 0) :
    ∃ s', Opens ({ engine with next := n + 1 }.step ⟨n, .go (stint n).take⟩) stint times total (n + 1) s' := by
  have hsound := h.sound.goOn n .asks (by simp [h.unborn, Phase.Pending])
    (by simp [h.unborn, Phase.Lined]) (by decide) (hzero.trans h.clock.symm)
  obtain ⟨s', hturn⟩ := turn_asks htimed hn (h.places.born .asks (by decide)) hsound (s.phase_goOn n .asks)
    fun i hi hne hpending ↦ h.before hzero hi hne (by rwa [Course.phase_goOn_of_ne hne] at hpending)
  refine ⟨s', hturn.places, hturn.sound, hturn.clock.trans h.clock, fun i hi ↦ ?_⟩
  obtain ⟨hasks, hne⟩ := hturn.asks i hi
  exact h.asks i ((Course.phase_goOn_of_ne hne).symm.trans hasks)

/-- A stint that begins later waits for its beginning. -/
theorem Opens.start_later (hlater : (stint n).start ≠ 0) :
    Opens ({ engine with next := n + 1 }.setAlarm (stint n).start (stintProcess stint times (s.goOn n .sleeps) n))
      stint times total (n + 1) (s.goOn n .sleeps) := by
  have hfits : s.clock < (stint n).start := h.clock ▸ Nat.pos_of_ne_zero hlater
  refine ⟨(h.places.born .sleeps (by decide)).setAlarm (Or.inl ⟨s.phase_goOn n .sleeps, rfl⟩) ?_, ?_, h.clock,
    fun i hi ↦ h.asks i (asks_goOn .sleeps (by decide) hi).1⟩
  · intro _ alarm hmem
    refine h.places.lt_of_phase fun hnone ↦ ?_
    rcases (h.places.alarms alarm hmem).2.2 with ⟨hphase, -⟩ | ⟨hphase, -⟩ <;> cases hnone.symm.trans hphase
  · exact h.sound.goOn n .sleeps (by simp [h.unborn, Phase.Pending]) (by simp [h.unborn, Phase.Lined]) (by decide) hfits

/-- Another stint is set off, and runs until it stops for the first time. -/
theorem Opens.start (htimed : Timed stint total times) (hn : n < total) : (engine.start (stint n).call).1 = n ∧
    ∃ s', Opens (engine.start (stint n).call).2 stint times total (n + 1) s' := by
  have hstart : engine.start (stint n).call = (n, { engine with next := n + 1 }.step
      ⟨n, .go (.ask (.sleep (stint n).start) fun _ ↦ (stint n).take)⟩) := by
    rw [Engine.start, h.places.next]
    rfl
  rw [hstart]
  refine ⟨rfl, ?_⟩
  by_cases hzero : (stint n).start = 0
  · have hstep : { engine with next := n + 1 }.step
        ⟨n, .go (.ask (.sleep (stint n).start) fun _ ↦ (stint n).take)⟩ =
        { engine with next := n + 1 }.step ⟨n, .go (stint n).take⟩ := by
      simp only [step, Resumption.run, Call.run, hzero, if_true]
    rw [hstep]
    exact h.start_at_once htimed hn hzero
  · have hstep : { engine with next := n + 1 }.step
        ⟨n, .go (.ask (.sleep (stint n).start) fun _ ↦ (stint n).take)⟩ =
        { engine with next := n + 1 }.setAlarm (stint n).start
          (stintProcess stint times (s.goOn n .sleeps) n) := by
      simp only [step, Resumption.run, Call.run, hzero, if_false, grant_nil, h.places.clock, h.clock,
        Nat.zero_add, stintProcess, s.phase_goOn n .sleeps]
      rfl
    rw [hstep]
    exact ⟨_, h.start_later hzero⟩

end

/-- Stints that have their answers are done. -/
theorem answered_done (total : Nat) (engine : Engine (Nat × Nat)) (s : Course)
    (htest : (List.range total).all engine.hasAnswered = true)
    (h : engine.Places stint times s total []) : ∀ i < total, s.phase i = .done := by
  intro i hi
  have hsome := List.all_eq_true.mp htest i (List.mem_range.mpr hi)
  obtain ⟨answer, hlookup⟩ := Option.isSome_iff_exists.mp hsome
  obtain ⟨before, after, heq, -⟩ := List.lookup_eq_some_iff.mp hlookup
  exact (h.answers (i, answer) (heq ▸ List.mem_append_right before List.mem_cons_self)).1

/-- **Stints are in time.**  Whatever stints are set off in order, each gets its lock when it has begun and the
last before it on its key has given it back, and gives it back after its span. -/
theorem runAll_stints (stint : Nat → Stint) (total : Nat) (world : World) {room : Nat}
    (hroom : 6 * total ≤ room) : ∃ times, Timed stint total times ∧
      (runAll room { world := { world with clock := 0, locks := {} } }
        ((List.range total).map fun i ↦ (stint i).call)).1 =
        (List.range total).map fun i ↦ some (times i) := by
  obtain ⟨times, htimed⟩ := exists_timed stint total
  refine ⟨times, htimed, ?_⟩
  -- all are set off
  have hopens (n : Nat) (hn : n ≤ total) : ∃ engine s, ((List.range n).map fun i ↦ (stint i).call).foldl
      (fun (tickets, engine) call ↦
        let (ticket, engine) := start engine call
        (tickets ++ [ticket], engine))
      ([], { world := { world with clock := 0, locks := {} } }) = (List.range n, engine) ∧
        Opens engine stint times total n s := by
    induction n with
    | zero => exact ⟨_, _, rfl, opens_initial world⟩
    | succ n ih =>
      obtain ⟨engine, s, hfold, hopen⟩ := ih (Nat.le_of_succ_le hn)
      obtain ⟨hticket, s', hopen'⟩ := hopen.start htimed hn
      refine ⟨_, s', ?_, hopen'⟩
      rw [List.range_succ, List.map_append, List.foldl_append, hfold]
      simp [hticket]
  obtain ⟨engine, s, hfold, hopen⟩ := hopens total (Nat.le_refl total)
  obtain ⟨s', hplaces, hdone⟩ := hopen.places.runUntil htimed (answered_done total) hopen.sound
    ((s.weight_le total).trans hroom)
  simp only [runAll, hfold, await]
  exact List.map_congr_left fun i hi ↦ hplaces.lookup_eq (List.mem_range.mp hi) (hdone i (List.mem_range.mp hi))

end PieceKeeper.Engine
