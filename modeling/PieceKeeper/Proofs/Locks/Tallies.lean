import Mathlib.Algebra.BigOperators.Group.List.Basic
import Mathlib.Algebra.Ring.Nat
import Mathlib.Data.List.Nodup
import PieceKeeper.Proofs.Locks.Places

/-!
# Tallies of locks

How many locks a ticket holds, and how often it waits for one.  Whatever others ask for and give back, a
ticket keeps what it holds, and it waits until it is told that it got what it waits for.  That needs nothing
of the others, who may hold as many locks as they like.
-/

namespace PieceKeeper.Locks

variable {κ : Type}

/-- No two locks have one serial number, and none has a serial number yet to come. -/
structure Numbered (table : Locks κ) : Prop where
  serials : (table.locks.map (·.serial)).Nodup
  lt : ∀ lock ∈ table.locks, lock.serial < table.next

/-- The sum of something over all locks. -/
def tally (table : Locks κ) (of : Lock → Nat) : Nat := (table.locks.map of).sum

/-- Whether a ticket holds a lock, as a number. -/
def holding (ticket : Nat) (lock : Lock) : Nat := if lock.holder = some ticket then 1 else 0

/-- How many locks a ticket holds. -/
def held (table : Locks κ) (ticket : Nat) : Nat := table.tally (holding ticket)

/-- How often a ticket stands in the line of a lock. -/
def waiting (ticket : Nat) (lock : Lock) : Nat := lock.waiting.count ticket

/-- How often a ticket waits for locks. -/
def waits (table : Locks κ) (ticket : Nat) : Nat := table.tally (waiting ticket)

variable {table : Locks κ} {lock : Lock} {ticket other : Nat} {of : Lock → Nat}

theorem holds_iff_held : table.holds ticket = true ↔ table.held ticket ≠ 0 := by
  rw [holds_iff, held, tally, ne_eq, List.sum_eq_zero_iff_forall_eq_nat, List.forall_mem_map]
  constructor
  · rintro ⟨lock, hlock, hholder⟩ hzero
    exact absurd ((if_pos hholder).symm.trans (hzero lock hlock)) Nat.one_ne_zero
  · intro hne
    by_contra hnone
    exact hne fun lock hlock ↦ if_neg fun hholder ↦ hnone ⟨lock, hlock, hholder⟩

/-! ## One lock changes -/

namespace Numbered

/-- A change at a serial number changes one lock. -/
theorem tally_change (h : table.Numbered) (hlock : lock ∈ table.locks) (f : Lock → Lock) (of : Lock → Nat) :
    (table.change lock.serial f).tally of + of lock = table.tally of + of (f lock) := by
  obtain ⟨before, after, hlocks⟩ := List.append_of_mem hlock
  have hserials := h.serials
  rw [hlocks, List.map_append, List.map_cons, List.nodup_middle, List.nodup_cons, ← List.map_append] at hserials
  have hsame (first : Lock) (hmem : first ∈ before ++ after) :
      (if first.serial == lock.serial then f first else first) = first := by
    refine if_neg fun heq ↦ hserials.1 ?_
    exact beq_iff_eq.mp heq ▸ List.mem_map_of_mem hmem
  have hbefore := (List.map_congr_left fun first hmem ↦ hsame first (List.mem_append_left after hmem)).trans
    (List.map_id' before)
  have hafter := (List.map_congr_left fun first hmem ↦ hsame first (List.mem_append_right before hmem)).trans
    (List.map_id' after)
  have hchange : (table.change lock.serial f).locks = before ++ f lock :: after := by
    rw [Locks.change, hlocks, List.map_append, List.map_cons, hbefore, hafter,
      if_pos (beq_self_eq_true lock.serial)]
  simp only [tally, hchange, hlocks, List.map_append, List.map_cons, List.sum_append, List.sum_cons]
  omega

theorem change (h : table.Numbered) {f : Lock → Lock} (hf : ∀ lock, (f lock).serial = lock.serial)
    (serial : Nat) : (table.change serial f).Numbered := by
  have hmap : (table.change serial f).locks.map (·.serial) = table.locks.map (·.serial) :=
    map_serial_change hf
  refine ⟨hmap ▸ h.serials, fun lock hlock ↦ ?_⟩
  obtain ⟨old, hold, heq⟩ := List.mem_map.mp (hmap ▸ List.mem_map_of_mem hlock)
  exact heq ▸ h.lt old hold

/-! ## Who asks for a lock -/

theorem prune (h : table.Numbered) : table.prune.Numbered :=
  ⟨h.serials.sublist (List.filter_sublist.map _), fun lock hlock ↦ h.lt lock (List.mem_of_mem_filter hlock)⟩

end Numbered

/-- Locks that are not in use count for nobody. -/
theorem tally_prune (hof : ∀ lock : Lock, ¬ lock.inUse = true → of lock = 0) :
    table.prune.tally of = table.tally of := by
  simp only [tally, Locks.prune]
  induction table.locks with
  | nil => rfl
  | cons lock locks ih =>
    rw [List.filter_cons]
    split
    · rw [List.map_cons, List.map_cons, List.sum_cons, List.sum_cons, ih]
    · rw [List.map_cons, List.sum_cons, hof lock ‹_›, Nat.zero_add, ih]

theorem holding_of_not_inUse (h : ¬ lock.inUse = true) : holding ticket lock = 0 := by
  refine if_neg fun hholder ↦ h ?_
  exact inUse_iff.mpr ⟨ticket, Or.inl hholder⟩

theorem waiting_of_not_inUse (h : ¬ lock.inUse = true) : waiting ticket lock = 0 := by
  refine List.count_eq_zero.mpr fun hwaits ↦ h ?_
  exact inUse_iff.mpr ⟨ticket, Or.inr hwaits⟩

/-- Whoever asks for a free lock holds it. -/
theorem holding_ask : holding other (Lock.ask lock ticket) =
    holding other lock + if other = ticket ∧ ¬ lock.inUse = true then 1 else 0 := by
  rw [Lock.ask]
  split
  · rename_i huse
    rw [if_neg fun h ↦ h.2 huse]
    rfl
  · rename_i hfree
    rw [holding_of_not_inUse hfree, Nat.zero_add]
    simp [holding, hfree, eq_comm]

/-- Whoever asks for a lock that is in use waits for it. -/
theorem waiting_ask : waiting other (Lock.ask lock ticket) =
    waiting other lock + if other = ticket ∧ lock.inUse = true then 1 else 0 := by
  rw [Lock.ask]
  split
  · rename_i huse
    by_cases heq : other = ticket
    · simp [waiting, huse, heq]
    · simp [waiting, heq, Ne.symm heq]
  · rename_i hfree
    rw [if_neg fun h ↦ hfree h.2]
    rfl

section

variable [BEq κ] [LawfulBEq κ]

/-- Whoever enters finds the lock of the key, which counts for nobody if it is new. -/
theorem Numbered.enter (h : table.Numbered) (key : κ) : (table.prune.enter key).2.Numbered ∧
    (∃ lock ∈ (table.prune.enter key).2.locks, lock.serial = (table.prune.enter key).1) ∧
    ∀ of : Lock → Nat, (∀ lock : Lock, ¬ lock.inUse = true → of lock = 0) →
      (table.prune.enter key).2.tally of = table.tally of := by
  rw [Locks.enter]
  cases hlookup : table.prune.entries.lookup key with
  | some serial =>
    refine ⟨h.prune, ?_, fun of hof ↦ tally_prune hof⟩
    -- an entry that was not forgotten leads to a lock that is in use
    obtain ⟨before, after, hentries, -⟩ := List.lookup_eq_some_iff.mp hlookup
    have hentry : (key, serial) ∈ table.prune.entries := hentries ▸ List.mem_append_right _ List.mem_cons_self
    obtain ⟨lock, hlock, hboth⟩ := List.any_eq_true.mp (List.mem_filter.mp hentry).2
    obtain ⟨hserial, huse⟩ := Bool.and_eq_true_iff.mp hboth
    exact ⟨lock, List.mem_filter.mpr ⟨hlock, huse⟩, beq_iff_eq.mp hserial⟩
  | none =>
    refine ⟨⟨List.nodup_cons.mpr ⟨fun hmem ↦ ?_, h.prune.serials⟩, ?_⟩, ⟨_, List.mem_cons_self, rfl⟩,
      fun of hof ↦ ?_⟩
    · obtain ⟨lock, hlock, heq⟩ := List.mem_map.mp hmem
      exact Nat.ne_of_lt (h.prune.lt lock hlock) heq
    · refine List.forall_mem_cons.mpr ⟨Nat.lt_succ_self _, fun lock hlock ↦ ?_⟩
      exact Nat.lt_succ_of_lt (h.prune.lt lock hlock)
    · have hnew : of { serial := table.prune.next } = 0 := hof _ Bool.false_ne_true
      rw [← @tally_prune _ table _ hof]
      dsimp only [tally]
      rw [List.map_cons, List.sum_cons, hnew, Nat.zero_add]

/-- Whoever asks for a lock gets it or waits for it, and nobody else notices. -/
theorem Numbered.request (h : table.Numbered) (key : κ) (ticket : Nat) :
    (table.request key ticket).Numbered ∧
    ((table.request key ticket).held ticket = table.held ticket + 1 ∧
        (table.request key ticket).waits ticket = table.waits ticket ∨
      (table.request key ticket).held ticket = table.held ticket ∧
        (table.request key ticket).waits ticket = table.waits ticket + 1) ∧
    ∀ other ≠ ticket, (table.request key ticket).held other = table.held other ∧
      (table.request key ticket).waits other = table.waits other := by
  obtain ⟨hnumbered, ⟨lock, hlock, hserial⟩, htally⟩ := h.enter key
  have hrequest : table.request key ticket =
      (table.prune.enter key).2.change lock.serial fun lock ↦ Lock.ask lock ticket := by
    rw [hserial]
    rfl
  have hheld (other : Nat) : (table.request key ticket).held other + holding other lock =
      table.held other + holding other (Lock.ask lock ticket) := by
    rw [hrequest, held, held, ← htally _ fun _ ↦ holding_of_not_inUse]
    exact hnumbered.tally_change hlock _ _
  have hwaits (other : Nat) : (table.request key ticket).waits other + waiting other lock =
      table.waits other + waiting other (Lock.ask lock ticket) := by
    rw [hrequest, waits, waits, ← htally _ fun _ ↦ waiting_of_not_inUse]
    exact hnumbered.tally_change hlock _ _
  simp only [holding_ask, waiting_ask] at hheld hwaits
  refine ⟨hrequest ▸ hnumbered.change (fun _ ↦ Lock.serial_ask) _, ?_, fun other hne ↦ ?_⟩
  · have hheld := hheld ticket
    have hwaits := hwaits ticket
    by_cases huse : lock.inUse = true
    · rw [if_neg fun hand ↦ hand.2 huse] at hheld
      rw [if_pos ⟨rfl, huse⟩] at hwaits
      exact Or.inr ⟨by omega, by omega⟩
    · rw [if_pos ⟨rfl, huse⟩] at hheld
      rw [if_neg fun hand ↦ huse hand.2] at hwaits
      exact Or.inl ⟨by omega, by omega⟩
  · have hheld := hheld other
    have hwaits := hwaits other
    simp only [hne, false_and, if_false] at hheld hwaits
    exact ⟨by omega, by omega⟩

end

/-! ## Who gives a lock back -/

/-- Whoever is told that it got a lock waited for it, and nobody else notices that a lock is given back. -/
theorem Numbered.release (h : table.Numbered) (ticket : Nat) : (table.release ticket).1.Numbered ∧
    (∀ other, (table.release ticket).1.waits other + (table.release ticket).2.toList.count other =
      table.waits other) ∧
    (∀ other ≠ ticket, (table.release ticket).1.held other =
      table.held other + (table.release ticket).2.toList.count other) ∧
    (table.held ticket ≠ 0 → (table.release ticket).1.held ticket + 1 =
      table.held ticket + (table.release ticket).2.toList.count ticket) := by
  rw [Locks.release]
  cases hfind : table.locks.find? fun lock ↦ lock.holder == some ticket with
  | none =>
    refine ⟨h, fun _ ↦ rfl, fun _ _ ↦ rfl, fun hheld ↦ ?_⟩
    obtain ⟨lock, hlock, hholder⟩ := holds_iff.mp (holds_iff_held.mpr hheld)
    exact absurd (beq_iff_eq.mpr hholder) (List.find?_eq_none.mp hfind lock hlock)
  | some lock =>
    have hlock := List.mem_of_find?_eq_some hfind
    have hholder : lock.holder = some ticket := by
      simpa using List.find?_some hfind
    have hheld (other : Nat) : (table.change lock.serial Lock.handOver).held other + holding other lock =
      table.held other + holding other (Lock.handOver lock) := h.tally_change hlock _ _
    have hwaits (other : Nat) : (table.change lock.serial Lock.handOver).waits other + waiting other lock =
      table.waits other + waiting other (Lock.handOver lock) := h.tally_change hlock _ _
    -- the first who waits comes to hold the lock
    have hnext (other : Nat) : holding other (Lock.handOver lock) = lock.waiting.head?.toList.count other ∧
        waiting other (Lock.handOver lock) + lock.waiting.head?.toList.count other = waiting other lock := by
      cases hwaiting : lock.waiting with
      | nil => simp [Lock.handOver, hwaiting, holding, waiting]
      | cons first rest => simp [Lock.handOver, hwaiting, holding, waiting, List.count_cons]
    refine ⟨h.change (fun _ ↦ Lock.serial_handOver) _, fun other ↦ ?_, fun other hne ↦ ?_, fun _ ↦ ?_⟩
    · have hwaits := hwaits other
      have hcount := (hnext other).2
      dsimp only at *
      omega
    · have hheld := hheld other
      rw [(hnext other).1] at hheld
      have hnot : holding other lock = 0 :=
        if_neg fun heq ↦ hne (Option.some.inj (heq.symm.trans hholder))
      dsimp only at *
      omega
    · have hheld := hheld ticket
      rw [(hnext ticket).1] at hheld
      have hself : holding ticket lock = 1 := if_pos hholder
      dsimp only at *
      omega

end PieceKeeper.Locks
