import PieceKeeper.Proofs.Company.Exclusion

/-!
# Places at locks

Who has a place at a lock keeps it, whoever else asks for the lock, gives it back or gives up.
-/

namespace PieceKeeper.Locks

variable {κ : Type} {table table' : Locks κ} {seat : Nat → Option κ} {serial ticket other : Nat}

/-- Whether a ticket has its place at the lock with a serial number. -/
def HasPlace (table : Locks κ) (serial ticket : Nat) : Prop :=
  ∃ lock ∈ table.locks, lock.serial = serial ∧ lock.Seats ticket

theorem seats_ask {lock : Lock} (h : lock.Seats other) : (Lock.ask lock ticket).Seats other := by
  rw [Lock.ask]
  split
  · exact h.imp_right (List.mem_append_left _)
  · rename_i hfree
    rcases h with hholder | hwaits
    · exact absurd (by simp [PieceKeeper.Lock.inUse, hholder]) hfree
    · exact Or.inr hwaits

theorem seats_handOver {lock : Lock} (h : lock.Seats other) (hne : lock.holder ≠ some other) :
    (Lock.handOver lock).Seats other := by
  have hwaits := h.resolve_left hne
  rw [Lock.handOver]
  split
  · exact Or.inr hwaits
  · rename_i first waiting hwaiting
    rw [hwaiting] at hwaits
    exact (List.mem_cons.mp hwaits).imp (congrArg some ·.symm) id

/-- Whoever asks for a lock has a place there. -/
theorem seats_ask_self {lock : Lock} : (Lock.ask lock ticket).Seats ticket := by
  rw [Lock.ask]
  split
  · exact Or.inr (List.mem_append_right _ (List.mem_singleton_self _))
  · exact Or.inl rfl

/-- A lock is in use when somebody is there. -/
theorem inUse_iff {lock : Lock} : lock.inUse = true ↔ ∃ ticket, lock.Seats ticket := by
  rw [PieceKeeper.Lock.inUse, Bool.or_eq_true, Option.isSome_iff_exists, decide_eq_true_iff,
    List.isEmpty_iff]
  constructor
  · rintro (⟨ticket, hholder⟩ | hwaiting)
    · exact ⟨ticket, Or.inl hholder⟩
    · obtain ⟨ticket, hwaits⟩ := List.exists_mem_of_ne_nil _ hwaiting
      exact ⟨ticket, Or.inr hwaits⟩
  · rintro ⟨ticket, hholder | hwaits⟩
    · exact Or.inl ⟨ticket, hholder⟩
    · exact Or.inr (List.ne_nil_of_mem hwaits)

theorem map_serial_change {f : Lock → Lock} (hf : ∀ lock, (f lock).serial = lock.serial) :
    (table.change serial f).locks.map (·.serial) = table.locks.map (·.serial) := by
  rw [change, List.map_map]
  refine List.map_congr_left fun lock _ ↦ ?_
  rw [Function.comp_apply]
  split
  · exact hf lock
  · rfl

theorem map_serial_release : (table.release ticket).1.locks.map (·.serial) = table.locks.map (·.serial) := by
  rw [release]
  split
  · rfl
  · exact map_serial_change fun lock ↦ Lock.serial_handOver

theorem entries_release : (table.release ticket).1.entries = table.entries := by
  rw [release]
  split
  · rfl
  · rfl

theorem map_serial_cancel : (table.cancel ticket).locks.map (·.serial) = table.locks.map (·.serial) := by
  rw [cancel, List.map_map]
  rfl

theorem HasPlace.ask (h : table.HasPlace serial other) (serial' : Nat) :
    (table.change serial' fun lock ↦ Lock.ask lock ticket).HasPlace serial other := by
  obtain ⟨lock, hlock, rfl, hseats⟩ := h
  refine ⟨_, List.mem_map_of_mem hlock, ?_⟩
  split
  · exact ⟨Lock.serial_ask, seats_ask hseats⟩
  · exact ⟨rfl, hseats⟩

theorem holds_ask (h : table.holds other = true) (serial : Nat) :
    (table.change serial fun lock ↦ Lock.ask lock ticket).holds other = true := by
  obtain ⟨lock, hlock, hholder⟩ := holds_iff.mp h
  refine holds_iff.mpr ⟨_, List.mem_map_of_mem hlock, ?_⟩
  split
  · exact Lock.holder_ask hholder
  · exact hholder

theorem HasPlace.cancel (h : table.HasPlace serial other) (hne : other ≠ ticket) :
    (table.cancel ticket).HasPlace serial other := by
  obtain ⟨lock, hlock, rfl, hseats⟩ := h
  refine ⟨_, List.mem_map_of_mem hlock, rfl, hseats.imp_right fun hwaits ↦ ?_⟩
  exact List.mem_filter.mpr ⟨hwaits, bne_iff_ne.mpr hne⟩

theorem holds_cancel : (table.cancel ticket).holds other = table.holds other := by
  rw [holds, holds, cancel, List.any_map]
  rfl

theorem HasPlace.shuffle (h : table.HasPlace serial other) (hshuffles : table.Shuffles table') :
    table'.HasPlace serial other := by
  obtain ⟨f, hf, rfl⟩ := hshuffles
  obtain ⟨lock, hlock, rfl, hseats⟩ := h
  refine ⟨_, List.mem_map_of_mem hlock, (hf lock).1, hseats.imp (fun hholder ↦ ?_) (hf lock).2.2.mem_iff.mpr⟩
  exact (hf lock).2.1.trans hholder

theorem map_serial_shuffle (hshuffles : table.Shuffles table') :
    table'.locks.map (·.serial) = table.locks.map (·.serial) := by
  obtain ⟨f, hf, rfl⟩ := hshuffles
  rw [List.map_map]
  exact List.map_congr_left fun lock _ ↦ (hf lock).1

namespace Orderly

/-- Who is at a lock stays there when another gives back its own. -/
theorem hasPlace_release (h : table.Orderly seat) (hplace : table.HasPlace serial other)
    (hne : other ≠ ticket) : (table.release ticket).1.HasPlace serial other := by
  rw [Locks.release]
  cases hfound : table.locks.find? fun lock ↦ lock.holder == some ticket with
  | none => exact hplace
  | some held =>
    have hholder : held.holder = some ticket := by
      have hheld := List.find?_some hfound
      exact beq_iff_eq.mp hheld
    obtain ⟨lock, hlock, rfl, hseats⟩ := hplace
    refine ⟨_, List.mem_map_of_mem hlock, ?_⟩
    split
    · rename_i hserial
      obtain rfl := h.lock_eq hlock (List.mem_of_find?_eq_some hfound) (beq_iff_eq.mp hserial)
      refine ⟨Lock.serial_handOver, seats_handOver hseats fun hother ↦ ?_⟩
      exact hne (Option.some.inj (hother.symm.trans hholder))
    · exact ⟨rfl, hseats⟩

/-- Locks stay orderly when only some serial numbers are kept. -/
theorem keep (h : table.Orderly seat) (p : Nat → Bool) :
    Orderly { table with
      entries := table.entries.filter fun entry ↦ p entry.2
      locks := table.locks.filter fun lock ↦ p lock.serial } seat where
  keys := h.keys.sublist (List.filter_sublist.map _)
  serials := h.serials.sublist (List.filter_sublist.map _)
  entry_lt entry hentry := h.entry_lt entry (List.mem_of_mem_filter hentry)
  lock_lt lock hlock := h.lock_lt lock (List.mem_of_mem_filter hlock)
  seated lock hlock ticket hseats := by
    obtain ⟨hmem, hp⟩ := List.mem_filter.mp hlock
    obtain ⟨key, hentry, hkey⟩ := h.seated lock hmem ticket hseats
    exact ⟨key, List.mem_filter.mpr ⟨hentry, hp⟩, hkey⟩
  tidy lock hlock := h.tidy lock (List.mem_of_mem_filter hlock)

theorem cancel (h : table.Orderly seat) (ticket : Nat) : (table.cancel ticket).Orderly seat := by
  refine h.map (fun lock ↦ rfl) (fun lock hlock other hseats ↦ ?_) fun lock hlock ↦ ⟨?_, ?_⟩
  · exact h.seated lock hlock other (hseats.imp_right List.mem_of_mem_filter)
  · exact fun other hholder hwaits ↦
      (h.tidy lock hlock).holder other hholder (List.mem_of_mem_filter hwaits)
  · exact (h.tidy lock hlock).waiting.filter _

/-- Whoever gives up has no place any more. -/
theorem leave (h : table.Orderly seat) (ticket : Nat) :
    ((table.cancel ticket).release ticket).1.Orderly (Function.update seat ticket none) := by
  by_cases hholds : (table.cancel ticket).holds ticket = true
  · exact (h.cancel ticket).release hholds
  · have hnone : (table.cancel ticket).locks.find? (fun lock ↦ lock.holder == some ticket) = none := by
      refine List.find?_eq_none.mpr fun lock hlock hholder ↦ hholds ?_
      exact holds_iff.mpr ⟨lock, hlock, beq_iff_eq.mp hholder⟩
    rw [Locks.release, hnone]
    -- nobody with this ticket is anywhere
    refine h.map (fun lock ↦ rfl) (fun lock hlock other hseats ↦ ?_) fun lock hlock ↦
      (h.cancel ticket).tidy _ (List.mem_map_of_mem hlock)
    have hne : other ≠ ticket := by
      rintro rfl
      rcases hseats with hholder | hwaits
      · exact hholds (holds_iff.mpr ⟨_, List.mem_map_of_mem hlock, hholder⟩)
      · exact bne_iff_ne.mp (List.mem_filter.mp hwaits).2 rfl
    obtain ⟨key, hentry, hkey⟩ := h.seated lock hlock other (hseats.imp_right List.mem_of_mem_filter)
    exact ⟨key, hentry, (Function.update_of_ne hne _ _).trans hkey⟩

end Orderly

end PieceKeeper.Locks
