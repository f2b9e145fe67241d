import Mathlib.Data.List.Nodup
import Mathlib.Data.List.Perm.Basic
import Mathlib.Logic.Function.Basic
import PieceKeeper.Locks

/-!
# Exclusion

Every ticket is seated at no more than one lock, and there it either holds the lock or waits for it.
So two tickets never hold the lock of one key, in whatever order those who wait are served.
-/

namespace PieceKeeper

/-! ## One lock -/

namespace Lock

/-- A ticket holds a lock or waits for it. -/
def Seats (lock : Lock) (ticket : Nat) : Prop := lock.holder = some ticket ∨ ticket ∈ lock.waiting

/-- Nobody waits twice, and the holder does not wait. -/
structure Tidy (lock : Lock) : Prop where
  holder : ∀ ticket, lock.holder = some ticket → ticket ∉ lock.waiting
  waiting : lock.waiting.Nodup

end Lock

namespace Locks.Lock

variable {lock : Lock} {ticket other : Nat}

theorem serial_ask : (ask lock ticket).serial = lock.serial := by
  rw [ask]
  split
  · rfl
  · rfl

theorem seats_of_ask (h : (ask lock ticket).Seats other) : lock.Seats other ∨ other = ticket := by
  rw [ask] at h
  split at h
  · rcases h with hholder | hwaits
    · exact Or.inl (Or.inl hholder)
    · exact (List.mem_append.mp hwaits).imp Or.inr List.mem_singleton.mp
  · rcases h with hholder | hwaits
    · exact Or.inr (Option.some.inj hholder).symm
    · exact Or.inl (Or.inr hwaits)

/-- Nobody loses a lock because another asks for it. -/
theorem holder_ask (h : lock.holder = some other) : (ask lock ticket).holder = some other := by
  have huse : lock.inUse = true := by simp [PieceKeeper.Lock.inUse, h]
  rw [ask, if_pos huse]
  exact h

theorem tidy_ask (h : lock.Tidy) (hnot : ¬ lock.Seats ticket) : (ask lock ticket).Tidy := by
  rw [ask]
  split
  · refine ⟨fun other hholder hwaits ↦ ?_, ?_⟩
    · rcases List.mem_append.mp hwaits with hold | hnew
      · exact h.holder other hholder hold
      · exact hnot (Or.inl (List.mem_singleton.mp hnew ▸ hholder))
    · refine List.nodup_append.mpr ⟨h.waiting, List.nodup_singleton _, fun other hold new hnew heq ↦ ?_⟩
      rw [List.mem_singleton.mp hnew] at heq
      exact hnot (Or.inr (heq ▸ hold))
  · refine ⟨fun other hholder hwaits ↦ ?_, h.waiting⟩
    obtain rfl := Option.some.inj hholder
    exact hnot (Or.inr hwaits)

theorem serial_handOver : (handOver lock).serial = lock.serial := by
  rw [handOver]
  split
  · rfl
  · rfl

/-- The next holder waited before. -/
theorem mem_waiting_of_handOver (h : (handOver lock).Seats other) : other ∈ lock.waiting := by
  rw [handOver] at h
  split at h
  · rename_i hwaiting
    rcases h with hholder | hwaits
    · cases hholder
    · exact hwaits
  · rename_i first waiting hwaiting
    rw [hwaiting]
    rcases h with hholder | hwaits
    · exact Option.some.inj hholder ▸ List.mem_cons_self
    · exact List.mem_cons_of_mem _ hwaits

theorem tidy_handOver (h : lock.Tidy) : (handOver lock).Tidy := by
  rw [handOver]
  split
  · refine ⟨fun other hholder ↦ ?_, h.waiting⟩
    cases hholder
  · rename_i first waiting hwaiting
    have hnodup := h.waiting
    rw [hwaiting] at hnodup
    obtain ⟨hfirst, hrest⟩ := List.nodup_cons.mp hnodup
    refine ⟨fun other hholder ↦ ?_, hrest⟩
    exact Option.some.inj hholder ▸ hfirst

end Locks.Lock

/-! ## All locks -/

namespace Locks

variable {κ : Type}

/-- Locks are known by one key each, and a ticket has its place only at the lock of the key that it
asked for. -/
structure Orderly (table : Locks κ) (seat : Nat → Option κ) : Prop where
  keys : (table.entries.map Prod.fst).Nodup
  serials : (table.locks.map (·.serial)).Nodup
  entry_lt : ∀ entry ∈ table.entries, entry.2 < table.next
  lock_lt : ∀ lock ∈ table.locks, lock.serial < table.next
  seated : ∀ lock ∈ table.locks, ∀ ticket, lock.Seats ticket →
    ∃ key, (key, lock.serial) ∈ table.entries ∧ seat ticket = some key
  tidy : ∀ lock ∈ table.locks, lock.Tidy

/-- The same locks, with the same holders, and with other orders among those who wait. -/
def Shuffles (table table' : Locks κ) : Prop :=
  ∃ f : Lock → Lock, (∀ lock, (f lock).serial = lock.serial ∧ (f lock).holder = lock.holder ∧
    (f lock).waiting.Perm lock.waiting) ∧ table' = { table with locks := table.locks.map f }

variable {table table' : Locks κ} {seat : Nat → Option κ} {key : κ} {ticket other : Nat}

theorem holds_iff : table.holds ticket = true ↔ ∃ lock ∈ table.locks, lock.holder = some ticket := by
  simp [holds]

theorem Shuffles.holds_eq (h : table.Shuffles table') (ticket : Nat) :
    table'.holds ticket = table.holds ticket := by
  obtain ⟨f, hf, rfl⟩ := h
  rw [Bool.eq_iff_iff, holds_iff, holds_iff]
  constructor
  · rintro ⟨lock, hlock, hholder⟩
    obtain ⟨lock, hmem, rfl⟩ := List.mem_map.mp hlock
    exact ⟨lock, hmem, (hf lock).2.1.symm.trans hholder⟩
  · rintro ⟨lock, hlock, hholder⟩
    exact ⟨f lock, List.mem_map_of_mem hlock, (hf lock).2.1.trans hholder⟩

theorem orderly_initial : Orderly ({} : Locks κ) fun _ ↦ none where
  keys := List.nodup_nil
  serials := List.nodup_nil
  entry_lt _ h := absurd h List.not_mem_nil
  lock_lt _ h := absurd h List.not_mem_nil
  seated _ h := absurd h List.not_mem_nil
  tidy _ h := absurd h List.not_mem_nil

namespace Orderly

theorem lock_eq (h : table.Orderly seat) {lock lock' : Lock} (hlock : lock ∈ table.locks)
    (hlock' : lock' ∈ table.locks) (hserial : lock.serial = lock'.serial) : lock = lock' :=
  List.inj_on_of_nodup_map h.serials hlock hlock' hserial

/-- There is one lock for the places of one key. -/
theorem lock_eq_of_seats (h : table.Orderly seat) {lock lock' : Lock} (hlock : lock ∈ table.locks)
    (hlock' : lock' ∈ table.locks) (hseats : lock.Seats ticket) (hseats' : lock'.Seats other)
    (hseat : seat ticket = seat other) : lock = lock' := by
  obtain ⟨key, hentry, hkey⟩ := h.seated lock hlock ticket hseats
  obtain ⟨key', hentry', hkey'⟩ := h.seated lock' hlock' other hseats'
  obtain rfl : key = key' := Option.some.inj (hkey.symm.trans (hseat.trans hkey'))
  exact h.lock_eq hlock hlock'
    (congrArg Prod.snd (List.inj_on_of_nodup_map h.keys hentry hentry' rfl))

/-- Two tickets do not hold the lock of one key. -/
theorem holder_unique (h : table.Orderly seat) (hholds : table.holds ticket = true)
    (hother : table.holds other = true) (hseat : seat ticket = seat other) : ticket = other := by
  obtain ⟨lock, hlock, hholder⟩ := holds_iff.mp hholds
  obtain ⟨lock', hlock', hholder'⟩ := holds_iff.mp hother
  obtain rfl := h.lock_eq_of_seats hlock hlock' (Or.inl hholder) (Or.inl hholder') hseat
  exact Option.some.inj (hholder.symm.trans hholder')

/-- Locks that are changed one by one, and keep their serial numbers. -/
theorem map (h : table.Orderly seat) {seat' : Nat → Option κ} {f : Lock → Lock}
    (hserial : ∀ lock, (f lock).serial = lock.serial)
    (hseated : ∀ lock ∈ table.locks, ∀ ticket, (f lock).Seats ticket →
      ∃ key, (key, lock.serial) ∈ table.entries ∧ seat' ticket = some key)
    (htidy : ∀ lock ∈ table.locks, (f lock).Tidy) :
    Orderly { table with locks := table.locks.map f } seat' where
  keys := h.keys
  serials := by
    have hsame : (table.locks.map f).map (·.serial) = table.locks.map (·.serial) := by
      rw [List.map_map]
      exact List.map_congr_left fun lock _ ↦ hserial lock
    rw [hsame]
    exact h.serials
  entry_lt := h.entry_lt
  lock_lt := List.forall_mem_map.mpr fun lock hlock ↦ by
    rw [hserial]
    exact h.lock_lt lock hlock
  seated := List.forall_mem_map.mpr fun lock hlock ticket hseats ↦ by
    rw [hserial]
    exact hseated lock hlock ticket hseats
  tidy := List.forall_mem_map.mpr htidy

theorem shuffle (h : table.Orderly seat) (hshuffles : table.Shuffles table') :
    table'.Orderly seat := by
  obtain ⟨f, hf, rfl⟩ := hshuffles
  refine h.map (fun lock ↦ (hf lock).1) (fun lock hlock ticket hseats ↦ ?_) fun lock hlock ↦
    ⟨fun ticket hholder ↦ ?_, ?_⟩
  · refine h.seated lock hlock ticket (hseats.imp (fun hholder ↦ ?_) (hf lock).2.2.mem_iff.mp)
    exact (hf lock).2.1.symm.trans hholder
  · rw [(hf lock).2.2.mem_iff]
    exact (h.tidy lock hlock).holder ticket ((hf lock).2.1.symm.trans hholder)
  · exact (hf lock).2.2.nodup_iff.mpr (h.tidy lock hlock).waiting

/-- Whoever has no place gets one at a lock. -/
theorem ask (h : table.Orderly seat) (hseat : seat ticket = none) {serial : Nat}
    (hentry : (key, serial) ∈ table.entries) :
    (table.change serial fun lock ↦ Lock.ask lock ticket).Orderly
      (Function.update seat ticket (some key)) := by
  have hnot {lock : Lock} (hlock : lock ∈ table.locks) : ¬ lock.Seats ticket := by
    intro hseats
    obtain ⟨_, -, hkey⟩ := h.seated lock hlock ticket hseats
    rw [hseat] at hkey
    cases hkey
  have hold {lock : Lock} (hlock : lock ∈ table.locks) {other : Nat} (hseats : lock.Seats other) :
      ∃ key', (key', lock.serial) ∈ table.entries ∧
        Function.update seat ticket (some key) other = some key' := by
    obtain ⟨key', hmem, hkey⟩ := h.seated lock hlock other hseats
    have hne : other ≠ ticket := by
      rintro rfl
      exact hnot hlock hseats
    exact ⟨key', hmem, (Function.update_of_ne hne _ _).trans hkey⟩
  refine h.map (fun lock ↦ ?_) (fun lock hlock other hseats ↦ ?_) fun lock hlock ↦ ?_
  · split
    · exact Lock.serial_ask
    · rfl
  · split at hseats
    · rename_i hserial
      rcases Lock.seats_of_ask hseats with hseats | rfl
      · exact hold hlock hseats
      · exact ⟨key, beq_iff_eq.mp hserial ▸ hentry, Function.update_self _ _ _⟩
    · exact hold hlock hseats
  · split
    · exact Lock.tidy_ask (h.tidy lock hlock) (hnot hlock)
    · exact h.tidy lock hlock

/-- Whoever gives back a lock has no place any more. -/
theorem release (h : table.Orderly seat) (hholds : table.holds ticket = true) :
    (table.release ticket).1.Orderly (Function.update seat ticket none) := by
  obtain ⟨lock₀, hmem₀, hholder₀⟩ := holds_iff.mp hholds
  rw [Locks.release]
  cases hfound : table.locks.find? fun lock ↦ lock.holder == some ticket with
  | none => exact absurd (beq_iff_eq.mpr hholder₀) (List.find?_eq_none.mp hfound lock₀ hmem₀)
  | some held =>
    have hheld := List.mem_of_find?_eq_some hfound
    have hholder : held.holder = some ticket := by
      have hheld := List.find?_some hfound
      exact beq_iff_eq.mp hheld
    have hold {lock : Lock} (hlock : lock ∈ table.locks) {other : Nat} (hseats : lock.Seats other)
        (hne : other ≠ ticket) : ∃ key, (key, lock.serial) ∈ table.entries ∧
          Function.update seat ticket none other = some key := by
      obtain ⟨key, hentry, hkey⟩ := h.seated lock hlock other hseats
      exact ⟨key, hentry, (Function.update_of_ne hne _ _).trans hkey⟩
    refine h.map (fun lock ↦ ?_) (fun lock hlock other hseats ↦ ?_) fun lock hlock ↦ ?_
    · split
      · exact Lock.serial_handOver
      · rfl
    · split at hseats
      · rename_i hserial
        obtain rfl := h.lock_eq hlock hheld (beq_iff_eq.mp hserial)
        have hwaits := Lock.mem_waiting_of_handOver hseats
        refine hold hlock (Or.inr hwaits) ?_
        rintro rfl
        exact (h.tidy lock hlock).holder other hholder hwaits
      · rename_i hserial
        refine hold hlock hseats ?_
        rintro rfl
        obtain rfl := h.lock_eq_of_seats hlock hheld hseats (Or.inl hholder) rfl
        exact hserial (beq_self_eq_true _)
    · split
      · exact Lock.tidy_handOver (h.tidy lock hlock)
      · exact h.tidy lock hlock

/-- Whoever holds a lock keeps it when another gives back its own. -/
theorem holds_release (h : table.Orderly seat) (hholds : table.holds other = true)
    (hne : other ≠ ticket) : (table.release ticket).1.holds other = true := by
  rw [Locks.release]
  cases hfound : table.locks.find? fun lock ↦ lock.holder == some ticket with
  | none => exact hholds
  | some held =>
    have hholder : held.holder = some ticket := by
      have hheld := List.find?_some hfound
      exact beq_iff_eq.mp hheld
    obtain ⟨lock, hlock, hother⟩ := holds_iff.mp hholds
    have hserial : ¬ (lock.serial == held.serial) = true := by
      intro heq
      obtain rfl := h.lock_eq hlock (List.mem_of_find?_eq_some hfound) (beq_iff_eq.mp heq)
      exact hne (Option.some.inj (hother.symm.trans hholder))
    exact holds_iff.mpr ⟨lock, List.mem_map.mpr ⟨lock, hlock, if_neg hserial⟩, hother⟩

end Orderly

theorem Orderly.prune (h : table.Orderly seat) : table.prune.Orderly seat where
  keys := h.keys.sublist (List.filter_sublist.map _)
  serials := h.serials.sublist (List.filter_sublist.map _)
  entry_lt entry hentry := h.entry_lt entry (List.mem_of_mem_filter hentry)
  lock_lt lock hlock := h.lock_lt lock (List.mem_of_mem_filter hlock)
  seated lock hlock ticket hseats := by
    obtain ⟨hmem, huse⟩ := List.mem_filter.mp hlock
    obtain ⟨key, hentry, hkey⟩ := h.seated lock hmem ticket hseats
    refine ⟨key, List.mem_filter.mpr ⟨hentry, ?_⟩, hkey⟩
    exact List.any_eq_true.mpr ⟨lock, hmem, Bool.and_eq_true_iff.mpr ⟨beq_self_eq_true _, huse⟩⟩
  tidy lock hlock := h.tidy lock (List.mem_of_mem_filter hlock)

/-- Whoever holds a lock keeps it when another asks for one. -/
theorem holds_request [BEq κ] (hholds : table.holds other = true) (key : κ) :
    (table.request key ticket).holds other = true := by
  obtain ⟨lock, hlock, hholder⟩ := holds_iff.mp hholds
  have hpruned : lock ∈ table.prune.locks :=
    List.mem_filter.mpr ⟨hlock, by simp [Lock.inUse, hholder]⟩
  have hentered : lock ∈ (table.prune.enter key).2.locks := by
    rw [enter]
    split
    · exact hpruned
    · exact List.mem_cons_of_mem _ hpruned
  have hasked {serial : Nat} :
      (if lock.serial == serial then Lock.ask lock ticket else lock).holder = some other := by
    split
    · exact Lock.holder_ask hholder
    · exact hholder
  exact holds_iff.mpr ⟨_, List.mem_map.mpr ⟨lock, hentered, rfl⟩, hasked⟩

section

variable [BEq κ] [LawfulBEq κ]

/-- A key has a lock after it has been looked up. -/
theorem Orderly.enter (h : table.Orderly seat) (key : κ) :
    (table.enter key).2.Orderly seat ∧ (key, (table.enter key).1) ∈ (table.enter key).2.entries := by
  rw [Locks.enter]
  cases hlookup : table.entries.lookup key with
  | some serial =>
    obtain ⟨before, after, hentries, -⟩ := List.lookup_eq_some_iff.mp hlookup
    exact ⟨h, hentries ▸ List.mem_append_right before List.mem_cons_self⟩
  | none =>
    have hkey : key ∉ table.entries.map Prod.fst := by
      intro hmem
      obtain ⟨entry, hentry, rfl⟩ := List.mem_map.mp hmem
      exact bne_iff_ne.mp (List.lookup_eq_none_iff.mp hlookup entry hentry) rfl
    have hserial : table.next ∉ table.locks.map (·.serial) := by
      intro hmem
      obtain ⟨lock, hlock, heq⟩ := List.mem_map.mp hmem
      exact Nat.ne_of_lt (h.lock_lt lock hlock) heq
    refine ⟨⟨List.nodup_cons.mpr ⟨hkey, h.keys⟩, List.nodup_cons.mpr ⟨hserial, h.serials⟩, ?_, ?_, ?_, ?_⟩,
      List.mem_cons_self⟩
    · exact List.forall_mem_cons.mpr ⟨Nat.lt_succ_self _, fun entry hentry ↦
        Nat.lt_succ_of_lt (h.entry_lt entry hentry)⟩
    · exact List.forall_mem_cons.mpr ⟨Nat.lt_succ_self _, fun lock hlock ↦
        Nat.lt_succ_of_lt (h.lock_lt lock hlock)⟩
    · refine List.forall_mem_cons.mpr ⟨fun ticket hseats ↦ ?_, fun lock hlock ticket hseats ↦ ?_⟩
      · rcases hseats with hholder | hwaits
        · cases hholder
        · exact absurd hwaits List.not_mem_nil
      · obtain ⟨key, hentry, hkey⟩ := h.seated lock hlock ticket hseats
        exact ⟨key, List.mem_cons_of_mem _ hentry, hkey⟩
    · refine List.forall_mem_cons.mpr ⟨⟨fun ticket hholder ↦ ?_, List.nodup_nil⟩, h.tidy⟩
      cases hholder

/-- Whoever asks for the lock of a key has a place there. -/
theorem Orderly.request (h : table.Orderly seat) (hseat : seat ticket = none) (key : κ) :
    (table.request key ticket).Orderly (Function.update seat ticket (some key)) := by
  obtain ⟨hentered, hentry⟩ := h.prune.enter key
  exact hentered.ask hseat hentry

end

end Locks

end PieceKeeper
