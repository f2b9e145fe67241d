import Mathlib.Data.List.Nodup
import Mathlib.Logic.Relation
import PieceKeeper.Proofs.Locks.Places

/-!
# References to locks

A task that asks for the lock of a key first looks it up, and from then on refers to it; it asks for it
later, and when it has given the lock back or given up, it still refers to it for a while.  In between
anything can happen.  Which locks are forgotten is told by counting references alone: a lock that only
its key refers to is of no use to anybody.

So tasks move here in smaller steps than where locks are asked for and given back at once.
-/

namespace PieceKeeper.Locks

/-! ## Guests -/

/-- How far a task has come with a lock that it refers to. -/
inductive Stage where
  /-- It looked the lock up and is about to ask for it. -/
  | entering
  | waiting
  | guarding
  /-- It gave the lock back, or gave up, and is about to drop its reference. -/
  | leaving
  deriving DecidableEq

/-- A task that refers to the lock of a key. -/
structure Guest (κ : Type) where
  ticket : Nat
  key : κ
  serial : Nat
  stage : Stage

/-- Whether a task has its place at a lock. -/
def Guest.Seated {κ : Type} (guest : Guest κ) : Prop :=
  guest.stage = .waiting ∨ guest.stage = .guarding

/-- Locks, how often each is referred to, and the tasks that refer to them.  The entry of a key is a
reference as well. -/
structure Lobby (κ : Type) where
  table : Locks κ := {}
  /-- The number of references to the lock with a serial number. -/
  count : Nat → Nat := fun _ ↦ 0
  guests : List (Guest κ) := []

namespace Lobby

variable {κ : Type}

/-- Forgets the entries of locks that nothing else refers to, and the locks that are not referred to
any more. -/
def retain (s : Lobby κ) : Lobby κ :=
  let dropped := s.table.entries.filter fun (_, serial) ↦ s.count serial ≤ 1
  let count serial := if dropped.any (·.2 == serial) then s.count serial - 1 else s.count serial
  { s with
    count
    table := { s.table with
      entries := s.table.entries.filter fun (_, serial) ↦ 1 < s.count serial
      locks := s.table.locks.filter fun lock ↦ 0 < count lock.serial } }

/-- Gives a task a reference to the lock of a key.  A new lock has the reference of its key already. -/
def enter [BEq κ] (s : Lobby κ) (ticket : Nat) (key : κ) : Lobby κ :=
  let (serial, table) := s.table.enter key
  let count := if (s.table.entries.lookup key).isSome then s.count serial else 1
  { table
    count := Function.update s.count serial (count + 1)
    guests := ⟨ticket, key, serial, .entering⟩ :: s.guests }

/-- Looks up the lock of a key for a task. -/
def visit [BEq κ] (s : Lobby κ) (ticket : Nat) (key : κ) : Lobby κ := s.retain.enter ticket key

/-- The locks after a task has asked for the one it refers to. -/
def asked (s : Lobby κ) (guest : Guest κ) : Locks κ :=
  s.table.change guest.serial fun lock ↦ Lock.ask lock guest.ticket

/-- Drops a reference to a lock.  Nobody can get at a lock any more that is not referred to. -/
def unref (s : Lobby κ) (serial : Nat) : Lobby κ :=
  let count := Function.update s.count serial (s.count serial - 1)
  { s with
    count
    table := { s.table with locks := s.table.locks.filter fun lock ↦ 0 < count lock.serial } }

/-- What can happen next. -/
inductive Step [BEq κ] (s : Lobby κ) : Lobby κ → Prop
  /-- A task looks up the lock of a key. -/
  | visit (ticket : Nat) (key : κ) :
    (∀ guest ∈ s.guests, guest.ticket ≠ ticket) → Step s (s.visit ticket key)
  /-- A task asks for the lock, and gets it or waits for it. -/
  | ask {guest : Guest κ} {rest : List (Guest κ)} :
    s.guests.Perm (guest :: rest) → guest.stage = .entering →
      Step s { s with
        table := s.asked guest
        guests := { guest with
          stage := if (s.asked guest).holds guest.ticket then .guarding else .waiting } :: rest }
  /-- A task learns that the lock is its own. -/
  | grant {guest : Guest κ} {rest : List (Guest κ)} :
    s.guests.Perm (guest :: rest) → guest.stage = .waiting → s.table.holds guest.ticket →
      Step s { s with guests := { guest with stage := .guarding } :: rest }
  /-- A task gives the lock back. -/
  | release {guest : Guest κ} {rest : List (Guest κ)} :
    s.guests.Perm (guest :: rest) → guest.stage = .guarding →
      Step s { s with
        table := (s.table.release guest.ticket).1
        guests := { guest with stage := .leaving } :: rest }
  /-- A task gives up.  The lock may be its own already without its knowledge. -/
  | cancel {guest : Guest κ} {rest : List (Guest κ)} :
    s.guests.Perm (guest :: rest) → guest.stage = .entering ∨ guest.stage = .waiting →
      Step s { s with
        table := ((s.table.cancel guest.ticket).release guest.ticket).1
        guests := { guest with stage := .leaving } :: rest }
  /-- A task drops its reference. -/
  | leave {guest : Guest κ} {rest : List (Guest κ)} :
    s.guests.Perm (guest :: rest) → guest.stage = .leaving →
      Step s { s.unref guest.serial with guests := rest }
  /-- Those who wait for locks change their places. -/
  | shuffle {table : Locks κ} : s.table.Shuffles table → Step s { s with table }

/-- Whether one state leads to another. -/
def Reaches [BEq κ] : Lobby κ → Lobby κ → Prop := Relation.ReflTransGen Step

/-- Whether a state occurs when at first nobody is there. -/
def Reachable [BEq κ] (s : Lobby κ) : Prop := Reaches {} s

/-! ## The books -/

/-- The references are counted rightly, and who has a place has it at the lock that it refers to. -/
structure Sound (s : Lobby κ) (seat : Nat → Option κ) : Prop where
  orderly : s.table.Orderly seat
  serials : (s.table.entries.map Prod.snd).Nodup
  /-- The locks are those of the keys. -/
  named : ∀ serial, serial ∈ s.table.locks.map (·.serial) ↔ serial ∈ s.table.entries.map Prod.snd
  count : ∀ entry ∈ s.table.entries,
    s.count entry.2 = s.guests.countP (·.serial == entry.2) + 1
  entered : ∀ guest ∈ s.guests, (guest.key, guest.serial) ∈ s.table.entries
  tickets : (s.guests.map Guest.ticket).Nodup
  seat_iff : ∀ ticket key, seat ticket = some key ↔
    ∃ guest ∈ s.guests, guest.ticket = ticket ∧ guest.key = key ∧ guest.Seated
  seated : ∀ guest ∈ s.guests, guest.Seated →
    ∃ lock ∈ s.table.locks, lock.serial = guest.serial ∧ lock.Seats guest.ticket
  guarding : ∀ guest ∈ s.guests, guest.stage = .guarding → s.table.holds guest.ticket = true

variable {s : Lobby κ} {seat : Nat → Option κ} {guest other : Guest κ} {rest : List (Guest κ)}

theorem sound_initial : Sound ({} : Lobby κ) fun _ ↦ none where
  orderly := orderly_initial
  serials := List.nodup_nil
  named _ := Iff.rfl
  count _ h := absurd h List.not_mem_nil
  entered _ h := absurd h List.not_mem_nil
  tickets := List.nodup_nil
  seat_iff ticket key := by simp
  seated _ h := absurd h List.not_mem_nil
  guarding _ h := absurd h List.not_mem_nil

namespace Sound

theorem perm (h : s.Sound seat) (hperm : s.guests.Perm rest) :
    Sound { s with guests := rest } seat where
  orderly := h.orderly
  serials := h.serials
  named := h.named
  count entry hentry := (h.count entry hentry).trans (by rw [hperm.countP_eq])
  entered guest hguest := h.entered guest (hperm.mem_iff.mpr hguest)
  tickets := (hperm.map _).nodup_iff.mp h.tickets
  seat_iff ticket key := by
    rw [h.seat_iff]
    exact exists_congr fun guest ↦ and_congr_left' hperm.mem_iff
  seated guest hguest := h.seated guest (hperm.mem_iff.mpr hguest)
  guarding guest hguest := h.guarding guest (hperm.mem_iff.mpr hguest)

theorem eq_of_ticket (h : s.Sound seat) (hguest : guest ∈ s.guests) (hother : other ∈ s.guests)
    (hticket : guest.ticket = other.ticket) : guest = other :=
  List.inj_on_of_nodup_map h.tickets hguest hother hticket

/-- There is one lock for a key. -/
theorem serial_eq (h : s.Sound seat) {key : κ} {serial serial' : Nat}
    (hentry : (key, serial) ∈ s.table.entries) (hentry' : (key, serial') ∈ s.table.entries) :
    serial = serial' :=
  congrArg Prod.snd (List.inj_on_of_nodup_map h.orderly.keys hentry hentry' rfl)

/-- There is one key for a lock. -/
theorem key_eq (h : s.Sound seat) {key key' : κ} {serial : Nat}
    (hentry : (key, serial) ∈ s.table.entries) (hentry' : (key', serial) ∈ s.table.entries) :
    key = key' :=
  congrArg Prod.fst (List.inj_on_of_nodup_map h.serials hentry hentry' rfl)

/-- Entries that somebody refers to are counted at two and more. -/
theorem one_lt_count (h : s.Sound seat) (hguest : guest ∈ s.guests) : 1 < s.count guest.serial := by
  have hpos : 0 < s.guests.countP (·.serial == guest.serial) :=
    List.countP_pos_iff.mpr ⟨guest, hguest, beq_self_eq_true _⟩
  rw [h.count _ (h.entered guest hguest)]
  exact Nat.succ_lt_succ hpos

/-- Nobody refers to the lock of an entry that is counted at one. -/
theorem exists_guest (h : s.Sound seat) {entry : κ × Nat} (hentry : entry ∈ s.table.entries)
    (hcount : 1 < s.count entry.2) : ∃ guest ∈ s.guests, guest.serial = entry.2 := by
  rw [h.count entry hentry] at hcount
  obtain ⟨guest, hguest, hserial⟩ := List.countP_pos_iff.mp (Nat.lt_of_succ_lt_succ hcount)
  exact ⟨guest, hguest, beq_iff_eq.mp hserial⟩

/-- Who has a place at a lock refers to it. -/
theorem exists_guest_of_seats (h : s.Sound seat) {lock : Lock} (hlock : lock ∈ s.table.locks)
    {ticket : Nat} (hseats : lock.Seats ticket) :
    ∃ guest ∈ s.guests, guest.ticket = ticket ∧ guest.serial = lock.serial ∧ guest.Seated := by
  obtain ⟨key, hentry, hseat⟩ := h.orderly.seated lock hlock ticket hseats
  obtain ⟨guest, hguest, rfl, rfl, hseated⟩ := (h.seat_iff ticket key).mp hseat
  exact ⟨guest, hguest, rfl, h.serial_eq (h.entered guest hguest) hentry, hseated⟩

/-- The lock of an entry. -/
theorem exists_lock (h : s.Sound seat) {entry : κ × Nat} (hentry : entry ∈ s.table.entries) :
    ∃ lock ∈ s.table.locks, lock.serial = entry.2 :=
  List.mem_map.mp ((h.named entry.2).mpr (List.mem_map_of_mem hentry))

/-- The entry of a lock. -/
theorem exists_entry (h : s.Sound seat) {lock : Lock} (hlock : lock ∈ s.table.locks) :
    ∃ entry ∈ s.table.entries, entry.2 = lock.serial :=
  List.mem_map.mp ((h.named lock.serial).mp (List.mem_map_of_mem hlock))

/-! ## Forgetting -/

/-- Nothing is taken from the count of what is kept. -/
theorem retain_count_of_lt {serial : Nat} (hcount : 1 < s.count serial) :
    s.retain.count serial = s.count serial := by
  refine if_neg fun hdropped ↦ ?_
  obtain ⟨entry, hmem, heq⟩ := List.any_eq_true.mp hdropped
  have hle := of_decide_eq_true (List.mem_filter.mp hmem).2
  rw [beq_iff_eq.mp heq] at hle
  exact Nat.not_le_of_lt hcount hle

/-- The reference of the key is taken from the count of what is dropped. -/
theorem retain_count_of_le {entry : κ × Nat} (hentry : entry ∈ s.table.entries)
    (hcount : s.count entry.2 ≤ 1) : s.retain.count entry.2 = s.count entry.2 - 1 := by
  refine if_pos (List.any_eq_true.mpr ⟨entry, ?_, beq_self_eq_true entry.2⟩)
  exact List.mem_filter.mpr ⟨hentry, decide_eq_true hcount⟩

/-- What is forgotten are the entries and the locks that are counted at one. -/
theorem retain_table (h : s.Sound seat) : s.retain.table = { s.table with
    entries := s.table.entries.filter fun entry ↦ 1 < s.count entry.2
    locks := s.table.locks.filter fun lock ↦ 1 < s.count lock.serial } := by
  have hlocks : (s.table.locks.filter fun lock ↦ 0 < s.retain.count lock.serial) =
      s.table.locks.filter fun lock ↦ 1 < s.count lock.serial := by
    refine List.filter_congr fun lock hlock ↦ decide_eq_decide.mpr ?_
    obtain ⟨entry, hentry, hserial⟩ := h.exists_entry hlock
    rw [← hserial]
    rcases Nat.lt_or_ge 1 (s.count entry.2) with hcount | hcount
    · rw [retain_count_of_lt hcount]
      omega
    · rw [retain_count_of_le hentry hcount]
      omega
  exact congrArg (Locks.mk _ · _) hlocks

theorem mem_retain (h : s.Sound seat) {entry : κ × Nat} :
    entry ∈ s.retain.table.entries ↔ entry ∈ s.table.entries ∧ 1 < s.count entry.2 := by
  rw [h.retain_table, List.mem_filter, decide_eq_true_iff]

/-- The entry of whoever refers to a lock is kept. -/
theorem entered_retain (h : s.Sound seat) (hguest : guest ∈ s.guests) :
    (guest.key, guest.serial) ∈ s.retain.table.entries :=
  h.mem_retain.mpr ⟨h.entered guest hguest, h.one_lt_count hguest⟩

theorem retain (h : s.Sound seat) : s.retain.Sound seat := by
  have hlock {lock : Lock} (hlock : lock ∈ s.table.locks) (hcount : 1 < s.count lock.serial) :
      lock ∈ s.retain.table.locks := by
    rw [h.retain_table]
    exact List.mem_filter.mpr ⟨hlock, decide_eq_true hcount⟩
  have hholds (guest : Guest κ) (hguest : guest ∈ s.guests) (hstage : guest.stage = .guarding) :
      s.retain.table.holds guest.ticket = true := by
    obtain ⟨lock, hmem, hholder⟩ := holds_iff.mp (h.guarding guest hguest hstage)
    obtain ⟨other, hother, -, hserial, -⟩ := h.exists_guest_of_seats hmem (Or.inl hholder)
    exact holds_iff.mpr ⟨lock, hlock hmem (hserial ▸ h.one_lt_count hother), hholder⟩
  refine ⟨?_, ?_, fun serial ↦ ?_, fun entry hentry ↦ ?_, fun guest hguest ↦ h.entered_retain hguest,
    h.tickets, h.seat_iff, fun guest hguest hseated ↦ ?_, hholds⟩
  · rw [h.retain_table]
    exact h.orderly.keep fun serial ↦ decide (1 < s.count serial)
  · rw [h.retain_table]
    exact h.serials.sublist (List.filter_sublist.map _)
  · have hnamed := h.named serial
    rw [h.retain_table]
    simp only [List.mem_map, List.mem_filter, decide_eq_true_iff] at hnamed ⊢
    constructor
    · rintro ⟨lock, ⟨hlock, hcount⟩, rfl⟩
      obtain ⟨entry, hentry, hserial⟩ := hnamed.mp ⟨lock, hlock, rfl⟩
      exact ⟨entry, ⟨hentry, hserial ▸ hcount⟩, hserial⟩
    · rintro ⟨entry, ⟨hentry, hcount⟩, rfl⟩
      obtain ⟨lock, hlock, hserial⟩ := hnamed.mpr ⟨entry, hentry, rfl⟩
      exact ⟨lock, ⟨hlock, hserial ▸ hcount⟩, hserial⟩
  · obtain ⟨hmem, hcount⟩ := h.mem_retain.mp hentry
    rw [retain_count_of_lt hcount]
    exact h.count entry hmem
  · obtain ⟨lock, hmem, hserial, hseats⟩ := h.seated guest hguest hseated
    exact ⟨lock, hlock hmem (hserial ▸ h.one_lt_count hguest), hserial, hseats⟩

/-! ## Steps -/

/-- Nobody has the serial number of the next lock. -/
theorem serial_ne_next (h : s.Sound seat) (hguest : guest ∈ s.guests) :
    guest.serial ≠ s.table.next :=
  Nat.ne_of_lt (h.orderly.entry_lt _ (h.entered guest hguest))

/-- A task that comes in has no place yet. -/
theorem seat_iff_cons (h : s.Sound seat) (hstage : guest.stage = .entering) (ticket : Nat) (key : κ) :
    seat ticket = some key ↔
      ∃ other ∈ guest :: s.guests, other.ticket = ticket ∧ other.key = key ∧ other.Seated := by
  rw [h.seat_iff]
  simp [Guest.Seated, hstage]

theorem tickets_cons (h : s.Sound seat) (hfresh : ∀ other ∈ s.guests, other.ticket ≠ guest.ticket) :
    ((guest :: s.guests).map Guest.ticket).Nodup := by
  refine List.nodup_cons.mpr ⟨fun hmem ↦ ?_, h.tickets⟩
  obtain ⟨other, hother, heq⟩ := List.mem_map.mp hmem
  exact hfresh other hother heq

section

variable [BEq κ] {ticket : Nat} {key : κ}

/-- A task comes to a lock that is there. -/
theorem enter_of_lookup_eq_some (h : s.Sound seat) {serial : Nat}
    (hentry : (key, serial) ∈ s.table.entries) (hlookup : s.table.entries.lookup key = some serial)
    (hfresh : ∀ guest ∈ s.guests, guest.ticket ≠ ticket) : (s.enter ticket key).Sound seat := by
  have henter : s.enter ticket key = { s with
      count := Function.update s.count serial (s.count serial + 1)
      guests := ⟨ticket, key, serial, .entering⟩ :: s.guests } := by
    simp only [Lobby.enter, Locks.enter, hlookup, Option.isSome_some, if_true]
  rw [henter]
  refine ⟨h.orderly, h.serials, h.named, fun entry hmem ↦ ?_,
    List.forall_mem_cons.mpr ⟨hentry, h.entered⟩, h.tickets_cons hfresh, h.seat_iff_cons rfl,
    List.forall_mem_cons.mpr ⟨fun hseated ↦ ?_, h.seated⟩,
    List.forall_mem_cons.mpr ⟨fun hstage ↦ ?_, h.guarding⟩⟩
  · dsimp only
    rw [List.countP_cons]
    by_cases heq : serial = entry.2
    · subst heq
      rw [Function.update_self, if_pos (beq_self_eq_true _), h.count entry hmem]
    · rw [Function.update_of_ne (Ne.symm heq), if_neg (mt beq_iff_eq.mp heq), h.count entry hmem,
        Nat.add_zero]
  · rcases hseated with hstage | hstage <;> cases hstage
  · cases hstage

/-- A task comes to a lock that is made for it. -/
theorem enter_of_lookup_eq_none (h : s.Sound seat) (horderly : (s.table.enter key).2.Orderly seat)
    (hlookup : s.table.entries.lookup key = none)
    (hfresh : ∀ guest ∈ s.guests, guest.ticket ≠ ticket) : (s.enter ticket key).Sound seat := by
  have henter : s.enter ticket key =
      { table :=
          { entries := (key, s.table.next) :: s.table.entries
            locks := { serial := s.table.next } :: s.table.locks
            next := s.table.next + 1 }
        count := Function.update s.count s.table.next 2
        guests := ⟨ticket, key, s.table.next, .entering⟩ :: s.guests } := by
    simp [Lobby.enter, Locks.enter, hlookup]
  simp only [Locks.enter, hlookup] at horderly
  have hnone : s.guests.countP (·.serial == s.table.next) = 0 :=
    List.countP_eq_zero.mpr fun guest hguest heq ↦ h.serial_ne_next hguest (beq_iff_eq.mp heq)
  have hne {entry : κ × Nat} (hmem : entry ∈ s.table.entries) : s.table.next ≠ entry.2 :=
    Nat.ne_of_gt (h.orderly.entry_lt entry hmem)
  rw [henter]
  refine ⟨horderly, List.nodup_cons.mpr ⟨fun hmem ↦ ?_, h.serials⟩, fun serial ↦ ?_,
    List.forall_mem_cons.mpr ⟨?_, fun entry hmem ↦ ?_⟩,
    List.forall_mem_cons.mpr ⟨List.mem_cons_self, fun guest hguest ↦
      List.mem_cons_of_mem _ (h.entered guest hguest)⟩,
    h.tickets_cons hfresh, h.seat_iff_cons rfl,
    List.forall_mem_cons.mpr ⟨fun hseated ↦ ?_, fun guest hguest hseated ↦ ?_⟩,
    List.forall_mem_cons.mpr ⟨fun hstage ↦ ?_, fun guest hguest hstage ↦ ?_⟩⟩
  · obtain ⟨entry, hentry, heq⟩ := List.mem_map.mp hmem
    exact hne hentry heq.symm
  · rw [List.map_cons, List.map_cons, List.mem_cons, List.mem_cons, h.named]
  · dsimp only
    rw [Function.update_self, List.countP_cons, if_pos (beq_self_eq_true _), hnone]
  · dsimp only
    rw [Function.update_of_ne (hne hmem).symm, List.countP_cons, if_neg (mt beq_iff_eq.mp (hne hmem)),
      h.count entry hmem, Nat.add_zero]
  · rcases hseated with hstage | hstage <;> cases hstage
  · obtain ⟨lock, hlock, hseats⟩ := h.seated guest hguest hseated
    exact ⟨lock, List.mem_cons_of_mem _ hlock, hseats⟩
  · cases hstage
  · obtain ⟨lock, hlock, hholder⟩ := holds_iff.mp (h.guarding guest hguest hstage)
    exact holds_iff.mpr ⟨lock, List.mem_cons_of_mem _ hlock, hholder⟩

theorem enter [LawfulBEq κ] (h : s.Sound seat) (hfresh : ∀ guest ∈ s.guests, guest.ticket ≠ ticket)
    (key : κ) : (s.enter ticket key).Sound seat := by
  obtain ⟨horderly, hentry⟩ := h.orderly.enter key
  cases hlookup : s.table.entries.lookup key with
  | some serial =>
    simp only [Locks.enter, hlookup] at hentry
    exact h.enter_of_lookup_eq_some hentry hlookup hfresh
  | none => exact h.enter_of_lookup_eq_none horderly hlookup hfresh

end

/-- Who has a place where, when a guest has come into another stage. -/
theorem seat_iff_move (h : s.Sound seat) (hguests : s.guests = guest :: rest) {stage : Stage} {place : Option κ}
    (hplace : place = some guest.key ∧ (stage = .waiting ∨ stage = .guarding) ∨
      place = none ∧ stage = .leaving) (ticket : Nat) (key : κ) :
    Function.update seat guest.ticket place ticket = some key ↔
      ∃ other ∈ { guest with stage } :: rest, other.ticket = ticket ∧ other.key = key ∧ other.Seated := by
  obtain ⟨hticket, -⟩ := List.nodup_cons.mp (hguests ▸ h.tickets)
  by_cases heq : ticket = guest.ticket
  · subst heq
    rw [Function.update_self]
    constructor
    · intro hsome
      rcases hplace with ⟨hplace, hstage⟩ | ⟨hplace, -⟩
      · exact ⟨_, List.mem_cons_self, rfl, Option.some.inj (hplace.symm.trans hsome), hstage⟩
      · cases hplace.symm.trans hsome
    · rintro ⟨other, hother, hsame, rfl, hseated⟩
      obtain rfl | hother := List.mem_cons.mp hother
      · rcases hplace with ⟨hplace, -⟩ | ⟨-, hstage⟩
        · exact hplace
        · exact absurd hseated (by simp [Guest.Seated, hstage])
      · exact absurd (List.mem_map.mpr ⟨other, hother, hsame⟩) hticket
  · rw [Function.update_of_ne heq, h.seat_iff, hguests]
    constructor
    · rintro ⟨other, hother, rfl, hrest⟩
      obtain rfl | hother := List.mem_cons.mp hother
      · exact absurd rfl heq
      · exact ⟨other, List.mem_cons_of_mem _ hother, rfl, hrest⟩
    · rintro ⟨other, hother, rfl, hrest⟩
      obtain rfl | hother := List.mem_cons.mp hother
      · exact absurd rfl heq
      · exact ⟨other, List.mem_cons_of_mem _ hother, rfl, hrest⟩

/-- A task goes on at its lock, and the others stay where they are. -/
theorem move (h : s.Sound seat) (hguests : s.guests.Perm (guest :: rest)) (stage : Stage)
    (table : Locks κ) (place : Option κ)
    (hplace : place = some guest.key ∧ (stage = .waiting ∨ stage = .guarding) ∨
      place = none ∧ stage = .leaving)
    (horderly : table.Orderly (Function.update seat guest.ticket place))
    (hentries : table.entries = s.table.entries)
    (hserials : table.locks.map (·.serial) = s.table.locks.map (·.serial))
    (hseats : place ≠ none → table.HasPlace guest.serial guest.ticket)
    (hholds : stage = .guarding → table.holds guest.ticket = true)
    (hothers : ∀ other ∈ rest, s.table.HasPlace other.serial other.ticket →
      table.HasPlace other.serial other.ticket)
    (hguards : ∀ other ∈ rest, s.table.holds other.ticket = true → table.holds other.ticket = true) :
    Sound { s with table, guests := { guest with stage } :: rest }
      (Function.update seat guest.ticket place) := by
  have h := h.perm hguests
  obtain ⟨hentered, hentereds⟩ := List.forall_mem_cons.mp h.entered
  obtain ⟨-, hseateds⟩ := List.forall_mem_cons.mp h.seated
  obtain ⟨-, hguardings⟩ := List.forall_mem_cons.mp h.guarding
  refine ⟨horderly, ?_, fun serial ↦ ?_, fun entry hentry ↦ ?_, ?_, h.tickets, h.seat_iff_move rfl hplace,
    List.forall_mem_cons.mpr ⟨fun hseated ↦ ?_, fun other hother hseated ↦ ?_⟩,
    List.forall_mem_cons.mpr ⟨hholds, fun other hother hstage ↦ ?_⟩⟩
  · exact hentries ▸ h.serials
  · exact hserials ▸ hentries ▸ h.named serial
  · exact h.count entry (hentries ▸ hentry)
  · exact hentries ▸ List.forall_mem_cons.mpr ⟨hentered, hentereds⟩
  · refine hseats fun hnone ↦ ?_
    rcases hplace with ⟨hplace, -⟩ | ⟨-, hstage⟩
    · cases hplace.symm.trans hnone
    · exact absurd hseated (by simp [Guest.Seated, hstage])
  · exact hothers other hother (hseateds other hother hseated)
  · exact hguards other hother (hguardings other hother hstage)

/-- A task that is at its lock has a place there. -/
theorem seat_eq (h : s.Sound seat) (hguest : guest ∈ s.guests) (hseated : guest.Seated) :
    seat guest.ticket = some guest.key :=
  (h.seat_iff _ _).mpr ⟨guest, hguest, rfl, rfl, hseated⟩

theorem seat_eq_none (h : s.Sound seat) (hguest : guest ∈ s.guests) (hseated : ¬ guest.Seated) :
    seat guest.ticket = none := by
  refine Option.eq_none_iff_forall_ne_some.mpr fun key hkey ↦ ?_
  obtain ⟨other, hother, hticket, -, hother'⟩ := (h.seat_iff _ _).mp hkey
  exact hseated (h.eq_of_ticket hother hguest hticket ▸ hother')

theorem rest_ne (h : s.Sound seat) (hguests : s.guests.Perm (guest :: rest)) :
    ∀ other ∈ rest, other.ticket ≠ guest.ticket := by
  obtain ⟨hticket, -⟩ := List.nodup_cons.mp (h.perm hguests).tickets
  exact fun other hother heq ↦ hticket (List.mem_map.mpr ⟨other, hother, heq⟩)

theorem ask (h : s.Sound seat) (hguests : s.guests.Perm (guest :: rest))
    (hstage : guest.stage = .entering) {stage : Stage} (hseated : stage = .waiting ∨ stage = .guarding)
    (hholds : stage = .guarding → (s.asked guest).holds guest.ticket = true) :
    Sound { s with table := s.asked guest, guests := { guest with stage } :: rest }
      (Function.update seat guest.ticket (some guest.key)) := by
  have hguest : guest ∈ s.guests := hguests.mem_iff.mpr List.mem_cons_self
  have hentry := h.entered guest hguest
  have hnone := h.seat_eq_none hguest (by simp [Guest.Seated, hstage])
  refine h.move hguests _ _ _ (Or.inl ⟨rfl, hseated⟩) (h.orderly.ask hnone hentry) rfl
    (map_serial_change fun lock ↦ Lock.serial_ask) (fun _ ↦ ?_) hholds
    (fun other hother hplace ↦ hplace.ask _) fun other hother hholds ↦ holds_ask hholds _
  obtain ⟨lock, hlock, hserial⟩ := h.exists_lock hentry
  refine ⟨_, List.mem_map_of_mem hlock, ?_⟩
  rw [if_pos (beq_iff_eq.mpr hserial)]
  exact ⟨Lock.serial_ask.trans hserial, seats_ask_self⟩

theorem grant (h : s.Sound seat) (hguests : s.guests.Perm (guest :: rest))
    (hstage : guest.stage = .waiting) (hholds : s.table.holds guest.ticket = true) :
    Sound { s with guests := { guest with stage := .guarding } :: rest } seat := by
  have hguest : guest ∈ s.guests := hguests.mem_iff.mpr List.mem_cons_self
  have hsame : Function.update seat guest.ticket (some guest.key) = seat := by
    rw [← h.seat_eq hguest (Or.inl hstage)]
    exact Function.update_eq_self _ _
  have hmove := h.move hguests .guarding s.table (some guest.key) (Or.inl ⟨rfl, Or.inr rfl⟩)
    (hsame.symm ▸ h.orderly) rfl rfl (fun _ ↦ h.seated guest hguest (Or.inl hstage)) (fun _ ↦ hholds)
    (fun _ _ ↦ id) fun _ _ ↦ id
  rwa [hsame] at hmove

theorem release (h : s.Sound seat) (hguests : s.guests.Perm (guest :: rest))
    (hstage : guest.stage = .guarding) :
    Sound { s with
      table := (s.table.release guest.ticket).1
      guests := { guest with stage := .leaving } :: rest } (Function.update seat guest.ticket none) := by
  have hguest : guest ∈ s.guests := hguests.mem_iff.mpr List.mem_cons_self
  refine h.move hguests _ _ _ (Or.inr ⟨rfl, rfl⟩) (h.orderly.release (h.guarding guest hguest hstage))
    entries_release map_serial_release (absurd rfl) nofun (fun other hother hplace ↦ ?_)
    fun other hother hholds ↦ ?_
  · exact h.orderly.hasPlace_release hplace (h.rest_ne hguests other hother)
  · exact h.orderly.holds_release hholds (h.rest_ne hguests other hother)

theorem cancel (h : s.Sound seat) (hguests : s.guests.Perm (guest :: rest)) :
    Sound { s with
      table := ((s.table.cancel guest.ticket).release guest.ticket).1
      guests := { guest with stage := .leaving } :: rest } (Function.update seat guest.ticket none) := by
  have horderly := h.orderly.cancel guest.ticket
  refine h.move hguests _ _ _ (Or.inr ⟨rfl, rfl⟩) (h.orderly.leave guest.ticket) entries_release
    (map_serial_release.trans map_serial_cancel) (absurd rfl) nofun (fun other hother hplace ↦ ?_)
    fun other hother hholds ↦ ?_
  · have hne := h.rest_ne hguests other hother
    exact horderly.hasPlace_release (hplace.cancel hne) hne
  · exact horderly.holds_release (holds_cancel.trans hholds) (h.rest_ne hguests other hother)

/-- Whoever drops its reference leaves the locks as they are. -/
theorem unref_table (h : s.Sound seat) (hguest : guest ∈ s.guests) :
    (s.unref guest.serial).table = s.table := by
  refine congrArg (Locks.mk _ · _) (List.filter_eq_self.mpr fun lock hlock ↦ decide_eq_true ?_)
  obtain ⟨entry, hentry, hserial⟩ := h.exists_entry hlock
  by_cases heq : lock.serial = guest.serial
  · have hcount := h.one_lt_count hguest
    rw [heq, Function.update_self]
    omega
  · rw [Function.update_of_ne heq, ← hserial, h.count entry hentry]
    exact Nat.succ_pos _

theorem leave (h : s.Sound seat) (hguests : s.guests.Perm (guest :: rest))
    (hstage : guest.stage = .leaving) : Sound { s.unref guest.serial with guests := rest } seat := by
  have hguest : guest ∈ s.guests := hguests.mem_iff.mpr List.mem_cons_self
  have htable := h.unref_table hguest
  have h := h.perm hguests
  refine ⟨htable ▸ h.orderly, htable ▸ h.serials, htable ▸ h.named, fun entry hentry ↦ ?_,
    htable ▸ (List.forall_mem_cons.mp h.entered).2, (List.nodup_cons.mp h.tickets).2,
    fun ticket key ↦ ?_, htable ▸ (List.forall_mem_cons.mp h.seated).2,
    htable ▸ (List.forall_mem_cons.mp h.guarding).2⟩
  · have hcount := h.count entry (htable ▸ hentry)
    rw [List.countP_cons] at hcount
    by_cases heq : entry.2 = guest.serial
    · rw [if_pos (beq_iff_eq.mpr heq.symm)] at hcount
      refine (congrArg _ heq).trans ((Function.update_self _ _ _).trans ?_)
      rw [← heq]
      exact Nat.sub_eq_of_eq_add hcount
    · rw [if_neg fun hserial ↦ heq (beq_iff_eq.mp hserial).symm] at hcount
      exact (Function.update_of_ne heq _ _).trans hcount
  · rw [h.seat_iff]
    refine exists_congr fun other ↦ ⟨?_, And.imp_left (List.mem_cons_of_mem _)⟩
    rintro ⟨hother, hrest⟩
    obtain rfl | hother := List.mem_cons.mp hother
    · exact absurd hrest.2.2 (by simp [Guest.Seated, hstage])
    · exact ⟨hother, hrest⟩

theorem shuffle (h : s.Sound seat) {table : Locks κ} (hshuffles : s.table.Shuffles table) :
    Sound { s with table } seat := by
  have hentries : table.entries = s.table.entries := by
    obtain ⟨f, -, rfl⟩ := hshuffles
    rfl
  exact ⟨h.orderly.shuffle hshuffles, hentries ▸ h.serials,
    fun serial ↦ map_serial_shuffle hshuffles ▸ hentries ▸ h.named serial,
    fun entry hentry ↦ h.count entry (hentries ▸ hentry), hentries ▸ h.entered, h.tickets, h.seat_iff,
    fun guest hguest hseated ↦ HasPlace.shuffle (h.seated guest hguest hseated) hshuffles,
    fun guest hguest hstage ↦ (hshuffles.holds_eq _).trans (h.guarding guest hguest hstage)⟩

end Sound

end Lobby

end PieceKeeper.Locks
