import PieceKeeper.Proofs.Locks.References

/-!
# Counting references is safe

However tasks interleave, at most one guards a key, no lock is forgotten that somebody refers to, and
nobody waits for a lock that is free.  Where a lock is asked for, given back or given up at once, the
locks are those that tasks reach in small steps.
-/

namespace PieceKeeper.Locks.Lobby

variable {κ : Type} {s s' : Lobby κ} {seat : Nat → Option κ} {guest other : Guest κ}
  {rest : List (Guest κ)}

/-! ## Runs -/

section

variable [BEq κ] [LawfulBEq κ]

theorem Step.sound (h : s.Sound seat) (hstep : Step s s') : ∃ seat', s'.Sound seat' := by
  cases hstep with
  | visit ticket key hfresh => exact ⟨_, h.retain.enter hfresh key⟩
  | ask hguests hstage =>
    refine ⟨_, h.ask hguests hstage ?_ fun hguarding ↦ ?_⟩
    · split
      · exact Or.inr rfl
      · exact Or.inl rfl
    · by_contra hholds
      rw [if_neg hholds] at hguarding
      cases hguarding
  | grant hguests hstage hholds => exact ⟨_, h.grant hguests hstage hholds⟩
  | release hguests hstage => exact ⟨_, h.release hguests hstage⟩
  | cancel hguests => exact ⟨_, h.cancel hguests⟩
  | leave hguests hstage => exact ⟨_, h.leave hguests hstage⟩
  | shuffle hshuffles => exact ⟨_, h.shuffle hshuffles⟩

theorem Reachable.sound (h : Reachable s) : ∃ seat, s.Sound seat := by
  induction h with
  | refl => exact ⟨_, sound_initial⟩
  | tail _ hstep ih =>
    obtain ⟨seat, hsound⟩ := ih
    exact hstep.sound hsound

end

/-! ## What is safe -/

/-- What holds at any time, and what a task finds that looks up the lock of a key or asks for it. -/
structure Safe [BEq κ] (s : Lobby κ) : Prop where
  /-- A key has at most one guard. -/
  exclusive : ∀ guest ∈ s.guests, ∀ other ∈ s.guests, guest.stage = .guarding →
    other.stage = .guarding → guest.key = other.key → guest = other
  /-- Nothing is forgotten that somebody refers to. -/
  kept : ∀ guest ∈ s.guests, (guest.key, guest.serial) ∈ s.retain.table.entries
  /-- Whoever wants a key refers to the same lock. -/
  single : ∀ guest ∈ s.guests, ∀ other ∈ s.guests, guest.key = other.key → guest.serial = other.serial
  /-- A lock that is there is that of one key, and this key has no other. -/
  named : ∀ lock ∈ s.table.locks, ∃ key, (key, lock.serial) ∈ s.table.entries ∧
    ∀ key' serial, (key', serial) ∈ s.table.entries → (key' = key ↔ serial = lock.serial)
  /-- A lock that nobody guards or waits for is there for whoever asks, whatever else is held. -/
  unhindered : ∀ guest rest, s.guests.Perm (guest :: rest) → guest.stage = .entering →
    (∀ other ∈ rest, other.key = guest.key → ¬ other.Seated) → (s.asked guest).holds guest.ticket = true
  /-- After a lookup there are locks for the keys that somebody wants, and for no other. -/
  visited : ∀ ticket key, (∀ guest ∈ s.guests, guest.ticket ≠ ticket) →
    ((s.visit ticket key).table.entries.map Prod.fst).Nodup ∧
      ∀ k, k ∈ (s.visit ticket key).table.entries.map Prod.fst ↔
        k = key ∨ ∃ guest ∈ s.guests, guest.key = k

namespace Sound

theorem exclusive (h : s.Sound seat) (hguest : guest ∈ s.guests) (hother : other ∈ s.guests)
    (hstage : guest.stage = .guarding) (hstage' : other.stage = .guarding)
    (hkey : guest.key = other.key) : guest = other := by
  refine h.eq_of_ticket hguest hother (h.orderly.holder_unique (h.guarding guest hguest hstage)
    (h.guarding other hother hstage') ?_)
  rw [h.seat_eq hguest (Or.inr hstage), h.seat_eq hother (Or.inr hstage'), hkey]

/-- Who asks for a lock that nobody is at gets it. -/
theorem unhindered (h : s.Sound seat) (hguests : s.guests.Perm (guest :: rest))
    (hstage : guest.stage = .entering) (hfree : ∀ other ∈ rest, other.key = guest.key → ¬ other.Seated) :
    (s.asked guest).holds guest.ticket = true := by
  have hguest : guest ∈ s.guests := hguests.mem_iff.mpr List.mem_cons_self
  have hentry := h.entered guest hguest
  obtain ⟨lock, hlock, hserial⟩ := h.exists_lock hentry
  have hempty (ticket : Nat) : ¬ lock.Seats ticket := by
    intro hseats
    obtain ⟨other, hother, -, hsame, hseated⟩ := h.exists_guest_of_seats hlock hseats
    rcases List.mem_cons.mp (hguests.mem_iff.mp hother) with rfl | hrest
    · exact absurd hseated (by simp [Guest.Seated, hstage])
    · have hentry' := h.entered other hother
      rw [hsame.trans hserial] at hentry'
      exact hfree other hrest (h.key_eq hentry' hentry) hseated
  have hunused : lock.inUse = false := by
    refine Bool.eq_false_iff.mpr fun huse ↦ ?_
    obtain ⟨ticket, hseats⟩ := inUse_iff.mp huse
    exact hempty ticket hseats
  have hasked : (Lock.ask lock guest.ticket).holder = some guest.ticket := by
    rw [Lock.ask, hunused]
    rfl
  refine holds_iff.mpr ⟨_, List.mem_map_of_mem hlock, ?_⟩
  rw [if_pos (beq_iff_eq.mpr hserial)]
  exact hasked

/-- What is not forgotten are the entries of keys that somebody wants. -/
theorem mem_keys_retain (h : s.Sound seat) {key : κ} :
    key ∈ s.retain.table.entries.map Prod.fst ↔ ∃ guest ∈ s.guests, guest.key = key := by
  constructor
  · intro hmem
    obtain ⟨entry, hentry, rfl⟩ := List.mem_map.mp hmem
    obtain ⟨hentry, hcount⟩ := h.mem_retain.mp hentry
    obtain ⟨guest, hguest, hserial⟩ := h.exists_guest hentry hcount
    exact ⟨guest, hguest, h.key_eq (h.entered guest hguest) (hserial ▸ hentry)⟩
  · rintro ⟨guest, hguest, rfl⟩
    exact List.mem_map.mpr ⟨_, h.entered_retain hguest, rfl⟩

theorem mem_keys_visit [BEq κ] [LawfulBEq κ] (h : s.Sound seat) {ticket : Nat} {key k : κ} :
    k ∈ (s.visit ticket key).table.entries.map Prod.fst ↔
      k = key ∨ ∃ guest ∈ s.guests, guest.key = k := by
  rw [← h.mem_keys_retain]
  change k ∈ (s.retain.table.enter key).2.entries.map Prod.fst ↔ _
  rw [Locks.enter]
  cases hlookup : s.retain.table.entries.lookup key with
  | some serial =>
    refine (or_iff_right_of_imp ?_).symm
    rintro rfl
    obtain ⟨before, after, hentries, -⟩ := List.lookup_eq_some_iff.mp hlookup
    exact List.mem_map.mpr ⟨(k, serial), hentries ▸ List.mem_append_right before List.mem_cons_self, rfl⟩
  | none => exact List.mem_cons

theorem safe [BEq κ] [LawfulBEq κ] (h : s.Sound seat) : s.Safe where
  exclusive _ hguest _ hother := h.exclusive hguest hother
  kept _ hguest := h.entered_retain hguest
  single guest hguest other hother hkey :=
    h.serial_eq (h.entered guest hguest) (hkey ▸ h.entered other hother)
  named lock hlock := by
    obtain ⟨⟨key, serial⟩, hentry, rfl⟩ := h.exists_entry hlock
    refine ⟨key, hentry, fun key' serial hentry' ↦ ⟨?_, ?_⟩⟩
    · rintro rfl
      exact h.serial_eq hentry' hentry
    · rintro rfl
      exact h.key_eq hentry' hentry
  unhindered _ _ hguests := h.unhindered hguests
  visited ticket key hfresh := ⟨(h.retain.enter hfresh key).orderly.keys, fun _ ↦ h.mem_keys_visit⟩

end Sound

/-! ## Locks as they run -/

/-- Whether nobody is between looking a lock up and asking for it, or between giving it back and
dropping it. -/
def Settled (s : Lobby κ) : Prop := ∀ guest ∈ s.guests, guest.Seated

/-- Locks that are in use are those that are counted at two and more. -/
theorem Sound.retain_eq_prune (h : s.Sound seat) (hsettled : s.Settled) :
    s.retain.table = s.table.prune := by
  have huse {lock : Lock} (hlock : lock ∈ s.table.locks) :
      1 < s.count lock.serial ↔ lock.inUse = true := by
    rw [inUse_iff]
    constructor
    · intro hcount
      obtain ⟨entry, hentry, hserial⟩ := h.exists_entry hlock
      obtain ⟨guest, hguest, heq⟩ := h.exists_guest hentry (hserial ▸ hcount)
      obtain ⟨lock', hlock', hserial', hseats⟩ := h.seated guest hguest (hsettled guest hguest)
      obtain rfl := h.orderly.lock_eq hlock' hlock (hserial'.trans (heq.trans hserial))
      exact ⟨guest.ticket, hseats⟩
    · rintro ⟨ticket, hseats⟩
      obtain ⟨guest, hguest, -, hserial, -⟩ := h.exists_guest_of_seats hlock hseats
      exact hserial ▸ h.one_lt_count hguest
  rw [h.retain_table, Locks.prune]
  refine congrArg₂ (Locks.mk · · _) ?_ ?_
  · refine List.filter_congr fun ⟨key, serial⟩ hentry ↦ ?_
    obtain ⟨lock, hlock, rfl⟩ := h.exists_lock hentry
    change decide (1 < s.count lock.serial) = s.table.inUse lock.serial
    rw [Bool.eq_iff_iff, decide_eq_true_iff, huse hlock, Locks.inUse, List.any_eq_true]
    constructor
    · intro hused
      exact ⟨lock, hlock, Bool.and_eq_true_iff.mpr ⟨beq_self_eq_true _, hused⟩⟩
    · rintro ⟨lock', hlock', hboth⟩
      obtain ⟨heq, hused⟩ := Bool.and_eq_true_iff.mp hboth
      exact h.orderly.lock_eq hlock' hlock (beq_iff_eq.mp heq) ▸ hused
  · refine List.filter_congr fun lock hlock ↦ ?_
    rw [Bool.eq_iff_iff, decide_eq_true_iff, huse hlock]

section

variable [BEq κ]

/-- A task that has looked a lock up asks for it next. -/
theorem exists_step_ask (hguests : s.guests = guest :: rest) (hstage : guest.stage = .entering)
    (hsettled : ∀ other ∈ rest, other.Seated) :
    ∃ s', Step s s' ∧ s'.Settled ∧ s'.table = s.asked guest := by
  refine ⟨_, Step.ask (hguests ▸ List.Perm.refl _) hstage, List.forall_mem_cons.mpr ⟨?_, hsettled⟩, rfl⟩
  by_cases hholds : (s.asked guest).holds guest.ticket = true
  · exact Or.inr (if_pos hholds)
  · exact Or.inl (if_neg hholds)

/-- Asking for the lock of a key at once is looking it up and then asking for it. -/
theorem Sound.request (h : s.Sound seat) (hsettled : s.Settled) {ticket : Nat}
    (hfresh : ∀ guest ∈ s.guests, guest.ticket ≠ ticket) (key : κ) :
    ∃ s', Reaches s s' ∧ s'.Settled ∧ s'.table = s.table.request key ticket := by
  have hasked : (s.visit ticket key).asked
      ⟨ticket, key, (s.retain.table.enter key).1, .entering⟩ = s.table.request key ticket := by
    rw [Locks.request, ← h.retain_eq_prune hsettled]
    rfl
  obtain ⟨s', hstep, hs', htable⟩ := exists_step_ask (s := s.visit ticket key) rfl rfl hsettled
  have hvisit := Relation.ReflTransGen.single (Step.visit ticket key hfresh)
  exact ⟨s', hvisit.tail hstep, hs', htable.trans hasked⟩

/-- A task that has given back its lock, or given up, drops its reference next. -/
theorem Sound.exists_step_leave (h : s.Sound seat) (hguests : s.guests = guest :: rest)
    (hstage : guest.stage = .leaving) (hsettled : ∀ other ∈ rest, other.Seated) :
    ∃ s', Step s s' ∧ s'.Settled ∧ s'.table = s.table := by
  refine ⟨_, Step.leave (hguests ▸ List.Perm.refl _) hstage, hsettled, ?_⟩
  exact h.unref_table (hguests ▸ List.mem_cons_self)

/-- Giving a lock back at once is giving it back and then dropping the reference. -/
theorem Sound.giveBack (h : s.Sound seat) (hsettled : s.Settled) (hguest : guest ∈ s.guests)
    (hstage : guest.stage = .guarding) :
    ∃ s', Reaches s s' ∧ s'.Settled ∧ s'.table = (s.table.release guest.ticket).1 := by
  obtain ⟨before, after, hsplit⟩ := List.append_of_mem hguest
  have hguests : s.guests.Perm (guest :: (before ++ after)) := hsplit ▸ List.perm_middle
  have hothers (other : Guest κ) (hother : other ∈ before ++ after) : other.Seated :=
    hsettled other (hguests.mem_iff.mpr (List.mem_cons_of_mem _ hother))
  obtain ⟨s', hstep, hs', htable⟩ := (h.release hguests hstage).exists_step_leave rfl rfl hothers
  exact ⟨s', (Relation.ReflTransGen.single (Step.release hguests hstage)).tail hstep, hs', htable⟩

/-- Giving up at once is giving up and then dropping the reference. -/
theorem Sound.giveUp (h : s.Sound seat) (hsettled : s.Settled) (hguest : guest ∈ s.guests)
    (hstage : guest.stage = .waiting) :
    ∃ s', Reaches s s' ∧ s'.Settled ∧
      s'.table = ((s.table.cancel guest.ticket).release guest.ticket).1 := by
  obtain ⟨before, after, hsplit⟩ := List.append_of_mem hguest
  have hguests : s.guests.Perm (guest :: (before ++ after)) := hsplit ▸ List.perm_middle
  have hothers (other : Guest κ) (hother : other ∈ before ++ after) : other.Seated :=
    hsettled other (hguests.mem_iff.mpr (List.mem_cons_of_mem _ hother))
  obtain ⟨s', hstep, hs', htable⟩ := (h.cancel hguests).exists_step_leave rfl rfl hothers
  exact ⟨s', (Relation.ReflTransGen.single (Step.cancel hguests (Or.inr hstage))).tail hstep, hs', htable⟩

/-- What is done to locks at once is done in small steps as well. -/
structure Mirrors (s : Lobby κ) : Prop where
  request : ∀ ticket key, (∀ guest ∈ s.guests, guest.ticket ≠ ticket) →
    ∃ s', Reaches s s' ∧ s'.Settled ∧ s'.table = s.table.request key ticket
  release : ∀ guest ∈ s.guests, guest.stage = .guarding →
    ∃ s', Reaches s s' ∧ s'.Settled ∧ s'.table = (s.table.release guest.ticket).1
  cancel : ∀ guest ∈ s.guests, guest.stage = .waiting →
    ∃ s', Reaches s s' ∧ s'.Settled ∧
      s'.table = ((s.table.cancel guest.ticket).release guest.ticket).1

theorem Sound.mirrors (h : s.Sound seat) (hsettled : s.Settled) : s.Mirrors where
  request _ key hfresh := h.request hsettled hfresh key
  release _ hguest := h.giveBack hsettled hguest
  cancel _ hguest := h.giveUp hsettled hguest

end

end PieceKeeper.Locks.Lobby
