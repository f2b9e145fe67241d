import Mathlib.Data.List.Basic
import PieceKeeper.Proofs.Locks.Places

/-!
# Lines

For each key there is a line: who holds its lock, and behind, in the order in which they asked, those
who wait for it.  To ask for a lock is to line up, and to give it back is to leave the head of the line.
-/

namespace PieceKeeper.Locks

variable {κ : Type}

/-- The locks stand for lines of tickets, one for each key. -/
structure Forms (table : Locks κ) (line : κ → List Nat) : Prop where
  orderly : ∃ seat, table.Orderly seat ∧ ∀ ticket key, seat ticket = some key ↔ ticket ∈ line key
  serials : (table.entries.map Prod.snd).Nodup
  stands : ∀ key serial, (key, serial) ∈ table.entries → ∀ lock ∈ table.locks, lock.serial = serial →
    lock.holder = (line key).head? ∧ lock.waiting = (line key).tail
  kept : ∀ entry ∈ table.entries, ∃ lock ∈ table.locks, lock.serial = entry.2
  entered : ∀ key, line key ≠ [] → ∃ serial, (key, serial) ∈ table.entries

variable {table : Locks κ} {line : κ → List Nat} {key : κ} {ticket : Nat} {rest : List Nat}

theorem forms_initial : Forms ({} : Locks κ) fun _ ↦ [] where
  orderly := ⟨_, orderly_initial, by simp⟩
  serials := List.nodup_nil
  stands _ _ h := absurd h List.not_mem_nil
  kept _ h := absurd h List.not_mem_nil
  entered _ h := absurd rfl h

namespace Forms

/-- The lock of a key for which somebody lines up. -/
theorem found (h : table.Forms line) (hne : line key ≠ []) :
    ∃ lock ∈ table.locks, (key, lock.serial) ∈ table.entries := by
  obtain ⟨serial, hentry⟩ := h.entered key hne
  obtain ⟨lock, hlock, rfl⟩ := h.kept _ hentry
  exact ⟨lock, hlock, hentry⟩

/-- Nobody stands in two lines. -/
theorem key_eq (h : table.Forms line) {key' : κ} (hmem : ticket ∈ line key) (hmem' : ticket ∈ line key') :
    key = key' := by
  obtain ⟨seat, -, hseat⟩ := h.orderly
  exact Option.some.inj (((hseat ticket key).mpr hmem).symm.trans ((hseat ticket key').mpr hmem'))

/-- Nobody stands twice in a line. -/
theorem nodup (h : table.Forms line) (key : κ) : (line key).Nodup := by
  obtain ⟨seat, horderly, -⟩ := h.orderly
  cases hline : line key with
  | nil => exact List.nodup_nil
  | cons first rest =>
    obtain ⟨lock, hlock, hentry⟩ := h.found (hline ▸ List.cons_ne_nil first rest)
    obtain ⟨hholder, hwaiting⟩ := h.stands key _ hentry lock hlock rfl
    rw [hline] at hholder hwaiting
    obtain ⟨hfirst, hrest⟩ := horderly.tidy lock hlock
    rw [hwaiting] at hfirst hrest
    exact List.nodup_cons.mpr ⟨hfirst first hholder, hrest⟩

/-- Who stands at the head of a line holds its lock. -/
theorem holds_iff (h : table.Forms line) :
    table.holds ticket = true ↔ ∃ key, (line key).head? = some ticket := by
  obtain ⟨seat, horderly, -⟩ := h.orderly
  rw [Locks.holds_iff]
  constructor
  · rintro ⟨lock, hlock, hholder⟩
    obtain ⟨key, hentry, -⟩ := horderly.seated lock hlock ticket (Or.inl hholder)
    exact ⟨key, (h.stands key _ hentry lock hlock rfl).1 ▸ hholder⟩
  · rintro ⟨key, hhead⟩
    have hne : line key ≠ [] := by
      intro hnil
      rw [hnil] at hhead
      cases hhead
    obtain ⟨lock, hlock, hentry⟩ := h.found hne
    exact ⟨lock, hlock, (h.stands key _ hentry lock hlock rfl).1.trans hhead⟩

theorem prune (h : table.Forms line) : table.prune.Forms line := by
  obtain ⟨seat, horderly, hseat⟩ := h.orderly
  refine ⟨⟨seat, horderly.prune, hseat⟩, h.serials.sublist (List.filter_sublist.map _), ?_, ?_, ?_⟩
  · intro key serial hentry lock hlock
    exact h.stands key serial (List.mem_of_mem_filter hentry) lock (List.mem_of_mem_filter hlock)
  · intro entry hentry
    obtain ⟨lock, hlock, hboth⟩ := List.any_eq_true.mp (List.mem_filter.mp hentry).2
    obtain ⟨hserial, huse⟩ := Bool.and_eq_true_iff.mp hboth
    exact ⟨lock, List.mem_filter.mpr ⟨hlock, huse⟩, beq_iff_eq.mp hserial⟩
  · intro key hne
    obtain ⟨lock, hlock, hentry⟩ := h.found hne
    -- a lock for which somebody lines up is in use
    have huse : lock.inUse = true := by
      refine inUse_iff.mpr ⟨(line key).head hne, Or.inl ?_⟩
      rw [(h.stands key _ hentry lock hlock rfl).1, List.head?_eq_some_head]
    refine ⟨lock.serial, List.mem_filter.mpr ⟨hentry, ?_⟩⟩
    exact List.any_eq_true.mpr ⟨lock, hlock, Bool.and_eq_true_iff.mpr ⟨beq_self_eq_true _, huse⟩⟩

theorem enter [BEq κ] [LawfulBEq κ] (h : table.Forms line) (key : κ) :
    (table.enter key).2.Forms line := by
  obtain ⟨seat, horderly, hseat⟩ := h.orderly
  obtain ⟨hentered, -⟩ := horderly.enter key
  rw [Locks.enter] at hentered ⊢
  cases hlookup : table.entries.lookup key with
  | some serial =>
    rw [hlookup] at hentered
    exact ⟨⟨seat, hentered, hseat⟩, h.serials, h.stands, h.kept, h.entered⟩
  | none =>
    have hnil : line key = [] := by
      by_contra hne
      obtain ⟨lock, -, hentry⟩ := h.found hne
      exact bne_iff_ne.mp (List.lookup_eq_none_iff.mp hlookup _ hentry) rfl
    rw [hlookup] at hentered
    refine ⟨⟨seat, hentered, hseat⟩, List.nodup_cons.mpr ⟨fun hmem ↦ ?_, h.serials⟩, ?_,
      List.forall_mem_cons.mpr ⟨⟨_, List.mem_cons_self, rfl⟩, fun entry hentry ↦ ?_⟩, fun key hne ↦ ?_⟩
    · obtain ⟨entry, hentry, heq⟩ := List.mem_map.mp hmem
      exact Nat.ne_of_lt (horderly.entry_lt entry hentry) heq
    · intro key' serial hentry lock hlock hserial
      rcases List.mem_cons.mp hentry with heq | hold <;> rcases List.mem_cons.mp hlock with rfl | hthere
      · obtain ⟨rfl, rfl⟩ := Prod.mk.inj heq
        rw [hnil]
        exact ⟨rfl, rfl⟩
      · obtain ⟨rfl, rfl⟩ := Prod.mk.inj heq
        exact absurd hserial (Nat.ne_of_lt (horderly.lock_lt lock hthere))
      · exact absurd hserial.symm (Nat.ne_of_lt (horderly.entry_lt _ hold))
      · exact h.stands key' serial hold lock hthere hserial
    · obtain ⟨lock, hlock, hserial⟩ := h.kept entry hentry
      exact ⟨lock, List.mem_cons_of_mem _ hlock, hserial⟩
    · obtain ⟨serial, hentry⟩ := h.entered key hne
      exact ⟨serial, List.mem_cons_of_mem _ hentry⟩

/-- One line is changed by what is done to its lock. -/
theorem change [DecidableEq κ] (h : table.Forms line) {serial : Nat}
    (hentry : (key, serial) ∈ table.entries) (f : Lock → Lock)
    (hserial : ∀ lock, (f lock).serial = lock.serial) (line' : List Nat)
    (hf : ∀ lock, lock.holder = (line key).head? → lock.waiting = (line key).tail →
      (f lock).holder = line'.head? ∧ (f lock).waiting = line'.tail)
    (horderly : ∃ seat, (table.change serial f).Orderly seat ∧
      ∀ ticket key', seat ticket = some key' ↔ ticket ∈ Function.update line key line' key') :
    (table.change serial f).Forms (Function.update line key line') := by
  obtain ⟨seat, hkeys, -⟩ := h.orderly
  refine ⟨horderly, h.serials, fun key' serial' hentry' ↦ List.forall_mem_map.mpr fun lock hlock hserial' ↦ ?_,
    fun entry hmem ↦ ?_, fun key' hne ↦ ?_⟩
  · split at hserial'
    · rename_i heq
      rw [hserial] at hserial'
      obtain rfl : serial' = serial := hserial'.symm.trans (beq_iff_eq.mp heq)
      obtain rfl : key' = key := congrArg Prod.fst (List.inj_on_of_nodup_map h.serials hentry' hentry rfl)
      obtain ⟨hholder, hwaiting⟩ := h.stands key' serial' hentry lock hlock hserial'
      rw [if_pos heq, Function.update_self]
      exact hf lock hholder hwaiting
    · rename_i heq
      have hne : key' ≠ key := by
        rintro rfl
        refine heq (beq_iff_eq.mpr (hserial'.trans ?_))
        exact congrArg Prod.snd (List.inj_on_of_nodup_map hkeys.keys hentry' hentry rfl)
      rw [if_neg heq, Function.update_of_ne hne]
      exact h.stands key' serial' hentry' lock hlock hserial'
  · obtain ⟨lock, hlock, hsame⟩ := h.kept entry hmem
    refine ⟨_, List.mem_map_of_mem hlock, ?_⟩
    split
    · exact (hserial lock).trans hsame
    · exact hsame
  · by_cases heq : key' = key
    · subst heq
      exact ⟨serial, hentry⟩
    · rw [Function.update_of_ne heq] at hne
      exact h.entered key' hne

/-- Who asks for a lock lines up. -/
theorem request [DecidableEq κ] (h : table.Forms line) (hnew : ∀ key, ticket ∉ line key) (key : κ) :
    (table.request key ticket).Forms (Function.update line key (line key ++ [ticket])) := by
  have hentered := h.prune.enter key
  obtain ⟨seat, horderly, hseat⟩ := h.orderly
  obtain ⟨-, hentry⟩ := horderly.prune.enter key
  have hnone : seat ticket = none :=
    Option.eq_none_iff_forall_ne_some.mpr fun key hkey ↦ hnew key ((hseat ticket key).mp hkey)
  refine hentered.change hentry _ (fun lock ↦ Lock.serial_ask) _ (fun lock hholder hwaiting ↦ ?_)
    ⟨_, horderly.request hnone key, fun other key' ↦ ?_⟩
  · rw [Lock.ask, PieceKeeper.Lock.inUse, hholder, hwaiting]
    cases line key with
    | nil => exact ⟨rfl, rfl⟩
    | cons first rest => exact ⟨rfl, rfl⟩
  · by_cases hother : other = ticket <;> by_cases hkey : key' = key
    · subst hother hkey
      simp
    · subst hother
      rw [Function.update_self, Function.update_of_ne hkey]
      simp [hnew, Ne.symm hkey]
    · subst hkey
      rw [Function.update_of_ne hother, Function.update_self, hseat]
      simp [hother]
    · rw [Function.update_of_ne hother, Function.update_of_ne hkey, hseat]

/-- Who gives a lock back leaves the head of its line, and the next gets the lock. -/
theorem release [DecidableEq κ] (h : table.Forms line) (hline : line key = ticket :: rest) :
    (table.release ticket).1.Forms (Function.update line key rest) ∧
      (table.release ticket).2 = rest.head? := by
  obtain ⟨seat, horderly, hseat⟩ := h.orderly
  have hnodup := h.nodup key
  obtain ⟨lock, hlock, hentry⟩ := h.found (hline ▸ List.cons_ne_nil ticket rest)
  obtain ⟨hholder, hwaiting⟩ := h.stands key _ hentry lock hlock rfl
  rw [hline] at hholder hwaiting hnodup
  have hreleased := horderly.release (Locks.holds_iff.mpr ⟨lock, hlock, hholder⟩)
  rw [Locks.release] at hreleased ⊢
  cases hfound : table.locks.find? fun lock ↦ lock.holder == some ticket with
  | none => exact absurd (beq_iff_eq.mpr hholder) (List.find?_eq_none.mp hfound lock hlock)
  | some held =>
    have hheld : held.holder = some ticket := by
      have hheld := List.find?_some hfound
      exact beq_iff_eq.mp hheld
    obtain rfl := horderly.lock_eq_of_seats (List.mem_of_find?_eq_some hfound) hlock (Or.inl hheld)
      (Or.inl hholder) rfl
    rw [hfound] at hreleased
    refine ⟨h.change hentry _ (fun lock ↦ Lock.serial_handOver) rest (fun lock _ hwaiting ↦ ?_)
      ⟨_, hreleased, fun other key' ↦ ?_⟩, congrArg List.head? hwaiting⟩
    · rw [hline, List.tail_cons] at hwaiting
      rw [Lock.handOver, hwaiting]
      cases rest with
      | nil => exact ⟨rfl, rfl⟩
      | cons first rest => exact ⟨rfl, rfl⟩
    · by_cases hother : other = ticket <;> by_cases hkey : key' = key
      · subst hother hkey
        simp [(List.nodup_cons.mp hnodup).1]
      · subst hother
        rw [Function.update_self, Function.update_of_ne hkey]
        refine iff_of_false (fun hnone ↦ by cases hnone) fun hmem ↦ hkey (h.key_eq hmem ?_)
        exact hline ▸ List.mem_cons_self
      · subst hkey
        rw [Function.update_of_ne hother, Function.update_self, hseat, hline]
        simp [hother]
      · rw [Function.update_of_ne hother, Function.update_of_ne hkey, hseat]

end Forms

end PieceKeeper.Locks
