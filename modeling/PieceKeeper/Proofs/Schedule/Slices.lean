import Mathlib.Order.RelClasses
import PieceKeeper.Proofs.Locks.Tallies
import PieceKeeper.Proofs.Run.Course
import PieceKeeper.Proofs.Run.Solo
import PieceKeeper.Schedule.World

/-!
# Slices

What a call does from one stop to the next: what it asks for and is answered, what is left of it then, and
what becomes of its locks and of the locks of others.
-/

namespace PieceKeeper

open Locks

variable {α β : Type}

/-! ## What is left of a call -/

/-- A request and its answer. -/
abbrev Exchange := (request : Request) × request.Answer

/-- Adds requests and their answers, the latest first. -/
def History.extend (history : History) (made : List Exchange) : History :=
  made.foldr (fun exchange history ↦ history.exchange exchange.1 exchange.2) history

@[simp] theorem History.extend_append (history : History) (made later : List Exchange) :
    history.extend (later ++ made) = (history.extend made).extend later :=
  List.foldr_append

namespace Call

/-- What is left when something is made of the answer in the end. -/
theorem Leads.of_bind {call : Call α} {f : α → β} {history : History} {rest : Call β}
    (h : (call.bind fun answer ↦ .done (f answer)).Leads history rest) :
    ∃ before, call.Leads history before ∧ rest = before.bind fun answer ↦ .done (f answer) := by
  induction h with
  | start => exact ⟨call, .start, rfl⟩
  | exchange answer _ ih =>
    obtain ⟨before, hleads, heq⟩ := ih
    cases before with
    | done last => cases heq
    | ask request next =>
      cases heq
      exact ⟨next answer, hleads.exchange answer, rfl⟩

/-- The requests that a call makes until it stops and their answers, the latest first.  Whoever waits for a
lock, for others or for some milliseconds only goes on later, but needs no other answer. -/
def exchanges (ticket : Nat) : Call α → World → List Exchange
  | .done _, _ => []
  | .ask (.table command) next, world =>
    let (answer, depot) := world.depot.runTable command
    (next answer).exchanges ticket { world with depot } ++ [⟨.table command, answer⟩]
  | .ask (.shelf command) next, world =>
    let (answer, depot) := world.depot.runShelf command
    (next answer).exchanges ticket { world with depot } ++ [⟨.shelf command, answer⟩]
  | .ask (.findFile path) next, world =>
    let answer := world.depot.files.find path
    (next answer).exchanges ticket world ++ [⟨.findFile path, answer⟩]
  | .ask (.readFile path) next, world =>
    let answer := world.depot.files.read path
    (next answer).exchanges ticket world ++ [⟨.readFile path, answer⟩]
  | .ask .now next, world => (next world.depot.now).exchanges ticket world ++ [⟨.now, world.depot.now⟩]
  | .ask .freshId next, world =>
    let answer := Depot.name world.depot.named
    (next answer).exchanges ticket { world with depot.named := world.depot.named + 1 } ++ [⟨.freshId, answer⟩]
  | .ask (.acquire key) next, world =>
    let world := { world with locks := world.locks.request key ticket }
    if world.locks.holds ticket then (next ()).exchanges ticket world ++ [⟨.acquire key, ()⟩]
    else [⟨.acquire key, ()⟩]
  | .ask (.release key) next, world =>
    (next ()).exchanges ticket { world with locks := (world.locks.release ticket).1 } ++ [⟨.release key, ()⟩]
  | .ask .pause _, _ => [⟨.pause, ()⟩]
  | .ask (.sleep milliseconds) next, world =>
    if milliseconds = 0 then (next ()).exchanges ticket world ++ [⟨.sleep milliseconds, ()⟩]
    else [⟨.sleep milliseconds, ()⟩]
  | .ask .clock next, world => (next world.clock).exchanges ticket world ++ [⟨.clock, world.clock⟩]
  | .ask (.submit proofSet root) next, world =>
    if world.submitDelay = 0 then
      let (answer, world) := world.submit proofSet root
      (next answer).exchanges ticket world ++ [⟨.submit proofSet root, answer⟩]
    else []
  | .ask (.lookup hash) next, world =>
    let world := world.note hash
    if world.lookupDelay = 0 then
      let (answer, world) := world.lookup hash
      (next answer).exchanges ticket world ++ [⟨.lookup hash, answer⟩]
    else []

end Call

namespace Resumption

/-- What a call still has to ask for. -/
def call : Resumption α → Call α
  | .go call => call
  | .submitted proofSet root next => .ask (.submit proofSet root) next
  | .lookedUp hash next => .ask (.lookup hash) next

/-- The requests that are answered until a call stops again. -/
def exchanges (ticket : Nat) : Resumption α → World → List Exchange
  | .go call, world => call.exchanges ticket world
  | .submitted proofSet root next, world =>
    let (answer, world) := world.submit proofSet root
    (next answer).exchanges ticket world ++ [⟨.submit proofSet root, answer⟩]
  | .lookedUp hash next, world =>
    let (answer, world) := world.lookup hash
    (next answer).exchanges ticket world ++ [⟨.lookup hash, answer⟩]

end Resumption

/-- What is left of a call that stopped. -/
def Stop.rest : Stop α → Resumption α
  | .answered answer => .go (.done answer)
  | .paused rest | .locked rest => .go rest
  | .asleep _ rest => rest

/-- How many locks a call waits for where it stopped. -/
def Stop.waits : Stop α → Nat
  | .locked _ => 1
  | _ => 0

/-- The milliseconds that a request takes pass once. -/
def Resumption.waits : Resumption α → Nat
  | .go _ => 1
  | .submitted _ _ _ | .lookedUp _ _ => 0

@[simp] theorem Slice.stop_after (slice : Slice α) (heir : Option Nat) : (slice.after heir).stop = slice.stop := by
  cases heir with
  | none => rfl
  | some heir => rfl

/-! ## The world beside the locks -/

namespace World

variable {world : World}

theorem correct_locks (correction : Option Correction) :
    (world.correct correction).locks = world.locks ∧ (world.correct correction).clock = world.clock := by
  cases correction with
  | none => exact ⟨rfl, rfl⟩
  | some correction => exact ⟨rfl, rfl⟩

/-- The ledger has nothing to do with locks, and its delay is over when it answers. -/
theorem submit_locks (proofSet : UInt64) (root : Root) :
    (world.submit proofSet root).2.locks = world.locks ∧
      (world.submit proofSet root).2.clock = world.clock := by
  rw [submit]
  split
  · exact ⟨rfl, rfl⟩
  · exact correct_locks _

theorem note_locks (hash : String) :
    (world.note hash).locks = world.locks ∧ (world.note hash).clock = world.clock := by
  rw [note]
  split
  · exact ⟨rfl, rfl⟩
  · exact ⟨rfl, rfl⟩

theorem lookup_locks (hash : String) :
    (world.lookup hash).2.locks = world.locks ∧ (world.lookup hash).2.clock = world.clock := by
  rw [lookup]
  split
  · exact ⟨rfl, rfl⟩
  · exact correct_locks _

end World

/-! ## What a call does about a request -/

/-- What a call does about its next request, with the requests that are answered until it stops. -/
inductive Call.Begins (ticket : Nat) (world : World) :
    (request : Request) → (request.Answer → Call α) → Slice α → List Exchange → Prop
  /-- It is answered at once, and goes on. -/
  | goes {request : Request} {next : request.Answer → Call α} (answer : request.Answer) (world' : World) :
    (∀ held, request.holds? held = some held) → world'.locks = world.locks → world'.clock = world.clock →
    Begins ticket world request next ((next answer).run ticket world')
      ((next answer).exchanges ticket world' ++ [⟨request, answer⟩])
  /-- It is answered, and goes on later. -/
  | rests {request : Request} {next : request.Answer → Call α} (answer : request.Answer) (stop : Stop α) :
    (∀ held, request.holds? held = some held) → stop.rest = .go (next answer) → stop.waits = 0 →
    Begins ticket world request next ⟨stop, world, []⟩ [⟨request, answer⟩]
  /-- It is answered later. -/
  | awaits {request : Request} {next : request.Answer → Call α} (stop : Stop α) (world' : World) :
    (∀ held, request.holds? held = some held) → stop.rest.call = .ask request next → stop.rest.waits = 0 →
    stop.waits = 0 → world'.locks = world.locks → world'.clock = world.clock →
    Begins ticket world request next ⟨stop, world', []⟩ []
  /-- It gets a lock. -/
  | gets (key : LockKey) {next : Unit → Call α} : (world.locks.request key ticket).holds ticket = true →
    Begins ticket world (.acquire key) next
      ((next ()).run ticket { world with locks := world.locks.request key ticket })
      ((next ()).exchanges ticket { world with locks := world.locks.request key ticket } ++ [⟨.acquire key, ()⟩])
  /-- It waits for a lock. -/
  | lines (key : LockKey) {next : Unit → Call α} : ¬ (world.locks.request key ticket).holds ticket = true →
    Begins ticket world (.acquire key) next
      ⟨.locked (next ()), { world with locks := world.locks.request key ticket }, []⟩ [⟨.acquire key, ()⟩]
  /-- It gives a lock back. -/
  | gives {key : LockKey} {next : Unit → Call α} : Begins ticket world (.release key) next
      (((next ()).run ticket { world with locks := (world.locks.release ticket).1 }).after
        (world.locks.release ticket).2)
      ((next ()).exchanges ticket { world with locks := (world.locks.release ticket).1 } ++ [⟨.release key, ()⟩])

theorem Call.begins (ticket : Nat) (request : Request) (next : request.Answer → Call α) (world : World) :
    Begins ticket world request next ((ask request next).run ticket world)
      ((ask request next).exchanges ticket world) := by
  have hkeeps (held : Bool) : some held = some held := rfl
  cases request with
  | table command => exact .goes _ _ hkeeps rfl rfl
  | shelf command => exact .goes _ _ hkeeps rfl rfl
  | findFile path => exact .goes _ _ hkeeps rfl rfl
  | readFile path => exact .goes _ _ hkeeps rfl rfl
  | now => exact .goes _ _ hkeeps rfl rfl
  | freshId => exact .goes _ _ hkeeps rfl rfl
  | clock => exact .goes _ _ hkeeps rfl rfl
  | acquire key =>
    simp only [run, exchanges]
    split
    · exact .gets key ‹_›
    · exact .lines key ‹_›
  | release key => exact .gives
  | pause => exact .rests _ _ hkeeps rfl rfl
  | sleep milliseconds =>
    simp only [run, exchanges]
    split
    · exact .goes _ _ hkeeps rfl rfl
    · exact .rests _ _ hkeeps rfl rfl
  | submit proofSet root =>
    obtain ⟨hlocks, hclock⟩ := world.submit_locks proofSet root
    simp only [run, exchanges]
    split
    · exact .goes _ _ hkeeps hlocks hclock
    · exact .awaits _ _ hkeeps rfl rfl rfl rfl rfl
  | lookup hash =>
    obtain ⟨hlocks, hclock⟩ := world.note_locks hash
    obtain ⟨hlocks', hclock'⟩ := (world.note hash).lookup_locks hash
    simp only [run, exchanges]
    split
    · exact .goes _ _ hkeeps (hlocks'.trans hlocks) (hclock'.trans hclock)
    · exact .awaits _ _ hkeeps rfl rfl rfl hlocks hclock

/-! ## Where a slice leads -/

/-- A call goes on from where it stopped. -/
theorem Call.run_leads (ticket : Nat) {origin call : Call α} {history : History}
    (h : origin.Leads history call) (world : World) :
    origin.Leads (history.extend (call.exchanges ticket world)) (call.run ticket world).stop.rest.call := by
  induction call generalizing history world with
  | done answer => exact h
  | ask request next ih =>
    have hnext (answer : request.Answer) (world : World) :
        origin.Leads (history.extend ((next answer).exchanges ticket world ++ [⟨request, answer⟩]))
          ((next answer).run ticket world).stop.rest.call := by
      rw [History.extend_append]
      exact ih answer (h.exchange answer) world
    have hbegins := begins ticket request next world
    generalize (ask request next).run ticket world = slice, (ask request next).exchanges ticket world = made
      at hbegins ⊢
    cases hbegins with
    | goes answer world' _ _ _ => exact hnext answer world'
    | rests answer stop _ hrest _ => exact hrest ▸ h.exchange answer
    | awaits stop world' _ hcall _ _ _ _ => exact hcall ▸ h
    | gets _ _ => exact hnext () _
    | lines _ _ => exact h.exchange ()
    | gives =>
      rw [Slice.stop_after]
      exact hnext () _

theorem Resumption.run_leads (ticket : Nat) {origin : Call α} {rest : Resumption α} {history : History}
    (h : origin.Leads history rest.call) (world : World) :
    origin.Leads (history.extend (rest.exchanges ticket world)) (rest.run ticket world).stop.rest.call := by
  cases rest with
  | go call => exact Call.run_leads ticket h world
  | submitted proofSet root next =>
    simp only [run, exchanges, History.extend_append]
    exact Call.run_leads ticket (h.exchange _) _
  | lookedUp hash next =>
    simp only [run, exchanges, History.extend_append]
    exact Call.run_leads ticket (h.exchange _) _

/-! ## How far a call still has to go -/

/-- A call goes on as another when it is answered its next request. -/
def Call.Follow (later call : Call α) : Prop :=
  ∃ (request : Request) (next : request.Answer → Call α) (answer : request.Answer),
    call = .ask request next ∧ later = next answer

theorem Call.wellFounded_follow : WellFounded (Call.Follow (α := α)) := by
  refine ⟨fun call ↦ ?_⟩
  induction call with
  | done answer =>
    refine ⟨_, ?_⟩
    rintro _ ⟨_, _, _, heq, -⟩
    cases heq
  | ask request next ih =>
    refine ⟨_, ?_⟩
    rintro _ ⟨_, _, answer, heq, rfl⟩
    cases heq
    exact ih answer

/-- What is left of a call is less than what was left before: it was answered something, or has waited for an
answer. -/
def Resumption.Nearer (later rest : Resumption α) : Prop :=
  Prod.Lex (Relation.TransGen Call.Follow) (· < ·) (later.call, later.waits) (rest.call, rest.waits)

theorem Resumption.wellFounded_nearer : WellFounded (Resumption.Nearer (α := α)) :=
  InvImage.wf (fun rest : Resumption α ↦ (rest.call, rest.waits))
    (Call.wellFounded_follow.transGen.prod_lex Nat.lt_wfRel.wf)

namespace Resumption

variable {later rest : Resumption α} {call : Call α}

theorem Nearer.follows (h : later.Nearer rest) : Relation.ReflTransGen Call.Follow later.call rest.call := by
  rcases Prod.lex_def.mp h with hfollows | ⟨heq, -⟩
  · exact hfollows.to_reflTransGen
  · exact (show later.call = rest.call from heq) ▸ .refl

theorem nearer_of_follow (h : Relation.ReflTransGen Call.Follow later.call call)
    (hfollow : call.Follow rest.call) : later.Nearer rest :=
  .left _ _ (.tail' h hfollow)

end Resumption

/-- A call that does not end comes nearer to its end in every slice. -/
theorem Call.run_nearer (ticket : Nat) (call : Call α) (world : World) :
    (∃ answer, call = .done answer) ∨ (call.run ticket world).stop.rest.Nearer (.go call) := by
  induction call generalizing world with
  | done answer => exact Or.inl ⟨answer, rfl⟩
  | ask request next ih =>
    have hfollow (answer : request.Answer) : (next answer).Follow (ask request next) :=
      ⟨request, next, answer, rfl, rfl⟩
    have hnext (answer : request.Answer) (world : World) :
        ((next answer).run ticket world).stop.rest.Nearer (.go (ask request next)) := by
      refine Resumption.nearer_of_follow ?_ (hfollow answer)
      rcases ih answer world with ⟨last, hdone⟩ | hnearer
      · rw [hdone]
        exact .refl
      · exact hnearer.follows
    have hlater (answer : request.Answer) : (Resumption.go (next answer)).Nearer (.go (ask request next)) :=
      Resumption.nearer_of_follow .refl (hfollow answer)
    refine Or.inr ?_
    have hbegins := begins ticket request next world
    generalize (ask request next).run ticket world = slice, (ask request next).exchanges ticket world = made
      at hbegins ⊢
    cases hbegins with
    | goes answer world' _ _ _ => exact hnext answer world'
    | rests answer stop _ hrest _ => exact hrest ▸ hlater answer
    | awaits stop world' _ hcall hwaits _ _ _ =>
      rw [Resumption.Nearer, hcall, hwaits]
      exact .right _ Nat.zero_lt_one
    | gets _ _ => exact hnext () _
    | lines _ _ => exact hlater ()
    | gives =>
      rw [Slice.stop_after]
      exact hnext () _

theorem Resumption.run_nearer (ticket : Nat) (rest : Resumption α) (world : World) :
    (∃ answer, rest.call = .done answer) ∨ (rest.run ticket world).stop.rest.Nearer rest := by
  have hleft {request : Request} {next : request.Answer → Call α} (hrest : rest.call = .ask request next)
      (answer : request.Answer) (world : World) :
      ((next answer).run ticket world).stop.rest.Nearer rest := by
    refine nearer_of_follow ?_ ⟨request, next, answer, hrest, rfl⟩
    rcases (next answer).run_nearer ticket world with ⟨last, hdone⟩ | hnearer
    · rw [hdone]
      exact .refl
    · exact hnearer.follows
  cases rest with
  | go call => exact call.run_nearer ticket world
  | submitted proofSet root next => exact Or.inr (hleft rfl _ _)
  | lookedUp hash next => exact Or.inr (hleft rfl _ _)

/-! ## Locks of others -/

/-- What a slice of somebody else leaves to a ticket: it keeps its locks, and it waits until it is told that it
got what it waits for. -/
structure Slice.Spares (slice : Slice α) (other : Nat) (world : World) : Prop where
  clock : slice.world.clock = world.clock
  numbered : slice.world.locks.Numbered
  waits : slice.world.locks.waits other + slice.granted.count other = world.locks.waits other
  held : slice.world.locks.held other = world.locks.held other + slice.granted.count other

namespace Slice.Spares

variable {slice : Slice α} {world world' : World} {other : Nat}

theorem of_eq (h : slice.Spares other world') (hlocks : world'.locks = world.locks)
    (hclock : world'.clock = world.clock) : slice.Spares other world where
  clock := h.clock.trans hclock
  numbered := h.numbered
  waits := hlocks ▸ h.waits
  held := hlocks ▸ h.held

/-- Somebody asked for a lock before. -/
theorem of_request (key : LockKey) {ticket : Nat} (hnumbered : world.locks.Numbered) (hne : other ≠ ticket)
    (h : slice.Spares other { world with locks := world.locks.request key ticket }) :
    slice.Spares other world := by
  obtain ⟨hheld, hwaits⟩ := (hnumbered.request key ticket).2.2 other hne
  exact ⟨h.clock, h.numbered, h.waits.trans hwaits, h.held.trans (congrArg (· + _) hheld)⟩

/-- Somebody gave a lock back before. -/
theorem of_release {ticket : Nat} (hnumbered : world.locks.Numbered) (hne : other ≠ ticket)
    (h : slice.Spares other { world with locks := (world.locks.release ticket).1 }) :
    (slice.after (world.locks.release ticket).2).Spares other world := by
  obtain ⟨-, hwaits, hheld, -⟩ := hnumbered.release ticket
  have hwaits := hwaits other
  have hheld := hheld other hne
  have hlater := h.waits
  have hkept := h.held
  have hworld (heir : Option Nat) : (slice.after heir).world = slice.world := by cases heir <;> rfl
  have hgranted (heir : Option Nat) : (slice.after heir).granted.count other =
      slice.granted.count other + heir.toList.count other := by
    cases heir with
    | none => rfl
    | some heir => simp [after, List.count_cons]
  dsimp only at hlater hkept
  refine ⟨?_, ?_, ?_, ?_⟩
  · rw [hworld]
    exact h.clock
  · rw [hworld]
    exact h.numbered
  · rw [hworld, hgranted]
    omega
  · rw [hworld, hgranted]
    omega

end Slice.Spares

theorem Call.run_spares {ticket other : Nat} (hne : other ≠ ticket) (call : Call α) {world : World}
    (hnumbered : world.locks.Numbered) : (call.run ticket world).Spares other world := by
  induction call generalizing world with
  | done answer => exact ⟨rfl, hnumbered, rfl, rfl⟩
  | ask request next ih =>
    have hbegins := begins ticket request next world
    generalize (ask request next).run ticket world = slice, (ask request next).exchanges ticket world = made
      at hbegins ⊢
    cases hbegins with
    | goes answer world' _ hlocks hclock => exact (ih answer (hlocks ▸ hnumbered)).of_eq hlocks hclock
    | rests _ _ _ _ _ => exact ⟨rfl, hnumbered, rfl, rfl⟩
    | awaits _ _ _ _ _ _ hlocks hclock => exact ⟨hclock, hlocks ▸ hnumbered, hlocks ▸ rfl, hlocks ▸ rfl⟩
    | gets key _ =>
      have hasked := (hnumbered.request key ticket).1
      exact .of_request key hnumbered hne (ih () hasked)
    | lines key _ =>
      have hasked := (hnumbered.request key ticket).1
      exact .of_request key hnumbered hne ⟨rfl, hasked, rfl, rfl⟩
    | gives => exact .of_release hnumbered hne (ih () (hnumbered.release ticket).1)

/-! ## Locks of one's own -/

/-- A call asks for no second lock, and gives back only what it has: if it holds a lock at first as `held` says,
it does so in the end as `after` says. -/
def Call.Brackets : Call α → Bool → Bool → Prop
  | .done _, held, after => held = after
  | .ask request next, held, after =>
    ∃ held', request.holds? held = some held' ∧ ∀ answer, (next answer).Brackets held' after

theorem Call.Brackets.bind {call : Call α} {next : α → Call β} {held middle after : Bool}
    (h : call.Brackets held middle) (hnext : ∀ answer, (next answer).Brackets middle after) :
    (call.bind next).Brackets held after := by
  induction call generalizing held with
  | done answer =>
    obtain rfl := h
    exact hnext answer
  | ask request rest ih =>
    obtain ⟨held', hheld, hrest⟩ := h
    exact ⟨held', hheld, fun answer ↦ ih answer (hrest answer)⟩

/-- What a slice leaves to its own ticket: the lock that its call still has to give back, or waits for. -/
structure Slice.Keeps (slice : Slice α) (ticket : Nat) (world : World) : Prop where
  clock : slice.world.clock = world.clock
  numbered : slice.world.locks.Numbered
  /-- It does not get what it waits for in its own turn. -/
  granted : ticket ∉ slice.granted
  waits : slice.world.locks.waits ticket = slice.stop.waits
  held : ∃ held, slice.stop.rest.call.Brackets held false ∧
    slice.world.locks.held ticket + slice.stop.waits = held.toNat

namespace Slice.Keeps

variable {slice : Slice α} {world world' : World} {ticket : Nat}

theorem of_clock (h : slice.Keeps ticket world') (hclock : world'.clock = world.clock) :
    slice.Keeps ticket world :=
  ⟨h.clock.trans hclock, h.numbered, h.granted, h.waits, h.held⟩

theorem after {heir : Option Nat} (h : slice.Keeps ticket world) (hheir : heir.toList.count ticket = 0) :
    (slice.after heir).Keeps ticket world := by
  cases heir with
  | none => exact h
  | some heir =>
    refine ⟨h.clock, h.numbered, ?_, h.waits, h.held⟩
    refine fun hmem ↦ (List.mem_cons.mp hmem).elim (fun heq ↦ ?_) h.granted
    simp [heq] at hheir

end Slice.Keeps

theorem Call.run_keeps (ticket : Nat) {held : Bool} (call : Call α) {world : World}
    (hbrackets : call.Brackets held false) (hnumbered : world.locks.Numbered)
    (hwaits : world.locks.waits ticket = 0) (hheld : world.locks.held ticket = held.toNat) :
    (call.run ticket world).Keeps ticket world := by
  induction call generalizing world held with
  | done answer => exact ⟨rfl, hnumbered, List.not_mem_nil, hwaits, held, hbrackets, hheld⟩
  | ask request next ih =>
    obtain ⟨held', hholds, hnext⟩ := hbrackets
    have hbegins := begins ticket request next world
    generalize (ask request next).run ticket world = slice, (ask request next).exchanges ticket world = made
      at hbegins ⊢
    cases hbegins with
    | goes answer world' hkeeps hlocks hclock =>
      cases (hkeeps held).symm.trans hholds
      rw [← hlocks] at hnumbered hwaits hheld
      exact (ih answer (hnext answer) hnumbered hwaits hheld).of_clock hclock
    | rests answer stop hkeeps hrest hnone =>
      cases (hkeeps held).symm.trans hholds
      exact ⟨rfl, hnumbered, List.not_mem_nil, hwaits.trans hnone.symm, held, hrest ▸ hnext answer,
        hnone ▸ hheld⟩
    | awaits stop world' hkeeps hcall _ hnone hlocks hclock =>
      cases (hkeeps held).symm.trans hholds
      rw [← hlocks] at hnumbered hwaits hheld
      exact ⟨hclock, hnumbered, List.not_mem_nil, hwaits.trans hnone.symm, held, hcall ▸ ⟨held, hholds, hnext⟩,
        hnone ▸ hheld⟩
    | gets key hhas =>
      cases held with
      | true => cases hholds
      | false =>
        cases hholds
        obtain ⟨hasked, hgets, -⟩ := hnumbered.request key ticket
        rw [hwaits, hheld] at hgets
        rcases hgets with ⟨hone, hnone⟩ | ⟨hzero, -⟩
        · exact (ih () (hnext ()) hasked hnone hone).of_clock rfl
        · exact absurd hzero (holds_iff_held.mp hhas)
    | lines key hnot =>
      cases held with
      | true => cases hholds
      | false =>
        cases hholds
        obtain ⟨hasked, hgets, -⟩ := hnumbered.request key ticket
        rw [hwaits, hheld] at hgets
        rcases hgets with ⟨hone, -⟩ | ⟨hzero, hwaits⟩
        · exact absurd (holds_iff_held.mpr (ne_of_eq_of_ne hone Nat.one_ne_zero)) hnot
        · exact ⟨rfl, hasked, List.not_mem_nil, hwaits, true, hnext (), congrArg (· + 1) hzero⟩
    | gives =>
      cases held with
      | false => cases hholds
      | true =>
        cases hholds
        obtain ⟨hreleased, hlater, -, hless⟩ := hnumbered.release ticket
        have hlater := hlater ticket
        have hless := hless (ne_of_eq_of_ne hheld Nat.one_ne_zero)
        obtain ⟨hnone, hheir⟩ := Nat.add_eq_zero_iff.mp (hlater.trans hwaits)
        rw [hheld, hheir] at hless
        exact Slice.Keeps.after ((ih () (hnext ()) hreleased hnone (Nat.succ.inj hless)).of_clock rfl) hheir

theorem Resumption.run_spares {ticket other : Nat} (hne : other ≠ ticket) (rest : Resumption α)
    {world : World} (hnumbered : world.locks.Numbered) : (rest.run ticket world).Spares other world := by
  cases rest with
  | go call => exact call.run_spares hne hnumbered
  | submitted proofSet root next =>
    obtain ⟨hlocks, hclock⟩ := world.submit_locks proofSet root
    rw [← hlocks] at hnumbered
    exact (Call.run_spares hne _ hnumbered).of_eq hlocks hclock
  | lookedUp hash next =>
    obtain ⟨hlocks, hclock⟩ := world.lookup_locks hash
    rw [← hlocks] at hnumbered
    exact (Call.run_spares hne _ hnumbered).of_eq hlocks hclock

theorem Resumption.run_keeps (ticket : Nat) {held : Bool} (rest : Resumption α) {world : World}
    (hbrackets : rest.call.Brackets held false) (hnumbered : world.locks.Numbered)
    (hwaits : world.locks.waits ticket = 0) (hheld : world.locks.held ticket = held.toNat) :
    (rest.run ticket world).Keeps ticket world := by
  cases rest with
  | go call => exact call.run_keeps ticket hbrackets hnumbered hwaits hheld
  | submitted proofSet root next =>
    obtain ⟨held', hholds, hnext⟩ := hbrackets
    cases hholds
    obtain ⟨hlocks, hclock⟩ := world.submit_locks proofSet root
    rw [← hlocks] at hnumbered hwaits hheld
    exact (Call.run_keeps ticket _ (hnext _) hnumbered hwaits hheld).of_clock hclock
  | lookedUp hash next =>
    obtain ⟨held', hholds, hnext⟩ := hbrackets
    cases hholds
    obtain ⟨hlocks, hclock⟩ := world.lookup_locks hash
    rw [← hlocks] at hnumbered hwaits hheld
    exact (Call.run_keeps ticket _ (hnext _) hnumbered hwaits hheld).of_clock hclock

end PieceKeeper
