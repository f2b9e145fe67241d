import PieceKeeper.Proofs.Service.Stock
import PieceKeeper.Service.Basic

/-!
# The traffic of services

Requests to any services, and rounds of their workers, run beside each other over one store.  They interleave at
every request that they make to their surroundings and between such a request and its answer; the storage may fail
at any time, a call may be given up while what it asked for still takes effect, and all may be lost at once.

A request is handled alone when nothing else happens until it is answered, and the storage does not fail meanwhile.
Others may be on their way then, as long as they rest.
-/

namespace PieceKeeper.Traffic

open Http (Response)

/-- What can happen next. -/
inductive Act where
  /-- A service is asked something. -/
  | request (service : Service) (request : Http.Request)
  /-- A manager is to look after all pending pieces. -/
  | round (manager : Manager)
  /-- A call makes its next request. -/
  | ask (ticket : Nat)
  /-- A request of a call is answered. -/
  | answer (ticket : Nat)
  /-- A call ends; a round is answered nothing. -/
  | finish (ticket : Nat) (response : Option Response)
  /-- Something goes wrong, or is to go wrong or right from now on. -/
  | mishap

/-- A state of the traffic: nothing is there in the beginning. -/
structure State where
  stock : Stock := {}
  locks : Locks LockKey := {}
  /-- The calls on their way, by their tickets. -/
  flights : Nat → Option (Progress (Option Response)) := fun _ ↦ none
  /-- The ticket of the next call. -/
  next : Nat := 0

/-- How a request can be answered by a storage that may fail, and what the answer leaves. -/
inductive Reacts (stock : Stock) : (request : Request) → request.Answer → Stock → Prop
  | serves {request : Request} {answer : request.Answer} {stock' : Stock} :
    stock.Serves request answer stock' → Reacts stock request answer stock'
  | fails {command : Shelf.Command} {answer : command.Answer} {shelf : Shelf} :
    stock.store.shelf.Fails command answer shelf →
    Reacts stock (.shelf command) answer { stock with store.shelf := shelf }

namespace State

/-- Sets how far a call has come. -/
def advance (s : State) (ticket : Nat) (progress : Progress (Option Response)) : State :=
  { s with flights := Function.update s.flights ticket (some progress) }

/-- Forgets a call. -/
def forget (s : State) (ticket : Nat) : State :=
  { s with flights := Function.update s.flights ticket none }

/-- Starts a call. -/
def launch (s : State) (call : Call (Option Response)) : State :=
  { s with next := s.next + 1 }.advance s.next (.running call)

end State

/-- How a state follows on another. -/
inductive Step (s : State) : Act → State → Prop
  | request (service : Service) (request : Http.Request) :
    Step s (.request service request)
      (s.launch ((service.handle request).bind fun response ↦ .done (some response)))
  | round (manager : Manager) :
    Step s (.round manager) (s.launch (manager.reconcile.run.bind fun _ ↦ .done none))
  | ask {ticket : Nat} {request : Request} {next : request.Answer → Call (Option Response)} :
    s.flights ticket = some (.running (.ask request next)) →
    Step s (.ask ticket)
      ({ s with locks := s.locks.hear ticket request }.advance ticket (.awaiting request next))
  | answer {ticket : Nat} {request : Request} {next : request.Answer → Call (Option Response)}
      {answer : request.Answer} {stock : Stock} :
    s.flights ticket = some (.awaiting request next) → s.locks.Grants ticket request →
    s.stock.Serves request answer stock →
    Step s (.answer ticket)
      ({ s with stock, locks := s.locks.answer ticket request }.advance ticket (.running (next answer)))
  | fail {ticket : Nat} {request : Request} {next : request.Answer → Call (Option Response)}
      {answer : request.Answer} {stock : Stock} :
    s.flights ticket = some (.awaiting request next) → s.locks.Grants ticket request →
    Reacts s.stock request answer stock →
    Step s .mishap
      ({ s with stock, locks := s.locks.answer ticket request }.advance ticket (.running (next answer)))
  | finish {ticket : Nat} {response : Option Response} :
    s.flights ticket = some (.running (.done response)) → Step s (.finish ticket response) (s.forget ticket)
  | drop {ticket : Nat} {progress : Progress (Option Response)} :
    s.flights ticket = some progress →
    Step s .mishap { s.forget ticket with locks := s.locks.leave ticket }
  | orphan {ticket : Nat} {request : Request} {next : request.Answer → Call (Option Response)} :
    s.flights ticket = some (.awaiting request next) →
    Step s .mishap { s.advance ticket (.orphaned request) with locks := s.locks.leave ticket }
  | settle {ticket : Nat} {request : Request} {answer : request.Answer} {stock : Stock} :
    s.flights ticket = some (.orphaned request) → Reacts s.stock request answer stock →
    Step s .mishap ({ s with stock }.forget ticket)
  | crash : Step s .mishap { s with flights := fun _ ↦ none, locks := {} }
  | weather (disturbance : Option Disturbance) (outage : Option String) :
    Step s .mishap { s with stock.store.table := { s.stock.store.table with disturbance, outage } }

/-- Whether a state occurs in the traffic. -/
def Reachable (s : State) : Prop := Relation.ReflTransGen (fun s s' ↦ ∃ act, Step s act s') {} s

/-- A step of one call that the storage does not fail. -/
def OwnStep (ticket : Nat) (s s' : State) : Prop := Step s (.ask ticket) s' ∨ Step s (.answer ticket) s'

/-- A request is handled alone: it is made, the storage does not fail, nothing happens but steps of its call, and
it is answered. -/
structure Handles (s : State) (service : Service) (request : Http.Request) (response : Response) (s' : State) :
    Prop where
  calm : s.stock.store.table.IsCalm
  course : ∃ first last, Step s (.request service request) first ∧
    Relation.ReflTransGen (OwnStep s.next) first last ∧ Step last (.finish s.next (some response)) s'

variable {s s' : State} {service : Service} {request : Http.Request} {response : Response} {ticket : Nat}

/-! ## What every state obeys -/

theorem Reacts.sound {stock stock' : Stock} {request : Request} {answer : request.Answer}
    (h : Reacts stock request answer stock') (hs : stock.Sound) : stock'.Sound := by
  cases h with
  | serves hserves => exact hserves.sound hs
  | fails hfails => exact ⟨hs.table, hfails.keeps.blocked.trans hs.open_⟩

theorem Step.sound {act : Act} (h : Step s act s') (hs : s.stock.Sound) : s'.stock.Sound := by
  cases h with
  | answer _ _ hserves => exact hserves.sound hs
  | fail _ _ hreacts | settle _ hreacts => exact hreacts.sound hs
  | weather disturbance outage => exact ⟨⟨hs.table.pieces, hs.table.ids, hs.table.contents⟩, hs.open_⟩
  | request _ _ | round _ | ask _ | finish _ | drop _ | orphan _ | crash => exact hs

theorem Reachable.sound (h : Reachable s) : s.stock.Sound := by
  induction h with
  | refl => exact ⟨Table.lawful_nil, rfl⟩
  | tail _ hstep ih =>
    obtain ⟨act, hstep⟩ := hstep
    exact hstep.sound ih

/-! ## Requests that are handled alone -/

/-- Wherever the rest of a call leads, the whole call leads there as well. -/
def Continues (call : Call (Option Response)) (start : Stock) (progress : Progress (Option Response))
    (stock : Stock) : Prop :=
  match progress with
  | .running rest => ∀ response stock', rest.Brings stock response stock' → call.Brings start response stock'
  | .awaiting request next =>
    ∀ response stock', (Call.ask request next).Brings stock response stock' → call.Brings start response stock'
  | .orphaned _ => True

theorem OwnStep.continues {call : Call (Option Response)} {start : Stock} (h : OwnStep ticket s s')
    (hs : ∃ progress, s.flights ticket = some progress ∧ Continues call start progress s.stock) :
    ∃ progress, s'.flights ticket = some progress ∧ Continues call start progress s'.stock := by
  obtain ⟨progress, hprogress, hcontinues⟩ := hs
  rcases h with hstep | hstep
  · cases hstep with
    | ask hflight =>
      cases hflight.symm.trans hprogress
      exact ⟨_, Function.update_self _ _ _, hcontinues⟩
  · cases hstep with
    | answer hflight _ hserves =>
      cases hflight.symm.trans hprogress
      exact ⟨_, Function.update_self _ _ _, fun response stock' hrest ↦
        hcontinues response stock' (.ask hserves hrest)⟩

/-- A request that is handled alone leads where its call leads alone. -/
theorem Handles.brings (h : Handles s service request response s') :
    (service.handle request).Brings s.stock response s'.stock := by
  obtain ⟨-, first, last, hfirst, hsteps, hlast⟩ := h
  cases hfirst with
  | request _ _ =>
    obtain ⟨progress, hprogress, hcontinues⟩ : ∃ progress, last.flights s.next = some progress ∧
        Continues ((service.handle request).bind fun response ↦ .done (some response)) s.stock progress
          last.stock := by
      clear hlast
      induction hsteps with
      | refl => exact ⟨_, Function.update_self _ _ _, fun _ _ hbrings ↦ hbrings⟩
      | tail _ hstep ih => exact hstep.continues ih
    cases hlast with
    | finish hflight =>
      cases hflight.symm.trans hprogress
      obtain ⟨answer, between, hbrings, hdone⟩ := Call.brings_bind.mp (hcontinues _ _ (.done _ _))
      cases hdone
      exact hbrings

/-- A call that takes no locks. -/
def IsLockFree {α : Type} : Call α → Prop
  | .done _ => True
  | .ask request next => (∀ key, request ≠ .acquire key ∧ request ≠ .release key) ∧
      ∀ answer, IsLockFree (next answer)

/-- A call that takes no locks need not wait for anybody. -/
theorem exists_ownSteps {call : Call (Option Response)} {answer : Option Response} {stock : Stock}
    (hfree : IsLockFree call) (hbrings : call.Brings s.stock answer stock)
    (hflight : s.flights ticket = some (.running call)) :
    ∃ last, Relation.ReflTransGen (OwnStep ticket) s last ∧ last.stock = stock ∧
      last.flights ticket = some (.running (.done answer)) := by
  generalize hstart : s.stock = start at hbrings
  induction hbrings generalizing s with
  | done answer stock => exact ⟨s, .refl, hstart, hflight⟩
  | @ask request next start between stock' reply result hserves hrest ih =>
    subst hstart
    obtain ⟨hrequest, hnext⟩ := hfree
    have hgrants : (s.locks.hear ticket request).Grants ticket request := by
      cases request with
      | acquire key => exact absurd rfl (hrequest key).1
      | _ => trivial
    obtain ⟨asked, hasked, hwaits, hstore, hlocks⟩ : ∃ asked, OwnStep ticket s asked ∧
        asked.flights ticket = some (.awaiting request next) ∧ asked.stock = s.stock ∧
        asked.locks.Grants ticket request :=
      ⟨_, Or.inl (.ask hflight), Function.update_self _ _ _, rfl, hgrants⟩
    rw [← hstore] at hserves
    obtain ⟨answered, hanswered, hgoes, hstock⟩ : ∃ answered, OwnStep ticket asked answered ∧
        answered.flights ticket = some (.running (next reply)) ∧ answered.stock = between :=
      ⟨_, Or.inr (.answer hwaits hlocks hserves), Function.update_self _ _ _, rfl⟩
    obtain ⟨last, hsteps, hend⟩ := ih (hnext reply) hgoes hstock
    exact ⟨last, .head hasked (.head hanswered hsteps), hend⟩

/-- A request that takes no locks is handled alone whoever rests meanwhile. -/
theorem handles_of_isLockFree {stock : Stock} (hcalm : s.stock.store.table.IsCalm)
    (hfree : IsLockFree (service.handle request))
    (hbrings : (service.handle request).Brings s.stock response stock) :
    ∃ s', Handles s service request response s' ∧ s'.stock = stock := by
  have hbind : IsLockFree ((service.handle request).bind fun response ↦ .done (some response)) := by
    generalize service.handle request = call at hfree
    induction call with
    | done answer => trivial
    | ask request next ih => exact ⟨hfree.1, fun answer ↦ ih answer (hfree.2 answer)⟩
  have hcall : ((service.handle request).bind fun response ↦ .done (some response)).Brings s.stock
      (some response) stock := Call.brings_bind.mpr ⟨response, stock, hbrings, .done (some response) stock⟩
  obtain ⟨last, hsteps, hstock, hflight⟩ := exists_ownSteps hbind
    (s := s.launch ((service.handle request).bind fun response ↦ .done (some response)))
    hcall (Function.update_self s.next _ _)
  exact ⟨_, ⟨hcalm, _, last, .request service request, hsteps, .finish hflight⟩, hstock⟩

end PieceKeeper.Traffic
