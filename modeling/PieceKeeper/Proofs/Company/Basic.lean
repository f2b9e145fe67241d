import PieceKeeper.Proofs.Company.Book
import PieceKeeper.Proofs.Company.Exclusion

/-!
# Calls in company

Any number of calls of one manager, beside each other and one after the other.  Beside each other
they interleave at every request, and those who wait for a lock are served in any order.  Nothing
fails: the table and the shelf do what they are asked, and every time can be written down.

What lies outside answers as it will.  The same calls one after the other are answered the same, which
can be done since no call asks the same question twice; only the time is different whenever it is asked
for.
-/

namespace PieceKeeper

/-! ## Errands -/

/-- What a manager is asked to do about one piece. -/
inductive Errand where
  | prepare (source : Source)
  | upload (id : String) (body : Bytes)
  | submit (id : String) (proofSet : UInt64)
  | monitor (id : String)
  /-- What a round does about a piece. -/
  | watch (id : String)

/-- What is said to who asked for something: an answer up to times, or the kind of an error. -/
abbrev Verdict := Except FaultKind (Piece × Option Finding)

namespace Errand

/-- The errand of looking after a piece, for somebody or in a round. -/
def look (id : String) (strict : Bool) : Errand := if strict then .monitor id else .watch id

/-- What an errand is answered with. -/
abbrev Answer : Errand → Type
  | .prepare _ | .upload _ _ | .submit _ _ => Piece
  | .monitor _ | .watch _ => Piece × Finding

/-- What an answer says, up to times. -/
def view : (errand : Errand) → errand.Answer → Piece × Option Finding
  | .prepare _, piece | .upload _ _, piece | .submit _ _, piece => (piece.timeless, none)
  | .monitor _, (piece, finding) | .watch _, (piece, finding) => (piece.timeless, some finding)

/-- What an outcome says: the answer up to times, or the kind of the error. -/
def verdict (errand : Errand) : Outcome errand.Answer → Verdict
  | .ok answer => .ok (errand.view answer)
  | .error fault => .error fault.kind

end Errand

/-- The operation that does an errand. -/
def Manager.attend (manager : Manager) : (errand : Errand) → Attempt errand.Answer
  | .prepare source => manager.prepare source
  | .upload id body => manager.upload id body
  | .submit id proofSet => manager.submit id proofSet
  | .monitor id => manager.monitor id
  | .watch id => Operation.observe manager.locks id false

/-- The call that does an errand. -/
def Manager.callFor (manager : Manager) (errand : Errand) : Call (Outcome errand.Answer) :=
  (manager.attend errand).run

/-- What each request is answered by what lies outside. -/
abbrev Outside := (request : Request) → request.Answer

/-- A root that was sent to the ledger, and the ticket of the call that sent it. -/
structure Submission where
  ticket : Nat
  proofSet : UInt64
  root : Root

/-! ## Beside each other -/

/-- How a request is answered, and what the answer leaves of the store, when nothing fails. -/
inductive Store.Serves (store : Store) (outside : Outside) :
    (request : Request) → request.Answer → Store → Prop
  | table (command : Table.Command) : Serves store outside (.table command)
      (store.table.run command).1 { store with table := (store.table.run command).2 }
  | shelf (command : Shelf.Command) : Serves store outside (.shelf command)
      (store.shelf.run command).1 { store with shelf := (store.shelf.run command).2 }
  | now (instant : Instant) : instant.IsReadable → Serves store outside .now instant store
  | outside (request : Request) : request.IsOutside → request ≠ .now →
      Serves store outside request (outside request) store

namespace Company

/-- What happens to a call. -/
inductive Event where
  | started (errand : Errand)
  | answered (request : Request) (answer : request.Answer)
  | ended (errand : Errand) (outcome : Outcome errand.Answer)

/-- What happened, with the tickets of the calls, the latest first. -/
abbrev Log := List (Nat × Event)

/-- The submission that an event is. -/
def submission? : Nat × Event → Option Submission
  | (ticket, .answered (.submit proofSet root) _) => some ⟨ticket, proofSet, root⟩
  | _ => none

/-- What each call was told from outside, at any time. -/
def Log.Tells (log : Log) (outside : Nat → Outside) : Prop :=
  ∀ ticket request answer, (ticket, .answered request answer) ∈ log → request.IsOutside →
    request ≠ .now → outside ticket request = answer

/-- What was sent to the ledger, the earliest first. -/
def Log.sent (log : Log) : List Submission := (log.filterMap submission?).reverse

/-- One call ended before another was started. -/
def Log.Precedes (log : Log) (first second : Nat) : Prop :=
  ∃ later earlier errand outcome next, log = later ++ earlier ∧
    (first, .ended errand outcome) ∈ earlier ∧ (second, .started next) ∈ later

/-- A call on its way. -/
structure Flight where
  errand : Errand
  progress : Progress (Outcome errand.Answer)

/-- A state of calls beside each other. -/
structure State where
  store : Store
  locks : Locks LockKey := {}
  /-- The calls on their way, by their tickets. -/
  flights : Nat → Option Flight := fun _ ↦ none
  /-- The ticket of the next call. -/
  next : Nat := 0
  log : Log := []

/-- What is found after an update is what was written, or was there before. -/
theorem update_eq_some {β : Type} {f : Nat → Option β} {value : Option β} {found : β}
    {ticket other : Nat} (h : Function.update f ticket value other = some found) :
    other = ticket ∧ value = some found ∨ other ≠ ticket ∧ f other = some found := by
  by_cases heq : other = ticket
  · subst heq
    rw [Function.update_self] at h
    exact Or.inl ⟨rfl, h⟩
  · rw [Function.update_of_ne heq] at h
    exact Or.inr ⟨heq, h⟩

/-- Sets how far a call has come. -/
def State.advance (s : State) (ticket : Nat) (errand : Errand)
    (progress : Progress (Outcome errand.Answer)) : State :=
  { s with flights := Function.update s.flights ticket (some ⟨errand, progress⟩) }

/-- Logs an event. -/
def State.note (s : State) (ticket : Nat) (event : Event) : State :=
  { s with log := (ticket, event) :: s.log }

/-- What can happen next. -/
inductive Step (manager : Manager) (s : State) : State → Prop
  /-- The manager is asked to do something. -/
  | start (errand : Errand) : Step manager s ({ s with next := s.next + 1 }.advance s.next
      errand (.running (manager.callFor errand)) |>.note s.next (.started errand))
  /-- A call makes its next request. -/
  | ask {ticket : Nat} {errand : Errand} {request : Request}
      {next : request.Answer → Call (Outcome errand.Answer)} :
    s.flights ticket = some ⟨errand, .running (.ask request next)⟩ →
      Step manager s ({ s with locks := s.locks.hear ticket request }.advance ticket errand
        (.awaiting request next))
  /-- A request is answered, by what lies outside now. -/
  | answer {ticket : Nat} {errand : Errand} {request : Request}
      {next : request.Answer → Call (Outcome errand.Answer)} {answer : request.Answer}
      {store : Store} (outside : Outside) :
    s.flights ticket = some ⟨errand, .awaiting request next⟩ → s.locks.Grants ticket request →
      s.store.Serves outside request answer store →
      Step manager s ({ s with store, locks := s.locks.answer ticket request }.advance ticket
        errand (.running (next answer)) |>.note ticket (.answered request answer))
  /-- A call ends with its outcome. -/
  | finish {ticket : Nat} {errand : Errand} {outcome : Outcome errand.Answer} :
    s.flights ticket = some ⟨errand, .running (.done outcome)⟩ →
      Step manager s (State.note
        { s with flights := Function.update s.flights ticket none } ticket (.ended errand outcome))
  /-- Those who wait for locks change their places. -/
  | shuffle {locks : Locks LockKey} : s.locks.Shuffles locks → Step manager s { s with locks }

/-- Whether a state occurs in a run that begins with a store. -/
def Reachable (manager : Manager) (store : Store) (s : State) : Prop :=
  Relation.ReflTransGen (Step manager) { store } s

end Company

/-! ## One after the other -/

/-- Where calls have come to, one after the other: the store, how many requests were made, and what
was sent to the ledger. -/
structure Turns where
  store : Store
  count : Nat := 0
  sent : List Submission := []

namespace Turns

/-- Answers a request. -/
def serve (clock : Nat → Instant) (outside : Outside) (ticket : Nat) (turns : Turns) :
    (request : Request) → request.Answer × Turns
  | .table command => ((turns.store.table.run command).1,
      { turns with
        store.table := (turns.store.table.run command).2
        count := turns.count + 1 })
  | .shelf command => ((turns.store.shelf.run command).1,
      { turns with
        store.shelf := (turns.store.shelf.run command).2
        count := turns.count + 1 })
  | .now => (clock turns.count, { turns with count := turns.count + 1 })
  | .submit proofSet root => (outside (.submit proofSet root),
      { turns with
        count := turns.count + 1
        sent := turns.sent ++ [⟨ticket, proofSet, root⟩] })
  | request => (outside request, { turns with count := turns.count + 1 })

end Turns

/-- Answers all requests of a call, up to its end. -/
def Call.play {α : Type} (clock : Nat → Instant) (outside : Outside) (ticket : Nat) :
    Call α → Turns → α × Turns
  | .done answer, turns => (answer, turns)
  | .ask request next, turns =>
    let (answer, turns) := turns.serve clock outside ticket request
    (next answer).play clock outside ticket turns

namespace Company

/-- A manager, what lies outside for each call, and a clock, which shows a time for every number of
requests. -/
structure Stage where
  manager : Manager
  outside : Nat → Outside
  clock : Nat → Instant
  readable : ∀ count, (clock count).IsReadable

namespace Stage

/-- The outcome of a call that comes next, and where it leads. -/
def turn (stage : Stage) (turns : Turns) (ticket : Nat) (errand : Errand) :
    Outcome errand.Answer × Turns :=
  (stage.manager.callFor errand).play stage.clock (stage.outside ticket) ticket turns

/-- Where calls lead that come one after the other. -/
def after (stage : Stage) (turns : Turns) : List (Nat × Errand) → Turns
  | [] => turns
  | (ticket, errand) :: order => stage.after (stage.turn turns ticket errand).2 order

/-- The same calls one after the other, told the same, have the same effects as beside each other, up to
times, and the same outcomes. -/
structure Linearizes (stage : Stage) (store : Store) (s : State) (order : List (Nat × Errand)) :
    Prop where
  told : s.log.Tells stage.outside
  tickets : (order.map Prod.fst).Nodup
  calls : ∀ ticket errand, (ticket, errand) ∈ order ↔ (ticket, .started errand) ∈ s.log
  /-- A call that ended before another was started comes before it. -/
  precedence : ∀ first second, s.log.Precedes first second →
    List.Sublist [first, second] (order.map Prod.fst)
  pieces : ∃ book mirror : Book, s.store.table = book.table ∧
    (stage.after { store } order).store.table = mirror.table ∧
    mirror.map (·.timeless) = book.map (·.timeless)
  sent : (stage.after { store } order).sent = s.log.sent
  ended : ∀ ticket errand, (ticket, errand) ∈ order → ∃ outcome, (ticket, .ended errand outcome) ∈ s.log
  outcomes : ∀ before ticket errand rest outcome, order = before ++ (ticket, errand) :: rest →
    (ticket, .ended errand outcome) ∈ s.log →
      errand.verdict outcome = errand.verdict (stage.turn (stage.after { store } before) ticket errand).1

end Stage

end Company

end PieceKeeper
