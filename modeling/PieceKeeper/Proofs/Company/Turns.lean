import PieceKeeper.Proofs.Company.Basic
import PieceKeeper.Proofs.Store.Shelf

/-!
# Operations one after the other

Where an operation leads that has no company, on a table that nothing disturbs.  What is to hold in
the end goes along the combinators that operations are built from.
-/

namespace PieceKeeper

variable {α β : Type}

/-! ## Archives -/

/-- What calls work on: the pieces, the shelf, and what was sent to the ledger. -/
structure Archive where
  book : Book
  shelf : Shelf := {}
  sent : List Submission := []

namespace Archive

/-- The store of an archive. -/
def store (a : Archive) : Store := { table := a.book.table, shelf := a.shelf }

/-- The archive after something was sent. -/
def send (a : Archive) (submissions : List Submission) : Archive :=
  { a with sent := a.sent ++ submissions }

/-- The pieces obey their rules, and the shelf can be used. -/
structure Sound (a : Archive) : Prop where
  book : a.book.Sound
  open_ : a.shelf.blocked = false

end Archive

/-- Where calls have come to is an archive. -/
structure Turns.Shows (turns : Turns) (a : Archive) : Prop where
  store : turns.store = a.store
  sent : turns.sent = a.sent

/-! ## Requests that only look outside -/

/-- A request whose answer changes nothing, and depends neither on the time nor on others. -/
def Request.IsSilent : Request → Prop
  | .table _ | .shelf _ | .now | .acquire _ | .release _ | .submit _ _ => False
  | _ => True

namespace Call

/-- All requests of a call are silent. -/
def IsSilent : Call α → Prop
  | .done _ => True
  | .ask request next => request.IsSilent ∧ ∀ answer, (next answer).IsSilent

/-- How a call ends whose requests are silent. -/
def resolve (outside : Outside) : Call α → α
  | .done answer => answer
  | .ask request next => (next (outside request)).resolve outside

end Call

namespace Source

/-- What is measured at a source. -/
def measured (outside : Outside) (source : Source) : Outcome (Option String × Option UInt64) :=
  source.measure.run.resolve outside

theorem measure_isSilent (source : Source) : source.measure.run.IsSilent := by
  cases source with
  | declared size =>
    rw [measure]
    split
    · trivial
    · trivial
  | file path =>
    refine ⟨trivial, fun _ ↦ ⟨trivial, fun found ↦ ?_⟩⟩
    cases found with
    | error failure => trivial
    | ok node =>
      cases node with
      | directory => trivial
      | file content =>
        change Call.IsSilent (ExceptT.run (if UInt64.ofNat content.length = 0 then _ else _))
        split
        · trivial
        · trivial

end Source

/-! ## What holds at the end -/

namespace Call

theorem play_bind (clock : Nat → Instant) (outside : Outside) (ticket : Nat) (call : Call α)
    (next : α → Call β) (turns : Turns) :
    (call.bind next).play clock outside ticket turns =
      (next (call.play clock outside ticket turns).1).play clock outside ticket
        (call.play clock outside ticket turns).2 := by
  induction call generalizing turns with
  | done answer => rfl
  | ask request rest ih => exact ih _ _

/-- Where a call leads from an archive, a postcondition holds. -/
def Plays (stage : Company.Stage) (ticket : Nat) (post : α → Archive → Prop) (call : Call α)
    (a : Archive) : Prop :=
  ∀ turns : Turns, turns.Shows a →
    ∃ a', (call.play stage.clock (stage.outside ticket) ticket turns).2.Shows a' ∧
      post (call.play stage.clock (stage.outside ticket) ticket turns).1 a'

end Call

section

variable {stage : Company.Stage} {ticket : Nat} {a : Archive}

namespace Call

theorem plays_done {post : α → Archive → Prop} {answer : α} (h : post answer a) :
    (done answer).Plays stage ticket post a :=
  fun _ hturns ↦ ⟨a, hturns, h⟩

theorem Plays.bind {post : β → Archive → Prop} {call : Call α} {next : α → Call β}
    (h : call.Plays stage ticket (fun answer ↦ (next answer).Plays stage ticket post) a) :
    (call.bind next).Plays stage ticket post a := by
  intro turns hturns
  obtain ⟨a', hturns', hnext⟩ := h turns hturns
  rw [play_bind]
  exact hnext _ hturns'

theorem Plays.mono {post post' : α → Archive → Prop} {call : Call α}
    (h : call.Plays stage ticket post a) (hpost : ∀ answer a, post answer a → post' answer a) :
    call.Plays stage ticket post' a := by
  intro turns hturns
  obtain ⟨a', hturns', hend⟩ := h turns hturns
  exact ⟨a', hturns', hpost _ _ hend⟩

/-- A request leads to an archive, and the call goes on from there. -/
theorem plays_ask {post : α → Archive → Prop} {request : Request} {next : request.Answer → Call α}
    (h : ∀ turns : Turns, turns.Shows a → ∃ a',
      (turns.serve stage.clock (stage.outside ticket) ticket request).2.Shows a' ∧
      (next (turns.serve stage.clock (stage.outside ticket) ticket request).1).Plays stage ticket
        post a') :
    (ask request next).Plays stage ticket post a := by
  intro turns hturns
  obtain ⟨a', hturns', hnext⟩ := h turns hturns
  exact hnext _ hturns'

theorem plays_silent {post : α → Archive → Prop} {call : Call α} (hsilent : call.IsSilent)
    (h : post (call.resolve (stage.outside ticket)) a) : call.Plays stage ticket post a := by
  induction call with
  | done answer => exact plays_done h
  | ask request next ih =>
    obtain ⟨hrequest, hnext⟩ := hsilent
    refine plays_ask fun turns hturns ↦ ⟨a, ?_⟩
    cases request with
    | table _ | shelf _ | now | acquire _ | release _ | submit _ _ => exact hrequest.elim
    | _ => exact ⟨⟨hturns.store, hturns.sent⟩, ih _ (hnext _) h⟩

end Call

namespace Attempt

variable {good : α → Archive → Prop} {bad : Fault → Archive → Prop}

/-- What is to hold of an outcome: `good` of an answer, `bad` of a fault. -/
def Concludes {σ : Type} (good : α → σ → Prop) (bad : Fault → σ → Prop) : Outcome α → σ → Prop
  | .ok answer => good answer
  | .error fault => bad fault

/-- Where an attempt leads, its answer satisfies `good`, or its fault `bad`. -/
def Plays (stage : Company.Stage) (ticket : Nat) (good : α → Archive → Prop)
    (bad : Fault → Archive → Prop) (attempt : Attempt α) (a : Archive) : Prop :=
  Call.Plays stage ticket (Concludes good bad) attempt.run a

theorem plays_pure {answer : α} (h : good answer a) :
    (pure answer : Attempt α).Plays stage ticket good bad a :=
  Call.plays_done h

theorem plays_refuse {cause : Cause} (h : bad { cause } a) :
    (refuse cause : Attempt α).Plays stage ticket good bad a :=
  Call.plays_done h

theorem plays_ofOutcome {outcome result : Outcome α} (houtcome : outcome = result)
    (h : Concludes good bad result a) : (ofOutcome outcome).Plays stage ticket good bad a := by
  rw [houtcome]
  exact Call.plays_done h

theorem plays_ofFile {result : Except FileFailure α} {answer : α} (hresult : result = .ok answer)
    (h : good answer a) : (ofFile result).Plays stage ticket good bad a := by
  rw [hresult]
  exact Call.plays_done h

theorem Plays.bind {good : β → Archive → Prop} {attempt : Attempt α} {next : α → Attempt β}
    (h : attempt.Plays stage ticket (fun answer ↦ (next answer).Plays stage ticket good bad) bad a) :
    (attempt >>= next).Plays stage ticket good bad a := by
  refine Call.Plays.bind (Call.Plays.mono h fun outcome a hend ↦ ?_)
  cases outcome with
  | ok answer => exact hend
  | error fault => exact Call.plays_done hend

theorem Plays.mono {good' : α → Archive → Prop} {bad' : Fault → Archive → Prop} {attempt : Attempt α}
    (h : attempt.Plays stage ticket good bad a) (hgood : ∀ answer a, good answer a → good' answer a)
    (hbad : ∀ fault a, bad fault a → bad' fault a) :
    attempt.Plays stage ticket good' bad' a := by
  refine Call.Plays.mono h fun outcome a hend ↦ ?_
  cases outcome with
  | ok answer => exact hgood _ _ hend
  | error fault => exact hbad _ _ hend

theorem Plays.within {attempt : Attempt α} {operation piece : String}
    (h : attempt.Plays stage ticket good (fun fault ↦ bad (fault.within operation piece)) a) :
    (attempt.within operation piece).Plays stage ticket good bad a := by
  refine Call.Plays.bind (Call.Plays.mono h fun outcome a hend ↦ ?_)
  cases outcome with
  | ok answer => exact Call.plays_done hend
  | error fault => exact Call.plays_done hend

/-- A call that cannot fail, as an attempt. -/
theorem plays_lift {call : Call α} (h : call.Plays stage ticket good a) :
    Plays stage ticket good bad (ExceptT.lift call) a :=
  Call.Plays.bind (Call.Plays.mono h fun _ _ hend ↦ Call.plays_done hend)

theorem plays_silent {request : Request} {good : request.Answer → Archive → Prop}
    (hsilent : request.IsSilent) (h : good (stage.outside ticket request) a) :
    (ask request).Plays stage ticket good bad a :=
  Call.plays_silent ⟨hsilent, fun _ ↦ trivial⟩ h

theorem plays_lookup {hash : String} {good : Option TransactionRecord → Archive → Prop}
    {answer : Outcome (Option TransactionRecord)} (hanswer : stage.outside ticket (.lookup hash) = answer)
    (h : Concludes good bad answer a) :
    Plays stage ticket good bad (ExceptT.mk (Call.request (.lookup hash))) a := by
  rw [← hanswer] at h
  exact Call.plays_silent ⟨trivial, fun _ ↦ trivial⟩ h

theorem plays_now {good : Instant → Archive → Prop} (h : ∀ instant, instant.IsReadable → good instant a) :
    (ask .now).Plays stage ticket good bad a :=
  fun turns hturns ↦ ⟨a, ⟨hturns.store, hturns.sent⟩, h _ (stage.readable turns.count)⟩

theorem plays_submit {proofSet : UInt64} {root : Root} {good : Outcome String → Archive → Prop}
    (h : good (stage.outside ticket (.submit proofSet root)) (a.send [⟨ticket, proofSet, root⟩])) :
    (ask (.submit proofSet root)).Plays stage ticket good bad a :=
  fun _ hturns ↦ ⟨a.send [⟨ticket, proofSet, root⟩],
    ⟨hturns.store, congrArg (· ++ [Submission.mk ticket proofSet root]) hturns.sent⟩, h⟩

theorem plays_shelf {command : Shelf.Command} {good : command.Answer → Archive → Prop}
    {answer : command.Answer} {shelf : Shelf} (hrun : a.shelf.run command = (answer, shelf))
    (h : good answer { a with shelf }) : (Attempt.shelf command).Plays stage ticket good bad a := by
  rintro ⟨store, count, sent⟩ ⟨rfl, rfl⟩
  have hanswer : (a.shelf.run command).1 = answer := congrArg Prod.fst hrun
  have hshelf : (a.shelf.run command).2 = shelf := congrArg Prod.snd hrun
  refine ⟨{ a with shelf }, ⟨congrArg (Store.mk a.book.table) hshelf, rfl⟩, ?_⟩
  rw [← hanswer] at h
  exact h

/-- The table is asked, and has another book then. -/
theorem plays_table {command : Table.Command} {good : command.Answer → Archive → Prop}
    {outcome : Outcome command.Answer} {book : Book}
    (hrun : a.book.table.run command = (outcome, book.table))
    (h : Concludes good bad outcome { a with book }) :
    (table command).Plays stage ticket good bad a := by
  rintro ⟨store, count, sent⟩ ⟨rfl, rfl⟩
  have houtcome : (a.book.table.run command).1 = outcome := congrArg Prod.fst hrun
  have hbook : (a.book.table.run command).2 = book.table := congrArg Prod.snd hrun
  refine ⟨{ a with book }, ⟨congrArg (Store.mk · a.shelf) hbook, rfl⟩, ?_⟩
  rw [← houtcome] at h
  exact h

/-- A lock is free when there is nobody else. -/
theorem Plays.holding {attempt : Attempt α} {key : LockKey} (h : attempt.Plays stage ticket good bad a) :
    (attempt.holding key).Plays stage ticket good bad a := by
  change Call.Plays stage ticket _ (.ask (.acquire key) fun _ ↦ attempt.run.bind fun outcome ↦
    .ask (.release key) fun _ ↦ .done outcome) a
  refine Call.plays_ask fun _ hturns ↦ ⟨a, ⟨hturns.store, hturns.sent⟩, ?_⟩
  refine Call.Plays.bind (Call.Plays.mono h fun outcome a hend ↦ ?_)
  exact Call.plays_ask fun _ hturns ↦ ⟨a, ⟨hturns.store, hturns.sent⟩, Call.plays_done hend⟩

end Attempt

end

end PieceKeeper
