import PieceKeeper.Proofs.Run.Ledger
import PieceKeeper.Proofs.Store.Shelf

/-!
# Calls that run alone

What a call can leave behind when nothing happens to any other call, whatever it is answered: its
reads and writes of the table may fail at any time, and so may those of the shelf.  This is a matter
of the call alone, and goes along the combinators that operations are built from.
-/

namespace PieceKeeper

variable {α β : Type} {job : Job}

/-! ## What a call finds and leaves -/

/-- The rows, the shelf and the ledger's books, and what happened to a call. -/
structure Holdings where
  rows : List Row
  shelf : Shelf
  ledger : List Acceptance
  history : History

namespace Holdings

/-- Adds a request and its answer, which changed nothing. -/
def exchange (h : Holdings) (request : Request) (answer : request.Answer) : Holdings :=
  { h with history := h.history.exchange request answer }

/-- How a request of a job can be answered by a table in any state, and what the answer leaves. -/
inductive Gives (job : Job) (h : Holdings) : (request : Request) → request.Answer → Holdings → Prop
  | table (table : Table) (command : Table.Command) : table.rows = h.rows →
    Gives job h (.table command) (table.run command).1
      ({ h with rows := (table.run command).2.rows }.exchange (.table command) (table.run command).1)
  | shelf {store store' : Store} {command : Shelf.Command} {answer : command.Answer} :
    store.shelf = h.shelf → store.Reacts (.shelf command) answer store' →
    Gives job h (.shelf command) answer
      ({ h with shelf := store'.shelf }.exchange (.shelf command) answer)
  | accepted (proofSet : UInt64) (root : Root) (hash : String) :
    Gives job h (.submit proofSet root) (.ok hash)
      ({ h with ledger := ⟨job, proofSet, root, hash⟩ :: h.ledger }.exchange (.submit proofSet root)
        (.ok hash))
  | refused (proofSet : UInt64) (root : Root) (fault : Fault) :
    Gives job h (.submit proofSet root) (.error fault)
      (h.exchange (.submit proofSet root) (.error fault))
  | outside (request : Request) (answer : request.Answer) : request.IsOutside →
    (∀ proofSet root, request ≠ .submit proofSet root) →
    Gives job h request answer (h.exchange request answer)

variable {h h' h'' : Holdings} {request : Request} {answer : request.Answer}

theorem Gives.history_eq (hgives : h.Gives job request answer h') :
    h'.history = h.history.exchange request answer := by
  cases hgives <;> rfl

theorem Gives.mem_history (hgives : h.Gives job request answer h') :
    .answered request answer ∈ h'.history := by
  rw [hgives.history_eq]
  exact List.mem_cons_self

theorem Gives.subset (hgives : h.Gives job request answer h') : h.history ⊆ h'.history := by
  rw [hgives.history_eq]
  exact h.history.subset_exchange request answer

/-- Nothing is different but drafts, and what happened. -/
structure Same (h h' : Holdings) : Prop where
  rows : h'.rows = h.rows
  blobs : ∀ key, h'.shelf.blob? key = h.shelf.blob? key
  blocked : h'.shelf.blocked = h.shelf.blocked
  ledger : h'.ledger = h.ledger

@[refl] theorem Same.refl (h : Holdings) : h.Same h := ⟨rfl, fun _ ↦ rfl, rfl, rfl⟩

theorem Same.trans (hsame : h.Same h') (hsame' : h'.Same h'') : h.Same h'' where
  rows := hsame'.rows.trans hsame.rows
  blobs key := (hsame'.blobs key).trans (hsame.blobs key)
  blocked := hsame'.blocked.trans hsame.blocked
  ledger := hsame'.ledger.trans hsame.ledger

end Holdings

/-- A request that changes nothing but drafts, whatever it is answered. -/
def Request.IsQuiet : Request → Prop
  | .table (.insert _) | .table (.update _ _) | .table (.claim _ _ _ _) => False
  | .shelf (.publish _ _) | .submit _ _ => False
  | _ => True

/-- Only a publication changes what is published under a key. -/
theorem Shelf.Keeps.blob?_eq {shelf shelf' : Shelf} {command : Shelf.Command} {key : String}
    (h : shelf.Keeps command shelf') (hcommand : ∀ draft, command ≠ .publish draft key) :
    shelf'.blob? key = shelf.blob? key := by
  cases hblob : shelf'.blob? key with
  | none =>
    by_contra hne
    have hheld := h.held key (Option.isSome_iff_ne_none.mpr (Ne.symm hne))
    rw [hblob] at hheld
    cases hheld
  | some content =>
    rcases h.blobs key content hblob with hold | ⟨draft, heq, -⟩
    · exact hold.symm
    · exact absurd heq (hcommand draft)

namespace Holdings.Gives

variable {h h' : Holdings}

theorem same {request : Request} {answer : request.Answer} (hgives : h.Gives job request answer h')
    (hquiet : request.IsQuiet) : h.Same h' := by
  cases hgives with
  | table table command hrows =>
    have heffect := table.run_effect command
    refine ⟨?_, fun _ ↦ rfl, rfl, rfl⟩
    change (table.run command).2.rows = _
    rw [← hrows]
    generalize (table.run command).1 = answer at heffect
    generalize (table.run command).2.rows = rows at heffect
    cases heffect with
    | none _ => rfl
    | insert _ | update _ | claim _ => exact hquiet.elim
  | shelf hshelf hreacts =>
    have hkeeps := hreacts.keeps.2
    rw [hshelf] at hkeeps
    refine ⟨rfl, fun key ↦ hkeeps.blob?_eq ?_, hkeeps.blocked, rfl⟩
    rintro draft rfl
    exact hquiet
  | accepted _ _ _ | refused _ _ _ => exact hquiet.elim
  | outside _ _ _ _ => exact ⟨rfl, fun _ ↦ rfl, rfl, rfl⟩

/-- A piece that is found is read from a row. -/
theorem find {id : String} {piece : Piece}
    (hgives : h.Gives job (.table (.find id)) (.ok (some piece)) h') :
    ∃ row ∈ h.rows, row.id = .text id ∧ row.toPiece = .ok piece := by
  generalize hanswer : (.ok (some piece) : Outcome (Option Piece)) = answer at hgives
  cases hgives with
  | table table _ hrows => exact hrows ▸ Table.row_of_find hanswer.symm
  | outside _ _ houtside _ => exact houtside.elim

/-- A table command has its effect on the rows, and none on anything else. -/
theorem effect {command : Table.Command} {answer : Outcome command.Answer}
    (hgives : h.Gives job (.table command) answer h') :
    Table.Effect h.rows command answer h'.rows ∧ h'.shelf = h.shelf ∧ h'.ledger = h.ledger := by
  cases hgives with
  | table table _ hrows => exact ⟨hrows ▸ table.run_effect command, rfl, rfl⟩
  | outside _ _ houtside _ => exact houtside.elim

/-- A write to the table that is refused changes nothing. -/
theorem same_of_refused {command : Table.Command} {answer : Outcome command.Answer}
    (hgives : h.Gives job (.table command) answer h')
    (hrefused : h'.rows = h.rows) : h.Same h' := by
  obtain ⟨-, hshelf, hledger⟩ := hgives.effect
  exact ⟨hrefused, fun _ ↦ by rw [hshelf], by rw [hshelf], hledger⟩

/-- An insertion that fails adds nothing. -/
theorem insert_error {piece : Piece} {fault : Fault}
    (hgives : h.Gives job (.table (.insert piece)) (.error fault) h') : h.Same h' := by
  refine hgives.same_of_refused ?_
  have heffect := hgives.effect.1
  generalize hanswer : (.error fault : Outcome Unit) = answer at heffect
  generalize h'.rows = rows at heffect
  cases heffect with
  | none _ => rfl
  | insert _ => cases hanswer

/-- An update writes over the rows that it asks for, or it changes nothing. -/
theorem update {piece : Piece} {expected : Status} {answer : Outcome Bool}
    (hgives : h.Gives job (.table (.update piece expected)) answer h') :
    (answer ≠ .ok true ∧ h.Same h') ∨
    (answer = .ok true ∧ (∃ row ∈ h.rows, row.Is piece.id expected) ∧ h'.rows = h.rows.map (fun row ↦
        if row.Is piece.id expected then row.takeOver (Row.ofPiece piece) else row) ∧
      h'.shelf = h.shelf ∧ h'.ledger = h.ledger) := by
  obtain ⟨heffect, hshelf, hledger⟩ := hgives.effect
  generalize hrows : h'.rows = rows at heffect
  cases heffect with
  | none hrefused => exact Or.inl ⟨hrefused, hgives.same_of_refused hrows⟩
  | update hfound => exact Or.inr ⟨rfl, hfound, rfl, hshelf, hledger⟩

/-- A claim writes the rows that are free, or it changes nothing. -/
theorem claim {id rootCid : String} {proofSet : UInt64} {now : Instant} {answer : Outcome Bool}
    (hgives : h.Gives job (.table (.claim id proofSet rootCid now)) answer h') :
    (answer ≠ .ok true ∧ h.Same h') ∨
    (answer = .ok true ∧ (∃ row ∈ h.rows, row.IsFree id) ∧ h'.rows = h.rows.map (fun row ↦
        if row.IsFree id then row.claimed proofSet rootCid now else row) ∧
      h'.shelf = h.shelf ∧ h'.ledger = h.ledger) := by
  obtain ⟨heffect, hshelf, hledger⟩ := hgives.effect
  generalize hrows : h'.rows = rows at heffect
  cases heffect with
  | none hrefused => exact Or.inl ⟨hrefused, hgives.same_of_refused hrows⟩
  | claim hfound => exact Or.inr ⟨rfl, hfound, rfl, hshelf, hledger⟩

/-- Something is held under a key exactly if there is a blob. -/
theorem holds {key : String} {held : Bool} (hgives : h.Gives job (.shelf (.holds key)) held h')
    (hblocked : h.shelf.blocked = false) : held = (h.shelf.blob? key).isSome := by
  cases hgives with
  | shelf hshelf hreacts =>
    rw [hreacts.holds, hshelf, hblocked]
    simp
  | outside _ _ houtside _ => exact houtside.elim

/-- A publication puts a blob under its key, or it fails and changes nothing. -/
theorem publish {draft : Nat} {key : String} {answer : Except FileFailure Unit}
    (hgives : h.Gives job (.shelf (.publish draft key)) answer h') :
    ((∃ failure, answer = .error failure) ∧ h.Same h') ∨
    (answer = .ok () ∧ (h'.shelf.blob? key).isSome ∧
      (∀ other, other ≠ key → h'.shelf.blob? other = h.shelf.blob? other) ∧
      h'.shelf.blocked = h.shelf.blocked ∧ h'.rows = h.rows ∧ h'.ledger = h.ledger) := by
  cases hgives with
  | shelf hshelf hreacts =>
    have hkeeps := hreacts.keeps.2
    rw [hshelf] at hkeeps
    cases answer with
    | ok _ =>
      refine Or.inr ⟨rfl, hreacts.publish, fun other hne ↦ hkeeps.blob?_eq ?_, hkeeps.blocked, rfl, rfl⟩
      rintro draft heq
      cases heq
      exact hne rfl
    | error failure =>
      have hsame := hreacts.shelf_eq_of_publish_error
      exact Or.inl ⟨⟨failure, rfl⟩, rfl, fun key ↦ by rw [← hshelf, ← hsame]; rfl,
        by rw [← hshelf, ← hsame]; rfl, rfl⟩
  | outside _ _ houtside _ => exact houtside.elim

end Holdings.Gives

/-! ## Whatever a call is answered -/

namespace Call

/-- A postcondition holds when a call ends, whatever it is answered. -/
def Meets (job : Job) (post : Holdings → α → Prop) : Call α → Holdings → Prop
  | .done answer, h => post h answer
  | .ask request next, h =>
    ∀ answer h', h.Gives job request answer h' → Meets job post (next answer) h'

variable {h : Holdings}

theorem Meets.mono {post post' : Holdings → α → Prop} {call : Call α}
    (hmeets : call.Meets job post h) (hpost : ∀ h answer, post h answer → post' h answer) :
    call.Meets job post' h := by
  induction call generalizing h with
  | done answer => exact hpost _ _ hmeets
  | ask request next ih => exact fun answer h' hgives ↦ ih answer (hmeets answer h' hgives)

theorem Meets.bind {post : Holdings → β → Prop} {call : Call α} {next : α → Call β}
    (hmeets : call.Meets job (fun h answer ↦ (next answer).Meets job post h) h) :
    (call.bind next).Meets job post h := by
  induction call generalizing h with
  | done answer => exact hmeets
  | ask request rest ih => exact fun answer h' hgives ↦ ih answer (hmeets answer h' hgives)

theorem meets_of_forall {post : Holdings → α → Prop} (hpost : ∀ h answer, post h answer)
    (call : Call α) : call.Meets job post h := by
  induction call generalizing h with
  | done answer => exact hpost _ _
  | ask request next ih => exact fun answer h' _ ↦ ih answer

end Call

namespace Attempt

variable {h : Holdings} {good : Holdings → α → Prop} {bad : Holdings → Fault → Prop}

/-- What is to hold of an outcome: `good` of an answer, `bad` of a fault. -/
def Closes (good : Holdings → α → Prop) (bad : Holdings → Fault → Prop) (h : Holdings) :
    Outcome α → Prop
  | .ok answer => good h answer
  | .error fault => bad h fault

/-- The answer to an attempt satisfies `good`, and its fault `bad`, whatever it is answered. -/
def Meets (job : Job) (good : Holdings → α → Prop) (bad : Holdings → Fault → Prop)
    (attempt : Attempt α) (h : Holdings) : Prop :=
  Call.Meets job (Closes good bad) attempt.run h

theorem meets_pure {answer : α} (hgood : good h answer) :
    (pure answer : Attempt α).Meets job good bad h := hgood

theorem meets_refuse {cause : Cause} (hbad : bad h { cause }) :
    (refuse cause : Attempt α).Meets job good bad h := hbad

theorem meets_ofOutcome {outcome : Outcome α}
    (hgood : ∀ answer, outcome = .ok answer → good h answer)
    (hbad : ∀ fault, outcome = .error fault → bad h fault) :
    (ofOutcome outcome).Meets job good bad h := by
  cases outcome with
  | ok answer => exact hgood answer rfl
  | error fault => exact hbad fault rfl

theorem meets_ofFile {result : Except FileFailure α}
    (hgood : ∀ answer, result = .ok answer → good h answer)
    (hbad : ∀ failure : FileFailure, result = .error failure →
      bad h { cause := .io failure.message }) :
    (ofFile result).Meets job good bad h := by
  cases result with
  | ok answer => exact hgood answer rfl
  | error failure => exact hbad failure rfl

theorem meets_ask {request : Request} {good : Holdings → request.Answer → Prop}
    (hgood : ∀ answer h', h.Gives job request answer h' → good h' answer) :
    (ask request).Meets job good bad h := hgood

theorem meets_shelf {command : Shelf.Command} {good : Holdings → command.Answer → Prop}
    (hgood : ∀ answer h', h.Gives job (.shelf command) answer h' → good h' answer) :
    (shelf command).Meets job good bad h := hgood

theorem meets_table {command : Table.Command} {good : Holdings → command.Answer → Prop}
    (hgood : ∀ answer h', h.Gives job (.table command) (.ok answer) h' → good h' answer)
    (hbad : ∀ fault h', h.Gives job (.table command) (.error fault) h' → bad h' fault) :
    (table command).Meets job good bad h := by
  intro answer h' hgives
  cases answer with
  | ok answer => exact hgood answer h' hgives
  | error fault => exact hbad fault h' hgives

theorem Meets.bind {good : Holdings → β → Prop} {attempt : Attempt α} {next : α → Attempt β}
    (hmeets : attempt.Meets job (fun h answer ↦ (next answer).Meets job good bad h) bad h) :
    (attempt >>= next).Meets job good bad h := by
  refine Call.Meets.bind (Call.Meets.mono hmeets fun h outcome hend ↦ ?_)
  cases outcome with
  | ok answer => exact hend
  | error fault => exact hend

theorem Meets.mono {good' : Holdings → α → Prop} {bad' : Holdings → Fault → Prop}
    {attempt : Attempt α} (hmeets : attempt.Meets job good bad h)
    (hgood : ∀ h answer, good h answer → good' h answer)
    (hbad : ∀ h fault, bad h fault → bad' h fault) : attempt.Meets job good' bad' h := by
  refine Call.Meets.mono hmeets fun h outcome hend ↦ ?_
  cases outcome with
  | ok answer => exact hgood _ _ hend
  | error fault => exact hbad _ _ hend

theorem Meets.within {attempt : Attempt α} {operation piece : String}
    (hmeets : attempt.Meets job good (fun h fault ↦ bad h (fault.within operation piece)) h) :
    (attempt.within operation piece).Meets job good bad h := by
  refine Call.Meets.bind (Call.Meets.mono hmeets fun h outcome hend ↦ ?_)
  cases outcome with
  | ok answer => exact hend
  | error fault => exact hend

/-- The lock is asked for first and given back last. -/
theorem Meets.holding {attempt : Attempt α} {key : LockKey}
    (hmeets : attempt.Meets job (fun h ↦ good (h.exchange (.release key) ()))
      (fun h ↦ bad (h.exchange (.release key) ())) (h.exchange (.acquire key) ())) :
    (attempt.holding key).Meets job good bad h := by
  intro _ h' hgives
  cases hgives
  change Call.Meets job _ (attempt.run.bind fun outcome ↦
    .ask (.release key) fun _ ↦ .done outcome) _
  refine Call.Meets.bind (Call.Meets.mono hmeets fun h outcome hend ↦ ?_)
  intro _ h' hgives
  cases hgives
  cases outcome with
  | ok answer => exact hend
  | error fault => exact hend

/-- A call that cannot fail, as an attempt. -/
theorem meets_lift {call : Call α} (hmeets : call.Meets job good h) :
    Meets job good bad (ExceptT.lift call) h :=
  Call.Meets.bind (Call.Meets.mono hmeets fun _ _ hend ↦ hend)

end Attempt

/-! ## Runs of one call -/

/-- What is left of a call meets a postcondition. -/
def Progress.Meets (job : Job) (post : Holdings → Outcome job.task.Answer → Prop) (h : Holdings) :
    Progress (Outcome job.task.Answer) → Prop
  | .running call => call.Meets job post h
  | .awaiting request next =>
    ∃ earlier, h.history = .asked request :: earlier ∧
      ∀ answer h', Holdings.Gives job { h with history := earlier } request answer h' →
        (next answer).Meets job post h'
  | .orphaned _ => True

namespace Run

variable {s s' start : State} {ticket : Nat}

/-- What a call finds in a state. -/
def State.holdings (s : State) (ticket : Nat) : Holdings :=
  ⟨s.store.table.rows, s.store.shelf, s.log.ledger, s.log.of ticket⟩

/-- A step in which nothing happens to other calls, except that they may be given up. -/
def StepOf (ticket : Nat) (s s' : State) : Prop :=
  Step s s' ∧ ∀ other, other ≠ ticket → s'.log.of other = s.log.of other

/-- From a state on, at most the next call does anything. -/
def RunsAlone (s s' : State) : Prop := Relation.ReflTransGen (StepOf s.next) s s'

theorem RunsAlone.reaches (h : RunsAlone s s') : Reaches s s' := by
  induction h with
  | refl => exact .refl
  | tail _ hstep ih => exact ih.tail hstep.1

/-- What happened to a call stays logged. -/
theorem Step.of_suffix (h : Step s s') (ticket : Nat) : s.log.of ticket <:+ s'.log.of ticket := by
  have hcons (entry : Entry) : s.log.of ticket <:+ Log.of (entry :: s.log) ticket := by
    have happend := Log.of_append [entry] s.log ticket
    exact ⟨_, happend.symm⟩
  cases h with
  | start _ | ask _ | answer _ _ _ | finish _ | settle _ _ => exact hcons _
  | drop _ | orphan _ | crash | weather _ _ => exact List.suffix_refl _

theorem Reaches.of_suffix (h : Reaches s s') (ticket : Nat) :
    s.log.of ticket <:+ s'.log.of ticket := by
  induction h with
  | refl => exact List.suffix_refl _
  | tail _ hstep ih => exact ih.trans (hstep.of_suffix ticket)

/-- A call has run alone if in the end nothing has happened to any other. -/
theorem Reaches.runsAlone (h : Reaches s s')
    (hothers : ∀ other, other ≠ s.next → s'.log.of other = s.log.of other) : RunsAlone s s' := by
  have hsteps : Relation.ReflTransGen (StepOf s.next) s s' := by
    induction h with
    | refl => exact .refl
    | @tail t t' hreaches hstep ih =>
      -- what is logged lies between the same two histories at every step
      have hmiddle (other : Nat) (hne : other ≠ s.next) : t.log.of other = s.log.of other := by
        have hlater := hstep.of_suffix other
        rw [hothers other hne] at hlater
        exact hlater.eq_of_length_le (Reaches.of_suffix hreaches other).length_le
      refine (ih hmiddle).tail ⟨hstep, fun other hne ↦ ?_⟩
      exact (hothers other hne).trans (hmiddle other hne).symm
  exact hsteps

theorem StepOf.ticket_eq (h : StepOf ticket s s') {entry : Entry} (hlog : s'.log = entry :: s.log) :
    entry.ticket = ticket := by
  by_contra hne
  have hsame := h.2 entry.ticket hne
  rw [hlog, Log.of_cons_self] at hsame
  exact List.cons_ne_self _ _ hsame

/-- An answer in a run is one that a call has to be ready for. -/
theorem gives_of_reacts {job : Job} {request : Request} {answer : request.Answer} {store : Store}
    {earlier : History} (h : s.store.Reacts request answer store)
    (hhistory : s.log.of ticket = .asked request :: earlier) :
    Holdings.Gives job { s.holdings ticket with history := earlier } request answer
      (State.holdings ({ s with store }.note ticket job (.answered request answer)) ticket) := by
  have hlater : Log.of (⟨ticket, job, .answered request answer⟩ :: s.log) ticket =
      earlier.exchange request answer := by
    rw [Log.of_cons_self, hhistory]
    rfl
  simp only [State.holdings, State.note, hlater]
  cases h with
  | table command => exact .table s.store.table command rfl
  | shelf command => exact .shelf rfl (.shelf command)
  | shelfFails hfails => exact .shelf rfl (.shelfFails hfails)
  | outside request answer houtside =>
    cases request with
    | submit proofSet root =>
      cases answer with
      | ok hash => exact .accepted proofSet root hash
      | error fault => exact .refused proofSet root fault
    | table _ | shelf _ => exact houtside.elim
    | _ => exact .outside _ _ trivial nofun

variable {post : (job : Job) → Holdings → Outcome job.task.Answer → Prop}

/-- The call has been started that comes next after a state.  What is left of it meets its
postcondition, and if it has ended, it has met it. -/
structure State.Attended (start : State)
    (post : (job : Job) → Holdings → Outcome job.task.Answer → Prop) (s : State) : Prop where
  started : start.next < s.next
  flight : ∀ flight, s.flights start.next = some flight →
    flight.progress.Meets flight.job (post flight.job) (s.holdings start.next)
  ended : ∀ job outcome, ⟨start.next, job, .ended job.task outcome⟩ ∈ s.log →
    ∃ h, post job h outcome ∧ h.Same (s.holdings start.next) ∧
      s.log.of start.next = .ended job.task outcome :: h.history

/-- A call on its way has not ended. -/
theorem State.Lawful.not_ended (hs : s.Lawful) {flight : Flight}
    (hflight : s.flights ticket = some flight) {job : Job} {event : Event} (hevent : event.IsEnd) :
    ⟨ticket, job, event⟩ ∉ s.log :=
  fun hmem ↦ ((hs.ongoing ticket flight hflight).of_mem hmem rfl).2 hevent

/-- The call goes on, and has not ended before. -/
theorem State.Attended.advance {job : Job} {progress : Progress (Outcome job.task.Answer)}
    {event : Event} (h : start.Attended post s) (hnext : s'.next = s.next)
    (hflights : s'.flights start.next = some ⟨job, progress⟩)
    (hlog : s'.log = ⟨start.next, job, event⟩ :: s.log) (hevent : ¬ event.IsEnd)
    (hopen : ∀ job event, Event.IsEnd event → ⟨start.next, job, event⟩ ∉ s.log)
    (hmeets : progress.Meets job (post job) (s'.holdings start.next)) : start.Attended post s' where
  started := hnext ▸ h.started
  flight flight hflight := by
    cases hflights.symm.trans hflight
    exact hmeets
  ended other outcome hended := by
    rw [hlog] at hended
    rcases List.mem_cons.mp hended with heq | hold
    · cases heq
      exact absurd trivial hevent
    · exact absurd hold (hopen _ _ trivial)

/-- Nothing is logged, and the call is as it was, or gone. -/
theorem State.Attended.quiet (h : start.Attended post s) (hnext : s'.next = s.next)
    (hlog : s'.log = s.log) (hrows : s'.store.table.rows = s.store.table.rows)
    (hshelf : s'.store.shelf = s.store.shelf)
    (hflights : ∀ flight, s'.flights start.next = some flight → s.flights start.next = some flight ∨
      ∃ job request, flight = ⟨job, .orphaned request⟩) : start.Attended post s' := by
  have hsame : s'.holdings start.next = s.holdings start.next := by
    rw [State.holdings, hlog, hrows, hshelf]
    rfl
  refine ⟨hnext ▸ h.started, fun flight hflight ↦ ?_, ?_⟩
  · rw [hsame]
    rcases hflights flight hflight with hold | ⟨job, request, rfl⟩
    · exact h.flight flight hold
    · trivial
  · rw [hsame, hlog]
    exact h.ended

theorem StepOf.attended (hs : s.Lawful) (hstep : StepOf start.next s s')
    (h : start.Attended post s) : start.Attended post s' := by
  have hticket := @StepOf.ticket_eq _ _ _ hstep
  obtain ⟨hstep, -⟩ := hstep
  cases hstep with
  | start job =>
    have hnext : s.next = start.next := hticket rfl
    exact absurd h.started (hnext ▸ Nat.lt_irrefl _)
  | ask hflight =>
    obtain rfl := hticket rfl
    exact h.advance rfl (Function.update_self _ _ _) rfl id (fun _ _ ↦ hs.not_ended hflight)
      ⟨_, Log.of_cons_self _ _ _ _, h.flight _ hflight⟩
  | answer hflight _ hreacts =>
    obtain rfl := hticket rfl
    obtain ⟨earlier, hhistory, hmeets⟩ := h.flight _ hflight
    exact h.advance rfl (Function.update_self _ _ _) rfl id (fun _ _ ↦ hs.not_ended hflight)
      (hmeets _ _ (gives_of_reacts hreacts hhistory))
  | @finish ticket job outcome hflight =>
    obtain rfl := hticket rfl
    refine ⟨h.started, fun flight hnone ↦ ?_, fun other result hended ↦ ?_⟩
    · cases (Function.update_self start.next _ s.flights).symm.trans hnone
    · rcases List.mem_cons.mp hended with heq | hold
      · cases heq
        exact ⟨_, h.flight _ hflight, ⟨rfl, fun _ ↦ rfl, rfl, rfl⟩, Log.of_cons_self _ _ _ _⟩
      · exact absurd hold (hs.not_ended hflight trivial)
  | @drop ticket flight hflight =>
    refine h.quiet rfl rfl rfl rfl fun other hother ↦ Or.inl ?_
    by_cases heq : start.next = ticket
    · subst heq
      cases (Function.update_self start.next _ s.flights).symm.trans hother
    · exact (Function.update_of_ne heq _ _).symm.trans hother
  | @orphan ticket job request next hflight =>
    refine h.quiet rfl rfl rfl rfl fun other hother ↦ ?_
    by_cases heq : start.next = ticket
    · subst heq
      cases (Function.update_self start.next _ s.flights).symm.trans hother
      exact Or.inr ⟨job, request, rfl⟩
    · exact Or.inl ((Function.update_of_ne heq _ _).symm.trans hother)
  | @settle ticket job request answer store hflight hreacts =>
    obtain rfl := hticket rfl
    refine ⟨h.started, fun flight hnone ↦ ?_, fun other result hended ↦ ?_⟩
    · cases (Function.update_self start.next _ s.flights).symm.trans hnone
    · rcases List.mem_cons.mp hended with heq | hold
      · cases heq
      · exact absurd hold (hs.not_ended hflight trivial)
  | crash => exact h.quiet rfl rfl rfl rfl fun _ hflight ↦ nomatch hflight
  | weather _ _ => exact h.quiet rfl rfl rfl rfl fun _ hflight ↦ Or.inl hflight

/-- A step of the next call before it has been started starts it. -/
theorem StepOf.attended_start (hs : s.Lawful) (hnext : s.next = start.next)
    (hlog : s.log = start.log) (hrows : s.store.table.rows = start.store.table.rows)
    (hshelf : s.store.shelf = start.store.shelf)
    (hmeets : ∀ job : Job, job.call.Meets job (post job)
      { start.holdings start.next with history := [.started] })
    (hstep : StepOf start.next s s') :
    start.Attended post s' ∨ s'.next = start.next ∧ s'.log = start.log ∧
      s'.store.table.rows = start.store.table.rows ∧ s'.store.shelf = start.store.shelf := by
  have hticket := @StepOf.ticket_eq _ _ _ hstep
  have hfresh := hs.fresh start.next (Nat.le_of_eq hnext)
  have hnone {flight : Flight} (hflight : s.flights start.next = some flight) : False := by
    rw [hfresh.1] at hflight
    cases hflight
  obtain ⟨hstep, -⟩ := hstep
  cases hstep with
  | start job =>
    refine Or.inl ⟨Nat.lt_succ_of_le (Nat.le_of_eq hnext.symm), fun flight hflight ↦ ?_,
      fun other outcome hended ↦ ?_⟩
    · rw [← hnext] at hflight
      cases (Function.update_self s.next _ s.flights).symm.trans hflight
      have hholdings : State.holdings ({ s with next := s.next + 1 }.advance s.next job
          (.running job.call) |>.note s.next job .started) start.next =
          { start.holdings start.next with history := [.started] } := by
        simp only [State.holdings, State.note, State.advance, hrows, hshelf, hnext, Log.of_cons_self,
          hfresh.2]
        rw [hlog]
        rfl
      rw [hholdings]
      exact hmeets job
    · rcases List.mem_cons.mp hended with heq | hold
      · exact absurd (congrArg Entry.event heq) nofun
      · have hmem : .ended other.task outcome ∈ s.log.of start.next := Log.mem_of.mpr ⟨_, hold⟩
        rw [hfresh.2] at hmem
        cases hmem
  | ask hflight | answer hflight _ _ | finish hflight | settle hflight _ =>
    obtain rfl := hticket rfl
    exact (hnone hflight).elim
  | drop _ | orphan _ | crash | weather _ _ => exact Or.inr ⟨hnext, hlog, hrows, hshelf⟩

/-- A call that has run alone has met its postcondition when it has ended, and nothing happens to it
any more. -/
theorem RunsAlone.ended_history (hs : Reachable start) (h : RunsAlone start s)
    (hmeets : ∀ job : Job, job.call.Meets job (post job)
      { start.holdings start.next with history := [.started] })
    {job : Job} {outcome : Outcome job.task.Answer}
    (hended : ⟨start.next, job, .ended job.task outcome⟩ ∈ s.log) :
    ∃ h, post job h outcome ∧ h.Same (s.holdings start.next) ∧
      s.log.of start.next = .ended job.task outcome :: h.history := by
  have hcourse : start.Attended post s ∨ s.next = start.next ∧ s.log = start.log ∧
      s.store.table.rows = start.store.table.rows ∧ s.store.shelf = start.store.shelf := by
    clear hended
    induction h with
    | refl => exact Or.inr ⟨rfl, rfl, rfl, rfl⟩
    | @tail s s' hreaches hstep ih =>
      have hlawful : s.Lawful := Reaches.lawful hs.lawful (RunsAlone.reaches hreaches)
      rcases ih with hattended | ⟨hnext, hlog, hrows, hshelf⟩
      · exact Or.inl (hstep.attended hlawful hattended)
      · exact hstep.attended_start hlawful hnext hlog hrows hshelf hmeets
  rcases hcourse with hattended | ⟨-, hlog, -, -⟩
  · exact hattended.ended job outcome hended
  · have hmem : .ended job.task outcome ∈ start.log.of start.next :=
      Log.mem_of.mpr ⟨job, hlog ▸ hended⟩
    rw [(hs.lawful.fresh start.next (Nat.le_refl _)).2] at hmem
    cases hmem

/-- A call that has run alone has met its postcondition when it has ended. -/
theorem RunsAlone.ended (hs : Reachable start) (h : RunsAlone start s)
    (hmeets : ∀ job : Job, job.call.Meets job (post job)
      { start.holdings start.next with history := [.started] })
    {job : Job} {outcome : Outcome job.task.Answer}
    (hended : ⟨start.next, job, .ended job.task outcome⟩ ∈ s.log) :
    ∃ h, post job h outcome ∧ h.Same (s.holdings start.next) ∧
      h.history ⊆ s.log.of start.next := by
  obtain ⟨last, hpost, hsame, hhistory⟩ := h.ended_history hs hmeets hended
  exact ⟨last, hpost, hsame, hhistory ▸ List.subset_cons_self _ _⟩

end Run

end PieceKeeper
