import PieceKeeper.Proofs.Company.Turns

/-!
# What a call knows in company

A call beside others knows of the piece whose lock it holds, and of the draft that it writes, and
this stays so whatever the others do.  At one of its requests, or when it ends, it takes its turn:
the same call with nobody beside it would say the same at that time, and would leave the same.

So each call is related, request by request, to its place in an order of turns.
-/

namespace PieceKeeper

/-! ## Worlds -/

namespace Company

/-- What calls have done beside each other, and where their turns have led.  The turns have other
versions of some pieces than the table has. -/
structure World where
  here : Archive
  edit : String → Option Piece := fun _ ↦ none
  turns : Turns

/-- The turns have led to the same, up to times and the other versions. -/
structure World.Good (w : World) : Prop where
  open_ : w.here.shelf.blocked = false
  mirror : ∃ mirror : Archive, w.turns.Shows mirror ∧ mirror.shelf.blocked = false ∧
    mirror.sent = w.here.sent ∧ Book.Mirrors w.edit w.here.book mirror.book

/-- What a call knows and has. -/
structure Stand where
  /-- The piece whose lock it holds. -/
  piece : Option String := none
  /-- What that piece is. -/
  row : Option Piece := none
  /-- What the turns have in its place. -/
  edit : Option Piece := none
  /-- The draft that the call has, and whether it is written. -/
  draft : Option (Nat × Bool) := none
  /-- What is said of the call, since its turn. -/
  verdict : Option Verdict := none

/-- A draft is on the shelf as far as it is written. -/
def Stand.Drafts (st : Stand) (shelf : Shelf) : Prop :=
  ∀ draft written, st.draft = some (draft, written) →
    draft < shelf.next ∧ (written = true → (shelf.draft? draft).isSome)

/-- What a call knows is so. -/
structure Stand.Fits (st : Stand) (w : World) : Prop where
  row : ∀ id piece, st.piece = some id → st.row = some piece → w.here.book.piece? id = some piece
  edit : ∀ id, st.piece = some id → w.edit id = st.edit
  drafts : st.Drafts w.here.shelf

/-- What is not the call's own stays as it is. -/
structure Stand.Spares (st : Stand) (w w' : World) : Prop where
  rows : ∀ id piece, st.piece ≠ some id → w.here.book.piece? id = some piece →
    w'.here.book.piece? id = some piece
  edits : ∀ id, st.piece ≠ some id → w'.edit id = w.edit id
  drafts : ∀ draft, st.draft.map Prod.fst ≠ some draft →
    w'.here.shelf.draft? draft = w.here.shelf.draft? draft
  next : w.here.shelf.next ≤ w'.here.shelf.next

/-- What one call knows stays so when another goes on that has another piece and another draft. -/
theorem Stand.Fits.spared {st other : Stand} {w w' : World} (h : other.Fits w) (hspares : st.Spares w w')
    (hpiece : ∀ id, other.piece = some id → st.piece ≠ some id)
    (hdraft : ∀ draft, other.draft.map Prod.fst = some draft → st.draft.map Prod.fst ≠ some draft) :
    other.Fits w' where
  row id piece hid hrow := hspares.rows id piece (hpiece id hid) (h.row id piece hid hrow)
  edit id hid := (hspares.edits id (hpiece id hid)).trans (h.edit id hid)
  drafts draft written heq := by
    obtain ⟨hlt, hwritten⟩ := h.drafts draft written heq
    refine ⟨Nat.lt_of_lt_of_le hlt hspares.next, fun htrue ↦ ?_⟩
    rw [hspares.drafts draft (hdraft draft (congrArg (Option.map Prod.fst) heq))]
    exact hwritten htrue

/-! ## Turns -/

/-- A call takes its turn, or it does not. -/
inductive Commits (stage : Stage) (ticket : Nat) (errand : Errand) (turns : Turns) :
    Option Verdict → Option Verdict → Turns → Prop
  | rest (verdict : Option Verdict) : Commits stage ticket errand turns verdict verdict turns
  | turn : Commits stage ticket errand turns none
    (some (errand.verdict (stage.turn turns ticket errand).1)) (stage.turn turns ticket errand).2

theorem Commits.of_eq {stage : Stage} {ticket : Nat} {errand : Errand} {turns : Turns} {verdict : Verdict}
    (h : errand.verdict (stage.turn turns ticket errand).1 = verdict) :
    Commits stage ticket errand turns none (some verdict) (stage.turn turns ticket errand).2 := by
  rw [← h]
  exact .turn

end Company

namespace Request

/-- What a request sends to the ledger. -/
def sends (ticket : Nat) : Request → List Submission
  | .submit proofSet root => [⟨ticket, proofSet, root⟩]
  | _ => []

/-- The piece whose lock a call holds after a request. -/
def seat (piece : Option String) : Request → Option String
  | .acquire key => some key.piece
  | .release _ => none
  | _ => piece

/-- Locks are those of one group; nobody asks for a second lock, and each gives back its own. -/
def IsFair (group : Nat) (piece : Option String) : Request → Prop
  | .acquire key => piece = none ∧ key.group = group
  | .release key => piece = some key.piece
  | _ => True

end Request

namespace Company

/-- What the answer to a request makes of the world, and of what its call knows. -/
structure Turn (stage : Stage) (ticket : Nat) (errand : Errand) (request : Request) (store : Store)
    (st st' : Stand) (w w' : World) : Prop where
  store : w'.here.store = store
  sent : w'.here.sent = w.here.sent ++ request.sends ticket
  good : w'.Good
  fits : st'.Fits w'
  piece : st'.piece = request.seat st.piece
  spares : st.Spares w w'
  /-- The turns have no other versions of pieces whose locks are free. -/
  freed : ∀ id, st.piece = some id → st'.piece = some id ∨ w'.edit id = none
  fresh : ∀ draft, st'.draft.map Prod.fst = some draft →
    st.draft.map Prod.fst = some draft ∨ draft = w.here.shelf.next
  commits : Commits stage ticket errand w.turns st.verdict st'.verdict w'.turns

end Company

section

variable {α β : Type} {stage : Company.Stage} {ticket : Nat} {errand : Errand} {st : Company.Stand}

open Company

namespace Call

/-- Whatever a call is answered, and whatever happens between its requests, it takes no more than one
turn, and a postcondition holds in the end. -/
def Refines (stage : Stage) (ticket : Nat) (errand : Errand) (post : α → Stand → Prop) :
    Call α → Stand → Prop
  | .done answer, st => post answer st
  | .ask request next, st => request.IsFair stage.manager.locks st.piece ∧
    ∀ w : World, w.Good → st.Fits w → (∀ key, request = .acquire key → w.edit key.piece = none) →
    ∀ answer store, w.here.store.Serves (stage.outside ticket) request answer store →
    ∃ st' w', Turn stage ticket errand request store st st' w w' ∧
      Refines stage ticket errand post (next answer) st'

theorem Refines.mono {post post' : α → Stand → Prop} {call : Call α}
    (h : call.Refines stage ticket errand post st)
    (hpost : ∀ answer st, post answer st → post' answer st) :
    call.Refines stage ticket errand post' st := by
  induction call generalizing st with
  | done answer => exact hpost _ _ h
  | ask request next ih =>
    refine ⟨h.1, fun w hw hfits hfree answer store hserves ↦ ?_⟩
    obtain ⟨st', w', hturn, hnext⟩ := h.2 w hw hfits hfree answer store hserves
    exact ⟨st', w', hturn, ih answer hnext⟩

theorem Refines.bind {post : β → Stand → Prop} {call : Call α} {next : α → Call β}
    (h : call.Refines stage ticket errand
      (fun answer ↦ (next answer).Refines stage ticket errand post) st) :
    (call.bind next).Refines stage ticket errand post st := by
  induction call generalizing st with
  | done answer => exact h
  | ask request rest ih =>
    refine ⟨h.1, fun w hw hfits hfree answer store hserves ↦ ?_⟩
    obtain ⟨st', w', hturn, hnext⟩ := h.2 w hw hfits hfree answer store hserves
    exact ⟨st', w', hturn, ih answer hnext⟩

end Call

namespace Store.Serves

variable {store store' : Store} {outside : Outside}

theorem table_eq {command : Table.Command} {answer : Outcome command.Answer}
    (h : store.Serves outside (.table command) answer store') :
    answer = (store.table.run command).1 ∧
      store' = { store with table := (store.table.run command).2 } := by
  cases h with
  | table _ => exact ⟨rfl, rfl⟩
  | outside _ houtside _ => exact houtside.elim

theorem shelf_eq {command : Shelf.Command} {answer : command.Answer}
    (h : store.Serves outside (.shelf command) answer store') :
    answer = (store.shelf.run command).1 ∧
      store' = { store with shelf := (store.shelf.run command).2 } := by
  cases h with
  | shelf _ => exact ⟨rfl, rfl⟩
  | outside _ houtside _ => exact houtside.elim

theorem now_eq {instant : Instant} (h : store.Serves outside .now instant store') :
    instant.IsReadable ∧ store' = store := by
  cases h with
  | now _ hread => exact ⟨hread, rfl⟩
  | outside _ _ hne => exact absurd rfl hne

theorem outside_eq {request : Request} {answer : request.Answer}
    (h : store.Serves outside request answer store') (houtside : request.IsOutside)
    (hnow : request ≠ .now) : answer = outside request ∧ store' = store := by
  cases h with
  | table _ | shelf _ => exact houtside.elim
  | now _ _ => exact absurd rfl hnow
  | outside _ _ _ => exact ⟨rfl, rfl⟩

theorem of_run {command : Table.Command}
    {outcome : Outcome command.Answer} {table : Table} (hrun : store.table.run command = (outcome, table)) :
    store.Serves outside (.table command) outcome { store with table } := by
  have h : store.Serves outside (.table command) (store.table.run command).1
      { store with table := (store.table.run command).2 } := .table command
  rw [hrun] at h
  exact h

/-- Another outside that gives the same answer. -/
theorem alike {outside' : Outside} {request : Request} {answer : request.Answer}
    (h : store.Serves outside request answer store')
    (houtside : request.IsOutside → request ≠ .now → outside' request = answer) :
    store.Serves outside' request answer store' := by
  cases h with
  | table command => exact .table command
  | shelf command => exact .shelf command
  | now instant hread => exact .now instant hread
  | outside request hrequest hnow =>
    rw [← houtside hrequest hnow]
    exact .outside request hrequest hnow

end Store.Serves

end

end PieceKeeper
