import PieceKeeper.Proofs.Run.Follows

/-!
# What operations may ask

The rule of each task, in terms of what happened to its call so far: an update is one of four
writes, each of a piece that the call has read; a claim is made for an unclaimed piece, and the
ledger is told of a piece only once and only after its claim; a draft is written once, and
published only as it was written.  And what can be said of the outcome of a task.
-/

namespace PieceKeeper

/-! ## What is written -/

namespace Piece

/-- An uploaded piece. -/
def uploadedAs (piece : Piece) (size : UInt64) (committed : CommittedPiece) (now : Instant) : Piece :=
  { piece.withContent size committed with status := .uploaded, updatedAt := now }

/-- A piece that was claimed for a proof set. -/
def claimedFor (piece : Piece) (proofSet : UInt64) (rootCid : String) : Piece :=
  { piece with proofSet := some proofSet, rootCid := some rootCid }

/-- A piece that the ledger took. -/
def submittedAs (piece : Piece) (hash : String) (submitted now : Instant) : Piece :=
  { piece with
    transaction := some hash, submittedAt := some submitted, status := .pending, updatedAt := now }

/-- A piece that the ledger refused. -/
def refusedWith (piece : Piece) (message : String) (now : Instant) : Piece :=
  { piece with errorMessage := some message, status := .error, updatedAt := now }

end Piece

/-- A content is not empty and is committed to. -/
def CommittedPiece.Of (committed : CommittedPiece) (body : Bytes) : Prop :=
  UInt64.ofNat body.length ≠ 0 ∧ ofContent body = .ok committed

/-! ## What a call knows -/

/-- The draft that a request is about. -/
def Request.draft? : Request → Option Nat
  | .shelf (.writeDraft draft _ _) | .shelf (.discard draft) | .shelf (.publish draft _) =>
    some draft
  | _ => none

/-- The status of a piece that a finding settled. -/
def Finding.status? : Finding → Option Status
  | .added => some .added
  | .failed => some .failed
  | .notIndexed | .stillPending | .skipped => none

/-- How many pieces a report says were settled with a status. -/
def Report.settled (report : Report) : Status → Nat
  | .added => report.added
  | .failed => report.failed
  | _ => 0

/-- The piece that an event settled with a status. -/
def Event.resolved? (status : Status) : Event → Option String
  | .answered (.table (.update piece .pending)) (.ok true) =>
    if piece.status = status then some piece.id else none
  | _ => none

/-- The request that an event ends. -/
def Event.request? : Event → Option Request
  | .answered request _ => some request
  | _ => none

namespace History

/-- A piece was read under an id. -/
def Found (history : History) (id : String) (piece : Piece) : Prop :=
  Event.answered (.table (.find id)) (.ok (some piece)) ∈ history

/-- A piece was claimed. -/
def Claimed (history : History) (id : String) (proofSet : UInt64) (rootCid : String) : Prop :=
  ∃ now, Event.answered (.table (.claim id proofSet rootCid now)) (.ok true) ∈ history

/-- Something is published under a key. -/
def Shelved (history : History) (key : String) : Prop :=
  Event.answered (.shelf (.holds key)) true ∈ history ∨
    ∃ draft, Event.answered (.shelf (.publish draft key)) (.ok ()) ∈ history

/-- A number was drawn for a draft. -/
def Drew (history : History) (draft : Nat) : Prop :=
  Event.answered (.shelf .newDraft) draft ∈ history

/-- A draft was written. -/
def Wrote (history : History) (draft : Nat) (key : String) (content : Bytes) : Prop :=
  Event.answered (.shelf (.writeDraft draft key content)) (.ok ()) ∈ history

/-- The requests about a draft that were answered, the latest first. -/
def handled (history : History) (draft : Nat) : List Request :=
  (history.filterMap Event.request?).filter fun request ↦ request.draft? = some draft

@[simp] theorem handled_answered (history : History) (request : Request) (answer : request.Answer)
    (draft : Nat) :
    handled (.answered request answer :: history) draft =
      if request.draft? = some draft then request :: history.handled draft
      else history.handled draft := by
  change (request :: history.filterMap Event.request?).filter _ = _
  rw [List.filter_cons]
  simp [handled]

@[simp] theorem handled_exchange (history : History) (request : Request) (answer : request.Answer)
    (draft : Nat) :
    (history.exchange request answer).handled draft =
      if request.draft? = some draft then request :: history.handled draft
      else history.handled draft :=
  handled_answered (.asked request :: history) request answer draft

theorem mem_handled {history : History} {request : Request} {answer : request.Answer} {draft : Nat}
    (h : .answered request answer ∈ history) (hdraft : request.draft? = some draft) :
    request ∈ history.handled draft :=
  List.mem_filter.mpr ⟨List.mem_filterMap.mpr ⟨_, h, rfl⟩, by simpa using hdraft⟩

/-- The ledger was told of a root. -/
def Submits (history : History) : Prop :=
  ∃ proofSet root, Event.asked (.submit proofSet root) ∈ history

@[simp] theorem submits_exchange (history : History) (request : Request)
    (answer : request.Answer) :
    (history.exchange request answer).Submits ↔
      (∃ proofSet root, request = .submit proofSet root) ∨ history.Submits := by
  simp [Submits, exists_or, eq_comm]

/-- The pieces that were settled with a status, the latest first. -/
def resolved (history : History) (status : Status) : List String :=
  history.filterMap (Event.resolved? status)

/-- A look at a piece settled it if its finding says so, and settled nothing else. -/
structure Resolves (history later : History) (id : String) (piece : Piece) (finding : Finding) :
    Prop where
  found : ∃ found, later.Found id found ∧ found.id = piece.id
  resolved : ∀ status, later.resolved status =
    (if finding.status? = some status then [piece.id] else []) ++ history.resolved status

/-- Nothing was settled. -/
def Spares (history later : History) : Prop :=
  ∀ status, later.resolved status = history.resolved status

variable {history later : History}

theorem resolved_exchange (history : History) (request : Request) (answer : request.Answer)
    (status : Status) :
    (history.exchange request answer).resolved status =
      ((Event.answered request answer).resolved? status).toList ++ history.resolved status := by
  rw [resolved, exchange, List.filterMap_cons, List.filterMap_cons_none rfl]
  cases (Event.answered request answer).resolved? status <;> rfl

theorem Spares.refl (history : History) : history.Spares history := fun _ ↦ rfl

theorem Spares.exchange {start : History} {request : Request} {answer : request.Answer}
    (h : start.Spares history)
    (hquiet : ∀ status, (Event.answered request answer).resolved? status = none) :
    start.Spares (history.exchange request answer) := by
  intro status
  rw [resolved_exchange, hquiet, h status]
  rfl

theorem Spares.resolves {start : History} {id : String} {piece : Piece} {finding : Finding}
    (h : start.Spares history) (hfound : history.Found id piece) (hstatus : finding.status? = none) :
    start.Resolves history id piece finding where
  found := ⟨piece, hfound, rfl⟩
  resolved status := by simp [hstatus, h status]

theorem Found.mono {id : String} {piece : Piece} (h : history.Found id piece)
    (hsub : history ⊆ later) : later.Found id piece := hsub h

theorem Claimed.mono {id rootCid : String} {proofSet : UInt64}
    (h : history.Claimed id proofSet rootCid) (hsub : history ⊆ later) :
    later.Claimed id proofSet rootCid :=
  h.imp fun _ hclaim ↦ hsub hclaim

theorem Shelved.mono {key : String} (h : history.Shelved key) (hsub : history ⊆ later) :
    later.Shelved key :=
  h.imp (fun hheld ↦ hsub hheld) fun ⟨draft, hpublished⟩ ↦ ⟨draft, hsub hpublished⟩

end History

/-- A task that looks after pending pieces. -/
def Task.Watches : Task → Prop
  | .monitor _ | .reconcile => True
  | _ => False

/-- How many pieces a look at one piece reports as settled with a status. -/
def Operation.settled : Outcome (Piece × Finding) → Status → Nat
  | .ok (_, finding), status => if finding.status? = some status then 1 else 0
  | .error _, _ => 0

/-- How many pieces an outcome reports as settled with a status. -/
def Task.reported : (task : Task) → Outcome task.Answer → Status → Nat
  | .monitor _, outcome, status => Operation.settled outcome status
  | .reconcile, .ok report, status => report.settled status
  | _, _, _ => 0

/-- A task brings a body for a piece. -/
def Task.Offers (task : Task) (history : History) (id : String) (body : Bytes) : Prop :=
  task = .upload id body ∨
    task = .uploadFromSource id ∧ ∃ path, Event.answered (.readFile path) (.ok body) ∈ history

theorem Task.Offers.mono {task : Task} {history later : History} {id : String} {body : Bytes}
    (h : task.Offers history id body) (hsub : history ⊆ later) : task.Offers later id body :=
  h.imp (fun htask ↦ htask) fun ⟨htask, path, hread⟩ ↦ ⟨htask, path, hsub hread⟩

namespace Job

open Operation

variable (job : Job) (history : History)

/-- A job found its piece free for submission and knows its root. -/
structure Intends (id : String) (proofSet : UInt64) (piece : Piece) (root : Root) : Prop where
  task : job.task = .submit id proofSet
  found : history.Found id piece
  free : checkFree piece = .ok ()
  rooted : rootOf piece job.manager.sectorSize = .ok root

/-- A job found its piece free for submission and has claimed it. -/
structure Owns (id : String) (proofSet : UInt64) (piece : Piece) (root : Root) : Prop
    extends Intends job history id proofSet piece root where
  claimed : history.Claimed piece.id proofSet root.rootCid

variable {job history}

theorem Intends.mono {id : String} {proofSet : UInt64} {piece : Piece} {root : Root}
    {later : History} (h : job.Intends history id proofSet piece root) (hsub : history ⊆ later) :
    job.Intends later id proofSet piece root :=
  { h with found := h.found.mono hsub }

theorem Owns.mono {id : String} {proofSet : UInt64} {piece : Piece} {root : Root}
    {later : History} (h : job.Owns history id proofSet piece root) (hsub : history ⊆ later) :
    job.Owns later id proofSet piece root :=
  { h.toIntends.mono hsub with claimed := h.claimed.mono hsub }

variable (job history)

/-! ## Rules -/

/-- The updates of a job: of a prepared piece by its content, of a claimed piece by the ledger's
answer, and of a pending piece by the record of its transaction. -/
inductive Writes : Piece → Status → Prop
  | upload {id : String} {body : Bytes} {piece : Piece} {committed : CommittedPiece} {now : Instant} :
    job.task.Offers history id body → history.Found id piece →
    checkContent piece id (UInt64.ofNat body.length) = .ok () →
    CommittedPiece.ofContent body = .ok committed → history.Shelved committed.contentId →
    Writes (piece.uploadedAs (UInt64.ofNat body.length) committed now) .prepared
  | submission {id : String} {proofSet : UInt64} {piece : Piece} {root : Root} {hash : String}
      {submitted now : Instant} :
    job.Owns history id proofSet piece root →
    Event.answered (.submit proofSet root) (.ok hash) ∈ history →
    Writes ((piece.claimedFor proofSet root.rootCid).submittedAs hash submitted now) .uploaded
  | refusal {id : String} {proofSet : UInt64} {piece : Piece} {root : Root} {fault : Fault}
      {now : Instant} :
    job.Owns history id proofSet piece root →
    Event.answered (.submit proofSet root) (.error fault) ∈ history →
    Writes ((piece.claimedFor proofSet root.rootCid).refusedWith (refusalMessage proofSet fault) now)
      .uploaded
  | settlement {id hash : String} {piece settled : Piece} {record : TransactionRecord}
      {now : Instant} {finding : Finding} :
    history.Found id piece → piece.status = .pending → piece.transaction = some hash →
    Event.answered (.lookup hash) (.ok (some record)) ∈ history →
    piece.settle record now = (settled, .ok finding) → finding = .added ∨ finding = .failed →
    job.task.Watches → Writes settled .pending

/-- The requests that a job may make. -/
def Allows : Request → Prop
  | .table (.insert piece) => ∃ id path size now, piece = .prepare id path size now ∧ size ≠ some 0
  | .table (.update piece expected) => job.Writes history piece expected
  | .table (.claim id proofSet rootCid _) =>
    ∃ name piece root, job.Intends history name proofSet piece root ∧
      id = piece.id ∧ rootCid = root.rootCid
  | .shelf (.writeDraft draft key content) =>
    history.Drew draft ∧ history.handled draft = [] ∧
      ∃ id body, ∃ committed : CommittedPiece, job.task.Offers history id body ∧ committed.Of body ∧
        key = committed.contentId ∧ content = committed.padded
  | .shelf (.discard draft) => history.Drew draft
  | .shelf (.publish draft key) =>
    history.Drew draft ∧ ∃ content, history.Wrote draft key content ∧
      history.handled draft = [.shelf (.writeDraft draft key content)]
  | .submit proofSet root =>
    (∃ id piece, job.Owns history id proofSet piece root) ∧ ¬ history.Submits
  | _ => True

end Job

/-! ## Outcomes -/

namespace Task

/-- An upload was recorded in the row of its piece. -/
structure Stored (task : Task) (history : History) (id : String) (stored : Piece) : Prop where
  committed : ∃ body, ∃ committed : CommittedPiece, task.Offers history id body ∧ committed.Of body ∧
    Shelf.checkKey committed.contentId = .ok () ∧ ∃ piece, history.Found id piece ∧
      ∃ now, stored = piece.uploadedAs (UInt64.ofNat body.length) committed now
  written : Event.answered (.table (.update stored .prepared)) (.ok true) ∈ history

theorem Stored.mono {task : Task} {history later : History} {id : String} {piece : Piece}
    (h : task.Stored history id piece) (hsub : history ⊆ later) : task.Stored later id piece := by
  obtain ⟨⟨body, committed, hoffers, hof, hkey, found, hfound, hstored⟩, hwritten⟩ := h
  exact ⟨⟨body, committed, hoffers.mono hsub, hof, hkey, found, hfound.mono hsub, hstored⟩,
    hsub hwritten⟩

/-- An operation begins by reading its piece, and stops if it cannot.  Otherwise its outcome is
as `rest` says. -/
def Reads {α : Type} (history : History) (id : String) (context : Fault → Fault)
    (rest : Piece → Outcome α → Prop) (outcome : Outcome α) : Prop :=
  (∃ fault, Event.answered (.table (.find id)) (.error fault) ∈ history ∧
    outcome = .error (context fault)) ∨
  (Event.answered (.table (.find id)) (.ok none) ∈ history ∧
    outcome = .error (context { cause := Operation.notFound id })) ∨
  ∃ piece, history.Found id piece ∧ rest piece outcome

/-- What comes of reading what is shelved under a key. -/
def Unshelves (history : History) (key : String) (outcome : Outcome Bytes) : Prop :=
  Event.answered (.shelf (.holds key)) false ∈ history ∨
  (∃ failure, Event.answered (.shelf (.read key)) (.error failure) ∈ history) ∨
  ∃ content, Event.answered (.shelf (.read key)) (.ok content) ∈ history ∧ outcome = .ok content

/-- An outcome reports each piece that was settled, and no other. -/
def Tells (task : Task) (history : History) (outcome : Outcome task.Answer) : Prop :=
  ∀ status, (history.resolved status).length = task.reported outcome status

/-- What the outcome of a task says about what happened to its call. -/
def Concludes : (task : Task) → History → Outcome task.Answer → Prop
  | .upload id body, history, .ok piece => Stored (.upload id body) history id piece
  | .uploadFromSource id, history, .ok piece => Stored (.uploadFromSource id) history id piece
  | .submit id _, history, outcome =>
    Reads history id (·.within "add to proof set" id)
      (fun piece outcome ↦ ∀ fault, Operation.checkFree piece = .error fault →
        outcome = .error (fault.within "add to proof set" id)) outcome
  | .content id, history, outcome =>
    Reads history id (fun fault ↦ fault)
      (fun piece outcome ↦ ∀ contentId, piece.contentId = some contentId →
        Shelf.checkKey contentId = .ok () → Unshelves history contentId outcome) outcome
  | .monitor id, history, outcome => Tells (.monitor id) history outcome ∧
    ∀ status, ∀ settled ∈ history.resolved status, ∃ piece, history.Found id piece ∧ piece.id = settled
  | .reconcile, history, outcome => Tells .reconcile history outcome
  | _, _, _ => True

end Task

end PieceKeeper
