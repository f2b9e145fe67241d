import PieceKeeper.Proofs.Run.Blank
import PieceKeeper.Proofs.Service.Orders
import PieceKeeper.Proofs.Service.Traffic
import PieceKeeper.Proofs.Text.Split

/-!
# What requests leave alone

Whatever the traffic has come to, a request that only reads and a request that is turned away change nothing, and a
request that succeeds changes the one row that its task is about.  When the ledger fails, nothing changes but the
piece that was to be submitted, which is then in the status of an error.
-/

namespace PieceKeeper

/-! ## What tasks change -/

namespace Task

/-- What is left by a task about one piece that ended well. -/
structure Leaves (task : Task) (start : Stock) (piece : Piece) (stock' : Stock) : Prop where
  /-- One row was written: a new one, or the one of the piece that the task names. -/
  table : start.store.table.Writes piece task.named stock'.store.table
  blobs : ¬ task.IsUpload → stock'.store.shelf.blobs = start.store.shelf.blobs
  taken : ¬ task.IsSubmission → stock'.taken = start.taken

/-- What is left by a task that failed: nothing, unless the ledger refused a piece. -/
inductive Spoils (start : Stock) : Task → Fault → Stock → Prop
  | nothing {task : Task} {fault : Fault} {stock' : Stock} : ¬ task.IsSubmission ∨ fault.kind ≠ .ledger →
    start.Same stock' → Spoils start task fault stock'
  | refused {id : String} {proofSet : UInt64} {fault : Fault} {stock' : Stock} :
    Operation.Refused start id fault stock' → Spoils start (.submit id proofSet) fault stock'

end Task

namespace Manager

open Attempt Operation

variable {manager : Manager} {start : Stock} {id : String}

theorem ensures_upload {body : Bytes} (h : start.store.table.Lawful) (hcalm : start.store.table.IsCalm)
    {stock : Stock} (hsame : start.Same stock) :
    (Operation.upload manager.locks id body).Ensures
      (fun answer stock' ↦ start.store.table.Writes answer.1 (some id) stock'.store.table ∧
        stock'.taken = start.taken) (fun _ ↦ start.Same) stock :=
  Ensures.holding (ensures_uploadLocked h hcalm hsame)

theorem ensures_uploadFromSource (h : start.store.table.Lawful) (hcalm : start.store.table.IsCalm) :
    (Operation.uploadFromSource manager.locks id).Ensures
      (fun answer stock' ↦ start.store.table.Writes answer.1 (some id) stock'.store.table ∧
        stock'.taken = start.taken) (fun _ ↦ start.Same) start := by
  refine Ensures.bind (ensures_find h (fun i piece _ _ ↦ ?_) fun _ _ ↦ .refl start)
  split
  · exact ensures_refuse (.refl start)
  · rename_i path _
    refine Ensures.bind (ensures_quiet .pause trivial fun _ stock₁ hsame₁ ↦ ?_)
    refine Ensures.bind (ensures_quiet (.readFile path) trivial fun read stock₂ hsame₂ ↦ ?_)
    have hsame := hsame₁.trans hsame₂
    split
    · exact ensures_refuse hsame
    · exact ensures_upload h hcalm hsame

/-- What becomes of the stock by any task that a request orders. -/
theorem ensures_perform {body : Bytes} {route : Service.Route} {method : String} {task : Task}
    (horders : Service.Orders body route method task) (h : start.store.table.Lawful)
    (hcalm : start.store.table.IsCalm) :
    (manager.perform task).Ensures
      (fun answer stock' ↦ ∃ piece, task.piece? answer = some piece ∧ task.Leaves start piece stock')
      (fun fault stock' ↦ task.Spoils start fault stock') start := by
  cases horders with
  | prepare _ =>
    refine Ensures.mono (ensures_prepare _ hcalm) ?_ fun _ _ hsame ↦ .nothing (Or.inl id) hsame
    rintro piece stock' ⟨hfresh, hsame⟩
    refine ⟨piece, rfl, ?_, fun _ ↦ hsame.blobs, fun _ ↦ hsame.taken⟩
    rw [hsame.table]
    exact .created hfresh
  | upload _ =>
    refine Ensures.within (Ensures.bind (Ensures.mono (ensures_upload h hcalm (.refl start)) ?_ ?_))
    · rintro ⟨piece, _⟩ stock' ⟨hwrites, htaken⟩
      exact ensures_pure ⟨piece, rfl, hwrites, fun hnot ↦ absurd trivial hnot, fun _ ↦ htaken⟩
    · exact fun _ _ hsame ↦ .nothing (Or.inl id) hsame
  | uploadFromSource _ _ =>
    refine Ensures.within (Ensures.bind (Ensures.mono (ensures_uploadFromSource h hcalm) ?_ ?_))
    · rintro ⟨piece, _⟩ stock' ⟨hwrites, htaken⟩
      exact ensures_pure ⟨piece, rfl, hwrites, fun hnot ↦ absurd trivial hnot, fun _ ↦ htaken⟩
    · exact fun _ _ hsame ↦ .nothing (Or.inl id) hsame
  | submit _ =>
    refine Ensures.within (Ensures.mono (Ensures.holding (ensures_submitLocked h hcalm (.refl start))) ?_ ?_)
    · rintro piece stock' ⟨hwrites, hblobs⟩
      exact ⟨piece, rfl, hwrites, fun _ ↦ hblobs, fun hnot ↦ absurd trivial hnot⟩
    · rintro fault stock' (⟨hkind, hsame⟩ | hrefused)
      · exact .nothing (Or.inr hkind) hsame
      · exact .refused ⟨hrefused.kind, hrefused.table, hrefused.blobs, hrefused.taken⟩
  | monitor _ =>
    refine Ensures.within (Ensures.mono (Ensures.holding (ensures_observeLocked h hcalm (.refl start))) ?_ ?_)
    · rintro ⟨piece, finding⟩ stock' ⟨table, hwrites, hsame⟩
      refine ⟨piece, rfl, ?_, fun _ ↦ hsame.blobs, fun _ ↦ hsame.taken⟩
      rw [hsame.table]
      exact hwrites
    · exact fun _ _ hsame ↦ .nothing (Or.inl id) hsame

end Manager

/-! ## What requests change -/

namespace Traffic

open Http (Response)
open Service (Orders Route Does methodOf envelope statusOf)

/-- The task that a request orders. -/
def Asks (request : Http.Request) (task : Task) : Prop :=
  ∃ route, Route.ofPath? request.target.1 = some route ∧ Orders request.body route request.method task

variable {s s' : State} {service : Service} {request : Http.Request} {response : Response}

/-- What comes of a request that is handled alone: it is turned away, or it only reads, or the task that it orders
is done, and it is told what came of that. -/
theorem Handles.cases (h : Handles s service request response s') :
    (Service.IsRejection response ∧ s.stock.Same s'.stock) ∨
    ((request.method = "GET" ∨ request.method = "HEAD") ∧ s.stock.Same s'.stock) ∨
    ∃ task outcome, Asks request task ∧
      (service.manager.perform task).run.Brings s.stock outcome s'.stock ∧
      Service.Replies task outcome response := by
  rcases Service.does_of_handle h.brings with ⟨hrejects, hsame⟩ | ⟨route, hroute, hdoes⟩
  · exact Or.inl ⟨hrejects, hsame ▸ .refl _⟩
  · generalize s'.stock = stock' at hdoes ⊢
    cases hdoes with
    | rejects hrejects => exact Or.inl ⟨hrejects, .refl _⟩
    | reads hmethod hsame => exact Or.inr (Or.inl ⟨Service.methodOf_eq_get.mp hmethod, hsame⟩)
    | performs horders hbrings hreplies =>
      refine Or.inr (Or.inr ⟨_, _, ⟨route, hroute, ?_⟩, hbrings, hreplies⟩)
      exact Service.methodOf_eq horders ▸ horders

theorem Asks.method {task : Task} (h : Asks request task) : request.method = "POST" ∨ request.method = "PUT" := by
  obtain ⟨route, -, horders⟩ := h
  exact horders.method

theorem Asks.not_reads {task : Task} (h : Asks request task) :
    ¬ (request.method = "GET" ∨ request.method = "HEAD") := by
  rcases h.method with hmethod | hmethod
  · rw [hmethod]
    decide
  · rw [hmethod]
    decide

/-- The requests by one method of a route order only submissions, or none. -/
theorem Asks.isSubmission {task : Task} {id : String} {proofSet : UInt64} (h : Asks request task)
    (hsubmit : Asks request (.submit id proofSet)) : task.IsSubmission := by
  obtain ⟨route, hroute, horders⟩ := h
  obtain ⟨other, hother, hsubmits⟩ := hsubmit
  obtain rfl := Option.some.inj (hroute.symm.trans hother)
  exact horders.isSubmission hsubmits

section

variable {task : Task} (hasks : Asks request task) (hs : Reachable s) (h : Handles s service request response s')

include hasks hs h

theorem Asks.leaves {answer : task.Answer}
    (hbrings : (service.manager.perform task).run.Brings s.stock (.ok answer) s'.stock) :
    ∃ piece, task.piece? answer = some piece ∧ task.Leaves s.stock piece s'.stock := by
  obtain ⟨route, -, horders⟩ := hasks
  exact Manager.ensures_perform horders hs.sound.table h.calm _ _ hbrings

theorem Asks.spoils {fault : Fault}
    (hbrings : (service.manager.perform task).run.Brings s.stock (.error fault) s'.stock) :
    task.Spoils s.stock fault s'.stock := by
  obtain ⟨route, -, horders⟩ := hasks
  exact Manager.ensures_perform horders hs.sound.table h.calm _ _ hbrings

end

/-- A request that only reads, or whose answer blames it, changes nothing. -/
theorem Handles.same (hs : Reachable s) (h : Handles s service request response s')
    (hidle : request.method = "GET" ∨ request.method = "HEAD" ∨ 400 ≤ response.status ∧ response.status < 500) :
    s.stock.Same s'.stock := by
  rcases h.cases with ⟨-, hsame⟩ | ⟨-, hsame⟩ | ⟨task, outcome, hasks, hbrings, hreplies⟩
  · exact hsame
  · exact hsame
  · obtain ⟨hle, hlt⟩ := (or_assoc.mpr hidle).resolve_left hasks.not_reads
    cases outcome with
    | ok answer =>
      obtain ⟨hstatus, -⟩ := hreplies
      omega
    | error fault =>
      have hstatus : response.status = statusOf fault.kind := hreplies
      cases hasks.spoils hs h hbrings with
      | nothing _ hsame => exact hsame
      | refused hrefused =>
        rw [hstatus, Service.statusOf_eq_502.mpr hrefused.kind] at hlt
        omega

/-- A request for a change that succeeds has its task done. -/
theorem Handles.performs (hs : Reachable s) (h : Handles s service request response s')
    (hchange : request.method = "POST" ∨ request.method = "PUT") (hlt : response.status < 300) :
    ∃ task answer piece, Asks request task ∧
      (service.manager.perform task).run.Brings s.stock (.ok answer) s'.stock ∧
      task.piece? answer = some piece ∧ task.Leaves s.stock piece s'.stock ∧
      response.content = .json (envelope (.ok (task.data answer))) := by
  rcases h.cases with ⟨⟨hstatus, -⟩, -⟩ | ⟨hmethod, -⟩ | ⟨task, outcome, hasks, hbrings, hreplies⟩
  · exact absurd hstatus (Nat.not_le.mpr hlt)
  · rcases hchange with hpost | hput
    · exact absurd (hpost ▸ hmethod) (by decide)
    · exact absurd (hput ▸ hmethod) (by decide)
  · cases outcome with
    | ok answer =>
      obtain ⟨piece, hpiece, hleaves⟩ := hasks.leaves hs h hbrings
      exact ⟨task, answer, piece, hasks, hbrings, hpiece, hleaves, hreplies.2⟩
    | error fault =>
      have hstatus : response.status = statusOf fault.kind := hreplies
      have hle := Service.three_hundred_le_statusOf fault.kind
      omega

/-- When the ledger fails, at most the piece that was to be submitted is different. -/
theorem Handles.spoils (hs : Reachable s) (h : Handles s service request response s')
    (hbad : response.status = 502) :
    (∀ id proofSet, ¬ Asks request (.submit id proofSet)) ∧ s.stock.Same s'.stock ∨
    ∃ id proofSet piece, Asks request (.submit id proofSet) ∧ piece.status = .error ∧
      s.stock.store.table.Writes piece (some id) s'.stock.store.table ∧
      s'.stock.store.shelf.blobs = s.stock.store.shelf.blobs ∧ s'.stock.taken = s.stock.taken := by
  rcases h.cases with ⟨⟨-, hledger⟩, -⟩ | ⟨hmethod, hsame⟩ | ⟨task, outcome, hasks, hbrings, hreplies⟩
  · exact absurd hbad hledger
  · exact Or.inl ⟨fun _ _ hasks ↦ hasks.not_reads hmethod, hsame⟩
  · cases outcome with
    | ok answer =>
      obtain ⟨hstatus, -⟩ := hreplies
      omega
    | error fault =>
      have hstatus : response.status = statusOf fault.kind := hreplies
      have hkind := Service.statusOf_eq_502.mp (hstatus.symm.trans hbad)
      cases hasks.spoils hs h hbrings with
      | nothing hnot hsame =>
        have hother : ¬ task.IsSubmission := hnot.resolve_right (not_not_intro hkind)
        exact Or.inl ⟨fun id proofSet hsubmit ↦ hother (hasks.isSubmission hsubmit), hsame⟩
      | refused hrefused =>
        obtain ⟨piece, hwrites, herror⟩ := hrefused.table
        exact Or.inr ⟨_, _, piece, hasks, herror, hwrites, hrefused.blobs, hrefused.taken⟩

/-- **Requests change nothing but what they are for.**

In every state of the traffic, a request that is handled alone and that the storage does not fail leaves the
table, the blobs and what the ledger took as they were if it only reads, or if its answer blames the request.  A
request for a change that succeeds is as good as one task of the manager, done alone: one row is written, that of
the piece that the request names or a new one, and what is told is the piece in that row.  A failure of the ledger
changes nothing, unless a piece was to be submitted: then its row, and nothing else, is in the status of an
error. -/
theorem requests_keep_frame (hs : Reachable s) (h : Handles s service request response s') :
    (request.method = "GET" ∨ request.method = "HEAD" ∨ 400 ≤ response.status ∧ response.status < 500 →
      s.stock.Same s'.stock) ∧
    (request.method = "POST" ∨ request.method = "PUT" → 200 ≤ response.status → response.status < 300 →
      ∃ task answer piece, Asks request task ∧
        (service.manager.perform task).run.Brings s.stock (.ok answer) s'.stock ∧
        task.piece? answer = some piece ∧ task.Leaves s.stock piece s'.stock ∧
        response.content = .json (envelope (.ok (task.data answer)))) ∧
    (response.status = 502 →
      (∀ id proofSet, ¬ Asks request (.submit id proofSet)) ∧ s.stock.Same s'.stock ∨
      ∃ id proofSet piece, Asks request (.submit id proofSet) ∧ piece.status = .error ∧
        s.stock.store.table.Writes piece (some id) s'.stock.store.table ∧
        s'.stock.store.shelf.blobs = s.stock.store.shelf.blobs ∧ s'.stock.taken = s.stock.taken) :=
  ⟨h.same hs, fun hchange _ hlt ↦ h.performs hs hchange hlt, h.spoils hs⟩

/-! ### The first request -/

/-- A request for a piece of which nothing is declared. -/
def firstRequest : Http.Request := { method := "POST", address := "/pieces" }

/-- The piece that is made for it. -/
def firstPiece : Piece := .prepare "a" none none .epoch

theorem ofPath_pieces : Route.ofPath? "/pieces" = some .pieces := by
  have hparts : "/pieces".splitOn "/" = ["", "pieces"] :=
    (Text.splitOn_singleton "/pieces" '/').trans (by decide +kernel)
  simp only [Route.ofPath?, hparts]
  rfl

theorem handle_firstRequest (service : Service) : service.handle firstRequest =
    (Service.answer 201 Piece.toJson (Operation.prepare (.declared none))).bind fun response ↦ .done response := by
  have htarget : firstRequest.target = ("/pieces", "") := rfl
  rw [Service.handle, htarget]
  simp only [ofPath_pieces]
  rfl

theorem brings_firstPiece : (Operation.prepare (.declared none)).run.Brings {} (.ok firstPiece)
    { store := { table := Table.add {} firstPiece } } :=
  .ask (.outside .freshId "a" trivial nofun) (.ask (.outside .now .epoch trivial nofun)
    (.ask (.table (.insert firstPiece)) (.done _ _)))

theorem requests_keep_frame_first_piece : ∃ response s' piece,
    Handles {} ⟨Run.keeper, 0⟩ firstRequest response s' ∧ response.status = 201 ∧
    s'.stock.store.table.rows = [.ofPiece piece] := by
  have hfree : IsLockFree (Service.handle ⟨Run.keeper, 0⟩ firstRequest) := by
    rw [handle_firstRequest]
    refine ⟨fun _ ↦ ⟨nofun, nofun⟩, fun _ ↦ ⟨fun _ ↦ ⟨nofun, nofun⟩, fun _ ↦ ⟨fun _ ↦ ⟨nofun, nofun⟩, ?_⟩⟩⟩
    intro inserted
    cases inserted with
    | ok _ => trivial
    | error _ => trivial
  have hbrings : (Service.handle ⟨Run.keeper, 0⟩ firstRequest).Brings {}
      ⟨201, .json (envelope (.ok firstPiece.toJson)), true⟩ { store := { table := Table.add {} firstPiece } } := by
    rw [handle_firstRequest]
    exact Call.brings_bind.mpr ⟨_, _, Call.brings_bind.mpr ⟨_, _, brings_firstPiece, .done _ _⟩, .done _ _⟩
  obtain ⟨s', hhandles, -⟩ := @handles_of_isLockFree {} _ _ _ _ ⟨rfl, rfl⟩ hfree hbrings
  obtain ⟨-, hchange, -⟩ := requests_keep_frame .refl hhandles
  obtain ⟨task, answer, piece, -, -, -, hleaves, -⟩ := hchange (Or.inl rfl) (by decide) (by decide)
  refine ⟨_, s', piece, hhandles, rfl, ?_⟩
  have hwrites := hleaves.table
  generalize s'.stock.store.table = table, task.named = named at hwrites ⊢
  cases hwrites with
  | created _ => rfl
  | changed hhas _ => cases hhas

end Traffic

end PieceKeeper
