import PieceKeeper.Proofs.Service.Effects
import PieceKeeper.Service.Basic

/-!
# What requests order

A request for a change is an order for one task of the manager, which the request names with everything in it.  A
request that is handled alone is turned away before anything happens, or it only reads, or it does its task and
tells what came of it.  So what a request changes is what its task changes.
-/

namespace PieceKeeper

variable {α β : Type}

/-! ## Where calls lead -/

theorem Attempt.brings_bind {attempt : Attempt α} {next : α → Attempt β} {stock stock' : Stock}
    {outcome : Outcome β} (h : (attempt >>= next).run.Brings stock outcome stock') :
    (∃ fault, outcome = .error fault ∧ attempt.run.Brings stock (.error fault) stock') ∨
    ∃ answer between, attempt.run.Brings stock (.ok answer) between ∧
      (next answer).run.Brings between outcome stock' := by
  obtain ⟨first, between, hfirst, hnext⟩ := Call.brings_bind.mp h
  cases first with
  | ok answer => exact Or.inr ⟨answer, between, hfirst, hnext⟩
  | error fault =>
    cases hnext
    exact Or.inl ⟨fault, rfl, hfirst⟩

/-- A look for a piece changes nothing at all, and the ledger has no part in it. -/
theorem Operation.brings_find {id : String} {stock stock' : Stock} {outcome : Outcome Piece}
    (h : (find id).run.Brings stock outcome stock') :
    stock' = stock ∧ ∀ fault, outcome = .error fault → fault.kind ≠ .ledger := by
  have hensures : (find id).Ensures (fun _ stock' ↦ stock' = stock)
      (fun fault stock' ↦ stock' = stock ∧ fault.kind ≠ .ledger) stock := by
    refine Attempt.Ensures.bind (Attempt.ensures_query (.find id) trivial (fun found _ ↦ ?_)
      fun _ hfault ↦ ⟨rfl, Table.kind_find hfault⟩)
    cases found with
    | none => exact Attempt.ensures_refuse ⟨rfl, nofun⟩
    | some piece => exact Attempt.ensures_pure rfl
  have hend := hensures outcome stock' h
  cases outcome with
  | ok _ => exact ⟨hend, nofun⟩
  | error _ =>
    refine ⟨hend.1, fun fault hfault ↦ ?_⟩
    cases hfault
    exact hend.2

/-! ## Tasks about one piece -/

namespace Task

/-- The piece that a task for a change names. -/
def named : Task → Option String
  | .upload id _ | .uploadFromSource id | .submit id _ | .monitor id => some id
  | _ => none

/-- A task that puts a content on the shelf. -/
def IsUpload : Task → Prop
  | .upload _ _ | .uploadFromSource _ => True
  | _ => False

/-- A task that the ledger is told of. -/
def IsSubmission : Task → Prop
  | .submit _ _ => True
  | _ => False

/-- The piece that a task tells of. -/
def piece? : (task : Task) → task.Answer → Option Piece
  | .prepare _, piece | .upload _ _, piece | .uploadFromSource _, piece | .submit _ _, piece => some piece
  | .monitor _, (piece, _) => some piece
  | _, _ => none

/-- What is told of a task that ended well. -/
def data : (task : Task) → task.Answer → Json
  | .prepare _, piece | .upload _ _, piece | .uploadFromSource _, piece | .submit _ _, piece => piece.toJson
  | .monitor _, (piece, finding) => Service.findingJson piece finding
  | _, _ => .null

end Task

namespace Service

open Http (Response)

/-- The task that a request with a body orders by a method of a route. -/
inductive Orders (body : Bytes) : Route → String → Task → Prop
  | prepare {source : Source} : sourceOf body = .ok source → Orders body .pieces "POST" (.prepare source)
  | upload {written id : String} : pieceId written = .ok id → Orders body (.piece written) "PUT" (.upload id body)
  | uploadFromSource {written id : String} : pieceId written = .ok id → body.isEmpty = true →
    Orders body (.piece written) "PUT" (.uploadFromSource id)
  | submit {written number id : String} {proofSet : UInt64} :
    pieceAndProofSet written number = .ok (id, proofSet) →
    Orders body (.proofSet written number) "POST" (.submit id proofSet)
  | monitor {written id : String} : pieceId written = .ok id →
    Orders body (.monitor written) "POST" (.monitor id)

/-- How it is told what came of a task. -/
def Replies (task : Task) : Outcome task.Answer → Response → Prop
  | .ok answer, response => (200 ≤ response.status ∧ response.status < 300) ∧
      response.content = .json (envelope (.ok (task.data answer)))
  | .error fault, response => response.status = statusOf fault.kind

/-- An answer that tells of no success, and of no fault of the ledger. -/
def IsRejection (response : Response) : Prop := 300 ≤ response.status ∧ response.status ≠ 502

/-- What comes of a request. -/
inductive Does (manager : Manager) (body : Bytes) (route : Route) (method : String) (stock : Stock) :
    Response → Stock → Prop
  | rejects {response : Response} : IsRejection response → Does manager body route method stock response stock
  | reads {response : Response} {stock' : Stock} : method = "GET" → stock.Same stock' →
    Does manager body route method stock response stock'
  | performs {task : Task} {outcome : Outcome task.Answer} {response : Response} {stock' : Stock} :
    Orders body route method task → (manager.perform task).run.Brings stock outcome stock' →
    Replies task outcome response → Does manager body route method stock response stock'

theorem Orders.method {body : Bytes} {route : Route} {method : String} {task : Task}
    (h : Orders body route method task) : method = "POST" ∨ method = "PUT" := by
  cases h with
  | prepare _ | submit _ | monitor _ => exact Or.inl rfl
  | upload _ | uploadFromSource _ _ => exact Or.inr rfl

/-- A method of a route orders only submissions, or none. -/
theorem Orders.isSubmission {body : Bytes} {route : Route} {method id : String} {task : Task} {proofSet : UInt64}
    (h : Orders body route method task) (hsubmit : Orders body route method (.submit id proofSet)) :
    task.IsSubmission := by
  cases hsubmit with
  | submit _ =>
    cases h with
    | submit _ => trivial

theorem three_hundred_le_statusOf (kind : FaultKind) : 300 ≤ statusOf kind := by
  cases kind <;> decide

theorem statusOf_eq_502 {kind : FaultKind} : statusOf kind = 502 ↔ kind = .ledger := by
  cases kind <;> decide

theorem isRejection_faultResponse {fault : Fault} (h : fault.kind ≠ .ledger) :
    IsRejection (faultResponse fault) :=
  ⟨three_hundred_le_statusOf fault.kind, fun hstatus ↦ h (statusOf_eq_502.mp hstatus)⟩

theorem kind_sourceOf {body : Bytes} {fault : Fault} (h : sourceOf body = .error fault) :
    fault.kind ≠ .ledger := by
  rw [sourceOf] at h
  split at h
  · cases h
  · dsimp only at h
    split at h
    · cases h
      nofun
    · cases h
      nofun
    · cases h
    · cases h

variable {manager : Manager} {body : Bytes} {route : Route} {method : String} {stock stock' : Stock}
  {response : Response}

/-- Whether the content is sent along makes no difference. -/
theorem Does.unsent (h : Does manager body route method stock response stock') :
    Does manager body route method stock { response with isSent := false } stock' := by
  cases h with
  | rejects hstatus => exact .rejects hstatus
  | reads hmethod hsame => exact .reads hmethod hsame
  | @performs task outcome _ _ horders hbrings hreplies =>
    refine .performs horders hbrings ?_
    cases outcome with
    | ok answer => exact hreplies
    | error fault => exact hreplies

/-! ## Answers -/

/-- The answer that an outcome leads to. -/
def reply (status : Nat) (encode : α → Json) : Outcome α → Response
  | .ok value => ⟨status, .json (envelope (.ok (encode value))), true⟩
  | .error fault => faultResponse fault

theorem brings_answer {status : Nat} {encode : α → Json} {attempt : Attempt α}
    (h : (answer status encode attempt).Brings stock response stock') :
    ∃ outcome, attempt.run.Brings stock outcome stock' ∧ response = reply status encode outcome := by
  obtain ⟨outcome, between, hattempt, hreply⟩ := Call.brings_bind.mp h
  cases outcome with
  | ok value =>
    cases hreply
    exact ⟨_, hattempt, rfl⟩
  | error fault =>
    cases hreply
    exact ⟨_, hattempt, rfl⟩

/-- What is told of a task comes from its outcome. -/
theorem replies_reply {task : Task} {status : Nat} (hstatus : 200 ≤ status ∧ status < 300)
    (outcome : Outcome task.Answer) : Replies task outcome (reply status task.data outcome) := by
  cases outcome with
  | ok answer => exact ⟨hstatus, rfl⟩
  | error fault => rfl

theorem does_of_answer {task : Task} {status : Nat} (hstatus : 200 ≤ status ∧ status < 300)
    (horders : Orders body route method task)
    (h : (answer status task.data (manager.perform task)).Brings stock response stock') :
    Does manager body route method stock response stock' := by
  obtain ⟨outcome, hbrings, rfl⟩ := brings_answer h
  exact .performs horders hbrings (replies_reply hstatus outcome)

/-- An attempt that changes nothing, whatever it is answered with. -/
theorem does_of_reading {status : Nat} {encode : α → Json} {attempt : Attempt α} (hmethod : method = "GET")
    (hattempt : attempt.Ensures (fun _ ↦ stock.Same) (fun _ ↦ stock.Same) stock)
    (h : (answer status encode attempt).Brings stock response stock') :
    Does manager body route method stock response stock' := by
  obtain ⟨outcome, hbrings, rfl⟩ := brings_answer h
  have hend := hattempt outcome stock' hbrings
  refine .reads hmethod ?_
  cases outcome with
  | ok _ => exact hend
  | error _ => exact hend

theorem does_of_withName {name : Except NameFault α} {next : α → Call Response}
    (h : (withName name next).Brings stock response stock')
    (hnext : ∀ value, name = .ok value → (next value).Brings stock response stock' →
      Does manager body route method stock response stock') :
    Does manager body route method stock response stock' := by
  cases name with
  | ok value => exact hnext value rfl h
  | error fault =>
    cases h
    exact .rejects ⟨(by decide : 300 ≤ 400), (by decide : 400 ≠ 502)⟩

theorem does_of_withBody {service : Service} {next : Bytes → Call Response}
    (h : (service.withBody body next).Brings stock response stock')
    (hnext : (next body).Brings stock response stock' → Does manager body route method stock response stock') :
    Does manager body route method stock response stock' := by
  rw [withBody] at h
  split at h
  · cases h
    exact .rejects ⟨by decide, by decide⟩
  · exact hnext h

/-! ## Requests -/

theorem ensures_get {id : String} : (manager.get id).Ensures (fun _ ↦ stock.Same) (fun _ ↦ stock.Same) stock := by
  intro outcome stock' hbrings
  obtain ⟨rfl, -⟩ := Operation.brings_find hbrings
  cases outcome with
  | ok _ => exact .refl stock'
  | error _ => exact .refl stock'

theorem ensures_list {limit : Option UInt64} :
    (manager.list limit).Ensures (fun _ ↦ stock.Same) (fun _ ↦ stock.Same) stock :=
  Attempt.ensures_query (.first _) trivial (fun _ _ ↦ .refl stock) fun _ _ ↦ .refl stock

theorem ensures_content {id : String} :
    (manager.content id).Ensures (fun _ ↦ stock.Same) (fun _ ↦ stock.Same) stock := by
  refine Attempt.Ensures.bind (Attempt.Ensures.mono ensures_get (fun piece between hsame ↦ ?_)
    fun _ _ hsame ↦ hsame)
  split
  · exact Attempt.ensures_refuse hsame
  · refine Attempt.Ensures.within (Attempt.Ensures.mono Operation.ensures_unshelve ?_ ?_)
    · exact fun _ _ hsame' ↦ hsame.trans hsame'
    · exact fun _ _ hsame' ↦ hsame.trans hsame'

theorem brings_content {id : String} (h : (content manager id).Brings stock response stock') :
    stock.Same stock' := by
  obtain ⟨outcome, between, hattempt, hreply⟩ := Call.brings_bind.mp h
  have hend := ensures_content outcome between hattempt
  cases outcome with
  | ok _ =>
    cases hreply
    exact hend
  | error _ =>
    cases hreply
    exact hend

/-- An upload is one of two tasks, unless there is no such piece. -/
theorem does_of_upload {written id : String} (hname : pieceId written = .ok id)
    (h : (answer 200 Piece.toJson (upload manager id body)).Brings stock response stock') :
    Does manager body (.piece written) "PUT" stock response stock' := by
  obtain ⟨outcome, hbrings, rfl⟩ := brings_answer h
  rw [upload] at hbrings
  split at hbrings
  · rename_i hempty
    rcases Attempt.brings_bind hbrings with ⟨fault, rfl, hget⟩ | ⟨piece, between, hget, hrest⟩
    · obtain ⟨rfl, hkind⟩ := Operation.brings_find hget
      exact .rejects (isRejection_faultResponse (hkind fault rfl))
    · obtain ⟨rfl, -⟩ := Operation.brings_find hget
      split at hrest
      · exact .performs (.uploadFromSource hname hempty) hrest
          (@replies_reply (.uploadFromSource id) 200 (by decide) outcome)
      · exact .performs (.upload hname) hrest (@replies_reply (.upload id body) 200 (by decide) outcome)
  · exact .performs (.upload hname) hbrings (@replies_reply (.upload id body) 200 (by decide) outcome)

/-- What comes of a request by a method of a route. -/
theorem does_of_perform {service : Service} {query : String} {call : Call Response}
    (hcall : service.perform route method query body = some call)
    (h : call.Brings stock response stock') : Does service.manager body route method stock response stock' := by
  unfold perform at hcall
  split at hcall
  · cases hcall
    cases h
    exact .reads rfl (.refl _)
  · cases hcall
    split at h
    · exact does_of_reading rfl ensures_list h
    · cases h
      exact .reads rfl (.refl _)
  · cases hcall
    refine does_of_withBody h fun h ↦ ?_
    cases hsource : sourceOf body with
    | error fault =>
      rw [hsource] at h
      obtain ⟨outcome, hbrings, rfl⟩ := brings_answer h
      cases hbrings
      exact .rejects (isRejection_faultResponse (kind_sourceOf hsource))
    | ok source =>
      rw [hsource] at h
      exact does_of_answer (by decide) (.prepare hsource) h
  · cases hcall
    exact does_of_withName h fun _ _ h ↦ does_of_reading rfl ensures_get h
  · cases hcall
    exact does_of_withName h fun id hname h ↦ does_of_withBody h (does_of_upload hname)
  · cases hcall
    exact does_of_withName h fun _ _ h ↦ .reads rfl (brings_content h)
  · cases hcall
    exact does_of_withName h fun _ hname h ↦ does_of_answer (by decide) (.submit hname) h
  · cases hcall
    exact does_of_withName h fun _ _ h ↦ does_of_reading rfl ensures_get h
  · cases hcall
    exact does_of_withName h fun _ hname h ↦ does_of_answer (by decide) (.monitor hname) h
  · cases hcall

/-- The method that a request is answered by. -/
def methodOf (request : Http.Request) : String := if request.method = "HEAD" then "GET" else request.method

theorem methodOf_eq_get {request : Http.Request} :
    methodOf request = "GET" ↔ request.method = "GET" ∨ request.method = "HEAD" := by
  rw [methodOf]
  split
  · rename_i hhead
    exact iff_of_true rfl (Or.inr hhead)
  · rename_i hhead
    exact (or_iff_left hhead).symm

theorem methodOf_eq {request : Http.Request} {task : Task}
    (h : Orders body route (methodOf request) task) : methodOf request = request.method := by
  rw [methodOf]
  split
  · rename_i hhead
    rw [methodOf, if_pos hhead] at h
    exact absurd h.method (by decide)
  · rfl

/-- What comes of a request: nothing, or what comes of it by its route. -/
theorem does_of_handle {service : Service} {request : Http.Request}
    (h : (service.handle request).Brings stock response stock') :
    (IsRejection response ∧ stock' = stock) ∨
    ∃ route, Route.ofPath? request.target.1 = some route ∧
      Does service.manager request.body route (methodOf request) stock response stock' := by
  rw [handle] at h
  dsimp only at h
  split at h
  · cases h
    exact Or.inl ⟨⟨by decide, by decide⟩, rfl⟩
  · rename_i route hroute
    split at h
    · cases h
      exact Or.inl ⟨⟨by decide, by decide⟩, rfl⟩
    · rename_i call hcall
      refine Or.inr ⟨route, hroute, ?_⟩
      obtain ⟨first, between, hfirst, hlast⟩ := Call.brings_bind.mp h
      have hdoes : Does service.manager request.body route (methodOf request) stock first between := by
        have hperform : service.perform route (methodOf request) request.target.2 request.body = some call := by
          simpa [methodOf] using hcall
        exact does_of_perform hperform hfirst
      cases hlast
      split
      · exact hdoes.unsent
      · exact hdoes

end Service

end PieceKeeper
