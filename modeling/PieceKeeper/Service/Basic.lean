import PieceKeeper.Http.Form
import PieceKeeper.Http.Message
import PieceKeeper.Json.Reader
import PieceKeeper.Manager
import PieceKeeper.Piece.Format
import PieceKeeper.Service.Route

/-!
# The service

The manager over HTTP.  Answers are JSON in an envelope that tells success from failure; only
the content of a piece is answered as it is.
-/

namespace PieceKeeper

/-- A service: a manager and the number of bytes of the largest body that it takes. -/
structure Service where
  manager : Manager
  maxBody : Nat

namespace Service

open Http (Response)

/-! ## Answers -/

/-- The envelope of an answer: what was asked for, or what went wrong. -/
def envelope : Except String Json → Json
  | .ok data => .object [("success", .bool true), ("data", data), ("error", .null)]
  | .error message => .object [("success", .bool false), ("data", .null), ("error", .string message)]

/-- The status of an answer that tells of a fault. -/
def statusOf : FaultKind → Nat
  | .validation => 400
  | .notFound => 404
  | .conflict | .state => 409
  | .ledger => 502
  | .persistence | .internal => 500

/-- An answer that tells of a fault. -/
def faultResponse (fault : Fault) : Response :=
  ⟨statusOf fault.kind, .json (envelope (.error fault.message)), true⟩

/-- An answer in plain text to a request that makes no sense. -/
def badRequest (message : String) : Response := ⟨400, .text message, true⟩

/-- An answer to a request whose body is too large. -/
def tooLarge : Response :=
  ⟨413, .json (envelope (.error "Failed to buffer the request body: length limit exceeded")), true⟩

/-- The answer that the outcome of an attempt leads to. -/
def answer {α : Type} (status : Nat) (encode : α → Json) (attempt : Attempt α) : Call Response := do
  match ← attempt.run with
  | .ok value => return ⟨status, .json (envelope (.ok (encode value))), true⟩
  | .error fault => return faultResponse fault

/-- The answer to a request that names something, unless the name makes no sense. -/
def withName {α : Type} (name : Except NameFault α) (next : α → Call Response) : Call Response :=
  match name with
  | .ok value => next value
  | .error fault => return badRequest fault.message

/-- The answer to a request with a body, unless it is too large. -/
def withBody (service : Service) (body : Bytes) (next : Bytes → Call Response) : Call Response :=
  if service.maxBody < body.length then return tooLarge else next body

/-! ## Requests -/

/-- A body that is no request for a new piece. -/
def badPrepareRequest : Cause := .validation ("invalid prepare request: " ++ Json.unexplained)

/-- The source that the body of a request for a new piece names. -/
def sourceOf (body : Bytes) : Outcome Source :=
  if body.isEmpty then .ok (.declared none)
  else
    let members : Option (Option String × Option UInt64) := do
      let [path, size] ← (← Json.parse? body).columns ["source_path", "size"] 0 | none
      return (← Json.optional Json.string? path, ← Json.optional Json.uint64? size)
    match members with
    | none => refuse badPrepareRequest
    | some (some _, some _) =>
      refuse (.validation "specify either source_path or size, not both")
    | some (some path, none) => .ok (.file path)
    | some (none, size) => .ok (.declared size)

/-- Why a query is refused. -/
inductive QueryFault where
  | repeated
  | badLimit (failure : NumeralFailure)
  deriving DecidableEq, Repr

/-- The text of a refusal. -/
def QueryFault.message : QueryFault → String
  | .repeated => "Failed to deserialize query string: duplicate field \x60limit\x60"
  | .badLimit failure => "Failed to deserialize query string: " ++ failure.message

/-- The limit that a query sets. -/
def limitOf (query : String) : Except QueryFault (Option UInt64) :=
  (Http.formPairs query).foldlM
    (fun limit (name, value) ↦
      if name ≠ "limit" then .ok limit
      else if limit.isSome then .error .repeated
      else
        match Numeral.parseUInt64 value with
        | .ok limit => .ok (some limit)
        | .error failure => .error (.badLimit failure)) none

/-- Uploads a body; an empty one stands for the file that the piece was prepared from. -/
def upload (manager : Manager) (id : String) (body : Bytes) : Attempt Piece :=
  if body.isEmpty then do
    let piece ← manager.get id
    if piece.sourcePath.isSome then manager.uploadFromSource id else manager.upload id body
  else manager.upload id body

/-- What is found out about a piece. -/
def findingJson (piece : Piece) (finding : Finding) : Json :=
  .object [("outcome", .string finding.name), ("piece", piece.toJson)]

/-- The answer to the request for the content of a piece. -/
def content (manager : Manager) (id : String) : Call Response := do
  match ← (manager.content id).run with
  | .ok content => return ⟨200, .bytes content, true⟩
  | .error fault => return faultResponse fault

/-- The answer to a request by one of the methods of a route; none for another method. -/
def perform (service : Service) (route : Route) (method query : String) (body : Bytes) :
    Option (Call Response) :=
  let manager := service.manager
  match route, method with
  | .health, "GET" => some (return ⟨200, .json (.object [("status", .string "ok")]), true⟩)
  | .pieces, "GET" =>
    some <|
      match limitOf query with
      | .ok limit => answer 200 (fun pieces ↦ .array (pieces.map Piece.toJson)) (manager.list limit)
      | .error fault => return badRequest fault.message
  | .pieces, "POST" =>
    some <| service.withBody body fun body ↦
      answer 201 Piece.toJson (Attempt.ofOutcome (sourceOf body) >>= manager.prepare)
  | .piece id, "GET" => some <| withName (pieceId id) fun id ↦
    answer 200 Piece.toJson (manager.get id)
  | .piece id, "PUT" =>
    some <| withName (pieceId id) fun id ↦ service.withBody body fun body ↦
      answer 200 Piece.toJson (upload manager id body)
  | .content id, "GET" => some <| withName (pieceId id) (content manager)
  | .proofSet id number, "POST" =>
    some <| withName (pieceAndProofSet id number) fun (id, proofSet) ↦
      answer 200 Piece.toJson (manager.submit id proofSet)
  | .transaction id, "GET" =>
    some <| withName (pieceId id) fun id ↦
      answer 200 (fun (piece : Piece) ↦ piece.summary.toJson) (manager.get id)
  | .monitor id, "POST" =>
    some <| withName (pieceId id) fun id ↦
      answer 200 (fun (piece, finding) ↦ findingJson piece finding) (manager.monitor id)
  | _, _ => none

/-- Answers a request.  A request for the head alone is answered like one for the whole, without
the content. -/
def handle (service : Service) (request : Http.Request) : Call Response :=
  let (path, query) := request.target
  let isHead := request.method = "HEAD"
  let method := if isHead then "GET" else request.method
  match Route.ofPath? path with
  | none => return { status := 404 }
  | some route =>
    match service.perform route method query request.body with
    | none => return { status := 405 }
    | some call => do
      let response ← call
      return if isHead then { response with isSent := false } else response

end Service

end PieceKeeper
