import PieceKeeper.Json.Basic

/-!
# Messages

What a service is asked and what it answers.  The content of an answer is kept as what it is,
a JSON value, bytes or plain text; its media type follows from that.
-/

namespace PieceKeeper.Http

/-- A request to a service. -/
structure Request where
  method : String
  /-- The address, of which path and query matter. -/
  address : String
  body : Bytes := []

namespace Request

/-- Drops the scheme and the host of an address that has them. -/
def dropHost (address : List Char) : List Char :=
  match address with
  | '/' :: _ => address
  | _ =>
    match address.dropWhile (· != ':') with
    | ':' :: '/' :: '/' :: rest => rest.dropWhile fun c ↦ c != '/' && c != '?'
    | _ => address

/-- Path and query of a request. -/
def target (request : Request) : String × String :=
  let address := (dropHost request.address.toList).takeWhile (· != '#')
  let (path, query) := address.span (· != '?')
  (if path.isEmpty then "/" else String.ofList path, String.ofList (query.drop 1))

end Request

/-- The content of an answer. -/
inductive Content where
  | nothing
  | json (value : Json)
  | bytes (value : Bytes)
  | text (value : String)

/-- The media type of a content; empty if there is none. -/
def Content.mediaType : Content → String
  | .nothing => ""
  | .json _ => "application/json"
  | .bytes _ => "application/octet-stream"
  | .text _ => "text/plain; charset=utf-8"

/-- An answer of a service. -/
structure Response where
  status : Nat
  content : Content := .nothing
  /-- Whether the content is sent along.  If not, only its type is told. -/
  isSent : Bool := true

end PieceKeeper.Http
