import PieceKeeper.Fault
import PieceKeeper.Http.MediaType
import PieceKeeper.Http.Status
import PieceKeeper.Json.Reader
import PieceKeeper.Ledger.Transaction
import PieceKeeper.Ledger.Wire
import PieceKeeper.Url.Basic

/-!
# The ledger at an address

A ledger that is reached by HTTP: a root is posted to the roots of its proof set, and a
transaction is asked for by its hash.
-/

namespace PieceKeeper

/-- Where a ledger is reached. -/
structure Endpoint where
  /-- The beginning of every address, without a slash at its end. -/
  base : String
  deriving DecidableEq, Repr

namespace Endpoint

/-- An endpoint with a base, around which blanks do not count. -/
def create (base : String) : Outcome Endpoint :=
  let base := String.ofList (Text.dropEnd (· == '/') (Text.trim base).toList)
  if base.isEmpty then refuse (.config "ledger base url cannot be empty") else .ok ⟨base⟩

/-! ## Talking -/

/-- An address that cannot be read. -/
def unreadableAddress : Cause := .http "builder error"

/-- An address that no request can be made to. -/
def badAddress (url : Url) : Cause := .http ("builder error for url (" ++ url.text ++ ")")

/-- A connection that broke. -/
def broken (url : Url) : Cause := .http ("error sending request for url (" ++ url.text ++ ")")

/-- A response that came back. -/
structure Response where
  status : Nat
  mediaType : String
  body : Bytes

/-- The body as text, without blanks around it. -/
def Response.text (response : Response) : String :=
  Text.trim ((Http.charsetOf response.mediaType).decode response.body)

/-- The status and the text of a response. -/
def Response.summary (response : Response) : String :=
  Http.statusText response.status ++ " " ++ response.text

/-- Sends a request to an address behind the base. -/
def send (endpoint : Endpoint) (wire : Wire) (method path : String) (body : Option Json) :
    Outcome Response × Wire :=
  match Url.parse? (endpoint.base ++ path) with
  | none => (refuse unreadableAddress, wire)
  | some url =>
    if url.isRequestable then
      match wire.send { method, target := url.target, body } with
      | (.dropped, wire) => (refuse (broken url), wire)
      | (.response status mediaType body, wire) =>
        (.ok ⟨status, mediaType, if Http.isBodiless status then [] else body⟩, wire)
    else (refuse (badAddress url), wire)

/-! ## Submitting -/

/-- A body that is not what was expected. -/
def undecodable : String := "error decoding response body"

/-- A refused submission. -/
def refusal (proofSet : UInt64) (response : Response) : Cause :=
  .ledger ("root submission to proof set " ++ toString proofSet.toNat ++ " rejected: "
    ++ response.summary)

/-- The hash in the answer to a submission. -/
def hashOf? (body : Bytes) : Option String := do
  let [hash] ← (← Json.parse? body).columns ["tx_hash"] 1 | none
  Json.required Json.string? hash

/-- Reads the answer to a submission. -/
def readSubmission (proofSet : UInt64) (response : Response) : Outcome String :=
  if ¬ Http.isSuccess response.status then refuse (refusal proofSet response)
  else
    match hashOf? response.body with
    | none => refuse (.ledger ("invalid submission response: " ++ undecodable))
    | some hash =>
      if (Text.trim hash).isEmpty then
        refuse (.ledger "ledger accepted submission without a transaction hash")
      else .ok hash

/-- Submits a root. -/
def submit (endpoint : Endpoint) (wire : Wire) (proofSet : UInt64) (root : Root) :
    Outcome String × Wire :=
  let path := "/proof-sets/" ++ toString proofSet.toNat ++ "/roots"
  let body := Json.object [("roots", .array [root.toJson])]
  let (response, wire) := endpoint.send wire "POST" path (some body)
  (response.bind (readSubmission proofSet), wire)

/-! ## Asking for transactions -/

/-- A record that cannot be read. -/
def badRecord (hash : String) : Cause :=
  .ledger ("invalid transaction record for " ++ hash ++ ": " ++ undecodable)

/-- A question that was not answered. -/
def lookupFailure (hash : String) (response : Response) : Cause :=
  .ledger ("transaction lookup for " ++ hash ++ " failed: " ++ response.summary)

/-- Reads the answer to the question for a transaction. -/
def readLookup (hash : String) (response : Response) : Outcome (Option TransactionRecord) :=
  if response.status = 404 then .ok none
  else if ¬ Http.isSuccess response.status then refuse (lookupFailure hash response)
  else
    match (Json.parse? response.body).bind TransactionRecord.ofJson? with
    | some record => .ok (some record)
    | none => refuse (badRecord hash)

/-- Asks for a transaction. -/
def lookup (endpoint : Endpoint) (wire : Wire) (hash : String) :
    Outcome (Option TransactionRecord) × Wire :=
  let (response, wire) := endpoint.send wire "GET" ("/transactions/" ++ hash) none
  (response.bind (readLookup hash), wire)

end Endpoint

end PieceKeeper
