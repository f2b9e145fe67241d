import PieceKeeper.Json.Basic

/-!
# The wire

Requests that go out to a ledger and what comes back.  Replies are lined up beforehand and
given out one for each request, whatever it asks; when they are used up, nothing is found.
-/

namespace PieceKeeper

/-- A request to a ledger. -/
structure Query where
  method : String
  /-- Path and query of the address. -/
  target : String
  body : Option Json := none

/-- What comes back. -/
inductive Reply where
  | response (status : Nat) (mediaType : String) (body : Bytes)
  /-- The connection broke. -/
  | dropped

/-- Replies to come and requests seen. -/
structure Wire where
  replies : List Reply := []
  /-- The requests, the last one first. -/
  seen : List Query := []

namespace Wire

/-- Sends a request. -/
def send (wire : Wire) (query : Query) : Reply × Wire :=
  let seen := query :: wire.seen
  match wire.replies with
  | reply :: replies => (reply, { replies, seen })
  | [] => (.response 404 "application/json" [], { replies := [], seen })

/-- Lines up more replies. -/
def supply (wire : Wire) (replies : List Reply) : Wire :=
  { wire with replies := wire.replies ++ replies }

end Wire

end PieceKeeper
