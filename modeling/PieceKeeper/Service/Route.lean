import PieceKeeper.Text.Numeral
import PieceKeeper.Text.Percent
import PieceKeeper.Text.Quoted

/-!
# Routes

The paths that the service knows.  A name in a path must not be empty; it is what stands
behind its escapes, which must spell a text.
-/

namespace PieceKeeper.Service

/-- A path that the service knows, with the names in it as they were written. -/
inductive Route where
  | health
  | pieces
  | piece (id : String)
  | content (id : String)
  | proofSet (id number : String)
  | transaction (id : String)
  | monitor (id : String)
  deriving DecidableEq, Repr

/-- The route of a path, if there is one. -/
def Route.ofPath? (path : String) : Option Route :=
  let route? : Option Route :=
    match path.splitOn "/" with
    | ["", "health"] => some .health
    | ["", "pieces"] => some .pieces
    | ["", "pieces", id] => some (.piece id)
    | ["", "pieces", id, "content"] => some (.content id)
    | ["", "pieces", id, "proofset", number] => some (.proofSet id number)
    | ["", "pieces", id, "transaction", "status"] => some (.transaction id)
    | ["", "pieces", id, "transaction", "monitor"] => some (.monitor id)
    | _ => none
  route?.filter fun
    | .health | .pieces => true
    | .piece id | .content id | .transaction id | .monitor id => id ≠ ""
    | .proofSet id number => id ≠ "" ∧ number ≠ ""

/-- What is wrong with a name in a path. -/
inductive NameFault where
  | notText (name : String)
  | notNumber (place : Nat) (value : String)
  deriving DecidableEq, Repr

/-- The text of what is wrong with a name. -/
def NameFault.message : NameFault → String
  | .notText name => "Invalid URL: Invalid UTF-8 in \x60" ++ name ++ "\x60"
  | .notNumber place value =>
    "Invalid URL: Cannot parse value at index " ++ toString place ++ " with value \x60"
      ++ Text.quote value ++ "\x60 to a \x60u64\x60"

/-- The text of a name. -/
def nameText (name written : String) : Except NameFault String :=
  match Percent.decodeText? written with
  | some text => .ok text
  | none => .error (.notText name)

/-- The id of a piece. -/
def pieceId (written : String) : Except NameFault String := nameText "id" written

/-- The id of a piece and the number of a proof set. -/
def pieceAndProofSet (id number : String) : Except NameFault (String × UInt64) := do
  let id ← pieceId id
  let number ← nameText "proof_set_id" number
  match Numeral.parseUInt64 number with
  | .ok value => .ok (id, value)
  | .error _ => .error (.notNumber 1 number)

end PieceKeeper.Service
