import PieceKeeper.Store.Statement

/-!
# The piece table

Rows in the order of their creation.  No two rows have one id, and no two rows hold one
content.  A row changes only while it is in the status that the writer expects, and a piece is
claimed for a proof set only once.

The table says no when it cannot be reached, and single writes can be made to go wrong.
-/

namespace PieceKeeper

/-- Which writes go wrong. -/
inductive FaultyWrite where
  /-- Every insertion. -/
  | insertion
  /-- An update that writes a transaction. -/
  | transaction
  /-- An update that writes a status. -/
  | status (name : String)
  /-- Any change of one row. -/
  | row (id : String)
  deriving DecidableEq, Repr

/-- A disturbance of the table's writes: they fail, or else they are lost in silence. -/
structure Disturbance where
  target : FaultyWrite
  silent : Bool
  deriving DecidableEq, Repr

/-- The piece table. -/
structure Table where
  rows : List Row := []
  disturbance : Option Disturbance := none
  /-- What is said when the table cannot be reached. -/
  outage : Option String := none
  deriving DecidableEq, Repr

namespace Table

/-- What can be asked of the table. -/
inductive Command where
  | find (id : String)
  | findContent (contentId : String)
  | insert (piece : Piece)
  | update (piece : Piece) (expected : Status)
  | claim (id : String) (proofSet : UInt64) (rootCid : String) (now : Instant)
  | withStatus (status : Status)
  | first (limit : UInt64)

/-- What the table answers with. -/
abbrev Command.Answer : Command → Type
  | .find _ | .findContent _ => Option Piece
  | .insert _ => Unit
  | .update _ _ | .claim _ _ _ _ => Bool
  | .withStatus _ | .first _ => List Piece

/-! ## Reading -/

/-- Reads a row. -/
def readRow (row : Row) : Outcome Piece :=
  match Piece.ofCells row.answered with
  | .ok piece => .ok piece
  | .error detail => refuse (.database detail)

/-- Reads the first row that satisfies a test. -/
def findRow (table : Table) (test : Row → Bool) : Outcome (Option Piece) :=
  match table.rows.find? test with
  | none => .ok none
  | some row => return some (← readRow row)

/-- Reads rows, all or none. -/
def readRows (rows : List Row) : Outcome (List Piece) := rows.mapM readRow

/-- How many rows a limit admits: numbers that are negative as signed ones set no limit. -/
def admitted (limit : UInt64) (rows : List Row) : List Row :=
  if limit.toNat < Nat.pow 2 63 then rows.take limit.toNat else rows

/-! ## Writing -/

/-- A write that goes wrong. -/
def unavailable : Cause := .database "storage unavailable"

/-- Another row that has the same id or content. -/
def clash (id column : String) : Cause :=
  .conflict ("piece " ++ id ++ " violates a uniqueness constraint: UNIQUE constraint failed: pieces."
    ++ column)

/-- Whether a row holds the content of another; absent contents never clash. -/
def sameContent (row other : Row) : Bool := row.contentId != .null && row.contentId == other.contentId

/-- Adds a row. -/
def insert (table : Table) (piece : Piece) : Outcome Unit × Table :=
  let row := Insertion.row piece
  match table.disturbance with
  | some ⟨.insertion, silent⟩ => (if silent then .ok () else refuse unavailable, table)
  | _ =>
    if table.rows.any (sameContent row) then (refuse (clash piece.id "content_id"), table)
    else if table.rows.any (·.id == row.id) then (refuse (clash piece.id "id"), table)
    else (.ok (), { table with rows := table.rows ++ [row] })

/-- Whether a disturbance hits an update that writes a row. -/
def Disturbance.hitsUpdate (written : Row) : FaultyWrite → Bool
  | .insertion => false
  | .transaction => written.transaction != .null
  | .status name => written.status == .text name
  | .row id => written.id == .text id

/-- Whether a disturbance hits a claim of a row. -/
def Disturbance.hitsClaim (id : String) : FaultyWrite → Bool
  | .row other => other == id
  | _ => false

/-- Writes a row in place of the one that satisfies a test, unless there is none or the write
goes wrong.  Tells whether a row was written. -/
def replace (table : Table) (test : Row → Bool) (hit : FaultyWrite → Bool) (change : Row → Row)
    (refusal : Row → Option Cause) : Outcome Bool × Table :=
  match table.rows.find? test with
  | none => (.ok false, table)
  | some row =>
    match table.disturbance.filter fun disturbance ↦ hit disturbance.target with
    | some disturbance => (if disturbance.silent then .ok false else refuse unavailable, table)
    | none =>
      match refusal row with
      | some cause => (refuse cause, table)
      | none =>
        (.ok true,
          { table with rows := table.rows.map fun row ↦ if test row then change row else row })

/-- Writes every cell of a piece but its id and the time of creation, if its row is in the
expected status. -/
def update (table : Table) (piece : Piece) (expected : Status) : Outcome Bool × Table :=
  let values := Change.updateValues piece expected
  let written := Change.update.written values
  table.replace (Change.update.admits values) (Disturbance.hitsUpdate written)
    (Change.update.apply values)
    (fun _ ↦
      if table.rows.any fun other ↦ other.id != written.id && sameContent written other then
        some (clash piece.id "content_id")
      else none)

/-- Claims an uploaded piece for a proof set, if nobody has claimed it. -/
def claim (table : Table) (id : String) (proofSet : UInt64) (rootCid : String) (now : Instant) :
    Outcome Bool × Table :=
  let values := Change.claimValues id proofSet rootCid now
  table.replace (Change.claim.admits values) (Disturbance.hitsClaim id) (Change.claim.apply values)
    (fun _ ↦ none)

/-! ## Running commands -/

/-- Does what a command asks of a table within reach. -/
def perform (table : Table) : (command : Command) → Outcome command.Answer × Table
  | .find id => (table.findRow (·.id == .text id), table)
  | .findContent contentId => (table.findRow (·.contentId == .text contentId), table)
  | .insert piece => table.insert piece
  | .update piece expected => table.update piece expected
  | .claim id proofSet rootCid now => table.claim id proofSet rootCid now
  | .withStatus status => (readRows (table.rows.filter (·.status == .text status.name)), table)
  | .first limit => (readRows (admitted limit table.rows), table)

/-- Refuses a table out of reach. -/
def reach (table : Table) : Outcome Unit :=
  match table.outage with
  | some detail => refuse (.database detail)
  | none => .ok ()

/-- Does what a command asks. -/
def run (table : Table) (command : Command) : Outcome command.Answer × Table :=
  match table.reach with
  | .error fault => (.error fault, table)
  | .ok () => table.perform command

end Table

end PieceKeeper
