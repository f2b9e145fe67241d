import PieceKeeper.Call

/-!
# Preparing a piece

A piece begins as a record without content.  The content is announced by its size, or read
later from a file that is there now.
-/

namespace PieceKeeper

/-- Where the content of a piece will come from. -/
inductive Source where
  /-- A file of the machine. -/
  | file (path : String)
  /-- An upload, whose size may be known. -/
  | declared (size : Option UInt64)
  deriving DecidableEq, Repr

namespace Source

/-- A file that cannot be read. -/
def unreadable (path : String) (failure : FileFailure) : Cause :=
  .validation ("cannot read source file " ++ path ++ ": " ++ failure.message)

/-- Checks a source and returns the path of its file and the size of the content, as far as
there are such. -/
def measure : Source → Attempt (Option String × Option UInt64)
  | .declared size =>
    if size = some 0 then
      Attempt.refuse (.validation "declared piece size must be greater than zero")
    else pure (none, size)
  | .file path => do
    Attempt.ask .pause
    match ← Attempt.ask (.findFile path) with
    | .error failure => Attempt.refuse (unreadable path failure)
    | .ok .directory =>
      Attempt.refuse (.validation ("source " ++ path ++ " is not a regular file"))
    | .ok (.file content) =>
      let size := UInt64.ofNat content.length
      if size = 0 then
        Attempt.refuse (.validation ("source file " ++ path ++ " is empty"))
      else pure (some path, some size)

end Source

namespace Operation

/-- Adds a new piece to the table. -/
def prepare (source : Source) : Attempt Piece := do
  let (path, size) ← source.measure
  let id ← Attempt.ask .freshId
  let now ← Attempt.ask .now
  let piece := Piece.prepare id path size now
  Attempt.table (.insert piece)
  return piece

/-- A piece that is not in the table. -/
def notFound (id : String) : Cause := .pieceNotFound id

/-- Reads a piece that must be in the table. -/
def find (id : String) : Attempt Piece := do
  match ← Attempt.table (.find id) with
  | some piece => return piece
  | none => Attempt.refuse (notFound id)

end Operation

end PieceKeeper
