import PieceKeeper.Fault
import PieceKeeper.Files
import PieceKeeper.Text.Quoted

/-!
# The shelf of blobs

Padded contents by the identifier of their commitment.  A blob is first written as a draft,
which nobody can read, and then published under its key in one step; so what is found under
a key is always whole.
-/

namespace PieceKeeper

/-- The stored blobs. -/
structure Shelf where
  /-- What is published, by key. -/
  blobs : List (String × Bytes) := []
  /-- What is being written, by number. -/
  drafts : List (Nat × Bytes) := []
  /-- The number of the next draft. -/
  next : Nat := 0
  /-- Whether something else stands where the blobs should be. -/
  blocked : Bool := false
  deriving DecidableEq, Repr

namespace Shelf

/-- What can be asked of the shelf. -/
inductive Command where
  /-- Whether something is published under a key. -/
  | holds (key : String)
  /-- Makes the place for a key. -/
  | makePlace (key : String)
  /-- The number of a new draft. -/
  | newDraft
  | writeDraft (draft : Nat) (key : String) (content : Bytes)
  | discard (draft : Nat)
  | publish (draft : Nat) (key : String)
  | read (key : String)

/-- What the shelf answers with. -/
abbrev Command.Answer : Command → Type
  | .holds _ => Bool
  | .makePlace _ => Except FileFailure Unit
  | .newDraft => Nat
  | .writeDraft _ _ _ => Except FileFailure Unit
  | .discard _ => Except FileFailure Unit
  | .publish _ _ => Except FileFailure Unit
  | .read _ => Except FileFailure Bytes

/-- The longest key whose draft still has a name that a file can have. -/
def longestKey : Nat := 224

/-- Does what a command asks. -/
def run (shelf : Shelf) : (command : Command) → command.Answer × Shelf
  | .holds key => ((shelf.blobs.lookup key).isSome && ¬ shelf.blocked, shelf)
  | .makePlace _ => (if shelf.blocked then .error .notDirectory else .ok (), shelf)
  | .newDraft => (shelf.next, { shelf with next := shelf.next + 1 })
  | .writeDraft draft key content =>
    if shelf.blocked then (.error .notDirectory, shelf)
    else if key.length > longestKey then (.error .nameTooLong, shelf)
    else (.ok (), { shelf with drafts := (draft, content) :: shelf.drafts })
  | .discard draft =>
    (if (shelf.drafts.lookup draft).isSome then .ok () else .error .missing,
      { shelf with drafts := shelf.drafts.filter (·.1 != draft) })
  | .publish draft key =>
    match shelf.drafts.lookup draft with
    | none => (.error .missing, shelf)
    | some content =>
      (.ok (),
        { shelf with
          blobs := (key, content) :: shelf.blobs.filter (·.1 != key)
          drafts := shelf.drafts.filter (·.1 != draft) })
  | .read key =>
    match shelf.blobs.lookup key with
    | some content => (if shelf.blocked then .error .missing else .ok content, shelf)
    | none => (.error .missing, shelf)

/-- Whether a key consists of ASCII letters and digits, at least one. -/
def isKey (key : String) : Bool :=
  ¬ key.isEmpty && key.toList.all fun c ↦ c.isAlphanum

/-- Refuses what is no key. -/
def checkKey (key : String) : Outcome Unit :=
  if isKey key then .ok () else refuse (.validation ("invalid blob key: " ++ Text.quote key))

/-- The directory and the name under which a key is stored: the directory has the last two
characters of the key as its name. -/
def place (key : String) : String × String :=
  (String.ofList (key.toList.drop (key.length - 2)), key)

/-- The names of the published blobs, in order. -/
def names (shelf : Shelf) : List String :=
  if shelf.blocked then []
  else
    (shelf.blobs.map fun (key, _) ↦ (place key).1 ++ "/" ++ key).mergeSort fun a b ↦ a ≤ b

/-- Takes a blob away behind everybody's back. -/
def erase (shelf : Shelf) (key : String) : Shelf :=
  { shelf with blobs := shelf.blobs.filter (·.1 != key) }

end Shelf

end PieceKeeper
