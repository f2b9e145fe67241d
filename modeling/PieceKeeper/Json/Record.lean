import PieceKeeper.Json.Basic

/-!
# Records in JSON

A record is written as an object with one member for each column.  Members with other keys
are ignored, and a column may not be given twice.  A record may also be written as an array
of its columns in order, of which the last ones may be left out when they have a default.
-/

namespace PieceKeeper.Json

/-- The columns of a record by their places; one that is not given is `none`.  Of an array at
least the first `needed` columns must be there. -/
def columns (names : List String) (needed : Nat) : Json → Option (List (Option Json))
  | .object members =>
    if names.all fun name ↦ (members.filter (·.1 == name)).length ≤ 1 then
      some (names.map fun name ↦ members.lookup name)
    else none
  | .array items =>
    if needed ≤ items.length ∧ items.length ≤ names.length then
      some (items.map some ++ List.replicate (names.length - items.length) none)
    else none
  | _ => none

/-- A column that must be given. -/
def required {α : Type} (read : Json → Option α) (column : Option Json) : Option α :=
  column.bind read

/-- A column that may be absent or null. -/
def optional {α : Type} (read : Json → Option α) : Option Json → Option (Option α)
  | none | some .null => some none
  | some json => (read json).map some

/-- What stands in messages for the reason why a text or a value is not what was expected. -/
def unexplained : String := "<detail>"

end PieceKeeper.Json
