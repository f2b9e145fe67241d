import PieceKeeper.Settings.Value

/-!
# Settings from the environment

Variables whose names begin with a mark set what the rest of their names leads to: two
underscores stand for the dot of a path.
-/

namespace PieceKeeper.Environment

/-- How the names of variables begin, in small letters. -/
def mark : String := "pieceport__"

/-- A signed number of 64 bits in decimal digits. -/
def integer? (text : String) : Option Int := do
  let (negative, digits) := Double.signed text.toList
  guard (¬ digits.isEmpty ∧ digits.all Char.isDigit)
  let magnitude : Int := Double.natOf digits
  let value := if negative then -magnitude else magnitude
  if Int64.minValue.toInt ≤ value ∧ value ≤ Int64.maxValue.toInt then some value else none

/-- The value of a variable: a truth value, a whole number, a number, or else a text. -/
def valueOf (text : String) : Setting :=
  if text.toLower = "true" then .bool true
  else if text.toLower = "false" then .bool false
  else
    match integer? text, Double.ofText? text with
    | some value, _ => .integer value
    | none, some value => .double value
    | none, none => .text text

/-- What variables set. -/
def settings (environment : List (String × String)) : List (String × Setting) :=
  environment.filterMap fun (name, text) ↦
    let name := name.toLower
    if name.startsWith mark then
      some (((name.drop mark.length).toString.replace "__" "."), valueOf text)
    else none

end PieceKeeper.Environment
