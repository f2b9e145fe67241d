import PieceKeeper.Decimal.Shortest
import PieceKeeper.Json.Basic

/-!
# Values of settings

What a file or a variable sets: a tree of tables and lists, in which keys have small letters.
Values convert freely into the types that settings have, as long as nothing is lost but a
fraction.
-/

namespace PieceKeeper

/-- A value that something is set to. -/
inductive Setting where
  | nothing
  | bool (value : Bool)
  | integer (value : Int)
  | double (value : Double)
  | text (value : String)
  | list (items : List Setting)
  | table (members : List (String × Setting))
  deriving Inhabited, Repr

namespace Setting

/-! ## From JSON -/

/-- The number with a whole part and a fraction as it is read from JSON: no more digits count
than a word of 64 bits holds, and the power of ten is applied afterwards, which rounds again.
Numbers beyond all doubles are refused. -/
def jsonDouble? (negative : Bool) (digits : Nat) (power : Int) : Option Double :=
  let text := (toString digits).toList
  let kept := text.foldl
    (fun (kept : Nat × Nat) c ↦
      let n := 10 * kept.1 + (c.toNat - 0x30)
      if kept.2 = 0 ∧ n < UInt64.size then (n, 0) else (kept.1, kept.2 + 1)) (0, 0)
  let number := Double.ofRatio negative kept.1 1
  let power := power + kept.2
  let powerOfTen (n : Nat) : Nat × Nat :=
    match Double.ofRatio false (Nat.pow 10 n) 1 with
    | .finite _ significand exponent => Double.ratio significand exponent
    | _ => (1, 1)
  if number.isZero then some number
  else if 0 ≤ power then
    if 308 < power then none
    else
      let (p, q) := powerOfTen power.toNat
      match number.scale p q with
      | .infinite _ => none
      | number => some number
  else
    let divide (number : Double) (n : Nat) : Double :=
      let (p, q) := powerOfTen n
      number.scale q p
    let places := (-power).toNat
    if places ≤ 308 then some (divide number places)
    else if places ≤ 616 then some (divide (divide number 308) (places - 308))
    else some (.finite negative 0 Double.leastExponent)

/-- A whole number as it is read from JSON: beyond the signed numbers of 64 bits it becomes a
double. -/
def ofInteger (value : Int) : Setting :=
  if Int64.minValue.toInt ≤ value ∧ value ≤ Int64.maxValue.toInt then .integer value
  else .double (Double.ofRatio (value < 0) value.natAbs 1)

/-- The members of an object with the last of repeated keys only. -/
def lastOfEach {α : Type} (members : List (String × α)) : List (String × α) :=
  members.foldr
    (fun (key, value) rest ↦ if (rest.lookup key).isSome then rest else (key, value) :: rest) []

mutual

/-- Takes over a JSON value in which at most `room` arrays and objects lie inside each other. -/
def ofJson? (room : Nat) : Json → Option Setting
  | .null => some .nothing
  | .bool value => some (.bool value)
  | .integer value => some (ofInteger value)
  | .decimal negative digits power => (jsonDouble? negative digits power).map .double
  | .string value => some (.text value)
  | .unreadable => none
  | .array items => if room = 0 then none else (ofItems? (room - 1) items).map .list
  | .object members =>
    if room = 0 then none
    else (ofMembers? (room - 1) members).map fun members ↦ .table (lastOfEach members)

/-- Takes over the items of an array. -/
def ofItems? (room : Nat) : List Json → Option (List Setting)
  | [] => some []
  | item :: items => do return (← ofJson? room item) :: (← ofItems? room items)

/-- Takes over the members of an object. -/
def ofMembers? (room : Nat) : List (String × Json) → Option (List (String × Setting))
  | [] => some []
  | (key, value) :: members => do return (key, ← ofJson? room value) :: (← ofMembers? room members)

end

/-! ## Conversions -/

/-- Words for truth values, besides digits. -/
def boolOfWord? (word : String) : Option Bool :=
  match word.toLower with
  | "true" | "on" | "yes" => some true
  | "false" | "off" | "no" => some false
  | _ => none

/-- The number that decimal digits with an optional plus sign stand for. -/
def wholeOfText? (text : String) : Option Nat :=
  let digits :=
    match text.toList with
    | '+' :: digits => digits
    | digits => digits
  if digits.isEmpty ∨ ¬ digits.all Char.isDigit then none else some (Double.natOf digits)

/-- A value as an unsigned number of 64 bits. -/
def toUInt64? : Setting → Option UInt64
  | .bool value => some (if value then 1 else 0)
  | .integer value => if 0 ≤ value then some (UInt64.ofNat value.toNat) else none
  | .double value => some (UInt64.ofNat (value.toNatBelow UInt64.size))
  | .text value =>
    match boolOfWord? value with
    | some word => some (if word then 1 else 0)
    | none => do
      let n ← wholeOfText? value
      if n < UInt64.size then some (UInt64.ofNat n) else none
  | _ => none

/-- A value as a truth value. -/
def toBool? : Setting → Option Bool
  | .bool value => some value
  | .integer value => some (value != 0)
  | .double value => some (¬ value.isZero)
  | .text value =>
    if value = "1" then some true else if value = "0" then some false else boolOfWord? value
  | _ => none

/-- A value as a text. -/
def toText? : Setting → Option String
  | .bool value => some (if value then "true" else "false")
  | .integer value => some (toString value)
  | .double value => some value.text
  | .text value => some value
  | _ => none

/-- The columns of a section by their places: the members of a table, or the items of a list in
the order of the columns. -/
def columns? (names : List String) : Setting → Option (List (Option Setting))
  | .table members => some (names.map fun name ↦ members.lookup name)
  | .list items => some (names.zipIdx.map fun (_, place) ↦ items[place]?)
  | _ => none

end Setting

end PieceKeeper
