import PieceKeeper.Bytes.Hex

/-!
# JSON values

A JSON value keeps the order of its members and every repetition of a key, so that each
reader can say itself what a repetition means.  Whole numbers are kept apart from numbers
that were written with a fraction or an exponent.
-/

namespace PieceKeeper

/-- A JSON value. -/
inductive Json where
  | null
  | bool (value : Bool)
  | integer (value : Int)
  /-- The number `digits * 10 ^ exponent`, with its sign; also the zero written `-0`. -/
  | decimal (negative : Bool) (digits : Nat) (exponent : Int)
  | string (value : String)
  /-- A string literal whose bytes or escapes spell no text.  It can only be ignored. -/
  | unreadable
  | array (items : List Json)
  | object (members : List (String × Json))
  deriving Inhabited, Repr

namespace Json

instance : Coe String Json := ⟨.string⟩
instance : Coe Bool Json := ⟨.bool⟩

/-- A natural number. -/
def ofNat (n : Nat) : Json := .integer n

/-- A word of 64 bits. -/
def ofUInt64 (n : UInt64) : Json := .integer n.toNat

/-- A value that may be absent. -/
def ofOption {α : Type} (encode : α → Json) : Option α → Json
  | none => .null
  | some value => encode value

/-- The value of a string. -/
def string? : Json → Option String
  | .string value => some value
  | _ => none

/-- The value of a truth value. -/
def bool? : Json → Option Bool
  | .bool value => some value
  | _ => none

/-- The value of a whole number. -/
def integer? : Json → Option Int
  | .integer value => some value
  | _ => none

/-- The value of a whole number below a bound. -/
def natBelow? (bound : Nat) (json : Json) : Option Nat := do
  let value ← json.integer?
  if 0 ≤ value ∧ value < bound then some value.toNat else none

/-- The value of an unsigned number of 64 bits. -/
def uint64? (json : Json) : Option UInt64 := (json.natBelow? UInt64.size).map UInt64.ofNat

/-- The value of a signed number of 64 bits. -/
def int64? (json : Json) : Option Int64 := do
  let value ← json.integer?
  if Int64.minValue.toInt ≤ value ∧ value ≤ Int64.maxValue.toInt then some (Int64.ofInt value)
  else none

/-- The value of a byte. -/
def byte? (json : Json) : Option UInt8 := (json.natBelow? 256).map UInt8.ofNat

/-- The items of an array. -/
def array? : Json → Option (List Json)
  | .array items => some items
  | _ => none

/-- The bytes of an array of small numbers. -/
def bytes? (json : Json) : Option Bytes := do (← json.array?).mapM byte?

/-- The first member of an object with a key. -/
def get? (json : Json) (key : String) : Option Json :=
  match json with
  | .object members => members.lookup key
  | _ => none

/-- The name of an alternative without content: a string, or an object with nothing but that
name, standing for null. -/
def alternative? : Json → Option String
  | .string name => some name
  | .object [(name, .null)] => some name
  | _ => none

/-! ## Text -/

/-- The text of a character inside a string. -/
def escape (c : Char) : List Char :=
  if c = '\x22' then ['\\', '\x22']
  else if c = '\\' then ['\\', '\\']
  else if c.toNat < 0x20 then ['\\', 'u', '0', '0'] ++ Hex.pair (UInt8.ofNat c.toNat)
  else [c]

/-- The text of a string with its quotes. -/
def quote (text : String) : String :=
  "\"" ++ String.ofList (text.toList.flatMap escape) ++ "\""

/-- The text of a number in scientific form. -/
def scientific (negative : Bool) (digits : Nat) (exponent : Int) : String :=
  (if negative then "-" else "") ++ toString digits ++ "e" ++ toString exponent

mutual

/-- The text of a value, without blanks. -/
def render : Json → String
  | .null => "null"
  | .bool true => "true"
  | .bool false => "false"
  | .integer value => toString value
  | .decimal negative digits exponent => scientific negative digits exponent
  | .string value => quote value
  | .unreadable => "\"\""
  | .array items => "[" ++ ",".intercalate (renderItems items) ++ "]"
  | .object members => "\x7b" ++ ",".intercalate (renderMembers members) ++ "\x7d"

/-- The texts of the items of an array. -/
def renderItems : List Json → List String
  | [] => []
  | item :: items => item.render :: renderItems items

/-- The texts of the members of an object. -/
def renderMembers : List (String × Json) → List String
  | [] => []
  | (key, value) :: members => (quote key ++ ":" ++ value.render) :: renderMembers members

end

end Json

end PieceKeeper
