import PieceKeeper.Decimal.Double

/-!
# Shortest decimals

The text of a number of double precision: the fewest digits that read back as the number, the
nearest of those, without an exponent.
-/

namespace PieceKeeper.Double

/-- Whether `digits * 10 ^ power` reads back as a positive number. -/
def readsBack (number : Double) (digits : Nat) (power : Int) : Bool :=
  ofDecimal false digits power == number

/-- A ratio in units of a power of ten, as a ratio. -/
def inTens (numerator denominator : Nat) (power : Int) : Nat × Nat :=
  if 0 ≤ power then (numerator, denominator * Nat.pow 10 power.toNat)
  else (numerator * Nat.pow 10 (-power).toNat, denominator)

/-- The power of ten of the first digit of a positive ratio. -/
def firstPower (numerator denominator : Nat) : Int :=
  let guess : Int := (toString numerator).length - (toString denominator).length
  let (n, d) := inTens numerator denominator guess
  if d ≤ n then guess else guess - 1

/-- The nearer of the two multiples of a power of ten around a ratio, among those that read
back. -/
def onGrid (number : Double) (numerator denominator : Nat) (power : Int) : Option Nat :=
  let (n, d) := inTens numerator denominator power
  let below := n / d
  let rest := n % d
  let candidates := if 2 * rest ≤ d then [below, below + 1] else [below + 1, below]
  candidates.find? fun digits ↦ readsBack number digits power

/-- Leaves out a zero at the end of the digits.  There is one when the nearest multiple has one
digit more than the ratio. -/
def dropZero (digits : Nat) (power : Int) : Nat × Int :=
  if digits % 10 = 0 then (digits / 10, power + 1) else (digits, power)

/-- The shortest decimal of a positive ratio that reads back as a number. -/
def shortest (number : Double) (numerator denominator : Nat) : Nat × Int :=
  let first := firstPower numerator denominator
  let hit := (List.range 17).findSome? fun (n : Nat) ↦
    let power := first - n
    (onGrid number numerator denominator power).map (dropZero · power)
  hit.getD (0, 0)

/-- The text of `digits * 10 ^ power`. -/
def positional (digits : Nat) (power : Int) : String :=
  let text := (toString digits).toList
  if 0 ≤ power then String.ofList (text ++ List.replicate power.toNat '0')
  else
    let places := (-power).toNat
    if places < text.length then
      String.ofList
        (text.take (text.length - places) ++ '.' :: text.drop (text.length - places))
    else "0." ++ String.ofList (List.replicate (places - text.length) '0' ++ text)

/-- The text of a number. -/
def text : Double → String
  | notANumber => "NaN"
  | infinite negative => if negative then "-inf" else "inf"
  | finite negative significand exponent =>
    let sign := if negative then "-" else ""
    if significand = 0 then sign ++ "0"
    else
      let (n, d) := ratio significand exponent
      let (digits, power) := shortest (finite false significand exponent) n d
      sign ++ positional digits power

end PieceKeeper.Double
