/-!
# Doubles

Numbers of double precision as exact values: a significand of up to 53 bits times a power of
two.  A ratio is rounded to the nearest of them, and of two equally near ones to the one with
the even significand.
-/

namespace PieceKeeper

/-- A number of double precision. -/
inductive Double where
  /-- The number `significand * 2 ^ exponent`, with its sign. -/
  | finite (negative : Bool) (significand : Nat) (exponent : Int)
  | infinite (negative : Bool)
  | notANumber
  deriving DecidableEq, Repr

namespace Double

/-- The least exponent. -/
def leastExponent : Int := -1074

/-- The greatest exponent of a significand of 53 bits. -/
def greatestExponent : Int := 971

/-- A ratio in units of a power of two, as a ratio. -/
def inUnits (numerator denominator : Nat) (exponent : Int) : Nat × Nat :=
  if 0 ≤ exponent then (numerator, denominator * Nat.pow 2 exponent.toNat)
  else (numerator * Nat.pow 2 (-exponent).toNat, denominator)

/-- A ratio rounded to the nearest whole number, and of two equally near ones to the even. -/
def roundEven (numerator denominator : Nat) : Nat :=
  let quotient := numerator / denominator
  let rest := 2 * (numerator % denominator)
  if rest < denominator ∨ (rest = denominator ∧ quotient % 2 = 0) then quotient else quotient + 1

/-- The exponent that gives a ratio a significand of 53 bits, or else the least one. -/
def exponentFor (numerator denominator : Nat) : Int :=
  let guess : Int := (numerator.log2 : Int) - denominator.log2 - 52
  let fits (exponent : Int) : Bool :=
    let (n, d) := inUnits numerator denominator exponent
    d * Nat.pow 2 52 ≤ n
  max leastExponent (if fits guess then guess else guess - 1)

/-- The number nearest to a ratio. -/
def ofRatio (negative : Bool) (numerator denominator : Nat) : Double :=
  if numerator = 0 then .finite negative 0 leastExponent
  else
    let exponent := exponentFor numerator denominator
    let (n, d) := inUnits numerator denominator exponent
    let significand := roundEven n d
    let (significand, exponent) :=
      if significand = Nat.pow 2 53 then (Nat.pow 2 52, exponent + 1) else (significand, exponent)
    if greatestExponent < exponent then .infinite negative
    else .finite negative significand exponent

/-- The magnitude of a finite number as a ratio. -/
def ratio (significand : Nat) (exponent : Int) : Nat × Nat :=
  if 0 ≤ exponent then (significand * Nat.pow 2 exponent.toNat, 1)
  else (significand, Nat.pow 2 (-exponent).toNat)

/-- The number nearest to `digits * 10 ^ power`. -/
def ofDecimal (negative : Bool) (digits : Nat) (power : Int) : Double :=
  let width : Int := (toString digits).length
  if digits = 0 ∨ width + power < -400 then .finite negative 0 leastExponent
  else if 400 < width + power then .infinite negative
  else if 0 ≤ power then ofRatio negative (digits * Nat.pow 10 power.toNat) 1
  else ofRatio negative digits (Nat.pow 10 (-power).toNat)

/-- Whether a number is zero. -/
def isZero : Double → Bool
  | finite _ significand _ => significand == 0
  | _ => false

/-- Multiplies by a positive ratio and rounds. -/
def scale (number : Double) (numerator denominator : Nat) : Double :=
  match number with
  | finite negative significand exponent =>
    let (n, d) := ratio significand exponent
    ofRatio negative (n * numerator) (d * denominator)
  | number => number

/-- The nearest natural number below a bound: halves go up, negative numbers to zero, and what is
too large to the largest. -/
def toNatBelow (bound : Nat) : Double → Nat
  | finite true _ _ => 0
  | finite false significand exponent =>
    let (n, d) := ratio significand exponent
    min ((2 * n + d) / (2 * d)) (bound - 1)
  | infinite negative => if negative then 0 else bound - 1
  | notANumber => 0

/-! ## Text -/

/-- The digits of a decimal numeral with an optional point: those of the whole and those of the
fraction. -/
def numeral? (text : List Char) : Option (List Char × List Char) :=
  let (whole, rest) := text.span Char.isDigit
  match rest with
  | [] => if whole.isEmpty then none else some (whole, [])
  | '.' :: part =>
    if part.all Char.isDigit ∧ ¬ (whole.isEmpty ∧ part.isEmpty) then some (whole, part) else none
  | _ => none

/-- The number that decimal digits stand for. -/
def natOf (digits : List Char) : Nat :=
  digits.foldl (fun n c ↦ 10 * n + (c.toNat - 0x30)) 0

/-- Takes the sign off a text. -/
def signed : List Char → Bool × List Char
  | '-' :: rest => (true, rest)
  | '+' :: rest => (false, rest)
  | text => (false, text)

/-- The number nearest to an unsigned numeral with an optional exponent. -/
def unsigned? (negative : Bool) (text : List Char) : Option Double := do
  let (mantissa, rest) := text.span fun c ↦ c != 'e' && c != 'E'
  let (whole, part) ← numeral? mantissa
  let power : Int ←
    match rest with
    | [] => some 0
    | _ :: rest =>
      let (below, digits) := signed rest
      if digits.isEmpty ∨ ¬ digits.all Char.isDigit then none
      else
        let size : Int := natOf digits
        some (if below then -size else size)
  return ofDecimal negative (natOf (whole ++ part)) (power - part.length)

/-- The number nearest to a numeral; also the names of what is not finite. -/
def ofText? (text : String) : Option Double :=
  let (negative, rest) := signed text.toList
  let name := String.ofList (rest.map Char.toLower)
  if name = "inf" ∨ name = "infinity" then some (infinite negative)
  else if name = "nan" then some notANumber
  else unsigned? negative rest

end Double

end PieceKeeper
