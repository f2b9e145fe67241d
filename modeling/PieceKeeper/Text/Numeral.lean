/-!
# Numerals

Unsigned numbers in decimal digits, with an optional plus sign in front.
-/

namespace PieceKeeper

/-- Why a text is no numeral. -/
inductive NumeralFailure where
  | empty
  | badDigit
  | tooLarge
  deriving DecidableEq, Repr

/-- The text of a failure. -/
def NumeralFailure.message : NumeralFailure → String
  | .empty => "cannot parse integer from empty string"
  | .badDigit => "invalid digit found in string"
  | .tooLarge => "number too large to fit in target type"

namespace Numeral

/-- Appends a digit to a number that must stay below a bound. -/
def push (bound n : Nat) (digit : Char) : Except NumeralFailure Nat :=
  if ¬ digit.isDigit then .error .badDigit
  else
    let n := 10 * n + (digit.toNat - 0x30)
    if n < bound then .ok n else .error .tooLarge

/-- The number that a text stands for, if it is below a bound.  Of several failures the first
one in the text counts. -/
def parse (bound : Nat) (text : String) : Except NumeralFailure Nat :=
  match text.toList with
  | [] => .error .empty
  | ['+'] => .error .badDigit
  | '+' :: digits => digits.foldlM (push bound) 0
  | digits => digits.foldlM (push bound) 0

/-- The number of 64 bits that a text stands for. -/
def parseUInt64 (text : String) : Except NumeralFailure UInt64 :=
  return UInt64.ofNat (← parse UInt64.size text)

end Numeral

end PieceKeeper
