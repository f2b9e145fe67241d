/-!
# Hexadecimal text

Bytes written as pairs of hexadecimal digits, high half first.  Writing always uses
lower case; reading takes either case and refuses an odd number of digits.
-/

namespace PieceKeeper

/-- A finite sequence of bytes. -/
abbrev Bytes := List UInt8

namespace Hex

/-- The lower-case digit of a value below sixteen. -/
def digit (value : Nat) : Char :=
  if value < 10 then Char.ofNat (0x30 + value) else Char.ofNat (0x57 + value)

/-- The value of a digit of either case. -/
def digitValue? (c : Char) : Option Nat :=
  let code := c.toNat
  if 0x30 ≤ code ∧ code ≤ 0x39 then some (code - 0x30)
  else if 0x61 ≤ code ∧ code ≤ 0x66 then some (code - 0x57)
  else if 0x41 ≤ code ∧ code ≤ 0x46 then some (code - 0x37)
  else none

/-- The two digits of one byte. -/
def pair (byte : UInt8) : List Char :=
  [digit (byte.toNat / 16), digit (byte.toNat % 16)]

/-- The digits of a byte sequence. -/
def encode (bytes : Bytes) : String :=
  String.ofList (bytes.flatMap pair)

/-- The bytes that a list of digits stands for. -/
def decode : List Char → Option Bytes
  | [] => some []
  | [_] => none
  | high :: low :: rest => do
    let h ← digitValue? high
    let l ← digitValue? low
    let bytes ← decode rest
    return UInt8.ofNat (16 * h + l) :: bytes

end Hex

end PieceKeeper
