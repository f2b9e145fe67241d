import PieceKeeper.Bytes.Hex

/-!
# Runs of bits

Numbers as lists of bits, the highest first, and the cutting of a run of bits into groups
of one width.  Texts that stand for bytes in a radix that is a power of two regroup the bits
of the one into the bits of the other.
-/

namespace PieceKeeper.Bits

/-- The lowest `width` bits of a number. -/
def ofNat : Nat → Nat → List Bool
  | 0, _ => []
  | width + 1, n => n.testBit width :: ofNat width n

/-- The number that a run of bits stands for. -/
def toNat (bits : List Bool) : Nat := bits.foldl (fun n bit ↦ 2 * n + bit.toNat) 0

/-- Cuts off whole groups of `width + 1` bits; the second part is what is left over. -/
def groups (width : Nat) (bits : List Bool) : List (List Bool) × List Bool :=
  if bits.length ≤ width then ([], bits)
  else
    let (whole, left) := groups width (bits.drop (width + 1))
    (bits.take (width + 1) :: whole, left)
termination_by bits.length

/-- The bits of a byte sequence. -/
def ofBytes (bytes : Bytes) : List Bool := bytes.flatMap fun byte ↦ ofNat 8 byte.toNat

end PieceKeeper.Bits
