import PieceKeeper.Bytes.Hex

/-!
# Variable-length numbers

A number below `2 ^ 64` is written seven bits to a byte, lowest bits first, with the high
bit set on every byte but the last.  A written form may not end in a zero byte, except the
form of zero itself, and has at most ten bytes.
-/

namespace PieceKeeper.Varint

/-- The shortest form of a number. -/
def encode (n : Nat) : Bytes :=
  if n < 128 then [UInt8.ofNat n] else UInt8.ofNat (n % 128 + 128) :: encode (n / 128)

/-- Why no number could be read. -/
inductive Failure where
  | ended
  | malformed
  deriving DecidableEq, Repr

/-- Reads the rest of a number, of which `value` and `shift` bits are known and which may
have `room` more bytes. -/
def readFrom : Nat → Nat → Nat → Bytes → Except Failure (Nat × Bytes)
  | 0, _, _, _ => .error .malformed
  | _ + 1, _, _, [] => .error .ended
  | room + 1, shift, value, byte :: rest =>
    let value := value + byte.toNat % 128 * Nat.pow 2 shift
    if byte.toNat < 128 then
      if byte = 0 ∧ shift ≠ 0 then .error .malformed else .ok (value % UInt64.size, rest)
    else readFrom room (shift + 7) value rest

/-- Reads a number and returns it with the bytes that follow. -/
def read (bytes : Bytes) : Except Failure (Nat × Bytes) := readFrom 10 0 0 bytes

end PieceKeeper.Varint
