import PieceKeeper.Commitment.Node

/-!
# Expansion of a quad

A quad is 127 bytes, that is four runs of 254 bits.  Expansion gives every run a node of
its own and leaves the two highest bits of each node clear.  Bits are counted from the
lowest bit of the first byte.
-/

namespace PieceKeeper

/-- The 127 bytes that fill four nodes. -/
abbrev Quad := Vector UInt8 127

namespace Quad

/-- The quad that begins with the given bytes and goes on with zeros. -/
def ofPrefixBytes (bytes : Array UInt8) : Quad := Vector.ofFn fun i ↦ bytes.getD i 0

/-- The eight bits of a quad from bit `start` on. -/
def window (quad : Quad) (start : Nat) : UInt8 :=
  let shift := UInt8.ofNat (start % 8)
  let low := quad[start / 8]?.getD 0 >>> shift
  if start % 8 = 0 then low else low ||| quad[start / 8 + 1]?.getD 0 <<< (8 - shift)

/-- The run of 254 bits with the given number. -/
def slot (quad : Quad) (run : Nat) : Node :=
  Node.trim (Vector.ofFn fun j : Fin 32 ↦ quad.window (254 * run + 8 * j))

/-- The four nodes of a quad. -/
def expand (quad : Quad) : List Node := (List.range 4).map quad.slot

end Quad

end PieceKeeper
