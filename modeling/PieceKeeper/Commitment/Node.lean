import PieceKeeper.Bytes.Sha256

/-!
# Nodes of a commitment tree

A node is a value of 254 bits in thirty-two bytes.  Two neighbours are joined by hashing
them and clearing the two highest bits of the last byte, so that the parent fits again.
-/

namespace PieceKeeper

/-- Thirty-two bytes, the lowest first. -/
abbrev Node := Vector UInt8 32

namespace Node

/-- The node without any bit set: a leaf of filling. -/
def zero : Node := Vector.replicate 32 0

/-- Clears the two bits that do not belong to a value of 254 bits. -/
def trim (node : Node) : Node := node.set 31 (node[31] &&& 0x3f)

/-- The node above two neighbours. -/
def join (left right : Node) : Node :=
  trim (Sha256.digest (left.toList ++ right.toList))

/-- The root over `2 ^ level` zero leaves. -/
def zeroRoot : Nat → Node
  | 0 => zero
  | level + 1 => let half := zeroRoot level; join half half

/-- The node with the given bytes, if there are thirty-two. -/
def ofBytes? (bytes : Bytes) : Option Node :=
  if h : bytes.length = 32 then some ⟨bytes.toArray, h⟩ else none

/-- The node as hexadecimal text. -/
def hex (node : Node) : String := Hex.encode node.toList

end Node

end PieceKeeper
