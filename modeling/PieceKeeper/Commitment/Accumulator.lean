import PieceKeeper.Commitment.Expansion
import PieceKeeper.Fault

/-!
# Streaming commitment

Bytes are read quad by quad, in chunks of any lengths, and each quad adds four leaves to a binary tree.  Of the
tree only the roots of finished subtrees are kept, at most one for each level: level `i`
holds a root exactly when bit `i` of the number of leaves is set, as in a binary counter.
At the end the tree is topped up with zero subtrees until it is complete.
-/

namespace PieceKeeper

/-- The root of a piece's tree and the size of the leaves below it. -/
structure Commitment where
  digest : Node
  pieceSize : UInt64
  deriving DecidableEq, Repr

/-- The finished subtrees, one place for each level from the leaves up. -/
abbrev Levels := List (Option Node)

/-- Puts a finished subtree at a level.  Two roots on one level are joined and move up. -/
def Levels.place : Levels → Nat → Node → Levels
  | [], 0, node => [some node]
  | [], level + 1, node => none :: Levels.place [] level node
  | none :: above, 0, node => some node :: above
  | some left :: above, 0, node => none :: Levels.place above 0 (left.join node)
  | root :: above, level + 1, node => root :: Levels.place above level node

/-- The least power of two that is not smaller than a number. -/
def nextPowerOfTwo (n : Nat) : Nat := if n ≤ 1 then 1 else Nat.pow 2 ((n - 1).log2 + 1)

/-- Whether a number is a power of two. -/
def isPowerOfTwo (n : Nat) : Bool := nextPowerOfTwo n == n

/-- How many times two divides a number of at most sixty-four bits. -/
def twos (n : Nat) : Nat := go 64 n
where
  /-- Divides by two at most `room` times. -/
  go : Nat → Nat → Nat
    | 0, _ => 0
    | room + 1, n => if n % 2 = 0 then go room (n / 2) + 1 else 0

/-- A commitment in the making. -/
structure Accumulator where
  /-- The bytes of the quad that is not full yet. -/
  pending : Array UInt8 := #[]
  levels : Levels := []
  leaves : Nat := 0
  /-- How many bytes have been read. -/
  consumed : Nat := 0

namespace Accumulator

/-- The start, before any byte. -/
def empty : Accumulator := {}

/-- Adds a finished subtree of `2 ^ level` leaves. -/
def place (acc : Accumulator) (level : Nat) (node : Node) : Accumulator :=
  { acc with leaves := acc.leaves + Nat.pow 2 level, levels := acc.levels.place level node }

/-- Turns the pending bytes into four leaves. -/
def flush (acc : Accumulator) : Accumulator :=
  (Quad.ofPrefixBytes acc.pending).expand.foldl (fun acc leaf ↦ acc.place 0 leaf)
    { acc with pending := #[] }

/-- Puts bytes behind the pending ones, and turns the quad into leaves if it is full then. -/
def absorb (acc : Accumulator) (bytes : Bytes) : Accumulator :=
  let acc := { acc with pending := acc.pending ++ bytes }
  if acc.pending.size = 127 then acc.flush else acc

/-- Absorbs as many bytes as the pending quad has room for, and goes on with the rest of them; at most
`room` times. -/
def fill : Nat → Accumulator → Bytes → Accumulator
  | 0, acc, _ => acc
  | room + 1, acc, bytes =>
    if bytes.isEmpty then acc
    else
      let gap := 127 - acc.pending.size
      fill room (acc.absorb (bytes.take gap)) (bytes.drop gap)

/-- Reads a chunk of bytes. -/
def update (acc : Accumulator) (chunk : Bytes) : Accumulator :=
  fill chunk.length { acc with consumed := acc.consumed + chunk.length } chunk

/-- Adds zero subtrees, each as large as the lowest finished one, until the number of leaves
is a power of two; at most `room` of them. -/
def complete : Nat → Accumulator → Accumulator
  | 0, acc => acc
  | room + 1, acc =>
    if isPowerOfTwo acc.leaves then acc
    else
      let level := twos acc.leaves
      complete room (acc.place level (Node.zeroRoot level))

/-- The commitment to all bytes read. -/
def finish (acc : Accumulator) : Outcome Commitment :=
  if acc.consumed = 0 then
    refuse (.validation "commitment requires at least one byte")
  else
    let acc := if acc.pending.isEmpty then acc else acc.flush
    let acc := complete (acc.leaves.log2 + 1) acc
    match acc.levels[twos acc.leaves]?.join with
    | some digest => .ok ⟨digest, UInt64.ofNat (32 * acc.leaves)⟩
    | none => refuse (.internal "commitment tree has no root")

end Accumulator

end PieceKeeper
