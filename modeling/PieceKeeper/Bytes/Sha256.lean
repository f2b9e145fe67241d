import PieceKeeper.Bytes.Hex

/-!
# SHA-256

The hash of FIPS 180-4: the message is padded to whole blocks of sixty-four bytes, and
each block is compressed into a state of eight words.
-/

namespace PieceKeeper.Sha256

/-- The chaining state, eight words of 32 bits. -/
structure State where
  a : UInt32
  b : UInt32
  c : UInt32
  d : UInt32
  e : UInt32
  f : UInt32
  g : UInt32
  h : UInt32

/-- The first 32 bits of the fractional parts of the square roots of the first eight primes. -/
def initial : State :=
  ⟨0x6a09e667, 0xbb67ae85, 0x3c6ef372, 0xa54ff53a, 0x510e527f, 0x9b05688c, 0x1f83d9ab, 0x5be0cd19⟩

/-- The first 32 bits of the fractional parts of the cube roots of the first sixty-four primes. -/
def roundConstants : Array UInt32 := #[
  0x428a2f98, 0x71374491, 0xb5c0fbcf, 0xe9b5dba5, 0x3956c25b, 0x59f111f1, 0x923f82a4, 0xab1c5ed5,
  0xd807aa98, 0x12835b01, 0x243185be, 0x550c7dc3, 0x72be5d74, 0x80deb1fe, 0x9bdc06a7, 0xc19bf174,
  0xe49b69c1, 0xefbe4786, 0x0fc19dc6, 0x240ca1cc, 0x2de92c6f, 0x4a7484aa, 0x5cb0a9dc, 0x76f988da,
  0x983e5152, 0xa831c66d, 0xb00327c8, 0xbf597fc7, 0xc6e00bf3, 0xd5a79147, 0x06ca6351, 0x14292967,
  0x27b70a85, 0x2e1b2138, 0x4d2c6dfc, 0x53380d13, 0x650a7354, 0x766a0abb, 0x81c2c92e, 0x92722c85,
  0xa2bfe8a1, 0xa81a664b, 0xc24b8b70, 0xc76c51a3, 0xd192e819, 0xd6990624, 0xf40e3585, 0x106aa070,
  0x19a4c116, 0x1e376c08, 0x2748774c, 0x34b0bcb5, 0x391c0cb3, 0x4ed8aa4a, 0x5b9cca4f, 0x682e6ff3,
  0x748f82ee, 0x78a5636f, 0x84c87814, 0x8cc70208, 0x90befffa, 0xa4506ceb, 0xbef9a3f7, 0xc67178f2]

/-- Rotation to the right by `n` bits, for `n` between 1 and 31. -/
@[inline] def rotr (x : UInt32) (n : UInt32) : UInt32 :=
  (x >>> n) ||| (x <<< (32 - n))

/-- Mixes an earlier schedule word into a later one. -/
@[inline] def smallSigma0 (x : UInt32) : UInt32 :=
  rotr x 7 ^^^ rotr x 18 ^^^ (x >>> 3)

/-- Mixes an earlier schedule word into a later one. -/
@[inline] def smallSigma1 (x : UInt32) : UInt32 :=
  rotr x 17 ^^^ rotr x 19 ^^^ (x >>> 10)

/-- The words of a block, each from four bytes with the highest first. -/
def words : Bytes → Array UInt32 → Array UInt32
  | b0 :: b1 :: b2 :: b3 :: rest, acc =>
    words rest (acc.push
      ((b0.toUInt32 <<< 24) ||| (b1.toUInt32 <<< 16) ||| (b2.toUInt32 <<< 8) ||| b3.toUInt32))
  | _, acc => acc

/-- The schedule of a block: its sixteen words, then forty-eight mixed from earlier ones. -/
def schedule (block : Bytes) : Array UInt32 :=
  Nat.fold 48 (fun i _ w ↦
    w.push (smallSigma1 (w.getD (i + 14) 0) + w.getD (i + 9) 0
      + smallSigma0 (w.getD (i + 1) 0) + w.getD i 0)) (words block #[])

/-- One round with its constant and schedule word. -/
@[inline] def round (s : State) (constant word : UInt32) : State :=
  let sigma1 := rotr s.e 6 ^^^ rotr s.e 11 ^^^ rotr s.e 25
  let choice := (s.e &&& s.f) ^^^ ((~~~s.e) &&& s.g)
  let t1 := s.h + sigma1 + choice + constant + word
  let sigma0 := rotr s.a 2 ^^^ rotr s.a 13 ^^^ rotr s.a 22
  let majority := (s.a &&& s.b) ^^^ (s.a &&& s.c) ^^^ (s.b &&& s.c)
  ⟨t1 + sigma0 + majority, s.a, s.b, s.c, s.d + t1, s.e, s.f, s.g⟩

/-- The state after one block. -/
def compress (s : State) (block : Bytes) : State :=
  let w := schedule block
  let r := Nat.fold 64 (fun i _ r ↦ round r (roundConstants.getD i 0) (w.getD i 0)) s
  ⟨s.a + r.a, s.b + r.b, s.c + r.c, s.d + r.d, s.e + r.e, s.f + r.f, s.g + r.g, s.h + r.h⟩

/-- The state after a number of blocks. -/
def absorb : Nat → State → Bytes → State
  | 0, s, _ => s
  | blocks + 1, s, message => absorb blocks (compress s (message.take 64)) (message.drop 64)

/-- The bytes of a word, highest first. -/
def wordBytes (w : UInt32) : Bytes :=
  [(w >>> 24).toUInt8, (w >>> 16).toUInt8, (w >>> 8).toUInt8, w.toUInt8]

/-- What follows a message of `size` bytes: a closing bit, zeros to eight bytes short of a
whole block, and the length in bits. -/
def closing (size : Nat) : Bytes :=
  let bits := UInt64.ofNat (8 * size)
  0x80 :: (List.replicate ((119 - size % 64) % 64) (0 : UInt8)
    ++ wordBytes (bits >>> 32).toUInt32 ++ wordBytes bits.toUInt32)

/-- The eight words of a state as thirty-two bytes. -/
def State.toVector (s : State) : Vector UInt8 32 :=
  ⟨(wordBytes s.a ++ wordBytes s.b ++ wordBytes s.c ++ wordBytes s.d
    ++ wordBytes s.e ++ wordBytes s.f ++ wordBytes s.g ++ wordBytes s.h).toArray, rfl⟩

/-- The hash of a message. -/
def digest (message : Bytes) : Vector UInt8 32 :=
  let size := message.length
  (absorb ((size + 72) / 64) initial (message ++ closing size)).toVector

end PieceKeeper.Sha256
