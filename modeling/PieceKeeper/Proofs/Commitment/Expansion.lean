import Mathlib.Data.Nat.Bitwise
import PieceKeeper.Proofs.Commitment.Streaming

/-!
# The expansion of a quad is a spreading of its bits

Bits of bytes in a row are counted from the lowest bit of the first byte.  Bit `r` of the run with a
number is bit `254 * run + r` of the quad, and the two highest bits of every node are clear; so no
bit of a quad is lost, and a quad can be told from its nodes.
-/

namespace PieceKeeper

/-! ## Bits of bytes in a row -/

/-- The bit with a number in a row of bytes; behind the last byte there are only clear bits. -/
def bitAt {n : Nat} (bytes : Vector UInt8 n) (k : Nat) : Bool :=
  (bytes[k / 8]?.getD 0).toNat.testBit (k % 8)

theorem UInt8.testBit_of_le (byte : UInt8) {i : Nat} (h : 8 ≤ i) : byte.toNat.testBit i = false :=
  Nat.testBit_lt_two_pow (byte.toNat_lt.trans_le (Nat.pow_le_pow_right (by decide) h))

/-- Bytes with the same bits are the same. -/
theorem eq_of_bitAt {n : Nat} {bytes other : Vector UInt8 n}
    (h : ∀ k < 8 * n, bitAt bytes k = bitAt other k) : bytes = other := by
  refine Vector.ext fun j hj ↦ UInt8.toNat.inj (Nat.eq_of_testBit_eq fun i ↦ ?_)
  rcases Nat.lt_or_ge i 8 with hi | hi
  · have hbit := h (8 * j + i) (by omega)
    have hdiv : (8 * j + i) / 8 = j := by omega
    have hmod : (8 * j + i) % 8 = i := by omega
    rwa [bitAt, bitAt, hdiv, hmod, Vector.getElem?_eq_getElem hj, Vector.getElem?_eq_getElem hj] at hbit
  · rw [UInt8.testBit_of_le _ hi, UInt8.testBit_of_le _ hi]

namespace Node

/-- The two highest bits of a trimmed node are clear, and the others are kept. -/
theorem bitAt_trim (node : Node) {k : Nat} (hk : k < 256) :
    bitAt node.trim k = (bitAt node k && decide (k < 254)) := by
  have hj : k / 8 < 32 := by omega
  rw [bitAt, bitAt, trim, Vector.getElem?_eq_getElem hj, Vector.getElem?_eq_getElem hj]
  by_cases hlast : k / 8 = 31
  · simp only [hlast, Vector.getElem_set_self, Option.getD_some, UInt8.toNat_and, Nat.testBit_and]
    refine congrArg _ ?_
    have hmask : ∀ i < 8, (0x3f : UInt8).toNat.testBit i = decide (i < 6) := by decide
    rw [hmask _ (Nat.mod_lt _ (by decide))]
    exact decide_eq_decide.mpr (by omega)
  · rw [Vector.getElem_set_ne _ _ (Ne.symm hlast)]
    have hlow : k < 254 := by omega
    rw [decide_eq_true hlow, Bool.and_true]

end Node

namespace Quad

/-! ## Bits of a quad -/

/-- A window shows the eight bits of a quad from its start on. -/
theorem testBit_window (quad : Quad) (start : Nat) {i : Nat} (hi : i < 8) :
    (quad.window start).toNat.testBit i = bitAt quad (start + i) := by
  have hshift : (UInt8.ofNat (start % 8)).toNat = start % 8 := by
    rw [UInt8.toNat_ofNat']
    omega
  have hlow : (quad[start / 8]?.getD 0 >>> UInt8.ofNat (start % 8)).toNat.testBit i =
      (quad[start / 8]?.getD 0).toNat.testBit (start % 8 + i) := by
    rw [UInt8.toNat_shiftRight, Nat.testBit_shiftRight, hshift, Nat.mod_mod]
  rw [window, bitAt]
  split
  · rename_i haligned
    have hdiv : (start + i) / 8 = start / 8 := by omega
    have hmod : (start + i) % 8 = start % 8 + i := by omega
    rw [hlow, hdiv, hmod]
  · rename_i hoffset
    have hback : ((8 : UInt8) - UInt8.ofNat (start % 8)).toNat = 8 - start % 8 := by
      rw [UInt8.toNat_sub_of_le _ _ (UInt8.le_iff_toNat_le.mpr (by rw [hshift]; change _ ≤ 8; omega)),
        hshift]
      rfl
    have hcarry : (quad[start / 8 + 1]?.getD 0 <<< (8 - UInt8.ofNat (start % 8))).toNat.testBit i =
        (decide (8 - start % 8 ≤ i) &&
          (quad[start / 8 + 1]?.getD 0).toNat.testBit (i - (8 - start % 8))) := by
      rw [UInt8.toNat_shiftLeft, Nat.testBit_mod_two_pow, Nat.testBit_shiftLeft, hback,
        Nat.mod_eq_of_lt (by omega : 8 - start % 8 < 8), decide_eq_true hi, Bool.true_and]
    rw [UInt8.toNat_or, Nat.testBit_or, hlow, hcarry]
    -- the bit lies in the first of the two bytes, or it was carried over from the second
    rcases Nat.lt_or_ge (start % 8 + i) 8 with hfirst | hsecond
    · have hdiv : (start + i) / 8 = start / 8 := by omega
      have hmod : (start + i) % 8 = start % 8 + i := by omega
      rw [hdiv, hmod, decide_eq_false (by omega), Bool.false_and, Bool.or_false]
    · have hdiv : (start + i) / 8 = start / 8 + 1 := by omega
      have hmod : (start + i) % 8 = i - (8 - start % 8) := by omega
      rw [hdiv, hmod, UInt8.testBit_of_le _ hsecond, decide_eq_true (by omega), Bool.true_and,
        Bool.false_or]

/-- The bits of a run, one after the other, and behind them two clear bits. -/
theorem bitAt_slot (quad : Quad) (run : Nat) {k : Nat} (hk : k < 256) :
    bitAt (quad.slot run) k = (bitAt quad (254 * run + k) && decide (k < 254)) := by
  have hj : k / 8 < 32 := by omega
  rw [slot, Node.bitAt_trim _ hk]
  refine congrArg (· && decide (k < 254)) ?_
  have hsum : 254 * run + 8 * (k / 8) + k % 8 = 254 * run + k := by omega
  rw [bitAt, Vector.getElem?_eq_getElem hj, Option.getD_some, Vector.getElem_ofFn,
    testBit_window _ _ (Nat.mod_lt _ (by decide)), hsum]

/-- A quad can be told from its nodes. -/
theorem expand_injective {quad other : Quad} (h : quad.expand = other.expand) : quad = other := by
  have hslot : ∀ run < 4, quad.slot run = other.slot run := fun run hrun ↦
    List.map_inj_left.mp h run (List.mem_range.mpr hrun)
  refine eq_of_bitAt fun k hk ↦ ?_
  have hmod : k % 254 < 256 := (Nat.mod_lt k (by decide)).trans (by decide)
  have hbit := congrArg (bitAt · (k % 254)) (hslot (k / 254) (by omega))
  simp only [bitAt_slot _ _ hmod, Nat.div_add_mod, decide_eq_true (Nat.mod_lt k (by decide : 254 > 0)),
    Bool.and_true] at hbit
  exact hbit

/-! ## Streams -/

/-- A byte of a stream stands in one of its quads. -/
theorem getElem?_ofStream (bytes : Bytes) (k : Nat) :
    (ofStream bytes (k / 127))[k % 127]? = some (bytes.getD k 0) := by
  have hsum : 127 * (k / 127) + k % 127 = k := Nat.div_add_mod k 127
  rw [Vector.getElem?_eq_getElem (Nat.mod_lt k (by decide)), ofStream, Vector.getElem_ofFn, hsum]

/-- The bytes of a stream can be told from its leaves, up to zeros at its end. -/
theorem getD_eq_of_leaves_eq {bytes other : Bytes} (hcount : count bytes = count other)
    (h : leaves bytes = leaves other) (k : Nat) : bytes.getD k 0 = other.getD k 0 := by
  rcases Nat.lt_or_ge (k / 127) (count bytes) with hlt | hge
  · have hquads : (List.range (count bytes)).map (fun i ↦ (ofStream bytes i).expand) =
        (List.range (count bytes)).map fun i ↦ (ofStream other i).expand := by
      rw [leaves, leaves, ← hcount, List.flatMap, List.flatMap] at h
      refine List.eq_iff_flatten_eq.mpr ⟨h, ?_⟩
      simp [Function.comp_def]
    have hsame := expand_injective (List.map_inj_left.mp hquads (k / 127) (List.mem_range.mpr hlt))
    have hbyte := congrArg (·[k % 127]?) hsame
    rw [getElem?_ofStream, getElem?_ofStream] at hbyte
    exact Option.some.inj hbyte
  · have hbytes : bytes.length ≤ k := by rw [count] at hge; omega
    have hother : other.length ≤ k := by rw [hcount, count] at hge; omega
    rw [List.getD_eq_default _ _ hbytes, List.getD_eq_default _ _ hother]

end Quad

end PieceKeeper
