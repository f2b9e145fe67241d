import Mathlib.Algebra.Group.Nat.Defs
import PieceKeeper.Commitment.ContentId
import PieceKeeper.Store.Shelf

/-!
# Texts of content ids

A content id is written in small letters and digits, and all ids of pieces have one length.  So
each is a key of the shelf, and its draft has a name that a file can have.
-/

namespace PieceKeeper

namespace Bits

@[simp] theorem length_ofNat (width n : Nat) : (ofNat width n).length = width := by
  induction width with
  | zero => rfl
  | succ width ih => rw [ofNat, List.length_cons, ih]

@[simp] theorem length_ofBytes (bytes : Bytes) : (ofBytes bytes).length = 8 * bytes.length := by
  induction bytes with
  | nil => rfl
  | cons byte bytes ih =>
    change (ofNat 8 byte.toNat ++ ofBytes bytes).length = _
    rw [List.length_append, length_ofNat, ih, List.length_cons]
    omega

theorem foldl_lt (bits : List Bool) (n : Nat) :
    bits.foldl (fun n bit ↦ 2 * n + bit.toNat) n < (n + 1) * 2 ^ bits.length := by
  induction bits generalizing n with
  | nil => simp
  | cons bit bits ih =>
    have hhead : 2 * n + bit.toNat + 1 ≤ (n + 1) * 2 := by
      have hbit := Bool.toNat_le bit
      omega
    refine Nat.lt_of_lt_of_le (ih _) ?_
    rw [List.length_cons, Nat.pow_succ', ← Nat.mul_assoc]
    exact Nat.mul_le_mul_right _ hhead

theorem toNat_lt (bits : List Bool) : toNat bits < 2 ^ bits.length := by
  simpa [toNat] using foldl_lt bits 0

/-- Whole groups have one width, and less than one group is left over. -/
theorem groups_spec (width : Nat) (bits : List Bool) :
    (∀ group ∈ (groups width bits).1, group.length = width + 1) ∧
      (groups width bits).2.length ≤ width ∧
      (groups width bits).1.length * (width + 1) + (groups width bits).2.length = bits.length := by
  fun_induction groups width bits with
  | case1 bits hle => exact ⟨fun _ h ↦ absurd h List.not_mem_nil, hle, by simp⟩
  | case2 bits hlt whole left hrest ih =>
    rw [hrest] at ih
    obtain ⟨hwhole, hleft, hlength⟩ := ih
    rw [List.length_drop] at hlength
    refine ⟨List.forall_mem_cons.mpr ⟨?_, hwhole⟩, hleft, ?_⟩
    · rw [List.length_take]
      omega
    · rw [List.length_cons, Nat.succ_mul]
      dsimp only at hlength ⊢
      omega

end Bits

namespace Multibase.Radix

variable {radix : Radix}

/-- Digits come from the alphabet. -/
theorem mem_alphabet_of_mem_encode (halphabet : radix.alphabet.length = 2 ^ (radix.extra + 1))
    {bytes : Bytes} {c : Char} (hc : c ∈ radix.encode bytes) : c ∈ radix.alphabet := by
  obtain ⟨hwhole, hleft, -⟩ := Bits.groups_spec radix.extra (Bits.ofBytes bytes)
  obtain ⟨bits, hbits, rfl⟩ := List.mem_map.mp hc
  have hlength : bits.length = radix.extra + 1 := by
    rcases List.mem_append.mp hbits with hmem | hmem
    · exact hwhole bits hmem
    · split at hmem
      · cases hmem
      · rw [List.mem_singleton.mp hmem, List.length_append, List.length_replicate]
        omega
  have hlt : Bits.toNat bits < radix.alphabet.length := by
    rw [halphabet, ← hlength]
    exact Bits.toNat_lt bits
  rw [List.getD_eq_getElem?_getD, List.getElem?_eq_getElem hlt, Option.getD_some]
  exact List.getElem_mem hlt

/-- There is at most one digit more than there are whole groups of bits. -/
theorem length_encode_le (bytes : Bytes) :
    (radix.encode bytes).length ≤ 8 * bytes.length / (radix.extra + 1) + 1 := by
  obtain ⟨-, -, hlength⟩ := Bits.groups_spec radix.extra (Bits.ofBytes bytes)
  rw [Bits.length_ofBytes] at hlength
  have hwhole : (Bits.groups radix.extra (Bits.ofBytes bytes)).1.length ≤
      8 * bytes.length / (radix.extra + 1) := by
    rw [Nat.le_div_iff_mul_le (Nat.succ_pos _), ← hlength]
    exact Nat.le_add_right _ _
  rw [encode, List.length_map, List.length_append]
  refine Nat.add_le_add hwhole ?_
  split
  · exact Nat.zero_le _
  · exact Nat.le_refl _

end Multibase.Radix

theorem Multibase.isAlphanum_of_mem_encode {bytes : Bytes} {c : Char}
    (hc : c ∈ base32.encode bytes) : c.isAlphanum = true := by
  have hall : base32.alphabet.all Char.isAlphanum = true := by decide +kernel
  exact List.all_eq_true.mp hall c (Radix.mem_alphabet_of_mem_encode (by decide +kernel) hc)

namespace ContentId

/-- A content id can be a key. -/
theorem checkKey_ofDigest (digest : Node) : Shelf.checkKey (ofDigest digest) = .ok () := by
  rw [Shelf.checkKey, if_pos]
  simp only [Shelf.isKey, ofDigest, Cid.toText, Bool.and_eq_true, List.all_eq_true]
  refine ⟨by simp [String.isEmpty_iff], ?_⟩
  intro c hc
  rw [String.toList_ofList] at hc
  rcases List.mem_cons.mp hc with rfl | hc
  · rfl
  · exact Multibase.isAlphanum_of_mem_encode hc

theorem toBytes_digest (digest : Node) :
    Cid.toBytes ⟨1, commitmentCodec, truncatedHashCode, digest.toList⟩ =
      [1, 129, 226, 3, 146, 32, 32] ++ digest.toList := by
  have hhead : Varint.encode 1 ++ Varint.encode commitmentCodec ++ Varint.encode truncatedHashCode
      ++ Varint.encode 32 = [1, 129, 226, 3, 146, 32, 32] := by decide +kernel
  rw [Cid.toBytes, Vector.length_toList, hhead]

theorem length_ofDigest_le (digest : Node) : (ofDigest digest).length ≤ 64 := by
  have hdigits : (Multibase.base32.encode ([1, 129, 226, 3, 146, 32, 32] ++ digest.toList)).length ≤ _ :=
    Multibase.Radix.length_encode_le _
  rw [List.length_append, Vector.length_toList] at hdigits
  rw [ofDigest, Cid.toText, toBytes_digest, String.length_ofList, List.length_cons]
  exact Nat.succ_le_succ hdigits

end ContentId

end PieceKeeper
