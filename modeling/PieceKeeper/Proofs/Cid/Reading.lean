import PieceKeeper.Proofs.Cid.Text

/-!
# Reading content ids back

The digits of a text are the regrouped bits of its bytes, filled up with fewer zeros than a byte
has.  So grouping them again gives the bytes back, and a content id is read as the digest it was
written for.
-/

namespace PieceKeeper

namespace Bits

/-! ## Numbers and their bits -/

theorem foldl_eq (n : Nat) (bits : List Bool) :
    bits.foldl (fun n bit ↦ 2 * n + bit.toNat) n = 2 ^ bits.length * n + toNat bits := by
  induction bits generalizing n with
  | nil => simp [toNat]
  | cons bit bits ih =>
    have hhead : toNat (bit :: bits) = 2 ^ bits.length * bit.toNat + toNat bits := by
      rw [toNat, List.foldl_cons, ih, Nat.mul_zero, Nat.zero_add]
    rw [List.foldl_cons, ih, hhead, List.length_cons, Nat.pow_succ, Nat.mul_add, Nat.add_assoc,
      Nat.mul_assoc]

theorem toNat_cons (bit : Bool) (bits : List Bool) :
    toNat (bit :: bits) = 2 ^ bits.length * bit.toNat + toNat bits := by
  rw [toNat, List.foldl_cons, foldl_eq, Nat.mul_zero, Nat.zero_add]

theorem toNat_ofNat (width n : Nat) : toNat (ofNat width n) = n % 2 ^ width := by
  induction width with
  | zero => simp [ofNat, toNat, Nat.mod_one]
  | succ width ih =>
    rw [ofNat, toNat_cons, ih, length_ofNat, Nat.mod_pow_succ, Nat.toNat_testBit, Nat.add_comm]

/-- Only the lowest bits count. -/
theorem ofNat_congr {width n m : Nat} (h : ∀ i < width, n.testBit i = m.testBit i) :
    ofNat width n = ofNat width m := by
  induction width with
  | zero => rfl
  | succ width ih =>
    rw [ofNat, ofNat, h width (Nat.lt_succ_self width), ih fun i hi ↦ h i (Nat.lt_succ_of_lt hi)]

theorem ofNat_toNat (bits : List Bool) : ofNat bits.length (toNat bits) = bits := by
  induction bits with
  | nil => rfl
  | cons bit bits ih =>
    have hbit := Nat.testBit_two_pow_mul_add bit.toNat (toNat_lt bits)
    rw [List.length_cons, ofNat, toNat_cons, hbit, if_neg (Nat.lt_irrefl _), Nat.sub_self]
    have htail : ofNat bits.length (2 ^ bits.length * bit.toNat + toNat bits) = bits := by
      refine (ofNat_congr fun i hi ↦ ?_).trans ih
      rw [hbit, if_pos hi]
    rw [htail]
    cases bit <;> rfl

/-! ## Groups of bits -/

theorem flatten_groups (width : Nat) (bits : List Bool) :
    (groups width bits).1.flatten ++ (groups width bits).2 = bits := by
  fun_induction groups width bits with
  | case1 bits hle => rfl
  | case2 bits hlt whole left hrest ih =>
    rw [hrest] at ih
    rw [List.flatten_cons, List.append_assoc, ih, List.take_append_drop]

/-- Groups of one width are found again before less than a group. -/
theorem groups_flatten {width : Nat} {whole : List (List Bool)} {left : List Bool}
    (hwhole : ∀ group ∈ whole, group.length = width + 1) (hleft : left.length ≤ width) :
    groups width (whole.flatten ++ left) = (whole, left) := by
  induction whole with
  | nil => rw [groups, List.flatten_nil, List.nil_append, if_pos hleft]
  | cons group whole ih =>
    obtain ⟨hgroup, hwhole⟩ := List.forall_mem_cons.mp hwhole
    rw [groups, List.flatten_cons, List.append_assoc, if_neg (by rw [List.length_append]; omega),
      ← hgroup, List.drop_left, List.take_left, ih hwhole]

theorem ofBytes_eq_flatten (bytes : Bytes) :
    ofBytes bytes = (bytes.map fun byte ↦ ofNat 8 byte.toNat).flatten :=
  List.flatMap_def

/-- Bytes are found again before less than a byte. -/
theorem groups_ofBytes (bytes : Bytes) {left : List Bool} (hleft : left.length ≤ 7) :
    groups 7 (ofBytes bytes ++ left) = (bytes.map fun byte ↦ ofNat 8 byte.toNat, left) := by
  rw [ofBytes_eq_flatten]
  refine groups_flatten (fun group hgroup ↦ ?_) hleft
  obtain ⟨byte, -, rfl⟩ := List.mem_map.mp hgroup
  exact length_ofNat _ _

theorem toUInt8_ofNat (byte : UInt8) : UInt8.ofNat (toNat (ofNat 8 byte.toNat)) = byte := by
  rw [toNat_ofNat, Nat.mod_eq_of_lt byte.toNat_lt, UInt8.ofNat_toNat]

end Bits

namespace Multibase.Radix

variable {radix : Radix}

/-- Every digit is read as what it was written for. -/
def ReadsDigits (radix : Radix) : Prop :=
  ∀ n < 2 ^ (radix.extra + 1), radix.value? (radix.alphabet.getD n '=') = some n

/-- What is written for bytes are groups of one width, whose bits are those of the bytes and less
than a group of zeros. -/
theorem exists_encode (radix : Radix) (bytes : Bytes) :
    ∃ whole : List (List Bool), ∃ zeros ≤ radix.extra,
      (∀ group ∈ whole, group.length = radix.extra + 1) ∧
      whole.flatten = Bits.ofBytes bytes ++ List.replicate zeros false ∧
      radix.encode bytes = whole.map fun bits ↦ radix.alphabet.getD (Bits.toNat bits) '=' := by
  obtain ⟨hwhole, hleft, -⟩ := Bits.groups_spec radix.extra (Bits.ofBytes bytes)
  have hflatten := Bits.flatten_groups radix.extra (Bits.ofBytes bytes)
  rw [encode]
  generalize Bits.groups radix.extra (Bits.ofBytes bytes) = parts at *
  obtain ⟨whole, left⟩ := parts
  dsimp only at *
  split
  · rename_i hnil
    subst hnil
    exact ⟨_, 0, Nat.zero_le _, by simpa using hwhole, by simpa using hflatten, rfl⟩
  · rename_i hne
    have hpos := List.length_pos_iff.mpr hne
    refine ⟨_, radix.extra + 1 - left.length, by omega, ?_, ?_, rfl⟩
    · intro group hgroup
      rcases List.mem_append.mp hgroup with hmem | hmem
      · exact hwhole group hmem
      · rw [List.mem_singleton.mp hmem, List.length_append, List.length_replicate]
        omega
    · rw [List.flatten_append, List.flatten_singleton, ← List.append_assoc, hflatten]

/-- The digits of bytes are read as these bytes. -/
theorem decodeDigits_encode (hreads : radix.ReadsDigits) (hextra : radix.extra ≤ 7) (bytes : Bytes) :
    radix.decodeDigits (radix.encode bytes) = some bytes := by
  obtain ⟨whole, zeros, hzeros, hwhole, hflatten, hencode⟩ := radix.exists_encode bytes
  have hvalues : (radix.encode bytes).mapM radix.value? = some (whole.map Bits.toNat) := by
    rw [hencode]
    clear hencode hflatten
    induction whole with
    | nil => rfl
    | cons group whole ih =>
      obtain ⟨hgroup, hwhole⟩ := List.forall_mem_cons.mp hwhole
      have hlt : Bits.toNat group < 2 ^ (radix.extra + 1) := hgroup ▸ Bits.toNat_lt group
      rw [List.map_cons, List.mapM_cons, hreads _ hlt, ih hwhole]
      rfl
  have hbits : (whole.map Bits.toNat).flatMap (Bits.ofNat (radix.extra + 1)) =
      Bits.ofBytes bytes ++ List.replicate zeros false := by
    rw [← hflatten, List.flatMap_def, List.map_map]
    refine congrArg List.flatten ((List.map_congr_left fun group hgroup ↦ ?_).trans whole.map_id)
    change Bits.ofNat (radix.extra + 1) (Bits.toNat group) = group
    rw [← hwhole group hgroup, Bits.ofNat_toNat]
  have hgroups : Bits.groups 7 (Bits.ofBytes bytes ++ List.replicate zeros false) = _ :=
    Bits.groups_ofBytes bytes (by rw [List.length_replicate]; omega)
  have hleft : (List.replicate zeros false).length ≤ radix.extra ∧
      (List.replicate zeros false).all not := by simp [hzeros]
  have hguard : (guard ((List.replicate zeros false).length ≤ radix.extra ∧
      (List.replicate zeros false).all not) : Option Unit) = some () := if_pos hleft
  have hbytes : (bytes.map fun byte ↦ Bits.ofNat 8 byte.toNat).map
      (fun bits ↦ UInt8.ofNat (Bits.toNat bits)) = bytes := by
    simp [Function.comp_def, Bits.toUInt8_ofNat]
  rw [decodeDigits, hvalues]
  dsimp only [Option.bind_eq_bind, Option.bind_some]
  rw [hbits, hgroups]
  dsimp only
  rw [hguard, hbytes]
  rfl

end Multibase.Radix

theorem Multibase.readsDigits_base32 : base32.ReadsDigits := by
  unfold Radix.ReadsDigits
  decide +kernel

theorem Varint.encode_ne_nil (n : Nat) : encode n ≠ [] := by
  rw [encode]
  split <;> exact List.cons_ne_nil _ _

namespace Cid

/-- An identifier is read in parts. -/
theorem ofBytes_of_readHash {bytes rest tail digest : Bytes} {codec code : Nat}
    (hversion : readNumber bytes = .ok (1, rest)) (hcodec : readNumber rest = .ok (codec, tail))
    (hhash : readHash tail = some (code, digest)) : ofBytes bytes = .ok ⟨1, codec, code, digest⟩ := by
  have hbare : ¬ (1 = sha256Code ∧ codec = 32) := fun h ↦ absurd h.1 (by decide)
  rw [ofBytes, hversion]
  change (readNumber rest >>= _) = _
  rw [hcodec]
  simp [hbare, hhash, bind, Except.bind]

/-- A text without a slash is no path. -/
theorem afterMarker_eq_self {text : List Char} (h : '/' ∉ text) :
    afterMarker "/ipfs/".toList text = text := by
  have hgo : afterMarker.go "/ipfs/".toList text = none := by
    induction text with
    | nil => rfl
    | cons c text ih =>
      have hne : '/' ≠ c := List.ne_of_not_mem_cons h
      have hnot : '/' ∉ text := List.not_mem_of_not_mem_cons h
      have hmarker : "/ipfs/".toList.isPrefixOf (c :: text) = false := by
        change ('/' == c && _) = false
        rw [beq_eq_false_iff_ne.mpr hne, Bool.false_and]
      rw [afterMarker.go, hmarker, if_neg Bool.false_ne_true, ih hnot]
  rw [afterMarker, hgo, Option.getD_none]

theorem toList_toText (cid : Cid) : cid.toText.toList = 'b' :: Multibase.base32.encode cid.toBytes :=
  String.toList_ofList

/-- What an identifier is written as is read as its bytes. -/
theorem parse_toText (cid : Cid) : parse cid.toText = ofBytes cid.toBytes := by
  have hdigits : Multibase.base32.decodeDigits (Multibase.base32.encode cid.toBytes) =
      some cid.toBytes :=
    Multibase.Radix.decodeDigits_encode Multibase.readsDigits_base32 (by decide) _
  have hslash : '/' ∉ cid.toText.toList := by
    rw [toList_toText]
    refine List.not_mem_cons_of_ne_of_not_mem (by decide) fun hmem ↦ ?_
    exact absurd (Multibase.isAlphanum_of_mem_encode hmem) (by decide)
  have hlong : ¬ cid.toText.utf8ByteSize < 2 := by
    have hne : Multibase.base32.encode cid.toBytes ≠ [] := by
      intro hnil
      rw [hnil] at hdigits
      have hbytes : cid.toBytes ≠ [] := by simp [toBytes, Varint.encode_ne_nil]
      have hnone : Multibase.base32.decodeDigits [] = some [] := by decide +kernel
      exact hbytes (Option.some.inj (hdigits.symm.trans hnone))
    have hrest : (String.ofList (Multibase.base32.encode cid.toBytes)).utf8ByteSize ≠ 0 := by
      simpa [String.utf8ByteSize_eq_zero_iff] using hne
    have hhead : ('b' : Char).utf8Size = 1 := rfl
    rw [toText, String.ofList_cons, String.utf8ByteSize_append, String.utf8ByteSize_singleton, hhead]
    omega
  have hbare : looksBare cid.toText.toList = false := by
    rw [toList_toText]
    rfl
  have hdecode : Multibase.decode cid.toText.toList = some cid.toBytes := by
    rw [toList_toText]
    exact hdigits
  rw [parse, afterMarker_eq_self hslash, String.ofList_toList, if_neg hlong, hbare,
    if_neg Bool.false_ne_true, hdecode]

end Cid

namespace ContentId

/-- A content id is read as the digest it was written for. -/
theorem toDigest_ofDigest (digest : Node) : toDigest (ofDigest digest) = .ok digest := by
  have hhash : Cid.readHash ([146, 32, 32] ++ digest.toList) =
      some (truncatedHashCode, digest.toList) := by
    change (if 32 ≤ 64 ∧ 32 ≤ digest.toList.length then
      some (truncatedHashCode, digest.toList.take 32) else none) = _
    rw [if_pos ⟨by decide, Nat.le_of_eq digest.length_toList.symm⟩,
      List.take_of_length_le (Nat.le_of_eq digest.length_toList)]
  have hread : Cid.ofBytes ([1, 129, 226, 3, 146, 32, 32] ++ digest.toList) =
      .ok ⟨1, commitmentCodec, truncatedHashCode, digest.toList⟩ :=
    Cid.ofBytes_of_readHash rfl rfl hhash
  have hnode : Node.ofBytes? digest.toList = some digest := by
    rw [Node.ofBytes?, dif_pos digest.length_toList]
    rfl
  rw [toDigest, ofDigest, Cid.parse_toText, toBytes_digest, hread]
  simp [hnode]

end ContentId

end PieceKeeper
