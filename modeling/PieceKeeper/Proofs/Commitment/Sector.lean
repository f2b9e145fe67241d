import PieceKeeper.Proofs.Commitment.Binding

/-!
# The root of a sector

A sector begins with a piece and is filled up with zeros.  Its root is reached from the root of the piece
by joining zero subtrees that grow as the tree does; it is the root of the whole tree, and the digest that
the content of the piece has when it is itself filled up with zeros.
-/

namespace PieceKeeper

namespace Node

/-! ## Growing zero subtrees -/

/-- Subtrees of zeros side by side are one larger subtree of zeros. -/
theorem root_replicate_zeroRoot (height level : Nat) :
    root height (List.replicate (2 ^ height) (zeroRoot level)) = zeroRoot (level + height) := by
  induction height with
  | zero => rfl
  | succ height ih =>
    rw [pow_succ, mul_two, List.replicate_add, root_append List.length_replicate, ih]
    rfl

/-- The last step of an extension joins the zero subtree that has grown to the size of all the rest. -/
theorem extend_succ (steps level : Nat) (node : Node) :
    node.extend (steps + 1) (zeroRoot level) =
      (node.extend steps (zeroRoot level)).join (zeroRoot (level + steps)) := by
  induction steps generalizing node level with
  | zero => rfl
  | succ steps ih =>
    have hnext := ih (level + 1) (node.join (zeroRoot level))
    rw [Nat.add_right_comm] at hnext
    exact hnext

/-- An extension can be made in two parts. -/
theorem extend_add (steps more level : Nat) (node : Node) :
    node.extend (steps + more) (zeroRoot level) =
      (node.extend steps (zeroRoot level)).extend more (zeroRoot (level + steps)) := by
  induction more with
  | zero => rfl
  | succ more ih => rw [← Nat.add_assoc, extend_succ, ih, extend_succ, Nat.add_assoc]

/-- An extension is the root of the tree over the node and zero subtrees of its size. -/
theorem extend_eq_root (steps level : Nat) (node : Node) :
    node.extend steps (zeroRoot level) =
      root steps (node :: List.replicate (2 ^ steps - 1) (zeroRoot level)) := by
  induction steps with
  | zero => rfl
  | succ steps ih =>
    have hpos := Nat.two_pow_pos steps
    have hsplit : node :: List.replicate (2 ^ (steps + 1) - 1) (zeroRoot level) =
        (node :: List.replicate (2 ^ steps - 1) (zeroRoot level)) ++
          List.replicate (2 ^ steps) (zeroRoot level) := by
      rw [List.cons_append, ← List.replicate_add]
      congr 2
      omega
    have hlength : (node :: List.replicate (2 ^ steps - 1) (zeroRoot level)).length = 2 ^ steps := by
      rw [List.length_cons, List.length_replicate]
      omega
    rw [extend_succ, ih, hsplit, root_append hlength, root_replicate_zeroRoot]

/-- To extend the root of a tree is to put zero leaves behind the tree. -/
theorem extend_root {height : Nat} {leaves : List Node} (hleaves : leaves.length = 2 ^ height) (steps : Nat) :
    (root height leaves).extend steps (zeroRoot height) =
      root (height + steps) (leaves ++ List.replicate (2 ^ (height + steps) - 2 ^ height) zero) := by
  induction steps with
  | zero => simp [extend]
  | succ steps ih =>
    have hle : 2 ^ height ≤ 2 ^ (height + steps) := Nat.pow_le_pow_right (by decide) (Nat.le_add_right _ _)
    have hsplit : List.replicate (2 ^ (height + (steps + 1)) - 2 ^ height) zero =
        List.replicate (2 ^ (height + steps) - 2 ^ height) zero ++
          List.replicate (2 ^ (height + steps)) zero := by
      rw [← List.replicate_add, ← Nat.add_assoc, pow_succ]
      congr 1
      omega
    have hlength : (leaves ++ List.replicate (2 ^ (height + steps) - 2 ^ height) zero).length =
        2 ^ (height + steps) := by
      rw [List.length_append, List.length_replicate, hleaves]
      omega
    rw [extend_succ, ih, hsplit, ← List.append_assoc, ← Nat.add_assoc, root_append hlength, root_replicate_zero]

end Node

/-! ## Pieces in sectors -/

/-- A piece of a size can stand at the start of a sector of a size: both sizes are powers of two, the piece is
not too small to be one, and the sector is not smaller than the piece. -/
structure FitsSector (piece sector : UInt64) : Prop where
  piecePower : ∃ k, piece.toNat = 2 ^ k
  least : minPieceSize ≤ piece
  sectorPower : ∃ k, sector.toNat = 2 ^ k
  le : piece ≤ sector

variable {piece sector larger : UInt64}

/-- In the exponents of sizes: what fits a sector is larger than a leaf by some levels, and the sector is larger
by some more. -/
theorem FitsSector.exists_levels (h : FitsSector piece sector) : ∃ level steps, 2 ≤ level ∧ level + steps < 59 ∧
    piece.toNat = 32 * 2 ^ level ∧ sector.toNat = 32 * 2 ^ (level + steps) := by
  obtain ⟨⟨k, hk⟩, hleast, ⟨n, hn⟩, hle⟩ := h
  have hleast : 2 ^ 7 ≤ 2 ^ k := hk ▸ UInt64.le_iff_toNat_le.mp hleast
  have hle : 2 ^ k ≤ 2 ^ n := hk ▸ hn ▸ UInt64.le_iff_toNat_le.mp hle
  have hlt : 2 ^ n < 2 ^ 64 := hn ▸ sector.toNat_lt
  rw [Nat.pow_le_pow_iff_right (by decide)] at hleast hle
  rw [Nat.pow_lt_pow_iff_right (by decide)] at hlt
  refine ⟨k - 5, n - k, by omega, by omega, ?_, ?_⟩
  · rw [hk]
    conv_lhs => rw [show k = 5 + (k - 5) by omega, pow_add]
    rfl
  · rw [hn]
    conv_lhs => rw [show n = 5 + (k - 5 + (n - k)) by omega, pow_add]
    rfl

/-- The root of a sector that a piece fits is the extension of the piece's root by the levels between them. -/
theorem FitsSector.sectorRoot_eq (h : FitsSector piece sector) {level steps : Nat} (hlt : level + steps < 59)
    (hpiece : piece.toNat = 32 * 2 ^ level) (hsector : sector.toNat = 32 * 2 ^ (level + steps)) (node : Node) :
    (Commitment.mk node piece).sectorRoot sector = .ok (node.extend steps (.zeroRoot level)) := by
  have hvalid : ¬ (¬ isPowerOfTwo piece.toNat = true ∨ piece < minPieceSize) := by
    rintro (hpower | hsmall)
    · exact hpower (isPowerOfTwo_iff.mpr h.piecePower)
    · exact UInt64.not_lt.mpr h.least hsmall
  have hfits : ¬ (¬ isPowerOfTwo sector.toNat = true ∨ sector.toNat < piece.toNat) := by
    rintro (hpower | hsmall)
    · exact hpower (isPowerOfTwo_iff.mpr h.sectorPower)
    · exact Nat.not_lt.mpr (UInt64.le_iff_toNat_le.mp h.le) hsmall
  rw [Commitment.sectorRoot]
  simp only [hvalid, hfits, if_false]
  rw [hpiece, hsector, Nat.mul_div_cancel_left _ (by decide), Nat.mul_div_cancel_left _ (by decide),
    twos_two_pow (by omega), twos_two_pow (by omega), Nat.add_sub_cancel_left]

/-- A piece that does not fit a sector is refused. -/
theorem sectorRoot_eq_refuse (h : ¬ FitsSector piece sector) (node : Node) :
    ∃ detail, (Commitment.mk node piece).sectorRoot sector = refuse (.validation detail) := by
  rw [Commitment.sectorRoot]
  dsimp only
  split
  · exact ⟨_, rfl⟩
  · rename_i hvalid
    split
    · exact ⟨_, rfl⟩
    · rename_i hfits
      rw [not_or, not_not] at hvalid hfits
      refine absurd ⟨isPowerOfTwo_iff.mp hvalid.1, UInt64.not_lt.mp hvalid.2, isPowerOfTwo_iff.mp hfits.1, ?_⟩ h
      exact UInt64.le_iff_toNat_le.mpr (Nat.not_lt.mp hfits.2)

/-- The root of a sector as the root of the tree over the piece and zero pieces of its size. -/
theorem FitsSector.sectorRoot_eq_root (h : FitsSector piece sector) (node : Node) :
    ∃ level steps, piece.toNat = 32 * 2 ^ level ∧ sector.toNat = piece.toNat * 2 ^ steps ∧
      (Commitment.mk node piece).sectorRoot sector =
        .ok (.root steps (node :: List.replicate (2 ^ steps - 1) (.zeroRoot level))) := by
  obtain ⟨level, steps, -, hlt, hpiece, hsector⟩ := h.exists_levels
  refine ⟨level, steps, hpiece, ?_, ?_⟩
  · rw [hpiece, hsector, pow_add, Nat.mul_assoc]
  · rw [h.sectorRoot_eq hlt hpiece hsector, Node.extend_eq_root]

theorem FitsSector.trans (h : FitsSector piece sector) (hlarger : ∃ k, larger.toNat = 2 ^ k)
    (hle : sector ≤ larger) : FitsSector sector larger ∧ FitsSector piece larger :=
  ⟨⟨h.sectorPower, UInt64.le_trans h.least h.le, hlarger, hle⟩,
    ⟨h.piecePower, h.least, hlarger, UInt64.le_trans h.le hle⟩⟩

/-- A sector can be filled up in two parts: to a smaller sector first, which is then a piece of its own. -/
theorem FitsSector.sectorRoot_sectorRoot (h : FitsSector piece sector) (hlarger : ∃ k, larger.toNat = 2 ^ k)
    (hle : sector ≤ larger) (node : Node) :
    ∃ root, (Commitment.mk node piece).sectorRoot sector = .ok root ∧
      (Commitment.mk root sector).sectorRoot larger = (Commitment.mk node piece).sectorRoot larger := by
  obtain ⟨hsecond, hboth⟩ := h.trans hlarger hle
  obtain ⟨level, steps, -, hlt, hpiece, hsector⟩ := h.exists_levels
  obtain ⟨level', more, -, hlt', hsector', hlarger'⟩ := hsecond.exists_levels
  obtain rfl : level' = level + steps :=
    Nat.pow_right_injective (Nat.le_refl 2) (Nat.mul_left_cancel (by decide) (hsector'.symm.trans hsector))
  refine ⟨_, h.sectorRoot_eq hlt hpiece hsector node, ?_⟩
  have hlt'' : level + (steps + more) < 59 := by omega
  rw [hsecond.sectorRoot_eq hlt' hsector' hlarger',
    hboth.sectorRoot_eq hlt'' hpiece (by rw [hlarger', Nat.add_assoc]), Node.extend_add]

/-! ## Contents in sectors -/

namespace Quad

theorem expand_zero : expand (Vector.replicate 127 0) = List.replicate 4 Node.zero := by
  decide +kernel

/-- Behind the end of a stream its quads are zeros. -/
theorem ofStream_of_count_le {bytes : Bytes} {i : Nat} (h : count bytes ≤ i) :
    ofStream bytes i = Vector.replicate 127 0 := by
  refine Vector.ext fun j hj ↦ ?_
  rw [count] at h
  simp only [ofStream, Vector.getElem_ofFn, Vector.getElem_replicate]
  exact List.getD_eq_default _ _ (by omega)

/-- Zeros behind a stream that fill whole quads are zero leaves. -/
theorem leaves_append_zeros {bytes : Bytes} {n m : Nat}
    (h : count (bytes ++ List.replicate n 0) = count bytes + m) :
    leaves (bytes ++ List.replicate n 0) = leaves bytes ++ List.replicate (4 * m) Node.zero := by
  have hstream (i : Nat) : ofStream (bytes ++ List.replicate n 0) i = ofStream bytes i :=
    congrArg Vector.ofFn (funext fun j ↦ getD_append_zeros bytes n (127 * i + j))
  have hzero : (List.range m).flatMap (fun i ↦ (ofStream bytes (count bytes + i)).expand) =
      List.replicate (4 * m) Node.zero := by
    clear h hstream
    induction m with
    | zero => rfl
    | succ m ih =>
      rw [List.range_succ, List.flatMap_append, ih, List.flatMap_singleton,
        ofStream_of_count_le (Nat.le_add_right _ _), expand_zero, ← List.replicate_add, Nat.mul_succ]
  simp only [leaves, h, hstream, List.range_add, List.flatMap_append, List.flatMap_map, hzero]

/-- The tree of a stream that zeros have filled up to the leaves of a complete tree. -/
theorem ofTree_append_zeros_eq {bytes : Bytes} {n steps : Nat}
    (h : 4 * count (bytes ++ List.replicate n 0) = 2 ^ (height bytes + steps)) :
    Commitment.ofTree (bytes ++ List.replicate n 0) =
      ⟨(Commitment.ofTree bytes).digest.extend steps (.zeroRoot (height bytes)),
        UInt64.ofNat (32 * 2 ^ (height bytes + steps))⟩ := by
  have hroom : 4 * count bytes ≤ 2 ^ height bytes := Nat.le_pow_clog (by decide) _
  have hgrow : 2 ^ height bytes ≤ 2 ^ (height bytes + steps) :=
    Nat.pow_le_pow_right (by decide) (Nat.le_add_right _ _)
  have hleaves := @leaves_append_zeros bytes n (count (bytes ++ List.replicate n 0) - count bytes) (by omega)
  have hfill : List.replicate (2 ^ height bytes - 4 * count bytes) Node.zero ++
      List.replicate (2 ^ (height bytes + steps) - 2 ^ height bytes) Node.zero =
        List.replicate (4 * (count (bytes ++ List.replicate n 0) - count bytes)) Node.zero := by
    rw [← List.replicate_add]
    congr 1
    omega
  rw [digest_ofTree, Node.extend_root (length_tree bytes), tree, List.append_assoc, hfill, ← hleaves]
  simp only [Commitment.ofTree, h, Nat.clog_pow 2 _ Nat.one_lt_two, Nat.sub_self, List.replicate_zero,
    List.append_nil]

/-- A tree that is larger than any sector belongs to a stream that is too long for the size of a piece. -/
theorem two_pow_le_of_lt_length {bytes : Bytes} (h : 127 * 2 ^ 56 < bytes.length) :
    2 ^ 64 ≤ 32 * 2 ^ height bytes := by
  have hroom : 4 * count bytes ≤ 2 ^ height bytes := Nat.le_pow_clog (by decide) _
  have hheight : 58 < height bytes := by
    refine (Nat.lt_clog_iff_pow_lt (by decide)).mpr ?_
    rw [count]
    omega
  have hpow : 2 ^ 59 ≤ 2 ^ height bytes := Nat.pow_le_pow_right (by decide) hheight
  omega

theorem toNat_pieceSize_ofTree {bytes : Bytes} (h : bytes.length ≤ 127 * 2 ^ 56) :
    (Commitment.ofTree bytes).pieceSize.toNat = 32 * 2 ^ height bytes := by
  have hpow : 2 ^ height bytes ≤ 2 ^ 58 := Nat.pow_le_pow_right (by decide) (clog_count_le h)
  have hlt : 32 * 2 ^ height bytes < 2 ^ 64 := by omega
  exact UInt64.toNat_ofNat_of_lt' hlt

end Quad

/-- The piece of a stream is large enough for a sector. -/
theorem FitsSector.of_stream {bytes : Bytes} (hne : bytes ≠ []) (hle : bytes.length ≤ 127 * 2 ^ 56)
    (hsector : ∃ k, sector.toNat = 2 ^ k) (hsize : (Commitment.ofTree bytes).pieceSize ≤ sector) :
    FitsSector (Commitment.ofTree bytes).pieceSize sector := by
  have hpiece := Quad.toNat_pieceSize_ofTree hle
  have hlength := List.length_pos_iff.mpr hne
  have hroom : 4 * Quad.count bytes ≤ 2 ^ Quad.height bytes := Nat.le_pow_clog (by decide) _
  refine ⟨⟨5 + Quad.height bytes, by rw [hpiece, pow_add]; rfl⟩, ?_, hsector, hsize⟩
  rw [UInt64.le_iff_toNat_le, hpiece]
  change 128 ≤ 32 * 2 ^ Quad.height bytes
  rw [Quad.count] at hroom
  omega

/-- A content that zeros fill up to the size of a sector is committed to by the root of the sector. -/
theorem ofTree_filled {bytes : Bytes} (hne : bytes ≠ []) (hle : bytes.length ≤ 127 * 2 ^ 56)
    (hsector : ∃ k, sector.toNat = 2 ^ k) (hsize : (Commitment.ofTree bytes).pieceSize ≤ sector) :
    bytes.length ≤ 127 * sector.toNat / 128 ∧ 127 * sector.toNat / 128 ≤ 127 * 2 ^ 56 ∧
    ∃ root, (Commitment.ofTree bytes).sectorRoot sector = .ok root ∧
      Commitment.ofTree (bytes ++ List.replicate (127 * sector.toNat / 128 - bytes.length) 0) = ⟨root, sector⟩ := by
  have hfits := FitsSector.of_stream hne hle hsector hsize
  have hpiece := Quad.toNat_pieceSize_ofTree hle
  obtain ⟨level, steps, hlevel, hlt, hpiece', hsector'⟩ := hfits.exists_levels
  obtain rfl : level = Quad.height bytes :=
    Nat.pow_right_injective (Nat.le_refl 2) (Nat.mul_left_cancel (by decide) (hpiece'.symm.trans hpiece))
  have hroom : 4 * Quad.count bytes ≤ 2 ^ Quad.height bytes := Nat.le_pow_clog (by decide) _
  have hgrow : 2 ^ Quad.height bytes ≤ 2 ^ (Quad.height bytes + steps) :=
    Nat.pow_le_pow_right (by decide) (Nat.le_add_right _ _)
  obtain ⟨quads, hquads⟩ : 2 ^ 2 ∣ 2 ^ (Quad.height bytes + steps) := pow_dvd_pow 2 (by omega)
  have htop : 2 ^ (Quad.height bytes + steps) ≤ 2 ^ 58 := Nat.pow_le_pow_right (by decide) (by omega)
  have hwhole : 127 * sector.toNat / 128 = 127 * quads := by omega
  have hlength : bytes.length ≤ 127 * quads := by
    rw [Quad.count] at hroom
    omega
  have hcount : Quad.count (bytes ++ List.replicate (127 * quads - bytes.length) 0) = quads := by
    rw [Quad.count, List.length_append, List.length_replicate]
    omega
  rw [hwhole]
  refine ⟨hlength, by omega, _, hfits.sectorRoot_eq hlt hpiece hsector' _, ?_⟩
  have hfull : 4 * Quad.count (bytes ++ List.replicate (127 * quads - bytes.length) 0) =
      2 ^ (Quad.height bytes + steps) := by omega
  rw [Quad.ofTree_append_zeros_eq hfull, ← hsector', UInt64.ofNat_toNat]
  rfl

/-- **The root of a sector.**  A piece that fits a sector has a root there, which is the root of the complete tree
over the piece and zero pieces of its size; to fill up a sector and then a larger one is to fill up the larger one.
Whatever does not fit is refused.  The root of a sector that holds the piece of a stream is the digest of the stream
with so many zeros behind it that it is as large as the sector; a stream whose piece has no size is too large for
any sector. -/
theorem sector_root_of_filled_sector (node : Node) (chunks : List Bytes) :
    (∀ piece sector : UInt64, FitsSector piece sector →
      ∃ level steps, piece.toNat = 32 * 2 ^ level ∧ sector.toNat = piece.toNat * 2 ^ steps ∧
        (Commitment.mk node piece).sectorRoot sector =
          .ok (.root steps (node :: List.replicate (2 ^ steps - 1) (.zeroRoot level)))) ∧
    (∀ piece sector larger : UInt64, FitsSector piece sector → FitsSector sector larger →
      ∃ root, (Commitment.mk node piece).sectorRoot sector = .ok root ∧
        (Commitment.mk root sector).sectorRoot larger = (Commitment.mk node piece).sectorRoot larger) ∧
    (∀ piece sector : UInt64, ¬ FitsSector piece sector →
      ∃ detail, (Commitment.mk node piece).sectorRoot sector = refuse (.validation detail)) ∧
    (chunks.flatten ≠ [] → chunks.flatten.length ≤ 127 * 2 ^ 56 →
      ∃ commitment, Commitment.ofChunks chunks = .ok commitment ∧
        commitment.pieceSize.toNat = 32 * 2 ^ Quad.height chunks.flatten ∧
        ∀ sector : UInt64, (∃ k, sector.toNat = 2 ^ k) → commitment.pieceSize ≤ sector →
          chunks.flatten.length ≤ 127 * sector.toNat / 128 ∧
          ∀ filled : List Bytes, filled.flatten =
              chunks.flatten ++ List.replicate (127 * sector.toNat / 128 - chunks.flatten.length) 0 →
            ∃ root, commitment.sectorRoot sector = .ok root ∧ Commitment.ofChunks filled = .ok ⟨root, sector⟩) ∧
    (127 * 2 ^ 56 < chunks.flatten.length →
      ∀ sector : UInt64, sector.toNat < 32 * 2 ^ Quad.height chunks.flatten) := by
  refine ⟨fun piece sector h ↦ h.sectorRoot_eq_root node, fun piece sector larger h hlarger ↦
    h.sectorRoot_sectorRoot hlarger.sectorPower hlarger.le node,
    fun piece sector h ↦ sectorRoot_eq_refuse h node, ?_, ?_⟩
  · intro hne hle
    refine ⟨_, ofChunks_eq_ofTree hne hle, Quad.toNat_pieceSize_ofTree hle, fun sector hsector hsize ↦ ?_⟩
    obtain ⟨hlength, hbound, root, hroot, hfilled⟩ := ofTree_filled hne hle hsector hsize
    refine ⟨hlength, fun filled hflatten ↦ ⟨root, hroot, ?_⟩⟩
    have hfilled_ne : filled.flatten ≠ [] := by
      rw [hflatten]
      exact List.append_ne_nil_of_left_ne_nil hne _
    have hfilled_le : filled.flatten.length ≤ 127 * 2 ^ 56 := by
      rw [hflatten, List.length_append, List.length_replicate]
      omega
    rw [ofChunks_eq_ofTree hfilled_ne hfilled_le, hflatten, hfilled]
  · intro hlong sector
    exact Nat.lt_of_lt_of_le sector.toNat_lt (Quad.two_pow_le_of_lt_length hlong)

/-- A piece of 128 bytes in sectors of 256 and 512 bytes, a piece that is too large, the content of one byte in a
sector of 256 bytes, and a stream that is too long. -/
theorem sector_root_of_one_byte :
    FitsSector 128 256 ∧ FitsSector 256 512 ∧ ¬ FitsSector 256 128 ∧
    (∃ level steps, (128 : UInt64).toNat = 32 * 2 ^ level ∧ (256 : UInt64).toNat = (128 : UInt64).toNat * 2 ^ steps ∧
      (Commitment.mk .zero 128).sectorRoot 256 =
        .ok (.root steps (Node.zero :: List.replicate (2 ^ steps - 1) (.zeroRoot level)))) ∧
    (∃ root, (Commitment.mk .zero 128).sectorRoot 256 = .ok root ∧
      (Commitment.mk root 256).sectorRoot 512 = (Commitment.mk .zero 128).sectorRoot 512) ∧
    (∃ detail, (Commitment.mk .zero 256).sectorRoot 128 = refuse (.validation detail)) ∧
    (∃ commitment root, Commitment.ofChunks [[1]] = .ok commitment ∧ commitment.pieceSize ≤ 256 ∧
      commitment.sectorRoot 256 = .ok root ∧ Commitment.ofChunks [[1], List.replicate 253 0] = .ok ⟨root, 256⟩) ∧
    ∃ bytes : Bytes, 127 * 2 ^ 56 < bytes.length ∧ ∀ sector : UInt64, sector.toNat < 32 * 2 ^ Quad.height bytes := by
  have hfits : FitsSector 128 256 := ⟨⟨7, rfl⟩, by decide, ⟨8, rfl⟩, by decide⟩
  have hlarger : FitsSector 256 512 := ⟨⟨8, rfl⟩, by decide, ⟨9, rfl⟩, by decide⟩
  have hnot : ¬ FitsSector 256 128 := fun h ↦ absurd h.le (by decide)
  obtain ⟨hroot, hparts, hrefused, hstream, -⟩ := sector_root_of_filled_sector .zero [[1]]
  obtain ⟨commitment, hcommitment, hsize, hfilled⟩ := hstream (by decide) (by decide)
  have hheight : Quad.height [[1]].flatten = 2 := Nat.clog_pow 2 2 Nat.one_lt_two
  have hle : commitment.pieceSize ≤ 256 := by
    rw [UInt64.le_iff_toNat_le, hsize, hheight]
    decide
  obtain ⟨-, hchunks⟩ := hfilled 256 ⟨8, rfl⟩ hle
  obtain ⟨root, hsector, hwhole⟩ := hchunks [[1], List.replicate 253 0] (by decide +kernel)
  refine ⟨hfits, hlarger, hnot, hroot 128 256 hfits, hparts 128 256 512 hfits hlarger, hrefused 256 128 hnot,
    ⟨commitment, root, hcommitment, hle, hsector, hwhole⟩, ?_⟩
  obtain ⟨bytes, hbytes⟩ : ∃ bytes : Bytes, 127 * 2 ^ 56 < bytes.length := by
    refine ⟨List.replicate (127 * 2 ^ 56 + 1) 1, ?_⟩
    rw [List.length_replicate]
    omega
  obtain ⟨-, -, -, -, hlong⟩ := sector_root_of_filled_sector .zero [bytes]
  rw [List.flatten_singleton] at hlong
  exact ⟨bytes, hbytes, hlong hbytes⟩

end PieceKeeper
