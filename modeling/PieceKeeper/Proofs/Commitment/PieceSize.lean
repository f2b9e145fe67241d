import PieceKeeper.Proofs.Commitment.Sector

/-!
# The size of a piece

Padding is determined by what it is: content, zeros behind it, and the least power of two as its length.
The size of a piece is determined by the length of its padded content: twice as large, for the quads of a
power of two just do not fit into as many nodes, and at least one quad.  So it is a power of two that a
sector can hold, and only a smaller sector refuses it.
-/

namespace PieceKeeper

/-- A sector that has no room for a piece. -/
def Commitment.misfit (commitment : Commitment) (sector : UInt64) : Cause :=
  .validation ("piece size " ++ toString commitment.pieceSize.toNat ++ " does not fit sector size "
    ++ toString sector.toNat)

/-- A piece of a valid size is refused by a smaller sector for its size. -/
theorem Commitment.sectorRoot_of_lt {commitment : Commitment} {sector : UInt64}
    (hpower : ∃ k, commitment.pieceSize.toNat = 2 ^ k) (hleast : minPieceSize ≤ commitment.pieceSize)
    (hlt : sector < commitment.pieceSize) : commitment.sectorRoot sector = refuse (commitment.misfit sector) := by
  have hvalid : ¬ (¬ isPowerOfTwo commitment.pieceSize.toNat = true ∨ commitment.pieceSize < minPieceSize) := by
    rintro (hnot | hsmall)
    · exact hnot (isPowerOfTwo_iff.mpr hpower)
    · exact UInt64.not_lt.mpr hleast hsmall
  rw [sectorRoot]
  dsimp only
  rw [if_neg hvalid, if_pos (Or.inr (UInt64.lt_iff_toNat_lt.mp hlt))]
  rfl

/-- The sizes of a committed content. -/
structure CommittedPiece.HasSizes (committed : CommittedPiece) (data : Bytes) : Prop where
  padded : committed.padded = pad data
  /-- The number of padded bytes is told as it is. -/
  paddedSize : committed.paddedSize.toNat = (pad data).length
  /-- The size of the piece, which does not wrap around. -/
  pieceSize : committed.commitment.pieceSize.toNat =
    if committed.paddedSize.toNat ≤ 64 then 128 else 2 * committed.paddedSize.toNat
  power : ∃ k, 7 ≤ k ∧ k < 64 ∧ committed.commitment.pieceSize.toNat = 2 ^ k
  refused : ∀ sector : UInt64, (∃ k, sector.toNat = 2 ^ k) → sector < committed.commitment.pieceSize →
    committed.commitment.sectorRoot sector = refuse (committed.commitment.misfit sector)
  held : ∀ sector : UInt64, (∃ k, sector.toNat = 2 ^ k) → committed.commitment.pieceSize ≤ sector →
    ∃ root, committed.commitment.sectorRoot sector = .ok root

variable {data : Bytes}

/-- The size of a piece is a power of two, from that of one quad up. -/
theorem exists_pieceSize_ofTree_pad (hne : data ≠ []) (hle : data.length ≤ 2 ^ 62) :
    ∃ k, 7 ≤ k ∧ k < 64 ∧ (Commitment.ofTree (pad data)).pieceSize.toNat = 2 ^ k := by
  obtain ⟨c, hlength⟩ := exists_length_pad hne
  have hsize := toNat_pieceSize_ofTree_pad hne hle
  have hlt := (Commitment.ofTree (pad data)).pieceSize.toNat_lt
  rw [hlength] at hsize
  split at hsize
  · exact ⟨7, Nat.le_refl 7, by decide, hsize⟩
  · rename_i hlarge
    have hlow : 6 < c := (Nat.pow_lt_pow_iff_right (by decide)).mp (Nat.not_le.mp hlarge : 2 ^ 6 < 2 ^ c)
    rw [← pow_succ'] at hsize
    rw [hsize, Nat.pow_lt_pow_iff_right (by decide)] at hlt
    exact ⟨c + 1, by omega, hlt, hsize⟩

theorem hasSizes_ofTree_pad (hne : data ≠ []) (hle : data.length ≤ 2 ^ 62) :
    (CommittedPiece.mk (pad data) (.ofTree (pad data))).HasSizes data := by
  obtain ⟨k, hk, hlt, hsize⟩ := exists_pieceSize_ofTree_pad hne hle
  have hpadded : (UInt64.ofNat (pad data).length).toNat = (pad data).length :=
    UInt64.toNat_ofNat_of_lt' ((length_pad_le hle).trans_lt (by decide))
  have hleast : minPieceSize ≤ (Commitment.ofTree (pad data)).pieceSize := by
    have hquad : 2 ^ 7 ≤ 2 ^ k := Nat.pow_le_pow_right (by decide) hk
    rw [UInt64.le_iff_toNat_le, hsize]
    exact hquad
  refine ⟨rfl, hpadded, ?_, ⟨k, hk, hlt, hsize⟩, fun sector _ hlt ↦ ?_, fun sector hsector hroom ↦ ?_⟩
  · rw [CommittedPiece.paddedSize, hpadded]
    exact toNat_pieceSize_ofTree_pad hne hle
  · exact Commitment.sectorRoot_of_lt ⟨k, hsize⟩ hleast hlt
  · obtain ⟨_, _, -, -, hroot⟩ := FitsSector.sectorRoot_eq_root ⟨⟨k, hsize⟩, hleast, hsector, hroom⟩
      (Commitment.ofTree (pad data)).digest
    exact ⟨_, hroot⟩

/-- **Padding and sizes.**  A content has one padding.  It is less than twice as long as the content, it is the
content itself just if that is empty or as long as a power of two, and to pad again changes nothing.  Every
content that is neither empty nor too long is committed to, and the size of its piece goes by the number of
padded bytes: a power of two, from 128 up, that no sector refuses but a smaller one. -/
theorem padding_decides_sizes (data : Bytes) :
    (∀ padded, IsPadding data padded ↔ padded = pad data) ∧
    (data ≠ [] → data.length ≤ (pad data).length ∧ (pad data).length < 2 * data.length) ∧
    (pad data = data ↔ data.length = 0 ∨ ∃ k, data.length = 2 ^ k) ∧
    pad (pad data) = pad data ∧
    (data ≠ [] → data.length ≤ 2 ^ 62 →
      ∃ committed, CommittedPiece.ofContent data = .ok committed ∧ committed.HasSizes data) := by
  refine ⟨fun padded ↦ isPadding_iff, fun hne ↦ ⟨?_, length_pad_lt hne⟩, pad_eq_self_iff, pad_pad data,
    fun hne hle ↦ ⟨_, ofContent_eq_ofTree hne hle, hasSizes_ofTree_pad hne hle⟩⟩
  rw [length_pad hne]
  exact le_nextPowerOfTwo data.length

/-- Sixty-five bytes need as much room as a content of 128 bytes, and that spills into a second quad. -/
theorem padding_decides_sizes_half_quad :
    List.replicate 65 (7 : UInt8) ≠ [] ∧ (List.replicate 65 (7 : UInt8)).length ≤ 2 ^ 62 ∧
    ∃ committed, CommittedPiece.ofContent (List.replicate 65 7) = .ok committed ∧
      committed.paddedSize.toNat = 128 ∧ committed.commitment.pieceSize.toNat = 256 ∧
      committed.commitment.sectorRoot 128 = refuse (.validation "piece size 256 does not fit sector size 128") ∧
      ∃ root, committed.commitment.sectorRoot 256 = .ok root := by
  obtain ⟨-, -, -, -, hsizes⟩ := padding_decides_sizes (List.replicate 65 7)
  obtain ⟨committed, hcommitted, hhas⟩ := hsizes (by decide) (by decide)
  have hlength : (pad (List.replicate 65 7)).length = 128 := by decide +kernel
  have hpadded : committed.paddedSize.toNat = 128 := hhas.paddedSize.trans hlength
  have hpiece : committed.commitment.pieceSize.toNat = 256 := by
    rw [hhas.pieceSize, hpadded]
    rfl
  have hsmaller : 128 < committed.commitment.pieceSize := by
    rw [UInt64.lt_iff_toNat_lt, hpiece]
    decide
  have hequal : committed.commitment.pieceSize ≤ 256 := by
    rw [UInt64.le_iff_toNat_le, hpiece]
    decide
  have hrefused := hhas.refused 128 ⟨7, rfl⟩ hsmaller
  rw [Commitment.misfit, hpiece] at hrefused
  exact ⟨by decide, by decide, committed, hcommitted, hpadded, hpiece, hrefused, hhas.held 256 ⟨8, rfl⟩ hequal⟩

end PieceKeeper
