import PieceKeeper.Proofs.Commitment.Sizes

/-!
# Padding

Padded content begins with the content, ends with zeros, and its length is the least power
of two that is large enough.
-/

namespace PieceKeeper

@[simp] theorem pad_nil : pad [] = [] := rfl

theorem pad_of_ne_nil {data : Bytes} (h : data ≠ []) :
    pad data = data ++ List.replicate (nextPowerOfTwo data.length - data.length) 0 := by
  rw [pad, if_neg (by simpa using h)]

theorem length_pad {data : Bytes} (h : data ≠ []) :
    (pad data).length = nextPowerOfTwo data.length := by
  rw [pad_of_ne_nil h, List.length_append, List.length_replicate]
  exact Nat.add_sub_cancel' (le_nextPowerOfTwo _)

@[simp] theorem pad_eq_nil_iff {data : Bytes} : pad data = [] ↔ data = [] := by
  constructor
  · intro h
    by_contra hne
    rw [pad_of_ne_nil hne] at h
    exact hne (List.append_eq_nil_iff.mp h).1
  · rintro rfl
    rfl

/-- Padded content begins with the content. -/
theorem take_length_pad (data : Bytes) : (pad data).take data.length = data := by
  rw [pad]
  split
  · rename_i h
    rw [List.isEmpty_iff.mp h]
    rfl
  · exact List.take_left

/-- Content of at most a power of two of bytes stays so when it is padded. -/
theorem length_pad_le {data : Bytes} {k : Nat} (h : data.length ≤ 2 ^ k) :
    (pad data).length ≤ 2 ^ k := by
  by_cases hne : data = []
  · subst hne
    exact Nat.zero_le _
  · rw [length_pad hne]
    exact nextPowerOfTwo_le h

/-- Padded content is as long as a power of two. -/
theorem exists_length_pad {data : Bytes} (h : data ≠ []) : ∃ k, (pad data).length = 2 ^ k :=
  ⟨_, (length_pad h).trans (nextPowerOfTwo_eq _)⟩

theorem pad_of_length {data : Bytes} {k : Nat} (h : data.length = 2 ^ k) : pad data = data := by
  have hne : data ≠ [] := List.ne_nil_of_length_pos (h ▸ Nat.two_pow_pos k)
  rw [pad_of_ne_nil hne, h, nextPowerOfTwo_two_pow, Nat.sub_self, List.replicate_zero,
    List.append_nil]

@[simp] theorem pad_pad (data : Bytes) : pad (pad data) = pad data := by
  by_cases hne : data = []
  · subst hne
    rfl
  · obtain ⟨k, hlength⟩ := exists_length_pad hne
    exact pad_of_length hlength

/-- Padded content is less than twice as long as the content. -/
theorem length_pad_lt {data : Bytes} (h : data ≠ []) : (pad data).length < 2 * data.length := by
  rw [length_pad h]
  exact nextPowerOfTwo_lt (List.length_pos_iff.mpr h).ne'

/-- Padding leaves content alone that is as long as a power of two, or empty, and no other. -/
theorem pad_eq_self_iff {data : Bytes} : pad data = data ↔ data.length = 0 ∨ ∃ k, data.length = 2 ^ k := by
  constructor
  · intro h
    by_cases hne : data = []
    · exact Or.inl (List.length_eq_zero_iff.mpr hne)
    · obtain ⟨k, hlength⟩ := exists_length_pad hne
      exact Or.inr ⟨k, h ▸ hlength⟩
  · rintro (hempty | ⟨k, hlength⟩)
    · rw [List.length_eq_zero_iff.mp hempty, pad_nil]
    · exact pad_of_length hlength

/-! ## What padding is -/

/-- Content with zeros behind it, up to the least power of two that is large enough.  Of nothing there is
nothing. -/
structure IsPadding (data padded : Bytes) : Prop where
  begins : data <+: padded
  zeros : ∀ byte ∈ padded.drop data.length, byte = 0
  empty : data = [] → padded.length = 0
  least : data ≠ [] → IsLeast {m | data.length ≤ m ∧ ∃ k, m = 2 ^ k} padded.length

theorem isPadding_pad (data : Bytes) : IsPadding data (pad data) := by
  by_cases hne : data = []
  · subst hne
    exact ⟨List.prefix_rfl, fun byte hbyte ↦ absurd hbyte List.not_mem_nil, fun _ ↦ rfl, fun h ↦ absurd rfl h⟩
  · refine ⟨?_, ?_, fun h ↦ absurd h hne, fun _ ↦ ?_⟩
    · rw [pad_of_ne_nil hne]
      exact List.prefix_append _ _
    · intro byte hbyte
      rw [pad_of_ne_nil hne, List.drop_left] at hbyte
      exact List.eq_of_mem_replicate hbyte
    · rw [length_pad hne]
      exact isLeast_nextPowerOfTwo data.length

/-- There is one padding of a content. -/
theorem isPadding_iff {data padded : Bytes} : IsPadding data padded ↔ padded = pad data := by
  refine ⟨fun h ↦ ?_, fun h ↦ h ▸ isPadding_pad data⟩
  obtain ⟨behind, rfl⟩ := h.begins
  have hzeros := h.zeros
  rw [List.drop_left] at hzeros
  by_cases hne : data = []
  · have hlength := h.empty hne
    subst hne
    exact List.length_eq_zero_iff.mp hlength
  · have hlength := (h.least hne).unique (isLeast_nextPowerOfTwo data.length)
    rw [List.length_append] at hlength
    rw [pad_of_ne_nil hne, ← hlength, Nat.add_sub_cancel_left, ← List.eq_replicate_of_mem hzeros]

end PieceKeeper
