import PieceKeeper.Proofs.Commitment.Expansion

/-!
# A commitment binds its content up to zeros

Contents that are the same up to zeros at their ends, and take up as much room, have one commitment.
The other way round, contents with one commitment are the same up to zeros, unless at one place of
their trees two different pairs of nodes are joined to one.
-/

namespace PieceKeeper

/-! ## Places in a tree -/

namespace Node

/-- The node at a place of a level of the tree over some leaves, the leaves being level zero. -/
def nodeAt (leaves : List Node) (level index : Nat) : Node :=
  root level ((leaves.drop (2 ^ level * index)).take (2 ^ level))

/-- The two nodes below a place of the next level. -/
def childrenAt (leaves : List Node) (level index : Nat) : Node × Node :=
  (nodeAt leaves level (2 * index), nodeAt leaves level (2 * index + 1))

/-- At one place of two trees of a height, two different pairs of nodes are joined to one. -/
def Collide (height : Nat) (leaves other : List Node) : Prop :=
  ∃ level index, level < height ∧ index < 2 ^ (height - (level + 1)) ∧
    childrenAt leaves level index ≠ childrenAt other level index ∧
    (childrenAt leaves level index).1.join (childrenAt leaves level index).2 =
      (childrenAt other level index).1.join (childrenAt other level index).2

theorem nodeAt_succ (leaves : List Node) (level index : Nat) :
    nodeAt leaves (level + 1) index =
      (childrenAt leaves level index).1.join (childrenAt leaves level index).2 := by
  have hfirst : 2 ^ level * (2 * index) = 2 ^ (level + 1) * index := by rw [pow_succ, mul_assoc]
  have hsecond : 2 ^ level * (2 * index + 1) = 2 ^ (level + 1) * index + 2 ^ level := by
    rw [mul_add, hfirst, mul_one]
  have hhalf : 2 ^ (level + 1) - 2 ^ level = 2 ^ level := by
    rw [pow_succ, mul_two, Nat.add_sub_cancel]
  rw [childrenAt, nodeAt, nodeAt, nodeAt, root, List.take_take, List.drop_take, List.drop_drop, hfirst,
    hsecond, hhalf, min_eq_left (Nat.pow_le_pow_right (by decide) (Nat.le_succ level))]

theorem nodeAt_root {height : Nat} {leaves : List Node} (h : leaves.length = 2 ^ height) :
    nodeAt leaves height 0 = root height leaves := by
  rw [nodeAt, Nat.mul_zero, List.drop_zero, ← h, List.take_length]

theorem nodeAt_zero {leaves : List Node} {index : Nat} (h : index < leaves.length) :
    nodeAt leaves 0 index = leaves[index] := by
  rw [nodeAt, Nat.pow_zero, Nat.one_mul, List.drop_eq_getElem_cons h]
  rfl

variable {height : Nat} {leaves other : List Node}

/-- Without a collision, what is the same on one level is the same on the level below. -/
theorem nodeAt_eq_of_succ (hfree : ¬ Collide height leaves other) {level : Nat} (hlevel : level < height)
    (hsame : ∀ index < 2 ^ (height - (level + 1)),
      nodeAt leaves (level + 1) index = nodeAt other (level + 1) index) :
    ∀ index < 2 ^ (height - level), nodeAt leaves level index = nodeAt other level index := by
  intro index hindex
  have hwidth : 2 ^ (height - level) = 2 * 2 ^ (height - (level + 1)) := by
    rw [← pow_succ']
    exact congrArg _ (by omega)
  have hparent : index / 2 < 2 ^ (height - (level + 1)) := by omega
  have hchildren : childrenAt leaves level (index / 2) = childrenAt other level (index / 2) := by
    by_contra hne
    refine hfree ⟨level, index / 2, hlevel, hparent, hne, ?_⟩
    rw [← nodeAt_succ, ← nodeAt_succ]
    exact hsame _ hparent
  obtain ⟨hleft, hright⟩ := Prod.ext_iff.mp hchildren
  rcases Nat.mod_two_eq_zero_or_one index with heven | hodd
  · have hindex : 2 * (index / 2) = index := by omega
    rwa [childrenAt, childrenAt, hindex] at hleft
  · have hindex : 2 * (index / 2) + 1 = index := by omega
    rwa [childrenAt, childrenAt, hindex] at hright

/-- Trees with one root have the same leaves, or a collision. -/
theorem eq_or_collide_of_root_eq (hleaves : leaves.length = 2 ^ height)
    (hother : other.length = 2 ^ height) (hroot : root height leaves = root height other) :
    leaves = other ∨ Collide height leaves other := by
  by_cases hfree : Collide height leaves other
  · exact Or.inr hfree
  refine Or.inl (List.ext_getElem (hleaves.trans hother.symm) fun index hindex hindex' ↦ ?_)
  -- from the root down to the leaves
  have hlevel (depth : Nat) (hdepth : depth ≤ height) : ∀ index < 2 ^ depth,
      nodeAt leaves (height - depth) index = nodeAt other (height - depth) index := by
    induction depth with
    | zero =>
      intro index hzero
      obtain rfl : index = 0 := Nat.lt_one_iff.mp hzero
      rw [Nat.sub_zero, nodeAt_root hleaves, nodeAt_root hother, hroot]
    | succ depth ih =>
      have hsucc : height - (depth + 1) + 1 = height - depth := by omega
      have hwidth : height - (height - (depth + 1)) = depth + 1 := by omega
      have hbelow := nodeAt_eq_of_succ hfree (by omega : height - (depth + 1) < height)
      rw [hsucc, hwidth, show height - (height - depth) = depth by omega] at hbelow
      exact hbelow (ih (Nat.le_of_succ_le hdepth))
  have hleaf := hlevel height (Nat.le_refl height) index (hleaves ▸ hindex)
  rwa [Nat.sub_self, nodeAt_zero hindex, nodeAt_zero hindex'] at hleaf

end Node

/-! ## The tree of a stream -/

namespace Quad

/-- The height of the tree of a stream. -/
def height (bytes : Bytes) : Nat := Nat.clog 2 (4 * count bytes)

/-- The leaves of the tree of a stream: its own, and zeros behind them. -/
def tree (bytes : Bytes) : List Node :=
  leaves bytes ++ List.replicate (2 ^ height bytes - 4 * count bytes) Node.zero

theorem length_tree (bytes : Bytes) : (tree bytes).length = 2 ^ height bytes := by
  rw [tree, List.length_append, length_leaves, List.length_replicate]
  exact Nat.add_sub_cancel' (Nat.le_pow_clog (by decide) _)

theorem digest_ofTree (bytes : Bytes) :
    (Commitment.ofTree bytes).digest = Node.root (height bytes) (tree bytes) := rfl

end Quad

/-! ## Contents up to zeros -/

/-- The same bytes, when the shorter are extended by zeros. -/
def SameUpToZeros (body other : Bytes) : Prop :=
  body ++ List.replicate (other.length - body.length) 0 =
    other ++ List.replicate (body.length - other.length) 0

instance (body other : Bytes) : Decidable (SameUpToZeros body other) :=
  inferInstanceAs (Decidable (_ = _))

/-- Padded contents take up as much room: they are of one length, or neither fills more than half a
quad. -/
def SameRoom (body other : Bytes) : Prop :=
  (pad body).length = (pad other).length ∨ (pad body).length ≤ 64 ∧ (pad other).length ≤ 64

instance (body other : Bytes) : Decidable (SameRoom body other) :=
  inferInstanceAs (Decidable (_ ∨ _))

variable {body other : Bytes}

theorem sameUpToZeros_iff : SameUpToZeros body other ↔ ∀ k, body.getD k 0 = other.getD k 0 := by
  constructor
  · intro h k
    rw [← getD_append_zeros body (other.length - body.length), h, getD_append_zeros]
  · intro h
    refine List.ext_getElem ?_ fun k hk hk' ↦ ?_
    · rw [List.length_append, List.length_append, List.length_replicate, List.length_replicate]
      omega
    · rw [← List.getD_eq_getElem _ 0 hk, ← List.getD_eq_getElem _ 0 hk', getD_append_zeros,
        getD_append_zeros, h k]

theorem getD_pad (body : Bytes) (k : Nat) : (pad body).getD k 0 = body.getD k 0 := by
  by_cases hne : body = []
  · subst hne
    rfl
  · rw [pad_of_ne_nil hne, getD_append_zeros]

/-- Contents of one padded length that are the same up to zeros are the same when padded. -/
theorem SameUpToZeros.pad_eq (h : SameUpToZeros body other)
    (hlength : (pad body).length = (pad other).length) : pad body = pad other := by
  refine List.ext_getElem hlength fun k hk hk' ↦ ?_
  rw [← List.getD_eq_getElem _ 0 hk, ← List.getD_eq_getElem _ 0 hk', getD_pad, getD_pad]
  exact sameUpToZeros_iff.mp h k

/-- Contents that take up as much room are of as many quads. -/
theorem SameRoom.count_eq (h : SameRoom body other) (hbody : body ≠ []) (hother : other ≠ []) :
    Quad.count (pad body) = Quad.count (pad other) := by
  have hpos := List.length_pos_iff.mpr (pad_eq_nil_iff.not.mpr hbody)
  have hpos' := List.length_pos_iff.mpr (pad_eq_nil_iff.not.mpr hother)
  rw [Quad.count, Quad.count]
  rcases h with hlength | ⟨hle, hle'⟩
  · rw [hlength]
  · omega

/-- The size of a piece tells how much room its content takes up. -/
theorem sameRoom_of_pieceSize_eq (hbody : body ≠ []) (hother : other ≠ [])
    (hle : body.length ≤ 2 ^ 62) (hle' : other.length ≤ 2 ^ 62)
    (h : (Commitment.ofTree (pad body)).pieceSize = (Commitment.ofTree (pad other)).pieceSize) :
    SameRoom body other := by
  have hsize := congrArg UInt64.toNat h
  rw [toNat_pieceSize_ofTree_pad hbody hle, toNat_pieceSize_ofTree_pad hother hle'] at hsize
  rw [SameRoom]
  split at hsize <;> split at hsize <;> omega

/-- Contents with one digest that are of as many quads are the same up to zeros, or there is a
collision. -/
theorem sameUpToZeros_or_collide (hcount : Quad.count (pad body) = Quad.count (pad other))
    (h : (Commitment.ofTree (pad body)).digest = (Commitment.ofTree (pad other)).digest) :
    SameUpToZeros body other ∨
      Node.Collide (Quad.height (pad body)) (Quad.tree (pad body)) (Quad.tree (pad other)) := by
  have hheight : Quad.height (pad other) = Quad.height (pad body) := by
    rw [Quad.height, Quad.height, hcount]
  have hlength := Quad.length_tree (pad other)
  rw [Quad.digest_ofTree, Quad.digest_ofTree, hheight] at h
  rw [hheight] at hlength
  refine (Node.eq_or_collide_of_root_eq (Quad.length_tree _) hlength h).imp_left fun htree ↦ ?_
  have hleaves : Quad.leaves (pad body) = Quad.leaves (pad other) := by
    refine List.append_inj_left htree ?_
    rw [Quad.length_leaves, Quad.length_leaves, hcount]
  refine sameUpToZeros_iff.mpr fun k ↦ ?_
  rw [← getD_pad body, ← getD_pad other]
  exact Quad.getD_eq_of_leaves_eq hcount hleaves k

/-- **Binding.**  Every content that is neither empty nor too long is committed to, by the root of its
tree.  Contents that are the same up to zeros and take up as much room have one commitment and one
content id.  Contents with one digest and one piece size take up as much room, and are the same up to
zeros, or else at one place of their trees two different pairs of nodes are joined to one; and without
such a collision those of 128 padded bytes or more are the same when padded. -/
theorem commitment_binding (hbody : body ≠ []) (hother : other ≠ [])
    (hle : body.length ≤ 2 ^ 62) (hle' : other.length ≤ 2 ^ 62) :
    ∃ committed committed' : CommittedPiece,
      CommittedPiece.ofContent body = .ok committed ∧ CommittedPiece.ofContent other = .ok committed' ∧
      committed.commitment.digest = Node.root (Quad.height (pad body)) (Quad.tree (pad body)) ∧
      committed'.commitment.digest = Node.root (Quad.height (pad other)) (Quad.tree (pad other)) ∧
      (SameRoom body other → SameUpToZeros body other →
        committed.commitment.digest = committed'.commitment.digest ∧
        committed.commitment.pieceSize = committed'.commitment.pieceSize ∧
        committed.contentId = committed'.contentId) ∧
      (committed.commitment.digest = committed'.commitment.digest →
        committed.commitment.pieceSize = committed'.commitment.pieceSize →
        SameRoom body other ∧
        (SameUpToZeros body other ∨
          Node.Collide (Quad.height (pad body)) (Quad.tree (pad body)) (Quad.tree (pad other))) ∧
        (128 ≤ (pad body).length → pad body = pad other ∨
          Node.Collide (Quad.height (pad body)) (Quad.tree (pad body)) (Quad.tree (pad other)))) := by
  refine ⟨_, _, ofContent_eq_ofTree hbody hle, ofContent_eq_ofTree hother hle',
    Quad.digest_ofTree _, Quad.digest_ofTree _, ?_, ?_⟩
  · intro hroom hzeros
    have hsame : Commitment.ofTree (pad body) = .ofTree (pad other) := by
      refine Commitment.ofTree_congr (hroom.count_eq hbody hother) fun k ↦ ?_
      rw [getD_pad, getD_pad]
      exact sameUpToZeros_iff.mp hzeros k
    exact ⟨congrArg Commitment.digest hsame, congrArg Commitment.pieceSize hsame,
      congrArg Commitment.contentId hsame⟩
  · intro hdigest hsize
    have hroom := sameRoom_of_pieceSize_eq hbody hother hle hle' hsize
    have hcases := sameUpToZeros_or_collide (hroom.count_eq hbody hother) hdigest
    refine ⟨hroom, hcases, fun hlarge ↦ hcases.imp_left fun hzeros ↦ hzeros.pad_eq ?_⟩
    rcases hroom with hlength | ⟨hsmall, -⟩
    · exact hlength
    · omega

/-- One byte, and the same byte with a zero behind it. -/
theorem commitment_binding_one_byte :
    ([1] : Bytes) ≠ [] ∧ ([1, 0] : Bytes) ≠ [] ∧ ([1] : Bytes).length ≤ 2 ^ 62 ∧
    ([1, 0] : Bytes).length ≤ 2 ^ 62 ∧ SameRoom [1] [1, 0] ∧ SameUpToZeros [1] [1, 0] ∧
    ∃ committed committed' : CommittedPiece,
      CommittedPiece.ofContent [1] = .ok committed ∧ CommittedPiece.ofContent [1, 0] = .ok committed' ∧
      committed.commitment.digest = committed'.commitment.digest ∧
      committed.commitment.pieceSize = committed'.commitment.pieceSize ∧
      committed.contentId = committed'.contentId := by
  have hroom : SameRoom [1] [1, 0] := by decide +kernel
  have hzeros : SameUpToZeros [1] [1, 0] := by decide
  obtain ⟨committed, committed', hof, hof', -, -, hsame, -⟩ :=
    @commitment_binding [1] [1, 0] (by decide) (by decide) (by decide) (by decide)
  exact ⟨by decide, by decide, by decide, by decide, hroom, hzeros, committed, committed', hof, hof',
    hsame hroom hzeros⟩

end PieceKeeper
