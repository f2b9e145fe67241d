import PieceKeeper.Proofs.Commitment.Sector

/-!
# Where the bits of a quad go, and nodes of 254 bits

The nodes of a quad are 128 bytes in a row.  Every bit of the quad stands at one place in them, every
other place is clear, and so the quad can be gathered again.  No index leaves its bytes.

The clear places are the two highest bits of each node: a node that comes from a quad, or from joining two
nodes, is a number of 254 bits.  All nodes that an accumulator holds are of that kind, and so are the
digests of commitments and the roots of sectors.
-/

namespace PieceKeeper

/-! ## Bits of bytes -/

/-- The bit with a number in bytes, counted from the lowest bit of the first; behind them there are only
clear bits. -/
def bitOf (bytes : Bytes) (k : Nat) : Bool := (bytes.getD (k / 8) 0).toNat.testBit (k % 8)

theorem bitOf_toList {n : Nat} (bytes : Vector UInt8 n) (k : Nat) : bitOf bytes.toList k = bitAt bytes k := by
  rw [bitOf, bitAt, List.getD_eq_getElem?_getD, Vector.getElem?_toList]

theorem bitAt_of_le {n : Nat} (bytes : Vector UInt8 n) {k : Nat} (h : 8 * n ≤ k) : bitAt bytes k = false := by
  rw [bitAt, Vector.getElem?_eq_none (by omega)]
  exact Nat.zero_testBit _

/-- The number that bytes stand for, the lowest first. -/
def littleEndian (bytes : Bytes) : Nat := bytes.foldr (fun byte high ↦ 2 ^ 8 * high + byte.toNat) 0

theorem testBit_littleEndian (bytes : Bytes) (k : Nat) : (littleEndian bytes).testBit k = bitOf bytes k := by
  induction bytes generalizing k with
  | nil => simp [littleEndian, bitOf]
  | cons byte bytes ih =>
    have hsplit : littleEndian (byte :: bytes) = 2 ^ 8 * littleEndian bytes + byte.toNat := rfl
    rw [hsplit, Nat.testBit_two_pow_mul_add _ byte.toNat_lt, ih]
    rcases Nat.lt_or_ge k 8 with hlow | hhigh
    · have hdiv : k / 8 = 0 := by omega
      rw [if_pos hlow, bitOf, hdiv, List.getD_cons_zero, Nat.mod_eq_of_lt hlow]
    · have hdiv : k / 8 = (k - 8) / 8 + 1 := by omega
      have hmod : k % 8 = (k - 8) % 8 := by omega
      rw [if_neg (Nat.not_lt.mpr hhigh), bitOf, bitOf, hdiv, hmod, List.getD_cons_succ]

namespace Node

/-! ## Nodes of 254 bits -/

/-- The number that a node stands for. -/
def value (node : Node) : Nat := littleEndian node.toList

/-- A node is a number of 254 bits. -/
def Fits (node : Node) : Prop := node.value < 2 ^ 254

variable {node zeros : Node}

theorem testBit_value (node : Node) (k : Nat) : node.value.testBit k = bitAt node k := by
  rw [value, testBit_littleEndian, bitOf_toList]

/-- A node fits if its two highest bits are clear. -/
theorem fits_iff : node.Fits ↔ bitAt node 254 = false ∧ bitAt node 255 = false := by
  simp only [← testBit_value]
  constructor
  · intro h
    exact ⟨Nat.testBit_lt_two_pow h, Nat.testBit_lt_two_pow (h.trans (by decide))⟩
  · rintro ⟨hlow, hhigh⟩
    refine Nat.lt_pow_two_of_testBit _ fun k hk ↦ ?_
    rcases Nat.lt_or_ge k 256 with hlt | hge
    · obtain rfl | rfl : k = 254 ∨ k = 255 := by omega
      · exact hlow
      · exact hhigh
    · rw [testBit_value]
      exact bitAt_of_le node hge

theorem fits_trim (node : Node) : node.trim.Fits := by
  rw [fits_iff, bitAt_trim _ (by decide), bitAt_trim _ (by decide)]
  exact ⟨Bool.and_false _, Bool.and_false _⟩

/-- Joining makes a node that fits of any two. -/
theorem fits_join (left right : Node) : (left.join right).Fits := fits_trim _

theorem bitAt_zero {k : Nat} (hk : k < 256) : bitAt zero k = false := by
  have hj : k / 8 < 32 := by omega
  rw [bitAt, zero, Vector.getElem?_eq_getElem hj, Vector.getElem_replicate]
  exact Nat.zero_testBit _

theorem fits_zero : zero.Fits := fits_iff.mpr ⟨bitAt_zero (by decide), bitAt_zero (by decide)⟩

theorem fits_zeroRoot : ∀ level, (zeroRoot level).Fits
  | 0 => fits_zero
  | _ + 1 => fits_join _ _

theorem Fits.extend (h : node.Fits) (steps : Nat) : (node.extend steps zeros).Fits := by
  induction steps generalizing node zeros with
  | zero => exact h
  | succ steps ih => exact ih (fits_join node zeros)

end Node

namespace Quad

theorem fits_of_mem_expand {quad : Quad} {node : Node} (h : node ∈ quad.expand) : node.Fits := by
  obtain ⟨run, -, rfl⟩ := List.mem_map.mp h
  exact Node.fits_trim _

/-! ## The bytes of a quad's nodes -/

/-- The bytes of the nodes of a quad in a row. -/
def spread (quad : Quad) : Bytes := quad.expand.flatMap Vector.toList

/-- Where a bit of a quad goes: to the node of its run of 254 bits, each node having 256. -/
def place (b : Nat) : Nat := 256 * (b / 254) + b % 254

/-- Nodes in a row: each of them has 256 bits. -/
theorem bitOf_flatMap (nodes : List Node) (k : Nat) :
    bitOf (nodes.flatMap Vector.toList) k = bitAt (nodes.getD (k / 256) .zero) (k % 256) := by
  induction nodes generalizing k with
  | nil =>
    rw [List.getD_nil, Node.bitAt_zero (Nat.mod_lt _ (by decide))]
    simp [bitOf]
  | cons node nodes ih =>
    rw [List.flatMap_cons]
    rcases Nat.lt_or_ge k 256 with hfirst | hlater
    · have hbyte : k / 8 < node.toList.length := by
        rw [Vector.length_toList]
        omega
      rw [Nat.div_eq_of_lt hfirst, Nat.mod_eq_of_lt hfirst, List.getD_cons_zero, ← bitOf_toList, bitOf, bitOf,
        List.getD_append _ _ _ _ hbyte]
    · have hbyte : node.toList.length ≤ k / 8 := by
        rw [Vector.length_toList]
        omega
      have hback : k / 8 - node.toList.length = (k - 256) / 8 := by
        rw [Vector.length_toList]
        omega
      have hbit : k % 8 = (k - 256) % 8 := by omega
      have hnode : k / 256 = (k - 256) / 256 + 1 := by omega
      have hplace : k % 256 = (k - 256) % 256 := by omega
      rw [hnode, hplace, List.getD_cons_succ, ← ih, bitOf, bitOf, List.getD_append_right _ _ _ _ hbyte, hback, hbit]

variable {quad : Quad}

@[simp] theorem length_spread (quad : Quad) : quad.spread.length = 128 := by
  simp [spread, expand, List.length_flatMap, Function.comp_def]

/-- The bits of the nodes of a quad are the bits of its runs, and two clear bits behind each run. -/
theorem bitOf_spread (quad : Quad) {k : Nat} (hk : k < 1024) :
    bitOf quad.spread k = (bitAt quad (254 * (k / 256) + k % 256) && decide (k % 256 < 254)) := by
  have hrun : k / 256 < 4 := by omega
  have hnode : quad.expand.getD (k / 256) .zero = quad.slot (k / 256) := by
    rw [expand, List.getD_eq_getElem _ _ (by simpa using hrun), List.getElem_map, List.getElem_range]
  rw [spread, bitOf_flatMap, hnode, bitAt_slot _ _ (Nat.mod_lt k (by decide))]

/-- Every bit of a quad is found at its place. -/
theorem bitOf_spread_place (quad : Quad) {b : Nat} (hb : b < 1016) : bitOf quad.spread (place b) = bitAt quad b := by
  have hrun : place b / 256 = b / 254 := by
    rw [place]
    omega
  have hrest : place b % 256 = b % 254 := by
    rw [place]
    omega
  rw [bitOf_spread quad (by rw [place]; omega), hrun, hrest, Nat.div_add_mod,
    decide_eq_true (Nat.mod_lt b (by decide : 254 > 0)), Bool.and_true]

/-- Where no bit of a quad goes, there is a clear bit. -/
theorem bitOf_spread_of_ne (quad : Quad) {k : Nat} (hk : k < 1024) (h : ∀ b < 1016, k ≠ place b) :
    bitOf quad.spread k = false := by
  rw [bitOf_spread quad hk]
  rcases Nat.lt_or_ge (k % 256) 254 with hlow | hhigh
  · refine absurd ?_ (h (254 * (k / 256) + k % 256) (by omega))
    rw [place]
    omega
  · rw [decide_eq_false (Nat.not_lt.mpr hhigh), Bool.and_false]

/-! ## Gathering the bits again -/

/-- The quad whose bits are found at their places in bytes. -/
def gather (bytes : Bytes) : Quad :=
  Vector.ofFn fun i ↦ UInt8.ofNat (Nat.ofBits fun j : Fin 8 ↦ bitOf bytes (place (8 * i + j)))

theorem bitAt_gather (bytes : Bytes) {b : Nat} (hb : b < 1016) : bitAt (gather bytes) b = bitOf bytes (place b) := by
  have hbyte : b / 8 < 127 := by omega
  have hbit : b % 8 < 8 := Nat.mod_lt b (by decide)
  rw [bitAt, Vector.getElem?_eq_getElem hbyte, Option.getD_some, gather, Vector.getElem_ofFn,
    UInt8.toNat_ofNat_of_lt' (Nat.ofBits_lt_two_pow _), Nat.testBit_ofBits_lt _ _ hbit]
  exact congrArg (fun b ↦ bitOf bytes (place b)) (Nat.div_add_mod b 8)

/-- To gather undoes to spread. -/
theorem gather_spread (quad : Quad) : gather quad.spread = quad :=
  eq_of_bitAt fun b hb ↦ by rw [bitAt_gather _ hb, bitOf_spread_place quad hb]

/-! ## Indices -/

/-- The eight bits of a quad from a start on, with every index looked at: there is no answer if one leaves
the quad.  A second byte is read only where the window is not aligned and there is one. -/
def window? (quad : Quad) (start : Nat) : Option UInt8 := do
  let low ← quad[start / 8]?
  if start % 8 = 0 ∨ 127 ≤ start / 8 + 1 then return low >>> UInt8.ofNat (start % 8)
  else
    let high ← quad[start / 8 + 1]?
    return low >>> UInt8.ofNat (start % 8) ||| high <<< (8 - UInt8.ofNat (start % 8))

theorem window?_eq_some (quad : Quad) {start : Nat} (h : start / 8 < 127) :
    quad.window? start = some (quad.window start) := by
  rw [window?, window, Vector.getElem?_eq_getElem h]
  by_cases haligned : start % 8 = 0
  · simp [haligned]
  · rcases Nat.lt_or_ge (start / 8 + 1) 127 with hnext | hlast
    · simp [haligned, Nat.not_le.mpr hnext, Vector.getElem?_eq_getElem hnext]
    · simp [haligned, hlast]

theorem spread_zero : spread (Vector.replicate 127 0) = List.replicate 128 0 := by
  rw [spread, expand_zero]
  rfl

end Quad

/-! ## Digests and roots of sectors -/

/-- All nodes that stand at some level fit. -/
def Levels.Fit (levels : Levels) : Prop := ∀ node, some node ∈ levels → node.Fits

theorem Levels.Fit.place {levels : Levels} {level : Nat} {node : Node} (h : levels.Fit) (hnode : node.Fits) :
    (levels.place level node).Fit := by
  fun_induction Levels.place levels level node with
  | case1 node =>
    intro other hother
    obtain rfl := Option.some.inj (List.mem_singleton.mp hother)
    exact hnode
  | case2 level node ih =>
    intro other hother
    exact ih h hnode other ((List.mem_cons.mp hother).resolve_left (Option.some_ne_none other))
  | case3 above node =>
    intro other hother
    rcases List.mem_cons.mp hother with heq | habove
    · obtain rfl := Option.some.inj heq
      exact hnode
    · exact h other (List.mem_cons_of_mem _ habove)
  | case4 left above node ih =>
    intro other hother
    exact ih (fun other hother ↦ h other (List.mem_cons_of_mem _ hother)) (Node.fits_join left node) other
      ((List.mem_cons.mp hother).resolve_left (Option.some_ne_none other))
  | case5 root above level node ih =>
    intro other hother
    rcases List.mem_cons.mp hother with heq | habove
    · exact h other (List.mem_cons.mpr (Or.inl heq))
    · exact ih (fun other hother ↦ h other (List.mem_cons_of_mem _ hother)) hnode other habove

namespace Accumulator

variable {acc : Accumulator}

/-- Reading and filling put only nodes that fit. -/
theorem isKept_fit : IsKept fun levels _ ↦ levels.Fit where
  leaf h _ _ hleaf := h.place (Quad.fits_of_mem_expand hleaf)
  zeros h := h.place (Node.fits_zeroRoot _)

theorem fits_of_finish {commitment : Commitment} (h : acc.levels.Fit) (hfinish : acc.finish = .ok commitment) :
    commitment.digest.Fits := by
  rw [finish_eq] at hfinish
  split at hfinish
  · cases hfinish
  · split at hfinish
    · rename_i digest hdigest
      cases hfinish
      have hfilled : acc.filled.levels.Fit := isKept_fit.complete (isKept_fit.closed h) _
      refine hfilled digest ?_
      exact List.mem_of_getElem? (Option.join_eq_some_iff.mp hdigest)
    · cases hfinish

end Accumulator

variable {commitment : Commitment}

/-- The digest of a stream fits, whatever the stream. -/
theorem fits_of_ofChunks {chunks : List Bytes} (h : Commitment.ofChunks chunks = .ok commitment) :
    commitment.digest.Fits := by
  rw [ofChunks_eq] at h
  have hempty : Accumulator.empty.levels.Fit := fun _ hnode ↦ absurd hnode List.not_mem_nil
  exact Accumulator.fits_of_finish (Accumulator.isKept_fit.update hempty _) h

/-- The root of a sector fits, if the digest of the piece does. -/
theorem fits_of_sectorRoot {sector : UInt64} {root : Node} (h : commitment.digest.Fits)
    (hroot : commitment.sectorRoot sector = .ok root) : root.Fits := by
  rw [Commitment.sectorRoot] at hroot
  dsimp only at hroot
  split at hroot
  · cases hroot
  · split at hroot
    · cases hroot
    · cases hroot
      exact h.extend _

theorem fits_of_ofContent {data : Bytes} {committed : CommittedPiece}
    (h : CommittedPiece.ofContent data = .ok committed) : committed.commitment.digest.Fits := by
  obtain ⟨hne, hle, rfl⟩ := ofContent_eq_ok.mp h
  exact fits_of_ofChunks (ofChunks_pad hne hle)

/-- **The spreading of bits.**  The nodes of a quad are 128 bytes.  Each of the 1016 bits of the quad is found
in them, those of a run of 254 bits in one node and in their order; there is no other set bit, and to read
them no index leaves the quad.  So the quad is gathered from its nodes again, and zeros are spread to zeros.
The leaves of a quad, what two nodes are joined to, and the digests of streams and contents are numbers of 254
bits, that is, their two highest bits are clear; and so is the root of every sector whose piece has such a
digest. -/
theorem expansion_spreads_bits (quad : Quad) :
    quad.spread.length = 128 ∧
    (∀ b < 1016, bitOf quad.spread (256 * (b / 254) + b % 254) = bitAt quad b) ∧
    (∀ k < 1024, (∀ b < 1016, k ≠ 256 * (b / 254) + b % 254) → bitOf quad.spread k = false) ∧
    (∀ run < 4, ∀ j < 32, quad.window? (254 * run + 8 * j) = some (quad.window (254 * run + 8 * j))) ∧
    Quad.gather quad.spread = quad ∧
    (∀ other : Quad, other.expand = quad.expand → other = quad) ∧
    Quad.spread (Vector.replicate 127 0) = List.replicate 128 0 ∧
    (∀ node : Node, node.Fits ↔ bitAt node 254 = false ∧ bitAt node 255 = false) ∧
    (∀ leaf ∈ quad.expand, leaf.Fits) ∧
    (∀ left right : Node, (left.join right).Fits) ∧
    (∀ chunks commitment, Commitment.ofChunks chunks = .ok commitment → commitment.digest.Fits) ∧
    (∀ data committed, CommittedPiece.ofContent data = .ok committed → committed.commitment.digest.Fits) ∧
    (∀ (commitment : Commitment) sector root, commitment.digest.Fits → commitment.sectorRoot sector = .ok root →
      root.Fits) := by
  refine ⟨quad.length_spread, fun b ↦ quad.bitOf_spread_place, fun k ↦ quad.bitOf_spread_of_ne, ?_,
    quad.gather_spread, fun other ↦ Quad.expand_injective, Quad.spread_zero, fun node ↦ Node.fits_iff,
    fun leaf ↦ Quad.fits_of_mem_expand, Node.fits_join, fun chunks commitment ↦ fits_of_ofChunks,
    fun data committed ↦ fits_of_ofContent, fun commitment sector root ↦ fits_of_sectorRoot⟩
  intro run hrun j hj
  exact quad.window?_eq_some (by omega)

/-- A quad of set bits: the last bit, the first clear place, a window over the last byte, a digest and the root of
a sector. -/
theorem expansion_spreads_bits_all_set :
    bitOf (Quad.spread (Vector.replicate 127 255)) 1021 = true ∧
    bitOf (Quad.spread (Vector.replicate 127 255)) 254 = false ∧
    Quad.window? (Vector.replicate 127 255) (254 * 3 + 8 * 31) = some 0x3f ∧
    (∃ commitment, Commitment.ofChunks [[1]] = .ok commitment ∧ commitment.digest.Fits) ∧
    (∃ committed, CommittedPiece.ofContent [1] = .ok committed ∧ committed.commitment.digest.Fits) ∧
    Node.zero.Fits ∧ ∃ root, (Commitment.mk .zero 128).sectorRoot 256 = .ok root ∧ root.Fits := by
  obtain ⟨-, hplaces, hclear, hindices, -, -, -, hfits, -, -, hstreams, hcontents, hsectors⟩ :=
    expansion_spreads_bits (Vector.replicate 127 255)
  have hlast : bitAt (Vector.replicate 127 (255 : UInt8)) 1015 = true := by decide +kernel
  have hwindow : Quad.window (Vector.replicate 127 255) (254 * 3 + 8 * 31) = 0x3f := by decide +kernel
  have hstream : Commitment.ofChunks [[1]] = .ok (.ofTree [1]) := ofChunks_eq_ofTree (by decide) (by decide)
  have hcontent : CommittedPiece.ofContent [1] = .ok ⟨pad [1], .ofTree (pad [1])⟩ :=
    ofContent_eq_ofTree (by decide) (by decide)
  have hzero : Node.zero.Fits := (hfits .zero).mpr ⟨Node.bitAt_zero (by decide), Node.bitAt_zero (by decide)⟩
  have hsector : FitsSector 128 256 := ⟨⟨7, rfl⟩, by decide, ⟨8, rfl⟩, by decide⟩
  obtain ⟨_, _, -, -, hroot⟩ := hsector.sectorRoot_eq_root .zero
  exact ⟨(hplaces 1015 (by decide)).trans hlast, hclear 254 (by decide) (by intro b hb; omega),
    (hindices 3 (by decide) 31 (by decide)).trans (congrArg some hwindow), ⟨_, hstream, hstreams _ _ hstream⟩,
    ⟨_, hcontent, hcontents _ _ hcontent⟩, hzero, _, hroot, hsectors _ _ _ hzero hroot⟩

end PieceKeeper
