import Mathlib.Data.List.GetD
import PieceKeeper.Proofs.Commitment.Chunks
import PieceKeeper.Proofs.Commitment.Padding
import PieceKeeper.Proofs.Commitment.Tree

/-!
# The streaming commitment is the root of a complete tree

`Commitment.ofTree` says what the commitment to a stream of bytes is, without a stream: the
root of one complete tree.  The accumulator gets there quad by quad, wherever the chunks are cut, as
if it read one byte at a time.  Its invariant is that it holds the leaves of the whole quads read so far
and, in its pending bytes, what is left over; topping up with zero subtrees of growing height then fills
the tree.
-/

namespace PieceKeeper

namespace Quad

/-! ## The leaves of a stream -/

/-- The quad with a number in a stream of bytes.  Behind the end of the stream are zeros. -/
def ofStream (bytes : Bytes) (i : Nat) : Quad := Vector.ofFn fun j ↦ bytes.getD (127 * i + j) 0

/-- How many quads a stream of bytes fills, the last one perhaps in part. -/
def count (bytes : Bytes) : Nat := (bytes.length + 126) / 127

/-- The leaves of a stream of bytes: its quads one after the other, expanded. -/
def leaves (bytes : Bytes) : List Node :=
  (List.range (count bytes)).flatMap fun i ↦ (ofStream bytes i).expand

@[simp] theorem length_expand (quad : Quad) : quad.expand.length = 4 := by simp [expand]

@[simp] theorem length_leaves (bytes : Bytes) : (leaves bytes).length = 4 * count bytes := by
  simp [leaves, List.length_flatMap, mul_comm]

/-- Behind whole quads, up to one quad of bytes adds its four leaves. -/
theorem leaves_append {whole rest : Bytes} (h : 127 ∣ whole.length) (hne : rest ≠ [])
    (hle : rest.length ≤ 127) :
    leaves (whole ++ rest) = leaves whole ++ (ofPrefixBytes rest.toArray).expand := by
  obtain ⟨n, hn⟩ := h
  have hpos := List.length_pos_iff.mpr hne
  have hwhole : count whole = n := by rw [count]; omega
  have hboth : count (whole ++ rest) = n + 1 := by rw [count, List.length_append]; omega
  have hlast : ofStream (whole ++ rest) n = ofPrefixBytes rest.toArray := by
    refine Vector.ext fun j hj ↦ ?_
    simp only [ofStream, ofPrefixBytes, Vector.getElem_ofFn]
    rw [List.getD_append_right _ _ _ _ (by omega), hn, Nat.add_sub_cancel_left]
    simp
  have hearlier : ∀ i ∈ List.range n,
      (ofStream (whole ++ rest) i).expand = (ofStream whole i).expand := by
    intro i hi
    have hin := List.mem_range.mp hi
    refine congrArg expand (Vector.ext fun j hj ↦ ?_)
    simp only [ofStream, Vector.getElem_ofFn]
    rw [List.getD_append _ _ _ _ (by omega)]
  rw [leaves, leaves, hwhole, hboth, List.range_succ, List.flatMap_append,
    List.flatMap_congr hearlier, List.flatMap_singleton, hlast]

end Quad

/-- The commitment to a stream of bytes as the root of one tree: the least complete tree that
has room for the leaves of the stream, with zero leaves behind them. -/
def Commitment.ofTree (bytes : Bytes) : Commitment :=
  let count := 4 * Quad.count bytes
  let height := Nat.clog 2 count
  { digest := Node.root height
      (Quad.leaves bytes ++ List.replicate (2 ^ height - count) Node.zero)
    pieceSize := UInt64.ofNat (32 * 2 ^ height) }

/-- Zeros at the end of bytes cannot be told from what is read behind the end. -/
theorem getD_append_zeros (bytes : Bytes) (n k : Nat) :
    (bytes ++ List.replicate n 0).getD k 0 = bytes.getD k 0 := by
  rcases Nat.lt_or_ge k bytes.length with hlt | hge
  · rw [List.getD_append _ _ _ _ hlt]
  · rw [List.getD_append_right _ _ _ _ hge, List.getD_eq_getElem?_getD,
      List.getElem?_getD_replicate_default_eq, List.getD_eq_default _ _ hge]

/-- Streams of as many quads that are the same up to zeros at their ends have one commitment. -/
theorem Commitment.ofTree_congr {bytes other : Bytes} (hcount : Quad.count bytes = Quad.count other)
    (h : ∀ k, bytes.getD k 0 = other.getD k 0) : ofTree bytes = ofTree other := by
  have hstream (i : Nat) : Quad.ofStream bytes i = Quad.ofStream other i :=
    congrArg Vector.ofFn (funext fun j ↦ h (127 * i + j))
  simp only [ofTree, Quad.leaves, hcount, hstream]

/-- Zeros at the end of a stream show in its commitment only if they begin a new quad. -/
theorem Commitment.ofTree_append_zeros {bytes : Bytes} {n : Nat}
    (hcount : Quad.count (bytes ++ List.replicate n 0) = Quad.count bytes) :
    ofTree (bytes ++ List.replicate n 0) = ofTree bytes :=
  ofTree_congr hcount (getD_append_zeros bytes n)

namespace Accumulator

/-! ## Leaves -/

/-- The accumulator stands for some leaves, and has counted them. -/
def Holds (acc : Accumulator) (leaves : List Node) : Prop :=
  acc.levels.Covers 0 leaves ∧ acc.leaves = leaves.length

theorem Holds.place {acc : Accumulator} {leaves block : List Node} {level : Nat}
    (h : acc.Holds leaves) (hdvd : 2 ^ level ∣ leaves.length) (hblock : block.length = 2 ^ level) :
    (acc.place level (Node.root level block)).Holds (leaves ++ block) := by
  constructor
  · have hplace : Levels.Covers 0 (acc.levels.place level (Node.root (0 + level) block))
        (leaves ++ block) := h.1.place (by rwa [Nat.zero_add]) (by rwa [Nat.zero_add])
    rwa [Nat.zero_add] at hplace
  · rw [List.length_append, hblock, ← h.2]
    rfl

theorem Holds.foldl_place {acc : Accumulator} {leaves : List Node} (h : acc.Holds leaves)
    (more : List Node) :
    (more.foldl (fun acc leaf ↦ acc.place 0 leaf) acc).Holds (leaves ++ more) := by
  induction more generalizing acc leaves with
  | nil => simpa using h
  | cons leaf more ih =>
    have hleaf : (acc.place 0 leaf).Holds (leaves ++ [leaf]) :=
      @Holds.place _ _ [leaf] 0 h (one_dvd _) rfl
    simpa using ih hleaf

theorem foldl_place_consumed (more : List Node) (acc : Accumulator) :
    (more.foldl (fun acc leaf ↦ acc.place 0 leaf) acc).consumed = acc.consumed := by
  induction more generalizing acc with
  | nil => rfl
  | cons leaf more ih => exact ih _

@[simp] theorem flush_consumed (acc : Accumulator) : acc.flush.consumed = acc.consumed :=
  foldl_place_consumed _ _

/-- Flushing turns the pending bytes behind whole quads into leaves. -/
theorem Holds.flush {acc : Accumulator} {whole : Bytes} (h : acc.Holds (Quad.leaves whole))
    (hdvd : 127 ∣ whole.length) (hne : acc.pending.toList ≠ [])
    (hle : acc.pending.toList.length ≤ 127) :
    acc.flush.Holds (Quad.leaves (whole ++ acc.pending.toList)) := by
  rw [Quad.leaves_append hdvd hne hle, Array.toArray_toList]
  exact @Holds.foldl_place { acc with pending := #[] } _ h _

/-! ## Reading bytes -/

/-- What an accumulator holds that has read some bytes: the leaves of the whole quads among
them, and the bytes behind those. -/
def Reads (acc : Accumulator) (bytes : Bytes) : Prop :=
  acc.consumed = bytes.length ∧ acc.pending.size < 127 ∧
    ∃ whole, bytes = whole ++ acc.pending.toList ∧ 127 ∣ whole.length ∧
      acc.Holds (Quad.leaves whole)

theorem reads_empty : Reads .empty [] :=
  ⟨rfl, by decide, [], rfl, dvd_zero _, rfl, rfl⟩

theorem Reads.push {acc : Accumulator} {bytes : Bytes} (h : acc.Reads bytes) (byte : UInt8) :
    (acc.push byte).Reads (bytes ++ [byte]) := by
  obtain ⟨hconsumed, hsize, whole, rfl, hdvd, hholds⟩ := h
  let next : Accumulator :=
    { acc with pending := acc.pending.push byte, consumed := acc.consumed + 1 }
  have hpending : next.pending.toList = acc.pending.toList ++ [byte] := Array.toList_push
  have hnext : next.consumed = (whole ++ acc.pending.toList ++ [byte]).length := by
    rw [List.length_append, ← hconsumed]
    rfl
  have hlength : next.pending.size = acc.pending.size + 1 := Array.size_push byte
  change Reads (if next.pending.size = 127 then next.flush else next) _
  split
  · rename_i hfull
    have hquad : next.pending.toList.length = 127 := Array.length_toList.trans hfull
    refine ⟨by rw [flush_consumed, hnext], by simp, whole ++ next.pending.toList, ?_, ?_, ?_⟩
    · simp [hpending]
    · rw [List.length_append, hquad]
      exact dvd_add hdvd dvd_rfl
    · have hholds' : next.Holds (Quad.leaves whole) := hholds
      refine hholds'.flush hdvd ?_ hquad.le
      rw [hpending]
      exact List.concat_ne_nil _ _
  · rename_i hpart
    exact ⟨hnext, by omega, whole, by rw [hpending, List.append_assoc], hdvd, hholds⟩

theorem Reads.feed {acc : Accumulator} {bytes : Bytes} (h : acc.Reads bytes) (chunk : Bytes) :
    (acc.feed chunk).Reads (bytes ++ chunk) := by
  induction chunk generalizing acc bytes with
  | nil => simpa [Accumulator.feed] using h
  | cons byte chunk ih => simpa [Accumulator.feed] using ih (h.push byte)

/-- Reading chunks is reading their bytes, wherever they are cut. -/
theorem Reads.foldl_update {acc : Accumulator} {bytes : Bytes} (h : acc.Reads bytes)
    (chunks : List Bytes) : chunks.foldl Accumulator.update acc = acc.feed chunks.flatten := by
  induction chunks generalizing acc bytes with
  | nil => rfl
  | cons chunk chunks ih =>
    rw [List.foldl_cons, update_eq_feed h.2.1, ih (h.feed chunk), List.flatten_cons, feed_append]

/-! ## Filling the tree -/

/-- The accumulator with its pending bytes turned into leaves. -/
def closed (acc : Accumulator) : Accumulator := if acc.pending.isEmpty then acc else acc.flush

theorem Reads.holds_closed {acc : Accumulator} {bytes : Bytes} (h : acc.Reads bytes) :
    acc.closed.Holds (Quad.leaves bytes) := by
  obtain ⟨-, hsize, whole, rfl, hdvd, hholds⟩ := h
  rw [closed]
  split
  · rename_i hempty
    rw [Array.isEmpty_iff.mp hempty]
    simpa using hholds
  · rename_i hne
    refine hholds.flush hdvd ?_ (by rw [Array.length_toList]; omega)
    simpa using hne

/-- One round of filling: a zero subtree goes on top of what is there. -/
theorem Holds.place_zeroRoot {acc : Accumulator} {leaves : List Node} {level : Nat}
    (h : acc.Holds leaves) (hdvd : 2 ^ level ∣ leaves.length) :
    (acc.place level (Node.zeroRoot level)).Holds
      (leaves ++ List.replicate (2 ^ level) Node.zero) := by
  rw [← Node.root_replicate_zero]
  exact h.place hdvd List.length_replicate

/-- Filling goes up to the least complete tree.  Every round makes the number of leaves
divisible by a higher power of two, so there are no more rounds than the tree has levels. -/
theorem Holds.complete {room : Nat} :
    ∀ {acc : Accumulator} {leaves : List Node} {level : Nat}, acc.Holds leaves → leaves ≠ [] →
      2 ^ level ∣ leaves.length → Nat.clog 2 leaves.length ≤ level + room →
      Nat.clog 2 leaves.length < 64 →
      (Accumulator.complete room acc).Holds
        (leaves ++ List.replicate (2 ^ Nat.clog 2 leaves.length - leaves.length) Node.zero) := by
  induction room with
  | zero =>
    intro acc leaves level h hne hdvd hroom _
    have hle := Nat.le_pow_clog (b := 2) (by decide) leaves.length
    have hpow : 2 ^ Nat.clog 2 leaves.length ∣ leaves.length := (pow_dvd_pow 2 hroom).trans hdvd
    have hge := Nat.le_of_dvd (List.length_pos_iff.mpr hne) hpow
    rw [Nat.sub_eq_zero_of_le hge, List.replicate_zero, List.append_nil]
    exact h
  | succ room ih =>
    intro acc leaves level h hne hdvd hroom hlt
    have hlength := (List.length_pos_iff.mpr hne).ne'
    rw [Accumulator.complete, h.2]
    split
    · rename_i hpower
      obtain ⟨k, hk⟩ := isPowerOfTwo_iff.mp hpower
      rw [hk, Nat.clog_pow 2 k (by decide), Nat.sub_self, List.replicate_zero, List.append_nil]
      exact h
    · rename_i hpower
      obtain ⟨hdvd', hnext, hle⟩ :=
        add_two_pow_twos hlength (Nat.le_pow_clog (by decide) leaves.length) hlt hpower
      have hbound : leaves.length < 2 ^ 64 :=
        (Nat.le_pow_clog (by decide) leaves.length).trans_lt (Nat.pow_lt_pow_right (by decide) hlt)
      have hlevel := le_twos hlength hbound hdvd
      generalize twos leaves.length = top at hdvd' hnext hle hlevel ⊢
      have hplace := h.place_zeroRoot hdvd'
      have hsum : (leaves ++ List.replicate (2 ^ top) Node.zero).length =
          leaves.length + 2 ^ top := by simp
      have hclog : Nat.clog 2 (leaves.length + 2 ^ top) = Nat.clog 2 leaves.length :=
        le_antisymm (Nat.clog_le_of_le_pow hle) (Nat.clog_mono_right 2 (Nat.le_add_right _ _))
      have hrest := @ih _ _ (top + 1) hplace (by simp [hne]) (by rwa [hsum])
        (by rw [hsum, hclog]; omega) (by rwa [hsum, hclog])
      rwa [hsum, hclog, List.append_assoc, ← List.replicate_add,
        show 2 ^ top + (2 ^ Nat.clog 2 leaves.length - (leaves.length + 2 ^ top)) =
          2 ^ Nat.clog 2 leaves.length - leaves.length by omega] at hrest

/-- While the tree is being filled there are never more leaves than it has room for. -/
theorem complete_leaves_le {room k : Nat} :
    ∀ {acc : Accumulator}, acc.leaves ≠ 0 → acc.leaves ≤ 2 ^ k → k < 64 →
      (Accumulator.complete room acc).leaves ≤ 2 ^ k := by
  induction room with
  | zero =>
    intro acc _ hle _
    exact hle
  | succ room ih =>
    intro acc hne hle hk
    rw [Accumulator.complete]
    split
    · exact hle
    · rename_i hpower
      obtain ⟨-, -, hnext⟩ := add_two_pow_twos hne hle hk hpower
      have hmore : acc.leaves + 2 ^ twos acc.leaves ≠ 0 :=
        (Nat.add_pos_left (Nat.pos_of_ne_zero hne) _).ne'
      exact ih hmore hnext hk

@[simp] theorem complete_consumed (room : Nat) (acc : Accumulator) :
    (Accumulator.complete room acc).consumed = acc.consumed := by
  induction room generalizing acc with
  | zero => rfl
  | succ room ih =>
    rw [Accumulator.complete]
    split
    · rfl
    · exact ih _

@[simp] theorem closed_consumed (acc : Accumulator) : acc.closed.consumed = acc.consumed := by
  rw [closed]
  split
  · rfl
  · exact flush_consumed acc

/-! ## What reading and filling keep -/

/-- What holds of the levels and the number of leaves is kept by the subtrees that reading and
filling put there: leaves of quads, and zero subtrees as high as the lowest bit of the number. -/
structure IsKept (P : Levels → Nat → Prop) : Prop where
  leaf {levels : Levels} {count : Nat} (h : P levels count) {quad : Quad} {leaf : Node}
    (hleaf : leaf ∈ quad.expand) : P (levels.place 0 leaf) (count + 1)
  zeros {levels : Levels} {count : Nat} (h : P levels count) :
    P (levels.place (twos count) (Node.zeroRoot (twos count))) (count + 2 ^ twos count)

section Kept

variable {P : Levels → Nat → Prop} {acc : Accumulator}

theorem IsKept.foldl_place (hP : IsKept P) {quad : Quad} {leaves : List Node}
    (hleaves : ∀ leaf ∈ leaves, leaf ∈ quad.expand) (h : P acc.levels acc.leaves) :
    P (leaves.foldl (fun acc leaf ↦ acc.place 0 leaf) acc).levels
      (leaves.foldl (fun acc leaf ↦ acc.place 0 leaf) acc).leaves := by
  induction leaves generalizing acc with
  | nil => exact h
  | cons leaf leaves ih =>
    obtain ⟨hleaf, hrest⟩ := List.forall_mem_cons.mp hleaves
    exact ih hrest (hP.leaf h hleaf)

theorem IsKept.flush (hP : IsKept P) (h : P acc.levels acc.leaves) :
    P acc.flush.levels acc.flush.leaves := by
  have hcleared : P { acc with pending := #[] }.levels { acc with pending := #[] }.leaves := h
  exact hP.foldl_place (fun _ ↦ id) hcleared

theorem IsKept.absorb (hP : IsKept P) (h : P acc.levels acc.leaves) (bytes : Bytes) :
    P (acc.absorb bytes).levels (acc.absorb bytes).leaves := by
  rw [Accumulator.absorb]
  dsimp only
  split
  · exact hP.flush h
  · exact h

theorem IsKept.fill (hP : IsKept P) (h : P acc.levels acc.leaves) (room : Nat) (bytes : Bytes) :
    P (Accumulator.fill room acc bytes).levels (Accumulator.fill room acc bytes).leaves := by
  induction room generalizing acc bytes with
  | zero => exact h
  | succ room ih =>
    rw [Accumulator.fill]
    split
    · exact h
    · exact ih (hP.absorb h _) _

theorem IsKept.update (hP : IsKept P) (h : P acc.levels acc.leaves) (chunk : Bytes) :
    P (acc.update chunk).levels (acc.update chunk).leaves := by
  have hcounted : P (acc.counting chunk.length).levels (acc.counting chunk.length).leaves := h
  exact hP.fill hcounted _ _

theorem IsKept.closed (hP : IsKept P) (h : P acc.levels acc.leaves) :
    P acc.closed.levels acc.closed.leaves := by
  rw [Accumulator.closed]
  split
  · exact h
  · exact hP.flush h

theorem IsKept.complete (hP : IsKept P) (h : P acc.levels acc.leaves) (room : Nat) :
    P (Accumulator.complete room acc).levels (Accumulator.complete room acc).leaves := by
  induction room generalizing acc with
  | zero => exact h
  | succ room ih =>
    rw [Accumulator.complete]
    split
    · exact h
    · exact ih (hP.zeros h)

end Kept

/-! ## The commitment at the end -/

/-- The accumulator with its tree filled. -/
def filled (acc : Accumulator) : Accumulator :=
  Accumulator.complete (acc.closed.leaves.log2 + 1) acc.closed

theorem finish_eq (acc : Accumulator) :
    acc.finish =
      if acc.consumed = 0 then refuse (.validation "commitment requires at least one byte")
      else
        match acc.filled.levels.root? (twos acc.filled.leaves) with
        | some digest => .ok ⟨digest, UInt64.ofNat (32 * acc.filled.leaves)⟩
        | none => refuse (.internal "commitment tree has no root") := rfl

/-- Finishing gives the commitment to the bytes that were read. -/
theorem Reads.finish {acc : Accumulator} {bytes : Bytes} (h : acc.Reads bytes) (hne : bytes ≠ [])
    (hlt : Nat.clog 2 (4 * Quad.count bytes) < 64) : acc.finish = .ok (.ofTree bytes) := by
  have hlength := List.length_pos_iff.mpr hne
  have hleaves : Quad.leaves bytes ≠ [] := by
    rw [← List.length_pos_iff, Quad.length_leaves, Quad.count]
    omega
  have hclosed := h.holds_closed
  have hroom : Nat.clog 2 (Quad.leaves bytes).length ≤ 0 + (acc.closed.leaves.log2 + 1) := by
    rw [Nat.zero_add, hclosed.2]
    exact Nat.clog_le_of_le_pow Nat.lt_log2_self.le
  have hfilled := hclosed.complete hleaves (one_dvd _) hroom (by simpa using hlt)
  rw [Quad.length_leaves] at hfilled
  obtain ⟨hcovers, hcount⟩ : acc.filled.Holds _ := hfilled
  have hsize : (Quad.leaves bytes ++ List.replicate
      (2 ^ Nat.clog 2 (4 * Quad.count bytes) - 4 * Quad.count bytes) Node.zero).length =
        2 ^ (0 + Nat.clog 2 (4 * Quad.count bytes)) := by
    have := Nat.le_pow_clog (b := 2) (by decide) (4 * Quad.count bytes)
    rw [List.length_append, List.length_replicate, Quad.length_leaves, Nat.zero_add]
    omega
  have hroot := hcovers.root?_eq_root hsize
  rw [hsize] at hcount
  rw [Nat.zero_add] at hcount hroot
  rw [finish_eq, if_neg (by rw [h.1]; omega), hcount, twos_two_pow hlt, hroot]
  rfl

/-- The counters of an accumulator fit into sixty-four bits. -/
def Fits (acc : Accumulator) : Prop := acc.consumed < 2 ^ 64 ∧ acc.leaves < 2 ^ 64

end Accumulator

open Accumulator

/-! ## The commitment to a stream -/

theorem reads_update_empty (bytes : Bytes) : (Accumulator.empty.update bytes).Reads bytes := by
  rw [update_eq_feed reads_empty.2.1]
  exact reads_empty.feed bytes

/-- Wherever a stream is cut into chunks, what has been read in the end is the stream. -/
theorem foldl_update (chunks : List Bytes) :
    chunks.foldl Accumulator.update .empty = Accumulator.empty.update chunks.flatten := by
  rw [reads_empty.foldl_update, update_eq_feed reads_empty.2.1]

theorem ofChunks_eq (chunks : List Bytes) :
    Commitment.ofChunks chunks = (Accumulator.empty.update chunks.flatten).finish := by
  rw [Commitment.ofChunks, foldl_update]

/-- A stream of up to `127 * 2 ^ 56` bytes has at most `2 ^ 58` leaves. -/
theorem clog_count_le {bytes : Bytes} (h : bytes.length ≤ 127 * 2 ^ 56) :
    Nat.clog 2 (4 * Quad.count bytes) ≤ 58 := by
  refine Nat.clog_le_of_le_pow ?_
  rw [Quad.count]
  omega

theorem ofChunks_eq_ofTree {chunks : List Bytes} (hne : chunks.flatten ≠ [])
    (hle : chunks.flatten.length ≤ 127 * 2 ^ 56) :
    Commitment.ofChunks chunks = .ok (.ofTree chunks.flatten) := by
  rw [ofChunks_eq]
  exact (reads_update_empty _).finish hne ((clog_count_le hle).trans_lt (by decide))

theorem CommittedPiece.maxLength_eq : maxLength = 2 ^ 62 := by decide

/-- Padded content as a stream of one chunk. -/
theorem ofChunks_pad {data : Bytes} (hne : data ≠ []) (hle : data.length ≤ 2 ^ 62) :
    Commitment.ofChunks [pad data] = .ok (.ofTree (pad data)) := by
  have hpad : [pad data].flatten = pad data := by simp
  have hlength := length_pad_le hle
  have := @ofChunks_eq_ofTree [pad data] (by simpa using hne) (by rw [hpad]; omega)
  rwa [hpad] at this

theorem ofContent_eq_ofTree {data : Bytes} (hne : data ≠ []) (hle : data.length ≤ 2 ^ 62) :
    CommittedPiece.ofContent data = .ok ⟨pad data, .ofTree (pad data)⟩ := by
  rw [CommittedPiece.ofContent, if_neg (by simpa using hne), CommittedPiece.maxLength_eq,
    if_neg (Nat.not_lt.mpr hle)]
  change Commitment.ofChunks [pad data] >>= _ = _
  rw [ofChunks_pad hne hle]
  rfl

/-- What is committed to is neither empty nor too long. -/
theorem ofContent_eq_ok {data : Bytes} {committed : CommittedPiece} :
    CommittedPiece.ofContent data = .ok committed ↔
      data ≠ [] ∧ data.length ≤ 2 ^ 62 ∧ committed = ⟨pad data, .ofTree (pad data)⟩ := by
  constructor
  · intro h
    have hsize : data ≠ [] ∧ data.length ≤ 2 ^ 62 := by
      rw [CommittedPiece.ofContent, CommittedPiece.maxLength_eq] at h
      split at h
      · cases h
      · split at h
        · cases h
        · rename_i hne hle
          exact ⟨by simpa using hne, Nat.not_lt.mp hle⟩
    rw [ofContent_eq_ofTree hsize.1 hsize.2] at h
    exact ⟨hsize.1, hsize.2, (Except.ok.inj h).symm⟩
  · rintro ⟨hne, hle, rfl⟩
    exact ofContent_eq_ofTree hne hle

/-- The leaves of a padded content take up twice its size, and at least one quad of them. -/
theorem leaves_of_two_pow (k : Nat) :
    32 * 2 ^ Nat.clog 2 (4 * ((2 ^ k + 126) / 127)) = if 2 ^ k ≤ 64 then 128 else 2 * 2 ^ k := by
  rcases Nat.lt_or_ge k 7 with hlt | hle
  · have hsmall : 2 ^ k ≤ 64 := Nat.pow_le_pow_right (by decide) (by omega : k ≤ 6)
    have hpos := Nat.two_pow_pos k
    have hcount : 4 * ((2 ^ k + 126) / 127) = 2 ^ 2 := by omega
    rw [if_pos hsmall, hcount, Nat.clog_pow 2 2 (by decide)]
    rfl
  · obtain ⟨m, rfl⟩ := Nat.exists_eq_add_of_le hle
    have hpos := Nat.two_pow_pos m
    have hsplit : 2 ^ (7 + m) = 128 * 2 ^ m := pow_add 2 7 m
    have hlow : 2 ^ (m + 2) = 4 * 2 ^ m := by rw [Nat.add_comm]; exact pow_add 2 2 m
    have hhigh : 2 ^ (m + 3) = 8 * 2 ^ m := by rw [Nat.add_comm]; exact pow_add 2 3 m
    -- Between `m + 1` and twice as many quads fill the last half of the tree.
    have hlog : Nat.clog 2 (4 * ((2 ^ (7 + m) + 126) / 127)) = m + 3 := by
      refine Nat.le_antisymm (Nat.clog_le_of_le_pow ?_) ((Nat.lt_clog_iff_pow_lt (by decide)).mpr ?_)
      · omega
      · omega
    rw [hlog, if_neg (by omega), hhigh, hsplit]
    omega

theorem toNat_pieceSize_ofTree_pad {data : Bytes} (hne : data ≠ []) (hle : data.length ≤ 2 ^ 62) :
    (Commitment.ofTree (pad data)).pieceSize.toNat =
      if (pad data).length ≤ 64 then 128 else 2 * (pad data).length := by
  have hlength := length_pad_le hle
  have hpower : (pad data).length = 2 ^ Nat.clog 2 data.length := by
    rw [length_pad hne, nextPowerOfTwo_eq]
  have hleaves := leaves_of_two_pow (Nat.clog 2 data.length)
  rw [← hpower] at hleaves
  change (UInt64.ofNat (32 * 2 ^ Nat.clog 2 (4 * (((pad data).length + 126) / 127)))).toNat = _
  have hlt : (if (pad data).length ≤ 64 then 128 else 2 * (pad data).length) < 2 ^ 64 := by
    split <;> omega
  rw [hleaves, UInt64.toNat_ofNat_of_lt' hlt]

theorem Accumulator.Reads.leaves_le {acc : Accumulator} {bytes : Bytes} (h : acc.Reads bytes) :
    acc.leaves ≤ 4 * Quad.count bytes := by
  obtain ⟨-, -, whole, rfl, -, -, hcount⟩ := h
  rw [hcount, Quad.length_leaves, Quad.count, Quad.count, List.length_append]
  omega

/-- **The streaming commitment.**  A stream of bytes, however it is cut into chunks, is
committed to by the root of its complete tree, and no counter overflows on the way: not while
bytes are read, not while the tree is filled, and not in the size of the piece.  Without any
byte there is no commitment.  Content is committed to as the one chunk of its padding. -/
theorem streaming_commitment (chunks : List Bytes) :
    (chunks.flatten = [] →
      ∃ detail, Commitment.ofChunks chunks = refuse (.validation detail)) ∧
    (chunks.flatten ≠ [] → chunks.flatten.length ≤ 127 * 2 ^ 56 →
      Commitment.ofChunks chunks = .ok (.ofTree chunks.flatten) ∧
      (Commitment.ofTree chunks.flatten).pieceSize.toNat =
        32 * 2 ^ Nat.clog 2 (4 * Quad.count chunks.flatten) ∧
      (∀ read rest, chunks.flatten = read ++ rest → (Accumulator.empty.update read).Fits) ∧
      ∀ room, (Accumulator.complete room (chunks.foldl Accumulator.update .empty).closed).Fits) ∧
    (∀ others : List Bytes, others.flatten = chunks.flatten →
      Commitment.ofChunks others = Commitment.ofChunks chunks) ∧
    ∀ data : Bytes, data ≠ [] → data.length ≤ 2 ^ 62 →
      CommittedPiece.ofContent data = .ok ⟨pad data, .ofTree (pad data)⟩ := by
  refine ⟨?_, ?_, ?_, fun data ↦ ofContent_eq_ofTree⟩
  · intro h
    rw [ofChunks_eq, h]
    exact ⟨_, rfl⟩
  · intro hne hle
    have hheight := clog_count_le hle
    have hpow : 2 ^ Nat.clog 2 (4 * Quad.count chunks.flatten) ≤ 2 ^ 58 :=
      Nat.pow_le_pow_right (by decide) hheight
    refine ⟨ofChunks_eq_ofTree hne hle, ?_, ?_, ?_⟩
    · have hbits : 32 * 2 ^ Nat.clog 2 (4 * Quad.count chunks.flatten) < 2 ^ 64 := by omega
      rw [Commitment.ofTree, UInt64.toNat_ofNat_of_lt' hbits]
    · intro read rest hsplit
      have hreads := reads_update_empty read
      have hcount := hreads.leaves_le
      rw [hsplit, List.length_append] at hle
      rw [Quad.count] at hcount
      exact ⟨by rw [hreads.1]; omega, by omega⟩
    · intro room
      rw [foldl_update]
      have hreads := reads_update_empty chunks.flatten
      have hholds := hreads.holds_closed
      have hlength := List.length_pos_iff.mpr hne
      have hcount : (Accumulator.empty.update chunks.flatten).closed.leaves =
          4 * Quad.count chunks.flatten := by rw [hholds.2, Quad.length_leaves]
      have hpos : 4 * Quad.count chunks.flatten ≠ 0 := by rw [Quad.count]; omega
      have hfill := @complete_leaves_le room _ _ (hcount ▸ hpos)
        (hcount ▸ Nat.le_pow_clog (by decide) _) (hheight.trans_lt (by decide))
      exact ⟨by rw [complete_consumed, closed_consumed, hreads.1]; omega, by omega⟩
  · intro others h
    rw [ofChunks_eq, ofChunks_eq, h]

/-- Three bytes in two ways of cutting, no bytes at all, and three bytes as content. -/
theorem streaming_commitment_three_bytes :
    [[1, 2], [], [3]].flatten ≠ ([] : Bytes) ∧
    Commitment.ofChunks [[1, 2], [], [3]] = .ok (.ofTree [1, 2, 3]) ∧
    Commitment.ofChunks [[1], [2, 3]] = Commitment.ofChunks [[1, 2], [], [3]] ∧
    (∃ detail, Commitment.ofChunks [[], []] = refuse (.validation detail)) ∧
    CommittedPiece.ofContent [1, 2, 3] = .ok ⟨[1, 2, 3, 0], .ofTree [1, 2, 3, 0]⟩ := by
  obtain ⟨-, hbytes, hcuts, hcontent⟩ := streaming_commitment [[1, 2], [], [3]]
  have hpad : pad [1, 2, 3] = [1, 2, 3, 0] := by decide +kernel
  refine ⟨by decide, (hbytes (by decide) (by decide)).1, hcuts [[1], [2, 3]] rfl,
    (streaming_commitment [[], []]).1 rfl, ?_⟩
  have := hcontent [1, 2, 3] (by decide) (by decide)
  rwa [hpad] at this

end PieceKeeper
