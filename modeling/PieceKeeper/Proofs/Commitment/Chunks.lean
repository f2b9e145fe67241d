import PieceKeeper.Commitment.Accumulator

/-!
# Chunks of bytes

An accumulator reads a chunk quad by quad: it fills up the quad that is pending, and goes on with what is
left of the chunk.  That is the same as reading byte by byte.  So nothing but the bytes and their order
matters, wherever chunks end.
-/

namespace PieceKeeper.Accumulator

theorem foldl_place_pending (more : List Node) (acc : Accumulator) :
    (more.foldl (fun acc leaf ↦ acc.place 0 leaf) acc).pending = acc.pending := by
  induction more generalizing acc with
  | nil => rfl
  | cons leaf more ih => exact ih _

@[simp] theorem flush_pending (acc : Accumulator) : acc.flush.pending = #[] :=
  foldl_place_pending _ _

/-- Some more bytes have been read. -/
def counting (acc : Accumulator) (n : Nat) : Accumulator := { acc with consumed := acc.consumed + n }

/-- Reads one byte. -/
def push (acc : Accumulator) (byte : UInt8) : Accumulator := (acc.counting 1).absorb [byte]

/-- Reads bytes one by one. -/
def feed (acc : Accumulator) (bytes : Bytes) : Accumulator := bytes.foldl push acc

@[simp] theorem feed_cons (acc : Accumulator) (byte : UInt8) (bytes : Bytes) :
    acc.feed (byte :: bytes) = (acc.push byte).feed bytes := rfl

theorem feed_append (acc : Accumulator) (bytes more : Bytes) :
    acc.feed (bytes ++ more) = (acc.feed bytes).feed more := List.foldl_append

theorem counting_counting (acc : Accumulator) (m n : Nat) :
    (acc.counting m).counting n = acc.counting (m + n) := by
  rw [counting, counting, counting, Nat.add_assoc]

theorem flush_counting (acc : Accumulator) (n : Nat) : (acc.counting n).flush = acc.flush.counting n := by
  have hplace (leaves : List Node) (acc : Accumulator) :
      leaves.foldl (fun acc leaf ↦ acc.place 0 leaf) (acc.counting n) =
        (leaves.foldl (fun acc leaf ↦ acc.place 0 leaf) acc).counting n := by
    induction leaves generalizing acc with
    | nil => rfl
    | cons leaf leaves ih => exact ih (acc.place 0 leaf)
  exact hplace _ { acc with pending := #[] }

/-- How many bytes have been read does not matter for what becomes of them. -/
theorem absorb_counting (acc : Accumulator) (bytes : Bytes) (n : Nat) :
    (acc.counting n).absorb bytes = (acc.absorb bytes).counting n := by
  let joined : Accumulator := { acc with pending := acc.pending ++ bytes }
  have hlater : (acc.counting n).absorb bytes =
      if joined.pending.size = 127 then (joined.counting n).flush else joined.counting n := rfl
  rw [hlater, flush_counting, ← apply_ite (fun acc : Accumulator ↦ acc.counting n)]
  rfl

theorem size_append (pending : Array UInt8) (bytes : Bytes) :
    (pending ++ bytes).size = pending.size + bytes.length := by
  rw [← Array.length_toList, Array.toList_appendList, List.length_append, Array.length_toList]

/-- Bytes that do not fill the quad stay pending. -/
theorem absorb_of_lt {acc : Accumulator} {bytes : Bytes} (h : acc.pending.size + bytes.length < 127) :
    acc.absorb bytes = { acc with pending := acc.pending ++ bytes } := by
  refine if_neg (Nat.ne_of_lt ?_)
  rwa [size_append]

/-- The pending quad is never full. -/
theorem absorb_pending_lt {acc : Accumulator} {bytes : Bytes} (h : acc.pending.size + bytes.length ≤ 127) :
    (acc.absorb bytes).pending.size < 127 := by
  rw [absorb]
  dsimp only
  split
  · rw [flush_pending]
    decide
  · rename_i hpart
    rw [size_append] at hpart ⊢
    omega

/-- Bytes that do not fill the quad are absorbed before the others or together with them. -/
theorem absorb_append {acc : Accumulator} {bytes : Bytes} (h : acc.pending.size + bytes.length < 127)
    (more : Bytes) : acc.absorb (bytes ++ more) = (acc.absorb bytes).absorb more := by
  have hpending : acc.pending ++ (bytes ++ more) = acc.pending ++ bytes ++ more :=
    Array.ext' (by simp only [Array.toList_appendList, List.append_assoc])
  rw [absorb_of_lt h, absorb, absorb, hpending]

/-- Bytes that the quad has room for are absorbed one by one or all at once. -/
theorem feed_of_le {acc : Accumulator} {bytes : Bytes} (hpart : acc.pending.size < 127)
    (hle : acc.pending.size + bytes.length ≤ 127) :
    acc.feed bytes = (acc.counting bytes.length).absorb bytes := by
  induction bytes generalizing acc with
  | nil =>
    have hnil : (acc.counting 0).absorb [] = { acc with pending := acc.pending ++ ([] : Bytes) } :=
      absorb_of_lt (by exact hpart)
    rw [Array.appendList_nil] at hnil
    exact hnil.symm
  | cons byte bytes ih =>
    rw [List.length_cons] at hle
    rw [feed_cons]
    by_cases hfull : acc.pending.size + 1 = 127
    · obtain rfl : bytes = [] := List.eq_nil_of_length_eq_zero (by omega)
      rfl
    · have hpush : (acc.counting 1).pending.size + [byte].length < 127 := by
        change acc.pending.size + 1 < 127
        omega
      have hsize : (acc.push byte).pending.size = acc.pending.size + 1 := by
        rw [push, absorb_of_lt hpush]
        exact size_append acc.pending [byte]
      rw [ih (by omega) (by omega), push, ← absorb_counting, counting_counting, Nat.add_comm 1]
      exact (absorb_append (by exact hpush) bytes).symm

theorem feed_pending_lt {acc : Accumulator} (h : acc.pending.size < 127) (bytes : Bytes) :
    (acc.feed bytes).pending.size < 127 := by
  induction bytes generalizing acc with
  | nil => exact h
  | cons byte bytes ih => exact ih (absorb_pending_lt (by exact h))

/-- Reading quad by quad is reading byte by byte. -/
theorem fill_eq_feed {room : Nat} : ∀ {acc : Accumulator} {bytes : Bytes}, acc.pending.size < 127 →
    bytes.length ≤ room → fill room (acc.counting bytes.length) bytes = acc.feed bytes := by
  induction room with
  | zero =>
    intro acc bytes _ hlength
    obtain rfl : bytes = [] := List.eq_nil_of_length_eq_zero (Nat.le_zero.mp hlength)
    rfl
  | succ room ih =>
    intro acc bytes hpart hlength
    rw [fill]
    split
    · rename_i hempty
      rw [List.isEmpty_iff.mp hempty]
      rfl
    · change fill room ((acc.counting bytes.length).absorb (bytes.take (127 - acc.pending.size)))
        (bytes.drop (127 - acc.pending.size)) = _
      obtain ⟨gap, hroom⟩ := Nat.exists_eq_add_of_lt hpart
      have hgap : 127 - acc.pending.size = gap + 1 := by omega
      have htake := List.length_take_le (gap + 1) bytes
      rw [hgap]
      have hsplit : (bytes.take (gap + 1)).length + (bytes.drop (gap + 1)).length = bytes.length := by
        rw [← List.length_append, List.take_append_drop]
      have hdrop := @List.length_drop _ (gap + 1) bytes
      rw [← hsplit, ← counting_counting, absorb_counting, ← feed_of_le hpart (by omega),
        ih (feed_pending_lt hpart _) (by omega), ← feed_append, List.take_append_drop]

/-- Reading a chunk is reading its bytes. -/
theorem update_eq_feed {acc : Accumulator} (h : acc.pending.size < 127) (chunk : Bytes) :
    acc.update chunk = acc.feed chunk := fill_eq_feed h (Nat.le_refl _)

end PieceKeeper.Accumulator
