import Mathlib.Data.Nat.Bitwise
import Mathlib.Data.Nat.Size
import PieceKeeper.Proofs.Commitment.Levels
import PieceKeeper.Proofs.Commitment.Streaming

/-!
# An accumulator counts its leaves in binary

Any finished subtrees may be put on the levels, one after the other, as long as each finds the
levels below it vacant.  The levels are then a binary counter: bit by bit they tell how many
leaves there are, and a level that is occupied holds the root over the aligned block of leaves
that its bit counts.  Nothing else is ever put there, neither while bytes are read nor when the
tree is filled; filling ends within the bits of the counter, at a power of two, and so the root of
the whole tree is there.
-/

namespace PieceKeeper

/-- A finished subtree that is put on the levels. -/
structure Subtree where
  level : Nat
  root : Node

namespace Subtree

/-! ## Rows of subtrees -/

/-- A node is the root over a row of subtrees: it is the only one of them, or joins the roots over
two rows of one height. -/
inductive Over : Nat → Node → List Subtree → Prop
  | alone (subtree : Subtree) : Over subtree.level subtree.root [subtree]
  | join {height : Nat} {left right : Node} {before after : List Subtree}
    (hleft : Over height left before) (hright : Over height right after) :
    Over (height + 1) (left.join right) (before ++ after)

/-- The levels read as rows of the subtrees that were put. -/
def reading : Levels.Reading Subtree where
  width subtree := 2 ^ subtree.level
  Spans := Over
  width_spans h := by
    induction h with
    | alone subtree => simp
    | join _ _ hleft hright =>
      rw [List.map_append, List.sum_append, hleft, hright, pow_succ, mul_two]
  spans_join := .join

/-- How many leaves some subtrees have together. -/
def total (subtrees : List Subtree) : Nat := (subtrees.map fun subtree ↦ 2 ^ subtree.level).sum

theorem total_eq (subtrees : List Subtree) : reading.total subtrees = total subtrees := rfl

@[simp] theorem total_append (subtrees more : List Subtree) :
    total (subtrees ++ more) = total subtrees + total more :=
  reading.total_append subtrees more

/-- Some leaves for each of some subtrees: its root is the root over them. -/
def HaveLeaves (leavesOf : Subtree → List Node) (subtrees : List Subtree) : Prop :=
  ∀ subtree ∈ subtrees, (leavesOf subtree).length = 2 ^ subtree.level ∧
    subtree.root = Node.root subtree.level (leavesOf subtree)

variable {leavesOf : Subtree → List Node} {subtrees : List Subtree} {height : Nat} {node : Node}

theorem length_flatMap_leaves (h : HaveLeaves leavesOf subtrees) :
    (subtrees.flatMap leavesOf).length = total subtrees := by
  rw [List.length_flatMap, total]
  exact congrArg List.sum (List.map_congr_left fun subtree hsubtree ↦ (h subtree hsubtree).1)

/-- A root over subtrees is the root over their leaves. -/
theorem Over.eq_root (h : Over height node subtrees) (hleaves : HaveLeaves leavesOf subtrees) :
    node = Node.root height (subtrees.flatMap leavesOf) := by
  induction h with
  | alone subtree =>
    rw [List.flatMap_singleton]
    exact (hleaves subtree (List.mem_singleton_self _)).2
  | @join height left right before after hleft hright ihleft ihright =>
    have hbefore : HaveLeaves leavesOf before := fun subtree hsubtree ↦
      hleaves subtree (List.mem_append_left _ hsubtree)
    have hafter : HaveLeaves leavesOf after := fun subtree hsubtree ↦
      hleaves subtree (List.mem_append_right _ hsubtree)
    have hlength := (length_flatMap_leaves hbefore).trans (reading.total_of_spans hleft)
    rw [List.flatMap_append, Node.root_append hlength, ← ihleft hbefore, ← ihright hafter]

/-! ## Counting in a word -/

/-- How many leaves some subtrees have together, as a word of sixty-four bits counts them. -/
def wordTotal (subtrees : List Subtree) : UInt64 :=
  subtrees.foldl (fun count subtree ↦ count + (1 <<< UInt64.ofNat subtree.level)) 0

theorem toNat_one_shiftLeft {level : Nat} (h : 2 ^ level < 2 ^ 64) :
    ((1 : UInt64) <<< UInt64.ofNat level).toNat = 2 ^ level := by
  have hlevel : level < 64 := (Nat.pow_lt_pow_iff_right (by decide)).mp h
  have hword : level < UInt64.size := hlevel.trans (by decide)
  rw [UInt64.toNat_shiftLeft, UInt64.toNat_ofNat_of_lt' hword, Nat.mod_eq_of_lt hlevel,
    UInt64.toNat_one, Nat.one_shiftLeft, Nat.mod_eq_of_lt h]

/-- The word counts all leaves as long as they are not too many for it. -/
theorem toNat_wordTotal (h : total subtrees < 2 ^ 64) :
    (wordTotal subtrees).toNat = total subtrees := by
  induction subtrees using List.reverseRecOn with
  | nil => rfl
  | append_singleton before subtree ih =>
    have hsum : total (before ++ [subtree]) = total before + 2 ^ subtree.level := by
      rw [total_append, total, total, List.map_singleton, List.sum_singleton]
    rw [hsum] at h ⊢
    rw [wordTotal, List.foldl_concat, ← wordTotal, UInt64.toNat_add,
      ih (lt_of_le_of_lt (Nat.le_add_right _ _) h),
      toNat_one_shiftLeft (lt_of_le_of_lt (Nat.le_add_left _ _) h), Nat.mod_eq_of_lt h]

/-! ## Where subtrees fit -/

/-- The number ends in so many zero bits, or in more of them. -/
def EndsInZeros (count level : Nat) : Prop := ∀ i < level, count.testBit i = false

instance (count level : Nat) : Decidable (EndsInZeros count level) :=
  inferInstanceAs (Decidable (∀ i < level, count.testBit i = false))

theorem endsInZeros_iff {count level : Nat} : EndsInZeros count level ↔ 2 ^ level ∣ count := by
  constructor
  · intro h
    refine Nat.dvd_of_mod_eq_zero (Nat.zero_of_testBit_eq_false fun i ↦ ?_)
    rw [Nat.testBit_mod_two_pow]
    by_cases hi : i < level
    · rw [h i hi, Bool.and_false]
    · rw [decide_eq_false hi, Bool.false_and]
  · rintro ⟨q, rfl⟩ i hi
    rw [Nat.testBit_two_pow_mul, decide_eq_false (by omega), Bool.false_and]

/-- Subtrees that fit one after the other, beginning with so many leaves: each at a level that
has no bit of the number of leaves below it. -/
def Fit : Nat → List Subtree → Prop
  | _, [] => True
  | count, subtree :: rest =>
    EndsInZeros count subtree.level ∧ Fit (count + 2 ^ subtree.level) rest

instance decidableFit : (count : Nat) → (subtrees : List Subtree) → Decidable (Fit count subtrees)
  | _, [] => .isTrue trivial
  | count, subtree :: rest =>
    have := decidableFit (count + 2 ^ subtree.level) rest
    inferInstanceAs (Decidable (_ ∧ _))

theorem fit_append {more : List Subtree} {count : Nat} :
    Fit count (subtrees ++ more) ↔ Fit count subtrees ∧ Fit (count + total subtrees) more := by
  induction subtrees generalizing count with
  | nil => simp [Fit, total]
  | cons subtree rest ih =>
    rw [List.cons_append, Fit, Fit, ih, and_assoc, Nat.add_assoc]
    rfl

end Subtree

open Subtree

namespace Accumulator

/-- Puts subtrees one after the other. -/
def putAll (acc : Accumulator) (subtrees : List Subtree) : Accumulator :=
  subtrees.foldl (fun acc subtree ↦ acc.place subtree.level subtree.root) acc

theorem putAll_concat (acc : Accumulator) (subtrees : List Subtree) (subtree : Subtree) :
    acc.putAll (subtrees ++ [subtree]) =
      (acc.putAll subtrees).place subtree.level subtree.root :=
  List.foldl_concat _ _ _ _

/-- The levels of an accumulator count the leaves of subtrees. -/
structure Counts (acc : Accumulator) (subtrees : List Subtree) : Prop where
  leaves : acc.leaves = total subtrees
  /-- A level is occupied exactly if its bit is set. -/
  occupied : ∀ level, (acc.levels.root? level).isSome = acc.leaves.testBit level
  /-- An occupied level holds the root over its block of the subtrees. -/
  block : ∀ level node, acc.levels.root? level = some node →
    ∃ before block after, subtrees = before ++ block ++ after ∧ Over level node block ∧
      total before = Levels.start acc.leaves level

/-- Subtrees that fit are stood for by the levels. -/
theorem stand_putAll {subtrees : List Subtree} {acc : Accumulator} {row : List Subtree}
    (hstand : Levels.Stand reading 0 acc.levels row) (hleaves : acc.leaves = total row)
    (hfit : Fit acc.leaves subtrees) :
    Levels.Stand reading 0 (acc.putAll subtrees).levels (row ++ subtrees) ∧
      (acc.putAll subtrees).leaves = total (row ++ subtrees) := by
  induction subtrees generalizing acc row with
  | nil => exact ⟨by rwa [List.append_nil], by rwa [List.append_nil]⟩
  | cons subtree rest ih =>
    obtain ⟨hzeros, hrest⟩ := hfit
    have hdvd : 2 ^ (0 + subtree.level) ∣ reading.total row := by
      rw [Nat.zero_add, total_eq, ← hleaves]
      exact endsInZeros_iff.mp hzeros
    have hover : reading.Spans (0 + subtree.level) subtree.root [subtree] := by
      rw [Nat.zero_add]
      exact .alone subtree
    have hnext := @ih (acc.place subtree.level subtree.root) (row ++ [subtree])
      (hstand.place hdvd hover) (by simp [Accumulator.place, hleaves, total]) hrest
    rwa [List.append_assoc] at hnext

theorem counts_of_stand {acc : Accumulator} {subtrees : List Subtree}
    (hstand : Levels.Stand reading 0 acc.levels subtrees) (hleaves : acc.leaves = total subtrees) :
    acc.Counts subtrees where
  leaves := hleaves
  occupied level := by rw [hstand.isSome_root?, Nat.zero_add, total_eq, ← hleaves]
  block level node hroot := by
    obtain ⟨before, block, after, hsplit, hover, hbefore⟩ := hstand.exists_block hroot
    rw [Nat.zero_add] at hover hbefore
    rw [total_eq, total_eq, ← hleaves] at hbefore
    exact ⟨before, block, after, hsplit, hover, hbefore⟩

/-- Whatever subtrees are put on vacant levels, as long as they fit, are counted. -/
theorem counts_putAll {subtrees : List Subtree} (hfit : Fit 0 subtrees) :
    (Accumulator.empty.putAll subtrees).Counts subtrees := by
  obtain ⟨hstand, hleaves⟩ := @stand_putAll subtrees .empty [] rfl rfl hfit
  exact counts_of_stand hstand hleaves

/-- If a word can count the leaves of all subtrees, it has counted them right before each. -/
theorem toNat_wordTotal_putAll {subtrees before : List Subtree} (hfit : Fit 0 subtrees)
    (hlt : (Accumulator.empty.putAll subtrees).leaves < 2 ^ 64) (hbefore : before <+: subtrees) :
    (wordTotal before).toNat = (Accumulator.empty.putAll before).leaves := by
  obtain ⟨after, rfl⟩ := hbefore
  rw [(counts_putAll hfit).leaves, total_append] at hlt
  rw [(counts_putAll (fit_append.mp hfit).1).leaves,
    toNat_wordTotal (lt_of_le_of_lt (Nat.le_add_right _ _) hlt)]

/-- An occupied level holds the root over its block of the leaves. -/
theorem Counts.eq_root {acc : Accumulator} {subtrees : List Subtree} (h : acc.Counts subtrees)
    {leavesOf : Subtree → List Node} (hleaves : HaveLeaves leavesOf subtrees) {level : Nat}
    {node : Node} (hroot : acc.levels.root? level = some node) :
    node = Node.root level
      (((subtrees.flatMap leavesOf).drop (Levels.start acc.leaves level)).take (2 ^ level)) := by
  obtain ⟨before, block, after, rfl, hover, hbefore⟩ := h.block level node hroot
  have hleavesBefore : HaveLeaves leavesOf before := fun subtree hsubtree ↦
    hleaves subtree (by simp [hsubtree])
  have hleavesBlock : HaveLeaves leavesOf block := fun subtree hsubtree ↦
    hleaves subtree (by simp [hsubtree])
  have hlength := (length_flatMap_leaves hleavesBlock).trans (reading.total_of_spans hover)
  rw [← hbefore, ← length_flatMap_leaves hleavesBefore, List.append_assoc, List.flatMap_append,
    List.drop_left, List.flatMap_append, ← hlength, List.take_left]
  exact hover.eq_root hleavesBlock

/-! ## What reading and filling put -/

/-- The levels and the number of leaves come from subtrees that fit, put one after the other. -/
def IsBuilt (levels : Levels) (leaves : Nat) : Prop :=
  ∃ subtrees, Fit 0 subtrees ∧ levels = (Accumulator.empty.putAll subtrees).levels ∧
    leaves = (Accumulator.empty.putAll subtrees).leaves

theorem isBuilt_empty : IsBuilt Accumulator.empty.levels Accumulator.empty.leaves :=
  ⟨[], trivial, rfl, rfl⟩

theorem IsBuilt.place {levels : Levels} {leaves level : Nat} (h : IsBuilt levels leaves)
    (hzeros : EndsInZeros leaves level) (node : Node) :
    IsBuilt (levels.place level node) (leaves + 2 ^ level) := by
  obtain ⟨subtrees, hfit, rfl, rfl⟩ := h
  refine ⟨subtrees ++ [⟨level, node⟩], fit_append.mpr ⟨hfit, ?_, trivial⟩, ?_, ?_⟩
  · rwa [Nat.zero_add, ← (counts_putAll hfit).leaves]
  · rw [putAll_concat]
    rfl
  · rw [putAll_concat]
    rfl

/-- Reading and filling put only subtrees that fit. -/
theorem isKept_isBuilt : IsKept IsBuilt where
  leaf {_ count} h _ leaf _ := by
    have hzeros : EndsInZeros count 0 := nofun
    exact h.place hzeros leaf
  zeros h := h.place (endsInZeros_iff.mpr (two_pow_twos_dvd _)) _

/-! ## How long filling takes -/

theorem complete_of_isPowerOfTwo {acc : Accumulator} (h : isPowerOfTwo acc.leaves = true)
    (room : Nat) : Accumulator.complete room acc = acc := by
  cases room with
  | zero => rfl
  | succ room => rw [Accumulator.complete, if_pos h]

/-- Filling comes to rest after so many steps, and no sooner: then the number of leaves is the
least power of two that is not smaller than it was at the start. -/
structure FillsIn (acc : Accumulator) (steps : Nat) : Prop where
  running : ∀ done < steps, ¬ isPowerOfTwo (Accumulator.complete done acc).leaves = true
  least : IsLeast {count | acc.leaves ≤ count ∧ ∃ k, count = 2 ^ k}
    (Accumulator.complete steps acc).leaves
  rest : ∀ room, steps ≤ room → Accumulator.complete room acc = Accumulator.complete steps acc

theorem FillsIn.leaves_eq {acc : Accumulator} {steps : Nat} (h : acc.FillsIn steps) :
    (Accumulator.complete steps acc).leaves = 2 ^ Nat.clog 2 acc.leaves :=
  (h.least.unique (isLeast_nextPowerOfTwo _)).trans (nextPowerOfTwo_eq _)

theorem fillsIn_zero {acc : Accumulator} (h : isPowerOfTwo acc.leaves = true) : acc.FillsIn 0 where
  running := nofun
  least := by
    have hleast := isLeast_nextPowerOfTwo acc.leaves
    rwa [beq_iff_eq.mp h] at hleast
  rest room _ := complete_of_isPowerOfTwo h room

/-- Every step of filling clears the lowest bit that is set and carries into a higher one, and the
last step carries over a bit at least.  So there are fewer steps than bits above the lowest. -/
theorem exists_fillsIn {room : Nat} :
    ∀ {acc : Accumulator}, acc.leaves ≠ 0 → Nat.clog 2 acc.leaves < 64 →
      Nat.clog 2 acc.leaves ≤ twos acc.leaves + room →
      ∃ steps, acc.FillsIn steps ∧
        (steps = 0 ∨ steps + twos acc.leaves < Nat.clog 2 acc.leaves) := by
  induction room with
  | zero =>
    intro acc hne hlt hroom
    have hbound := (Nat.le_pow_clog (b := 2) (by decide) acc.leaves).trans_lt
      (Nat.pow_lt_pow_right (by decide) hlt)
    refine ⟨0, fillsIn_zero (by_contra fun hpower ↦ ?_), .inl rfl⟩
    have := twos_add_one_lt_clog hne hbound hpower
    omega
  | succ room ih =>
    intro acc hne hlt hroom
    by_cases hpower : isPowerOfTwo acc.leaves = true
    · exact ⟨0, fillsIn_zero hpower, .inl rfl⟩
    have hle := Nat.le_pow_clog (b := 2) (by decide) acc.leaves
    have hbound := hle.trans_lt (Nat.pow_lt_pow_right (by decide) hlt)
    obtain ⟨-, hdvd, hnext⟩ := add_two_pow_twos hne hle hlt hpower
    have hgap := twos_add_one_lt_clog hne hbound hpower
    let next := acc.place (twos acc.leaves) (Node.zeroRoot (twos acc.leaves))
    have hleaves : next.leaves = acc.leaves + 2 ^ twos acc.leaves := rfl
    have hnextNe : next.leaves ≠ 0 := by omega
    have hclog : Nat.clog 2 next.leaves = Nat.clog 2 acc.leaves :=
      le_antisymm (Nat.clog_le_of_le_pow (hleaves ▸ hnext))
        (Nat.clog_mono_right 2 (Nat.le_add_right _ _))
    have htwos : twos acc.leaves + 1 ≤ twos next.leaves :=
      le_twos hnextNe (hnext.trans_lt (Nat.pow_lt_pow_right (by decide) hlt)) hdvd
    have hstep (more : Nat) :
        Accumulator.complete (more + 1) acc = Accumulator.complete more next := by
      rw [Accumulator.complete, if_neg hpower]
    obtain ⟨steps, hfills, hsteps⟩ := ih hnextNe (hclog ▸ hlt) (by omega)
    have hend : (Accumulator.complete (steps + 1) acc).leaves = nextPowerOfTwo acc.leaves := by
      rw [hstep, hfills.leaves_eq, hclog, nextPowerOfTwo_eq]
    refine ⟨steps + 1, ⟨?_, hend ▸ isLeast_nextPowerOfTwo acc.leaves, ?_⟩, .inr (by omega)⟩
    · intro done hdone
      cases done with
      | zero => exact hpower
      | succ done =>
        rw [hstep]
        exact hfills.running done (by omega)
    · intro room hroom
      obtain ⟨room, rfl⟩ : ∃ more, room = more + 1 := ⟨room - 1, by omega⟩
      rw [hstep, hstep]
      exact hfills.rest room (by omega)

/-- Filling ends before it has gone through the bits of the counter. -/
theorem exists_fillsIn_lt_size {acc : Accumulator} (hne : acc.leaves ≠ 0)
    (hle : acc.leaves ≤ 2 ^ 63) : ∃ steps < acc.leaves.size, acc.FillsIn steps := by
  have hclog : Nat.clog 2 acc.leaves < 64 := (Nat.clog_le_of_le_pow hle).trans_lt (by decide)
  obtain ⟨steps, hfills, hsteps⟩ := exists_fillsIn hne hclog (Nat.le_add_left _ _)
  have hpos := Nat.size_pos.mpr (Nat.pos_of_ne_zero hne)
  have hsize : Nat.clog 2 acc.leaves ≤ acc.leaves.size :=
    Nat.clog_le_of_le_pow (Nat.lt_size_self _).le
  exact ⟨steps, by omega, hfills⟩

/-- When filling has ended, the root of the tree is on its level. -/
theorem exists_finish {acc : Accumulator} (h : IsBuilt acc.levels acc.leaves) (hread : acc.consumed ≠ 0)
    (hne : acc.closed.leaves ≠ 0) (hle : acc.closed.leaves ≤ 2 ^ 63) :
    ∃ commitment, acc.finish = .ok commitment := by
  obtain ⟨steps, hsteps, hfills⟩ := exists_fillsIn_lt_size hne hle
  have hsize := Nat.size_le.mpr (Nat.lt_log2_self (n := acc.closed.leaves))
  have hfilled : acc.filled.leaves = 2 ^ Nat.clog 2 acc.closed.leaves := by
    rw [Accumulator.filled, hfills.rest _ (by omega), hfills.leaves_eq]
  have hclog : Nat.clog 2 acc.closed.leaves < 64 :=
    (Nat.clog_le_of_le_pow hle).trans_lt (by decide)
  obtain ⟨subtrees, hfit, hlevels, hleaves⟩ : IsBuilt acc.filled.levels acc.filled.leaves :=
    isKept_isBuilt.complete (isKept_isBuilt.closed h) _
  have htop : (acc.filled.levels.root? (twos acc.filled.leaves)).isSome = true := by
    rw [hlevels, (counts_putAll hfit).occupied, ← hleaves, hfilled, twos_two_pow hclog,
      Nat.testBit_two_pow_self]
  obtain ⟨digest, hdigest⟩ := Option.isSome_iff_exists.mp htop
  refine ⟨⟨digest, UInt64.ofNat (32 * acc.filled.leaves)⟩, ?_⟩
  rw [finish_eq, if_neg hread, hdigest]

end Accumulator

open Accumulator

theorem exists_ofChunks {chunks : List Bytes} (hne : chunks.flatten ≠ [])
    (hle : chunks.flatten.length ≤ 127 * 2 ^ 56) :
    ∃ commitment, Commitment.ofChunks chunks = .ok commitment := by
  have hreads := reads_update_empty chunks.flatten
  have hlength := List.length_pos_iff.mpr hne
  have hcount : (Accumulator.empty.update chunks.flatten).closed.leaves =
      4 * Quad.count chunks.flatten := by
    rw [hreads.holds_closed.2, Quad.length_leaves]
  rw [Quad.count] at hcount
  rw [ofChunks_eq]
  exact exists_finish (isKept_isBuilt.update isBuilt_empty _) (by rw [hreads.1]; omega) (by omega)
    (by omega)

/-- **The levels are a binary counter of finished subtrees.**  Let subtrees be put one after the
other, each at a level that is not above the zeros at the end of the number of leaves so far, and
at any level as long as there are none.  If fewer than `2 ^ 64` leaves come together, a word of
sixty-four bits has their number at every time.  A level is occupied exactly if its bit is set in the
number of leaves, and it holds the root over the subtrees in its block; if they are roots over
leaves themselves, it is the root over the leaves of the block.  Blocks are aligned, and those of
higher levels are to the left of those of lower ones.  Putting one more ends after as many merges
as bits are set in a row from its level on.  Reading bytes and filling the tree put subtrees in no
other way.  Filling ends in fewer steps than the number of leaves has bits, at the least power of
two that is not smaller; and what is committed to always has a root. -/
theorem levels_count_in_binary :
    (∀ subtrees, Fit 0 subtrees →
      let acc := Accumulator.empty.putAll subtrees
      acc.Counts subtrees ∧
      (acc.leaves < 2 ^ 64 → ∀ before, before <+: subtrees →
        (wordTotal before).toNat = (Accumulator.empty.putAll before).leaves) ∧
      (∀ leavesOf, HaveLeaves leavesOf subtrees → ∀ level node,
        acc.levels.root? level = some node →
          node = Node.root level (((subtrees.flatMap leavesOf).drop
            (Levels.start acc.leaves level)).take (2 ^ level))) ∧
      (∀ level, 2 ^ level ∣ Levels.start acc.leaves level) ∧
      (∀ level lower, acc.leaves.testBit level = true → lower < level →
        Levels.start acc.leaves level + 2 ^ level ≤ Levels.start acc.leaves lower) ∧
      ∀ level node, ∃ merges,
        acc.levels.Carries level node merges (acc.place level node).levels ∧
          (∀ i < merges, acc.leaves.testBit (level + i) = true) ∧
          acc.leaves.testBit (level + merges) = false) ∧
    (∀ chunks : List Bytes, let acc := chunks.foldl Accumulator.update .empty
      IsBuilt acc.levels acc.leaves ∧ IsBuilt acc.closed.levels acc.closed.leaves ∧
        ∀ room, IsBuilt (Accumulator.complete room acc.closed).levels
          (Accumulator.complete room acc.closed).leaves) ∧
    (∀ acc : Accumulator, acc.leaves ≠ 0 → acc.leaves ≤ 2 ^ 63 →
      ∃ steps < acc.leaves.size, acc.FillsIn steps) ∧
    ∀ chunks : List Bytes, chunks.flatten ≠ [] → chunks.flatten.length ≤ 127 * 2 ^ 56 →
      ∃ commitment, Commitment.ofChunks chunks = .ok commitment := by
  refine ⟨fun subtrees hfit ↦ ?_, fun chunks ↦ ?_, fun _ ↦ exists_fillsIn_lt_size,
    fun _ ↦ exists_ofChunks⟩
  · have hcounts := counts_putAll hfit
    refine ⟨hcounts, fun hlt _ ↦ toNat_wordTotal_putAll hfit hlt,
      fun _ hleaves _ _ ↦ hcounts.eq_root hleaves, Levels.two_pow_dvd_start _,
      fun _ _ ↦ Levels.start_add_le, fun level node ↦ ?_⟩
    obtain ⟨merges, hcarries⟩ := Levels.exists_carries_place _ level node
    obtain ⟨hset, hvacant⟩ := hcarries.occupied
    refine ⟨merges, hcarries, fun i hi ↦ ?_, ?_⟩
    · rw [← hcounts.occupied, hset i hi]
    · rw [← hcounts.occupied, hvacant]
      rfl
  · have hbuilt := isKept_isBuilt.update isBuilt_empty chunks.flatten
    rw [← foldl_update] at hbuilt
    have hclosed := isKept_isBuilt.closed hbuilt
    exact ⟨hbuilt, hclosed, isKept_isBuilt.complete hclosed⟩

/-- A subtree of four leaves and one leaf behind it, and another leaf that is joined to the last. -/
theorem levels_count_in_binary_five_leaves :
    let subtrees : List Subtree := [⟨2, Node.zeroRoot 2⟩, ⟨0, Node.zero⟩]
    Fit 0 subtrees ∧ (Accumulator.empty.putAll subtrees).Counts subtrees ∧
      (wordTotal subtrees).toNat = (Accumulator.empty.putAll subtrees).leaves ∧
      (∃ merges, Levels.Carries [some Node.zero, none, some (Node.zeroRoot 2)] 0 Node.zero merges
        [none, some (Node.zero.join Node.zero), some (Node.zeroRoot 2)]) ∧
      (∃ steps < (Accumulator.empty.putAll subtrees).leaves.size,
        (Accumulator.empty.putAll subtrees).FillsIn steps) ∧
      ∃ commitment, Commitment.ofChunks [[1], [], [2]] = .ok commitment := by
  intro subtrees
  have hfit : Fit 0 subtrees := by decide
  obtain ⟨hput, -, hfills, hchunks⟩ := levels_count_in_binary
  obtain ⟨hcounts, hword, -, -, -, hmerges⟩ := hput subtrees hfit
  obtain ⟨merges, hcarries, -⟩ := hmerges 0 Node.zero
  have hlevels : (Accumulator.empty.putAll subtrees).levels =
      [some Node.zero, none, some (Node.zeroRoot 2)] := by
    simp [subtrees, Accumulator.putAll, Accumulator.place, Accumulator.empty, Levels.place]
  refine ⟨hfit, hcounts, hword (by decide) _ List.prefix_rfl, ⟨merges, ?_⟩, hfills _ (by decide) (by decide),
    hchunks _ (by decide) (by decide)⟩
  rw [Accumulator.place, hlevels] at hcarries
  simpa [Levels.place] using hcarries

end PieceKeeper
