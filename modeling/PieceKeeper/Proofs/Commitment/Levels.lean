import PieceKeeper.Proofs.Commitment.Sizes

/-!
# The levels of an accumulator as the digits of a number

The roots on the levels stand for a row of things, each of which is as wide as some number of
leaves: for the leaves themselves, or for the subtrees that were put there.  Whatever they stand
for, they do it as the digits of a binary number do: a level is occupied exactly if its bit is set
in the width of the whole row, and its root stands for the part of the row that the bit counts,
behind the parts of the higher levels.  Putting a subtree at a level is adding to the number, and
it takes one join for each bit that is carried.
-/

namespace PieceKeeper

namespace Levels

/-- The root at a level, if the level is occupied. -/
def root? (levels : Levels) (level : Nat) : Option Node := levels[level]?.join

@[simp] theorem root?_nil (level : Nat) : root? [] level = none := rfl

@[simp] theorem root?_cons_zero (first : Option Node) (above : Levels) :
    root? (first :: above) 0 = first := by cases first <;> rfl

@[simp] theorem root?_cons_succ (first : Option Node) (above : Levels) (level : Nat) :
    root? (first :: above) (level + 1) = root? above level := rfl

/-! ## What roots stand for -/

/-- A way of saying what the roots of finished subtrees stand for. -/
structure Reading (α : Type) where
  /-- How many leaves wide a thing is. -/
  width : α → Nat
  /-- A root of a height stands for a row of things. -/
  Spans : Nat → Node → List α → Prop
  /-- A root stands for as much as its height has leaves. -/
  width_spans {height : Nat} {node : Node} {row : List α} (h : Spans height node row) :
    (row.map width).sum = 2 ^ height
  /-- A join stands for both of the rows, side by side. -/
  spans_join {height : Nat} {left right : Node} {before after : List α}
    (hleft : Spans height left before) (hright : Spans height right after) :
    Spans (height + 1) (left.join right) (before ++ after)

variable {α : Type} (reading : Reading α)

/-- How many leaves wide a row is. -/
def Reading.total (row : List α) : Nat := (row.map reading.width).sum

@[simp] theorem Reading.total_nil : reading.total [] = 0 := rfl

@[simp] theorem Reading.total_append (row more : List α) :
    reading.total (row ++ more) = reading.total row + reading.total more := by
  rw [total, List.map_append, List.sum_append, total, total]

theorem Reading.total_of_spans {height : Nat} {node : Node} {row : List α}
    (h : reading.Spans height node row) : reading.total row = 2 ^ height :=
  reading.width_spans h

/-- The levels from `height` up stand for a row, in order and the higher ones first. -/
def Stand : Nat → Levels → List α → Prop
  | _, [], row => row = []
  | height, none :: above, row => Stand (height + 1) above row
  | height, some node :: above, row =>
    ∃ left block, row = left ++ block ∧ reading.Spans height node block ∧
      Stand (height + 1) above left

variable {reading} {levels : Levels} {row block : List α} {height level : Nat} {node : Node}

@[simp] theorem stand_none {above : Levels} :
    Stand reading height (none :: above) row ↔ Stand reading (height + 1) above row := Iff.rfl

theorem stand_some {above : Levels} :
    Stand reading height (some node :: above) row ↔
      ∃ left block, row = left ++ block ∧ reading.Spans height node block ∧
        Stand reading (height + 1) above left := Iff.rfl

/-- Levels from `height` up stand for whole subtrees of that height. -/
theorem Stand.dvd_total (h : Stand reading height levels row) : 2 ^ height ∣ reading.total row := by
  induction levels generalizing height row with
  | nil =>
    obtain rfl : row = [] := h
    exact dvd_zero _
  | cons first above ih =>
    have hpow : (2 : Nat) ^ height ∣ 2 ^ (height + 1) := pow_dvd_pow 2 (Nat.le_succ height)
    cases first with
    | none => exact hpow.trans (ih h)
    | some node =>
      obtain ⟨left, block, rfl, hblock, habove⟩ := h
      rw [Reading.total_append, reading.total_of_spans hblock]
      exact dvd_add (hpow.trans (ih habove)) dvd_rfl

/-- Putting a subtree at the lowest of the levels appends what it stands for. -/
theorem Stand.place_zero (h : Stand reading height levels row)
    (hblock : reading.Spans height node block) :
    Stand reading height (levels.place 0 node) (row ++ block) := by
  induction levels generalizing height row node block with
  | nil =>
    obtain rfl : row = [] := h
    rw [Levels.place, stand_some]
    exact ⟨[], block, rfl, hblock, rfl⟩
  | cons first above ih =>
    cases first with
    | none =>
      rw [Levels.place, stand_some]
      exact ⟨row, block, rfl, hblock, h⟩
    | some last =>
      obtain ⟨left, middle, rfl, hmiddle, habove⟩ := h
      rw [Levels.place, stand_none, List.append_assoc]
      exact ih habove (reading.spans_join hmiddle hblock)

/-- Putting a subtree at a level appends what it stands for, provided that the levels below it
are vacant, that is, that the row is as wide as some subtrees of its height. -/
theorem Stand.place (h : Stand reading height levels row)
    (hdvd : 2 ^ (height + level) ∣ reading.total row)
    (hblock : reading.Spans (height + level) node block) :
    Stand reading height (levels.place level node) (row ++ block) := by
  induction level generalizing height levels row with
  | zero => exact h.place_zero hblock
  | succ level ih =>
    have hsucc : height + (level + 1) = height + 1 + level := by omega
    rw [hsucc] at hdvd hblock
    match levels, h with
    | [], h =>
      rw [Levels.place, stand_none]
      exact ih h hdvd hblock
    | none :: above, h =>
      rw [Levels.place, stand_none]
      exact ih h hdvd hblock
    | some last :: above, h =>
      -- A subtree of this height would make the row too odd.
      obtain ⟨left, middle, rfl, hmiddle, habove⟩ := h
      have hnext : (2 : Nat) ^ (height + 1) ∣ 2 ^ (height + 1 + level) :=
        pow_dvd_pow 2 (Nat.le_add_right _ _)
      have hsum := hnext.trans hdvd
      rw [Reading.total_append, reading.total_of_spans hmiddle] at hsum
      have hdiv : (2 : Nat) ^ (height + 1) ∣ 2 ^ height :=
        (Nat.dvd_add_right habove.dvd_total).mp hsum
      exact absurd hdiv (not_two_pow_succ_dvd_two_pow height)

/-! ## Levels as bits -/

/-- A level is occupied exactly if its bit is set in the width of the row. -/
theorem Stand.isSome_root? (h : Stand reading height levels row) (level : Nat) :
    (levels.root? level).isSome = (reading.total row).testBit (height + level) := by
  induction levels generalizing height row level with
  | nil =>
    obtain rfl : row = [] := h
    exact (Nat.zero_testBit _).symm
  | cons first above ih =>
    cases first with
    | none =>
      cases level with
      | zero =>
        obtain ⟨q, hq⟩ := (stand_none.mp h).dvd_total
        rw [root?_cons_zero, hq, Nat.testBit_two_pow_mul]
        simp
      | succ level => rw [root?_cons_succ, ih h, Nat.add_right_comm, Nat.add_assoc]
    | some last =>
      obtain ⟨left, block, rfl, hblock, habove⟩ := h
      obtain ⟨q, hq⟩ := habove.dvd_total
      have hlt : 2 ^ height < 2 ^ (height + 1) := Nat.pow_lt_pow_right (by decide) (by omega)
      rw [Reading.total_append, reading.total_of_spans hblock, hq,
        Nat.testBit_two_pow_mul_add _ hlt]
      cases level with
      | zero => rw [root?_cons_zero, if_pos (by omega), Nat.add_zero, Nat.testBit_two_pow_self]; rfl
      | succ level =>
        rw [root?_cons_succ, ih habove, hq, if_neg (by omega), Nat.testBit_two_pow_mul]
        simp [show height + 1 ≤ height + 1 + level by omega,
          show height + (level + 1) = height + 1 + level by omega]

/-! ## Where the blocks of levels begin -/

/-- Where the block of a level begins when there are `count` leaves: behind the blocks of the
higher levels. -/
def start (count level : Nat) : Nat := count / 2 ^ (level + 1) * 2 ^ (level + 1)

/-- Blocks are aligned. -/
theorem two_pow_dvd_start (count level : Nat) : 2 ^ level ∣ start count level :=
  (pow_dvd_pow 2 (Nat.le_succ level)).trans (dvd_mul_left _ _)

/-- What a lower bit adds does not move the blocks of higher levels. -/
theorem start_add_two_pow {count height level : Nat} (hdvd : 2 ^ (height + 1) ∣ count)
    (hlevel : height ≤ level) : start (count + 2 ^ height) level = start count level := by
  obtain ⟨q, rfl⟩ := hdvd
  obtain ⟨d, rfl⟩ := Nat.exists_eq_add_of_le hlevel
  have hlt : 2 ^ height < 2 ^ (height + 1) := Nat.pow_lt_pow_right (by decide) (by omega)
  have hpow : (2 : Nat) ^ (height + d + 1) = 2 ^ (height + 1) * 2 ^ d := by
    rw [← pow_add, Nat.add_right_comm]
  rw [start, start, hpow, ← Nat.div_div_eq_div_mul, ← Nat.div_div_eq_div_mul,
    Nat.mul_add_div (Nat.two_pow_pos _), Nat.div_eq_of_lt hlt, Nat.add_zero,
    Nat.mul_div_cancel_left _ (Nat.two_pow_pos _)]

/-- The blocks of higher levels are to the left of those of lower ones. -/
theorem start_add_le {count level lower : Nat} (hbit : count.testBit level = true)
    (hlower : lower < level) : start count level + 2 ^ level ≤ start count lower := by
  obtain ⟨d, rfl⟩ := Nat.exists_eq_add_of_lt hlower
  have hodd : count / 2 ^ (lower + d + 1) % 2 = 1 := by
    rwa [Nat.testBit_eq_decide_div_mod_eq, decide_eq_true_eq] at hbit
  have hend : start count (lower + d + 1) + 2 ^ (lower + d + 1) =
      count / 2 ^ (lower + d + 1) * 2 ^ (lower + d + 1) := by
    rw [start, pow_succ 2 (lower + d + 1), ← Nat.div_div_eq_div_mul, mul_comm (2 ^ _) 2,
      ← mul_assoc, ← Nat.succ_mul]
    congr 1
    omega
  have hpow : (2 : Nat) ^ (lower + d + 1) = 2 ^ (lower + 1) * 2 ^ d := by
    rw [← pow_add, Nat.add_right_comm]
  rw [hend, start, hpow, ← Nat.div_div_eq_div_mul, mul_comm (2 ^ (lower + 1)), ← mul_assoc]
  exact Nat.mul_le_mul_right _ (Nat.div_mul_le_self _ _)

/-- The root of a level stands for the block of the level. -/
theorem Stand.exists_block (h : Stand reading height levels row)
    (hroot : levels.root? level = some node) :
    ∃ before block after, row = before ++ block ++ after ∧
      reading.Spans (height + level) node block ∧
      reading.total before = start (reading.total row) (height + level) := by
  induction levels generalizing height row level with
  | nil => cases hroot
  | cons first above ih =>
    cases first with
    | none =>
      cases level with
      | zero => cases hroot
      | succ level =>
        rw [show height + (level + 1) = height + 1 + level by omega]
        exact ih (stand_none.mp h) hroot
    | some last =>
      obtain ⟨left, block, rfl, hblock, habove⟩ := h
      have hstart := @start_add_two_pow _ height (height + level) habove.dvd_total (by omega)
      rw [Reading.total_append, reading.total_of_spans hblock, hstart]
      cases level with
      | zero =>
        obtain rfl : last = node := Option.some.inj hroot
        refine ⟨left, block, [], (List.append_nil _).symm, hblock, ?_⟩
        rw [start, Nat.div_mul_cancel habove.dvd_total]
      | succ level =>
        obtain ⟨before, middle, after, rfl, hmiddle, hbefore⟩ := ih habove hroot
        rw [show height + (level + 1) = height + 1 + level by omega]
        exact ⟨before, middle, after ++ block, by simp, hmiddle, hbefore⟩

/-! ## Merges -/

/-- Levels with a place at `level`. -/
def resized (levels : Levels) (level : Nat) : Levels :=
  levels ++ List.replicate (level + 1 - levels.length) none

/-- Putting a subtree turn by turn, with the number of merges and the levels at the end.  In a
vacant place the subtree stays.  A root that is there is taken away, and what it makes with the
subtree goes on at the next level. -/
inductive Carries : Levels → Nat → Node → Nat → Levels → Prop
  | stay {levels : Levels} {level : Nat} {node : Node} (h : levels.root? level = none) :
    Carries levels level node 0 ((levels.resized level).set level (some node))
  | merge {levels result : Levels} {level merges : Nat} {left node : Node}
    (h : levels.root? level = some left)
    (hrest : Carries ((levels.resized level).set level none) (level + 1) (left.join node) merges
      result) :
    Carries levels level node (merges + 1) result

@[simp] theorem resized_cons_zero (first : Option Node) (above : Levels) :
    resized (first :: above) 0 = first :: above := by
  rw [resized, List.length_cons, Nat.add_sub_add_right, Nat.zero_sub, List.replicate_zero,
    List.append_nil]

@[simp] theorem resized_cons_succ (first : Option Node) (above : Levels) (level : Nat) :
    resized (first :: above) (level + 1) = first :: resized above level := by
  rw [resized, resized, List.length_cons, Nat.add_sub_add_right, List.cons_append]

/-- Further levels below do not change how a subtree is put. -/
theorem Carries.cons {above result : Levels} {merges : Nat}
    (h : Carries above level node merges result) (first : Option Node) :
    Carries (first :: above) (level + 1) node merges (first :: result) := by
  induction h with
  | @stay above level node h =>
    have hstay := @Carries.stay (first :: above) (level + 1) node h
    rwa [resized_cons_succ, List.set_cons_succ] at hstay
  | merge h _ ih =>
    refine .merge h ?_
    rwa [resized_cons_succ, List.set_cons_succ]

theorem carries_nil (level : Nat) (node : Node) :
    Carries [] level node 0 (Levels.place [] level node) := by
  have hstay := @Carries.stay [] level node rfl
  have hplace : ∀ level, (resized [] level).set level (some node) = Levels.place [] level node := by
    intro level
    induction level with
    | zero => rw [Levels.place]; rfl
    | succ level ih =>
      rw [Levels.place, ← ih, resized, List.length_nil, Nat.sub_zero, List.nil_append,
        List.replicate_succ, List.set_cons_succ]
      rfl
  rwa [hplace] at hstay

/-- Putting a subtree comes to an end, and with these levels. -/
theorem exists_carries_place (levels : Levels) (level : Nat) (node : Node) :
    ∃ merges, Carries levels level node merges (levels.place level node) := by
  induction levels, level, node using Levels.place.induct with
  | case1 node => exact ⟨0, carries_nil 0 node⟩
  | case2 level node => exact ⟨0, carries_nil (level + 1) node⟩
  | case3 above node =>
    have hstay := @Carries.stay (none :: above) 0 node rfl
    rw [resized_cons_zero, List.set_cons_zero] at hstay
    rw [Levels.place]
    exact ⟨0, hstay⟩
  | case4 left above node ih =>
    obtain ⟨merges, hmerges⟩ := ih
    refine ⟨merges + 1, .merge rfl ?_⟩
    rw [resized_cons_zero, List.set_cons_zero, Levels.place]
    exact hmerges.cons none
  | case5 root above level node ih =>
    obtain ⟨merges, hmerges⟩ := ih
    rw [Levels.place]
    exact ⟨merges, hmerges.cons root⟩

theorem root?_resized (levels : Levels) (level i : Nat) :
    (levels.resized level).root? i = levels.root? i := by
  rw [root?, root?, resized, List.getElem?_append]
  split
  · rfl
  · rename_i hle
    rw [List.getElem?_eq_none (Nat.not_lt.mp hle), List.getElem?_replicate]
    split <;> rfl

/-- There are as many merges as occupied levels in a row, from the level on. -/
theorem Carries.occupied {result : Levels} {merges : Nat}
    (h : Carries levels level node merges result) :
    (∀ i < merges, (levels.root? (level + i)).isSome) ∧
      levels.root? (level + merges) = none := by
  induction h with
  | stay h => exact ⟨nofun, h⟩
  | @merge levels result level merges left node h _ ih =>
    have hnext (i : Nat) : root? ((levels.resized level).set level none) (level + 1 + i) =
        levels.root? (level + (i + 1)) := by
      rw [← root?_resized levels level, root?, List.getElem?_set_ne (by omega),
        Nat.add_right_comm]
      rfl
    simp only [hnext] at ih
    refine ⟨fun i hi ↦ ?_, ih.2⟩
    cases i with
    | zero => rw [Nat.add_zero, h]; rfl
    | succ i => exact ih.1 i (by omega)

end Levels

end PieceKeeper
