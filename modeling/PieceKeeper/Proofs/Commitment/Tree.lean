import PieceKeeper.Proofs.Commitment.Levels

/-!
# Complete trees and the levels of an accumulator

`Node.root` is the root of a complete tree over a list of leaves.  `Levels.Covers` says which
leaves the finished subtrees of an accumulator stand for: those of a higher level come first,
as the higher digits of a number do.  Putting a subtree at a level appends its leaves, however
many joins that takes.
-/

namespace PieceKeeper

namespace Node

/-! ## The root of a complete tree -/

/-- The root of the complete tree of a height over its `2 ^ height` leaves. -/
def root : Nat → List Node → Node
  | 0, leaves => leaves.headD zero
  | height + 1, leaves =>
    join (root height (leaves.take (2 ^ height))) (root height (leaves.drop (2 ^ height)))

/-- Two complete trees of one height side by side are the complete tree of the next. -/
theorem root_append {height : Nat} {left : List Node} (h : left.length = 2 ^ height)
    (right : List Node) :
    root (height + 1) (left ++ right) = join (root height left) (root height right) := by
  rw [root, ← h, List.take_left, List.drop_left]

/-- The zero subtree of a level is the complete tree over zero leaves. -/
theorem root_replicate_zero (height : Nat) :
    root height (List.replicate (2 ^ height) zero) = zeroRoot height := by
  induction height with
  | zero => rfl
  | succ height ih =>
    rw [pow_succ, mul_two, List.replicate_add, root_append List.length_replicate, ih, zeroRoot]

end Node

namespace Levels

/-! ## The leaves that levels stand for -/

/-- The levels from `height` up hold the roots of finished subtrees over the given leaves, in
order and the higher ones first. -/
def Covers : Nat → Levels → List Node → Prop
  | _, [], leaves => leaves = []
  | height, none :: above, leaves => Covers (height + 1) above leaves
  | height, some node :: above, leaves =>
    ∃ left block, leaves = left ++ block ∧ block.length = 2 ^ height ∧
      node = Node.root height block ∧ Covers (height + 1) above left

/-- The levels read as rows of leaves. -/
def leafReading : Reading Node where
  width _ := 1
  Spans height node block := block.length = 2 ^ height ∧ node = Node.root height block
  width_spans h := by simpa using h.1
  spans_join := by
    rintro height _ _ before after ⟨hbefore, rfl⟩ ⟨hafter, rfl⟩
    refine ⟨?_, (Node.root_append hbefore after).symm⟩
    rw [List.length_append, hbefore, hafter, pow_succ, mul_two]

@[simp] theorem total_leafReading (leaves : List Node) :
    leafReading.total leaves = leaves.length := by
  simp [Reading.total, leafReading]

variable {levels : Levels} {height level : Nat} {leaves block : List Node}

theorem covers_iff : Covers height levels leaves ↔ Stand leafReading height levels leaves := by
  induction levels generalizing height leaves with
  | nil => exact Iff.rfl
  | cons first above ih =>
    cases first with
    | none => exact ih
    | some node => simp only [Covers, Stand, ih, leafReading, and_assoc]

/-- Putting a subtree at a level appends its leaves, provided that the levels below it are
vacant, that is, that the leaves are so many that they fill subtrees of its height. -/
theorem Covers.place (h : Covers height levels leaves)
    (hdvd : 2 ^ (height + level) ∣ leaves.length) (hblock : block.length = 2 ^ (height + level)) :
    Covers height (levels.place level (Node.root (height + level) block)) (leaves ++ block) := by
  rw [← total_leafReading] at hdvd
  exact covers_iff.mpr ((covers_iff.mp h).place hdvd ⟨hblock, rfl⟩)

/-- When the leaves are a complete tree, its level holds the root. -/
theorem Covers.root?_eq_root (h : Covers height levels leaves)
    (hlength : leaves.length = 2 ^ (height + level)) :
    levels.root? level = some (Node.root (height + level) leaves) := by
  have hstand := covers_iff.mp h
  have hsome := hstand.isSome_root? level
  rw [total_leafReading, hlength, Nat.testBit_two_pow_self] at hsome
  obtain ⟨node, hroot⟩ := Option.isSome_iff_exists.mp hsome
  obtain ⟨before, block, after, rfl, ⟨hblock, rfl⟩, hbefore⟩ := hstand.exists_block hroot
  -- The block is as long as all the leaves, so nothing is on either side of it.
  simp only [List.length_append] at hlength
  obtain rfl : before = [] := List.length_eq_zero_iff.mp (by omega)
  obtain rfl : after = [] := List.length_eq_zero_iff.mp (by omega)
  rwa [List.nil_append, List.append_nil]

end Levels

end PieceKeeper
