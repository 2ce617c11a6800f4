import Hekaton.TreeIndexing
import Mathlib.Data.Set.Function

/-!
# The order of a tree's subcircuits

The subcircuits list the nodes of a tree level by level from the leaves on, and every node
below the root is the child of one node above it. A tree of height 31 still has its nodes in
32 bits, but the node of its root is computed with a shift by 32, which a build that checks
overflows refuses.
-/

namespace TreeNumbering

open Outcomes TreeIndexing

/-- The nodes of the subcircuits of a tree, in order. -/
structure LevelOrder (overflowChecks : Bool) (numLeaves : Nat) (node : Nat → Nat) : Prop where
  /-- The function of the source returns them. -/
  computed : ∀ i < 2 * numLeaves - 1,
    subcircuitIdxToNodeIdx overflowChecks i numLeaves = .ok (node i)
  bijection : Set.BijOn node (Set.Iio (2 * numLeaves - 1)) (Set.Iio (2 * numLeaves - 1))
  levels : ∀ i j, i ≤ j → j < 2 * numLeaves - 1 → level (node i) ≤ level (node j)
  leaves : ∀ i < numLeaves, node i = 2 * i
  root : rootIdx overflowChecks numLeaves = .ok (node (2 * numLeaves - 2))
  /-- The children of a node are two nodes one level below it, with earlier subcircuits. -/
  children : ∀ i < 2 * numLeaves - 1, 1 ≤ level (node i) → ∃ a b, a < i ∧ b < i ∧ a ≠ b ∧
    leftChild (node i) = .ok (node a) ∧ rightChild (node i) = .ok (node b) ∧
    level (node a) + 1 = level (node i) ∧ level (node b) + 1 = level (node i)
  /-- A node other than the root is a child of exactly one node. -/
  parent : ∀ v < 2 * numLeaves - 1, rootIdx overflowChecks numLeaves ≠ .ok v →
    ∃! w, w < 2 * numLeaves - 1 ∧ 1 ≤ level w ∧ (leftChild w = .ok v ∨ rightChild w = .ok v)

variable {k : Nat}

theorem nodeAt_inside {l upper : Nat} (low : l ≤ k) (inside : upper < 2 ^ (k - l)) :
    nodeAt l upper + 1 < 2 ^ (k + 1) := by
  have positive : 0 < 2 ^ l := Nat.two_pow_pos l
  have double : 2 ^ (l + 1) = 2 ^ l + 2 ^ l := two_pow_succ_eq l
  have whole : 2 ^ (k - l) * 2 ^ (l + 1) = 2 ^ (k + 1) := by
    rw [← Nat.pow_add]
    congr 1
    omega
  have row : (upper + 1) * 2 ^ (l + 1) ≤ 2 ^ (k - l) * 2 ^ (l + 1) :=
    Nat.mul_le_mul_right _ inside
  rw [Nat.succ_mul, whole] at row
  rw [nodeAt]
  omega

/-- Every number below the tree's size is a node: halve it as long as it is odd. -/
theorem exists_nodeAt {v : Nat} (inside : v + 1 < 2 ^ (k + 1)) :
    ∃ l upper, l ≤ k ∧ upper < 2 ^ (k - l) ∧ v = nodeAt l upper := by
  induction k generalizing v with
  | zero => exact ⟨0, 0, Nat.le_refl 0, Nat.one_pos, by rw [nodeAt_zero]; omega⟩
  | succ k ih =>
    have double := two_pow_succ_eq (k + 1)
    rcases Nat.even_or_odd' v with ⟨w, rfl | rfl⟩
    · refine ⟨0, w, Nat.zero_le _, ?_, (nodeAt_zero w).symm⟩
      rw [Nat.sub_zero]
      omega
    · obtain ⟨l, upper, low, place, rfl⟩ := ih (v := w) (by omega)
      refine ⟨l + 1, upper, Nat.succ_le_succ low, ?_, (nodeAt_succ l upper).symm⟩
      rwa [Nat.add_sub_add_right]

/-- Every place of the tree has a subcircuit. -/
theorem exists_idx {l upper : Nat} (low : l ≤ k) (inside : upper < 2 ^ (k - l)) :
    ∃ idx, idx + 1 < 2 ^ (k + 1) ∧ AtPlace k idx l upper := by
  have whole := two_pow_sub_succ low
  have most : 2 ^ (k + 1 - l) ≤ 2 ^ (k + 1) := Nat.pow_le_pow_right (by decide) (by omega)
  refine ⟨2 ^ (k + 1) + upper - 2 ^ (k + 1 - l), ?_, low, inside, ?_⟩
  · omega
  · omega

/-- A later subcircuit is not on a lower level. -/
theorem level_mono {i j l l' upper upper' : Nat} (place : AtPlace k i l upper)
    (place' : AtPlace k j l' upper') (before : i ≤ j) : l ≤ l' := by
  by_contra above
  obtain ⟨low, inside, index⟩ := place
  obtain ⟨low', inside', index'⟩ := place'
  have whole' := two_pow_sub_succ low'
  have half : 2 ^ (k + 1 - l) ≤ 2 ^ (k - l') := Nat.pow_le_pow_right (by decide) (by omega)
  omega

/-- A child tells its parent. -/
theorem parent_of_child {l upper w : Nat} (height : k < 32) (tree : w + 1 < 2 ^ (k + 1))
    (inner : 1 ≤ level w)
    (below : leftChild w = .ok (nodeAt l upper) ∨ rightChild w = .ok (nodeAt l upper))
    (low : l ≤ k) : w = nodeAt (l + 1) (upper / 2) := by
  obtain ⟨m, u, top, inside, rfl⟩ := exists_nodeAt tree
  rw [level_nodeAt (by omega)] at inner
  obtain ⟨m, rfl⟩ := Nat.exists_eq_succ_of_ne_zero (Nat.ne_of_gt inner)
  rcases below with left | right
  · rw [leftChild_nodeAt (by omega)] at left
    obtain ⟨rfl, rfl⟩ := nodeAt_injective (by omega) (by omega) (Except.ok.inj left)
    rw [Nat.mul_div_cancel_left u (by decide)]
  · rw [rightChild_nodeAt (by omega)] at right
    obtain ⟨rfl, rfl⟩ := nodeAt_injective (by omega) (by omega) (Except.ok.inj right)
    rw [show (2 * u + 1) / 2 = u by omega]

theorem child_of_nodeAt {l upper : Nat} (height : l + 1 < 32) :
    leftChild (nodeAt (l + 1) (upper / 2)) = .ok (nodeAt l upper) ∨
      rightChild (nodeAt (l + 1) (upper / 2)) = .ok (nodeAt l upper) := by
  rcases Nat.even_or_odd' upper with ⟨u, rfl | rfl⟩
  · left
    rw [Nat.mul_div_cancel_left u (by decide), leftChild_nodeAt height]
  · right
    rw [show (2 * u + 1) / 2 = u by omega, rightChild_nodeAt height]

/-- The node of a subcircuit where there is one. -/
def numbered (overflowChecks : Bool) (numLeaves i : Nat) : Nat :=
  (subcircuitIdxToNodeIdx overflowChecks i numLeaves).toOption.getD 0

section Order
variable {overflowChecks : Bool} (height : k < 32) (fits : overflowChecks = true → k < 31)
include height fits

theorem numbered_place {i l upper : Nat} (place : AtPlace k i l upper) :
    numbered overflowChecks (2 ^ k) i = nodeAt l upper := by
  rw [numbered, subcircuitIdxToNodeIdx_eq height fits place]
  rfl

theorem numbered_bijOn : Set.BijOn (numbered overflowChecks (2 ^ k)) (Set.Iio (2 * 2 ^ k - 1))
    (Set.Iio (2 * 2 ^ k - 1)) := by
  have size : 2 * 2 ^ k = 2 ^ (k + 1) := (Nat.pow_succ' (m := 2) (n := k)).symm
  refine ⟨?_, ?_, ?_⟩
  · intro i inside
    rw [Set.mem_Iio, size] at inside ⊢
    have early : i + 1 < 2 ^ (k + 1) := by omega
    obtain ⟨l, upper, place⟩ := exists_place height early
    rw [numbered_place height fits place]
    have below := nodeAt_inside place.low place.inside
    omega
  · intro i inside j inside' same
    rw [Set.mem_Iio, size] at inside inside'
    have early : i + 1 < 2 ^ (k + 1) := by omega
    obtain ⟨l, upper, place⟩ := exists_place height early
    have late : j + 1 < 2 ^ (k + 1) := by omega
    obtain ⟨l', upper', place'⟩ := exists_place height late
    rw [numbered_place height fits place, numbered_place height fits place'] at same
    have low := place.low
    have low' := place'.low
    obtain ⟨rfl, rfl⟩ := nodeAt_injective (by omega) (by omega) same
    have index := place.index
    have index' := place'.index
    omega
  · intro v inside
    rw [Set.mem_Iio, size] at inside
    obtain ⟨l, upper, low, place, rfl⟩ := exists_nodeAt (k := k) (v := v) (by omega)
    obtain ⟨i, early, found⟩ := exists_idx low place
    refine ⟨i, ?_, numbered_place height fits found⟩
    rw [Set.mem_Iio, size]
    omega

theorem numbered_children {i : Nat} (inside : i + 1 < 2 ^ (k + 1))
    (inner : 1 ≤ level (numbered overflowChecks (2 ^ k) i)) :
    ∃ a b, a < i ∧ b < i ∧ a ≠ b ∧
      leftChild (numbered overflowChecks (2 ^ k) i) =
        .ok (numbered overflowChecks (2 ^ k) a) ∧
      rightChild (numbered overflowChecks (2 ^ k) i) =
        .ok (numbered overflowChecks (2 ^ k) b) ∧
      level (numbered overflowChecks (2 ^ k) a) + 1 =
        level (numbered overflowChecks (2 ^ k) i) ∧
      level (numbered overflowChecks (2 ^ k) b) + 1 =
        level (numbered overflowChecks (2 ^ k) i) := by
  obtain ⟨l, upper, place⟩ := exists_place height inside
  have low := place.low
  rw [numbered_place height fits place, level_nodeAt (by omega)] at inner
  obtain ⟨l, rfl⟩ := Nat.exists_eq_succ_of_ne_zero (Nat.ne_of_gt inner)
  obtain ⟨a, early, left⟩ := place.children (Or.inl rfl)
  obtain ⟨b, early', right⟩ := place.children (Or.inr rfl)
  have apart : a ≠ b := by
    rintro rfl
    obtain ⟨_, same⟩ := left.unique right
    omega
  refine ⟨a, b, early, early', apart, ?_⟩
  rw [numbered_place height fits place, numbered_place height fits left,
    numbered_place height fits right]
  refine ⟨leftChild_nodeAt (by omega) upper, rightChild_nodeAt (by omega) upper, ?_⟩
  rw [level_nodeAt (by omega), level_nodeAt (by omega), level_nodeAt (by omega)]
  exact ⟨rfl, rfl⟩

theorem numbered_parent {v : Nat} (inside : v + 1 < 2 ^ (k + 1)) (below : v ≠ nodeAt k 0) :
    ∃! w, w < 2 * 2 ^ k - 1 ∧ 1 ≤ level w ∧ (leftChild w = .ok v ∨ rightChild w = .ok v) := by
  have size : 2 * 2 ^ k = 2 ^ (k + 1) := (Nat.pow_succ' (m := 2) (n := k)).symm
  obtain ⟨l, upper, low, place, rfl⟩ := exists_nodeAt inside
  have inner : l ≠ k := by
    rintro rfl
    rw [Nat.sub_self, Nat.pow_zero, Nat.lt_one_iff] at place
    exact below (by rw [place])
  have double := two_pow_sub_succ (show l ≤ k - 1 by omega)
  rw [show k - 1 + 1 - l = k - l by omega, show k - 1 - l = k - (l + 1) by omega] at double
  have tree : nodeAt (l + 1) (upper / 2) + 1 < 2 ^ (k + 1) :=
    nodeAt_inside (by omega) (by omega)
  refine ⟨nodeAt (l + 1) (upper / 2), ⟨by omega, ?_, child_of_nodeAt (by omega)⟩, ?_⟩
  · rw [level_nodeAt (by omega)]
    exact Nat.succ_pos l
  · rintro w ⟨early, high, child⟩
    exact parent_of_child height (by omega) high child low

/-- The subcircuits list the nodes by level. -/
theorem numbered_levelOrder : LevelOrder overflowChecks (2 ^ k)
    (numbered overflowChecks (2 ^ k)) := by
  have size : 2 * 2 ^ k = 2 ^ (k + 1) := (Nat.pow_succ' (m := 2) (n := k)).symm
  have two : 1 ≤ 2 ^ k := Nat.two_pow_pos k
  have top : AtPlace k (2 * 2 ^ k - 2) k 0 := by
    refine ⟨Nat.le_refl k, Nat.two_pow_pos _, ?_⟩
    rw [Nat.add_sub_cancel_left]
    omega
  constructor
  · intro i inside
    have early : i + 1 < 2 ^ (k + 1) := by omega
    obtain ⟨l, upper, place⟩ := exists_place height early
    rw [subcircuitIdxToNodeIdx_eq height fits place, numbered_place height fits place]
  · exact numbered_bijOn height fits
  · intro i j before inside
    have early : i + 1 < 2 ^ (k + 1) := by omega
    obtain ⟨l, upper, place⟩ := exists_place height early
    have late : j + 1 < 2 ^ (k + 1) := by omega
    obtain ⟨l', upper', place'⟩ := exists_place height late
    have low := place.low
    have low' := place'.low
    rw [numbered_place height fits place, numbered_place height fits place',
      level_nodeAt (by omega), level_nodeAt (by omega)]
    exact level_mono place place' before
  · intro i leaf
    have place : AtPlace k i 0 i := ⟨Nat.zero_le k, leaf, Nat.add_comm _ _⟩
    rw [numbered_place height fits place, nodeAt_zero]
  · rw [rootIdx_eq height, numbered_place height fits top]
  · exact fun i inside => numbered_children height fits (by omega)
  · intro v inside below
    refine numbered_parent height fits (by omega) fun same => below ?_
    rw [rootIdx_eq height, same]

end Order

/-- A number of leaves whose nodes fit in 32 bits: the subcircuits list the nodes by level,
each with its children before it, exactly where the root is not refused. -/
theorem levelOrder_iff {overflowChecks : Bool} (two : 1 ≤ k) (small : 2 * 2 ^ k - 1 < 2 ^ 32) :
    (∃ node, LevelOrder overflowChecks (2 ^ k) node) ↔ ¬ (overflowChecks = true ∧ k = 31) := by
  have size : 2 * 2 ^ k = 2 ^ (k + 1) := (Nat.pow_succ' (m := 2) (n := k)).symm
  have height : k < 32 := by
    by_contra tall
    have most : 2 ^ 33 ≤ 2 ^ (k + 1) := Nat.pow_le_pow_right (by decide) (by omega)
    omega
  constructor
  · rintro ⟨node, order⟩ ⟨checked, tall⟩
    have inside : 2 * 2 ^ k - 2 < 2 * 2 ^ k - 1 := by
      have positive : 1 ≤ 2 ^ k := Nat.two_pow_pos k
      omega
    have last := order.computed (2 * 2 ^ k - 2) inside
    rw [size] at last
    have lower := (height_of_root last).2 checked
    exact absurd tall (Nat.ne_of_lt lower)
  · intro lower
    apply Exists.intro _ (numbered_levelOrder height fun checked => ?_)
    have inner : k ≠ 31 := fun tall => lower ⟨checked, tall⟩
    omega

theorem fourLeaves_levelOrder : ∃ node, LevelOrder true (2 ^ 2) node :=
  (levelOrder_iff (k := 2) (by decide) (by decide)).mpr (by decide)

/-- With overflows checked the root of a tree of height 31 is not found. -/
theorem tallestTree_refused : ¬ ∃ node, LevelOrder true (2 ^ 31) node := by
  rintro ⟨node, order⟩
  have last := order.computed (2 * 2 ^ 31 - 2) (by decide)
  have lower := (height_of_root (k := 31) last).2 rfl
  exact absurd lower (by decide)

end TreeNumbering
