import Hekaton.MerkleTrees
import Mathlib.Data.Set.Function
import Mathlib.Logic.Function.Basic

/-!
# Nodes of a hash tree

The digest of every node of a perfect binary hash tree, by its height and its position.
Replacing a leaf changes the nodes above it and no others, and the path of the old leaf is
the path of the new one. A path that climbs to a node comes from the node that its sides
spell, unless two pairs that were hashed collide.
-/

namespace SparseMerkleTrees

open MerkleTrees Function

variable {D : Type}

/-- The node at this height and position. -/
def node (hash : D → D → D) (leaf : Nat → D) : Nat → Nat → D
  | 0, i => leaf i
  | h + 1, i => hash (node hash leaf h (2 * i)) (node hash leaf h (2 * i + 1))

variable {hash : D → D → D} {leaf leaf' : Nat → D}

/-- The tree above the parents of the leaves. -/
theorem node_succ (h i : Nat) :
    node hash leaf (h + 1) i =
      node hash (fun j => hash (leaf (2 * j)) (leaf (2 * j + 1))) h i := by
  induction h generalizing i with
  | zero => rfl
  | succ h ih => exact congrArg₂ hash (ih _) (ih _)

theorem root_eq_node (d : Nat) (leaf : Nat → D) : root hash d leaf = node hash leaf d 0 := by
  induction d generalizing leaf with
  | zero => rfl
  | succ d ih => exact (ih _).trans (node_succ d 0).symm

/-- A tree whose leaves are all equal. -/
theorem node_constant {c : Nat → D} (bottom : ∀ i, leaf i = c 0)
    (above : ∀ h, hash (c h) (c h) = c (h + 1)) (h i : Nat) : node hash leaf h i = c h := by
  induction h generalizing i with
  | zero => exact bottom i
  | succ h ih => rw [node, ih, ih, above]

/-- A node depends on the leaves below it only. -/
theorem node_congr {h i : Nat}
    (same : ∀ j, j / 2 ^ h = i → leaf j = leaf' j) : node hash leaf h i = node hash leaf' h i := by
  induction h generalizing i with
  | zero => exact same i (Nat.div_one i)
  | succ h ih =>
    have half (j : Nat) : j / 2 ^ (h + 1) = j / 2 ^ h / 2 := by
      rw [Nat.pow_succ, Nat.div_div_eq_div_mul]
    have left := ih (i := 2 * i) fun j below => same j (by rw [half, below]; omega)
    have right := ih (i := 2 * i + 1) fun j below => same j (by rw [half, below]; omega)
    exact congrArg₂ hash left right

/-- Replacing a leaf leaves the nodes that are not above it. -/
theorem node_update {h i j : Nat} {digest : D} (aside : j ≠ i / 2 ^ h) :
    node hash (update leaf i digest) h j = node hash leaf h j := by
  apply node_congr
  intro k below
  have other : k ≠ i := by
    rintro rfl
    exact aside below.symm
  exact update_of_ne other digest leaf

theorem siblings_congr {d i : Nat} (same : ∀ j, j ≠ i → leaf j = leaf' j) :
    siblings hash d leaf i = siblings hash d leaf' i := by
  induction d generalizing leaf leaf' i with
  | zero => rfl
  | succ d ih =>
    have sibling : (if i % 2 = 1 then leaf (i - 1) else leaf (i + 1)) =
        if i % 2 = 1 then leaf' (i - 1) else leaf' (i + 1) := by
      split
      · exact same (i - 1) (by omega)
      · exact same (i + 1) (by omega)
    have above := @ih (fun j => hash (leaf (2 * j)) (leaf (2 * j + 1)))
      (fun j => hash (leaf' (2 * j)) (leaf' (2 * j + 1))) (i / 2)
      fun j other => congrArg₂ hash (same _ (by omega)) (same _ (by omega))
    rw [siblings, siblings, sibling, above]

/-- The sibling at each height of the path of leaf `i`. -/
theorem siblings_eq (d i : Nat) (leaf : Nat → D) :
    siblings hash d leaf i = (List.range d).map fun h =>
      if i / 2 ^ h % 2 = 1 then node hash leaf h (i / 2 ^ h - 1)
      else node hash leaf h (i / 2 ^ h + 1) := by
  induction d generalizing leaf i with
  | zero => rfl
  | succ d ih =>
    rw [siblings, ih, List.range_succ_eq_map, List.map_cons, List.map_map]
    refine congrArg₂ List.cons (by simp [node]) (List.map_congr_left fun h _ => ?_)
    simp only [comp_apply, Nat.succ_eq_add_one, node_succ, Nat.pow_succ', Nat.div_div_eq_div_mul]

/-- The path of a leaf climbs to the root over any digest put in its place. -/
theorem climb_update {d i : Nat} (bound : i < 2 ^ d) (digest : D) :
    climb hash (levelsOf i (siblings hash d leaf i)) digest =
      node hash (update leaf i digest) d 0 := by
  have same : siblings hash d leaf i = siblings hash d (update leaf i digest) i :=
    siblings_congr fun j other => (update_of_ne other digest leaf).symm
  have honest := @climb_siblings D hash d (update leaf i digest) i bound
  rw [update_self, root_eq_node] at honest
  rw [same, honest]

/-- The pairs that climbing a path hashes. -/
def climbPairs (hash : D → D → D) : List (Bool × D) → D → List (D × D)
  | [], _ => []
  | (true, sibling) :: path, node => (sibling, node) :: climbPairs hash path (hash sibling node)
  | (false, sibling) :: path, node => (node, sibling) :: climbPairs hash path (hash node sibling)

/-- The pairs that the inner nodes of a tree of depth `d` hash. -/
def treePairs (hash : D → D → D) (leaf : Nat → D) (d : Nat) : Set (D × D) :=
  { pair | ∃ h i, h < d ∧ i < 2 ^ (d - (h + 1)) ∧
    pair = (node hash leaf h (2 * i), node hash leaf h (2 * i + 1)) }

/-- The tree over the nodes of one height. -/
theorem node_node (h k i : Nat) :
    node hash (fun j => node hash leaf h j) k i = node hash leaf (h + k) i := by
  induction k generalizing i with
  | zero => rfl
  | succ k ih => exact congrArg₂ hash (ih _) (ih _)

theorem treePairs_node_subset (h k : Nat) :
    treePairs hash (fun j => node hash leaf h j) k ⊆ treePairs hash leaf (h + k) := by
  rintro _ ⟨l, i, below, bound, rfl⟩
  refine ⟨h + l, i, by omega, ?_, ?_⟩
  · rwa [show h + k - (h + l + 1) = k - (l + 1) by omega]
  · rw [node_node, node_node]

theorem update_parents {i : Nat} {x sibling : D} :
    (leaf (2 * i + 1) = sibling →
      update (fun j => hash (leaf (2 * j)) (leaf (2 * j + 1))) i (hash x sibling) =
        fun j => hash (update leaf (2 * i) x (2 * j)) (update leaf (2 * i) x (2 * j + 1))) ∧
    (leaf (2 * i) = sibling →
      update (fun j => hash (leaf (2 * j)) (leaf (2 * j + 1))) i (hash sibling x) =
        fun j => hash (update leaf (2 * i + 1) x (2 * j))
          (update leaf (2 * i + 1) x (2 * j + 1))) := by
  constructor <;> rintro rfl <;> funext j
  · by_cases here : j = i
    · subst here
      rw [update_self, update_self, update_of_ne (by omega)]
    · rw [update_of_ne here, update_of_ne (by omega), update_of_ne (by omega)]
  · by_cases here : j = i
    · subst here
      rw [update_self, update_self, update_of_ne (by omega)]
    · rw [update_of_ne here, update_of_ne (by omega), update_of_ne (by omega)]

/-- A path to the root starts from the leaf at its own position, and climbs to the root of
the tree in which that leaf is replaced. -/
theorem climb_binds {path : List (Bool × D)} {digest : D}
    (distinct : Set.InjOn (uncurry hash)
      ({ pair | pair ∈ climbPairs hash path digest } ∪ treePairs hash leaf path.length))
    (climbs : climb hash path digest = node hash leaf path.length 0) :
    digest = leaf (position path) ∧
      ∀ x, climb hash path x = node hash (update leaf (position path) x) path.length 0 := by
  induction path generalizing leaf digest with
  | nil =>
    refine ⟨climbs, fun x => ?_⟩
    change x = update leaf 0 x 0
    rw [update_self]
  | cons step path ih =>
    obtain ⟨right, sibling⟩ := step
    rw [List.length_cons, node_succ] at climbs
    have inTree : (leaf (2 * position path), leaf (2 * position path + 1)) ∈
        treePairs hash leaf (path.length + 1) :=
      ⟨0, position path, Nat.succ_pos _, position_lt path, rfl⟩
    have above : treePairs hash (fun j => hash (leaf (2 * j)) (leaf (2 * j + 1))) path.length ⊆
        treePairs hash leaf (path.length + 1) := by
      rw [Nat.add_comm]
      exact treePairs_node_subset 1 path.length
    cases right with
    | false =>
      obtain ⟨parent, replaced⟩ :=
        ih (distinct.mono (Set.union_subset_union (fun _ => .tail _) above)) climbs
      have equal := distinct (.inl (List.mem_cons_self ..)) (.inr inTree) parent
      obtain ⟨same, other⟩ := Prod.mk.inj equal
      rw [position, Bool.toNat_false, Nat.zero_add]
      refine ⟨same, fun x => ?_⟩
      rw [climb, replaced, update_parents.1 other.symm, List.length_cons, node_succ]
    | true =>
      obtain ⟨parent, replaced⟩ :=
        ih (distinct.mono (Set.union_subset_union (fun _ => .tail _) above)) climbs
      have equal := distinct (.inl (List.mem_cons_self ..)) (.inr inTree) parent
      obtain ⟨other, same⟩ := Prod.mk.inj equal
      rw [position, Bool.toNat_true, Nat.add_comm]
      refine ⟨same, fun x => ?_⟩
      rw [climb, replaced, update_parents.2 other.symm, List.length_cons, node_succ]

/-- Every node above the leaves is the hash of a pair. -/
theorem node_mem_image {h d i : Nat} (inner : 0 < h) (height : h ≤ d) (bound : i < 2 ^ (d - h)) :
    node hash leaf h i ∈ Set.image (uncurry hash) (treePairs hash leaf d) := by
  obtain ⟨k, rfl⟩ := Nat.exists_eq_succ_of_ne_zero (Nat.ne_of_gt inner)
  exact ⟨_, ⟨k, i, by omega, bound, rfl⟩, rfl⟩

/-- A path that is shorter than the tree starts from an inner node. -/
theorem short_climb {path : List (Bool × D)} {digest : D} {d : Nat} (short : path.length < d)
    (distinct : Set.InjOn (uncurry hash)
      ({ pair | pair ∈ climbPairs hash path digest } ∪ treePairs hash leaf d))
    (climbs : climb hash path digest = node hash leaf d 0) :
    digest ∈ Set.image (uncurry hash) (treePairs hash leaf d) := by
  obtain ⟨h, rfl⟩ := Nat.exists_eq_add_of_lt short
  have size : path.length + h + 1 = h + 1 + path.length := by omega
  rw [size] at distinct climbs ⊢
  rw [← node_node] at climbs
  have inside := Set.union_subset_union_right { pair | pair ∈ climbPairs hash path digest }
    (@treePairs_node_subset D hash leaf (h + 1) path.length)
  rw [(climb_binds (distinct.mono inside) climbs).1]
  apply node_mem_image (Nat.succ_pos h) (by omega)
  rw [Nat.add_sub_cancel_left]
  exact position_lt path

end SparseMerkleTrees
