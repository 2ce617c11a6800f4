import Hekaton.MerkleTrees
import Mathlib.Data.Option.Basic
import Mathlib.Logic.Function.Basic

/-!
# Collisions read off a path

Nothing is assumed of the hash. A path that ends in the root of a tree and starts from
another node than the tree has there parts from the tree's own path on some level: two
pairs of nodes that differ and hash alike. They are computed from the path and the leaves.
-/

namespace HashCollisions

open MerkleTrees

variable {α β D : Type}

/-- Two different arguments with one hash. -/
structure Collision (hash : α → β) where
  one : α
  other : α
  differ : one ≠ other
  alike : hash one = hash other

theorem Collision.not_injective {hash : α → β} (found : Collision hash) :
    ¬ Function.Injective hash :=
  fun injective => found.differ (injective found.alike)

section Search

variable [DecidableEq α] [DecidableEq β]

/-- Two arguments, if they collide. -/
def collide (hash : α → β) (one other : α) : Option (Collision hash) :=
  if differ : one ≠ other then
    if alike : hash one = hash other then some ⟨one, other, differ, alike⟩ else none
  else none

theorem eq_of_collide_none {hash : α → β} {one other : α} (clear : collide hash one other = none)
    (alike : hash one = hash other) : one = other := by
  by_contra differ
  rw [collide, dif_pos differ, dif_pos alike] at clear
  cases clear

end Search

/-- The hashed pair of a node and its sibling; `true` means that the node is the right child. -/
def children (right : Bool) (node sibling : D) : D × D :=
  if right then (sibling, node) else (node, sibling)

theorem climb_cons (hash : D → D → D) (right : Bool) (sibling : D) (path : List (Bool × D))
    (node : D) : climb hash ((right, sibling) :: path) node =
      climb hash path (Function.uncurry hash (children right node sibling)) := by
  cases right <;> rfl

/-- The pair of leaves that the rest of a path leads to. -/
def pairAt (leaf : Nat → D) (path : List (Bool × D)) : D × D :=
  (leaf (2 * position path), leaf (2 * position path + 1))

theorem node_of_children {leaf : Nat → D} {right : Bool} {sibling : D} {path : List (Bool × D)}
    {node : D} (same : children right node sibling = pairAt leaf path) :
    node = leaf (position ((right, sibling) :: path)) := by
  cases right with
  | false =>
    have first : node = leaf (2 * position path) := congrArg Prod.fst same
    rw [first, position, Bool.toNat_false, Nat.zero_add]
  | true =>
    have second : node = leaf (2 * position path + 1) := congrArg Prod.snd same
    rw [second, position, Bool.toNat_true, Nat.add_comm]

variable [DecidableEq D]

/-- The lowest level where the path's pair and the tree's collide. -/
def onPath (hash : D → D → D) :
    List (Bool × D) → D → (Nat → D) → Option (Collision (Function.uncurry hash))
  | [], _, _ => none
  | (right, sibling) :: path, node, leaf =>
    (collide (Function.uncurry hash) (children right node sibling) (pairAt leaf path)).or
      (onPath hash path (Function.uncurry hash (children right node sibling))
        fun i => hash (leaf (2 * i)) (leaf (2 * i + 1)))

example : (onPath (fun _ _ => 0) [(false, 5)] 3 fun i => i + 3).map
    (fun found => (found.one, found.other)) = some ((3, 5), (3, 4)) := by decide

/-- A path that ends in the root and shows no collision starts from the tree's own leaf. -/
theorem leaf_of_onPath_none {hash : D → D → D} {path : List (Bool × D)} {node : D}
    {leaf : Nat → D} (clear : onPath hash path node leaf = none)
    (ends : climb hash path node = root hash path.length leaf) : node = leaf (position path) := by
  induction path generalizing node leaf with
  | nil => exact ends
  | cons step path ih =>
    obtain ⟨right, sibling⟩ := step
    obtain ⟨here, above⟩ := Option.or_eq_none_iff.mp clear
    rw [climb_cons] at ends
    have parent : Function.uncurry hash (children right node sibling) =
        Function.uncurry hash (pairAt leaf path) := ih above ends
    exact node_of_children (eq_of_collide_none here parent)

end HashCollisions
