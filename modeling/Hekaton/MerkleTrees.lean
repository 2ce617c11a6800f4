import Mathlib.Data.Nat.Basic
import Mathlib.Data.List.Basic
import Mathlib.Tactic.Ring

/-!
# Perfect binary hash trees

Leaves are digests indexed by position, hashed two to one from the bottom level up. A
path lists, from the leaf upwards, on which side the node stands and its sibling. With
an injective hash a path that ends in the root can only start from the leaf that its
sides spell; the path of a leaf does end in the root.
-/

namespace MerkleTrees

variable {D : Type}

/-- The root of the tree of depth `d` over `leaf`. -/
def root (hash : D → D → D) : Nat → (Nat → D) → D
  | 0, leaf => leaf 0
  | d + 1, leaf => root hash d fun i => hash (leaf (2 * i)) (leaf (2 * i + 1))

/-- Hash a path upwards; `true` means that the node is the right child. -/
def climb (hash : D → D → D) : List (Bool × D) → D → D
  | [], node => node
  | (true, sibling) :: path, node => climb hash path (hash sibling node)
  | (false, sibling) :: path, node => climb hash path (hash node sibling)

/-- The leaf position that the sides of a path spell, the lowest level first. -/
def position : List (Bool × D) → Nat
  | [] => 0
  | (right, _) :: path => right.toNat + 2 * position path

theorem position_lt (path : List (Bool × D)) : position path < 2 ^ path.length := by
  induction path with
  | nil => exact Nat.one_pos
  | cons step path ih =>
    obtain ⟨right, sibling⟩ := step
    have hright := Bool.toNat_lt right
    rw [position, List.length_cons, pow_succ]
    omega

/-- Binding: only the leaf at the path's own position hashes up to the root. -/
theorem leaf_of_climb {hash : D → D → D} (injective : Function.Injective2 hash)
    {path : List (Bool × D)} {leaf : Nat → D} {node : D}
    (h : climb hash path node = root hash path.length leaf) : node = leaf (position path) := by
  induction path generalizing leaf node with
  | nil => exact h
  | cons step path ih =>
    obtain ⟨right, sibling⟩ := step
    cases right with
    | false =>
      have parent : hash node sibling = hash (leaf (2 * position path)) _ := ih h
      rw [(injective parent).1, position, Bool.toNat_false, Nat.zero_add]
    | true =>
      have parent : hash sibling node = hash _ (leaf (2 * position path + 1)) := ih h
      rw [(injective parent).2, position, Bool.toNat_true, Nat.add_comm]

/-- Sides and siblings of the leaf at index `i`, for the given siblings. -/
def levelsOf : Nat → List D → List (Bool × D)
  | _, [] => []
  | i, sibling :: siblings => (decide (i % 2 = 1), sibling) :: levelsOf (i / 2) siblings

@[simp] theorem length_levelsOf (i : Nat) (siblings : List D) :
    (levelsOf i siblings).length = siblings.length := by
  induction siblings generalizing i with
  | nil => rfl
  | cons sibling siblings ih => exact congrArg Nat.succ (ih _)

theorem position_levelsOf (i : Nat) (siblings : List D) :
    position (levelsOf i siblings) = i % 2 ^ siblings.length := by
  induction siblings generalizing i with
  | nil => simp [levelsOf, position, Nat.mod_one]
  | cons sibling siblings ih =>
    rw [levelsOf, position, ih, List.length_cons, pow_succ, Nat.mul_comm (2 ^ _) 2, Nat.mod_mul]
    rcases Nat.mod_two_eq_zero_or_one i with even | odd
    · simp [even]
    · simp [odd]

theorem climb_append (hash : D → D → D) (low high : List (Bool × D)) (node : D) :
    climb hash (low ++ high) node = climb hash high (climb hash low node) := by
  induction low generalizing node with
  | nil => rfl
  | cons step low ih =>
    obtain ⟨right, sibling⟩ := step
    cases right <;> exact ih _

theorem levelsOf_append (i : Nat) (low high : List D) :
    levelsOf i (low ++ high) = levelsOf i low ++ levelsOf (i / 2 ^ low.length) high := by
  induction low generalizing i with
  | nil => rw [List.nil_append, List.length_nil, pow_zero, Nat.div_one, levelsOf, List.nil_append]
  | cons sibling low ih =>
    have half : i / 2 / 2 ^ low.length = i / 2 ^ (low.length + 1) := by
      rw [Nat.div_div_eq_div_mul, pow_succ, Nat.mul_comm]
    rw [List.cons_append, levelsOf, ih, half, levelsOf, List.length_cons, List.cons_append]

/-- The sides of so many levels are the lowest bits. -/
theorem levelsOf_mod {i k : Nat} {siblings : List D} (fits : siblings.length ≤ k) :
    levelsOf (i % 2 ^ k) siblings = levelsOf i siblings := by
  induction siblings generalizing i k with
  | nil => rfl
  | cons sibling siblings ih =>
    obtain ⟨k, rfl⟩ : ∃ m, k = m + 1 := ⟨k - 1, by rw [List.length_cons] at fits; omega⟩
    have half : i % 2 ^ (k + 1) / 2 = i / 2 % 2 ^ k := by
      rw [pow_succ, Nat.mul_comm, Nat.mod_mul_right_div_self]
    have low : i % 2 ^ (k + 1) % 2 = i % 2 := by
      rw [pow_succ, Nat.mul_comm, Nat.mod_mul_right_mod]
    rw [levelsOf, levelsOf, half, low, ih (Nat.le_of_succ_le_succ fits)]

/-- The siblings of leaf `i`, from its own level upwards. -/
def siblings (hash : D → D → D) : Nat → (Nat → D) → Nat → List D
  | 0, _, _ => []
  | d + 1, leaf, i =>
      (if i % 2 = 1 then leaf (i - 1) else leaf (i + 1)) ::
        siblings hash d (fun j => hash (leaf (2 * j)) (leaf (2 * j + 1))) (i / 2)

@[simp] theorem length_siblings (hash : D → D → D) (d : Nat) (leaf : Nat → D) (i : Nat) :
    (siblings hash d leaf i).length = d := by
  induction d generalizing leaf i with
  | zero => rfl
  | succ d ih => exact congrArg Nat.succ (ih _ _)

/-- The path of a leaf hashes up to the root. -/
theorem climb_siblings (hash : D → D → D) {d : Nat} {leaf : Nat → D} {i : Nat} (h : i < 2 ^ d) :
    climb hash (levelsOf i (siblings hash d leaf i)) (leaf i) = root hash d leaf := by
  induction d generalizing leaf i with
  | zero =>
    obtain rfl : i = 0 := Nat.lt_one_iff.mp h
    rfl
  | succ d ih =>
    have half : i / 2 < 2 ^ d := by
      rw [pow_succ] at h
      omega
    have parent : climb hash (levelsOf (i / 2) (siblings hash d
        (fun j => hash (leaf (2 * j)) (leaf (2 * j + 1))) (i / 2)))
        (hash (leaf (2 * (i / 2))) (leaf (2 * (i / 2) + 1))) = root hash (d + 1) leaf := ih half
    rcases Nat.mod_two_eq_zero_or_one i with even | odd
    · have double : 2 * (i / 2) = i := by omega
      rw [siblings, levelsOf, if_neg (by omega), decide_eq_false (by omega), climb, ← parent,
        double]
    · have before : 2 * (i / 2) = i - 1 := by omega
      have same : i - 1 + 1 = i := by omega
      rw [siblings, levelsOf, if_pos odd, decide_eq_true odd, climb, ← parent, before, same]

end MerkleTrees
