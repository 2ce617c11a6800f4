import Hekaton.Coordinator
import Hekaton.SparseMerkleTrees
import Hekaton.VkdHash
import Mathlib.Data.Nat.Bitwise

/-!
# The sparse tree

A map of the nodes that were written, over the digests of an empty tree. Inserting a leaf
writes its digest and rehashes the nodes above it; a path is looked up from the leaf's level
upwards; a root is computed from a path and the bits of an index, `true` for an even one.
The map holds the nodes of the complete tree over the stored leaves.
-/

namespace SparseTree

open Outcomes VkdHash MerkleTrees SparseMerkleTrees Codecs Function

/-- The leaf hash and the inner hash of a tree. -/
structure Hashing where
  leaf : List UInt8 → InnerHash
  inner : InnerHash → InnerHash → InnerHash

def initialLeafValue : List UInt8 := List.replicate 32 0

structure MerkleIndex where
  index : Nat
  depth : Nat
  deriving DecidableEq

/-- One bit a level, the leaf's own first; `true` means that the node is a left child. -/
def MerkleIndex.toBitVector (i : MerkleIndex) : List Bool :=
  (List.range i.depth).map fun d => decide (i.index / 2 ^ d % 2 = 0)

inductive NodeType where
  | leaf
  | internalNode

inductive MerkleTreeError where
  | treeDepth (depth : Nat)
  | leafIndex (index : MerkleIndex)
  | fullTree
  | invalidHashSize
  | leafNotFound
  | sha256Collision
  | invalidDepthInsertion
  | invalidParameter

/-- `unwrap` on a result, with the error's debug text. -/
def unwrap {α : Type} (error : String) : Except MerkleTreeError α → Outcome α
  | .ok a => .ok a
  | .error _ => panicWith ("called `Result::unwrap()` on an `Err` value: " ++ error)

/-- `InnerHash::try_from(value).unwrap()`. -/
def innerHashOf (value : List UInt8) : Outcome InnerHash :=
  if size : value.length = innerHashSize then .ok ⟨value, size⟩
  else panicWith "called `Result::unwrap()` on an `Err` value: TryFromSliceError(())"

structure SparseMerkleTree where
  tree : MerkleIndex → Option InnerHash
  leaves : MerkleIndex → Option (List UInt8)
  root : InnerHash
  sparseInitialHashes : List InnerHash

/-- The siblings of a path, the leaf's own level first. -/
structure MerkleTreePath where
  path : List InnerHash
  deriving DecidableEq

section Model
variable (h : Hashing)

/-- The default node this many levels above the leaves. -/
def initialHash : Nat → InnerHash
  | 0 => h.leaf initialLeafValue
  | i + 1 =>
      let child := initialHash i
      h.inner child child

def sparseInitialHashes (depth : Nat) : List InnerHash :=
  ((List.range (depth + 1)).map (initialHash h)).reverse

/-- The digest of a value, which for an internal node is the value itself. -/
def nodeDigest (value : List UInt8) : NodeType → Outcome InnerHash
  | .internalNode => innerHashOf value
  | .leaf => .ok (h.leaf value)

namespace SparseMerkleTree

def new (depth : Nat) : SparseMerkleTree where
  tree := fun _ => none
  leaves := fun _ => none
  root := initialHash h depth
  sparseInitialHashes := SparseTree.sparseInitialHashes h depth

/-- The node with whether it was written. -/
def lookupInternalNode (t : SparseMerkleTree) (index depth : Nat) : Outcome (InnerHash × Bool) :=
  match t.tree ⟨index, depth⟩ with
  | some node => .ok (node, true)
  | none => do
      let initial ← expect Coordinator.outOfBounds t.sparseInitialHashes[depth]?
      .ok (initial, false)

/-- Rehash the nodes above the node at this index and depth. -/
def rehash (t : SparseMerkleTree) : Nat → Nat → Outcome SparseMerkleTree
  | _, 0 => .ok t
  | index, depth + 1 => do
      let i := index / 2
      let lc ← t.lookupInternalNode (2 * i) (depth + 1)
      let rc ← t.lookupInternalNode (2 * i + 1) (depth + 1)
      rehash { t with tree := update t.tree ⟨i, depth⟩ (some (h.inner lc.1 rc.1)) } i depth

def insert (t : SparseMerkleTree) (index : MerkleIndex) (value : List UInt8)
    (nodeType : NodeType) : Outcome SparseMerkleTree := do
  let nodeHash ← nodeDigest h value nodeType
  let leaves := match nodeType with
    | .internalNode => t.leaves
    | .leaf => update t.leaves index (some value)
  let written : SparseMerkleTree :=
    { t with tree := update t.tree index (some nodeHash), leaves := leaves }
  let rehashed ← written.rehash h index.index index.depth
  let root ← expect "root lookup failed" (rehashed.tree ⟨0, 0⟩)
  .ok { rehashed with root := root }

def lookupSiblings (t : SparseMerkleTree) : Nat → Nat → Outcome (List InnerHash)
  | _, 0 => .ok []
  | index, depth + 1 => do
      let sibling ← t.lookupInternalNode (index ^^^ 1) (depth + 1)
      let siblings ← lookupSiblings t (index / 2) depth
      .ok (sibling.1 :: siblings)

def lookupPath (t : SparseMerkleTree) (index : MerkleIndex) : Outcome MerkleTreePath := do
  let siblings ← t.lookupSiblings index.index index.depth
  .ok ⟨siblings⟩

/-- The lowest bytes of a hash of 32 bytes, as an index of this depth. -/
def getIndex (leafH : List UInt8) (depth : Nat) : Outcome (Except MerkleTreeError MerkleIndex) :=
  if leafH.length ≠ 32 then .ok (.error .invalidHashSize)
  else if leafH.length < depth / 8 then panicWith "range end index out of range"
  else .ok (.ok ⟨fromLittleEndian (leafH.take (depth / 8)), depth⟩)

end SparseMerkleTree

namespace MerkleTreePath

/-- Hash upwards from the level `i`. -/
def climbFrom (index : List Bool) : Nat → InnerHash → List InnerHash → Outcome InnerHash
  | _, current, [] => .ok current
  | i, current, sibling :: siblings => do
      let left ← expect Coordinator.outOfBounds index[i]?
      climbFrom index (i + 1)
        (if left then h.inner current sibling else h.inner sibling current) siblings

def computeRoot (p : MerkleTreePath) (value : List UInt8) (index : List Bool)
    (nodeType : NodeType) : Outcome InnerHash := do
  let current ← nodeDigest h value nodeType
  climbFrom h index 0 current p.path

def verify (p : MerkleTreePath) (root : InnerHash) (value : List UInt8) (index : List Bool)
    (nodeType : NodeType) : Outcome Bool := do
  let computed ← p.computeRoot h value index nodeType
  .ok (decide (computed = root))

end MerkleTreePath
end Model

section Paths
variable {h : Hashing}

theorem toBitVector_getElem? {i : MerkleIndex} {d : Nat} (inside : d < i.depth) :
    i.toBitVector[d]? = some (decide (i.index / 2 ^ d % 2 = 0)) := by
  simp [MerkleIndex.toBitVector, inside]

/-- A path no longer than the index climbs along the index. -/
theorem climbFrom_eq_ok {index : MerkleIndex} {siblings : List InnerHash} {d : Nat}
    (fits : d + siblings.length ≤ index.depth) (current : InnerHash) :
    MerkleTreePath.climbFrom h index.toBitVector d current siblings =
      .ok (climb h.inner (levelsOf (index.index / 2 ^ d) siblings) current) := by
  induction siblings generalizing d current with
  | nil => rfl
  | cons sibling siblings ih =>
    rw [List.length_cons] at fits
    have inside : d < index.depth := by omega
    have half : index.index / 2 ^ d / 2 = index.index / 2 ^ (d + 1) := by
      rw [Nat.pow_succ, Nat.div_div_eq_div_mul]
    rw [MerkleTreePath.climbFrom, toBitVector_getElem? inside, expect_some, ok_bind,
      ih (by omega), levelsOf, half]
    rcases Nat.mod_two_eq_zero_or_one (index.index / 2 ^ d) with even | odd
    · simp [even, climb]
    · simp [odd, climb]

/-- A path that is longer than the index runs past its end. -/
theorem climbFrom_fails {index : MerkleIndex} {siblings : List InnerHash} {d : Nat}
    (start : d ≤ index.depth) (exceeds : index.depth < d + siblings.length)
    (current : InnerHash) : MerkleTreePath.climbFrom h index.toBitVector d current siblings =
      panicWith Coordinator.outOfBounds := by
  induction siblings generalizing d current with
  | nil => exact absurd exceeds (by simpa using start)
  | cons sibling siblings ih =>
    rw [List.length_cons] at exceeds
    rw [MerkleTreePath.climbFrom]
    by_cases inside : d < index.depth
    · rw [toBitVector_getElem? inside, expect_some, ok_bind]
      exact ih inside (by omega) _
    · have past : index.toBitVector[d]? = none := by
        simp [MerkleIndex.toBitVector, inside]
      rw [past]
      rfl

/-- The siblings of a path as the levels from the leaf's index. -/
abbrev levels (index : MerkleIndex) (p : MerkleTreePath) : List (Bool × InnerHash) :=
  levelsOf index.index p.path

/-- The root from a digest, where the path is no longer than the index. -/
theorem computeRoot_eq {p : MerkleTreePath} {value : List UInt8} {index : MerkleIndex}
    {nodeType : NodeType} {current : InnerHash}
    (digest : nodeDigest h value nodeType = .ok current) :
    p.computeRoot h value index.toBitVector nodeType =
      if p.path.length ≤ index.depth then .ok (climb h.inner (levels index p) current)
      else panicWith Coordinator.outOfBounds := by
  rw [MerkleTreePath.computeRoot, digest, ok_bind]
  by_cases fits : p.path.length ≤ index.depth
  · rw [if_pos fits, climbFrom_eq_ok (by omega), pow_zero, Nat.div_one]
  · rw [if_neg fits]
    exact climbFrom_fails (Nat.zero_le _) (by omega) current

theorem verify_eq {p : MerkleTreePath} {value : List UInt8} {index : MerkleIndex}
    {nodeType : NodeType} {current root : InnerHash}
    (digest : nodeDigest h value nodeType = .ok current) :
    p.verify h root value index.toBitVector nodeType =
      if p.path.length ≤ index.depth then
        .ok (decide (climb h.inner (levels index p) current = root))
      else panicWith Coordinator.outOfBounds := by
  rw [MerkleTreePath.verify, computeRoot_eq digest]
  split <;> rfl

end Paths

section Tree
variable {h : Hashing} {depth : Nat} {t t' : SparseMerkleTree}

def leafDigest (h : Hashing) (depth : Nat) (t : SparseMerkleTree) (i : Nat) : InnerHash :=
  h.leaf ((t.leaves ⟨i, depth⟩).getD initialLeafValue)

/-- A lookup returns the node of the complete tree over `leaf`. -/
def Shows (h : Hashing) (depth : Nat) (leaf : Nat → InnerHash) (t : SparseMerkleTree)
    (index d : Nat) : Prop :=
  ∃ written, t.lookupInternalNode index d = .ok (node h.inner leaf (depth - d) index, written)

/-- The map holds the nodes of the complete tree over the stored leaves. -/
structure Represents (h : Hashing) (depth : Nat) (t : SparseMerkleTree) : Prop where
  nodes : ∀ d i, d ≤ depth → i < 2 ^ d → Shows h depth (leafDigest h depth t) t i d
  root : t.root = node h.inner (leafDigest h depth t) depth 0

theorem sparseInitialHashes_getElem? {d : Nat} (inside : d ≤ depth) :
    (sparseInitialHashes h depth)[d]? = some (initialHash h (depth - d)) := by
  have bound : d < ((List.range (depth + 1)).map (initialHash h)).length := by
    rw [List.length_map, List.length_range]
    omega
  rw [sparseInitialHashes, List.getElem?_reverse bound, List.length_map, List.length_range,
    show depth + 1 - 1 - d = depth - d by omega, List.getElem?_map, List.getElem?_range (by omega)]
  rfl

theorem represents_new (h : Hashing) (depth : Nat) : Represents h depth (.new h depth) := by
  have nodes (d i : Nat) :
      node h.inner (leafDigest h depth (.new h depth)) d i = initialHash h d :=
    node_constant (c := initialHash h) (fun _ => rfl) (fun _ => rfl) d i
  constructor
  · intro d i inside _
    refine ⟨false, ?_⟩
    rw [nodes]
    simp only [SparseMerkleTree.lookupInternalNode, SparseMerkleTree.new,
      sparseInitialHashes_getElem? inside, expect_some, ok_bind]
  · exact (nodes depth 0).symm

/-- Writing a node changes the lookup of that node only. -/
theorem lookup_write {tree : MerkleIndex → Option InnerHash} {index d j e : Nat}
    {digest : InnerHash} (same : tree = update t.tree ⟨index, d⟩ (some digest)) :
    ({ t with tree := tree } : SparseMerkleTree).lookupInternalNode j e =
      if j = index ∧ e = d then .ok (digest, true) else t.lookupInternalNode j e := by
  subst same
  by_cases here : j = index ∧ e = d
  · obtain ⟨rfl, rfl⟩ := here
    simp [SparseMerkleTree.lookupInternalNode]
  · have other : (⟨j, e⟩ : MerkleIndex) ≠ ⟨index, d⟩ := by
      rintro ⟨⟩
      exact here ⟨rfl, rfl⟩
    rw [if_neg here]
    simp only [SparseMerkleTree.lookupInternalNode, update_of_ne other]

/-- Rehashing upwards from a node completes a tree that is right everywhere else. -/
theorem rehash_shows {leaf : Nat → InnerHash} {d index : Nat} (inside : d ≤ depth)
    (bound : index < 2 ^ d) (written : (t.tree ⟨index, d⟩).isSome)
    (right : ∀ e j, e ≤ depth → j < 2 ^ e → (e < d → j ≠ index / 2 ^ (d - e)) →
      Shows h depth leaf t j e) :
    ∃ t', t.rehash h index d = .ok t' ∧ t'.leaves = t.leaves ∧ (t'.tree ⟨0, 0⟩).isSome ∧
      ∀ e j, e ≤ depth → j < 2 ^ e → Shows h depth leaf t' j e := by
  induction d generalizing t index with
  | zero =>
    obtain rfl : index = 0 := by omega
    exact ⟨t, rfl, rfl, written, fun e j he hj => right e j he hj fun above => by omega⟩
  | succ d ih =>
    have half : index / 2 < 2 ^ d := by
      rw [Nat.pow_succ] at bound
      omega
    obtain ⟨_, left⟩ := right (d + 1) (2 * (index / 2)) inside (by rw [Nat.pow_succ]; omega)
      fun above => absurd above (Nat.lt_irrefl _)
    obtain ⟨_, right'⟩ := right (d + 1) (2 * (index / 2) + 1) inside (by rw [Nat.pow_succ]; omega)
      fun above => absurd above (Nat.lt_irrefl _)
    have height : depth - d = depth - (d + 1) + 1 := by omega
    obtain ⟨digest, parent⟩ : ∃ digest, digest = node h.inner leaf (depth - d) (index / 2) :=
      ⟨_, rfl⟩
    have lookup (j e : Nat) := @lookup_write t _ (index / 2) d j e digest rfl
    have step : t.rehash h index (d + 1) =
        ({ t with tree := update t.tree ⟨index / 2, d⟩ (some digest) } :
          SparseMerkleTree).rehash h (index / 2) d := by
      rw [SparseMerkleTree.rehash, left, ok_bind, right', ok_bind, parent, height, node]
    rw [step]
    apply ih (by omega) half
    · simp
    · intro e j he hj aside
      by_cases here : j = index / 2 ∧ e = d
      · obtain ⟨rfl, rfl⟩ := here
        exact ⟨true, by rw [lookup, if_pos ⟨rfl, rfl⟩, parent]⟩
      · obtain ⟨w, before⟩ := right e j he hj fun below same => by
          have level : e = d ∨ e < d := by omega
          rcases level with rfl | above
          · rw [Nat.add_sub_cancel_left, Nat.pow_one] at same
            exact here ⟨same, rfl⟩
          · apply aside above
            rw [same, Nat.div_div_eq_div_mul, ← Nat.pow_succ', show d + 1 - e = d - e + 1 by omega]
        exact ⟨w, by rw [lookup, if_neg here, before]⟩

/-- The leaf digests after a leaf is inserted. -/
theorem leafDigest_update {leaves : MerkleIndex → Option (List UInt8)} {i : Nat}
    {value : List UInt8} (stored : t'.leaves = update leaves ⟨i, depth⟩ (some value))
    (before : leaves = t.leaves) :
    leafDigest h depth t' = update (leafDigest h depth t) i (h.leaf value) := by
  funext j
  subst before
  by_cases here : j = i
  · subst here
    simp [leafDigest, stored]
  · have other : (⟨j, depth⟩ : MerkleIndex) ≠ ⟨i, depth⟩ := by
      rintro ⟨⟩
      exact here rfl
    simp only [leafDigest, stored, update_of_ne other, update_of_ne here]

/-- Inserting a leaf succeeds and stores it, and the map stays that of a complete tree. -/
theorem insert_represents (represents : Represents h depth t) {i : Nat} (bound : i < 2 ^ depth)
    (value : List UInt8) :
    ∃ t', t.insert h ⟨i, depth⟩ value .leaf = .ok t' ∧
      t'.leaves = update t.leaves ⟨i, depth⟩ (some value) ∧ Represents h depth t' := by
  have lookup (j e : Nat) := @lookup_write t _ i depth j e (h.leaf value) rfl
  let stored : SparseMerkleTree :=
    { t with tree := update t.tree ⟨i, depth⟩ (some (h.leaf value)),
             leaves := update t.leaves ⟨i, depth⟩ (some value) }
  have written : (stored.tree ⟨i, depth⟩).isSome := by simp [stored]
  obtain ⟨rehashed, run, kept, top, shows⟩ := @rehash_shows h depth stored
    (update (leafDigest h depth t) i (h.leaf value)) depth i le_rfl bound written (by
      intro e j he hj aside
      by_cases here : j = i ∧ e = depth
      · obtain ⟨rfl, rfl⟩ := here
        refine ⟨true, (lookup j e).trans ?_⟩
        rw [if_pos ⟨rfl, rfl⟩, Nat.sub_self, node, update_self]
      · obtain ⟨w, before⟩ := represents.nodes e j he hj
        refine ⟨w, (lookup j e).trans ?_⟩
        rw [if_neg here, before, node_update fun same => ?_]
        rcases Nat.lt_or_eq_of_le he with above | level
        · exact aside above same
        · apply here
          rw [level, Nat.sub_self, Nat.pow_zero, Nat.div_one] at same
          exact ⟨same, level⟩)
  obtain ⟨root, found⟩ := Option.isSome_iff_exists.mp top
  have digests : leafDigest h depth { rehashed with root := root } =
      update (leafDigest h depth t) i (h.leaf value) := leafDigest_update kept rfl
  refine ⟨{ rehashed with root := root }, ?_, kept, ?_⟩
  · have run' : SparseMerkleTree.rehash h stored i depth = .ok rehashed := run
    simp only [SparseMerkleTree.insert, nodeDigest, ok_bind]
    rw [run', ok_bind, found]
    rfl
  · constructor
    · intro d j inside hj
      rw [digests]
      exact shows d j inside hj
    · obtain ⟨w, first⟩ := shows 0 0 (Nat.zero_le depth) Nat.one_pos
      rw [SparseMerkleTree.lookupInternalNode, found] at first
      rw [digests, ← Nat.sub_zero depth]
      exact congrArg Prod.fst (Except.ok.inj first)

theorem xor_one_eq (i : Nat) : i ^^^ 1 = if i % 2 = 1 then i - 1 else i + 1 := by
  split
  · exact Nat.xor_one_of_odd (Nat.odd_iff.mpr ‹_›)
  · exact Nat.xor_one_of_even (Nat.even_iff.mpr (by omega))

theorem lookupSiblings_eq {leaf : Nat → InnerHash} {d index : Nat} (inside : d ≤ depth)
    (bound : index < 2 ^ d)
    (shows : ∀ e j, e ≤ depth → j < 2 ^ e → Shows h depth leaf t j e) :
    t.lookupSiblings index d = .ok (siblings h.inner d (node h.inner leaf (depth - d)) index) := by
  induction d generalizing index with
  | zero => rfl
  | succ d ih =>
    have half : index / 2 < 2 ^ d := by
      rw [Nat.pow_succ] at bound
      omega
    have height : depth - d = depth - (d + 1) + 1 := by omega
    obtain ⟨w, sibling⟩ := shows (d + 1) (index ^^^ 1) inside (by
      rw [Nat.pow_succ] at bound ⊢
      rw [xor_one_eq]
      split <;> omega)
    rw [SparseMerkleTree.lookupSiblings, sibling, ok_bind, ih (by omega) half, ok_bind, siblings,
      height, xor_one_eq]
    split <;> rfl

/-- The path that is looked up is that of the complete tree. -/
theorem lookupPath_eq (represents : Represents h depth t) {i : Nat} (bound : i < 2 ^ depth) :
    t.lookupPath ⟨i, depth⟩ = .ok ⟨siblings h.inner depth (leafDigest h depth t) i⟩ := by
  have looked := lookupSiblings_eq le_rfl bound represents.nodes
  rw [Nat.sub_self] at looked
  rw [SparseMerkleTree.lookupPath, looked]
  rfl

/-- The trees that inserting leaves into a new one reaches. -/
inductive Reached (h : Hashing) (depth : Nat) : SparseMerkleTree → Prop where
  | new : Reached h depth (.new h depth)
  | insert {t t' : SparseMerkleTree} {i : Nat} {value : List UInt8} (before : Reached h depth t)
      (bound : i < 2 ^ depth) (inserted : t.insert h ⟨i, depth⟩ value .leaf = .ok t') :
      Reached h depth t'

/-- What is known after an insertion that ran. -/
theorem insert_of_eq_ok (represents : Represents h depth t) {i : Nat} (bound : i < 2 ^ depth)
    {value : List UInt8} (inserted : t.insert h ⟨i, depth⟩ value .leaf = .ok t') :
    t'.leaves = update t.leaves ⟨i, depth⟩ (some value) ∧ Represents h depth t' := by
  obtain ⟨_, run, stored, after⟩ := insert_represents represents bound value
  cases run.symm.trans inserted
  exact ⟨stored, after⟩

theorem Reached.represents (reached : Reached h depth t) : Represents h depth t := by
  induction reached with
  | new => exact represents_new h depth
  | insert _ bound inserted ih => exact (insert_of_eq_ok ih bound inserted).2

end Tree
end SparseTree
