import Hekaton.Outcomes
import Mathlib.Data.Nat.Bits
import Mathlib.Data.Nat.Bitwise
import Mathlib.Data.Nat.Log
import Mathlib.Tactic.Ring

/-!
# Indices of tree nodes

The nodes of a tree of leaves are numbered from left to right, and the subcircuits level by
level from the leaves on. The level of a node is its number of trailing ones. A number of 32
bits is shifted by its amount modulo 32, or not at all where overflows are checked, so the
numbering ends with trees of a height below 32.
-/

namespace TreeIndexing

open Outcomes

section Model
variable (overflowChecks : Bool)

def subBits (width a b : Nat) : Outcome Nat :=
  if b ≤ a then .ok (a - b)
  else if overflowChecks then panicWith "attempt to subtract with overflow"
  else .ok (a + 2 ^ width - b)

def addBits (width a b : Nat) : Outcome Nat :=
  if a + b < 2 ^ width then .ok (a + b)
  else if overflowChecks then panicWith "attempt to add with overflow"
  else .ok ((a + b) % 2 ^ width)

/-- `a << n` on 32 bits. -/
def shiftLeft (a n : Nat) : Outcome Nat :=
  if overflowChecks ∧ 32 ≤ n then panicWith "attempt to shift left with overflow"
  else .ok ((a <<< (n % 32)) % 2 ^ 32)

/-- `trailing_ones` of a number of this many bits. -/
def trailingOnes : Nat → Nat → Nat
  | 0, _ => 0
  | bits + 1, n => if n % 2 = 1 then trailingOnes bits (n / 2) + 1 else 0

def level (node : Nat) : Nat := trailingOnes 32 node

def child (offset node : Nat) : Outcome Nat :=
  if level node = 0 then panicWith "cannot compute the child of a level-0 node"
  else .ok (node ^^^ ((offset <<< (level node - 1)) % 2 ^ 32))

def leftChild (node : Nat) : Outcome Nat := child 1 node

def rightChild (node : Nat) : Outcome Nat := child 3 node

def numInternalNodes (numLeaves : Nat) : Nat :=
  if numLeaves < 2 then 0 else 2 * (numLeaves - 1) + 1

def rootIdx (numLeaves : Nat) : Outcome Nat := do
  let top ← shiftLeft overflowChecks 1 (numInternalNodes numLeaves).log2
  subBits overflowChecks 32 top 1

/-- The node of a level with these bits above its trailing ones. -/
def nodeIdxOf (level trailingOnes upperHalf : Nat) : Outcome Nat := do
  let shifted ← shiftLeft overflowChecks upperHalf (level + 1)
  addBits overflowChecks 32 shifted trailingOnes

/-- Look for the subcircuit in a level, `i` counting the nodes seen: its node, or the count
after the level. -/
def searchLevel (subcircuitIdx level trailingOnes : Nat) : List Nat → Nat → Outcome (Nat ⊕ Nat)
  | [], i => .ok (.inr i)
  | upperHalf :: rest, i => do
      let nodeIdx ← nodeIdxOf overflowChecks level trailingOnes upperHalf
      if i = subcircuitIdx then .ok (.inl nodeIdx)
      else searchLevel subcircuitIdx level trailingOnes rest (i + 1)

def searchLevels (subcircuitIdx numLeaves : Nat) : List Nat → Nat → Outcome Nat
  | [], _ => panicWith ("invalid subcircuit idx " ++ toString subcircuitIdx ++
      " for a tree of " ++ toString numLeaves ++ " leaves")
  | level :: rest, i => do
      let upperHalfSize ← subBits overflowChecks 32 numLeaves.log2 level
      let ones ← shiftLeft overflowChecks 1 level
      let trailingOnes ← subBits overflowChecks 32 ones 1
      let count ← shiftLeft overflowChecks 1 upperHalfSize
      let found ← searchLevel overflowChecks subcircuitIdx level trailingOnes (List.range count) i
      match found with
      | .inl nodeIdx => .ok nodeIdx
      | .inr i => searchLevels subcircuitIdx numLeaves rest i

/-- All node indices in order, until the subcircuit's. -/
def subcircuitIdxToNodeIdx (subcircuitIdx numLeaves : Nat) : Outcome Nat := do
  let root ← rootIdx overflowChecks numLeaves
  searchLevels overflowChecks subcircuitIdx numLeaves (List.range (level root + 1)) 0

end Model

/-- The node of a level at this place from the left. -/
def nodeAt (level upper : Nat) : Nat := upper * 2 ^ (level + 1) + 2 ^ level - 1

theorem nodeAt_zero (upper : Nat) : nodeAt 0 upper = 2 * upper := by
  rw [nodeAt]
  omega

theorem nodeAt_succ (level upper : Nat) : nodeAt (level + 1) upper = 2 * nodeAt level upper + 1 := by
  have positive : 0 < 2 ^ level := Nat.two_pow_pos level
  have double : upper * 2 ^ (level + 1 + 1) = 2 * (upper * 2 ^ (level + 1)) := by
    rw [Nat.pow_succ 2 (level + 1)]
    ring
  rw [nodeAt, nodeAt, double, Nat.pow_succ]
  omega

theorem trailingOnes_nodeAt {bits level : Nat} (inside : level < bits) (upper : Nat) :
    trailingOnes bits (nodeAt level upper) = level := by
  induction level generalizing bits with
  | zero =>
    obtain ⟨bits, rfl⟩ := Nat.exists_eq_succ_of_ne_zero (Nat.ne_of_gt inside)
    rw [nodeAt_zero, trailingOnes, if_neg (by omega)]
  | succ level ih =>
    obtain ⟨bits, rfl⟩ := Nat.exists_eq_succ_of_ne_zero (Nat.ne_of_gt (Nat.zero_lt_of_lt inside))
    have half : (2 * nodeAt level upper + 1) / 2 = nodeAt level upper := by omega
    rw [nodeAt_succ, trailingOnes, if_pos (by omega), half, ih (Nat.lt_of_succ_lt_succ inside)]

@[simp] theorem level_nodeAt {l : Nat} (inside : l < 32) (upper : Nat) :
    level (nodeAt l upper) = l := trailingOnes_nodeAt inside upper

theorem nodeAt_lt {e l upper : Nat} (low : l ≤ e) (inside : upper < 2 ^ (e - l)) :
    nodeAt l upper < 2 ^ (e + 1) := by
  have positive : 0 < 2 ^ l := Nat.two_pow_pos l
  have half : 2 ^ l ≤ 2 ^ (l + 1) := Nat.pow_le_pow_right (by decide) (Nat.le_succ l)
  have whole : 2 ^ (e - l) * 2 ^ (l + 1) = 2 ^ (e + 1) := by
    rw [← Nat.pow_add]
    congr 1
    omega
  have row : (upper + 1) * 2 ^ (l + 1) ≤ 2 ^ (e - l) * 2 ^ (l + 1) :=
    Nat.mul_le_mul_right _ inside
  rw [Nat.succ_mul, whole] at row
  rw [nodeAt]
  omega

/-- Bits are combined one by one. -/
theorem xor_bits (x y : Bool) (a b : Nat) : (2 * a + x.toNat) ^^^ (2 * b + y.toNat) =
    2 * (a ^^^ b) + (x ^^ y).toNat := by
  have both := Nat.xor_bit x a y b
  simpa [Nat.bit_val] using both

theorem nodeAt_xor_left (l u : Nat) : nodeAt (l + 1) u ^^^ 2 ^ l = nodeAt l (2 * u) := by
  induction l with
  | zero =>
    have odd := xor_bits true true (2 * u) 0
    rw [nodeAt_succ, nodeAt_zero, nodeAt_zero]
    simpa using odd
  | succ l ih =>
    have odd := xor_bits true false (nodeAt (l + 1) u) (2 ^ l)
    rw [nodeAt_succ (l + 1) u, Nat.pow_succ', nodeAt_succ l (2 * u), ← ih]
    simpa using odd

theorem nodeAt_xor_right (l u : Nat) : nodeAt (l + 1) u ^^^ (3 * 2 ^ l) = nodeAt l (2 * u + 1) := by
  induction l with
  | zero =>
    have odd : (2 * (2 * u) + 1) ^^^ 3 = 2 * ((2 * u) ^^^ 1) := by
      simpa using xor_bits true true (2 * u) 1
    rw [nodeAt_succ, nodeAt_zero, nodeAt_zero, Nat.pow_zero, Nat.mul_one, odd]
    simp
  | succ l ih =>
    have odd := xor_bits true false (nodeAt (l + 1) u) (3 * 2 ^ l)
    rw [nodeAt_succ (l + 1) u, Nat.pow_succ', Nat.mul_left_comm, nodeAt_succ l (2 * u + 1), ← ih]
    simpa using odd

/-- The children of a node are the two below it. -/
theorem leftChild_nodeAt {l : Nat} (height : l + 1 < 32) (u : Nat) :
    leftChild (nodeAt (l + 1) u) = .ok (nodeAt l (2 * u)) := by
  have small : 2 ^ l < 2 ^ 32 := Nat.pow_lt_pow_right (by decide) (by omega)
  rw [leftChild, child, level_nodeAt height, if_neg (Nat.succ_ne_zero l), Nat.add_sub_cancel,
    Nat.shiftLeft_eq, Nat.one_mul, Nat.mod_eq_of_lt small, nodeAt_xor_left]

theorem rightChild_nodeAt {l : Nat} (height : l + 1 < 32) (u : Nat) :
    rightChild (nodeAt (l + 1) u) = .ok (nodeAt l (2 * u + 1)) := by
  have small : 2 ^ l ≤ 2 ^ 30 := Nat.pow_le_pow_right (by decide) (by omega)
  rw [rightChild, child, level_nodeAt height, if_neg (Nat.succ_ne_zero l), Nat.add_sub_cancel,
    Nat.shiftLeft_eq, Nat.mod_eq_of_lt (by omega), nodeAt_xor_right]

theorem nodeAt_injective {l l' u u' : Nat} (height : l < 32) (height' : l' < 32)
    (same : nodeAt l u = nodeAt l' u') : l = l' ∧ u = u' := by
  have levels := congrArg level same
  rw [level_nodeAt height, level_nodeAt height'] at levels
  subst levels
  have positive : 0 < 2 ^ l := Nat.two_pow_pos l
  rw [nodeAt, nodeAt] at same
  refine ⟨rfl, Nat.eq_of_mul_eq_mul_right (Nat.two_pow_pos (l + 1)) ?_⟩
  omega

section Search
variable {overflowChecks : Bool} {e k : Nat}

theorem shiftLeft_eq {a n : Nat} (fits : overflowChecks = true → n < 32)
    (small : a * 2 ^ (n % 32) < 2 ^ 32) :
    shiftLeft overflowChecks a n = .ok (a * 2 ^ (n % 32)) := by
  have checked : ¬ (overflowChecks = true ∧ 32 ≤ n) := fun both =>
    absurd (fits both.1) (Nat.not_lt_of_le both.2)
  rw [shiftLeft, if_neg checked, Nat.shiftLeft_eq, Nat.mod_eq_of_lt small]

theorem subBits_eq {width a b : Nat} (le : b ≤ a) :
    subBits overflowChecks width a b = .ok (a - b) := if_pos le

theorem addBits_eq {width a b : Nat} (small : a + b < 2 ^ width) :
    addBits overflowChecks width a b = .ok (a + b) := if_pos small

/-- The last bit of a shift by 32 is lost, or the shift panics. -/
theorem nodeIdxOf_eq {l upper : Nat} (height : e < 32) (low : l ≤ e)
    (inside : upper < 2 ^ (e - l)) : nodeIdxOf overflowChecks l (2 ^ l - 1) upper =
      if overflowChecks ∧ l = 31 then panicWith "attempt to shift left with overflow"
      else .ok (nodeAt l upper) := by
  have positive : 0 < 2 ^ l := Nat.two_pow_pos l
  have below := nodeAt_lt low inside
  have width : 2 ^ (e + 1) ≤ 2 ^ 32 := Nat.pow_le_pow_right (by decide) (by omega)
  by_cases last : l = 31
  · have alone : upper = 0 := by
      rw [show e - l = 0 by omega] at inside
      omega
    subst last alone
    cases overflowChecks <;> rfl
  · rw [if_neg (fun both => last both.2)]
    have amount : (l + 1) % 32 = l + 1 := Nat.mod_eq_of_lt (by omega)
    rw [nodeAt] at below ⊢
    have shifted : shiftLeft overflowChecks upper (l + 1) = .ok (upper * 2 ^ ((l + 1) % 32)) :=
      shiftLeft_eq (fun _ => by omega) (by rw [amount]; omega)
    rw [nodeIdxOf, shifted, ok_bind, amount, addBits_eq (by omega), Nat.add_sub_assoc positive]

theorem searchLevel_eq {idx l ones : Nat} {node : Nat → Nat} {uppers : List Nat} {i : Nat}
    (each : ∀ u ∈ uppers, nodeIdxOf overflowChecks l ones u = .ok (node u)) :
    searchLevel overflowChecks idx l ones uppers i =
      match (if i ≤ idx then uppers[idx - i]? else none) with
      | some u => .ok (.inl (node u))
      | none => .ok (.inr (i + uppers.length)) := by
  induction uppers generalizing i with
  | nil => simp [searchLevel]
  | cons u uppers ih =>
    rw [searchLevel, each u List.mem_cons_self, ok_bind,
      ih fun v member => each v (List.mem_cons_of_mem u member)]
    rcases Nat.lt_trichotomy i idx with before | rfl | after
    · rw [if_neg (Nat.ne_of_lt before), if_pos (Nat.succ_le_of_lt before),
        if_pos (Nat.le_of_lt before), show idx - i = (idx - (i + 1)) + 1 by omega, List.getElem?_cons_succ, List.length_cons]
      simp only [Nat.add_assoc, Nat.add_comm 1]
    · simp
    · rw [if_neg (Nat.ne_of_gt after), if_neg (by omega), if_neg (by omega), List.length_cons]
      simp only [Nat.add_assoc, Nat.add_comm 1]

/-- The subcircuit with this index is at this place of a tree of height `e`. -/
structure AtPlace (e idx l upper : Nat) : Prop where
  low : l ≤ e
  inside : upper < 2 ^ (e - l)
  index : idx + 2 ^ (e + 1 - l) = 2 ^ (e + 1) + upper

/-- A level has twice the nodes of the one above it. -/
theorem two_pow_sub_succ {e l : Nat} (low : l ≤ e) :
    2 ^ (e + 1 - l) = 2 ^ (e - l) + 2 ^ (e - l) := by
  rw [Nat.sub_add_comm low, Nat.pow_succ, Nat.mul_two]

theorem two_pow_succ_eq (e : Nat) : 2 ^ (e + 1) = 2 ^ e + 2 ^ e :=
  two_pow_sub_succ (Nat.zero_le e)

/-- The arithmetic of one level. -/
theorem level_arithmetic (height : e < 32) (shifts : k % 32 = e)
    (fits : overflowChecks = true → k < 32) {l : Nat} (low : l ≤ e) :
    subBits overflowChecks 32 (2 ^ k).log2 l = .ok (k - l) ∧
    shiftLeft overflowChecks 1 l = .ok (2 ^ l) ∧
    subBits overflowChecks 32 (2 ^ l) 1 = .ok (2 ^ l - 1) ∧
    shiftLeft overflowChecks 1 (k - l) = .ok (2 ^ (e - l)) := by
  have amount : l % 32 = l := Nat.mod_eq_of_lt (by omega)
  have amount' : (k - l) % 32 = e - l := by omega
  have small (n : Nat) (bound : n < 32) : 1 * 2 ^ n < 2 ^ 32 := by
    rw [Nat.one_mul]
    exact Nat.pow_lt_pow_right (by decide) bound
  refine ⟨?_, ?_, subBits_eq (Nat.two_pow_pos l), ?_⟩
  · rw [Nat.log2_two_pow]
    exact subBits_eq (by omega)
  · rw [shiftLeft_eq (fun _ => by omega) (by rw [amount]; exact small l (by omega)), amount,
      Nat.one_mul]
  · rw [shiftLeft_eq (fun checked => by have := fits checked; omega)
      (by rw [amount']; exact small _ (by omega)), amount', Nat.one_mul]

/-- The last level of a tree of height 31 is refused where overflows are checked. -/
theorem searchLevel_last {idx i : Nat} :
    searchLevel true idx 31 (2 ^ 31 - 1) (List.range 1) i =
      panicWith "attempt to shift left with overflow" := by
  have only : nodeIdxOf true 31 (2 ^ 31 - 1) 0 = _ :=
    nodeIdxOf_eq (e := 31) (by decide) (Nat.le_refl 31) (by decide)
  rw [show List.range 1 = [0] from rfl, searchLevel, only]
  rfl

theorem searchLevels_ok {idx node : Nat} (height : e < 32) (shifts : k % 32 = e)
    (fits : overflowChecks = true → k < 32) {a n i : Nat} (all : a + n = e + 1)
    (start : i + 2 ^ (e + 1 - a) = 2 ^ (e + 1))
    (found : searchLevels overflowChecks idx (2 ^ k) (List.range' a n) i = .ok node) :
    ∃ l upper, AtPlace e idx l upper ∧ (overflowChecks = true → l < 31) ∧ node = nodeAt l upper := by
  induction n generalizing a i with
  | zero => cases found
  | succ n ih =>
    obtain ⟨size, ones, trailing, count⟩ := level_arithmetic height shifts fits (l := a) (by omega)
    rw [List.range'_succ, searchLevels, size, ok_bind, ones, ok_bind, trailing, ok_bind, count,
      ok_bind] at found
    by_cases last : overflowChecks = true ∧ a = 31
    · obtain ⟨rfl, rfl⟩ := last
      have top : e - 31 = 0 := by omega
      rw [top, Nat.pow_zero, searchLevel_last] at found
      cases found
    · have each : ∀ u ∈ List.range (2 ^ (e - a)),
          nodeIdxOf overflowChecks a (2 ^ a - 1) u = .ok (nodeAt a u) := by
        intro u member
        rw [nodeIdxOf_eq height (by omega) (List.mem_range.mp member), if_neg last]
      rw [searchLevel_eq each] at found
      have whole := two_pow_sub_succ (show a ≤ e by omega)
      cases here : (if i ≤ idx then (List.range (2 ^ (e - a)))[idx - i]? else none) with
      | some u =>
        rw [here] at found
        cases found
        rw [ite_eq_iff] at here
        obtain ⟨reached, here⟩ | ⟨_, none⟩ := here
        · obtain ⟨inside, rfl⟩ := List.getElem?_eq_some_iff.mp here
          rw [List.length_range] at inside
          rw [List.getElem_range]
          refine ⟨a, idx - i, ⟨by omega, inside, by omega⟩, fun checked => ?_, rfl⟩
          have inner : a ≠ 31 := fun top => last ⟨checked, top⟩
          omega
        · cases none
      | none =>
        rw [here, ok_bind] at found
        apply ih (by omega) _ found
        rw [List.length_range, show e + 1 - (a + 1) = e - a by omega]
        omega

/-- Every index is found where the heights fit. -/
theorem searchLevels_find {idx : Nat} (height : k < 32) (fits : overflowChecks = true → k < 31)
    {a n i : Nat} (all : a + n = k + 1) (start : i + 2 ^ (k + 1 - a) = 2 ^ (k + 1))
    (reached : i ≤ idx) (inside : idx + 1 < 2 ^ (k + 1)) :
    ∃ node, searchLevels overflowChecks idx (2 ^ k) (List.range' a n) i = .ok node := by
  induction n generalizing a i with
  | zero =>
    rw [show k + 1 - a = 0 by omega, Nat.pow_zero] at start
    omega
  | succ n ih =>
    obtain ⟨size, ones, trailing, count⟩ := level_arithmetic height (Nat.mod_eq_of_lt height)
      (fun _ => height) (l := a) (by omega)
    have each : ∀ u ∈ List.range (2 ^ (k - a)),
        nodeIdxOf overflowChecks a (2 ^ a - 1) u = .ok (nodeAt a u) := by
      intro u member
      have inner : ¬ (overflowChecks = true ∧ a = 31) := by
        rintro ⟨checked, top⟩
        have := fits checked
        omega
      rw [nodeIdxOf_eq height (by omega) (List.mem_range.mp member), if_neg inner]
    rw [List.range'_succ, searchLevels, size, ok_bind, ones, ok_bind, trailing, ok_bind, count,
      ok_bind, searchLevel_eq each, if_pos reached]
    by_cases here : idx - i < 2 ^ (k - a)
    · rw [List.getElem?_range here]
      exact ⟨_, rfl⟩
    · rw [List.getElem?_eq_none (by rw [List.length_range]; omega), List.length_range, ok_bind]
      have whole := two_pow_sub_succ (show a ≤ k by omega)
      apply ih (by omega) _ (by omega)
      rw [show k + 1 - (a + 1) = k - a by omega]
      omega

end Search

section Numbering
variable {overflowChecks : Bool} {k : Nat}

theorem log2_numInternalNodes (k : Nat) : (numInternalNodes (2 ^ k)).log2 = k := by
  cases k with
  | zero => rfl
  | succ k =>
    have two : 2 ≤ 2 ^ (k + 1) := Nat.le_self_pow (Nat.succ_ne_zero k) 2
    rw [numInternalNodes, if_neg (Nat.not_lt_of_le two), Nat.log2_eq_iff (by omega),
      Nat.pow_succ 2 (k + 1)]
    omega

/-- A root whose height reaches 32 is taken modulo 32, where it is not refused. -/
theorem rootIdx_ok {root : Nat} (found : rootIdx overflowChecks (2 ^ k) = .ok root) :
    (overflowChecks = true → k < 32) ∧ root = nodeAt (k % 32) 0 := by
  rw [rootIdx, log2_numInternalNodes] at found
  by_cases refused : overflowChecks = true ∧ 32 ≤ k
  · rw [shiftLeft, if_pos refused] at found
    cases found
  · have fits : overflowChecks = true → k < 32 := fun checked =>
      Nat.lt_of_not_le fun large => refused ⟨checked, large⟩
    have small : 1 * 2 ^ (k % 32) < 2 ^ 32 := by
      rw [Nat.one_mul]
      exact Nat.pow_lt_pow_right (by decide) (Nat.mod_lt k (by decide))
    rw [shiftLeft_eq fits small, ok_bind, Nat.one_mul, subBits_eq (Nat.two_pow_pos _)] at found
    cases found
    exact ⟨fits, by rw [nodeAt, Nat.zero_mul, Nat.zero_add]⟩

theorem rootIdx_eq (height : k < 32) : rootIdx overflowChecks (2 ^ k) = .ok (nodeAt k 0) := by
  have small : 1 * 2 ^ (k % 32) < 2 ^ 32 := by
    rw [Nat.one_mul]
    exact Nat.pow_lt_pow_right (by decide) (Nat.mod_lt k (by decide))
  rw [rootIdx, log2_numInternalNodes, shiftLeft_eq (fun _ => height) small, ok_bind, Nat.one_mul,
    subBits_eq (Nat.two_pow_pos _), Nat.mod_eq_of_lt height, nodeAt, Nat.zero_mul, Nat.zero_add]

/-- What is found is the node at the subcircuit's place. -/
theorem subcircuitIdxToNodeIdx_ok {idx node : Nat}
    (found : subcircuitIdxToNodeIdx overflowChecks idx (2 ^ k) = .ok node) :
    (overflowChecks = true → k < 32) ∧ ∃ l upper, AtPlace (k % 32) idx l upper ∧
      (overflowChecks = true → l < 31) ∧ node = nodeAt l upper := by
  obtain ⟨root, top, found⟩ := bind_eq_ok.mp found
  obtain ⟨fits, rfl⟩ := rootIdx_ok top
  have height : k % 32 < 32 := Nat.mod_lt k (by decide)
  rw [level_nodeAt height, List.range_eq_range'] at found
  exact ⟨fits, searchLevels_ok height rfl fits (Nat.zero_add _) (Nat.zero_add _) found⟩

theorem subcircuitIdxToNodeIdx_find {idx : Nat} (height : k < 32)
    (fits : overflowChecks = true → k < 31) (inside : idx + 1 < 2 ^ (k + 1)) :
    ∃ node, subcircuitIdxToNodeIdx overflowChecks idx (2 ^ k) = .ok node := by
  rw [subcircuitIdxToNodeIdx, rootIdx_eq height, ok_bind, level_nodeAt height,
    List.range_eq_range']
  exact searchLevels_find height fits (Nat.zero_add _) (Nat.zero_add _) (Nat.zero_le idx) inside

/-- The root is only found in trees of a height below 32. -/
theorem height_of_root {node : Nat}
    (found : subcircuitIdxToNodeIdx overflowChecks (2 ^ (k + 1) - 2) (2 ^ k) = .ok node) :
    k < 32 ∧ (overflowChecks = true → k < 31) := by
  obtain ⟨_, l, upper, place, last, _⟩ := subcircuitIdxToNodeIdx_ok found
  have whole := two_pow_sub_succ place.low
  have index := place.index
  have inside := place.inside
  have positive : 2 ≤ 2 ^ (k + 1) := Nat.le_self_pow (Nat.succ_ne_zero k) 2
  have least : 2 ^ (k + 1) ≤ 2 ^ (k % 32 + 1) := by
    have single : 1 ≤ 2 ^ (k % 32 - l) := Nat.two_pow_pos _
    omega
  have same : k % 32 = k := by
    have := Nat.pow_le_pow_iff_right (by decide : 1 < 2) |>.mp least
    have := Nat.mod_le k 32
    omega
  have height : k < 32 := by omega
  refine ⟨height, fun checked => ?_⟩
  have inner := last checked
  have low := place.low
  rw [same] at index inside whole low
  have top : k - l = 0 := by
    by_contra higher
    have two : 2 ≤ 2 ^ (k - l) := Nat.le_self_pow (by omega) 2
    omega
  omega

/-- The levels of the leaves, the parents and the root, by the index. -/
theorem AtPlace.level_cases {idx l upper : Nat} (place : AtPlace k idx l upper) :
    (l = 0 ↔ idx < 2 ^ k) ∧ (l = k ↔ idx + 2 = 2 ^ (k + 1)) := by
  obtain ⟨low, inside, index⟩ := place
  have whole := two_pow_sub_succ low
  have double := two_pow_succ_eq k
  constructor
  · constructor
    · rintro rfl
      simp only [Nat.sub_zero] at inside whole index
      omega
    · intro early
      by_contra higher
      have half : 2 ^ (k + 1 - l) ≤ 2 ^ k := Nat.pow_le_pow_right (by decide) (by omega)
      omega
  · constructor
    · rintro rfl
      rw [Nat.sub_self, Nat.pow_zero] at inside whole
      omega
    · intro last
      by_contra lower
      have two : 2 ≤ 2 ^ (k - l) := Nat.le_self_pow (by omega) 2
      omega

theorem AtPlace.unique {idx l l' upper upper' : Nat} (place : AtPlace k idx l upper)
    (place' : AtPlace k idx l' upper') : l = l' ∧ upper = upper' := by
  obtain ⟨low, inside, index⟩ := place
  obtain ⟨low', inside', index'⟩ := place'
  have whole := two_pow_sub_succ low
  have whole' := two_pow_sub_succ low'
  rcases Nat.lt_trichotomy l l' with below | rfl | above
  · have half : 2 ^ (k + 1 - l') ≤ 2 ^ (k - l) := Nat.pow_le_pow_right (by decide) (by omega)
    omega
  · exact ⟨rfl, by omega⟩
  · have half : 2 ^ (k + 1 - l) ≤ 2 ^ (k - l') := Nat.pow_le_pow_right (by decide) (by omega)
    omega

theorem subcircuitIdxToNodeIdx_eq {idx l upper : Nat} (height : k < 32)
    (fits : overflowChecks = true → k < 31) (place : AtPlace k idx l upper) :
    subcircuitIdxToNodeIdx overflowChecks idx (2 ^ k) = .ok (nodeAt l upper) := by
  have inside : idx + 1 < 2 ^ (k + 1) := by
    obtain ⟨low, inside, index⟩ := place
    have whole := two_pow_sub_succ low
    have positive : 0 < 2 ^ (k - l) := Nat.two_pow_pos _
    omega
  obtain ⟨node, found⟩ := subcircuitIdxToNodeIdx_find height fits inside
  obtain ⟨_, l', upper', place', _, same⟩ := subcircuitIdxToNodeIdx_ok found
  rw [Nat.mod_eq_of_lt height] at place'
  obtain ⟨rfl, rfl⟩ := place.unique place'
  rw [found, same]

example : (List.range 7).mapM (subcircuitIdxToNodeIdx true · 4) = .ok [0, 2, 4, 6, 1, 5, 3] := by
  decide

/-- Every index has a place. -/
theorem exists_place {idx : Nat} (height : k < 32) (inside : idx + 1 < 2 ^ (k + 1)) :
    ∃ l upper, AtPlace k idx l upper := by
  have unchecked : false = true → k < 31 := nofun
  obtain ⟨node, found⟩ := subcircuitIdxToNodeIdx_find height unchecked inside
  obtain ⟨_, l, upper, place, _⟩ := subcircuitIdxToNodeIdx_ok found
  rw [Nat.mod_eq_of_lt height] at place
  exact ⟨l, upper, place⟩

/-- The children of a subcircuit's node have earlier subcircuits. -/
theorem AtPlace.children {idx l upper : Nat} (place : AtPlace k idx (l + 1) upper) {child : Nat}
    (below : child = 2 * upper ∨ child = 2 * upper + 1) :
    ∃ i, i < idx ∧ AtPlace k i l child := by
  obtain ⟨low, inside, index⟩ := place
  have whole := two_pow_sub_succ low
  have next := two_pow_sub_succ (Nat.le_of_succ_le low)
  have most : 2 ^ (k + 1 - l) ≤ 2 ^ (k + 1) := Nat.pow_le_pow_right (by decide) (by omega)
  rw [Nat.add_sub_add_right] at index whole
  refine ⟨2 ^ (k + 1) + child - 2 ^ (k + 1 - l), ?_, by omega, ?_, by omega⟩
  · omega
  · omega

/-- What a node that was found is: a leaf, the root or another parent, by its index. -/
theorem node_kind {idx node : Nat} (height : k < 32)
    (found : subcircuitIdxToNodeIdx overflowChecks idx (2 ^ k) = .ok node) :
    (level node = 0 ↔ idx < 2 ^ k) ∧ (nodeAt k 0 = node ↔ idx + 2 = 2 ^ (k + 1)) ∧
      node / 2 < 2 ^ k := by
  obtain ⟨_, l, upper, place, _, rfl⟩ := subcircuitIdxToNodeIdx_ok found
  rw [Nat.mod_eq_of_lt height] at place
  obtain ⟨leaf, root⟩ := place.level_cases
  have low := place.low
  have below := nodeAt_lt place.low place.inside
  rw [Nat.pow_succ] at below
  rw [level_nodeAt (by omega)]
  refine ⟨leaf, ⟨fun same => ?_, fun last => ?_⟩, by omega⟩
  · have levels := congrArg level same
    rw [level_nodeAt height, level_nodeAt (by omega)] at levels
    exact root.mp levels.symm
  · obtain rfl := root.mpr last
    have inside := place.inside
    rw [Nat.sub_self, Nat.pow_zero, Nat.lt_one_iff] at inside
    rw [inside]

end Numbering
end TreeIndexing
