import Hekaton.KeyDirectory
import Hekaton.VkdGadgets

/-!
# Subcircuits of the key directory

A batch of updates is cut into subcircuits: six paddings, the public parameters, eight
subcircuits for each operation and a last equality. Both paths of an operation climb in four
pieces, each from the root that the piece before it reached. An appended leaf is hashed and
its index set; an updated one is looked up under the address of its old leaf.
-/

namespace VkdSubcircuits

open Outcomes VkdHash SparseTree VkdCircuits KeyDirectory VkdGadgets

def unwrapError (error : String) : String :=
  "called `Result::unwrap()` on an `Err` value: " ++ error

/-- `MerkleTreePath::split`, unwrapped. -/
def splitPath (p : MerkleTreePath) (splitFactor : Nat) : Outcome (List MerkleTreePath) := do
  let res ← split p.path splitFactor
  let pieces ← unwrap "InvalidParameter" res
  .ok (pieces.map MerkleTreePath.mk)

/-- The four parts that a list of any length is cut into. -/
def quarters {α : Type} (v : List α) : List (List α) :=
  let half := v.length / 2
  let quarter := half / 2
  [(v.take half).take quarter, (v.take half).drop quarter,
    (v.drop half).take quarter, (v.drop half).drop quarter]

theorem split_four {α : Type} (v : List α) : split v splitFactor = .ok (.ok (quarters v)) := by
  have half : splitAt (v.length / 2) v =
      .ok (v.take (v.length / 2), v.drop (v.length / 2)) := if_pos (by omega)
  have low : splitAt (v.length / 2 / 2) (v.take (v.length / 2)) =
      .ok ((v.take (v.length / 2)).take (v.length / 2 / 2),
        (v.take (v.length / 2)).drop (v.length / 2 / 2)) := by
    apply if_pos
    rw [List.length_take]
    omega
  have high : splitAt (v.length / 2 / 2) (v.drop (v.length / 2)) =
      .ok ((v.drop (v.length / 2)).take (v.length / 2 / 2),
        (v.drop (v.length / 2)).drop (v.length / 2 / 2)) := by
    apply if_pos
    rw [List.length_drop]
    omega
  have first : splitRound (v.length / 2) [v] =
      .ok [v.take (v.length / 2), v.drop (v.length / 2)] := by
    rw [splitRound, half]
    rfl
  have second : splitRound (v.length / 2 / 2) [v.take (v.length / 2), v.drop (v.length / 2)] =
      .ok (quarters v) := by
    rw [splitRound, low, ok_bind, splitRound, high]
    rfl
  have loop : splitLoop 4 4 v.length [v] = .ok (quarters v) := by
    rw [splitLoop, if_neg (by decide), first, ok_bind, splitLoop, if_neg (by decide), second]
    rfl
  rw [split, if_pos (by decide), loop]
  rfl

/-- The pieces of a path. -/
def pathPieces (p : MerkleTreePath) : List MerkleTreePath := (quarters p.path).map .mk

@[simp] theorem splitPath_eq (p : MerkleTreePath) :
    splitPath p splitFactor = .ok (pathPieces p) := by
  rw [splitPath, split_four]
  rfl

/-- The pieces of a path of the tree's depth. -/
theorem pathPieces_eq {p : MerkleTreePath} (size : p.path.length = DEPTH) :
    pathPieces p = (List.range splitFactor).map fun i => ⟨piece p.path i⟩ := by
  have whole := (split_four p.path).symm.trans (split_pieces size)
  rw [pathPieces, Except.ok.inj (Except.ok.inj whole), List.map_map]
  rfl

def getPreviousRootFromUpdateIdx (updateIdx : Nat) (updates : List Update) :
    Outcome NodeAddress :=
  if updateIdx = 0 then .ok .initialRoot
  else do
    let u ← expect Coordinator.outOfBounds updates[updateIdx - 1]?
    match u with
    | .update _ => .ok (.pathRoot ⟨1, UInt64.ofNat (updateIdx - 1)⟩)
    | .append _ => .ok (.pathRoot ⟨1, UInt64.ofNat (updateIdx - 1)⟩)

/-- The nodes between which piece `i` of a path climbs. -/
def nodeAddressesAt (updateIdx pathId : UInt64) (initialNode : NodeAddress) (i : Nat) :
    NodeAddress × NodeAddress :=
  if i = 0 then (initialNode, .intermediateRoot ⟨UInt64.ofNat i, pathId, updateIdx⟩)
  else if i = splitFactor - 1 then
    (.intermediateRoot ⟨UInt64.ofNat (i - 1), pathId, updateIdx⟩, .pathRoot ⟨pathId, updateIdx⟩)
  else (.intermediateRoot ⟨UInt64.ofNat (i - 1), pathId, updateIdx⟩,
    .intermediateRoot ⟨UInt64.ofNat i, pathId, updateIdx⟩)

def getNodeAddresses (updateIdx pathId : UInt64) (initialNode : NodeAddress) :
    List (NodeAddress × NodeAddress) :=
  (List.range splitFactor).map (nodeAddressesAt updateIdx pathId initialNode)

/-- `Leaf::try_from(value).unwrap()`. -/
def leafOf (value : List UInt8) : Outcome Leaf :=
  if size : value.length = 66 then .ok ⟨value, size⟩ else panicWith (unwrapError "[..]")

def computePathOp (updateIdx pathId : UInt64) (initialNode : NodeAddress) (indexLeaf : Leaf)
    (path : MerkleTreePath) (i : Nat) : Outcome PrimitiveSubcircuit := do
  let node ← expect Coordinator.outOfBounds (getNodeAddresses updateIdx pathId initialNode)[i]?
  let pieces ← splitPath path splitFactor
  let piece ← expect Coordinator.outOfBounds pieces[i]?
  .ok (.computePathPrimitive {
    updateIdx := updateIdx
    pathId := pathId
    indicator := UInt64.ofNat i
    initialValueAddr := .nodeAddressToBytes node.1
    finalValueAddr := .nodeAddressToBytes node.2
    indexAddr := ⟨UInt64.ofNat i, indexLeaf⟩
    path := piece })

def equalityOp (updateIdx : UInt64) (addr1 addr2 : NodeAddress) : PrimitiveSubcircuit :=
  .equalityPrimitive ⟨updateIdx, .nodeAddressToBytes addr1, .nodeAddressToBytes addr2⟩

/-- The subcircuits of an update: four for the old path, then the new leaf's hash beside the
comparison with the previous root, and four for the new path. -/
def updateSubcircuits (overflowChecks : Bool) (updates : List Update) (idx : Nat)
    (u : VkdUpdate) : Outcome (List SubCircuit) := do
  let updateIdx := UInt64.ofNat idx
  let leaf1 ← leafOf (concat u.username u.key1 u.counter)
  let first ← (List.range splitFactor).mapM fun i => do
    let op ← computePathOp updateIdx 0 (.leafHash ⟨leaf1⟩) leaf1 u.path i
    .ok (SubCircuit.mk [op])
  let previous ← getPreviousRootFromUpdateIdx idx updates
  let equality := equalityOp updateIdx (.pathRoot ⟨0, updateIdx⟩) previous
  let counter ← nextCounter overflowChecks u.counter
  let leaf2 ← leafOf (concat u.username u.key2 counter)
  let second ← (List.range splitFactor).mapM fun i => do
    let op ← computePathOp updateIdx 1 (.leafHash ⟨leaf2⟩) leaf1 u.path i
    .ok (SubCircuit.mk (if i = 0 then [equality, .hashLeafPrimitive ⟨leaf2⟩, op] else [op]))
  .ok (first ++ second)

/-- The subcircuits of an append: the leaf's hash and index beside the first piece of the
path from the null leaf, whose root is compared with the previous one, then the new path. -/
def appendSubcircuits (updates : List Update) (idx : Nat) (u : VkdAppend) :
    Outcome (List SubCircuit) := do
  let updateIdx := UInt64.ofNat idx
  let leaf ← leafOf (concat u.username u.key 0)
  let previous ← getPreviousRootFromUpdateIdx idx updates
  let equality := equalityOp updateIdx (.pathRoot ⟨0, updateIdx⟩) previous
  let first ← (List.range splitFactor).mapM fun i => do
    let op ← computePathOp updateIdx 0 .nullLeaf leaf u.path i
    .ok (SubCircuit.mk (if i = 0 then [.hashLeafPrimitive ⟨leaf⟩,
        .getIndexPrimitive ⟨updateIdx, leaf⟩, op]
      else if i = splitFactor - 1 then [op, equality] else [op]))
  let second ← (List.range splitFactor).mapM fun i => do
    let op ← computePathOp updateIdx 1 (.leafHash ⟨leaf⟩) leaf u.path i
    .ok (SubCircuit.mk [op])
  .ok (first ++ second)

def operationSubcircuits (overflowChecks : Bool) (updates : List Update) (idx : Nat) :
    Update → Outcome (List SubCircuit)
  | .update u => updateSubcircuits overflowChecks updates idx u
  | .append u => appendSubcircuits updates idx u

/-- `updates.len() - 1`. -/
def lastUpdateIdx (overflowChecks : Bool) (updates : List Update) : Outcome UInt64 :=
  if overflowChecks && updates.isEmpty then panicWith "attempt to subtract with overflow"
  else .ok (UInt64.ofNat updates.length - 1)

def vkdUpdateToSubcircuit (overflowChecks : Bool) (updates : List Update) :
    Outcome (List SubCircuit) := do
  let paddings := List.replicate 6 (SubCircuit.mk [.paddingPrimitive])
  let operations ← updates.zipIdx.mapM fun (u, idx) =>
    operationSubcircuits overflowChecks updates idx u
  let last ← lastUpdateIdx overflowChecks updates
  let final ← getPreviousRootFromUpdateIdx updates.length updates
  .ok (paddings ++ [⟨[.writePublicParameterPrimitive]⟩] ++ operations.flatten ++
    [⟨[equalityOp last .finalRoot final]⟩])

/-- The leaf bytes as an array. -/
def leafArray (username : Username) (key : Key) (counter : Counter) : Leaf :=
  ⟨concat username key counter, concat_length username key counter⟩

@[simp] theorem leafOf_concat (username : Username) (key : Key) (counter : Counter) :
    leafOf (concat username key counter) = .ok (leafArray username key counter) :=
  dif_pos (concat_length username key counter)

/-- The previous root: the initial one, or the new root of the operation before. -/
def previousRoot (idx : Nat) : NodeAddress :=
  if idx = 0 then .initialRoot else .pathRoot ⟨1, UInt64.ofNat (idx - 1)⟩

theorem getPreviousRoot_eq {updates : List Update} {idx : Nat} (inside : idx ≤ updates.length) :
    getPreviousRootFromUpdateIdx idx updates = .ok (previousRoot idx) := by
  rw [getPreviousRootFromUpdateIdx, previousRoot]
  by_cases first : idx = 0
  · rw [if_pos first, if_pos first]
  · have bound : idx - 1 < updates.length := by omega
    rw [if_neg first, if_neg first, List.getElem?_eq_getElem bound, expect_some, ok_bind]
    cases updates[idx - 1] <;> rfl

/-- Piece `i` of a path. -/
def pieceOf (path : MerkleTreePath) (i : Nat) : MerkleTreePath :=
  (pathPieces path).getD i ⟨[]⟩

def climbOp (updateIdx pathId : UInt64) (initialNode : NodeAddress) (indexLeaf : Leaf)
    (path : MerkleTreePath) (i : Nat) : ComputePathPrimitive where
  updateIdx := updateIdx
  pathId := pathId
  indicator := UInt64.ofNat i
  initialValueAddr := .nodeAddressToBytes (nodeAddressesAt updateIdx pathId initialNode i).1
  finalValueAddr := .nodeAddressToBytes (nodeAddressesAt updateIdx pathId initialNode i).2
  indexAddr := ⟨UInt64.ofNat i, indexLeaf⟩
  path := pieceOf path i

theorem computePathOp_eq {updateIdx pathId : UInt64} {initialNode : NodeAddress} {indexLeaf : Leaf}
    {path : MerkleTreePath} {i : Nat} (inside : i < splitFactor) :
    computePathOp updateIdx pathId initialNode indexLeaf path i =
      .ok (.computePathPrimitive (climbOp updateIdx pathId initialNode indexLeaf path i)) := by
  have count : (pathPieces path).length = splitFactor := rfl
  have node : (getNodeAddresses updateIdx pathId initialNode)[i]? =
      some (nodeAddressesAt updateIdx pathId initialNode i) := by
    simp [getNodeAddresses, inside]
  have piece : (pathPieces path)[i]? = some (pieceOf path i) := by
    rw [pieceOf, List.getD_eq_getElem?_getD, List.getElem?_eq_getElem (count ▸ inside),
      Option.getD_some]
  rw [computePathOp, node, expect_some, ok_bind, splitPath_eq, ok_bind, piece, expect_some, ok_bind]
  rfl

/-- A subcircuit that climbs one piece. -/
def climbOnly (updateIdx pathId : UInt64) (initialNode : NodeAddress) (indexLeaf : Leaf)
    (path : MerkleTreePath) (i : Nat) : SubCircuit :=
  ⟨[.computePathPrimitive (climbOp updateIdx pathId initialNode indexLeaf path i)]⟩

/-- The comparison of the old root with the previous one. -/
def rootCheck (idx : Nat) : PrimitiveSubcircuit :=
  equalityOp (UInt64.ofNat idx) (.pathRoot ⟨0, UInt64.ofNat idx⟩) (previousRoot idx)

def oldLeaf (u : VkdUpdate) : Leaf := leafArray u.username u.key1 u.counter

def newLeaf (u : VkdUpdate) : Leaf := leafArray u.username u.key2 (u.counter + 1)

def appendedLeaf (u : VkdAppend) : Leaf := leafArray u.username u.key 0

/-- The eight subcircuits of an operation. -/
def operationLayout (idx : Nat) : Update → List SubCircuit
  | .update u =>
      let k := UInt64.ofNat idx
      let old := climbOnly k 0 (.leafHash ⟨oldLeaf u⟩) (oldLeaf u) u.path
      let new := climbOnly k 1 (.leafHash ⟨newLeaf u⟩) (oldLeaf u) u.path
      [old 0, old 1, old 2, old 3,
        ⟨rootCheck idx :: .hashLeafPrimitive ⟨newLeaf u⟩ :: (new 0).compoundPrimitiveVec⟩,
        new 1, new 2, new 3]
  | .append u =>
      let k := UInt64.ofNat idx
      let old := climbOnly k 0 .nullLeaf (appendedLeaf u) u.path
      let new := climbOnly k 1 (.leafHash ⟨appendedLeaf u⟩) (appendedLeaf u) u.path
      [⟨.hashLeafPrimitive ⟨appendedLeaf u⟩ :: .getIndexPrimitive ⟨k, appendedLeaf u⟩ ::
          (old 0).compoundPrimitiveVec⟩,
        old 1, old 2, ⟨(old 3).compoundPrimitiveVec ++ [rootCheck idx]⟩,
        new 0, new 1, new 2, new 3]

/-- A loop over the pieces of a path. -/
theorem mapM_computePathOp (updateIdx pathId : UInt64) (initialNode : NodeAddress)
    (indexLeaf : Leaf) (path : MerkleTreePath) (pack : Nat → PrimitiveSubcircuit → SubCircuit) :
    ((List.range splitFactor).mapM fun i => do
      let op ← computePathOp updateIdx pathId initialNode indexLeaf path i
      .ok (pack i op) : Outcome _) = .ok ((List.range splitFactor).map fun i =>
        pack i (.computePathPrimitive (climbOp updateIdx pathId initialNode indexLeaf path i))) := by
  apply mapM_eq_ok
  intro i inside
  rw [computePathOp_eq (List.mem_range.mp inside), ok_bind]

theorem updateSubcircuits_eq_ok {checks : Bool} {updates : List Update} {idx : Nat}
    {u : VkdUpdate} {subcircuits : List SubCircuit} (inside : idx ≤ updates.length) :
    updateSubcircuits checks updates idx u = .ok subcircuits ↔
      (checks = true → u.counter ≠ 65535) ∧ operationLayout idx (.update u) = subcircuits := by
  simp only [updateSubcircuits, leafOf_concat, ok_bind, mapM_computePathOp, getPreviousRoot_eq inside]
  rw [Outcomes.bind_eq_ok]
  constructor
  · rintro ⟨next, counted, run⟩
    obtain ⟨small, rfl⟩ := nextCounter_eq_ok.mp counted
    exact ⟨small, Except.ok.inj run⟩
  · rintro ⟨small, rfl⟩
    exact ⟨u.counter + 1, nextCounter_eq_ok.mpr ⟨small, rfl⟩, rfl⟩

theorem appendSubcircuits_eq {updates : List Update} {idx : Nat} {u : VkdAppend}
    (inside : idx ≤ updates.length) :
    appendSubcircuits updates idx u = .ok (operationLayout idx (.append u)) := by
  simp only [appendSubcircuits, leafOf_concat, ok_bind, mapM_computePathOp, getPreviousRoot_eq inside]
  rfl

theorem operationSubcircuits_eq_ok {checks : Bool} {updates : List Update} {idx : Nat}
    {u : Update} {subcircuits : List SubCircuit} (inside : idx ≤ updates.length) :
    operationSubcircuits checks updates idx u = .ok subcircuits ↔
      u.CounterFits checks ∧ operationLayout idx u = subcircuits := by
  cases u with
  | update u => exact updateSubcircuits_eq_ok inside
  | append u =>
    rw [operationSubcircuits, appendSubcircuits_eq inside, Except.ok.injEq]
    exact ⟨fun same => ⟨trivial, same⟩, And.right⟩

/-- The subcircuits of all operations, from the operation with this index on. -/
def operationsLayout : Nat → List Update → List SubCircuit
  | _, [] => []
  | idx, u :: us => operationLayout idx u ++ operationsLayout (idx + 1) us

/-- The comparison of the final root with the last one reached. -/
def finalCheck (updates : List Update) : PrimitiveSubcircuit :=
  equalityOp (UInt64.ofNat updates.length - 1) .finalRoot (previousRoot updates.length)

def layout (updates : List Update) : List SubCircuit :=
  List.replicate 6 ⟨[.paddingPrimitive]⟩ ++ ⟨[.writePublicParameterPrimitive]⟩ ::
    (operationsLayout 0 updates ++ [⟨[finalCheck updates]⟩])

theorem mapM_operations_eq_ok {checks : Bool} {all us : List Update} {idx : Nat}
    {subcircuits : List SubCircuit} (inside : idx + us.length ≤ all.length) :
    (∃ operations,
      ((us.zipIdx idx).mapM fun (u, idx) => operationSubcircuits checks all idx u) =
        .ok operations ∧ operations.flatten = subcircuits) ↔
      (∀ u ∈ us, u.CounterFits checks) ∧ operationsLayout idx us = subcircuits := by
  induction us generalizing idx subcircuits with
  | nil =>
    constructor
    · rintro ⟨operations, run, rfl⟩
      cases run
      exact ⟨fun u member => absurd member List.not_mem_nil, rfl⟩
    · rintro ⟨_, rfl⟩
      exact ⟨[], rfl, rfl⟩
  | cons u us ih =>
    rw [List.length_cons] at inside
    have bound : idx ≤ all.length := by omega
    constructor
    · rintro ⟨operations, run, rfl⟩
      rw [List.zipIdx_cons, List.mapM_cons, Outcomes.bind_eq_ok] at run
      obtain ⟨first, here, rest⟩ := run
      obtain ⟨later, ran, same⟩ := Outcomes.bind_eq_ok.mp rest
      cases same
      obtain ⟨fits, rfl⟩ := (operationSubcircuits_eq_ok bound).mp here
      obtain ⟨others, laid⟩ := (ih (by omega)).mp ⟨later, ran, rfl⟩
      refine ⟨List.forall_mem_cons.mpr ⟨fits, others⟩, ?_⟩
      rw [operationsLayout, laid]
      rfl
    · rintro ⟨fits, rfl⟩
      obtain ⟨here, others⟩ := List.forall_mem_cons.mp fits
      have inside' : idx + 1 + us.length ≤ all.length := by omega
      obtain ⟨later, ran, laid⟩ := (ih inside').mpr ⟨others, rfl⟩
      have first := (operationSubcircuits_eq_ok bound).mpr ⟨here, rfl⟩
      refine ⟨operationLayout idx u :: later, ?_, ?_⟩
      · rw [List.zipIdx_cons, List.mapM_cons]
        exact Outcomes.bind_eq_ok.mpr ⟨_, first, Outcomes.bind_eq_ok.mpr ⟨later, ran, rfl⟩⟩
      · rw [List.flatten_cons, laid, operationsLayout]

/-- The list of subcircuits, where no counter runs over and something is updated. -/
theorem vkdUpdateToSubcircuit_eq_ok {checks : Bool} {updates : List Update}
    {subcircuits : List SubCircuit} : vkdUpdateToSubcircuit checks updates = .ok subcircuits ↔
      (∀ u ∈ updates, u.CounterFits checks) ∧ (checks = true → updates ≠ []) ∧
        layout updates = subcircuits := by
  have inside : 0 + updates.length ≤ updates.length := by omega
  have last : ∀ idx, lastUpdateIdx checks updates = .ok idx ↔
      (checks = true → updates ≠ []) ∧ UInt64.ofNat updates.length - 1 = idx := by
    intro idx
    rw [lastUpdateIdx]
    by_cases empty : (checks && updates.isEmpty) = true
    · rw [if_pos empty]
      rw [Bool.and_eq_true, List.isEmpty_iff] at empty
      constructor
      · exact fun run => nomatch run
      · exact fun ⟨nonempty, _⟩ => absurd empty.2 (nonempty empty.1)
    · rw [if_neg empty, Except.ok.injEq]
      rw [Bool.and_eq_true, List.isEmpty_iff, not_and] at empty
      exact ⟨fun same => ⟨empty, same⟩, And.right⟩
  constructor
  · intro run
    rw [vkdUpdateToSubcircuit, Outcomes.bind_eq_ok] at run
    obtain ⟨operations, ran, run⟩ := run
    obtain ⟨idx, counted, run⟩ := Outcomes.bind_eq_ok.mp run
    rw [getPreviousRoot_eq le_rfl, ok_bind] at run
    obtain ⟨fits, laid⟩ := (mapM_operations_eq_ok inside).mp ⟨operations, ran, rfl⟩
    obtain ⟨nonempty, rfl⟩ := (last idx).mp counted
    cases run
    refine ⟨fits, nonempty, ?_⟩
    rw [layout, laid, finalCheck, List.append_assoc, List.append_assoc]
    rfl
  · rintro ⟨fits, nonempty, rfl⟩
    obtain ⟨operations, ran, laid⟩ := (mapM_operations_eq_ok inside).mpr ⟨fits, rfl⟩
    have counted := (last _).mpr ⟨nonempty, rfl⟩
    rw [vkdUpdateToSubcircuit, ran, ok_bind, counted, ok_bind, getPreviousRoot_eq le_rfl, ok_bind,
      layout, ← laid, finalCheck, List.append_assoc, List.append_assoc]
    rfl

end VkdSubcircuits
