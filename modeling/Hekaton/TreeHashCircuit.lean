import Hekaton.FieldGadgets
import Hekaton.SparseTree
import Hekaton.SubcircuitCircuit
import Hekaton.TreeIndexing

/-!
# The Merkle tree circuit

Every node of a tree has a subcircuit that hashes its leaf, or the hashes of its children as
portal wires, and sets its own hash; the root's also compares it with the root hash. One
more subcircuit pads the number to a power of two. The native trace makes the same portal
calls without the gadgets, and the root is computed level by level.
-/

namespace TreeHashCircuit

open Outcomes Wires Synthesis Contracts Transcript PortalManager PrimeFields Codecs Packing
open VkdHash SparseTree FieldGadgets HonestRuns SubcircuitCircuit TreeIndexing

abbrev TestLeaf := List.Vector UInt8 64

def emptyLeaf : TestLeaf := List.Vector.replicate 64 0

/-- SHA-256 of the hash library, on bytes and as a gadget. -/
structure Sha256 (F D : Type) where
  digest : List UInt8 → List UInt8
  gadget : List (UInt8Var F D) → Synth F D (List (UInt8Var F D))

structure MerkleTreeCircuitParams where
  numLeaves : Nat
  numShaItersPerSubcircuit : Nat
  numPortalsPerSubcircuit : Nat

/-- A tree with as many leaves as its parameters say. -/
structure MerkleTreeCircuit (params : MerkleTreeCircuitParams) where
  leaves : List.Vector TestLeaf params.numLeaves
  rootHash : InnerHash

namespace MerkleTreeCircuitParams

/-- The nodes of the tree and one subcircuit of padding. -/
def numSubcircuits (params : MerkleTreeCircuitParams) : Nat := 2 * params.numLeaves

theorem numSubcircuits_eq {params : MerkleTreeCircuitParams} {k : Nat}
    (power : params.numLeaves = 2 ^ k) : params.numSubcircuits = 2 ^ (k + 1) := by
  rw [numSubcircuits, power, Nat.pow_succ']

/-- The first leaf, the second one, the padding, the root and the parent before it. -/
def getUniqueSubcircuits (overflowChecks : Bool) (params : MerkleTreeCircuitParams) :
    Outcome (List Nat) := do
  let padding ← subBits overflowChecks 64 params.numSubcircuits 1
  let root ← subBits overflowChecks 64 params.numSubcircuits 2
  let parent ← subBits overflowChecks 64 params.numSubcircuits 3
  .ok [0, 1, padding, root, parent]

def representativeSubcircuit (overflowChecks : Bool) (params : MerkleTreeCircuitParams)
    (subcircuitIdx : Nat) : Outcome Nat :=
  let n := params.numSubcircuits
  if subcircuitIdx = 0 then .ok 0
  else if 1 ≤ subcircuitIdx ∧ subcircuitIdx < n / 2 then .ok 1
  else do
    let parent ← subBits overflowChecks 64 n 3
    if n / 2 ≤ subcircuitIdx ∧ subcircuitIdx ≤ parent then .ok parent
    else do
      let padding ← subBits overflowChecks 64 n 1
      if subcircuitIdx = padding then .ok padding
      else do
        let root ← subBits overflowChecks 64 n 2
        if subcircuitIdx = root then .ok root
        else panicWith ("subcircuit index out of range: " ++ toString subcircuitIdx)

end MerkleTreeCircuitParams

section Witnesses
variable (overflowChecks : Bool) {params : MerkleTreeCircuitParams}

def new (params : MerkleTreeCircuitParams) : Outcome (MerkleTreeCircuit params) :=
  if params.numShaItersPerSubcircuit > 0 then
    .ok ⟨List.Vector.replicate _ emptyLeaf, List.Vector.replicate _ 0⟩
  else panicWith "cannot have 0 SHA256 iterations in test circuit"

/-- An array of the first bytes, or this panic where they are too few. -/
def firstBytes (message : String) (n : Nat) (bytes : List UInt8) :
    Outcome (List.Vector UInt8 n) :=
  if size : n ≤ bytes.length then .ok ⟨bytes.take n, List.length_take_of_le size⟩
  else panicWith message

def readArray (n : Nat) (bytes : List UInt8) : Outcome (List.Vector UInt8 n) :=
  firstBytes "called `Result::unwrap()` on an `Err` value: IoError" n bytes

/-- The bytes of the node's leaf, or the root hash; a tree of one leaf keeps the leaf. -/
def getSerializedWitnesses (c : MerkleTreeCircuit params) (subcircuitIdx : Nat) :
    Outcome (List UInt8) := do
  let padding ← subBits overflowChecks 64 params.numSubcircuits 1
  if subcircuitIdx = padding then .ok []
  else do
    let nodeIdx ← subcircuitIdxToNodeIdx overflowChecks subcircuitIdx params.numLeaves
    let root ← rootIdx overflowChecks params.numLeaves
    if level nodeIdx = 0 then do
      let leaf ← expect unwrapNone c.leaves.toList[nodeIdx / 2]?
      .ok leaf.toList
    else if root = nodeIdx then .ok c.rootHash.toList
    else .ok []

def setSerializedWitnesses (c : MerkleTreeCircuit params) (subcircuitIdx : Nat)
    (bytes : List UInt8) : Outcome (MerkleTreeCircuit params) := do
  let padding ← subBits overflowChecks 64 params.numSubcircuits 1
  if subcircuitIdx = padding then .ok c
  else do
    let nodeIdx ← subcircuitIdxToNodeIdx overflowChecks subcircuitIdx params.numLeaves
    let root ← rootIdx overflowChecks params.numLeaves
    if level nodeIdx = 0 then do
      let leaf ← readArray 64 bytes
      if inside : nodeIdx / 2 < params.numLeaves then
        .ok { c with leaves := c.leaves.set ⟨nodeIdx / 2, inside⟩ leaf }
      else panicWith Coordinator.outOfBounds
    else if root = nodeIdx then do
      let rootHash ← readArray innerHashSize bytes
      .ok { c with rootHash := rootHash }
    else .ok c

end Witnesses

def nodeName (nodeIdx : Nat) : String := "node " ++ toString nodeIdx ++ " hash"

def placeholder : String := "placeholder"

section Constraints
variable {F D : Type} [Field F] [PrimeField F] (overflowChecks : Bool) (sha : Sha256 F D)
variable {params : MerkleTreeCircuitParams}

omit [Field F] [PrimeField F] in
def iterateGadget : Nat → List (UInt8Var F D) → Synth F D (List (UInt8Var F D))
  | 0, digest => pure digest
  | n + 1, digest => do
      let digest ← sha.gadget digest
      iterateGadget n digest

omit [PrimeField F] in
/-- The element of the last of so many digests. -/
def iteratedSha256Var (params : MerkleTreeCircuitParams) (input : List (UInt8Var F D)) :
    Synth F D (Wire F D .field) := do
  let digest ← iterateGadget sha params.numShaItersPerSubcircuit input
  pure (digestToFpvar digest)

def inputDigest (digest : InnerHash) : Synth F D (Wire F D .field) :=
  Synth.newWitness .field (innerHashToField digest)

omit [PrimeField F] in
def paddingConstraints (params : MerkleTreeCircuitParams) : Program F D Unit := do
  let input ← Program.lift (newWitnessVec emptyLeaf.toList)
  let _ ← Program.lift (iteratedSha256Var sha params input)
  pure ()

omit [PrimeField F] in
def leafConstraints (c : MerkleTreeCircuit params) (nodeIdx : Nat) : Program F D Unit := do
  let leaf ← Program.lift
    (Synth.lift (expect Coordinator.outOfBounds c.leaves.toList[nodeIdx / 2]?))
  let leafVar ← Program.lift (newWitnessVec leaf.toList)
  let leafHash ← Program.lift (iteratedSha256Var sha params leafVar)
  Program.portalSet (nodeName nodeIdx) leafHash

def rootConstraints (c : MerkleTreeCircuit params) (isRoot : Prop) [Decidable isRoot]
    (parentHash : Wire F D .field) : Program F D Unit :=
  if isRoot then do
    let expectedRootHash ← Program.lift (inputDigest c.rootHash)
    Program.lift (Synth.enforceEqual parentHash expectedRootHash)
  else pure ()

def parentConstraints (c : MerkleTreeCircuit params) (isRoot : Prop) [Decidable isRoot]
    (nodeIdx : Nat) : Program F D Unit := do
  let left ← Program.lift (Synth.lift (leftChild nodeIdx))
  let right ← Program.lift (Synth.lift (rightChild nodeIdx))
  let leftChildHash ← Program.portalGet (nodeName left)
  let rightChildHash ← Program.portalGet (nodeName right)
  let leftBytes ← Program.lift (fpvarToDigest leftChildHash)
  let rightBytes ← Program.lift (fpvarToDigest rightChildHash)
  let parentHash ← Program.lift (iteratedSha256Var sha params (leftBytes ++ rightBytes))
  Program.portalSet (nodeName nodeIdx) parentHash
  rootConstraints c isRoot parentHash

def nodeConstraints (c : MerkleTreeCircuit params) (subcircuitIdx : Nat) : Program F D Unit := do
  let nodeIdx ← Program.lift
    (Synth.lift (subcircuitIdxToNodeIdx overflowChecks subcircuitIdx params.numLeaves))
  let root ← Program.lift (Synth.lift (rootIdx overflowChecks params.numLeaves))
  if level nodeIdx = 0 then leafConstraints sha c nodeIdx
  else parentConstraints sha c (root = nodeIdx) nodeIdx

omit [PrimeField F] in
/-- Set the placeholder, in the first subcircuit only. -/
def setPlaceholder (subcircuitIdx : Nat) : Program F D Unit :=
  if subcircuitIdx = 0 then do
    let zero ← Program.lift (Synth.newWitness .field (0 : F))
    Program.portalSet placeholder zero
  else pure ()

omit [Field F] [PrimeField F] in
def getPlaceholders (params : MerkleTreeCircuitParams) : Program F D Unit := do
  let count ← Program.lift
    (Synth.lift (subBits overflowChecks 64 params.numPortalsPerSubcircuit 1))
  forEach (List.range count) fun _ => do
    let _ ← Program.portalGet placeholder
    pure ()

def treeConstraints (c : MerkleTreeCircuit params) (subcircuitIdx : Nat) : Program F D Unit := do
  let padding ← Program.lift (Synth.lift (subBits overflowChecks 64 params.numSubcircuits 1))
  if subcircuitIdx = padding then paddingConstraints sha params
  else nodeConstraints overflowChecks sha c subcircuitIdx

def generateConstraints (c : MerkleTreeCircuit params) (subcircuitIdx : Nat) :
    Program F D Unit := do
  treeConstraints overflowChecks sha c subcircuitIdx
  setPlaceholder subcircuitIdx
  getPlaceholders overflowChecks params

end Constraints

section Native
variable {F D : Type} [Field F] [PrimeField F] [DecidableEq F] [Inhabited D] [DecidableEq D]
variable (overflowChecks : Bool) (sha : Sha256 F D) {params : MerkleTreeCircuitParams}

omit [Field F] [PrimeField F] [DecidableEq F] [Inhabited D] [DecidableEq D] in
/-- The last of so many digests. -/
def iteratedSha256 (params : MerkleTreeCircuitParams) (input : List UInt8) : List UInt8 :=
  sha.digest^[params.numShaItersPerSubcircuit] input

omit [Field F] [PrimeField F] [DecidableEq F] [Inhabited D] [DecidableEq D] in
/-- The whole digest, copied into a buffer of 32 bytes. -/
def wholeDigest (params : MerkleTreeCircuitParams) (input : List UInt8) : Outcome (List UInt8) :=
  if (iteratedSha256 sha params input).length = 32 then .ok (iteratedSha256 sha params input)
  else panicWith "copy_from_slice: source slice length does not match destination slice length"

omit [PrimeField F] in
def doDummyOps (params : MerkleTreeCircuitParams) (pm : SetupRomPortalManager F) :
    Synth F D (SetupRomPortalManager F) := do
  let count ← Synth.lift (subBits overflowChecks 64 params.numPortalsPerSubcircuit 1)
  (List.range count).foldlM (fun pm _ => do
    let got ← Manager.get (F := F) (D := D) pm placeholder
    pure got.2) pm

omit [PrimeField F] in
/-- Witness a digest and set its element. -/
def setNode (pm : SetupRomPortalManager F) (nodeIdx : Nat) (digest : List UInt8) :
    Synth F D (SetupRomPortalManager F) := do
  let hashVar ← newWitnessVec digest
  Manager.set pm (nodeName nodeIdx) (digestToFpvar hashVar)

omit [PrimeField F] in
def nativePlaceholder (pm : SetupRomPortalManager F) (subcircuitIdx : Nat) :
    Synth F D (SetupRomPortalManager F) :=
  if subcircuitIdx = 0 then do
    let zero ← Synth.newWitness .field (0 : F)
    Manager.set pm placeholder zero
  else pure pm

variable (params) in
omit [PrimeField F] in
def nativeLeaf (pm : SetupRomPortalManager F) (subcircuitIdx : Nat) (leaf : TestLeaf) :
    Synth F D (SetupRomPortalManager F) := do
  let leafHash ← Synth.lift (wholeDigest sha params leaf.toList)
  let nodeIdx ← Synth.lift (subcircuitIdxToNodeIdx overflowChecks subcircuitIdx params.numLeaves)
  let pm ← setNode (D := D) pm.startSubtrace nodeIdx leafHash
  let pm ← nativePlaceholder (D := D) pm subcircuitIdx
  doDummyOps overflowChecks params pm

/-- The values of byte variables. -/
def readBytes (vs : List (UInt8Var F D)) : Synth F D (List UInt8) := fun vars =>
  .ok (bytesValue (assignmentOf vars) vs, .empty)

variable (params) in
def nativeParent (pm : SetupRomPortalManager F) (subcircuitIdx : Nat) :
    Synth F D (SetupRomPortalManager F) := do
  let nodeIdx ← Synth.lift (subcircuitIdxToNodeIdx overflowChecks subcircuitIdx params.numLeaves)
  let left ← Synth.lift (leftChild nodeIdx)
  let right ← Synth.lift (rightChild nodeIdx)
  let leftGot ← Manager.get (F := F) (D := D) pm.startSubtrace (nodeName left)
  let rightGot ← Manager.get (F := F) (D := D) leftGot.2 (nodeName right)
  let leftVar ← fpvarToDigest leftGot.1
  let rightVar ← fpvarToDigest rightGot.1
  let leftBytes ← readBytes leftVar
  let rightBytes ← readBytes rightVar
  let parent ← Synth.lift (wholeDigest sha params
    (leftBytes.take innerHashSize ++ rightBytes.take innerHashSize))
  let pm ← setNode (D := D) rightGot.2 nodeIdx parent
  doDummyOps overflowChecks params pm

def nativeTrace (c : MerkleTreeCircuit params) : Synth F D (SetupRomPortalManager F) := do
  let pm ← c.leaves.toList.zipIdx.foldlM
    (fun pm leaf => nativeLeaf overflowChecks sha params pm leaf.2 leaf.1)
    SetupRomPortalManager.new
  let padding ← Synth.lift (subBits overflowChecks 64 params.numSubcircuits 1)
  let pm ← (List.range' params.numLeaves (padding - params.numLeaves)).foldlM
    (nativeParent overflowChecks sha params) pm
  doDummyOps overflowChecks params pm.startSubtrace

def getPortalSubtraces (c : MerkleTreeCircuit params) :
    Outcome (List (List (TranscriptEntry F .rom))) := do
  let recorded ← nativeTrace overflowChecks sha c []
  .ok recorded.1.subtraces

/-- The tree as a partitioned circuit. -/
def circuit (c : MerkleTreeCircuit params) : CircuitWithPortals F D .rom where
  numSubcircuits := params.numSubcircuits
  generateConstraints := generateConstraints overflowChecks sha c
  getPortalSubtraces := getPortalSubtraces overflowChecks sha c
  getUniqueSubcircuits := (params.getUniqueSubcircuits overflowChecks).toOption.getD []
  representativeSubcircuit := params.representativeSubcircuit overflowChecks

end Native

section Root
variable {F D : Type} (sha : Sha256 F D)

/-- The first 27 bytes of the last digest. -/
def innerDigest (params : MerkleTreeCircuitParams) (input : List UInt8) : Outcome InnerHash :=
  firstBytes "range end index out of range for slice" innerHashSize
    (iteratedSha256 sha params input)

def parentDigest (params : MerkleTreeCircuitParams) (siblings : List InnerHash) :
    Outcome InnerHash := do
  let left ← expect Coordinator.outOfBounds siblings[0]?
  let right ← expect Coordinator.outOfBounds siblings[1]?
  innerDigest sha params (left.toList ++ right.toList)

/-- Halve the level until one hash is left; a level's length is enough of a count. -/
def reduceLevels (params : MerkleTreeCircuitParams) : Nat → List InnerHash → Outcome (List InnerHash)
  | 0, curLevel => .ok curLevel
  | n + 1, curLevel =>
      if curLevel.length > 1 then do
        let nextLevel ← (chunks 2 curLevel).mapM (parentDigest sha params)
        reduceLevels params n nextLevel
      else .ok curLevel

def calculateRoot (params : MerkleTreeCircuitParams) (leaves : List TestLeaf) :
    Outcome InnerHash := do
  let curLevel ← leaves.mapM fun leaf => innerDigest sha params leaf.toList
  let levels ← reduceLevels sha params curLevel.length curLevel
  expect Coordinator.outOfBounds levels[0]?

end Root
end TreeHashCircuit
