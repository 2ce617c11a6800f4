import Hekaton.MirroredRuns
import Hekaton.VkdSubcircuits

/-!
# Traces of the key directory

The constraints of a subcircuit run its primitives through portal wires; the native trace
runs them on bytes and vectors of bits with memories of its own. Both read and set the same
wires with the same values: native bits are `true` for an even index where the wires are
`true` for an odd one, and a digest is the element of its bytes.
-/

namespace VkdTraces

open Outcomes Wires Synthesis Contracts Transcript PortalManager Uint32 PrimeFields Codecs ByteBits
open VkdHash SparseTree VkdCircuits KeyDirectory FieldGadgets VkdGadgets VkdSubcircuits HonestRuns
open MirroredRuns MerkleTrees Packing Function

section Constraints
variable {F D : Type} [Field F] [PrimeField F] (p : Poseidon F)
variable (inner : Wire F D .field → Wire F D .field → Synth F D (Wire F D .field))

/-- A call that touches no wire. -/
def call {α : Type} (o : Outcome α) : Program F D α := Program.lift (Synth.lift o)

/-- Witness a digest's bytes and set their element. -/
def setRoot (name : String) (digest : InnerHash) : Program F D Unit := do
  let rootVar ← Program.lift (newWitnessVec digest.toList)
  Program.portalSet name (digestToFpvar rootVar)

def equalityConstraints (eq : EqualityPrimitive) : Program F D Unit := do
  let addr1 ← call (NodeAddressBytes.bytesToNodeAddress eq.addr1)
  let addr2 ← call (NodeAddressBytes.bytesToNodeAddress eq.addr2)
  let value1 ← Program.portalGet addr1.toName
  let value2 ← Program.portalGet addr2.toName
  Program.lift (Synth.enforceEqual value1 value2)

def getIndexConstraints (ind : GetIndexPrimitive) : Program F D Unit := do
  let leafVar ← Program.lift (newWitnessVec (ind.leaf.toList.take 32))
  let hash ← Program.lift (hashVar p leafVar)
  let parts ← call (split ((toBits hash).take DEPTH) splitFactor)
  let boolVec ← call (unwrap "InvalidParameter" parts)
  forEach (List.range splitFactor) fun i => do
    let bits ← call (expect Coordinator.outOfBounds boolVec[i]?)
    Program.portalSet (IndexAddress.toName ⟨UInt64.ofNat i, ind.leaf⟩) (leBitsToFpVar 1 bits)

def computePathConstraints (path : ComputePathPrimitive) : Program F D Unit := do
  let initialValueAddr ← call (NodeAddressBytes.bytesToNodeAddress path.initialValueAddr)
  let initialNode ← Program.portalGet initialValueAddr.toName
  let indexFpvar ← Program.portalGet path.indexAddr.toName
  let index ← Program.lift (fpvarToBooleanIndex indexFpvar)
  let pathVar ← Program.lift (MerkleTreePathVar.newVariable .witness path.path)
  let root ← Program.lift (pathVar.computeRootVarFromInternalNode inner initialNode index)
  let finalValueAddr ← call (NodeAddressBytes.bytesToNodeAddress path.finalValueAddr)
  Program.portalSet finalValueAddr.toName root

def hashLeafConstraints (h : HashLeafPrimitive) : Program F D Unit := do
  let leafVar ← Program.lift (newWitnessVec h.leaf.toList)
  let hash ← Program.lift (hashLeafVar p leafVar)
  Program.portalSet (LeafHashAddress.toName ⟨h.leaf⟩) hash

def writePublicParameterConstraints (c : VerifiableKeyDirectoryCircuit) : Program F D Unit := do
  setRoot NodeAddress.initialRoot.toName c.initialRoot
  setRoot NodeAddress.finalRoot.toName c.finalRoot
  setRoot NodeAddress.nullLeaf.toName c.params.nullLeaf

/-- The constraints of a primitive, over the gadget for an inner node. -/
def primitiveConstraints (c : VerifiableKeyDirectoryCircuit) : PrimitiveSubcircuit →
    Program F D Unit
  | .equalityPrimitive eq => equalityConstraints eq
  | .getIndexPrimitive ind => getIndexConstraints p ind
  | .computePathPrimitive path => computePathConstraints inner path
  | .hashLeafPrimitive h => hashLeafConstraints p h
  | .writePublicParameterPrimitive => writePublicParameterConstraints c
  | .paddingPrimitive => pure ()

def subcircuitConstraints (c : VerifiableKeyDirectoryCircuit) (subcircuit : SubCircuit) :
    Program F D Unit :=
  forEach subcircuit.compoundPrimitiveVec (primitiveConstraints p inner c)

def generateConstraintsWith (c : VerifiableKeyDirectoryCircuit) (subcircuitIdx : Nat) :
    Program F D Unit := do
  let subcircuit ← call (expect Coordinator.outOfBounds c.subcircuits[subcircuitIdx]?)
  subcircuitConstraints p inner c subcircuit

variable [DecidableEq F] [Inhabited D] [DecidableEq D]

def generateConstraints (c : VerifiableKeyDirectoryCircuit) (subcircuitIdx : Nat) :
    Program F D Unit := generateConstraintsWith p (hashInnerNodeVar p) c subcircuitIdx

/-- What the setup manager records for all subcircuits in order. -/
def constraintSubtraces (D : Type) [Inhabited D] [DecidableEq D]
    (c : VerifiableKeyDirectoryCircuit) : Outcome (List (List (TranscriptEntry F .rom))) := do
  let recorded ← recordBodies (D := D)
    ((List.range c.subcircuits.length).map (generateConstraints p c))
    (SetupRomPortalManager.new : SetupRomPortalManager F) []
  .ok recorded.1.subtraces

end Constraints

section Native
variable {F D : Type} [Field F] [PrimeField F] [DecidableEq F] [Inhabited D] [DecidableEq D]
variable (p : Poseidon F)

/-- The memories of the native trace and its portal manager. -/
structure NativeState (F : Type) where
  indexMemory : String → Option (List Bool)
  innerNodeMemory : String → Option InnerHash
  pm : SetupRomPortalManager F

def NativeState.new : NativeState F := ⟨fun _ => none, fun _ => none, .new⟩

/-- `inner_node_memory.insert` and the set of the digest's element. -/
def insertNode (state : NativeState F) (name : String) (digest : InnerHash) :
    Synth F D (NativeState F) := do
  let rootVar ← newWitnessVec digest.toList
  let pm ← Manager.set state.pm name (digestToFpvar rootVar)
  pure { state with
    innerNodeMemory := update state.innerNodeMemory name (some digest)
    pm := pm }

omit [DecidableEq F] [Inhabited D] [DecidableEq D] in
/-- The pieces of the index, as variables and as bits. -/
def hashLeafToSplitIndex (leafHash : List UInt8) (splitFactor : Nat) :
    Synth F D (List (Wire F D .field) × List (List Bool)) := do
  let found ← Synth.lift (SparseMerkleTree.getIndex leafHash DEPTH)
  let index ← Synth.lift (unwrap "InvalidHashSize" found)
  let parts ← Synth.lift (split index.toBitVector splitFactor)
  let splitIndex ← Synth.lift (unwrap "InvalidParameter" parts)
  let byteParts ← Synth.lift (split (leafHash.take (DEPTH / 8)) splitFactor)
  let splitLeafHash ← Synth.lift (unwrap "InvalidParameter" byteParts)
  let vars ← (List.range splitFactor).mapM fun i => do
    let part ← Synth.lift (expect Coordinator.outOfBounds splitLeafHash[i]?)
    Synth.newWitness .field (fromLeBytesModOrder (part.take (pathLength / 8)))
  pure (vars, splitIndex)

/-- `index_memory.insert` of a piece and its set. -/
def insertIndex (leaf : Leaf) (pieces : List (Wire F D .field) × List (List Bool))
    (state : NativeState F) (i : Nat) : Synth F D (NativeState F) := do
  let name := IndexAddress.toName ⟨UInt64.ofNat i, leaf⟩
  let bits ← Synth.lift (expect Coordinator.outOfBounds pieces.2[i]?)
  let value ← Synth.lift (expect Coordinator.outOfBounds pieces.1[i]?)
  let pm ← Manager.set state.pm name value
  pure { state with indexMemory := update state.indexMemory name (some bits), pm := pm }

def nativeGetIndex (state : NativeState F) (ind : GetIndexPrimitive) : Synth F D (NativeState F) := do
  let leafH := VkdHash.hash p (ind.leaf.toList.take 32)
  let pieces ← hashLeafToSplitIndex leafH splitFactor
  (List.range splitFactor).foldlM (insertIndex ind.leaf pieces) state

def nativeComputePath (state : NativeState F) (path : ComputePathPrimitive) :
    Synth F D (NativeState F) := do
  let initialValueAddr ← Synth.lift (NodeAddressBytes.bytesToNodeAddress path.initialValueAddr)
  let index ← Synth.lift (expect unwrapNone (state.indexMemory path.indexAddr.toName))
  let initialValue ← Synth.lift
    (expect unwrapNone (state.innerNodeMemory initialValueAddr.toName))
  let got ← Manager.get (F := F) (D := D) state.pm initialValueAddr.toName
  let got' ← Manager.get (F := F) (D := D) got.2 path.indexAddr.toName
  let root ← Synth.lift
    (path.path.computeRoot (hashing p) initialValue.toList index .internalNode)
  let finalValueAddr ← Synth.lift (NodeAddressBytes.bytesToNodeAddress path.finalValueAddr)
  insertNode { state with pm := got'.2 } finalValueAddr.toName root

omit [PrimeField F] in
def nativeEquality (state : NativeState F) (eq : EqualityPrimitive) :
    Synth F D (NativeState F) := do
  let addr1 ← Synth.lift (NodeAddressBytes.bytesToNodeAddress eq.addr1)
  let addr2 ← Synth.lift (NodeAddressBytes.bytesToNodeAddress eq.addr2)
  let got ← Manager.get (F := F) (D := D) state.pm addr1.toName
  let got' ← Manager.get (F := F) (D := D) got.2 addr2.toName
  pure { state with pm := got'.2 }

def nativeWritePublicParameter (c : VerifiableKeyDirectoryCircuit) (state : NativeState F) :
    Synth F D (NativeState F) := do
  let state ← insertNode state NodeAddress.initialRoot.toName c.initialRoot
  let state ← insertNode state NodeAddress.finalRoot.toName c.finalRoot
  insertNode state NodeAddress.nullLeaf.toName c.params.nullLeaf

def nativePrimitive (c : VerifiableKeyDirectoryCircuit) (state : NativeState F) :
    PrimitiveSubcircuit → Synth F D (NativeState F)
  | .writePublicParameterPrimitive => nativeWritePublicParameter c state
  | .equalityPrimitive eq => nativeEquality state eq
  | .getIndexPrimitive ind => nativeGetIndex p state ind
  | .computePathPrimitive path => nativeComputePath p state path
  | .hashLeafPrimitive h =>
      insertNode state (LeafHashAddress.toName ⟨h.leaf⟩) (hashLeaf p h.leaf.toList)
  | .paddingPrimitive => pure state

def nativeSubcircuit (c : VerifiableKeyDirectoryCircuit) (state : NativeState F)
    (subcircuit : SubCircuit) : Synth F D (NativeState F) :=
  subcircuit.compoundPrimitiveVec.foldlM (nativePrimitive p c)
    { state with pm := state.pm.startSubtrace }

def getPortalSubtraces (overflowChecks : Bool) (D : Type) [Inhabited D] [DecidableEq D]
    (c : VerifiableKeyDirectoryCircuit) : Outcome (List (List (TranscriptEntry F .rom))) := do
  let subcircuits ← vkdUpdateToSubcircuit overflowChecks c.update
  let recorded ← (subcircuits.foldlM (nativeSubcircuit (D := D) p c) .new : Synth F D _) []
  .ok recorded.1.pm.subtraces

end Native

section Effects
variable {F D : Type} [Field F] [PrimeField F] [DecidableEq F] [Inhabited D] [DecidableEq D]
variable (p : Poseidon F)

omit [DecidableEq F] in
def nodeEffect (state : NativeState F) (name : String) (digest : InnerHash) :
    Outcome (NativeState F) := do
  let pm ← SetupManager.setValue state.pm name (innerHashToField (F := F) digest)
  .ok { state with
    innerNodeMemory := update state.innerNodeMemory name (some digest)
    pm := pm }

/-- The bits of a number as the native index has them. -/
def evenBits (n m : Nat) : List Bool := (bitsOf n m).map (! ·)

/-- The number of a piece of the index that a user hashes to. -/
def indexPiece (leaf : Leaf) (i : Nat) : Nat :=
  fromLittleEndian ((VkdHash.hash p (leaf.toList.take 32)).take 16) / 2 ^ (32 * i) % 2 ^ 32

omit [DecidableEq F] in
def indexEffect (leaf : Leaf) (state : NativeState F) (i : Nat) : Outcome (NativeState F) := do
  let name := IndexAddress.toName ⟨UInt64.ofNat i, leaf⟩
  let pm ← SetupManager.setValue state.pm name (indexPiece p leaf i : F)
  .ok { state with
    indexMemory := update state.indexMemory name (some (evenBits 32 (indexPiece p leaf i)))
    pm := pm }

omit [DecidableEq F] in
def pathEffect (state : NativeState F) (path : ComputePathPrimitive) :
    Outcome (NativeState F) := do
  let initialValueAddr ← NodeAddressBytes.bytesToNodeAddress path.initialValueAddr
  let index ← expect unwrapNone (state.indexMemory path.indexAddr.toName)
  let initialValue ← expect unwrapNone (state.innerNodeMemory initialValueAddr.toName)
  let got ← SetupManager.getValue (F := F) state.pm initialValueAddr.toName
  let got' ← SetupManager.getValue (F := F) got.2 path.indexAddr.toName
  let root ← path.path.computeRoot (hashing p) initialValue.toList index .internalNode
  let finalValueAddr ← NodeAddressBytes.bytesToNodeAddress path.finalValueAddr
  nodeEffect { state with pm := got'.2 } finalValueAddr.toName root

omit [PrimeField F] [DecidableEq F] in
def equalityEffect (state : NativeState F) (eq : EqualityPrimitive) : Outcome (NativeState F) := do
  let addr1 ← NodeAddressBytes.bytesToNodeAddress eq.addr1
  let addr2 ← NodeAddressBytes.bytesToNodeAddress eq.addr2
  let got ← SetupManager.getValue (F := F) state.pm addr1.toName
  let got' ← SetupManager.getValue (F := F) got.2 addr2.toName
  .ok { state with pm := got'.2 }

omit [DecidableEq F] in
def primitiveEffect (c : VerifiableKeyDirectoryCircuit) (state : NativeState F) :
    PrimitiveSubcircuit → Outcome (NativeState F)
  | .writePublicParameterPrimitive => do
      let state ← nodeEffect state NodeAddress.initialRoot.toName c.initialRoot
      let state ← nodeEffect state NodeAddress.finalRoot.toName c.finalRoot
      nodeEffect state NodeAddress.nullLeaf.toName c.params.nullLeaf
  | .equalityPrimitive eq => equalityEffect state eq
  | .getIndexPrimitive ind => (List.range splitFactor).foldlM (indexEffect p ind.leaf) state
  | .computePathPrimitive path => pathEffect p state path
  | .hashLeafPrimitive h =>
      nodeEffect state (LeafHashAddress.toName ⟨h.leaf⟩) (hashLeaf p h.leaf.toList)
  | .paddingPrimitive => .ok state

omit [DecidableEq F] in
def subcircuitEffect (c : VerifiableKeyDirectoryCircuit) (state : NativeState F)
    (subcircuit : SubCircuit) : Outcome (NativeState F) :=
  subcircuit.compoundPrimitiveVec.foldlM (primitiveEffect p c)
    { state with pm := state.pm.startSubtrace }

end Effects

theorem bitsOf_piece {i : Nat} (inside : i < splitFactor) (n : Nat) :
    piece (bitsOf 128 n) i = bitsOf 32 (n / 2 ^ (32 * i) % 2 ^ 32) := by
  have low : i < 4 := inside
  have width : 128 = 32 * i + (128 - 32 * i) := by omega
  rw [piece, bitsOf_mod le_rfl, width, bitsOf_drop, bitsOf_take (by change 32 ≤ 128 - 32 * i; omega)]

theorem toBitVector_eq (index depth : Nat) :
    MerkleIndex.toBitVector ⟨index, depth⟩ = evenBits depth index := by
  rw [MerkleIndex.toBitVector, evenBits, bitsOf, List.map_map]
  apply List.map_congr_left
  intro d _
  rw [Function.comp_apply, Nat.testBit_eq_decide_div_mod_eq]
  rcases Nat.mod_two_eq_zero_or_one (index / 2 ^ d) with even | odd
  · simp [even]
  · simp [odd]

theorem evenBits_piece {i : Nat} (inside : i < splitFactor) (n : Nat) :
    piece (evenBits 128 n) i = evenBits 32 (n / 2 ^ (32 * i) % 2 ^ 32) := by
  rw [evenBits, piece, ← List.map_drop, ← List.map_take]
  exact congrArg _ (bitsOf_piece inside n)

/-- Four bytes of sixteen are the 32 bits at the same place. -/
theorem bytes_piece {bytes : List UInt8} (size : bytes.length = 16) {i : Nat}
    (inside : i < splitFactor) : fromLittleEndian ((bytes.drop (4 * i)).take 4) =
      fromLittleEndian bytes / 2 ^ (32 * i) % 2 ^ 32 := by
  have bits : bytesBits ((bytes.drop (4 * i)).take 4) = piece (bytesBits bytes) i := by
    rw [bytesBits_take, bytesBits_drop, piece, ← Nat.mul_assoc]
  have whole : bytesBits bytes = bitsOf 128 (fromLittleEndian bytes) := by
    rw [bytesBits_eq, size]
  rw [← toNat_bytesBits, bits, whole, bitsOf_piece inside, toNat_bitsOf, Nat.mod_mod]

section Mirrored
variable {F D : Type} [Field F] [PrimeField F] [DecidableEq F] [Inhabited D] [DecidableEq D]
variable {p : Poseidon F} {vars : List (Variable F D)}

omit [PrimeField F] in
/-- The element of a witnessed digest. -/
theorem digestToFpvar_valued {vs : List (UInt8Var F D)} {digest : InnerHash}
    (bytes : BytesValued vars vs digest.toList) :
    Valued vars (digestToFpvar vs) (innerHashToField digest) := by
  intro more
  rw [digestToFpvar_eval, bytes more, List.take_of_length_le (le_of_eq digest.toList_length)]
  rfl

omit [PrimeField F] in
theorem insertNode_mirrors (state : NativeState F) (name : String) (digest : InnerHash) :
    Mirrors vars (insertNode (D := D) state name digest) (nodeEffect state name digest)
      fun _ a b => a = b := by
  apply Mirrors.decides_bind (newWitnessVec_decides digest.toList)
  intro more vs bytes
  apply (romSet_mirrors (digestToFpvar_valued bytes)).bind
  rintro more' pm _ rfl
  exact .pure rfl

/-- What the pieces of the index are. -/
structure PiecesOf (p : Poseidon F) (leaf : Leaf) (now : List (Variable F D))
    (pieces : List (Wire F D .field) × List (List Bool)) : Prop where
  values : ∀ i < splitFactor, ∃ w, pieces.1[i]? = some w ∧ Valued now w (indexPiece p leaf i : F)
  bits : ∀ i < splitFactor, pieces.2[i]? = some (evenBits 32 (indexPiece p leaf i))

theorem hashLeafToSplitIndex_decides (leaf : Leaf) : Decides vars
    (hashLeafToSplitIndex (D := D) (VkdHash.hash p (leaf.toList.take 32)) splitFactor) True
    (PiecesOf p leaf) := by
  obtain ⟨bytes, same⟩ : ∃ bytes, bytes = VkdHash.hash p (leaf.toList.take 32) := ⟨_, rfl⟩
  have size : bytes.length = 32 := by rw [same, hash_length]
  have low : (bytes.take (DEPTH / 8)).length = 2 ^ 2 * 4 := by
    rw [List.length_take, size]
    rfl
  have index : SparseMerkleTree.getIndex bytes DEPTH =
      .ok (.ok ⟨fromLittleEndian (bytes.take 16), DEPTH⟩) := by
    rw [SparseMerkleTree.getIndex, if_neg (not_not.mpr size), if_neg (by rw [size]; decide)]
    rfl
  have vector : (evenBits 128 (fromLittleEndian (bytes.take 16))).length = 128 := by
    rw [evenBits, List.length_map, bitsOf_length]
  have parts := split_pieces vector
  have byteParts := split_chunks (j := 2) (by simp) (by decide) low
  rw [chunks_of_length (n := 4) (k := 4) (by decide) low] at byteParts
  rw [← same, hashLeafToSplitIndex]
  apply Decides.lift_bind index
  apply Decides.lift_bind rfl
  rw [toBitVector_eq]
  apply Decides.lift_bind parts
  apply Decides.lift_bind rfl
  apply Decides.lift_bind byteParts
  apply Decides.lift_bind rfl
  have each : Decides vars _ True _ := Decides.mapM (l := List.range splitFactor)
    (g := fun i => Synth.lift (expect Coordinator.outOfBounds
      ((List.range 4).map fun i => ((bytes.take (DEPTH / 8)).drop (4 * i)).take 4)[i]?) >>= fun part =>
        Synth.newWitness .field (fromLeBytesModOrder (part.take (pathLength / 8)) : F))
    (S := fun i now w => Valued now w (indexPiece p leaf i : F))
    (fun i now more w hw => hw.mono more) (by
      intro i inside more
      have below : i < 4 := List.mem_range.mp inside
      have found : ((List.range 4).map fun i =>
          ((bytes.take (DEPTH / 8)).drop (4 * i)).take 4)[i]? =
          some (((bytes.take (DEPTH / 8)).drop (4 * i)).take 4) := by
        simp [below]
      apply Decides.lift_bind (show expect Coordinator.outOfBounds _ = .ok _ by
        rw [found, expect_some])
      have value : fromLeBytesModOrder
          ((((bytes.take (DEPTH / 8)).drop (4 * i)).take 4).take (pathLength / 8)) =
            ((indexPiece p leaf i : Nat) : F) := by
        have cut : (((bytes.take (DEPTH / 8)).drop (4 * i)).take 4).take (pathLength / 8) =
            ((bytes.take 16).drop (4 * i)).take 4 := List.take_take
        rw [cut, fromLeBytesModOrder, indexPiece, ← same]
        exact congrArg Nat.cast (bytes_piece low below)
      rw [value]
      exact Decides.newVariable _ _ _)
  apply each.bind_true
  intro more ws all
  apply Decides.pure
  have count := all.length_eq
  constructor
  · intro i inside
    have bound : i < (List.range splitFactor).length := by rwa [List.length_range]
    refine ⟨ws[i], List.getElem?_eq_getElem (count ▸ bound), ?_⟩
    have here := all.get bound (count ▸ bound)
    simpa using here
  · intro i inside
    rw [List.getElem?_map, List.getElem?_range inside, Option.map_some, evenBits_piece inside,
      indexPiece, ← same]

theorem nativeGetIndex_mirrors (state : NativeState F) (ind : GetIndexPrimitive) :
    Mirrors vars (nativeGetIndex (D := D) p state ind)
      ((List.range splitFactor).foldlM (indexEffect p ind.leaf) state) fun _ a b => a = b := by
  apply Mirrors.decides_bind (hashLeafToSplitIndex_decides ind.leaf)
  intro more pieces known
  apply Mirrors.foldlM _ rfl
  rintro i inside more' state _ rfl
  have below : i < splitFactor := List.mem_range.mp inside
  obtain ⟨w, found, value⟩ := known.values i below
  have bits : expect Coordinator.outOfBounds pieces.2[i]? =
      .ok (evenBits 32 (indexPiece p ind.leaf i)) := by rw [known.bits i below, expect_some]
  have wire : expect Coordinator.outOfBounds pieces.1[i]? = .ok w := by rw [found, expect_some]
  rw [insertIndex, bits, wire]
  apply Mirrors.decides_bind (Decides.lift rfl (Q := fun _ b => b = _) rfl)
  rintro more₁ _ rfl
  apply Mirrors.decides_bind (Decides.lift rfl (Q := fun _ b => b = _) rfl)
  rintro more₂ _ rfl
  apply (romSet_mirrors (((value.mono more').mono more₁).mono more₂)).bind
  rintro more₃ pm _ rfl
  exact .pure rfl

theorem nativeComputePath_mirrors (state : NativeState F) (path : ComputePathPrimitive) :
    Mirrors vars (nativeComputePath (D := D) p state path) (pathEffect p state path)
      fun _ a b => a = b := by
  apply Mirrors.lift_bind
  intro more₁ addr
  apply Mirrors.lift_bind
  intro more₂ index
  apply Mirrors.lift_bind
  intro more₃ initialValue
  apply romGet_mirrors.bind
  rintro more₄ ⟨w, pm⟩ ⟨v, _⟩ ⟨_, rfl⟩
  apply romGet_mirrors.bind
  rintro more₅ ⟨w', pm'⟩ ⟨v', _⟩ ⟨_, rfl⟩
  apply Mirrors.lift_bind
  intro more₆ root
  apply Mirrors.lift_bind
  intro more₇ final
  exact insertNode_mirrors _ _ _

omit [PrimeField F] in
theorem nativeEquality_mirrors (state : NativeState F) (eq : EqualityPrimitive) :
    Mirrors vars (nativeEquality (D := D) state eq) (equalityEffect state eq)
      fun _ a b => a = b := by
  apply Mirrors.lift_bind
  intro more₁ addr1
  apply Mirrors.lift_bind
  intro more₂ addr2
  apply romGet_mirrors.bind
  rintro more₃ ⟨w, pm⟩ ⟨v, _⟩ ⟨_, rfl⟩
  apply romGet_mirrors.bind
  rintro more₄ ⟨w', pm'⟩ ⟨v', _⟩ ⟨_, rfl⟩
  exact .pure rfl

theorem nativePrimitive_mirrors (c : VerifiableKeyDirectoryCircuit) (state : NativeState F)
    (primitive : PrimitiveSubcircuit) : Mirrors vars (nativePrimitive (D := D) p c state primitive)
      (primitiveEffect p c state primitive) fun _ a b => a = b := by
  cases primitive with
  | equalityPrimitive eq => exact nativeEquality_mirrors state eq
  | getIndexPrimitive ind => exact nativeGetIndex_mirrors state ind
  | computePathPrimitive path => exact nativeComputePath_mirrors state path
  | hashLeafPrimitive h => exact insertNode_mirrors state _ _
  | paddingPrimitive => exact .pure rfl
  | writePublicParameterPrimitive =>
    apply (insertNode_mirrors state _ _).bind
    rintro more state _ rfl
    apply (insertNode_mirrors state _ _).bind
    rintro more' state _ rfl
    exact insertNode_mirrors state _ _

/-- The native trace is recorded exactly where its effects go through. -/
theorem native_mirrors (c : VerifiableKeyDirectoryCircuit) (subcircuits : List SubCircuit)
    (state : NativeState F) :
    Mirrors vars (subcircuits.foldlM (nativeSubcircuit (D := D) p c) state)
      (subcircuits.foldlM (subcircuitEffect p c) state) fun _ a b => a = b := by
  apply Mirrors.foldlM _ rfl
  rintro subcircuit _ more state _ rfl
  apply Mirrors.foldlM _ rfl
  rintro primitive _ more' state' _ rfl
  exact nativePrimitive_mirrors c state' primitive

end Mirrored

end VkdTraces
