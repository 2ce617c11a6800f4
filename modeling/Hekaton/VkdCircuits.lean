import Hekaton.SparseTree

/-!
# Addresses and primitives of the key directory

The wires of the directory's circuit are addressed by roots, leaf hashes and index pieces. A
primitive keeps the addresses of its nodes as bytes with the type of the node, and reads them
back when it runs. A subcircuit is a list of primitives.
-/

namespace VkdCircuits

open Outcomes Codecs SparseTree

abbrev Username := List.Vector UInt8 32

abbrev Key := List.Vector UInt8 32

abbrev Counter := UInt16

abbrev Leaf := List.Vector UInt8 66

structure PathRootAddress where
  pathId : UInt64
  updateIdx : UInt64
  deriving DecidableEq

structure IntermediateRootAddress where
  indicator : UInt64
  pathId : UInt64
  updateIdx : UInt64
  deriving DecidableEq

structure LeafHashAddress where
  leaf : Leaf
  deriving DecidableEq

/-- A piece of the index of the leaf's user. -/
structure IndexAddress where
  indicator : UInt64
  leaf : Leaf
  deriving DecidableEq

inductive NodeAddress where
  | pathRoot (address : PathRootAddress)
  | leafHash (address : LeafHashAddress)
  | nullLeaf
  | finalRoot
  | initialRoot
  | intermediateRoot (address : IntermediateRootAddress)
  deriving DecidableEq

/-- `hex::encode`. -/
def bytesToString (bytes : List UInt8) : String :=
  .ofList (bytes.flatMap fun b => [Nat.digitChar (b.toNat / 16), Nat.digitChar (b.toNat % 16)])

def usizeToString (n : UInt64) : String := toString n.toNat

namespace PathRootAddress

def toName (address : PathRootAddress) : String :=
  "path root " ++ usizeToString address.pathId ++ " " ++ usizeToString address.updateIdx

end PathRootAddress

namespace IntermediateRootAddress

def toName (address : IntermediateRootAddress) : String :=
  "intermediate root " ++ usizeToString address.pathId ++ " " ++
    usizeToString address.indicator ++ " " ++ usizeToString address.updateIdx

end IntermediateRootAddress

namespace LeafHashAddress

def toName (address : LeafHashAddress) : String :=
  "leaf hash " ++ bytesToString address.leaf.toList

end LeafHashAddress

namespace IndexAddress

/-- The name holds the user's 32 bytes of the leaf only. -/
def toName (address : IndexAddress) : String :=
  "index " ++ usizeToString address.indicator ++ " " ++
    bytesToString (address.leaf.toList.take 32)

end IndexAddress

namespace NodeAddress

/-- `to_string`. -/
def toName : NodeAddress → String
  | .pathRoot address => address.toName
  | .leafHash address => address.toName
  | .nullLeaf => "null leaf"
  | .initialRoot => "initial root"
  | .finalRoot => "final root"
  | .intermediateRoot address => address.toName

end NodeAddress

structure NodeAddressBytes where
  bytes : List UInt8
  nodeType : String
  deriving DecidableEq

/-- An array of this many bytes. -/
def readBytes (n : Nat) : Reader (List.Vector UInt8 n) := do
  let bytes ← readExact n
  if size : bytes.length = n then pure ⟨bytes, size⟩ else throw .invalidData

theorem reads_bytes {n : Nat} (v : List.Vector UInt8 n) : Reads (readBytes n) v.toList v := by
  apply (reads_exact v.toList_length).bind_pure
  rw [dif_pos v.toList_length]
  rfl

namespace PathRootAddress

def serialize (address : PathRootAddress) : List UInt8 :=
  writeU64 address.pathId ++ writeU64 address.updateIdx

def deserialize : Reader PathRootAddress := do
  let pathId ← readU64
  let updateIdx ← readU64
  pure ⟨pathId, updateIdx⟩

theorem reads (address : PathRootAddress) : Reads deserialize address.serialize address :=
  (reads_u64 _).bind ((reads_u64 _).bind_pure rfl)

end PathRootAddress

namespace IntermediateRootAddress

def serialize (address : IntermediateRootAddress) : List UInt8 :=
  writeU64 address.indicator ++ (writeU64 address.pathId ++ writeU64 address.updateIdx)

def deserialize : Reader IntermediateRootAddress := do
  let indicator ← readU64
  let pathId ← readU64
  let updateIdx ← readU64
  pure ⟨indicator, pathId, updateIdx⟩

theorem reads (address : IntermediateRootAddress) :
    Reads deserialize address.serialize address :=
  (reads_u64 _).bind ((reads_u64 _).bind ((reads_u64 _).bind_pure rfl))

end IntermediateRootAddress

namespace LeafHashAddress

def serialize (address : LeafHashAddress) : List UInt8 := address.leaf.toList

def deserialize : Reader LeafHashAddress := do
  let leaf ← readBytes 66
  pure ⟨leaf⟩

theorem reads (address : LeafHashAddress) : Reads deserialize address.serialize address :=
  (reads_bytes address.leaf).bind_pure rfl

end LeafHashAddress

namespace NodeAddressBytes

def nodeAddressToBytes : NodeAddress → NodeAddressBytes
  | .pathRoot node => ⟨node.serialize, "path root"⟩
  | .leafHash node => ⟨node.serialize, "leaf hash"⟩
  | .nullLeaf => ⟨[], "null leaf"⟩
  | .finalRoot => ⟨[], "final root"⟩
  | .initialRoot => ⟨[], "initial leaf"⟩
  | .intermediateRoot node => ⟨node.serialize, "intermediate root"⟩

/-- `deserialize_uncompressed_unchecked(bytes).unwrap()`. -/
def deserializeOrPanic {α : Type} (read : Reader α) (bytes : List UInt8) : Outcome α :=
  match read.run bytes with
  | .ok (a, _) => .ok a
  | .error _ => panicWith "called `Result::unwrap()` on an `Err` value"

def bytesToNodeAddress (address : NodeAddressBytes) : Outcome NodeAddress :=
  if address.nodeType = "path root" then do
    let node ← deserializeOrPanic PathRootAddress.deserialize address.bytes
    .ok (.pathRoot node)
  else if address.nodeType = "leaf hash" then do
    let node ← deserializeOrPanic LeafHashAddress.deserialize address.bytes
    .ok (.leafHash node)
  else if address.nodeType = "null leaf" then .ok .nullLeaf
  else if address.nodeType = "final root" then .ok .finalRoot
  else if address.nodeType = "initial leaf" then .ok .initialRoot
  else if address.nodeType = "intermediate root" then do
    let node ← deserializeOrPanic IntermediateRootAddress.deserialize address.bytes
    .ok (.intermediateRoot node)
  else panicWith "wrong node address type"

theorem deserializeOrPanic_of_reads {α : Type} {read : Reader α} {bytes : List UInt8} {a : α}
    (reads : Reads read bytes a) : deserializeOrPanic read bytes = .ok a := by
  have whole := reads.run []
  rw [List.append_nil] at whole
  rw [deserializeOrPanic, whole]

/-- An address is read back from its bytes. -/
@[simp] theorem bytesToNodeAddress_nodeAddressToBytes (address : NodeAddress) :
    bytesToNodeAddress (nodeAddressToBytes address) = .ok address := by
  cases address with
  | pathRoot node =>
    simp [nodeAddressToBytes, bytesToNodeAddress, deserializeOrPanic_of_reads node.reads]
  | leafHash node =>
    simp [nodeAddressToBytes, bytesToNodeAddress, deserializeOrPanic_of_reads node.reads]
  | nullLeaf => rfl
  | finalRoot => rfl
  | initialRoot => rfl
  | intermediateRoot node =>
    simp [nodeAddressToBytes, bytesToNodeAddress, deserializeOrPanic_of_reads node.reads]

end NodeAddressBytes

structure EqualityPrimitive where
  updateIdx : UInt64
  addr1 : NodeAddressBytes
  addr2 : NodeAddressBytes
  deriving DecidableEq

structure GetIndexPrimitive where
  updateIdx : UInt64
  leaf : Leaf
  deriving DecidableEq

structure ComputePathPrimitive where
  updateIdx : UInt64
  pathId : UInt64
  indicator : UInt64
  initialValueAddr : NodeAddressBytes
  finalValueAddr : NodeAddressBytes
  indexAddr : IndexAddress
  path : MerkleTreePath
  deriving DecidableEq

structure HashLeafPrimitive where
  leaf : Leaf
  deriving DecidableEq

inductive PrimitiveSubcircuit where
  | equalityPrimitive (p : EqualityPrimitive)
  | getIndexPrimitive (p : GetIndexPrimitive)
  | computePathPrimitive (p : ComputePathPrimitive)
  | hashLeafPrimitive (p : HashLeafPrimitive)
  | paddingPrimitive
  | writePublicParameterPrimitive
  deriving DecidableEq

def PrimitiveSubcircuit.getType : PrimitiveSubcircuit → String
  | .equalityPrimitive _ => "equality"
  | .getIndexPrimitive _ => "get index"
  | .computePathPrimitive _ => "compute path"
  | .hashLeafPrimitive _ => "hash leaf"
  | .paddingPrimitive => "padding"
  | .writePublicParameterPrimitive => "write pp"

structure SubCircuit where
  compoundPrimitiveVec : List PrimitiveSubcircuit
  deriving DecidableEq

def SubCircuit.getType (c : SubCircuit) : String :=
  ", ".intercalate (c.compoundPrimitiveVec.map PrimitiveSubcircuit.getType)

end VkdCircuits
