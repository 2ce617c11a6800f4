import Hekaton.VkdSubcircuits

/-!
# Witnesses of the key directory as bytes

A subcircuit is serialized as the list of its primitives, each as its bytes with the name of
its kind. Whatever fits in a vector of bytes is read back, so a worker that is sent a
subcircuit has the primitives of the coordinator's.
-/

namespace VkdCodecs

open Outcomes Codecs VkdHash SparseTree VkdCircuits VkdSubcircuits

def writeByteVec (bytes : List UInt8) : List UInt8 := writeVec (fun b => [b]) bytes

def readByteVec : Reader (List UInt8) := readVec readU8

def writeString (s : String) : List UInt8 := writeByteVec s.toByteArray.data.toList

/-- Bytes that are not UTF-8 are refused. -/
def readString : Reader String := do
  let bytes ← readByteVec
  match String.fromUTF8? ⟨bytes.toArray⟩ with
  | some s => pure s
  | none => throw .invalidData

theorem length_le_writeByteVec (bytes : List UInt8) : bytes.length ≤ (writeByteVec bytes).length :=
  length_le_writeVec fun _ _ => Nat.one_pos

theorem reads_byteVec {bytes : List UInt8} (fits : (writeByteVec bytes).length < 2 ^ 64) :
    Reads readByteVec (writeByteVec bytes) bytes :=
  reads_vec (Nat.lt_of_le_of_lt (length_le_writeByteVec bytes) fits) fun b _ => reads_u8 b

theorem reads_string {s : String} (fits : (writeString s).length < 2 ^ 64) :
    Reads readString (writeString s) s := by
  apply (reads_byteVec fits).bind_pure
  have valid : String.fromUTF8? ⟨s.toByteArray.data.toList.toArray⟩ = some s :=
    dif_pos s.isValidUTF8
  rw [valid]

def serializeNodeAddress (a : NodeAddressBytes) : List UInt8 :=
  writeByteVec a.bytes ++ writeString a.nodeType

def deserializeNodeAddress : Reader NodeAddressBytes := do
  let bytes ← readByteVec
  let nodeType ← readString
  pure ⟨bytes, nodeType⟩

theorem reads_nodeAddress {a : NodeAddressBytes} (fits : (serializeNodeAddress a).length < 2 ^ 64) :
    Reads deserializeNodeAddress (serializeNodeAddress a) a := by
  rw [serializeNodeAddress, List.length_append] at fits
  apply (reads_byteVec (by omega)).bind
  exact (reads_string (by omega)).bind_pure rfl

def serializeIndexAddress (a : IndexAddress) : List UInt8 := writeU64 a.indicator ++ a.leaf.toList

def deserializeIndexAddress : Reader IndexAddress := do
  let indicator ← readU64
  let leaf ← readBytes 66
  pure ⟨indicator, leaf⟩

theorem reads_indexAddress (a : IndexAddress) :
    Reads deserializeIndexAddress (serializeIndexAddress a) a :=
  (reads_u64 _).bind ((reads_bytes a.leaf).bind_pure rfl)

def serializePath (p : MerkleTreePath) : List UInt8 := writeVec List.Vector.toList p.path

def deserializePath : Reader MerkleTreePath := do
  let path ← readVec (readBytes innerHashSize)
  pure ⟨path⟩

theorem reads_path {p : MerkleTreePath} (fits : (serializePath p).length < 2 ^ 64) :
    Reads deserializePath (serializePath p) p := by
  have count : p.path.length ≤ (serializePath p).length := by
    apply length_le_writeVec
    intro digest _
    rw [digest.toList_length]
    decide
  exact (reads_vec (Nat.lt_of_le_of_lt count fits) fun d _ => reads_bytes d).bind_pure rfl

def serializeEquality (p : EqualityPrimitive) : List UInt8 :=
  writeU64 p.updateIdx ++ (serializeNodeAddress p.addr1 ++ serializeNodeAddress p.addr2)

def deserializeEquality : Reader EqualityPrimitive := do
  let updateIdx ← readU64
  let addr1 ← deserializeNodeAddress
  let addr2 ← deserializeNodeAddress
  pure ⟨updateIdx, addr1, addr2⟩

theorem reads_equality {p : EqualityPrimitive} (fits : (serializeEquality p).length < 2 ^ 64) :
    Reads deserializeEquality (serializeEquality p) p := by
  simp only [serializeEquality, List.length_append] at fits
  apply (reads_u64 _).bind
  apply (reads_nodeAddress (by omega)).bind
  exact (reads_nodeAddress (by omega)).bind_pure rfl

def serializeGetIndex (p : GetIndexPrimitive) : List UInt8 :=
  writeU64 p.updateIdx ++ p.leaf.toList

def deserializeGetIndex : Reader GetIndexPrimitive := do
  let updateIdx ← readU64
  let leaf ← readBytes 66
  pure ⟨updateIdx, leaf⟩

theorem reads_getIndex (p : GetIndexPrimitive) :
    Reads deserializeGetIndex (serializeGetIndex p) p :=
  (reads_u64 _).bind ((reads_bytes p.leaf).bind_pure rfl)

def serializeComputePath (p : ComputePathPrimitive) : List UInt8 :=
  writeU64 p.updateIdx ++ (writeU64 p.pathId ++ (writeU64 p.indicator ++
    (serializeNodeAddress p.initialValueAddr ++ (serializeNodeAddress p.finalValueAddr ++
      (serializeIndexAddress p.indexAddr ++ serializePath p.path)))))

def deserializeComputePath : Reader ComputePathPrimitive := do
  let updateIdx ← readU64
  let pathId ← readU64
  let indicator ← readU64
  let initialValueAddr ← deserializeNodeAddress
  let finalValueAddr ← deserializeNodeAddress
  let indexAddr ← deserializeIndexAddress
  let path ← deserializePath
  pure ⟨updateIdx, pathId, indicator, initialValueAddr, finalValueAddr, indexAddr, path⟩

theorem reads_computePath {p : ComputePathPrimitive}
    (fits : (serializeComputePath p).length < 2 ^ 64) :
    Reads deserializeComputePath (serializeComputePath p) p := by
  simp only [serializeComputePath, List.length_append] at fits
  apply (reads_u64 _).bind
  apply (reads_u64 _).bind
  apply (reads_u64 _).bind
  apply (reads_nodeAddress (by omega)).bind
  apply (reads_nodeAddress (by omega)).bind
  apply (reads_indexAddress _).bind
  exact (reads_path (by omega)).bind_pure rfl

def deserializeHashLeaf : Reader HashLeafPrimitive := do
  let leaf ← readBytes 66
  pure ⟨leaf⟩

theorem reads_hashLeaf (p : HashLeafPrimitive) : Reads deserializeHashLeaf p.leaf.toList p :=
  (reads_bytes p.leaf).bind_pure rfl

structure PrimitiveSubcircuitBytes where
  bytes : List UInt8
  nodeType : String

def primitiveSubcircuitToBytes : PrimitiveSubcircuit → PrimitiveSubcircuitBytes
  | .equalityPrimitive p => ⟨serializeEquality p, "equality"⟩
  | .getIndexPrimitive p => ⟨serializeGetIndex p, "get index"⟩
  | .computePathPrimitive p => ⟨serializeComputePath p, "compute path"⟩
  | .hashLeafPrimitive p => ⟨p.leaf.toList, "hash leaf"⟩
  | .paddingPrimitive => ⟨[], "padding"⟩
  | .writePublicParameterPrimitive => ⟨[], "write pp"⟩

def bytesToPrimitiveSubcircuit (p : PrimitiveSubcircuitBytes) : Outcome PrimitiveSubcircuit :=
  if p.nodeType = "equality" then do
    let q ← NodeAddressBytes.deserializeOrPanic deserializeEquality p.bytes
    .ok (.equalityPrimitive q)
  else if p.nodeType = "get index" then do
    let q ← NodeAddressBytes.deserializeOrPanic deserializeGetIndex p.bytes
    .ok (.getIndexPrimitive q)
  else if p.nodeType = "compute path" then do
    let q ← NodeAddressBytes.deserializeOrPanic deserializeComputePath p.bytes
    .ok (.computePathPrimitive q)
  else if p.nodeType = "hash leaf" then do
    let q ← NodeAddressBytes.deserializeOrPanic deserializeHashLeaf p.bytes
    .ok (.hashLeafPrimitive q)
  else if p.nodeType = "padding" then .ok .paddingPrimitive
  else if p.nodeType = "write pp" then .ok .writePublicParameterPrimitive
  else panicWith "wrong primitive type"

/-- A primitive is read back from its bytes. -/
theorem bytesToPrimitiveSubcircuit_eq {p : PrimitiveSubcircuit}
    (fits : (primitiveSubcircuitToBytes p).bytes.length < 2 ^ 64) :
    bytesToPrimitiveSubcircuit (primitiveSubcircuitToBytes p) = .ok p := by
  cases p with
  | equalityPrimitive p =>
    have back := NodeAddressBytes.deserializeOrPanic_of_reads (reads_equality fits)
    simp [primitiveSubcircuitToBytes, bytesToPrimitiveSubcircuit, back]
  | getIndexPrimitive p =>
    have back := NodeAddressBytes.deserializeOrPanic_of_reads (reads_getIndex p)
    simp [primitiveSubcircuitToBytes, bytesToPrimitiveSubcircuit, back]
  | computePathPrimitive p =>
    have back := NodeAddressBytes.deserializeOrPanic_of_reads (reads_computePath fits)
    simp [primitiveSubcircuitToBytes, bytesToPrimitiveSubcircuit, back]
  | hashLeafPrimitive p =>
    have back := NodeAddressBytes.deserializeOrPanic_of_reads (reads_hashLeaf p)
    simp [primitiveSubcircuitToBytes, bytesToPrimitiveSubcircuit, back]
  | paddingPrimitive => rfl
  | writePublicParameterPrimitive => rfl

def subcircuitToBytes (s : SubCircuit) : List PrimitiveSubcircuitBytes :=
  s.compoundPrimitiveVec.map primitiveSubcircuitToBytes

def bytesToSubcircuit (bytes : List PrimitiveSubcircuitBytes) : Outcome SubCircuit := do
  let primitives ← bytes.mapM bytesToPrimitiveSubcircuit
  .ok ⟨primitives⟩

/-- A subcircuit is read back from the bytes of its primitives. -/
theorem bytesToSubcircuit_eq {s : SubCircuit} (fits : ∀ p ∈ s.compoundPrimitiveVec,
    (primitiveSubcircuitToBytes p).bytes.length < 2 ^ 64) :
    bytesToSubcircuit (subcircuitToBytes s) = .ok s := by
  have each := mapM_eq_ok (f := bytesToPrimitiveSubcircuit ∘ primitiveSubcircuitToBytes)
    (g := id) (l := s.compoundPrimitiveVec) fun p member =>
      bytesToPrimitiveSubcircuit_eq (fits p member)
  rw [List.map_id] at each
  rw [bytesToSubcircuit, subcircuitToBytes, List.mapM_map, each]
  rfl

def serializePrimitive (p : PrimitiveSubcircuitBytes) : List UInt8 :=
  writeByteVec p.bytes ++ writeString p.nodeType

def deserializePrimitive : Reader PrimitiveSubcircuitBytes := do
  let bytes ← readByteVec
  let nodeType ← readString
  pure ⟨bytes, nodeType⟩

theorem reads_primitive {p : PrimitiveSubcircuitBytes}
    (fits : (serializePrimitive p).length < 2 ^ 64) :
    Reads deserializePrimitive (serializePrimitive p) p := by
  rw [serializePrimitive, List.length_append] at fits
  apply (reads_byteVec (by omega)).bind
  exact (reads_string (by omega)).bind_pure rfl

def serializeSubcircuit (s : SubCircuit) : List UInt8 :=
  writeVec serializePrimitive (subcircuitToBytes s)

/-- `deserialize_uncompressed_unchecked`, unwrapped, and `bytes_to_subcircuit`. -/
def deserializeSubcircuit (bytes : List UInt8) : Outcome SubCircuit := do
  let primitives ← NodeAddressBytes.deserializeOrPanic (readVec deserializePrimitive) bytes
  bytesToSubcircuit primitives

/-- A subcircuit whose bytes fit in a vector is read back from them. -/
theorem deserializeSubcircuit_eq {s : SubCircuit} (fits : (serializeSubcircuit s).length < 2 ^ 64) :
    deserializeSubcircuit (serializeSubcircuit s) = .ok s := by
  have parts (p : PrimitiveSubcircuitBytes) (member : p ∈ subcircuitToBytes s) :
      (serializePrimitive p).length < 2 ^ 64 :=
    Nat.lt_of_le_of_lt (length_write_le member) fits
  have count : (subcircuitToBytes s).length ≤ (serializeSubcircuit s).length := by
    apply length_le_writeVec
    intro p _
    rw [serializePrimitive, List.length_append, writeByteVec, writeVec_length]
    omega
  have read := NodeAddressBytes.deserializeOrPanic_of_reads
    (reads_vec (Nat.lt_of_le_of_lt count fits) fun p member => reads_primitive (parts p member))
  have back := bytesToSubcircuit_eq (s := s) fun p member => by
    have here := parts _ (List.mem_map_of_mem member)
    rw [serializePrimitive, List.length_append] at here
    have bytes := length_le_writeByteVec (primitiveSubcircuitToBytes p).bytes
    omega
  rw [deserializeSubcircuit, serializeSubcircuit, read, ok_bind, back]

end VkdCodecs
