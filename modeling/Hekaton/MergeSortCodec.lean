import Hekaton.Codecs
import Hekaton.MergeSortCircuit

/-!
# Witness codec of the merge sort

A worker rebuilds its part of the table from bytes. The writer leaves the sort keys and the
indices of all pairs, two elements for each row. The reader skips as many bytes for each
pair, and then reads the merged indices, eight bytes each, which no writer left. Behind the
last pair nothing follows, so it always reads past the end.
-/

namespace MergeSortCircuit

open Outcomes Codecs PrimeFields PrimeOrders ZkDbSqlCircuit

section Model
variable {F : Type} [Field F] [PrimeOrder F]

/-- `uncompressed_size` of an element. -/
def fieldSize (F : Type) [Field F] [PrimeOrder F] : Nat := (modulusBitSize F + 7) / 8

def writeField (x : F) : List UInt8 := littleEndian (fieldSize F) (PrimeOrder.intoBigint x)

def writeEntry (entry : F × Nat) : List UInt8 := writeField entry.1 ++ writeField (entry.2 : F)

def writePair (c : ZkDbSqlCircuit F) (segmentSize pairIdx : Nat) : Outcome (List UInt8) := do
  let both ← c.segments segmentSize pairIdx
  .ok ((both.1 ++ both.2).flatMap writeEntry)

def getSerializedWitnesses (overflowChecks : Bool) (c : ZkDbSqlCircuit F) (subcircuitIdx : Nat) :
    Outcome (List UInt8) := do
  let segmentSize ← c.segmentSize overflowChecks subcircuitIdx
  let numPairs ← c.numPairs segmentSize
  let outBuf ← (List.range numPairs).mapM (writePair c segmentSize)
  .ok outBuf.flatten

def sliceTooShort (last length : Nat) : String :=
  "range end index " ++ toString last ++ " out of range for slice of length " ++ toString length

/-- An index of eight bytes. -/
def readIndex (bytes : List UInt8) (offset : Nat) : Outcome Nat :=
  if offset + 8 ≤ bytes.length then .ok (fromLittleEndian ((bytes.drop offset).take 8))
  else panicWith (sliceTooShort (offset + 8) bytes.length)

/-- The offset in the bytes and the indices read so far. -/
structure Reading where
  offset : Nat
  sortedIndices : List Nat

def readMerged (bytes : List UInt8) (reading : Reading) (position : Nat) : Outcome Reading := do
  let sortedIdx ← readIndex bytes reading.offset
  if position < reading.sortedIndices.length then
    .ok ⟨reading.offset + 8, reading.sortedIndices.set position sortedIdx⟩
  else panicWith Coordinator.outOfBounds

/-- The bytes that the reader takes for the keys and indices of a pair. -/
def entriesToSkip (c : ZkDbSqlCircuit F) (segmentSize pairIdx : Nat) : Nat :=
  (segmentSize + c.rightLen segmentSize pairIdx) * 2 * fieldSize F

def readPair (c : ZkDbSqlCircuit F) (bytes : List UInt8) (segmentSize : Nat) (reading : Reading)
    (pairIdx : Nat) : Outcome Reading :=
  (c.positions (leftStart segmentSize pairIdx)
      (segmentSize + c.rightLen segmentSize pairIdx)).foldlM (readMerged bytes)
    { reading with offset := reading.offset + entriesToSkip c segmentSize pairIdx }

def setSerializedWitnesses (overflowChecks : Bool) (c : ZkDbSqlCircuit F) (subcircuitIdx : Nat)
    (bytes : List UInt8) : Outcome (ZkDbSqlCircuit F) := do
  let segmentSize ← c.segmentSize overflowChecks subcircuitIdx
  let numPairs ← c.numPairs segmentSize
  let reading ← (List.range numPairs).foldlM (readPair c bytes segmentSize) ⟨0, c.sortedIndices⟩
  .ok { c with sortedIndices := reading.sortedIndices }

/-- A fresh circuit reads what was written, and has the keys and indices of the subcircuit. -/
def RoundTrips (overflowChecks : Bool) (c : ZkDbSqlCircuit F) (subcircuitIdx : Nat) : Prop :=
  ∃ bytes copy, getSerializedWitnesses overflowChecks c subcircuitIdx = .ok bytes ∧
    setSerializedWitnesses overflowChecks (.new c.params) subcircuitIdx bytes = .ok copy ∧
    ∀ segmentSize numPairs, c.segmentSize overflowChecks subcircuitIdx = .ok segmentSize →
      c.numPairs segmentSize = .ok numPairs →
      ∀ p < numPairs, copy.segments segmentSize p = c.segments segmentSize p

end Model

section Written
variable {F : Type} [Field F] [PrimeOrder F] {c : ZkDbSqlCircuit F} {segmentSize pairIdx : Nat}

theorem writeEntry_length (entry : F × Nat) : (writeEntry entry).length = 2 * fieldSize F := by
  rw [writeEntry, List.length_append, writeField, writeField, littleEndian_length,
    littleEndian_length]
  omega

theorem writeEntries_length (entries : List (F × Nat)) :
    (entries.flatMap writeEntry).length = entries.length * (2 * fieldSize F) := by
  induction entries with
  | nil => rw [List.flatMap_nil, List.length_nil, List.length_nil, Nat.zero_mul]
  | cons entry entries ih =>
    rw [List.flatMap_cons, List.length_append, writeEntry_length, ih, List.length_cons]
    ring

omit [Field F] [PrimeOrder F] in
theorem positions_length_le (c : ZkDbSqlCircuit F) (start len : Nat) :
    (c.positions start len).length ≤ len := by
  rw [positions]
  refine (List.length_filter_le _ _).trans ?_
  rw [List.length_map, List.length_range]

/-- A pair has no more bytes than the reader skips for it. -/
theorem writePair_length {bytes : List UInt8} (ok : writePair c segmentSize pairIdx = .ok bytes) :
    bytes.length ≤ entriesToSkip c segmentSize pairIdx := by
  obtain ⟨both, read, same⟩ := bind_eq_ok.mp ok
  cases same
  obtain ⟨left, foundLeft, rest⟩ := bind_eq_ok.mp read
  obtain ⟨right, foundRight, same⟩ := bind_eq_ok.mp rest
  cases same
  have leftLength := (forall₂_of_mapM foundLeft).length_eq
  have rightLength := (forall₂_of_mapM foundRight).length_eq
  have leftShort := positions_length_le c (leftStart segmentSize pairIdx) segmentSize
  have rightShort := positions_length_le c (rightStart segmentSize pairIdx)
    (c.rightLen segmentSize pairIdx)
  rw [← leftPositions, leftLength] at leftShort
  rw [← rightPositions, rightLength] at rightShort
  rw [writeEntries_length, List.length_append, entriesToSkip, Nat.mul_assoc]
  exact Nat.mul_le_mul_right _ (Nat.add_le_add leftShort rightShort)

/-- What the reader skips for some pairs. -/
def skipped (c : ZkDbSqlCircuit F) (segmentSize : Nat) (pairs : List Nat) : Nat :=
  (pairs.map (entriesToSkip c segmentSize)).sum

theorem written_length {pairs : List Nat} {outBuf : List (List UInt8)}
    (ok : pairs.mapM (writePair c segmentSize) = .ok outBuf) :
    outBuf.flatten.length ≤ skipped c segmentSize pairs := by
  have each := forall₂_of_mapM ok
  clear ok
  induction each with
  | nil => exact Nat.zero_le _
  | cons here rest ih =>
    rw [List.flatten_cons, List.length_append, skipped, List.map_cons, List.sum_cons]
    exact Nat.add_le_add (writePair_length here) ih

end Written

section Read
variable {F : Type} [Field F] [PrimeOrder F] {c : ZkDbSqlCircuit F} {segmentSize pairIdx : Nat}
variable {bytes : List UInt8} {reading after : Reading}

theorem readIndex_ok {offset idx : Nat} (ok : readIndex bytes offset = .ok idx) :
    offset + 8 ≤ bytes.length := by
  rw [readIndex] at ok
  split at ok
  · assumption
  · cases ok

/-- One index. -/
theorem readMerged_offset {position : Nat} (ok : readMerged bytes reading position = .ok after) :
    after.offset = reading.offset + 8 ∧ after.offset ≤ bytes.length := by
  obtain ⟨sortedIdx, read, rest⟩ := bind_eq_ok.mp ok
  split at rest
  · cases rest
    exact ⟨rfl, readIndex_ok read⟩
  · cases rest

/-- Some indices: the offset moves on, within the bytes. -/
theorem readMany_offset {positions : List Nat}
    (ok : positions.foldlM (readMerged bytes) reading = .ok after) :
    after.offset = reading.offset + 8 * positions.length ∧
      (positions ≠ [] → after.offset ≤ bytes.length) := by
  induction positions generalizing reading with
  | nil =>
    cases ok
    exact ⟨rfl, fun some => absurd rfl some⟩
  | cons position positions ih =>
    rw [List.foldlM_cons] at ok
    obtain ⟨next, first, rest⟩ := bind_eq_ok.mp ok
    obtain ⟨moved, inside⟩ := readMerged_offset first
    obtain ⟨moved', inside'⟩ := ih rest
    refine ⟨by rw [moved', moved, List.length_cons]; ring, fun _ => ?_⟩
    cases positions with
    | nil =>
      cases rest
      exact inside
    | cons position' positions => exact inside' (List.cons_ne_nil _ _)

omit [Field F] [PrimeOrder F] in
/-- Every pair has a row to read. -/
theorem positions_ne_nil (positive : 0 < segmentSize)
    (inside : rightStart segmentSize pairIdx < c.params.numRows) :
    c.positions (leftStart segmentSize pairIdx)
      (segmentSize + c.rightLen segmentSize pairIdx) ≠ [] := by
  apply List.ne_nil_of_mem (a := leftStart segmentSize pairIdx)
  rw [positions, List.mem_filter]
  refine ⟨List.mem_map.mpr ⟨0, List.mem_range.mpr (by omega), Nat.add_zero _⟩, ?_⟩
  rw [rightStart] at inside
  exact decide_eq_true (by omega)

/-- The pairs: the offset moves on by all that is skipped, and more. -/
theorem readPairs_offset {pairs : List Nat} (positive : 0 < segmentSize)
    (inside : ∀ p ∈ pairs, rightStart segmentSize p < c.params.numRows)
    (ok : pairs.foldlM (readPair c bytes segmentSize) reading = .ok after) :
    reading.offset + skipped c segmentSize pairs + pairs.length ≤ after.offset ∧
      (pairs ≠ [] → after.offset ≤ bytes.length) := by
  induction pairs generalizing reading with
  | nil =>
    cases ok
    exact ⟨Nat.le_refl _, fun some => absurd rfl some⟩
  | cons p pairs ih =>
    rw [List.foldlM_cons] at ok
    obtain ⟨next, first, rest⟩ := bind_eq_ok.mp ok
    have some := positions_ne_nil positive (inside p List.mem_cons_self)
    obtain ⟨moved, within⟩ := readMany_offset first
    change next.offset = reading.offset + entriesToSkip c segmentSize p + _ at moved
    obtain ⟨moved', within'⟩ := ih (fun q member => inside q (List.mem_cons_of_mem p member)) rest
    have one := List.length_pos_of_ne_nil some
    constructor
    · rw [skipped, List.map_cons, List.sum_cons, List.length_cons]
      rw [skipped] at moved'
      omega
    · intro _
      cases pairs with
      | nil =>
        cases rest
        exact within some
      | cons q pairs => exact within' (List.cons_ne_nil _ _)

/-- The fresh circuit always reads past the end of the bytes. -/
theorem never_roundTrips {overflowChecks : Bool} {subcircuitIdx : Nat}
    (inside : subcircuitIdx < c.numSubcircuits) : ¬ RoundTrips overflowChecks c subcircuitIdx := by
  rintro ⟨bytes, copy, written, read, _⟩
  obtain ⟨segmentSize, size, rest⟩ := bind_eq_ok.mp written
  obtain ⟨numPairs, number, rest⟩ := bind_eq_ok.mp rest
  obtain ⟨outBuf, pairs, same⟩ := bind_eq_ok.mp rest
  cases same
  obtain ⟨segmentSize', size', rest⟩ := bind_eq_ok.mp read
  obtain ⟨numPairs', number', rest⟩ := bind_eq_ok.mp rest
  obtain ⟨reading, readPairs, _⟩ := bind_eq_ok.mp rest
  cases size.symm.trans size'
  cases number.symm.trans number'
  have short := written_length pairs
  have positive := (numPairs_eq_ok.mp number).1
  have some := numPairs_pos number (segmentSize_lt inside size)
  obtain ⟨moved, within⟩ := readPairs_offset positive
    (fun p member => rightStart_lt number' (List.mem_range.mp member)) readPairs
  have here := within (List.ne_nil_of_length_pos (by rwa [List.length_range]))
  rw [List.length_range] at moved
  change 0 + skipped c segmentSize (List.range numPairs) + numPairs ≤ _ at moved
  omega

end Read

def newTable : ZkDbSqlCircuit Bls12381Fr := .new ⟨2, 0⟩

theorem newTable_never : ¬ RoundTrips true newTable 0 := never_roundTrips (by decide)

/-- The four elements of its two rows are 128 bytes, and the first index would end at 136. -/
theorem newTable_unread : (do
    let bytes ← getSerializedWitnesses true newTable 0
    let copy ← setSerializedWitnesses true (.new newTable.params : ZkDbSqlCircuit Bls12381Fr) 0 bytes
    .ok copy.sortedIndices : Outcome (List Nat)) = .error (.panic (sliceTooShort 136 128)) := by
  decide +kernel

end MergeSortCircuit
