import Hekaton.Comparisons
import Hekaton.Coordinator
import Hekaton.Merging
import Hekaton.MirroredRuns
import Hekaton.TreeIndexing

/-!
# The merge sort circuit

One subcircuit for each layer of a merge sort merges pairs of neighbouring segments of the
rows, and sets the indices of the merged rows. The first subcircuit is the layer of the
largest segments, and no layer changes the order of the rows that the next one starts from.
The native trace takes the left row of two equal keys first, the constraints the right one.
Positions in the table are below the bounds of the machine, as the table is in memory.
-/

namespace MergeSortCircuit

open Outcomes Wires Synthesis Contracts Transcript PortalManager HonestRuns MirroredRuns
open PrimeOrders Comparisons Merging Scripts

structure ZkDbSqlCircuitParams where
  numRows : Nat
  sortColumnIdx : Nat

structure ZkDbSqlCircuit (F : Type) where
  tableData : List (List F)
  sortedIndices : List Nat
  params : ZkDbSqlCircuitParams

/-- The rounds that halve a size down to one. -/
def countLayers : Nat → Nat → Nat
  | 0, _ => 0
  | fuel + 1, size => if 1 < size then countLayers fuel ((size + 1) / 2) + 1 else 0

def twoPow (overflowChecks : Bool) (layer : Nat) : Outcome Nat :=
  if layer % 2 ^ 32 < 64 then .ok (2 ^ (layer % 2 ^ 32))
  else if overflowChecks then panicWith "attempt to multiply with overflow"
  else .ok 0

def mergedName (pairIdx i : Nat) : String :=
  "merged_indices_" ++ toString pairIdx ++ "_" ++ toString i

section Model
variable {F D : Type}

namespace ZkDbSqlCircuit

/-- Every round makes a size above one smaller, so as many rounds as rows are enough. -/
def numSubcircuits (c : ZkDbSqlCircuit F) : Nat := countLayers c.params.numRows c.params.numRows

def new [NatCast F] (params : ZkDbSqlCircuitParams) : ZkDbSqlCircuit F where
  tableData := List.replicate params.numRows (List.replicate 7 (12 : Nat))
  sortedIndices := List.range params.numRows
  params := params

def segmentSize (overflowChecks : Bool) (c : ZkDbSqlCircuit F) (subcircuitIdx : Nat) :
    Outcome Nat := do
  let layers ← TreeIndexing.subBits overflowChecks 64 c.numSubcircuits subcircuitIdx
  let currentLayer ← TreeIndexing.subBits overflowChecks 64 layers 1
  twoPow overflowChecks currentLayer

def numPairs (c : ZkDbSqlCircuit F) (segmentSize : Nat) : Outcome Nat :=
  if segmentSize = 0 then panicWith "attempt to divide by zero"
  else .ok ((c.params.numRows + segmentSize - 1) / segmentSize / 2)

def leftStart (segmentSize pairIdx : Nat) : Nat := pairIdx * 2 * segmentSize

def rightStart (segmentSize pairIdx : Nat) : Nat := leftStart segmentSize pairIdx + segmentSize

def rightEnd (c : ZkDbSqlCircuit F) (segmentSize pairIdx : Nat) : Nat :=
  min (rightStart segmentSize pairIdx + segmentSize) c.params.numRows

def rightLen (c : ZkDbSqlCircuit F) (segmentSize pairIdx : Nat) : Nat :=
  c.rightEnd segmentSize pairIdx - rightStart segmentSize pairIdx

/-- The positions of a segment that lie in the table. -/
def positions (c : ZkDbSqlCircuit F) (start len : Nat) : List Nat :=
  ((List.range len).map (start + ·)).filter (· < c.params.numRows)

/-- The sort key and the index of the row at a position. -/
def entryAt (c : ZkDbSqlCircuit F) (position : Nat) : Outcome (F × Nat) := do
  let idx ← expect Coordinator.outOfBounds c.sortedIndices[position]?
  let row ← expect Coordinator.outOfBounds c.tableData[idx]?
  let sortKey ← expect Coordinator.outOfBounds row[c.params.sortColumnIdx]?
  .ok (sortKey, idx)

def leftPositions (c : ZkDbSqlCircuit F) (segmentSize pairIdx : Nat) : List Nat :=
  c.positions (leftStart segmentSize pairIdx) segmentSize

def rightPositions (c : ZkDbSqlCircuit F) (segmentSize pairIdx : Nat) : List Nat :=
  c.positions (rightStart segmentSize pairIdx) (c.rightLen segmentSize pairIdx)

/-- The entries of the left and of the right segment. -/
def segments (c : ZkDbSqlCircuit F) (segmentSize pairIdx : Nat) :
    Outcome (List (F × Nat) × List (F × Nat)) := do
  let left ← (c.leftPositions segmentSize pairIdx).mapM c.entryAt
  let right ← (c.rightPositions segmentSize pairIdx).mapM c.entryAt
  .ok (left, right)

end ZkDbSqlCircuit

open ZkDbSqlCircuit
variable [Field F]

/-- A sort key and an index in the constraints. -/
abbrev EntryVar (F D : Type) := Wire F D .field × Wire F D .field

def witnessEntry (c : ZkDbSqlCircuit F) (position : Nat) : Synth F D (EntryVar F D) := do
  let entry ← Synth.lift (c.entryAt position)
  let keyVar ← Synth.newWitness .field entry.1
  let idxVar ← Synth.newWitness .field (entry.2 : F)
  pure (keyVar, idxVar)

variable [DecidableEq F] [Inhabited D] [DecidableEq D]

/-- The loop of the merge: what it takes next is the wire of a selection, and the value of
the comparison tells which pointer moves on. -/
def mergeVars (cmp : CmpGadget F D) :
    List (EntryVar F D) → List (EntryVar F D) → Synth F D (List (Wire F D .field))
  | [], right => pure (right.map Prod.snd)
  | l :: left, [] => pure ((l :: left).map Prod.snd)
  | l :: left, r :: right => do
      let isLeftSmaller ← cmp.isCmp l.1 r.1 .lt false
      let selectedIdx ← Synth.conditionallySelect isLeftSmaller l.2 r.2
      let smaller ← Synth.value isLeftSmaller
      let merged ← match (smaller : Bool) with
        | true => mergeVars cmp left (r :: right)
        | false => mergeVars cmp (l :: left) right
      pure (selectedIdx :: merged)
  termination_by left right => left.length + right.length

def generatePair (cmp : CmpGadget F D) (c : ZkDbSqlCircuit F) (segmentSize pairIdx : Nat) :
    Program F D Unit := do
  let left ← Program.lift ((c.leftPositions segmentSize pairIdx).mapM (witnessEntry c))
  let right ← Program.lift ((c.rightPositions segmentSize pairIdx).mapM (witnessEntry c))
  let mergedIndices ← Program.lift (mergeVars cmp left right)
  forEach mergedIndices.zipIdx fun idx => Program.portalSet (mergedName pairIdx idx.2) idx.1

def generateConstraints (overflowChecks : Bool) (cmp : CmpGadget F D) (c : ZkDbSqlCircuit F)
    (subcircuitIdx : Nat) : Program F D Unit := do
  let segmentSize ← Program.lift (Synth.lift (c.segmentSize overflowChecks subcircuitIdx))
  let numPairs ← Program.lift (Synth.lift (c.numPairs segmentSize))
  forEach (List.range numPairs) (generatePair cmp c segmentSize)

variable [PrimeOrder F] {PM : Type} [Manager F D PM] [SetupManager F PM]

def nativePair (c : ZkDbSqlCircuit F) (segmentSize : Nat) (pm : PM) (pairIdx : Nat) :
    Synth F D PM := do
  let left ← Synth.lift ((c.leftPositions segmentSize pairIdx).mapM c.entryAt)
  let right ← Synth.lift ((c.rightPositions segmentSize pairIdx).mapM c.entryAt)
  let merged := List.merge left right fun a b => le a.1 b.1
  merged.zipIdx.foldlM (fun pm entry => do
    let idxVar ← Synth.newWitness .field (entry.1.2 : F)
    Manager.set pm (mergedName pairIdx entry.2) idxVar) pm

def nativeLayer (overflowChecks : Bool) (c : ZkDbSqlCircuit F) (pm : PM) (layerIdx : Nat) :
    Synth F D PM := do
  let segmentSize ← Synth.lift (c.segmentSize overflowChecks layerIdx)
  let numPairs ← Synth.lift (c.numPairs segmentSize)
  (List.range numPairs).foldlM (nativePair c segmentSize) (SetupManager.startSubtrace F pm)

/-- The subtraces of the portal manager that all layers leave. -/
def getPortalSubtraces (D : Type) [Inhabited D] [DecidableEq D] (overflowChecks : Bool)
    (c : ZkDbSqlCircuit F) : Outcome (List (List (TranscriptEntry F .rom))) := do
  let recorded ← ((List.range c.numSubcircuits).foldlM (nativeLayer (D := D) overflowChecks c)
    SetupRomPortalManager.new : Synth F D _) []
  .ok recorded.1.subtraces

end Model

theorem countLayers_eq_clog {fuel size : Nat} (enough : size ≤ fuel) :
    countLayers fuel size = Nat.clog 2 size := by
  induction fuel generalizing size with
  | zero =>
    rw [Nat.le_zero.mp enough]
    rfl
  | succ fuel ih =>
    rw [countLayers]
    split
    · rename_i many
      rw [ih (by omega), Nat.clog_of_one_lt (by decide) many]
      rfl
    · rename_i few
      rw [Nat.clog_of_right_le_one (by omega)]

section Shape
variable {F : Type} {c : ZkDbSqlCircuit F} {overflowChecks : Bool}
variable {idx segmentSize numPairs pairIdx : Nat}

open ZkDbSqlCircuit

theorem numSubcircuits_eq_clog (c : ZkDbSqlCircuit F) :
    c.numSubcircuits = Nat.clog 2 c.params.numRows := countLayers_eq_clog le_rfl

theorem segmentSize_eq (inside : idx < c.numSubcircuits) :
    c.segmentSize overflowChecks idx = twoPow overflowChecks (c.numSubcircuits - idx - 1) := by
  have layers : TreeIndexing.subBits overflowChecks 64 c.numSubcircuits idx =
      .ok (c.numSubcircuits - idx) := TreeIndexing.subBits_eq (by omega)
  have layer : TreeIndexing.subBits overflowChecks 64 (c.numSubcircuits - idx) 1 =
      .ok (c.numSubcircuits - idx - 1) := TreeIndexing.subBits_eq (by omega)
  rw [ZkDbSqlCircuit.segmentSize, layers, ok_bind, layer, ok_bind]

theorem segmentSize_lt (inside : idx < c.numSubcircuits)
    (shape : c.segmentSize overflowChecks idx = .ok segmentSize) :
    segmentSize < c.params.numRows := by
  rw [segmentSize_eq inside, twoPow] at shape
  have many : 1 < c.params.numRows := by
    by_contra few
    rw [numSubcircuits_eq_clog, Nat.clog_of_right_le_one (by omega)] at inside
    omega
  have below : 2 ^ (c.numSubcircuits - 1) < c.params.numRows := by
    rw [numSubcircuits_eq_clog]
    exact Nat.pow_pred_clog_lt_self (by decide) many
  split at shape
  · cases shape
    refine lt_of_le_of_lt (Nat.pow_le_pow_right (by decide) ?_) below
    exact (Nat.mod_le _ _).trans (by omega)
  · split at shape
    · cases shape
    · cases shape
      omega

theorem numPairs_eq_ok : c.numPairs segmentSize = .ok numPairs ↔ 0 < segmentSize ∧
    numPairs = (c.params.numRows + segmentSize - 1) / segmentSize / 2 := by
  rw [ZkDbSqlCircuit.numPairs]
  split
  · rename_i none
    exact iff_of_false (nomatch ·) fun h => absurd none h.1.ne'
  · rename_i some
    rw [Except.ok.injEq, eq_comm]
    exact ⟨fun same => ⟨Nat.pos_of_ne_zero some, same⟩, fun h => h.2⟩

/-- The right segment of a pair starts in the table, so its length does not underflow. -/
theorem rightStart_lt (pairs : c.numPairs segmentSize = .ok numPairs) (inside : pairIdx < numPairs) :
    rightStart segmentSize pairIdx < c.params.numRows := by
  obtain ⟨positive, rfl⟩ := numPairs_eq_ok.mp pairs
  have whole : (pairIdx + 1) * 2 ≤ (c.params.numRows + segmentSize - 1) / segmentSize := by
    have := (Nat.le_div_iff_mul_le (by decide : 0 < 2)).mp (Nat.succ_le_of_lt inside)
    exact this
  have rows := (Nat.le_div_iff_mul_le positive).mp whole
  have expand : (pairIdx + 1) * 2 * segmentSize =
      rightStart segmentSize pairIdx + segmentSize := by
    rw [rightStart, leftStart]
    ring
  omega

theorem numPairs_pos (pairs : c.numPairs segmentSize = .ok numPairs)
    (small : segmentSize < c.params.numRows) : 0 < numPairs := by
  obtain ⟨positive, rfl⟩ := numPairs_eq_ok.mp pairs
  have two : 2 ≤ (c.params.numRows + segmentSize - 1) / segmentSize := by
    rw [Nat.le_div_iff_mul_le positive]
    omega
  omega

/-- Two rows have one layer of one pair of segments with one row each. -/
theorem shape_of_two (two : c.params.numRows = 2) : c.numSubcircuits = 1 ∧
    c.segmentSize overflowChecks 0 = .ok 1 ∧ c.numPairs 1 = .ok 1 := by
  have one : c.numSubcircuits = 1 := by
    rw [numSubcircuits, two]
    decide
  refine ⟨one, ?_, ?_⟩
  · rw [segmentSize_eq (by omega), one]
    exact if_pos (by decide)
  · rw [numPairs_eq_ok, two]
    decide

end Shape

end MergeSortCircuit
