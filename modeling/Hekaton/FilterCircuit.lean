import Hekaton.Comparisons
import Hekaton.Coordinator
import Hekaton.KeyReuse
import Hekaton.MirroredRuns
import Hekaton.TreeIndexing

/-!
# The filter circuit

One subcircuit for each row of the table compares the row's date with the filter's and sets
the result. The constraints compare with the gadget, whose operands must lie in the lower
half of the field; the native trace compares the integers of any two elements.
-/

namespace FilterCircuit

open Outcomes Wires Synthesis Contracts Transcript PortalManager HonestRuns MirroredRuns
open EvalTree SubcircuitCircuit SubcircuitShapes KeyReuse PrimeFields PrimeOrders Comparisons

structure ZkDbSqlCircuitParams where
  numRows : Nat

structure ZkDbSqlCircuit (F : Type) where
  lineitemTable : List (List F)
  rightShipdate : F
  params : ZkDbSqlCircuitParams

/-- A table as `new` builds it: the rows of the parameters, with seven columns or more. -/
structure ZkDbSqlCircuit.Shaped {F : Type} (c : ZkDbSqlCircuit F) : Prop where
  rows : c.lineitemTable.length = c.params.numRows
  columns : ∀ row ∈ c.lineitemTable, 7 ≤ row.length

def outsideRows : String := "subcircuit_idx > self.params.num_rows"

def resultName (idx : Nat) : String := "lhs " ++ toString idx ++ " com_res"

section Model
variable {F D : Type} [Field F]

def numSubcircuits (c : ZkDbSqlCircuit F) : Nat := c.params.numRows

def getUniqueSubcircuits : List Nat := [0, 1, 3]

def representativeSubcircuit (overflowChecks : Bool) (c : ZkDbSqlCircuit F)
    (subcircuitIdx : Nat) : Outcome Nat :=
  if subcircuitIdx = 0 then .ok 0
  else do
    let last ← TreeIndexing.subBits overflowChecks 64 c.params.numRows 1
    if subcircuitIdx = last then .ok 3 else .ok 1

def ZkDbSqlCircuit.new (params : ZkDbSqlCircuitParams) : ZkDbSqlCircuit F where
  lineitemTable := List.replicate params.numRows (List.replicate 7 1)
  rightShipdate := (12 : Nat)
  params := params

def generateConstraints (cmp : CmpGadget F D) (c : ZkDbSqlCircuit F) (subcircuitIdx : Nat) :
    Program F D Unit :=
  if subcircuitIdx < c.params.numRows then do
    let row ← Program.lift (Synth.lift
      (expect Coordinator.outOfBounds c.lineitemTable[subcircuitIdx]?))
    let lhs ← Program.lift (Synth.lift (expect Coordinator.outOfBounds row[6]?))
    let lhsVar ← Program.lift (Synth.newWitness .field lhs)
    let isLessThanVar ← Program.lift (cmp.isCmp lhsVar (.constant c.rightShipdate) .lt true)
    let cmpRes ← Program.lift
      (Synth.conditionallySelect isLessThanVar (.constant (1 : F)) (.constant (0 : F)))
    Program.portalSet (resultName subcircuitIdx) cmpRes
  else Program.lift (Synth.lift (panicWith outsideRows))

variable [PrimeOrder F] [DecidableEq F] [Inhabited D] [DecidableEq D]

/-- The comparison of a row, as an element. -/
def filterResult (lhs rhs : F) : F := if le lhs rhs then 1 else 0

def nativeRow (c : ZkDbSqlCircuit F) (pm : SetupRomPortalManager F) (row : List F × Nat) :
    Synth F D (SetupRomPortalManager F) := do
  let lhs ← Synth.lift (expect Coordinator.outOfBounds row.1[6]?)
  let cmpRes ← Synth.newWitness .field (filterResult lhs c.rightShipdate)
  Manager.set pm.startSubtrace (resultName row.2) cmpRes

/-- The portal manager that all rows leave. -/
def nativeManager (D : Type) [Inhabited D] [DecidableEq D] (c : ZkDbSqlCircuit F) :
    Outcome (SetupRomPortalManager F) := do
  let recorded ← (c.lineitemTable.zipIdx.foldlM (nativeRow (D := D) c) .new : Synth F D _) []
  .ok recorded.1

def getPortalSubtraces (D : Type) [Inhabited D] [DecidableEq D] (c : ZkDbSqlCircuit F) :
    Outcome (List (List (TranscriptEntry F .rom))) := do
  let pm ← nativeManager D c
  .ok pm.subtraces

def circuit (overflowChecks : Bool) (cmp : CmpGadget F D) (c : ZkDbSqlCircuit F) :
    CircuitWithPortals F D .rom where
  numSubcircuits := numSubcircuits c
  generateConstraints := generateConstraints cmp c
  getPortalSubtraces := getPortalSubtraces D c
  getUniqueSubcircuits := getUniqueSubcircuits
  representativeSubcircuit := representativeSubcircuit overflowChecks c

end Model

section Native
variable {F D : Type} [Field F] [PrimeOrder F] [DecidableEq F] [Inhabited D] [DecidableEq D]
variable {c : ZkDbSqlCircuit F} {pm : SetupRomPortalManager F} {vars : List (Variable F D)}

/-- The name of a row tells its index. -/
theorem resultName_injective {i j : Nat} (same : resultName i = resultName j) : i = j := by
  rw [resultName, resultName, String.append_left_inj, String.append_right_inj] at same
  exact decimal_injective same

/-- The manager after so many rows: one entry in each subtrace, with the row's result. -/
structure RowsRecorded (c : ZkDbSqlCircuit F) (n : Nat) (pm : SetupRomPortalManager F) : Prop where
  values : ∀ i row lhs, i < n → c.lineitemTable[i]? = some row → row[6]? = some lhs →
    valueOf pm (resultName i) = some (filterResult lhs c.rightShipdate)
  fresh : ∀ i, n ≤ i → valueOf pm (resultName i) = none
  lengths : pm.subtraces.map List.length = List.replicate n 1

omit [DecidableEq F] in
theorem rowsRecorded_new : RowsRecorded c 0 .new where
  values _ _ _ inside := absurd inside (Nat.not_lt_zero _)
  fresh _ _ := rfl
  lengths := rfl

theorem rowsRecorded_step {n : Nat} {row : List F} {lhs : F} (recorded : RowsRecorded c n pm)
    (here : c.lineitemTable[n]? = some row) (date : row[6]? = some lhs) :
    Decides vars (nativeRow (D := D) c pm (row, n)) True fun _ pm' => RowsRecorded c (n + 1) pm' := by
  have free : pm.startSubtrace.varMap (resultName n) = none :=
    valueOf_eq_none.mp (recorded.fresh n (Nat.le_refl n))
  have set : SetupManager.setValue pm.startSubtrace (resultName n)
      (filterResult lhs c.rightShipdate) = .ok
        ⟨pm.subtraces ++ [[.rom ⟨pm.nextVarAddr, filterResult lhs c.rightShipdate⟩]],
          pm.nextVarAddr + 1, Function.update pm.varMap (resultName n)
            (some ⟨pm.nextVarAddr, filterResult lhs c.rightShipdate⟩)⟩ := by
    simp only [SetupManager.setValue, free, Option.isSome_none, Bool.false_eq_true, if_false]
    rw [SetupRomPortalManager.startSubtrace, Scripts.pushEntry_last]
    rfl
  rw [nativeRow, date]
  apply Decides.lift_bind rfl
  apply (Decides.newVariable .witness .field _).bind_true
  intro more w hw
  apply (LawfulSetup.set _ _ _ _ _ _ hw set).mono
  rintro more' pm' rfl
  constructor
  · intro i row' lhs' inside found date'
    rw [valueOf_set set]
    split
    · rename_i same
      cases resultName_injective same
      cases here.symm.trans found
      cases date.symm.trans date'
      rfl
    · rename_i other
      have before : i < n := by
        have : i ≠ n := fun same => other (by rw [same])
        omega
      exact recorded.values i row' lhs' before found date'
  · intro i later
    rw [valueOf_set set, if_neg]
    · exact recorded.fresh i (Nat.le_of_succ_le later)
    · intro same
      exact absurd (resultName_injective same) (Nat.ne_of_gt later)
  · rw [List.map_append, recorded.lengths, List.replicate_succ']
    rfl

/-- The rows that are left, one after the other. -/
theorem rowsRecorded_run (shaped : c.Shaped) {rows : List (List F)} {n : Nat}
    (rest : c.lineitemTable.drop n = rows) (inside : n ≤ c.lineitemTable.length) (recorded : RowsRecorded c n pm) :
    Decides vars ((rows.zipIdx n).foldlM (nativeRow (D := D) c) pm) True
      fun _ pm' => RowsRecorded c c.lineitemTable.length pm' := by
  induction rows generalizing n pm vars with
  | nil =>
    have all : n = c.lineitemTable.length := by
      have short := List.drop_eq_nil_iff.mp rest
      omega
    subst all
    exact .pure recorded
  | cons row rows ih =>
    have here : c.lineitemTable[n]? = some row := by
      rw [← List.head?_drop, rest, List.head?_cons]
    have wide := shaped.columns row (List.mem_of_getElem? here)
    have date : row[6]? = some row[6] := List.getElem?_eq_getElem wide
    rw [List.zipIdx_cons, List.foldlM_cons]
    apply (rowsRecorded_step recorded here date).bind_true
    intro more pm' recorded'
    have next : n + 1 ≤ c.lineitemTable.length := (List.getElem?_eq_some_iff.mp here).1
    apply ih _ next recorded'
    rw [← List.drop_drop, rest, List.drop_one, List.tail_cons]

/-- The native trace of a table has one entry for each row. -/
theorem nativeManager_recorded (shaped : c.Shaped) :
    ∃ pm, nativeManager D c = .ok pm ∧ RowsRecorded c c.params.numRows pm := by
  have all : Decides [] (c.lineitemTable.zipIdx.foldlM (nativeRow (D := D) c) .new) True _ :=
    rowsRecorded_run shaped List.drop_zero (Nat.zero_le _) rowsRecorded_new
  obtain ⟨pm, e, run, _, recorded⟩ := all
  rw [shaped.rows] at recorded
  refine ⟨pm, ?_, recorded⟩
  rw [nativeManager, run]
  rfl

end Native

section Agreement
variable {F D : Type} [Field F] [PrimeOrder F] [DecidableEq F] [Inhabited D] [DecidableEq D]
variable {c : ZkDbSqlCircuit F} {cmp : CmpGadget F D}

/-- What the constraints of a row set: whether the gadget found the date smaller. -/
def comparedResult (lhs rhs : F) : F := if compares .lt true lhs rhs then 1 else 0

omit [DecidableEq F] in
/-- But for the largest threshold, an increased threshold is a larger integer. -/
theorem comparedResult_eq {lhs rhs : F} (notLast : rhs + 1 ≠ 0) :
    comparedResult lhs rhs = filterResult lhs rhs := by
  have order : compares .lt true lhs rhs = le lhs rhs := by
    change decide (PrimeOrder.intoBigint lhs < PrimeOrder.intoBigint (rhs + 1)) = _
    rw [intoBigint_add_one notLast, le]
    exact decide_eq_decide.mpr Nat.lt_succ_iff
  rw [comparedResult, filterResult, order]

/-- The constraints of a row on a manager that does not know its name, where the gadget
applies: they hold, and they set what it found. -/
theorem generateConstraints_decides (lawful : cmp.Lawful) {i : Nat} {row : List F} {lhs : F}
    (inside : i < c.params.numRows) (here : c.lineitemTable[i]? = some row)
    (date : row[6]? = some lhs) (applies : CmpApplies .lt true lhs c.rightShipdate)
    {pm : SetupRomPortalManager F} (started : pm.subtraces ≠ [])
    (free : valueOf pm (resultName i) = none) (vars : List (Variable F D)) :
    Decides vars ((generateConstraints cmp c i).run pm) True fun _ r =>
      valueOf r.2 (resultName i) = some (comparedResult lhs c.rightShipdate) := by
  rw [generateConstraints, if_pos inside, here]
  apply decides_call rfl
  rw [date]
  apply decides_call rfl
  apply decides_lift (Decides.newVariable .witness .field lhs)
  intro more lhsVar hlhs
  apply decides_lift (lawful.decides (vars ++ more) lhsVar (.constant c.rightShipdate) lhs
    c.rightShipdate .lt true (by decide) hlhs (.constant _) applies)
  intro more' isLess hv
  apply decides_lift (Decides.define _)
  rintro more'' _ rfl
  have elem (x : F) :
      Valued (vars ++ more ++ more' ++ more'') (.constant x : Wire F D .field) x := fun _ => rfl
  have result := (hv.mono more'').select (elem 1) (elem 0)
  obtain ⟨pm', set, _⟩ := setValue_ok started free
    (bif compares .lt true lhs c.rightShipdate then 1 else 0)
  apply (decides_set_last result set).mono
  rintro rest r rfl
  rw [valueOf_set set, if_pos rfl, comparedResult]
  cases compares .lt true lhs c.rightShipdate <;> rfl

/-- Where the gadget does not apply, no honest run of a row's constraints is satisfied. -/
theorem generateConstraints_refuses (lawful : cmp.Lawful) {i : Nat} {row : List F} {lhs : F}
    (inside : i < c.params.numRows) (here : c.lineitemTable[i]? = some row)
    (date : row[6]? = some lhs) (fails : ¬ CmpApplies .lt true lhs c.rightShipdate)
    (pm : SetupRomPortalManager F) (vars : List (Variable F D)) :
    Refuses vars ((generateConstraints cmp c i).run pm) := by
  rw [generateConstraints, if_pos inside, here]
  apply refuses_call rfl
  intro more
  rw [date]
  apply refuses_call rfl
  intro more'
  apply refuses_lift (Decides.newVariable .witness .field _)
  intro more'' lhsVar hlhs
  exact (lawful.refuses _ lhsVar (.constant c.rightShipdate) _ c.rightShipdate .lt true
    (by decide) hlhs (.constant _) fails).bind

/-- The native trace records the comparison of the integers of any elements. The constraints
of a row can be satisfied exactly when the date and one more than the threshold are in the
lower half. They then set whether the date is below one more than the threshold, which is
the recorded value for every threshold but the largest element. -/
theorem comparisons_agree (lawful : cmp.Lawful) (shaped : c.Shaped) :
    ∃ native, nativeManager D c = .ok native ∧
      getPortalSubtraces D c = .ok native.subtraces ∧
      ∀ i < c.params.numRows, ∃ row lhs, c.lineitemTable[i]? = some row ∧ row[6]? = some lhs ∧
        valueOf native (resultName i) = some
          (if PrimeOrder.intoBigint lhs ≤ PrimeOrder.intoBigint c.rightShipdate then 1 else 0) ∧
        ∀ pm : SetupRomPortalManager F, pm.subtraces ≠ [] → valueOf pm (resultName i) = none →
          ∀ vars, (InHalf lhs → InHalf (c.rightShipdate + 1) →
              Decides vars ((generateConstraints cmp c i).run pm) True fun _ r =>
                valueOf r.2 (resultName i) = some (if PrimeOrder.intoBigint lhs <
                  PrimeOrder.intoBigint (c.rightShipdate + 1) then 1 else 0) ∧
                (c.rightShipdate + 1 ≠ 0 →
                  valueOf r.2 (resultName i) = valueOf native (resultName i))) ∧
            (¬ (InHalf lhs ∧ InHalf (c.rightShipdate + 1)) →
              Refuses vars ((generateConstraints cmp c i).run pm)) := by
  obtain ⟨native, run, recorded⟩ := nativeManager_recorded (D := D) shaped
  refine ⟨native, run, ?_, fun i inside => ?_⟩
  · rw [getPortalSubtraces, run, ok_bind]
  · have listed : i < c.lineitemTable.length := by rwa [shaped.rows]
    have here := List.getElem?_eq_getElem listed
    have wide := shaped.columns _ (List.getElem_mem listed)
    have date : c.lineitemTable[i][6]? = some c.lineitemTable[i][6] := List.getElem?_eq_getElem wide
    have value := recorded.values i _ _ inside here date
    refine ⟨_, _, here, date, ?_, fun pm started free vars => ⟨fun low low' => ?_, fun fails => ?_⟩⟩
    · rw [value, filterResult, le]
      simp only [decide_eq_true_eq]
    · apply (generateConstraints_decides lawful inside here date ⟨low, low'⟩ started free vars).mono
      intro more r set
      refine ⟨?_, fun notLast => ?_⟩
      · rw [set, comparedResult]
        change some (if decide (_ < _) = true then _ else _) = _
        simp only [decide_eq_true_eq]
        rfl
      · rw [set, value, comparedResult_eq notLast]
    · exact generateConstraints_refuses lawful inside here date fails pm vars

end Agreement

section Keys
variable {F D : Type} [Field F] [PrimeOrder F] [DecidableEq F] [Inhabited D] [DecidableEq D]
variable {c : ZkDbSqlCircuit F} {cmp : CmpGadget F D} {overflowChecks : Bool}

omit [PrimeOrder F] [Inhabited D] in
/-- All rows have the same constraints. -/
theorem generateConstraints_alike (uniform : cmp.Uniform) (shaped : c.Shaped) {i r : Nat}
    (inside : i < c.params.numRows) (inside' : r < c.params.numRows) :
    Alike .rom 1 (generateConstraints cmp c i) (generateConstraints cmp c r) fun _ _ => True := by
  have found {j : Nat} (below : j < c.params.numRows) : ∃ row lhs,
      c.lineitemTable[j]? = some row ∧ row[6]? = some lhs := by
    rw [← shaped.rows] at below
    have wide := shaped.columns _ (List.getElem_mem below)
    exact ⟨_, _, List.getElem?_eq_getElem below, List.getElem?_eq_getElem wide⟩
  obtain ⟨row, lhs, here, date⟩ := found inside
  obtain ⟨row', lhs', here', date'⟩ := found inside'
  rw [generateConstraints, generateConstraints, if_pos inside, if_pos inside', here, here']
  apply Alike.lift_bind (Parallel.lift (R := fun x y => x = row ∧ y = row') rfl rfl ⟨rfl, rfl⟩)
  rintro _ _ ⟨rfl, rfl⟩
  rw [date, date']
  apply Alike.lift_bind (Parallel.lift (R := fun _ _ => True) rfl rfl trivial)
  intro x y _
  apply Alike.lift_bind Parallel.newVariable
  rintro lhsVar _ rfl
  apply Alike.lift_bind (uniform lhsVar (.constant c.rightShipdate) .lt true)
  rintro isLess _ rfl
  apply Alike.lift_bind (Parallel.define _)
  rintro result _ rfl
  exact Alike.set _ _ result

variable {gadget : TreeConfigGadget F D} {traces : List (List (TranscriptEntry F .rom))}
variable {i r : Nat} {p p' : SubcircuitWithPortalsProver F D .rom}

theorem recorded_lengths (shaped : c.Shaped) (recorded : getPortalSubtraces D c = .ok traces) :
    traces.map List.length = List.replicate c.params.numRows 1 := by
  obtain ⟨native, run, rows⟩ := nativeManager_recorded (D := D) shaped
  rw [getPortalSubtraces, run, ok_bind] at recorded
  cases recorded
  exact rows.lengths

theorem recorded_length (shaped : c.Shaped) (recorded : getPortalSubtraces D c = .ok traces)
    {subtrace : List (TranscriptEntry F .rom)} (found : traces[i]? = some subtrace) :
    subtrace.length = 1 := by
  have lengths := congrArg (·[i]?) (recorded_lengths shaped recorded)
  simp only [List.getElem?_map, found, Option.map_some] at lengths
  exact (List.eq_of_mem_replicate (List.mem_of_getElem? lengths.symm))

theorem recorded_found (shaped : c.Shaped) (recorded : getPortalSubtraces D c = .ok traces)
    (inside : i < c.params.numRows) : ∃ subtrace, traces[i]? = some subtrace := by
  have count := congrArg List.length (recorded_lengths shaped recorded)
  rw [List.length_map, List.length_replicate] at count
  exact ⟨_, List.getElem?_eq_getElem (by rwa [count])⟩

theorem rows_comparable (uniform : cmp.Uniform) (shaped : c.Shaped)
    (recorded : getPortalSubtraces D c = .ok traces) (inside : i < c.params.numRows)
    (inside' : r < c.params.numRows)
    (assigned : Assigned (circuit overflowChecks cmp c) traces i p)
    (assigned' : Assigned (circuit overflowChecks cmp c) traces r p') : Comparable p p' :=
  comparable assigned assigned' rfl (recorded_length shaped recorded assigned.time)
    (recorded_length shaped recorded assigned'.time)
    (generateConstraints_alike uniform shaped inside inside')

/-- The key of subcircuit `i` is that of a listed, valid representative. -/
def SharesKey (overflowChecks : Bool) (gadget : TreeConfigGadget F D) (cmp : CmpGadget F D)
    (c : ZkDbSqlCircuit F) (i : Nat) : Prop :=
  (∀ u ∈ getUniqueSubcircuits, u < numSubcircuits c) ∧
  ∃ r, representativeSubcircuit overflowChecks c i = .ok r ∧ r ∈ getUniqueSubcircuits ∧
    ∀ traces p p', getPortalSubtraces D c = .ok traces →
      Assigned (circuit overflowChecks cmp c) traces i p →
      Assigned (circuit overflowChecks cmp c) traces r p' → SameStages gadget p p'

omit [Field F] [PrimeOrder F] [DecidableEq F] in
/-- The representative of the last row is row 3, of the inner rows row 1. -/
theorem representative_eq (inside : i < c.params.numRows) :
    representativeSubcircuit overflowChecks c i =
      .ok (if i = 0 then 0 else if i + 1 = c.params.numRows then 3 else 1) := by
  have last : TreeIndexing.subBits overflowChecks 64 c.params.numRows 1 =
      .ok (c.params.numRows - 1) := TreeIndexing.subBits_eq (by omega)
  rw [representativeSubcircuit, last, ok_bind]
  by_cases first : i = 0
  · rw [if_pos first, if_pos first]
  · rw [if_neg first, if_neg first]
    by_cases here : i + 1 = c.params.numRows
    · rw [if_pos here, if_pos (by omega)]
    · rw [if_neg here, if_neg (by omega)]

/-- Of more than four rows, row 3 lacks the check of the last row that it represents. -/
theorem last_differs (lawful : gadget.Lawful) (uniform : cmp.Uniform) (shaped : c.Shaped)
    (many : 4 < c.params.numRows) (last : i + 1 = c.params.numRows) :
    ¬ SharesKey overflowChecks gadget cmp c i := by
  rintro ⟨_, r, representative, _, same⟩
  have inside : i < c.params.numRows := by omega
  rw [representative_eq inside, if_neg (by omega), if_pos last] at representative
  cases representative
  obtain ⟨native, run, _⟩ := nativeManager_recorded (D := D) shaped
  have recorded : getPortalSubtraces D c = .ok native.subtraces := by
    rw [getPortalSubtraces, run, ok_bind]
  obtain ⟨subtrace, found⟩ := recorded_found shaped recorded inside
  obtain ⟨subtrace', found'⟩ := recorded_found (i := 3) shaped recorded (by omega)
  have assigned : Assigned (circuit overflowChecks cmp c) _ i _ := proverOf_assigned found
  have assigned' : Assigned (circuit overflowChecks cmp c) _ 3 _ := proverOf_assigned found'
  have comparable := rows_comparable uniform shaped recorded inside (by omega) assigned assigned'
  refine not_same_of_last lawful assigned assigned' comparable (by omega) ?_ ?_
    (same _ _ _ recorded assigned assigned')
  · exact Nat.eq_sub_of_add_eq last
  · change 3 ≠ c.params.numRows - 1
    omega

end Keys

theorem shaped_new {F : Type} [Field F] (params : ZkDbSqlCircuitParams) :
    (ZkDbSqlCircuit.new params : ZkDbSqlCircuit F).Shaped where
  rows := List.length_replicate
  columns row listed := by
    rw [List.eq_of_mem_replicate listed, List.length_replicate]

def directBls : CmpGadget Bls12381Fr (FreeDigest Bls12381Fr) := directCmp _ _

theorem directBls_lawful : directBls.Lawful := directCmp_lawful

/-- A manager in its first subtrace. -/
def startedManager : SetupRomPortalManager Bls12381Fr := SetupRomPortalManager.new.startSubtrace

/-- In a table of ones the first row sets what the native trace records. -/
theorem newTable_agrees : ∃ native : SetupRomPortalManager Bls12381Fr,
    nativeManager (FreeDigest Bls12381Fr) (.new ⟨2⟩) = .ok native ∧
      valueOf native (resultName 0) = some 1 ∧
      Decides [] ((generateConstraints directBls (.new ⟨2⟩) 0).run startedManager) True
        fun _ r => valueOf r.2 (resultName 0) = valueOf native (resultName 0) := by
  obtain ⟨native, run, _, rows⟩ := comparisons_agree directBls_lawful (shaped_new ⟨2⟩)
  obtain ⟨row, lhs, here, date, recorded, agrees⟩ := rows 0 (by decide)
  cases here
  cases date
  refine ⟨native, run, recorded, ?_⟩
  have set := (agrees startedManager (List.cons_ne_nil _ _) rfl []).1 (by decide +kernel)
    (by decide +kernel)
  exact set.mono fun _ _ both => both.2 (by decide +kernel)

/-- One row with the largest date. -/
def largeDate : ZkDbSqlCircuit Bls12381Fr := ⟨[[1, 1, 1, 1, 1, 1, -1]], 1, ⟨1⟩⟩

/-- The date compares like any other in the native trace, but no row holds it. -/
theorem largeDate_unsatisfied : ∃ r e,
    (generateConstraints directBls largeDate 0).run startedManager [] = .ok (r, e) ∧
      ¬ e.Satisfied (assignmentOf e.allocations) := by
  have large : ¬ CmpApplies .lt true (-1 : Bls12381Fr) 1 := by decide +kernel
  have refuses := generateConstraints_refuses (c := largeDate) directBls_lawful (i := 0)
    (by decide) rfl rfl large startedManager []
  have ran : ((generateConstraints directBls largeDate 0).run startedManager []).isOk = true := by
    decide +kernel
  have run := eq_ok_result ran
  refine ⟨_, _, run, fun satisfied => refuses _ _ run [] ?_⟩
  rwa [List.append_nil, List.nil_append]

end FilterCircuit
