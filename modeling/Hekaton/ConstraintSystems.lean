import Hekaton.LinearCombinations
import Hekaton.Outcomes

/-!
# Constraint systems built in stages

A rank-1 constraint system with its assignment, and the wrapper that records which
witnesses each stage allocates. A synthesis closure returns its result together with the
system it leaves behind, which is kept when the closure fails. A staged circuit lists the
allocations and constraints of each stage; its values are not looked at in setup mode.
-/

namespace ConstraintSystems

open LinearCombinations Outcomes

/-- Input 0 is the constant one. -/
inductive Column where
  | input (i : Nat)
  | witness (i : Nat)
  deriving DecidableEq, Repr

abbrev LinearCombination (F : Type) := List (F × Column)

/-- The row `a * b = c`. -/
structure Constraint (F : Type) where
  a : LinearCombination F
  b : LinearCombination F
  c : LinearCombination F

structure ConstraintSystem (F : Type) where
  /-- No assignment is kept in setup mode. -/
  setupMode : Bool
  numInstanceVariables : Nat
  numWitnessVariables : Nat
  instanceAssignment : List F
  witnessAssignment : List F
  constraints : List (Constraint F)

section Evaluation
variable {F : Type}

def Column.assigned (instances witnesses : List F) : Column → Option F
  | .input i => instances[i]?
  | .witness i => witnesses[i]?

/-- The position in the full assignment. -/
def Column.index (numInstances : Nat) : Column → Nat
  | .input i => i
  | .witness i => numInstances + i

/-- Whether the variable has been allocated. -/
def Column.Allocated (numInstances numWitnesses : Nat) : Column → Prop
  | .input i => i < numInstances
  | .witness i => i < numWitnesses

variable [Field F]

def evalLc (instances witnesses : List F) : LinearCombination F → Outcome F
  | [] => .ok 0
  | (coeff, column) :: lc =>
    match column.assigned instances witnesses with
    | none => .error .assignmentMissing
    | some value => do
      let rest ← evalLc instances witnesses lc
      .ok (coeff * value + rest)

variable [DecidableEq F]

def rowsSatisfied (instances witnesses : List F) : List (Constraint F) → Outcome Bool
  | [] => .ok true
  | row :: rows => do
    let a ← evalLc instances witnesses row.a
    let b ← evalLc instances witnesses row.b
    let c ← evalLc instances witnesses row.c
    if a * b = c then rowsSatisfied instances witnesses rows else .ok false

end Evaluation

namespace ConstraintSystem
variable {F : Type}

def new [Field F] : ConstraintSystem F := ⟨false, 1, 0, [1], [], []⟩

def setMode (cs : ConstraintSystem F) (setupMode : Bool) : ConstraintSystem F :=
  { cs with setupMode := setupMode }

def numConstraints (cs : ConstraintSystem F) : Nat := cs.constraints.length

def newInputVariable (cs : ConstraintSystem F) (value : F) : ConstraintSystem F :=
  { cs with
    numInstanceVariables := cs.numInstanceVariables + 1
    instanceAssignment :=
      if cs.setupMode then cs.instanceAssignment else cs.instanceAssignment ++ [value] }

def newWitnessVariable (cs : ConstraintSystem F) (value : F) : ConstraintSystem F :=
  { cs with
    numWitnessVariables := cs.numWitnessVariables + 1
    witnessAssignment :=
      if cs.setupMode then cs.witnessAssignment else cs.witnessAssignment ++ [value] }

def enforceConstraint (cs : ConstraintSystem F) (row : Constraint F) : ConstraintSystem F :=
  { cs with constraints := cs.constraints ++ [row] }

def fullAssignment (cs : ConstraintSystem F) : List F :=
  cs.instanceAssignment ++ cs.witnessAssignment

def isSatisfied [Field F] [DecidableEq F] (cs : ConstraintSystem F) : Outcome Bool :=
  if cs.setupMode then .error .assignmentMissing
  else rowsSatisfied cs.instanceAssignment cs.witnessAssignment cs.constraints

/-- Every variable that a row mentions has been allocated. -/
def Scoped (cs : ConstraintSystem F) : Prop :=
  ∀ row ∈ cs.constraints, ∀ term ∈ row.a ++ row.b ++ row.c,
    term.2.Allocated cs.numInstanceVariables cs.numWitnessVariables

/-- Every variable has a value, the first one the value one. -/
structure Complete [Field F] (cs : ConstraintSystem F) : Prop where
  one : cs.instanceAssignment.head? = some 1
  instances : cs.instanceAssignment.length = cs.numInstanceVariables
  witnesses : cs.witnessAssignment.length = cs.numWitnessVariables

/-- The same variables and rows, whatever the values. -/
structure SameShape (cs cs' : ConstraintSystem F) : Prop where
  instances : cs.numInstanceVariables = cs'.numInstanceVariables
  witnesses : cs.numWitnessVariables = cs'.numWitnessVariables
  constraints : cs.constraints = cs'.constraints

end ConstraintSystem

structure MultiStageConstraintSystem (F : Type) where
  cs : ConstraintSystem F
  /-- The witnesses of stage `i` are those from the first to before the second number. -/
  variableRangeForStage : List (Nat × Nat)

namespace MultiStageConstraintSystem
variable {F : Type}

def new [Field F] : MultiStageConstraintSystem F := ⟨.new, []⟩

def initializeStage (mscs : MultiStageConstraintSystem F) : MultiStageConstraintSystem F :=
  let start := mscs.cs.numWitnessVariables
  { mscs with variableRangeForStage := mscs.variableRangeForStage ++ [(start, start)] }

def finalizeStage (mscs : MultiStageConstraintSystem F) :
    Outcome (MultiStageConstraintSystem F) := do
  let range ← expect unwrapNone mscs.variableRangeForStage.getLast?
  .ok { mscs with variableRangeForStage :=
    mscs.variableRangeForStage.dropLast ++ [(range.1, mscs.cs.numWitnessVariables)] }

/-- A closure that fails leaves the range of its stage open. -/
def synthesizeWith (mscs : MultiStageConstraintSystem F)
    (constraints : ConstraintSystem F → Outcome Unit × ConstraintSystem F) :
    Outcome Unit × MultiStageConstraintSystem F :=
  let opened := mscs.initializeStage
  match constraints opened.cs with
  | (.error fault, cs) => (.error fault, { opened with cs := cs })
  | (.ok (), cs) =>
    match finalizeStage { opened with cs := cs } with
    | .error fault => (.error fault, { opened with cs := cs })
    | .ok mscs => (.ok (), mscs)

/-- `l[start..stop]`, which panics past the end. -/
def sliced {α : Type} (l : List α) (range : Nat × Nat) : Outcome (List α) :=
  if range.2 < range.1 then panicWith "slice index starts past its end"
  else if l.length < range.2 then panicWith "range end index out of range for slice"
  else .ok (slice l range.1 range.2)

def currentStageWitnessAssignment (mscs : MultiStageConstraintSystem F) : Outcome (List F) := do
  let range ← expect unwrapNone mscs.variableRangeForStage.getLast?
  sliced mscs.cs.witnessAssignment range

end MultiStageConstraintSystem

/-- What a circuit does to the constraint system in each stage. -/
structure MultiStageConstraintSynthesizer (F : Type) where
  totalNumStages : Nat
  generateConstraints : Nat → MultiStageConstraintSystem F →
    Outcome Unit × MultiStageConstraintSystem F

namespace MultiStageConstraintSynthesizer
variable {F : Type}

def lastStage (circuit : MultiStageConstraintSynthesizer F) : Nat := circuit.totalNumStages - 1

/-- The system after a stage, when the stage succeeds. -/
def runStage (circuit : MultiStageConstraintSynthesizer F)
    (mscs : MultiStageConstraintSystem F) (stage : Nat) :
    Outcome (MultiStageConstraintSystem F) :=
  match circuit.generateConstraints stage mscs with
  | (.ok (), mscs) => .ok mscs
  | (.error fault, _) => .error fault

end MultiStageConstraintSynthesizer

inductive Step (F : Type) where
  | newInput (value : F)
  | newWitness (value : F)
  | enforce (row : Constraint F)

section Steps
variable {F : Type}

def Step.apply (cs : ConstraintSystem F) : Step F → ConstraintSystem F
  | .newInput value => cs.newInputVariable value
  | .newWitness value => cs.newWitnessVariable value
  | .enforce row => cs.enforceConstraint row

def inputs : List (Step F) → List F
  | [] => []
  | .newInput value :: steps => value :: inputs steps
  | .newWitness _ :: steps => inputs steps
  | .enforce _ :: steps => inputs steps

def witnesses : List (Step F) → List F
  | [] => []
  | .newInput _ :: steps => witnesses steps
  | .newWitness value :: steps => value :: witnesses steps
  | .enforce _ :: steps => witnesses steps

def rows : List (Step F) → List (Constraint F)
  | [] => []
  | .newInput _ :: steps => rows steps
  | .newWitness _ :: steps => rows steps
  | .enforce row :: steps => row :: rows steps

/-- A row mentions only what is allocated before it. -/
def ScopedSteps (numInstances numWitnesses : Nat) : List (Step F) → Prop
  | [] => True
  | .newInput _ :: steps => ScopedSteps (numInstances + 1) numWitnesses steps
  | .newWitness _ :: steps => ScopedSteps numInstances (numWitnesses + 1) steps
  | .enforce row :: steps =>
    (∀ term ∈ row.a ++ row.b ++ row.c, term.2.Allocated numInstances numWitnesses) ∧
    ScopedSteps numInstances numWitnesses steps

/-- The same allocations and rows in the same order, whatever the values. -/
inductive SameStep : Step F → Step F → Prop where
  | newInput {value value' : F} : SameStep (.newInput value) (.newInput value')
  | newWitness {value value' : F} : SameStep (.newWitness value) (.newWitness value')
  | enforce {row : Constraint F} : SameStep (.enforce row) (.enforce row)

end Steps

/-- A circuit whose stages allocate and constrain as listed. -/
structure StagedCircuit (F : Type) where
  stages : List (List (Step F))
  inScope : ScopedSteps 1 0 stages.flatten

def unexpectedStage : String := "unexpected stage"

def StagedCircuit.synthesizer {F : Type} (circuit : StagedCircuit F) :
    MultiStageConstraintSynthesizer F where
  totalNumStages := circuit.stages.length
  generateConstraints stage mscs :=
    match circuit.stages[stage]? with
    | some steps => mscs.synthesizeWith fun cs => (.ok (), steps.foldl Step.apply cs)
    | none => (panicWith unexpectedStage, mscs)

/-- The system that all stages build, with its assignment. -/
def StagedCircuit.assigned {F : Type} [Field F] (circuit : StagedCircuit F) : ConstraintSystem F :=
  circuit.stages.flatten.foldl Step.apply .new

section Steps
variable {F : Type}

theorem inputs_append (steps steps' : List (Step F)) :
    inputs (steps ++ steps') = inputs steps ++ inputs steps' := by
  induction steps with
  | nil => rfl
  | cons step steps ih => cases step <;> simp [inputs, ih]

theorem witnesses_append (steps steps' : List (Step F)) :
    witnesses (steps ++ steps') = witnesses steps ++ witnesses steps' := by
  induction steps with
  | nil => rfl
  | cons step steps ih => cases step <;> simp [witnesses, ih]

theorem rows_append (steps steps' : List (Step F)) :
    rows (steps ++ steps') = rows steps ++ rows steps' := by
  induction steps with
  | nil => rfl
  | cons step steps ih => cases step <;> simp [rows, ih]

theorem ScopedSteps.of_append {n m : Nat} {steps steps' : List (Step F)}
    (inScope : ScopedSteps n m (steps ++ steps')) : ScopedSteps n m steps := by
  induction steps generalizing n m with
  | nil => trivial
  | cons step steps ih =>
    cases step with
    | newInput value => exact ih (n := n + 1) inScope
    | newWitness value => exact ih (m := m + 1) inScope
    | enforce row => exact ⟨inScope.1, ih inScope.2⟩

theorem Column.Allocated.mono {column : Column} {n m n' m' : Nat} (allocated : column.Allocated n m)
    (instances : n ≤ n') (witnesses : m ≤ m') : column.Allocated n' m' := by
  cases column with
  | input i => exact Nat.lt_of_lt_of_le allocated instances
  | witness i => exact Nat.lt_of_lt_of_le allocated witnesses

/-- In the end every row is in the scope of all allocations. -/
theorem ScopedSteps.rows {n m : Nat} {steps : List (Step F)} (inScope : ScopedSteps n m steps) :
    ∀ row ∈ rows steps, ∀ term ∈ row.a ++ row.b ++ row.c,
      term.2.Allocated (n + (inputs steps).length) (m + (witnesses steps).length) := by
  induction steps generalizing n m with
  | nil =>
    intro row absent
    cases absent
  | cons step steps ih =>
    cases step with
    | newInput value =>
      intro row member term mention
      refine (ih inScope row member term mention).mono ?_ (Nat.le_refl _)
      simp only [inputs, List.length_cons]
      omega
    | newWitness value =>
      intro row member term mention
      refine (ih inScope row member term mention).mono (Nat.le_refl _) ?_
      simp only [witnesses, List.length_cons]
      omega
    | enforce row =>
      intro row' member term mention
      rcases List.mem_cons.mp member with rfl | later
      · exact (inScope.1 term mention).mono (Nat.le_add_right _ _) (Nat.le_add_right _ _)
      · exact ih inScope.2 row' later term mention

variable [Field F]

/-- The system that the steps build from an empty one. -/
def ofSteps (setupMode : Bool) (steps : List (Step F)) : ConstraintSystem F where
  setupMode := setupMode
  numInstanceVariables := 1 + (inputs steps).length
  numWitnessVariables := (witnesses steps).length
  instanceAssignment := 1 :: if setupMode then [] else inputs steps
  witnessAssignment := if setupMode then [] else witnesses steps
  constraints := rows steps

theorem foldl_apply (setupMode : Bool) (steps steps' : List (Step F)) :
    steps'.foldl Step.apply (ofSteps setupMode steps) = ofSteps setupMode (steps ++ steps') := by
  induction steps' generalizing steps with
  | nil => rw [List.append_nil, List.foldl_nil]
  | cons step steps' ih =>
    have one : Step.apply (ofSteps setupMode steps) step = ofSteps setupMode (steps ++ [step]) := by
      cases step <;> cases setupMode <;>
        simp [Step.apply, ofSteps, ConstraintSystem.newInputVariable,
          ConstraintSystem.newWitnessVariable, ConstraintSystem.enforceConstraint, inputs_append,
          witnesses_append, rows_append, inputs, witnesses, rows, Nat.add_assoc]
    rw [List.foldl_cons, one, ih, List.append_assoc, List.singleton_append]

theorem assigned_eq (circuit : StagedCircuit F) :
    circuit.assigned = ofSteps false circuit.stages.flatten := by
  have built := foldl_apply false [] circuit.stages.flatten
  rwa [List.nil_append] at built

theorem ofSteps_complete (steps : List (Step F)) : (ofSteps false steps).Complete where
  one := rfl
  instances := by simp [ofSteps, Nat.add_comm]
  witnesses := rfl

theorem ofSteps_scoped {steps : List (Step F)} (inScope : ScopedSteps 1 0 steps)
    (setupMode : Bool) : (ofSteps setupMode steps).Scoped := by
  intro row member term mention
  have allocated := inScope.rows row member term mention
  rwa [Nat.zero_add] at allocated

end Steps

section Stages
variable {F : Type}

/-- The ranges of the stages, from the first free witness on. -/
def rangesFrom (start : Nat) : List (List (Step F)) → List (Nat × Nat)
  | [] => []
  | steps :: stages =>
    (start, start + (witnesses steps).length) ::
      rangesFrom (start + (witnesses steps).length) stages

theorem rangesFrom_append (start : Nat) (stages stages' : List (List (Step F))) :
    rangesFrom start (stages ++ stages') = rangesFrom start stages ++
      rangesFrom (start + (witnesses stages.flatten).length) stages' := by
  induction stages generalizing start with
  | nil => rfl
  | cons steps stages ih =>
    rw [List.cons_append, rangesFrom, rangesFrom, ih, List.cons_append, List.flatten_cons,
      witnesses_append, List.length_append, Nat.add_assoc]

theorem rangesFrom_consecutive (start : Nat) (stages : List (List (Step F))) :
    Consecutive start (rangesFrom start stages)
      (start + (witnesses stages.flatten).length) := by
  induction stages generalizing start with
  | nil => rfl
  | cons steps stages ih =>
    have rest := ih (start + (witnesses steps).length)
    rw [List.flatten_cons, witnesses_append, List.length_append, ← Nat.add_assoc]
    exact ⟨rfl, Nat.le_add_right _ _, rest⟩

variable [Field F]

/-- The staged system after the stages. -/
def afterStages (setupMode : Bool) (stages : List (List (Step F))) :
    MultiStageConstraintSystem F :=
  ⟨ofSteps setupMode stages.flatten, rangesFrom 0 stages⟩

/-- One stage of a staged circuit always succeeds. -/
theorem runStage_eq {circuit : StagedCircuit F} {before after : List (List (Step F))}
    {steps : List (Step F)} (split : circuit.stages = before ++ steps :: after)
    (setupMode : Bool) :
    circuit.synthesizer.runStage (afterStages setupMode before) before.length =
      .ok (afterStages setupMode (before ++ [steps])) := by
  have found : circuit.stages[before.length]? = some steps := by
    rw [split, List.getElem?_append_right (Nat.le_refl _), Nat.sub_self]
    rfl
  have ranges : rangesFrom 0 (before ++ [steps]) = rangesFrom 0 before ++
      [((witnesses before.flatten).length, (witnesses (before ++ [steps]).flatten).length)] := by
    rw [rangesFrom_append, Nat.zero_add, List.flatten_append, witnesses_append,
      List.length_append]
    simp [rangesFrom]
  have built : (before ++ [steps]).flatten = before.flatten ++ steps := by simp
  rw [MultiStageConstraintSynthesizer.runStage]
  simp only [StagedCircuit.synthesizer, found, MultiStageConstraintSystem.synthesizeWith,
    MultiStageConstraintSystem.initializeStage, MultiStageConstraintSystem.finalizeStage,
    afterStages, foldl_apply, List.getLast?_append, List.getLast?_singleton, Option.some_or,
    expect_some, ok_bind, List.dropLast_concat, ranges, built]
  rfl

/-- The witnesses of the last stage are read back. -/
theorem currentStageWitnessAssignment_eq (before : List (List (Step F))) (steps : List (Step F)) :
    (afterStages false (before ++ [steps])).currentStageWitnessAssignment =
      .ok (witnesses steps) := by
  have last : (afterStages false (before ++ [steps])).variableRangeForStage.getLast? =
      some ((witnesses before.flatten).length,
        (witnesses before.flatten).length + (witnesses steps).length) := by
    simp [afterStages, rangesFrom_append, rangesFrom]
  have all : (afterStages false (before ++ [steps])).cs.witnessAssignment =
      witnesses before.flatten ++ witnesses steps := by
    simp [afterStages, ofSteps, witnesses_append]
  rw [MultiStageConstraintSystem.currentStageWitnessAssignment, last, all, expect_some, ok_bind,
    MultiStageConstraintSystem.sliced, if_neg (by simp), if_neg (by simp), slice,
    List.take_of_length_le (by simp), List.drop_left]

end Stages

section Satisfaction
variable {F : Type} [Field F]

/-- Later allocations do not change the value of a row already in scope. -/
theorem evalLc_append {instances more witnesses more' : List F} {lc : LinearCombination F}
    (allocated : ∀ term ∈ lc, term.2.Allocated instances.length witnesses.length) :
    evalLc (instances ++ more) (witnesses ++ more') lc = evalLc instances witnesses lc := by
  induction lc with
  | nil => rfl
  | cons term lc ih =>
    obtain ⟨coeff, column⟩ := term
    have same : column.assigned (instances ++ more) (witnesses ++ more') =
        column.assigned instances witnesses := by
      have here := allocated (coeff, column) List.mem_cons_self
      cases column with
      | input i => exact List.getElem?_append_left here
      | witness i => exact List.getElem?_append_left here
    rw [evalLc, evalLc, same, ih fun term mention => allocated term (List.mem_cons_of_mem _ mention)]

variable [DecidableEq F]

theorem rowsSatisfied_iff {instances witnesses : List F} {rows : List (Constraint F)} :
    rowsSatisfied instances witnesses rows = .ok true ↔ ∀ row ∈ rows, ∃ a b c,
      evalLc instances witnesses row.a = .ok a ∧ evalLc instances witnesses row.b = .ok b ∧
      evalLc instances witnesses row.c = .ok c ∧ a * b = c := by
  induction rows with
  | nil => simp [rowsSatisfied]
  | cons row rows ih =>
    rw [rowsSatisfied, List.forall_mem_cons, ← ih]
    simp only [bind_eq_ok]
    constructor
    · rintro ⟨a, ha, b, hb, c, hc, rest⟩
      split at rest
      · rename_i holds
        exact ⟨⟨a, b, c, ha, hb, hc, holds⟩, rest⟩
      · cases rest
    · rintro ⟨⟨a, b, c, ha, hb, hc, holds⟩, rest⟩
      exact ⟨a, ha, b, hb, c, hc, by rw [if_pos holds, rest]⟩

/-- The rows of the first stages are satisfied by the values allocated so far. -/
theorem isSatisfied_of_append {steps steps' : List (Step F)}
    (inScope : ScopedSteps 1 0 (steps ++ steps'))
    (satisfied : (ofSteps false (steps ++ steps')).isSatisfied = .ok true) :
    (ofSteps false steps).isSatisfied = .ok true := by
  have allocated := inScope.of_append.rows
  have all := rowsSatisfied_iff.mp satisfied
  refine rowsSatisfied_iff.mpr fun row member => ?_
  have early : row ∈ rows (steps ++ steps') := by
    rw [rows_append]
    exact List.mem_append_left _ member
  obtain ⟨a, b, c, ha, hb, hc, holds⟩ := all row early
  have same : ∀ lc, (∀ term ∈ lc, term ∈ row.a ++ row.b ++ row.c) →
      evalLc (1 :: inputs (steps ++ steps')) (witnesses (steps ++ steps')) lc =
        evalLc (1 :: inputs steps) (witnesses steps) lc := by
    intro lc within
    rw [inputs_append, witnesses_append, ← List.cons_append]
    refine evalLc_append fun term mention => ?_
    have here := allocated row member term (within term mention)
    rwa [Nat.zero_add, Nat.add_comm] at here
  refine ⟨a, b, c, ?_, ?_, ?_, holds⟩
  · rw [← ha]
    exact (same row.a fun term mention => by simp [mention]).symm
  · rw [← hb]
    exact (same row.b fun term mention => by simp [mention]).symm
  · rw [← hc]
    exact (same row.c fun term mention => by simp [mention]).symm

end Satisfaction

section Shapes
variable {F : Type}

theorem same_inputs {steps steps' : List (Step F)} (same : List.Forall₂ SameStep steps steps') :
    (inputs steps).length = (inputs steps').length := by
  induction same with
  | nil => rfl
  | cons first _ ih => cases first <;> simp [inputs, ih]

theorem same_witnesses {steps steps' : List (Step F)}
    (same : List.Forall₂ SameStep steps steps') :
    (witnesses steps).length = (witnesses steps').length := by
  induction same with
  | nil => rfl
  | cons first _ ih => cases first <;> simp [witnesses, ih]

theorem same_rows {steps steps' : List (Step F)} (same : List.Forall₂ SameStep steps steps') :
    rows steps = rows steps' := by
  induction same with
  | nil => rfl
  | cons first _ ih => cases first <;> simp [rows, ih]

theorem same_flatten {stages stages' : List (List (Step F))}
    (same : List.Forall₂ (List.Forall₂ SameStep) stages stages') :
    List.Forall₂ SameStep stages.flatten stages'.flatten := by
  induction same with
  | nil => exact .nil
  | cons first _ ih => exact List.rel_append first ih

/-- Ranges depend on the shape alone. -/
theorem same_ranges {stages stages' : List (List (Step F))}
    (same : List.Forall₂ (List.Forall₂ SameStep) stages stages') (start : Nat) :
    rangesFrom start stages = rangesFrom start stages' := by
  induction same generalizing start with
  | nil => rfl
  | cons first _ ih => rw [rangesFrom, rangesFrom, same_witnesses first, ih]

theorem ofSteps_sameShape [Field F] {steps steps' : List (Step F)}
    (same : List.Forall₂ SameStep steps steps') (setupMode setupMode' : Bool) :
    (ofSteps setupMode steps).SameShape (ofSteps setupMode' steps') where
  instances := congrArg (1 + ·) (same_inputs same)
  witnesses := same_witnesses same
  constraints := same_rows same

end Shapes

end ConstraintSystems
