import Hekaton.ConstraintSystems
import Mathlib

/-!
# Stage ranges over runs of calls

Each call of `synthesize_with` opens a range, and closes it only when its closure succeeds. A
closure that allocates witnesses and then fails leaves an empty range behind and the witnesses
outside of every range. An allocation whose value cannot be computed counts a witness that has
no value. So the ranges are those of the witnesses exactly in runs without such calls. In setup
mode no values are kept, so none can be read back.
-/

namespace StageRanges

open Outcomes ConstraintSystems LinearCombinations MultiStageConstraintSystem

/-- What a closure does to the system, with the outcomes of the value functions it passes on. -/
inductive ClosureStep (F : Type) where
  | newInput (value : Outcome F)
  | newWitness (value : Outcome F)
  | enforce (row : Constraint F)

/-- A closure looks at the system, allocates and constrains, and returns. -/
structure Closure (F : Type) where
  steps : ConstraintSystem F → List (ClosureStep F)
  result : ConstraintSystem F → Outcome Unit

section Model
variable {F : Type}

/-- A variable is counted before its value is asked for. -/
def ClosureStep.apply (cs : ConstraintSystem F) : ClosureStep F → ConstraintSystem F
  | .newInput (.ok value) => cs.newInputVariable value
  | .newInput (.error _) => { cs with numInstanceVariables := cs.numInstanceVariables + 1 }
  | .newWitness (.ok value) => cs.newWitnessVariable value
  | .newWitness (.error _) => { cs with numWitnessVariables := cs.numWitnessVariables + 1 }
  | .enforce row => cs.enforceConstraint row

/-- The outcomes of the values of the witnesses. -/
def allocations : List (ClosureStep F) → List (Outcome F)
  | [] => []
  | .newInput _ :: steps => allocations steps
  | .newWitness value :: steps => value :: allocations steps
  | .enforce _ :: steps => allocations steps

def Closure.call (constraints : Closure F) (cs : ConstraintSystem F) :
    Outcome Unit × ConstraintSystem F :=
  (constraints.result cs, (constraints.steps cs).foldl ClosureStep.apply cs)

/-- The witnesses that a closure allocates on this system. -/
def Closure.allocated (constraints : Closure F) (cs : ConstraintSystem F) : List (Outcome F) :=
  allocations (constraints.steps cs)

/-- The system after calls, whether they succeeded or not. -/
def afterCalls [Field F] (setupMode : Bool) (calls : List (Closure F)) :
    MultiStageConstraintSystem F :=
  calls.foldl (fun mscs constraints => (mscs.synthesizeWith constraints.call).2)
    ⟨ConstraintSystem.new.setMode setupMode, []⟩

/-- After the last call the ranges are those of the witnesses, and its own are read back. -/
def Kept [Field F] (setupMode : Bool) (before : List (Closure F)) (last : Closure F) : Prop :=
  let mscs := afterCalls setupMode (before ++ [last])
  Consecutive 0 mscs.variableRangeForStage mscs.cs.numWitnessVariables ∧
    ∃ values, mscs.currentStageWitnessAssignment = .ok values ∧
      last.allocated (afterCalls setupMode before).cs = values.map Except.ok

/-- The last call succeeds or allocates no witness, as it must where no values are kept, and
every witness gets its value. -/
def Closes [Field F] (setupMode : Bool) (before : List (Closure F)) (last : Closure F) : Prop :=
  let cs := (afterCalls setupMode before).cs
  (last.result cs = .ok () ∨ last.allocated cs = []) ∧
    (setupMode = true → last.allocated cs = []) ∧
    ∀ value ∈ last.allocated cs, ∃ v, value = .ok v

end Model

section Facts
variable {F : Type} {cs : ConstraintSystem F} {mscs : MultiStageConstraintSystem F}

/-- What steps do to the witnesses of any system. -/
theorem foldl_witnesses (steps : List (ClosureStep F)) (cs : ConstraintSystem F) :
    (steps.foldl ClosureStep.apply cs).setupMode = cs.setupMode ∧
    (steps.foldl ClosureStep.apply cs).numWitnessVariables =
      cs.numWitnessVariables + (allocations steps).length ∧
    (steps.foldl ClosureStep.apply cs).witnessAssignment = cs.witnessAssignment ++
      if cs.setupMode then [] else (allocations steps).filterMap Except.toOption := by
  induction steps generalizing cs with
  | nil => simp [allocations]
  | cons step steps ih =>
    obtain ⟨mode, count, values⟩ := ih (step.apply cs)
    rw [List.foldl_cons, mode, count, values]
    cases step with
    | newInput value => cases value <;> exact ⟨rfl, rfl, rfl⟩
    | enforce row => exact ⟨rfl, rfl, rfl⟩
    | newWitness value =>
      have one : cs.numWitnessVariables + 1 + (allocations steps).length =
          cs.numWitnessVariables + ((allocations steps).length + 1) := by omega
      cases value with
      | error fault => exact ⟨rfl, one, rfl⟩
      | ok v =>
        refine ⟨rfl, one, ?_⟩
        by_cases setup : cs.setupMode = true
        · simp [ClosureStep.apply, ConstraintSystem.newWitnessVariable, setup]
        · simp [ClosureStep.apply, ConstraintSystem.newWitnessVariable, allocations, setup,
            Except.toOption]

theorem filterMap_map_ok (values : List F) :
    (values.map (Except.ok : F → Outcome F)).filterMap Except.toOption = values := by
  induction values with
  | nil => rfl
  | cons v values ih => exact congrArg (v :: ·) ih

/-- Outcomes that are all values are the outcomes of a list of values. -/
theorem exists_values {outcomes : List (Outcome F)}
    (all : ∀ value ∈ outcomes, ∃ v, value = .ok v) :
    ∃ values : List F, outcomes = values.map Except.ok := by
  induction outcomes with
  | nil => exact ⟨[], rfl⟩
  | cons outcome outcomes ih =>
    obtain ⟨first, rest⟩ := List.forall_mem_cons.mp all
    obtain ⟨v, rfl⟩ := first
    obtain ⟨values, rfl⟩ := ih rest
    exact ⟨v :: values, rfl⟩

/-- A call adds one range, which is closed only where the closure succeeds. -/
theorem synthesizeWith_call (mscs : MultiStageConstraintSystem F) (constraints : Closure F) :
    (mscs.synthesizeWith constraints.call).2 =
      ⟨(constraints.steps mscs.cs).foldl ClosureStep.apply mscs.cs, mscs.variableRangeForStage ++
        [(mscs.cs.numWitnessVariables, mscs.cs.numWitnessVariables +
          if constraints.result mscs.cs = .ok () then (constraints.allocated mscs.cs).length
          else 0)]⟩ := by
  obtain ⟨_, count, _⟩ := foldl_witnesses (constraints.steps mscs.cs) mscs.cs
  cases outcome : constraints.result mscs.cs with
  | error fault =>
    simp [synthesizeWith, Closure.call, initializeStage, outcome]
  | ok _ =>
    simp [synthesizeWith, Closure.call, initializeStage, finalizeStage, outcome, count,
      Closure.allocated]

variable [Field F] {setupMode : Bool} {calls : List (Closure F)}

theorem afterCalls_snoc (setupMode : Bool) (calls : List (Closure F)) (last : Closure F) :
    afterCalls setupMode (calls ++ [last]) =
      ((afterCalls setupMode calls).synthesizeWith last.call).2 := by
  rw [afterCalls, List.foldl_append]
  rfl

/-- The mode never changes, and in setup mode no value is kept. -/
theorem afterCalls_mode (setupMode : Bool) (calls : List (Closure F)) :
    (afterCalls setupMode calls).cs.setupMode = setupMode ∧
    (setupMode = true → (afterCalls setupMode calls).cs.witnessAssignment = []) := by
  induction calls using List.reverseRecOn with
  | nil => exact ⟨rfl, fun _ => rfl⟩
  | append_singleton calls last ih =>
    obtain ⟨mode, none⟩ := ih
    obtain ⟨mode', _, values⟩ := foldl_witnesses
      (last.steps (afterCalls setupMode calls).cs) (afterCalls setupMode calls).cs
    rw [afterCalls_snoc, synthesizeWith_call]
    refine ⟨mode'.trans mode, fun setup => ?_⟩
    rw [values, mode, if_pos setup, List.append_nil]
    exact none setup

/-- Between calls the ranges are those of the witnesses, each witness has its value, and in
setup mode there is none. -/
structure Partitioned (setupMode : Bool) (mscs : MultiStageConstraintSystem F) : Prop where
  consecutive : Consecutive 0 mscs.variableRangeForStage mscs.cs.numWitnessVariables
  values : mscs.cs.witnessAssignment.length = mscs.cs.numWitnessVariables
  setup : setupMode = true → mscs.cs.numWitnessVariables = 0

omit [Field F] in
/-- The values from the end of what was there on are those that were added. -/
theorem sliced_append (values more : List F) :
    sliced (values ++ more) (values.length, values.length + more.length) = .ok more := by
  rw [sliced, if_neg (by simp), if_neg (by simp), slice, List.take_of_length_le (by simp),
    List.drop_left]

omit [Field F] in
theorem length_of_sliced {values more : List F} {range : Nat × Nat}
    (read : sliced values range = .ok more) : more.length ≤ values.length := by
  rw [sliced] at read
  by_cases reversed : range.2 < range.1
  · rw [if_pos reversed] at read
    cases read
  · rw [if_neg reversed] at read
    by_cases past : values.length < range.2
    · rw [if_pos past] at read
      cases read
    · rw [if_neg past] at read
      cases read
      rw [length_slice]
      omega

/-- The range of a call, and the witnesses after it. -/
theorem afterCalls_last (setupMode : Bool) (calls : List (Closure F)) (last : Closure F) :
    let before := afterCalls setupMode calls
    let after := afterCalls setupMode (calls ++ [last])
    let added := last.allocated before.cs
    let stop := before.cs.numWitnessVariables +
      if last.result before.cs = .ok () then added.length else 0
    after.variableRangeForStage =
      before.variableRangeForStage ++ [(before.cs.numWitnessVariables, stop)] ∧
    after.cs.numWitnessVariables = before.cs.numWitnessVariables + added.length ∧
    after.cs.witnessAssignment = before.cs.witnessAssignment ++
      (if setupMode then [] else added.filterMap Except.toOption) ∧
    after.currentStageWitnessAssignment =
      sliced after.cs.witnessAssignment (before.cs.numWitnessVariables, stop) := by
  obtain ⟨_, count, values⟩ := foldl_witnesses
    (last.steps (afterCalls setupMode calls).cs) (afterCalls setupMode calls).cs
  rw [(afterCalls_mode setupMode calls).1] at values
  simp only [afterCalls_snoc, synthesizeWith_call]
  refine ⟨trivial, count, values, ?_⟩
  simp only [currentStageWitnessAssignment, List.getLast?_concat, expect_some, ok_bind]

/-- A call that closes keeps the partition, and its witnesses are read back. -/
theorem closes_kept {last : Closure F}
    (partitioned : Partitioned setupMode (afterCalls setupMode calls))
    (closes : Closes setupMode calls last) :
    Kept setupMode calls last ∧ Partitioned setupMode (afterCalls setupMode (calls ++ [last])) := by
  obtain ⟨ranges, count, kept, current⟩ := afterCalls_last setupMode calls last
  obtain ⟨succeeds, setup, all⟩ := closes
  obtain ⟨values, added⟩ := exists_values all
  have closed : (if last.result (afterCalls setupMode calls).cs = .ok () then
      (last.allocated (afterCalls setupMode calls).cs).length else 0) = values.length := by
    rcases succeeds with succeeds | none
    · rw [if_pos succeeds, added, List.length_map]
    · rw [none] at added
      simp [none, List.map_eq_nil_iff.mp added.symm]
  have present : (if setupMode then [] else
      (last.allocated (afterCalls setupMode calls).cs).filterMap Except.toOption) = values := by
    cases setupMode with
    | true =>
      rw [setup rfl] at added
      exact (List.map_eq_nil_iff.mp added.symm).symm
    | false => rw [added]; exact filterMap_map_ok values
  rw [closed] at ranges current
  rw [added, List.length_map] at count
  rw [present] at kept
  have consecutive := partitioned.consecutive.snoc (Nat.le_add_right _ values.length)
  rw [← ranges, ← count] at consecutive
  refine ⟨⟨consecutive, values, ?_, added⟩, consecutive, ?_, fun mode => ?_⟩
  · rw [current, kept, ← partitioned.values, sliced_append]
  · rw [kept, count, List.length_append, partitioned.values]
  · rw [setup mode] at added
    rw [count, partitioned.setup mode, List.map_eq_nil_iff.mp added.symm]
    rfl

/-- Where the partition is kept, the call closed. -/
theorem closes_of_kept {last : Closure F} (kept : Kept setupMode calls last) :
    Closes setupMode calls last := by
  obtain ⟨ranges, count, present, current⟩ := afterCalls_last setupMode calls last
  obtain ⟨consecutive, values, read, added⟩ := kept
  rw [ranges, count] at consecutive
  obtain ⟨_, _, _, _, stop⟩ := consecutive.of_append
  have closed := Nat.add_left_cancel stop
  refine ⟨?_, fun mode => ?_, fun value member => ?_⟩
  · by_cases succeeds : last.result (afterCalls setupMode calls).cs = .ok ()
    · exact .inl succeeds
    · rw [if_neg succeeds] at closed
      exact .inr (List.eq_nil_of_length_eq_zero closed.symm)
  · rw [current] at read
    have short := length_of_sliced read
    rw [present, (afterCalls_mode setupMode calls).2 mode, mode] at short
    rw [added, List.eq_nil_of_length_eq_zero (Nat.le_zero.mp short)]
    rfl
  · rw [added] at member
    obtain ⟨v, _, rfl⟩ := List.mem_map.mp member
    exact ⟨v, rfl⟩

/-- As long as every call closes, the witnesses are partitioned. -/
theorem partitioned_of_closes (closes : ∀ before last, before ++ [last] <+: calls →
    Closes setupMode before last) : Partitioned setupMode (afterCalls setupMode calls) := by
  induction calls using List.reverseRecOn with
  | nil => cases setupMode <;> exact ⟨rfl, rfl, fun _ => rfl⟩
  | append_singleton calls last ih =>
    have before := ih fun earlier call inside =>
      closes earlier call (inside.trans (List.prefix_append calls [last]))
    exact (closes_kept before (closes calls last (List.prefix_refl _))).2

/-- The ranges are kept along a run exactly where every call of it closes. -/
theorem ranges_kept_iff (setupMode : Bool) (calls : List (Closure F)) :
    (∀ before last, before ++ [last] <+: calls → Kept setupMode before last) ↔
      ∀ before last, before ++ [last] <+: calls → Closes setupMode before last := by
  constructor
  · intro kept before last inside
    exact closes_of_kept (kept before last inside)
  · intro closes before last inside
    have partitioned := partitioned_of_closes fun earlier call within =>
      closes earlier call (within.trans ((List.prefix_append before [last]).trans inside))
    exact (closes_kept partitioned (closes before last inside)).1

end Facts

/-- Allocate one witness, then fail. -/
def failing : Closure (ZMod 3) := ⟨fun _ => [.newWitness (.ok 1)], fun _ => .error .assignmentMissing⟩

/-- The witness is in no range, and is not read back. -/
theorem failing_leaks : ¬ ∀ before last, before ++ [last] <+: [failing] →
    Kept false before last := by
  intro kept
  obtain ⟨ranges, _⟩ := kept [] failing (List.prefix_refl _)
  have stop : (0 : Nat) = 1 := ranges.2.2
  exact absurd stop (by decide)

end StageRanges
