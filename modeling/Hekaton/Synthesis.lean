import Hekaton.Outcomes
import Hekaton.Wires

/-!
# Synthesis of gadget-level constraints

A synthesis step reads the variables allocated so far and returns, with its result,
the variables and constraints it adds. `define` stands for the rows a gadget emits
for its own output: they pin the output to its value and are satisfied by it.
-/

namespace Synthesis

open Outcomes Wires

inductive AllocationMode where
  | input
  | witness
  deriving DecidableEq

/-- An allocated variable with the value its allocation was given. -/
structure Variable (F D : Type) where
  mode : AllocationMode
  kind : Kind
  value : kind.Val F D

inductive Constraint (F D : Type) where
  | enforceEqual {k : Kind} (a b : Wire F D k)
  | conditionalEnforceEqual {k : Kind} (a b : Wire F D k) (condition : Wire F D .bool)
  | define {k : Kind} (w : Wire F D k)

structure Emission (F D : Type) where
  allocations : List (Variable F D)
  constraints : List (Constraint F D)

/-- What a step adds, given the variables already allocated. -/
def Synth (F D α : Type) : Type :=
  List (Variable F D) → Outcome (α × Emission F D)

namespace Emission
variable {F D : Type}

instance : Append (Emission F D) where
  append e e' := ⟨e.allocations ++ e'.allocations, e.constraints ++ e'.constraints⟩

def empty : Emission F D := ⟨[], []⟩

@[simp] theorem append_allocations (e e' : Emission F D) :
    (e ++ e').allocations = e.allocations ++ e'.allocations := rfl

@[simp] theorem append_constraints (e e' : Emission F D) :
    (e ++ e').constraints = e.constraints ++ e'.constraints := rfl

@[simp] theorem empty_allocations : (empty : Emission F D).allocations = [] := rfl

@[simp] theorem empty_constraints : (empty : Emission F D).constraints = [] := rfl

@[simp] theorem empty_append (e : Emission F D) : empty ++ e = e := rfl

@[simp] theorem append_empty (e : Emission F D) : e ++ empty = e := by
  cases e
  exact congrArg₂ Emission.mk (List.append_nil _) (List.append_nil _)

theorem append_assoc (a b c : Emission F D) : a ++ b ++ c = a ++ (b ++ c) :=
  congrArg₂ Emission.mk (List.append_assoc _ _ _) (List.append_assoc _ _ _)

end Emission

namespace Synth
variable {F D α β : Type}

protected def pure (a : α) : Synth F D α := fun _ => .ok (a, .empty)

protected def bind (m : Synth F D α) (f : α → Synth F D β) : Synth F D β := fun vars => do
  let (a, e) ← m vars
  let (b, e') ← f a (vars ++ e.allocations)
  .ok (b, e ++ e')

instance : Monad (Synth F D) where
  pure := Synth.pure
  bind := Synth.bind

/-- Run a fallible call that touches no constraint. -/
def lift (o : Outcome α) : Synth F D α := fun _ => do
  let a ← o
  .ok (a, .empty)

@[simp] theorem pure_apply (a : α) (vars : List (Variable F D)) :
    (pure a : Synth F D α) vars = .ok (a, .empty) := rfl

/-- A sequence succeeds exactly when its parts do, one after the other. -/
theorem bind_eq_ok {m : Synth F D α} {f : α → Synth F D β} {vars : List (Variable F D)}
    {r : β × Emission F D} :
    (m >>= f) vars = .ok r ↔
      ∃ a e b e', m vars = .ok (a, e) ∧ f a (vars ++ e.allocations) = .ok (b, e') ∧
        r = (b, e ++ e') := by
  change Synth.bind m f vars = .ok r ↔ _
  simp only [Synth.bind, Outcomes.bind_eq_ok]
  constructor
  · rintro ⟨⟨a, e⟩, hm, ⟨b, e'⟩, hf, hr⟩
    exact ⟨a, e, b, e', hm, hf, (Except.ok.inj hr).symm⟩
  · rintro ⟨a, e, b, e', hm, hf, rfl⟩
    exact ⟨(a, e), hm, (b, e'), hf, rfl⟩

theorem bind_of_ok {m : Synth F D α} {f : α → Synth F D β} {vars : List (Variable F D)}
    {a : α} {e : Emission F D} {b : β} {e' : Emission F D} (hm : m vars = .ok (a, e))
    (hf : f a (vars ++ e.allocations) = .ok (b, e')) :
    (m >>= f) vars = .ok (b, e ++ e') :=
  bind_eq_ok.mpr ⟨a, e, b, e', hm, hf, rfl⟩

/-- A first step that adds nothing leaves the rest as it is. -/
theorem bind_of_ok_empty {m : Synth F D α} {f : α → Synth F D β}
    {vars : List (Variable F D)} {a : α} (hm : m vars = .ok (a, .empty)) :
    (m >>= f) vars = f a vars := by
  change Synth.bind m f vars = _
  simp only [Synth.bind, hm, ok_bind, Emission.empty_allocations, List.append_nil]
  cases f a vars <;> rfl

theorem lift_eq_ok {o : Outcome α} {vars : List (Variable F D)} {r : α × Emission F D} :
    (lift o : Synth F D α) vars = .ok r ↔ ∃ a, o = .ok a ∧ r = (a, .empty) := by
  simp only [lift, Outcomes.bind_eq_ok]
  exact ⟨fun ⟨a, ho, hr⟩ => ⟨a, ho, (Except.ok.inj hr).symm⟩,
    fun ⟨a, ho, hr⟩ => ⟨a, ho, congrArg _ hr.symm⟩⟩

@[simp] theorem lift_ok (a : α) (vars : List (Variable F D)) :
    (lift (.ok a) : Synth F D α) vars = .ok (a, .empty) := rfl

/-- A fallible call before a step has to succeed, and adds nothing. -/
theorem lift_bind_eq_ok {o : Outcome α} {f : α → Synth F D β} {vars : List (Variable F D)}
    {r : β × Emission F D} :
    (lift o >>= f) vars = .ok r ↔ ∃ a, o = .ok a ∧ f a vars = .ok r := by
  constructor
  · intro run
    obtain ⟨a, e, b, e', first, rest, rfl⟩ := bind_eq_ok.mp run
    obtain ⟨a', ho, same⟩ := lift_eq_ok.mp first
    cases same
    rw [Emission.empty_allocations, List.append_nil] at rest
    exact ⟨a, ho, rest⟩
  · rintro ⟨a, rfl, rest⟩
    exact (bind_of_ok_empty rfl).trans rest

/-- Run a step and return its constraints with its result. -/
def recording (m : Synth F D α) : Synth F D (α × List (Constraint F D)) := fun vars => do
  let (a, e) ← m vars
  .ok ((a, e.constraints), e)

theorem recording_eq_ok {m : Synth F D α} {vars : List (Variable F D)}
    {r : (α × List (Constraint F D)) × Emission F D} :
    recording m vars = .ok r ↔ ∃ a e, m vars = .ok (a, e) ∧ r = ((a, e.constraints), e) := by
  simp only [recording, Outcomes.bind_eq_ok]
  exact ⟨fun ⟨⟨a, e⟩, hm, hr⟩ => ⟨a, e, hm, (Except.ok.inj hr).symm⟩,
    fun ⟨a, e, hm, hr⟩ => ⟨(a, e), hm, congrArg _ hr.symm⟩⟩

end Synth

section Satisfaction
variable {F D : Type} [Field F] [DecidableEq F] [DecidableEq D]

def Constraint.Holds (z : Assignment F D) : Constraint F D → Prop
  | .enforceEqual a b => a.eval z = b.eval z
  | .conditionalEnforceEqual a b c => c.eval z = true → a.eval z = b.eval z
  | .define _ => True

instance (z : Assignment F D) : (c : Constraint F D) → Decidable (c.Holds z)
  | .enforceEqual a b => inferInstanceAs (Decidable (a.eval z = b.eval z))
  | .conditionalEnforceEqual a b c =>
      inferInstanceAs (Decidable (c.eval z = true → a.eval z = b.eval z))
  | .define _ => inferInstanceAs (Decidable True)

@[simp] theorem holds_enforceEqual {z : Assignment F D} {k : Kind} (a b : Wire F D k) :
    (Constraint.enforceEqual a b).Holds z ↔ a.eval z = b.eval z := Iff.rfl

@[simp] theorem holds_conditionalEnforceEqual {z : Assignment F D} {k : Kind}
    (a b : Wire F D k) (c : Wire F D .bool) :
    (Constraint.conditionalEnforceEqual a b c).Holds z ↔
      (c.eval z = true → a.eval z = b.eval z) := Iff.rfl

/-- Every constraint of the emission holds under the assignment. -/
def Emission.Satisfied (e : Emission F D) (z : Assignment F D) : Prop :=
  ∀ c ∈ e.constraints, c.Holds z

instance (e : Emission F D) (z : Assignment F D) : Decidable (e.Satisfied z) :=
  inferInstanceAs (Decidable (∀ c ∈ e.constraints, c.Holds z))

@[simp] theorem Emission.satisfied_append {e e' : Emission F D} {z : Assignment F D} :
    (e ++ e').Satisfied z ↔ e.Satisfied z ∧ e'.Satisfied z :=
  List.forall_mem_append

@[simp] theorem Emission.satisfied_empty {z : Assignment F D} :
    (Emission.empty : Emission F D).Satisfied z :=
  fun _ h => absurd h List.not_mem_nil

end Satisfaction

section Honest
variable {F D : Type} [Zero F] [Inhabited D]

/-- `z` gives the variables allocated from index `n` on the values they were given. -/
def Agrees (z : Assignment F D) (n : Nat) (vars : List (Variable F D)) : Prop :=
  ∀ i v, vars[i]? = some v → z v.kind (n + i) = v.value

/-- The assignment read off the allocated values. -/
def assignmentOf (vars : List (Variable F D)) : Assignment F D := fun k i =>
  match vars[i]? with
  | none => default
  | some v => if h : v.kind = k then h ▸ v.value else default

theorem assignmentOf_agrees (vars : List (Variable F D)) :
    Agrees (assignmentOf vars) 0 vars := by
  intro i v hv
  simp only [assignmentOf, Nat.zero_add, hv, dite_true]

omit [Zero F] [Inhabited D] in
@[simp] theorem agrees_nil (z : Assignment F D) (n : Nat) : Agrees z n [] := by
  intro i v hv
  cases hv

omit [Zero F] [Inhabited D] in
@[simp] theorem agrees_append {z : Assignment F D} {n : Nat} {vars more : List (Variable F D)} :
    Agrees z n (vars ++ more) ↔ Agrees z n vars ∧ Agrees z (n + vars.length) more := by
  constructor
  · intro h
    refine ⟨fun i v hv => h i v ?_, fun i v hv => ?_⟩
    · obtain ⟨hi, _⟩ := List.getElem?_eq_some_iff.mp hv
      rw [List.getElem?_append_left hi]
      exact hv
    · have hx := h (vars.length + i) v (by
        rw [List.getElem?_append_right (Nat.le_add_right _ _), Nat.add_sub_cancel_left]
        exact hv)
      rwa [← Nat.add_assoc] at hx
  · rintro ⟨first, second⟩ i v hv
    by_cases hi : i < vars.length
    · exact first i v (by rwa [List.getElem?_append_left hi] at hv)
    · have hle : vars.length ≤ i := Nat.le_of_not_lt hi
      rw [List.getElem?_append_right hle] at hv
      have hx := second (i - vars.length) v hv
      rwa [Nat.add_assoc, Nat.add_sub_cancel' hle] at hx

omit [Zero F] [Inhabited D] in
@[simp] theorem agrees_singleton {z : Assignment F D} {n : Nat} {v : Variable F D} :
    Agrees z n [v] ↔ z v.kind n = v.value := by
  constructor
  · intro h
    exact h 0 v rfl
  · intro h i w hw
    cases i with
    | zero => cases Option.some.inj hw; exact h
    | succ i => cases hw

end Honest

namespace Synth
variable {F D : Type}

def newVariable (mode : AllocationMode) (k : Kind) (value : k.Val F D) :
    Synth F D (Wire F D k) := fun vars =>
  .ok (.var k vars.length, ⟨[⟨mode, k, value⟩], []⟩)

abbrev newWitness (k : Kind) (value : k.Val F D) : Synth F D (Wire F D k) :=
  newVariable .witness k value

abbrev newInput (k : Kind) (value : k.Val F D) : Synth F D (Wire F D k) :=
  newVariable .input k value

def emit (c : Constraint F D) : Synth F D Unit := fun _ => .ok ((), ⟨[], [c]⟩)

/-- Emit the rows that define a gadget's output and hand the output back. -/
def define {k : Kind} (w : Wire F D k) : Synth F D (Wire F D k) := fun _ =>
  .ok (w, ⟨[], [.define w]⟩)

def enforceEqual {k : Kind} (a b : Wire F D k) : Synth F D Unit := emit (.enforceEqual a b)

def conditionalEnforceEqual {k : Kind} (a b : Wire F D k) (condition : Wire F D .bool) :
    Synth F D Unit := emit (.conditionalEnforceEqual a b condition)

def isEq {k : Kind} (a b : Wire F D k) : Synth F D (Wire F D .bool) := define (.isEq a b)

def mul (a b : Wire F D .field) : Synth F D (Wire F D .field) := define (.mul a b)

def and (a b : Wire F D .bool) : Synth F D (Wire F D .bool) := define (.and a b)

def or (a b : Wire F D .bool) : Synth F D (Wire F D .bool) := define (.or a b)

def xor (a b : Wire F D .bool) : Synth F D (Wire F D .bool) := define (.xor a b)

def conditionallySelect {k : Kind} (c : Wire F D .bool) (a b : Wire F D k) :
    Synth F D (Wire F D k) := define (.select c a b)

/-- The value a wire has under the values allocated so far. -/
def value [Field F] [DecidableEq F] [Inhabited D] [DecidableEq D] {k : Kind} (w : Wire F D k) :
    Synth F D (k.Val F D) := fun vars => .ok (w.eval (assignmentOf vars), .empty)

end Synth
end Synthesis
