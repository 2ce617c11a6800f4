import Hekaton.CPGroth16
import Hekaton.QuadraticPrograms
import Mathlib.Algebra.Field.ZMod

/-!
# The libsnark reduction

The documented reduction of a constraint system over an evaluation domain: one row a
constraint, one row an instance variable to keep the columns independent, and zero rows
up to the size of the domain. It keeps the laws that key generation and proving rely on.
Its polynomials are not computed here, only named.
-/

namespace LibsnarkReduction

open LinearCombinations Outcomes ConstraintSystems CPGroth16 QuadraticPrograms

variable {F : Type} [Field F]

/-- Domains by the size asked for; there may be none. -/
structure EvaluationDomain (F : Type) where
  new : Nat → Option (List F)
  distinct : ∀ size nodes, new size = some nodes → nodes.Nodup
  nonempty : ∀ size nodes, new size = some nodes → 0 < nodes.length

/-- The smallest power of two of at least the size, while roots of unity last. -/
def radix2Domain {root : F} {twoAdicity : Nat} (primitive : IsPrimitiveRoot root (2 ^ twoAdicity)) :
    EvaluationDomain F where
  new size := if Nat.clog 2 size ≤ twoAdicity
    then some (radix2Elements root twoAdicity (Nat.clog 2 size)) else none
  distinct := by
    intro size nodes found
    split at found
    · rename_i inside
      cases found
      exact radix2Elements_nodup primitive inside
    · cases found
  nonempty := by
    intro size nodes found
    split at found
    · cases found
      rw [radix2Elements, List.length_map, List.length_range]
      exact Nat.two_pow_pos _
    · cases found

section Rows

/-- The row of a constraint, or of an instance variable, or of nothing. -/
def rowA (cs : ConstraintSystem F) (i : Nat) : LinearCombination F :=
  match cs.constraints[i]? with
  | some row => row.a
  | none =>
    if i < cs.numConstraints + cs.numInstanceVariables
    then [(1, .input (i - cs.numConstraints))] else []

def rowOf (side : Constraint F → LinearCombination F) (cs : ConstraintSystem F) (i : Nat) :
    LinearCombination F :=
  match cs.constraints[i]? with
  | some row => side row
  | none => []

def coefficient (n : Nat) (lc : LinearCombination F) (j : Nat) : F :=
  (lc.map fun term => if j = term.2.index n then term.1 else 0).sum

def valueOf (n : Nat) (z : List F) (lc : LinearCombination F) : F :=
  (lc.map fun term => term.1 * z.getD (term.2.index n) 0).sum

/-- A matrix against the weights of its rows. -/
noncomputable def column (nodes : List F) (t : F) (n total : Nat) (row : Nat → LinearCombination F) :
    List F :=
  (List.range total).map fun j =>
    ∑ i ∈ Finset.range nodes.length, weight nodes t i * coefficient n (row i) j

end Rows

/-- The columns of a system over the nodes, at a point. -/
noncomputable def programOf (nodes : List F) (cs : ConstraintSystem F) (t : F) : QapEvaluation F :=
  let n := cs.numInstanceVariables
  let total := n + cs.numWitnessVariables
  { a := column nodes t n total (rowA cs)
    b := column nodes t n total (rowOf Constraint.b cs)
    c := column nodes t n total (rowOf Constraint.c cs)
    zt := (vanishing nodes).eval t
    qapNumVariables := n - 1 + cs.numWitnessVariables
    mRaw := nodes.length }

/-- The coefficients of the quotient of an assigned system. -/
noncomputable def quotientOf (nodes : List F) (cs : ConstraintSystem F) : List F :=
  let value := valueOf cs.numInstanceVariables cs.fullAssignment
  (List.range nodes.length).map (quotient nodes (fun i => value (rowA cs i))
    (fun i => value (rowOf Constraint.b cs i)) (fun i => value (rowOf Constraint.c cs i))).coeff

/-- `LibsnarkReduction` over a domain. -/
noncomputable def libsnarkReduction (domain : EvaluationDomain F) : R1CSToQAP F where
  newDomain := domain.new
  instanceMapWithEvaluation cs t :=
    match domain.new (cs.numConstraints + cs.numInstanceVariables) with
    | none => .error .polynomialDegreeTooLarge
    | some nodes => .ok (programOf nodes cs t)
  witnessMap cs :=
    match domain.new (cs.numConstraints + cs.numInstanceVariables) with
    | none => .error .polynomialDegreeTooLarge
    | some nodes => .ok (quotientOf nodes cs)
  hQueryScalars maxPower t zt deltaInverse :=
    .ok ((List.range maxPower).map fun i => zt * deltaInverse * t ^ i)

theorem dot_range (z : List F) (f : Nat → F) :
    dot z ((List.range z.length).map f) = ∑ j ∈ Finset.range z.length, z.getD j 0 * f j := by
  induction z generalizing f with
  | nil => simp
  | cons x z ih =>
    rw [List.length_cons, List.range_succ_eq_map, List.map_cons, List.map_map, dot_cons,
      ih, Finset.sum_range_succ']
    simp [add_comm]

theorem dot_map_range (f g : Nat → F) (k : Nat) :
    dot ((List.range k).map f) ((List.range k).map g) = ∑ i ∈ Finset.range k, f i * g i := by
  induction k with
  | zero => simp
  | succ k ih =>
    rw [List.range_succ, List.map_append, List.map_append, dot_append (by simp), ih,
      Finset.sum_range_succ]
    simp

/-- Weighing a matrix's column values weighs the values of its rows. -/
theorem sum_coefficient {n : Nat} {z : List F} {lc : LinearCombination F}
    (inside : ∀ term ∈ lc, term.2.index n < z.length) :
    ∑ j ∈ Finset.range z.length, z.getD j 0 * coefficient n lc j = valueOf n z lc := by
  induction lc with
  | nil => simp [coefficient, valueOf]
  | cons term lc ih =>
    have rest := ih fun term mention => inside term (List.mem_cons_of_mem _ mention)
    have here := Finset.mem_range.mpr (inside term List.mem_cons_self)
    simp only [coefficient, valueOf, List.map_cons, List.sum_cons, mul_add,
      Finset.sum_add_distrib] at rest ⊢
    rw [rest]
    congr 1
    simp only [mul_ite, mul_zero, Finset.sum_ite_eq', here, if_true]
    exact mul_comm _ _

theorem dot_column (nodes : List F) (t : F) {n : Nat} {z : List F} {row : Nat → LinearCombination F}
    (inside : ∀ i, ∀ term ∈ row i, term.2.index n < z.length) :
    dot z (column nodes t n z.length row) =
      (interpolant nodes fun i => valueOf n z (row i)).eval t := by
  rw [column, dot_range, eval_interpolant]
  simp only [Finset.mul_sum]
  rw [Finset.sum_comm]
  refine Finset.sum_congr rfl fun i _ => ?_
  rw [← sum_coefficient (inside i), Finset.sum_mul]
  exact Finset.sum_congr rfl fun j _ => by ring

section Values

/-- The value of a row is the value the constraint system computes. -/
theorem valueOf_eq {instances witnesses : List F} {lc : LinearCombination F} {v : F}
    (evaluated : evalLc instances witnesses lc = .ok v) :
    valueOf instances.length (instances ++ witnesses) lc = v := by
  induction lc generalizing v with
  | nil =>
    cases evaluated
    rfl
  | cons term lc ih =>
    obtain ⟨coeff, column⟩ := term
    rw [evalLc] at evaluated
    split at evaluated
    · cases evaluated
    · rename_i value assigned
      obtain ⟨rest, ran, same⟩ := bind_eq_ok.mp evaluated
      cases same
      have later := ih ran
      have here : (instances ++ witnesses).getD (column.index instances.length) 0 = value := by
        rw [List.getD_eq_getElem?_getD]
        cases column with
        | input i =>
          have found : instances[i]? = some value := assigned
          obtain ⟨inside, _⟩ := List.getElem?_eq_some_iff.mp found
          rw [Column.index, List.getElem?_append_left inside, found, Option.getD_some]
        | witness i =>
          have found : witnesses[i]? = some value := assigned
          rw [Column.index, List.getElem?_append_right (Nat.le_add_right _ _),
            Nat.add_sub_cancel_left, found, Option.getD_some]
      rw [valueOf, List.map_cons, List.sum_cons, here]
      exact congrArg (coeff * value + ·) later

theorem index_lt {column : Column} {n m : Nat} (allocated : column.Allocated n m) :
    column.index n < n + m := by
  cases column with
  | input i => exact Nat.lt_add_right m allocated
  | witness i => exact Nat.add_lt_add_left allocated n

theorem rowA_inside {cs : ConstraintSystem F} (inScope : cs.Scoped) (i : Nat) :
    ∀ term ∈ rowA cs i, term.2.index cs.numInstanceVariables <
      cs.numInstanceVariables + cs.numWitnessVariables := by
  intro term mention
  rw [rowA] at mention
  split at mention
  · rename_i row found
    exact index_lt (inScope row (List.mem_of_getElem? found) term (by simp [mention]))
  · rename_i beyond
    split at mention
    · rename_i instanceRow
      have past := List.getElem?_eq_none_iff.mp beyond
      cases List.mem_singleton.mp mention
      simp only [Column.index]
      rw [ConstraintSystem.numConstraints] at instanceRow ⊢
      omega
    · cases mention

omit [Field F] in
theorem rowOf_inside {cs : ConstraintSystem F} (inScope : cs.Scoped)
    {side : Constraint F → LinearCombination F}
    (within : ∀ row, ∀ term ∈ side row, term ∈ row.a ++ row.b ++ row.c) (i : Nat) :
    ∀ term ∈ rowOf side cs i, term.2.index cs.numInstanceVariables <
      cs.numInstanceVariables + cs.numWitnessVariables := by
  intro term mention
  rw [rowOf] at mention
  split at mention
  · rename_i row found
    exact index_lt (inScope row (List.mem_of_getElem? found) term (within row term mention))
  · cases mention

variable [DecidableEq F]

/-- At every node of the domain the row's product is right. -/
theorem rows_multiply {cs : ConstraintSystem F} (complete : cs.Complete)
    (satisfied : cs.isSatisfied = .ok true) (i : Nat) :
    valueOf cs.numInstanceVariables cs.fullAssignment (rowA cs i) *
      valueOf cs.numInstanceVariables cs.fullAssignment (rowOf Constraint.b cs i) =
        valueOf cs.numInstanceVariables cs.fullAssignment (rowOf Constraint.c cs i) := by
  have all : rowsSatisfied cs.instanceAssignment cs.witnessAssignment cs.constraints = .ok true := by
    rw [ConstraintSystem.isSatisfied] at satisfied
    split at satisfied
    · cases satisfied
    · exact satisfied
  cases found : cs.constraints[i]? with
  | none =>
    have b : rowOf Constraint.b cs i = [] := by rw [rowOf, found]
    have c : rowOf Constraint.c cs i = [] := by rw [rowOf, found]
    rw [b, c]
    exact mul_zero _
  | some row =>
    obtain ⟨a, b, c, ha, hb, hc, product⟩ :=
      rowsSatisfied_iff.mp all row (List.mem_of_getElem? found)
    have sideA : rowA cs i = row.a := by rw [rowA, found]
    have sideB : rowOf Constraint.b cs i = row.b := by rw [rowOf, found]
    have sideC : rowOf Constraint.c cs i = row.c := by rw [rowOf, found]
    rw [sideA, sideB, sideC, ConstraintSystem.fullAssignment, ← complete.instances, valueOf_eq ha,
      valueOf_eq hb, valueOf_eq hc, product]

end Values

omit [Field F] in
theorem same_rowOf {cs cs' : ConstraintSystem F} (same : cs.SameShape cs')
    (side : Constraint F → LinearCombination F) : rowOf side cs = rowOf side cs' := by
  funext i
  rw [rowOf, rowOf, same.constraints]

theorem same_rowA {cs cs' : ConstraintSystem F} (same : cs.SameShape cs') :
    rowA cs = rowA cs' := by
  funext i
  rw [rowA, rowA, ConstraintSystem.numConstraints, ConstraintSystem.numConstraints,
    same.constraints, same.instances]

/-- The reduction keeps its laws over every domain. -/
theorem libsnarkReduction_lawful [DecidableEq F] (domain : EvaluationDomain F) :
    (libsnarkReduction domain).Lawful where
  hQuery _ _ _ _ := rfl
  instanceMap := by
    intro cs t inScope exist
    obtain ⟨nodes, found⟩ := Option.isSome_iff_exists.mp exist
    replace found : domain.new (cs.numConstraints + cs.numInstanceVariables) = some nodes := found
    have distinct := domain.distinct _ _ found
    have nonempty := domain.nonempty _ _ found
    have mapped : (libsnarkReduction domain).instanceMapWithEvaluation cs t =
        .ok (programOf nodes cs t) := by
      simp only [libsnarkReduction, found]
    refine ⟨_, mapped, ?_⟩
    constructor
    · simp [programOf, column]
    · simp [programOf, column]
    · simp [programOf, column]
    · exact nonempty
    · intro cs' same complete satisfied
      have found' : domain.new (cs'.numConstraints + cs'.numInstanceVariables) = some nodes := by
        rw [ConstraintSystem.numConstraints, ← same.constraints, ← same.instances]
        exact found
      have size : cs'.fullAssignment.length = cs.numInstanceVariables + cs.numWitnessVariables := by
        rw [ConstraintSystem.fullAssignment, List.length_append, complete.instances,
          complete.witnesses, same.instances, same.witnesses]
      have mapped' : (libsnarkReduction domain).witnessMap cs' = .ok (quotientOf nodes cs') := by
        simp only [libsnarkReduction, found']
      refine ⟨_, mapped', ?_, ?_⟩
      · rw [quotientOf, List.length_map, List.length_range]
        rfl
      · have identity := eval_identity distinct nonempty
          (fun i _ => rows_multiply complete satisfied i) t
        have prefixed : ∀ f : Nat → F, ((List.range nodes.length).map f).take (nodes.length - 1) =
            (List.range (nodes.length - 1)).map f := by
          intro f
          rw [← List.map_take, List.take_range, Nat.min_eq_left (Nat.sub_le _ _)]
        simp only [programOf, quotientOf, ← size]
        rw [dot_column, dot_column, dot_column, prefixed, dot_map_range, same_rowA same,
          same_rowOf same, same_rowOf same, same.instances]
        · exact identity
        · rw [size]
          exact rowOf_inside inScope (fun row term mention => by simp [mention])
        · rw [size]
          exact rowOf_inside inScope (fun row term mention => by simp [mention])
        · rw [size]
          exact rowA_inside inScope

end LibsnarkReduction
