import Mathlib.LinearAlgebra.Lagrange
import Mathlib.Data.List.Nodup
import Mathlib.RingTheory.RootsOfUnity.PrimitiveRoots

/-!
# Quadratic programs over a domain

Values at the nodes of a domain interpolate to polynomials. When the values of two of
them multiply to the third at every node, the vanishing polynomial divides the difference,
and the quotient has one coefficient less than the domain has nodes. Nothing here names a
constraint system.
-/

namespace QuadraticPrograms

open Polynomial Finset

variable {F : Type*} [Field F] (nodes : List F)

def node (i : Nat) : F := nodes.getD i 0

theorem node_injOn (distinct : nodes.Nodup) :
    Set.InjOn (node nodes) (range nodes.length : Finset Nat) := by
  intro i hi j hj same
  have hi' : i < nodes.length := mem_range.mp (mem_coe.mp hi)
  have hj' : j < nodes.length := mem_range.mp (mem_coe.mp hj)
  rw [node, node, List.getD_eq_getElem?_getD, List.getD_eq_getElem?_getD,
    List.getElem?_eq_getElem hi', List.getElem?_eq_getElem hj'] at same
  exact (distinct.getElem_inj_iff).mp same

noncomputable def interpolant (values : Nat → F) : F[X] :=
  Lagrange.interpolate (range nodes.length) (node nodes) values

/-- The value at a point of the polynomial that is one at a single node. -/
noncomputable def weight (t : F) (i : Nat) : F :=
  (Lagrange.basis (range nodes.length) (node nodes) i).eval t

noncomputable def vanishing : F[X] := Lagrange.nodal (range nodes.length) (node nodes)

/-- The quotient of the difference by the vanishing polynomial. -/
noncomputable def quotient (a b c : Nat → F) : F[X] :=
  (interpolant nodes a * interpolant nodes b - interpolant nodes c) /ₘ vanishing nodes

theorem eval_interpolant (values : Nat → F) (t : F) :
    (interpolant nodes values).eval t =
      ∑ i ∈ range nodes.length, values i * weight nodes t i := by
  rw [interpolant, Lagrange.interpolate_apply, eval_finsetSum]
  exact sum_congr rfl fun i _ => by rw [eval_mul, eval_C, weight]

variable {nodes}

theorem interpolant_at_node (distinct : nodes.Nodup) (values : Nat → F) {i : Nat}
    (inside : i < nodes.length) : (interpolant nodes values).eval (node nodes i) = values i :=
  Lagrange.eval_interpolate_at_node values (node_injOn nodes distinct) (mem_range.mpr inside)

/-- A polynomial that is zero at every node is a multiple of the vanishing polynomial. -/
theorem vanishing_dvd (distinct : nodes.Nodup) {p : F[X]}
    (zero : ∀ i < nodes.length, p.eval (node nodes i) = 0) : vanishing nodes ∣ p := by
  rw [vanishing, Lagrange.nodal_eq]
  refine prod_dvd_of_coprime ?_ fun i member => ?_
  · intro i hi j hj different
    exact isCoprime_X_sub_C_of_isUnit_sub
      (sub_ne_zero.mpr fun same => different (node_injOn nodes distinct hi hj same)).isUnit
  · exact dvd_iff_isRoot.mpr (zero i (mem_range.mp member))

theorem monic_vanishing : (vanishing nodes).Monic := Lagrange.nodal_monic

theorem natDegree_vanishing : (vanishing nodes).natDegree = nodes.length := by
  rw [vanishing, Lagrange.natDegree_nodal, card_range]

theorem natDegree_interpolant (distinct : nodes.Nodup) (values : Nat → F) :
    (interpolant nodes values).natDegree ≤ nodes.length - 1 := by
  have below := Lagrange.degree_interpolate_lt values (node_injOn nodes distinct)
  rw [card_range] at below
  by_cases zero : interpolant nodes values = 0
  · rw [zero, natDegree_zero]
    exact Nat.zero_le _
  · have := (natDegree_lt_iff_degree_lt zero).mpr below
    omega

section Program
variable {a b c : Nat → F}

theorem vanishing_mul_quotient (distinct : nodes.Nodup)
    (rows : ∀ i < nodes.length, a i * b i = c i) :
    vanishing nodes * quotient nodes a b c =
      interpolant nodes a * interpolant nodes b - interpolant nodes c := by
  obtain ⟨k, difference⟩ := vanishing_dvd distinct
    (p := interpolant nodes a * interpolant nodes b - interpolant nodes c) fun i inside => by
      rw [eval_sub, eval_mul, interpolant_at_node distinct _ inside,
        interpolant_at_node distinct _ inside, interpolant_at_node distinct _ inside,
        rows i inside, sub_self]
  rw [quotient, difference, mul_divByMonic_cancel_left _ monic_vanishing]

theorem natDegree_difference (distinct : nodes.Nodup) :
    (interpolant nodes a * interpolant nodes b - interpolant nodes c).natDegree ≤
      2 * (nodes.length - 1) := by
  refine (natDegree_sub_le _ _).trans (max_le ?_ ?_)
  · refine natDegree_mul_le.trans ?_
    have left := natDegree_interpolant distinct a
    have right := natDegree_interpolant distinct b
    omega
  · have := natDegree_interpolant distinct c
    omega

/-- The quotient is the sum of one term less than there are nodes. -/
theorem eval_quotient (distinct : nodes.Nodup) (nonempty : 0 < nodes.length) (t : F) :
    (quotient nodes a b c).eval t =
      ∑ i ∈ range (nodes.length - 1), (quotient nodes a b c).coeff i * t ^ i := by
  have degree : (quotient nodes a b c).natDegree ≤ 2 * (nodes.length - 1) - nodes.length := by
    rw [quotient, natDegree_divByMonic _ monic_vanishing, natDegree_vanishing]
    have := natDegree_difference (a := a) (b := b) (c := c) distinct
    omega
  by_cases single : nodes.length = 1
  · have constant : quotient nodes a b c = 0 := by
      refine (divByMonic_eq_zero_iff monic_vanishing).mpr ?_
      have small := natDegree_difference (a := a) (b := b) (c := c) distinct
      rw [single] at small
      have full : (vanishing nodes).degree = 1 := by
        rw [degree_eq_natDegree monic_vanishing.ne_zero, natDegree_vanishing, single]
        rfl
      rw [full]
      exact lt_of_le_of_lt degree_le_natDegree
        (by exact_mod_cast Nat.lt_of_le_of_lt small Nat.zero_lt_one)
    rw [constant, single]
    simp
  · exact eval_eq_sum_range' (by omega) t

/-- The program's identity at any point. -/
theorem eval_identity (distinct : nodes.Nodup) (nonempty : 0 < nodes.length)
    (rows : ∀ i < nodes.length, a i * b i = c i) (t : F) :
    (interpolant nodes a).eval t * (interpolant nodes b).eval t - (interpolant nodes c).eval t =
      (∑ i ∈ range (nodes.length - 1), (quotient nodes a b c).coeff i * t ^ i) *
        (vanishing nodes).eval t := by
  have identity := congrArg (Polynomial.eval t) (vanishing_mul_quotient distinct rows)
  rw [eval_mul, eval_sub, eval_mul, eval_quotient distinct nonempty, mul_comm] at identity
  exact identity.symm

end Program

/-- The powers of a root of unity of order `2 ^ k`, from one of order `2 ^ twoAdicity`. -/
def radix2Elements (root : F) (twoAdicity k : Nat) : List F :=
  (List.range (2 ^ k)).map fun i => (root ^ 2 ^ (twoAdicity - k)) ^ i

theorem radix2Elements_nodup {root : F} {twoAdicity k : Nat}
    (primitive : IsPrimitiveRoot root (2 ^ twoAdicity)) (inside : k ≤ twoAdicity) :
    (radix2Elements root twoAdicity k).Nodup := by
  have order : 2 ^ twoAdicity = 2 ^ (twoAdicity - k) * 2 ^ k := by
    rw [← pow_add, Nat.sub_add_cancel inside]
  have subgroup := primitive.pow (Nat.two_pow_pos twoAdicity) order
  refine List.Nodup.map_on ?_ List.nodup_range
  intro i hi j hj same
  exact subgroup.pow_inj (List.mem_range.mp hi) (List.mem_range.mp hj) same

end QuadraticPrograms
