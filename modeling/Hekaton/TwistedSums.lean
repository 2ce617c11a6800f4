import Hekaton.LinearCombinations
import Mathlib.LinearAlgebra.Vandermonde
import Mathlib.LinearAlgebra.Matrix.NonsingularInverse

/-!
# Sums under the powers of a twist

The combination of a list of elements under the powers of one scalar is linear in the
elements, and it determines them: where it vanishes for as many distinct scalars as there
are elements, all elements are zero. Nothing here names a proof system.
-/

namespace TwistedSums

open LinearCombinations

variable {F G : Type*} [Field F] [AddCommGroup G] [Module F G]

/-- `1, r, r ^ 2, ..` -/
def powers (n : Nat) (r : F) : List F := (List.range n).map (r ^ ·)

@[simp] theorem length_powers (n : Nat) (r : F) : (powers n r).length = n := by
  rw [powers, List.length_map, List.length_range]

theorem powers_succ (n : Nat) (r : F) : powers (n + 1) r = powers n r ++ [r ^ n] := by
  rw [powers, List.range_succ, List.map_append, List.map_singleton]
  rfl

section Rows
variable {ρ : Type*} (scalars : List F) (rows : List ρ)

theorem dot_map_add (f g : ρ → G) :
    dot scalars (rows.map fun x => f x + g x) =
      dot scalars (rows.map f) + dot scalars (rows.map g) := by
  rw [← dot_zipWith_add scalars (by rw [List.length_map, List.length_map]), List.zipWith_map,
    List.zipWith_self]

theorem dot_map_scale (s : F) (f : ρ → G) :
    dot scalars (rows.map fun x => s • f x) = s • dot scalars (rows.map f) := by
  have mapped := map_dot (LinearMap.lsmul F G s) scalars (rows.map f)
  rw [List.map_map] at mapped
  exact mapped.symm

theorem dot_map_sub (f g : ρ → G) :
    dot scalars (rows.map fun x => f x - g x) =
      dot scalars (rows.map f) - dot scalars (rows.map g) := by
  rw [eq_sub_iff_add_eq, ← dot_map_add]
  simp only [sub_add_cancel]

theorem dot_map_zero : dot scalars (rows.map fun _ => (0 : G)) = 0 := by
  have scaled := dot_map_scale scalars rows (0 : F) fun _ => (0 : G)
  simpa only [zero_smul] using scaled

theorem dot_map_sum {ι : Type*} (indices : Finset ι) (f : ι → ρ → G) :
    dot scalars (rows.map fun x => ∑ j ∈ indices, f j x) =
      ∑ j ∈ indices, dot scalars (rows.map (f j)) := by
  induction indices using Finset.cons_induction with
  | empty =>
    simp only [Finset.sum_empty]
    exact dot_map_zero scalars rows
  | cons j indices fresh ih =>
    simp only [Finset.sum_cons]
    rw [dot_map_add, ih]

end Rows

/-- Over the positions. -/
theorem dot_powers_ofFn {n : Nat} (r : F) (e : Fin n → G) :
    dot (powers n r) ((List.finRange n).map e) = ∑ i : Fin n, r ^ (i : Nat) • e i := by
  have positions : powers n r = (List.finRange n).map fun i : Fin n => r ^ (i : Nat) := by
    rw [powers, ← List.map_coe_finRange_eq_range, List.map_map]
    rfl
  rw [positions, dot, List.zipWith_map, List.zipWith_self, ← List.ofFn_eq_map, List.sum_ofFn]

/-- As many distinct twists as elements tell whether all elements are zero. -/
theorem sums_vanish_iff {n : Nat} {twists : Fin n → F} (distinct : Function.Injective twists)
    (e : Fin n → G) : (∀ j, ∑ i : Fin n, twists j ^ (i : Nat) • e i = 0) ↔ ∀ i, e i = 0 := by
  constructor
  · intro vanish k
    have regular : IsUnit (Matrix.vandermonde twists).det :=
      isUnit_iff_ne_zero.mpr (Matrix.det_vandermonde_ne_zero_iff.mpr distinct)
    have inverse := Matrix.nonsing_inv_mul _ regular
    -- the inverse of the matrix of powers brings back element `k`
    calc e k = ∑ i, (1 : Matrix (Fin n) (Fin n) F) k i • e i := by
          simp [Matrix.one_apply]
      _ = ∑ i : Fin n, (∑ j, (Matrix.vandermonde twists)⁻¹ k j * twists j ^ (i : Nat)) • e i := by
          rw [← inverse]
          rfl
      _ = ∑ j, (Matrix.vandermonde twists)⁻¹ k j • ∑ i : Fin n, twists j ^ (i : Nat) • e i := by
          simp only [Finset.sum_smul, Finset.smul_sum, mul_smul]
          exact Finset.sum_comm
      _ = 0 := by
          simp only [vanish, smul_zero, Finset.sum_const_zero]
  · intro zero j
    simp only [zero, smul_zero, Finset.sum_const_zero]

end TwistedSums
