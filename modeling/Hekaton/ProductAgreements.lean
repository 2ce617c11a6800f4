import Hekaton.PermutationFingerprint
import Mathlib

/-!
# Where the products of two lists agree

Each element has the factor `y - (offset + x * slope)`. As polynomials the products of two
lists are equal only when the lists are the same up to order. Of the points of a square
with side `S` at most a `1 / #S` share, times the longer length, has equal products for
lists that are not: the points do not depend on who chose the lists.
-/

namespace ProductAgreements

open PermutationFingerprint

variable {F α : Type} [Field F]

local instance two_neZero : NeZero 2 := ⟨by decide⟩

/-- The factor of an element in the two unknowns. -/
noncomputable def form (offset slope : α → F) (a : α) : MvPolynomial (Fin 2) F :=
  .X 1 - (.C (offset a) + .X 0 * .C (slope a))

/-- The product over a list. -/
noncomputable def listForm (offset slope : α → F) (l : List α) : MvPolynomial (Fin 2) F :=
  (l.map (form offset slope)).prod

/-- The product at a point. -/
def productAt (offset slope : α → F) (l : List α) (x y : F) : F :=
  (l.map fun a => y - (offset a + x * slope a)).prod

variable {offset slope : α → F}

theorem eval_listForm (l : List α) (v : Fin 2 → F) :
    MvPolynomial.eval v (listForm offset slope l) = productAt offset slope l (v 0) (v 1) := by
  rw [listForm, map_list_prod, List.map_map, productAt]
  apply congrArg
  refine List.map_congr_left fun a _ => ?_
  simp only [Function.comp_apply, form, map_sub, map_add, map_mul, MvPolynomial.eval_X,
    MvPolynomial.eval_C]

theorem totalDegree_form (a : α) : (form offset slope a).totalDegree ≤ 1 := by
  refine (MvPolynomial.totalDegree_sub _ _).trans (max_le ?_ ?_)
  · exact (MvPolynomial.totalDegree_X 1).le
  · refine (MvPolynomial.totalDegree_add _ _).trans (max_le ?_ ?_)
    · rw [MvPolynomial.totalDegree_C]
      exact Nat.zero_le 1
    · refine (MvPolynomial.totalDegree_mul _ _).trans ?_
      rw [MvPolynomial.totalDegree_X, MvPolynomial.totalDegree_C]

theorem totalDegree_listForm (l : List α) : (listForm offset slope l).totalDegree ≤ l.length := by
  refine (MvPolynomial.totalDegree_list_prod _).trans ?_
  induction l with
  | nil => exact Nat.le_refl 0
  | cons a l ih =>
    rw [List.map_cons, List.map_cons, List.sum_cons, List.length_cons, Nat.add_comm]
    exact Nat.add_le_add ih (totalDegree_form a)

/-- The second unknown apart from the first. -/
noncomputable def nested (F : Type) [Field F] : Fin 2 → Polynomial (Polynomial F) :=
  ![Polynomial.C Polynomial.X, Polynomial.X]

theorem nested_listForm (l : List α) : MvPolynomial.aeval (nested F) (listForm offset slope l) =
    (l.map fun a => Polynomial.X -
      Polynomial.C (Polynomial.C (offset a) + Polynomial.X * Polynomial.C (slope a))).prod := by
  rw [listForm, map_list_prod, List.map_map]
  apply congrArg
  refine List.map_congr_left fun a _ => ?_
  simp only [Function.comp_apply, form, map_sub, map_add, map_mul, MvPolynomial.aeval_X,
    MvPolynomial.aeval_C, nested, Matrix.cons_val_zero, Matrix.cons_val_one]
  rfl

/-- Equal products come from the same elements. -/
theorem perm_of_listForm_eq (apart : Function.Injective fun a => (offset a, slope a))
    {l l' : List α} (same : listForm offset slope l = listForm offset slope l') : l.Perm l' := by
  have separate := congrArg (MvPolynomial.aeval (nested F)) same
  rw [nested_listForm, nested_listForm] at separate
  refine perm_of_prod_eq ?_ separate
  intro a _ b _ equal
  have constant := congrArg (Polynomial.coeff · 0) equal
  have linear := congrArg (Polynomial.coeff · 1) equal
  simp only [Polynomial.coeff_add, Polynomial.coeff_C_zero, Polynomial.mul_coeff_zero,
    Polynomial.coeff_X_zero, zero_mul, add_zero] at constant
  simp only [Polynomial.coeff_add, Polynomial.coeff_C_succ, Polynomial.coeff_X_mul,
    Polynomial.coeff_C_zero, zero_add] at linear
  exact apart (Prod.ext constant linear)

variable [DecidableEq F]

/-- The points of the square over `S` where the products agree. -/
def agreements (offset slope : α → F) (l l' : List α) (S : Finset F) : Finset (F × F) :=
  (S ×ˢ S).filter fun c =>
    productAt offset slope l c.1 c.2 = productAt offset slope l' c.1 c.2

/-- Few points hide a difference of two lists. -/
theorem card_agreements_le (apart : Function.Injective fun a => (offset a, slope a))
    {l l' : List α} (different : ¬ l.Perm l') (S : Finset F) :
    (agreements offset slope l l' S).card ≤ max l.length l'.length * S.card := by
  have nonzero : listForm offset slope l - listForm offset slope l' ≠ 0 := fun zero =>
    different (perm_of_listForm_eq apart (sub_eq_zero.mp zero))
  have degree : (listForm offset slope l - listForm offset slope l').totalDegree ≤
      max l.length l'.length :=
    (MvPolynomial.totalDegree_sub _ _).trans
      (max_le_max (totalDegree_listForm l) (totalDegree_listForm l'))
  have inZeros : (agreements offset slope l l' S).card ≤
      ((Fintype.piFinset fun _ : Fin 2 => S).filter fun v => MvPolynomial.eval v
        (listForm offset slope l - listForm offset slope l') = 0).card := by
    refine Finset.card_le_card_of_injOn (fun c => ![c.1, c.2]) ?_ ?_
    · intro c member
      obtain ⟨square, agree⟩ := Finset.mem_filter.mp member
      obtain ⟨first, second⟩ := Finset.mem_product.mp square
      refine Finset.mem_coe.mpr (Finset.mem_filter.mpr ⟨Fintype.mem_piFinset.mpr ?_, ?_⟩)
      · exact Fin.forall_fin_two.mpr ⟨first, second⟩
      · rw [map_sub, eval_listForm, eval_listForm, sub_eq_zero]
        exact agree
    · intro c _ c' _ same
      exact Prod.ext (congrFun same 0) (congrFun same 1)
  rcases S.eq_empty_or_nonempty with rfl | inhabited
  · simp [agreements]
  · have bound := MvPolynomial.schwartz_zippel_totalDegree nonzero S
    have positive : (0 : ℚ≥0) < S.card := Nat.cast_pos.mpr inhabited.card_pos
    rw [div_le_div_iff₀ (pow_pos positive 2) positive, pow_two, ← mul_assoc] at bound
    have zeros := le_of_mul_le_mul_right bound positive
    exact inZeros.trans ((by exact_mod_cast zeros : _ ≤ _ * S.card).trans
      (Nat.mul_le_mul_right _ degree))

end ProductAgreements
