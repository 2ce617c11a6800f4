import Hekaton.CPGroth16
import Mathlib

/-!
# Lists of commitments of any length

The verifier pairs the proof's elements with the key's deltas position by position and never
compares the lengths of the two lists. With a commitment for each delta but the last, the
pairing equation is what it accepts. With any other number some proof is not rejected: the
pairing panics on lists of different lengths, or stops at the end of the shorter one.
-/

namespace CommitmentLists

open Outcomes LinearCombinations CPGroth16

section Model
variable {F G₁ G₂ GT : Type} [Field F] [AddCommGroup G₁] [Module F G₁]
variable [AddCommGroup G₂] [Module F G₂] [AddCommGroup GT] [Module F GT] [DecidableEq GT]

/-- The pairing equation of a proof with a commitment for each delta but the last. -/
def Equation (E : Pairing F G₁ G₂ GT) (vk : VerifyingKey G₁ G₂) (inputs : List F)
    (proof : Proof G₁ G₂) : Prop :=
  ∃ preparedInputs lastDelta, prepareInputs (prepareVerifyingKey E vk) inputs = .ok preparedInputs ∧
    vk.deltasH.getLast? = some lastDelta ∧
    E.pairing proof.a proof.b = E.pairing vk.alphaG vk.betaH + E.pairing preparedInputs vk.gammaH +
      (List.zipWith (fun d delta => E.pairing d delta) proof.ds vk.deltasH.dropLast).sum +
      E.pairing proof.c lastDelta

/-- The verifier does not panic, and it accepts only a list of the right length for which the
equation holds. -/
structure Guarded (E : Pairing F G₁ G₂ GT) (vk : VerifyingKey G₁ G₂) (inputs : List F)
    (proof : Proof G₁ G₂) : Prop where
  returns : ∀ message, verifyProof E (prepareVerifyingKey E vk) proof inputs ≠ panicWith message
  accepts : verifyProof E (prepareVerifyingKey E vk) proof inputs = .ok true →
    proof.ds.length + 1 = vk.deltasH.length ∧ Equation E vk inputs proof

/-- Lists of different lengths are refused with a panic, or paired as far as both reach. -/
def Positional (E : Pairing F G₁ G₂ GT) : Prop :=
  ∀ left right, left.length ≠ right.length →
    (∃ message, E.multiPairing left right = panicWith message) ∨
    E.multiPairing left right = .ok (List.zipWith (fun g h => E.pairing g h) left right).sum

end Model

section Facts
variable {F G₁ G₂ GT : Type} [Field F] [AddCommGroup G₁] [Module F G₁]
variable [AddCommGroup G₂] [Module F G₂] [AddCommGroup GT] [Module F GT] [DecidableEq GT]
variable {E : Pairing F G₁ G₂ GT} {vk : VerifyingKey G₁ G₂} {inputs : List F}
variable {proof : Proof G₁ G₂} {preparedInputs : G₁}

omit [DecidableEq GT] in
/-- Negated elements on the right negate the sum. -/
theorem sum_pairing_neg (left : List G₁) (right : List G₂) :
    (List.zipWith (fun g h => E.pairing g h) left (right.map (- ·))).sum =
      -(List.zipWith (fun g h => E.pairing g h) left right).sum := by
  induction left generalizing right with
  | nil => simp
  | cons g left ih =>
    cases right with
    | nil => simp
    | cons h right =>
      simp only [List.map_cons, List.zipWith_cons_cons, List.sum_cons, ih, map_neg]
      abel

omit [DecidableEq GT] in
/-- The last elements of two lists are paired with each other. -/
theorem sum_pairing_snoc {ds : List G₁} {deltas : List G₂} {lastDelta : G₂}
    (last : deltas.getLast? = some lastDelta) (size : ds.length + 1 = deltas.length) (c : G₁) :
    (List.zipWith (fun g h => E.pairing g h) (ds ++ [c]) deltas).sum =
      (List.zipWith (fun g h => E.pairing g h) ds deltas.dropLast).sum + E.pairing c lastDelta := by
  obtain ⟨init, rfl⟩ := List.getLast?_eq_some_iff.mp last
  have same : ds.length = init.length := by simpa using size
  rw [List.dropLast_concat, List.zipWith_append same]
  simp

omit [DecidableEq GT] in
theorem sum_pairing_zeros (n : Nat) (right : List G₂) :
    (List.zipWith (fun g h => E.pairing g h) (List.replicate n 0) right).sum = 0 := by
  induction n generalizing right with
  | zero => simp
  | succ n ih =>
    cases right with
    | nil => simp
    | cons h right => simp [List.replicate_succ, ih]

/-- The elements on the left of the pairing. -/
def leftOf (proof : Proof G₁ G₂) (preparedInputs : G₁) : List G₁ :=
  [proof.a] ++ [preparedInputs] ++ proof.ds ++ [proof.c]

/-- The elements on the right of the pairing. -/
def rightOf (vk : VerifyingKey G₁ G₂) (proof : Proof G₁ G₂) : List G₂ :=
  [proof.b] ++ [-vk.gammaH] ++ vk.deltasH.map (- ·)

omit [DecidableEq GT] in
/-- What the verifier pairs, as far as both lists reach. -/
theorem sum_leftOf_rightOf (proof : Proof G₁ G₂) (preparedInputs : G₁) :
    (List.zipWith (fun g h => E.pairing g h) (leftOf proof preparedInputs) (rightOf vk proof)).sum =
      E.pairing proof.a proof.b - E.pairing preparedInputs vk.gammaH -
        (List.zipWith (fun g h => E.pairing g h) (proof.ds ++ [proof.c]) vk.deltasH).sum := by
  have deltas := sum_pairing_neg (E := E) (proof.ds ++ [proof.c]) vk.deltasH
  simp only [leftOf, rightOf, List.cons_append, List.nil_append, List.zipWith_cons_cons,
    List.sum_cons, deltas, map_neg]
  abel

/-- With prepared inputs the pairing decides. -/
theorem verifyProof_prepared (proof : Proof G₁ G₂)
    (prepared : prepareInputs (prepareVerifyingKey E vk) inputs = .ok preparedInputs) :
    verifyProof E (prepareVerifyingKey E vk) proof inputs = (do
      let test ← E.multiPairing (leftOf proof preparedInputs) (rightOf vk proof)
      .ok (test = E.pairing vk.alphaG vk.betaH)) := by
  rw [verifyProof, prepared, ok_bind]
  rfl

omit [AddCommGroup G₁] in
theorem lengths_eq_iff (vk : VerifyingKey G₁ G₂) (proof : Proof G₁ G₂) (preparedInputs : G₁) :
    (leftOf proof preparedInputs).length = (rightOf vk proof).length ↔
      proof.ds.length + 1 = vk.deltasH.length := by
  simp [leftOf, rightOf]

omit [DecidableEq GT] in
/-- The inputs are prepared or refused, without a panic. -/
theorem prepareInputs_cases (E : Pairing F G₁ G₂ GT) (vk : VerifyingKey G₁ G₂) (inputs : List F) :
    (inputs.length + 1 ≠ vk.gammaAbcG.length ∧
      prepareInputs (prepareVerifyingKey E vk) inputs = .error .malformedVerifyingKey) ∨
    (inputs.length + 1 = vk.gammaAbcG.length ∧
      ∃ preparedInputs, prepareInputs (prepareVerifyingKey E vk) inputs = .ok preparedInputs) := by
  by_cases size : inputs.length + 1 = vk.gammaAbcG.length
  · right
    refine ⟨size, ?_⟩
    obtain ⟨base, bases, same⟩ := List.exists_cons_of_length_eq_add_one size.symm
    exact ⟨_, by rw [prepareInputs, prepareVerifyingKey, if_neg (not_not.mpr size), same]⟩
  · left
    exact ⟨size, if_pos size⟩

theorem guarded_of_refused (refused : inputs.length + 1 ≠ vk.gammaAbcG.length) :
    Guarded E vk inputs proof := by
  rcases prepareInputs_cases E vk inputs with ⟨_, error⟩ | ⟨size, _⟩
  · constructor
    · intro message panics
      rw [verifyProof, error] at panics
      cases panics
    · intro accepted
      rw [verifyProof, error] at accepted
      cases accepted
  · exact absurd size refused

/-- With a commitment for each delta but the last, the equation decides. -/
theorem guarded_of_length (size : proof.ds.length + 1 = vk.deltasH.length) :
    Guarded E vk inputs proof := by
  rcases prepareInputs_cases E vk inputs with ⟨refused, _⟩ | ⟨_, preparedInputs, prepared⟩
  · exact guarded_of_refused refused
  · have paired := E.multiPairing_eq _ _ ((lengths_eq_iff vk proof preparedInputs).mpr size)
    obtain ⟨lastDelta, last⟩ : ∃ lastDelta, vk.deltasH.getLast? = some lastDelta :=
      ⟨_, List.getLast?_eq_some_getLast (List.ne_nil_of_length_pos (by omega))⟩
    have verified := verifyProof_prepared proof prepared
    rw [paired, ok_bind, sum_leftOf_rightOf, sum_pairing_snoc last size] at verified
    constructor
    · intro message panics
      rw [verified] at panics
      cases panics
    · intro accepted
      rw [verified] at accepted
      have equal := of_decide_eq_true (Except.ok.inj accepted)
      refine ⟨size, preparedInputs, lastDelta, prepared, last, ?_⟩
      rw [← equal]
      abel

/-- With any other number of commitments, some proof is not rejected. -/
theorem unguarded_of_length (positional : Positional E) {h : G₂}
    (generated : ∀ y : G₂, ∃ t : F, y = t • h) (fits : inputs.length + 1 = vk.gammaAbcG.length)
    {n : Nat} (other : n + 1 ≠ vk.deltasH.length) :
    ∃ proof : Proof G₁ G₂, proof.ds.length = n ∧ ¬ Guarded E vk inputs proof := by
  rcases prepareInputs_cases E vk inputs with ⟨refused, _⟩ | ⟨_, preparedInputs, prepared⟩
  · exact absurd fits refused
  obtain ⟨beta, hbeta⟩ := generated vk.betaH
  obtain ⟨gamma, hgamma⟩ := generated vk.gammaH
  -- the commitments and the last element contribute nothing, whatever they are paired with
  let proof : Proof G₁ G₂ :=
    ⟨beta • vk.alphaG + gamma • preparedInputs, h, 0, List.replicate n 0⟩
  refine ⟨proof, List.length_replicate, fun guarded => ?_⟩
  have size : proof.ds.length + 1 ≠ vk.deltasH.length := by
    rwa [List.length_replicate]
  have verified := verifyProof_prepared proof prepared
  rcases positional _ _ (mt (lengths_eq_iff vk proof preparedInputs).mp size) with
    ⟨message, panics⟩ | paired
  · rw [panics] at verified
    exact guarded.returns message verified
  · have zeros : proof.ds ++ [proof.c] = List.replicate (n + 1) 0 := List.replicate_succ'.symm
    have zero := sum_pairing_zeros (E := E) (n + 1) vk.deltasH
    rw [← zeros] at zero
    have balanced : E.pairing proof.a proof.b - E.pairing preparedInputs vk.gammaH - 0 =
        E.pairing vk.alphaG vk.betaH := by
      rw [hbeta, hgamma]
      simp [proof]
    rw [paired, ok_bind, sum_leftOf_rightOf, zero, balanced] at verified
    exact size (guarded.accepts (by simpa using verified)).1

/-- No proof with so many commitments gets past the verifier unchecked exactly where there is
one for each delta but the last, or the inputs do not fit the key. -/
theorem guarded_iff (positional : Positional E) {h : G₂}
    (generated : ∀ y : G₂, ∃ t : F, y = t • h) (n : Nat) :
    (∀ proof : Proof G₁ G₂, proof.ds.length = n → Guarded E vk inputs proof) ↔
      n + 1 = vk.deltasH.length ∨ inputs.length + 1 ≠ vk.gammaAbcG.length := by
  constructor
  · intro guarded
    by_contra neither
    obtain ⟨other, fits⟩ := not_or.mp neither
    obtain ⟨proof, count, unguarded⟩ :=
      unguarded_of_length positional generated (not_not.mp fits) other
    exact unguarded (guarded proof count)
  · rintro (size | refused) proof rfl
    · exact guarded_of_length size
    · exact guarded_of_refused refused

end Facts

/-- The pairing of scalars that panics on lists of different lengths. -/
def strictPairing (F : Type) [Field F] : Pairing F F F F where
  pairing := (scalarPairing F).pairing
  multiPairing left right :=
    if left.length = right.length then
      .ok (List.zipWith (fun g h => (scalarPairing F).pairing g h) left right).sum
    else panicWith "itertools: .zip_eq() reached end of one iterator before the other"
  multiPairing_eq _ _ same := if_pos same

def twoStages : VerifyingKey (ZMod 3) (ZMod 3) := ⟨1, 1, 1, 1, [1], [1, 1]⟩

/-- A proof with one commitment is accepted, as the equation says. -/
theorem oneCommitment_guarded :
    Guarded (strictPairing (ZMod 3)) twoStages [] ⟨-1, 1, 0, [0]⟩ ∧
    verifyProof (strictPairing (ZMod 3)) (prepareVerifyingKey (strictPairing (ZMod 3)) twoStages)
      ⟨-1, 1, 0, [0]⟩ [] = .ok true := by
  have positional : Positional (strictPairing (ZMod 3)) := fun left right other =>
    .inl ⟨_, if_neg other⟩
  have generated : ∀ y : ZMod 3, ∃ t : ZMod 3, y = t • (1 : ZMod 3) :=
    fun y => ⟨y, (mul_one y).symm⟩
  exact ⟨(guarded_iff positional generated 1).mpr (.inl rfl) _ rfl, by decide⟩

/-- Without commitments a proof is accepted, or the verifier panics. -/
theorem noCommitment_unguarded : ¬ Guarded (scalarPairing (ZMod 3)) twoStages [] ⟨-1, 1, 0, []⟩ ∧
    ¬ Guarded (strictPairing (ZMod 3)) twoStages [] ⟨-1, 1, 0, []⟩ := by
  constructor
  · intro guarded
    exact absurd (guarded.accepts (by decide)).1 (by decide)
  · intro guarded
    exact guarded.returns _ rfl

end CommitmentLists
