import Hekaton.ProofAcceptance
import Mathlib

/-!
# Proving under a key of another length

`commit` refuses a key whose length is not that of the stage. The proof of the last stage
takes the sum over such a key for zero instead, so a proof comes out whenever the other
checks of the prover pass: the run of the stage, the assertion of debug builds, the points
that the queries and deltas must have, and the length of the quotient.
-/

namespace MismatchedKeys

open LinearCombinations Outcomes ConstraintSystems CPGroth16 LibsnarkReduction ProofAcceptance

variable {F G₁ G₂ : Type} [Field F] [DecidableEq F] [AddCommGroup G₁] [Module F G₁]
variable [AddCommGroup G₂] [Module F G₂]

/-- What the last stage leaves, its witnesses, and the last vector of the committer key. -/
structure LastStage (mscs : MultiStageConstraintSystem F)
    (circuit : MultiStageConstraintSynthesizer F) (pk : ProvingKey G₁ G₂)
    (after : MultiStageConstraintSystem F) (witness : List F) (ck : List G₁) : Prop where
  ran : circuit.runStage mscs circuit.lastStage = .ok after
  current : after.currentStageWitnessAssignment = .ok witness
  key : pk.lastCk = .ok ck

/-- The terms of `C` without those of the last stage. -/
def otherTerms (qap : R1CSToQAP F) (after : MultiStageConstraintSystem F) (pk : ProvingKey G₁ G₂)
    (r s : F) : Outcome G₁ := do
  let assignment := after.cs.fullAssignment.drop 1
  let lastDeltaG ← pk.lastDeltaG
  let aG ← calculateCoeff (r • lastDeltaG) pk.aG pk.vk.alphaG assignment
  let bG ← (if r = 0 then .ok 0
    else calculateCoeff (s • lastDeltaG) pk.bG pk.betaG assignment)
  let h ← qap.witnessMap after.cs
  let hAcc ← expect unwrapNone (msm pk.hG (h.take pk.hG.length))
  .ok (s • aG + r • bG - (r * s) • lastDeltaG + hAcc)

/-- No point under a key of another length, and every point is that of all the products of
the last stage but for the blinding. -/
structure FailsLoudly (qap : R1CSToQAP F) (mscs : MultiStageConstraintSystem F)
    (circuit : MultiStageConstraintSynthesizer F) (pk : ProvingKey G₁ G₂) (r s : F)
    (blinding : G₁) (c : Outcome G₁) : Prop where
  refused : ∀ after witness ck, LastStage mscs circuit pk after witness ck →
    witness.length ≠ ck.length → ∀ point, c ≠ .ok point
  full : ∀ point, c = .ok point → ∃ after witness ck other,
    LastStage mscs circuit pk after witness ck ∧ witness.length = ck.length ∧
    otherTerms qap after pk r s = .ok other ∧ point = other + dot witness ck - blinding

/-- The checks of the prover other than that of the lengths. -/
structure OtherChecks (qap : R1CSToQAP F) (debug : Bool) (mscs : MultiStageConstraintSystem F)
    (circuit : MultiStageConstraintSynthesizer F) (pk : ProvingKey G₁ G₂) (r : F)
    (after : MultiStageConstraintSystem F) (witness : List F) (ck : List G₁) : Prop where
  last : LastStage mscs circuit pk after witness ck
  satisfied : debug = true → after.cs.isSatisfied = .ok true
  aG : pk.aG ≠ []
  bG : r ≠ 0 → pk.bG ≠ []
  bH : pk.bH ≠ []
  deltasG : pk.deltasG ≠ []
  deltasH : pk.vk.deltasH ≠ []
  quotient : ∃ h, qap.witnessMap after.cs = .ok h ∧ h.length = pk.hG.length + 1

omit [AddCommGroup G₂] [Module F G₂] [AddCommGroup G₁] [Module F G₁] [Field F] [DecidableEq F] in
theorem LastStage.unique {mscs : MultiStageConstraintSystem F}
    {circuit : MultiStageConstraintSynthesizer F} {pk : ProvingKey G₁ G₂}
    {after after' : MultiStageConstraintSystem F} {witness witness' : List F} {ck ck' : List G₁}
    (last : LastStage mscs circuit pk after witness ck)
    (last' : LastStage mscs circuit pk after' witness' ck') : witness = witness' ∧ ck = ck' := by
  have same := last.ran.symm.trans last'.ran
  cases same
  have sameWitness := last.current.symm.trans last'.current
  have sameKey := last.key.symm.trans last'.key
  cases sameWitness
  cases sameKey
  constructor <;> rfl

theorem assertSatisfied_eq_ok {debug : Bool} {satisfied : Outcome Bool} :
    assertSatisfied debug satisfied = .ok () ↔ (debug = true → satisfied = .ok true) := by
  cases debug with
  | false => simp [assertSatisfied]
  | true =>
    simp only [assertSatisfied, if_true, bind_eq_ok, debugAssert, forall_const]
    constructor
    · rintro ⟨value, holds, asserted⟩
      cases value with
      | false => cases asserted
      | true => exact holds
    · intro holds
      exact ⟨true, holds, rfl⟩

theorem assertEq_eq_ok {left right : Nat} : assertEq left right = .ok () ↔ left = right := by
  rw [assertEq]
  by_cases equal : left = right
  · simp [equal]
  · simp [equal, panicWith]

omit [DecidableEq F] in
theorem calculateCoeff_nonempty {G : Type} [AddCommGroup G] [Module F G] {initial param : G}
    {query : List G} {assignment : List F} :
    query ≠ [] ↔ ∃ point, calculateCoeff initial query param assignment = .ok point := by
  cases query with
  | nil => simp [calculateCoeff, panicWith]
  | cons el query => simp [calculateCoeff]

theorem lastPoint_nonempty {G : Type} {points : List G} :
    points ≠ [] ↔ ∃ point, expect unwrapNone points.getLast? = .ok point := by
  cases points with
  | nil => simp
  | cons point points => simp [List.getLast?_cons]

omit [DecidableEq F] in
theorem msm_take {G : Type} [AddCommGroup G] [Module F G] {bases : List G} {scalars : List F}
    (size : scalars.length = bases.length + 1) :
    msm bases (scalars.take bases.length) = some (dot (scalars.take bases.length) bases) := by
  rw [msm, if_pos]
  rw [List.length_take, size, Nat.min_eq_left (Nat.le_succ _)]

variable {qap : R1CSToQAP F} {debug : Bool} {mscs after : MultiStageConstraintSystem F}
variable {circuit : MultiStageConstraintSynthesizer F} {pk : ProvingKey G₁ G₂} {r s : F}
variable {witness : List F} {ck : List G₁}

/-- A proof has passed the other checks, and its `C` takes a key of another length for zero. -/
theorem proveLastStage_passes {proof : ProofWithoutComms G₁ G₂}
    (ran : proveLastStage qap debug mscs circuit pk r s = .ok proof) :
    ∃ after witness ck other, OtherChecks qap debug mscs circuit pk r after witness ck ∧
      otherTerms qap after pk r s = .ok other ∧ proof.c = other + (msm ck witness).getD 0 := by
  obtain ⟨after, ranStage, ran⟩ := bind_eq_ok.mp ran
  obtain ⟨_, asserted, ran⟩ := bind_eq_ok.mp ran
  obtain ⟨lastDeltaG, deltaG, ran⟩ := bind_eq_ok.mp ran
  obtain ⟨lastDeltaH, deltaH, ran⟩ := bind_eq_ok.mp ran
  obtain ⟨aG, madeA, ran⟩ := bind_eq_ok.mp ran
  -- both branches of the second coefficient go on the same way
  obtain ⟨bG, madeB, ran⟩ := bind_eq_ok.mp ((apply_ite (fun o : Outcome G₁ => o >>= _) (r = 0) _
    _).trans ran)
  obtain ⟨bH, madeBH, ran⟩ := bind_eq_ok.mp ran
  obtain ⟨witness, current, ran⟩ := bind_eq_ok.mp ran
  obtain ⟨ck, key, ran⟩ := bind_eq_ok.mp ran
  obtain ⟨h, mapped, ran⟩ := bind_eq_ok.mp ran
  obtain ⟨_, size, ran⟩ := bind_eq_ok.mp ran
  obtain ⟨hAcc, summed, ran⟩ := bind_eq_ok.mp ran
  cases ran
  refine ⟨after, witness, ck, s • aG + r • bG - (r * s) • lastDeltaG + hAcc, ?_, ?_, ?_⟩
  · constructor
    · exact ⟨ranStage, current, key⟩
    · exact assertSatisfied_eq_ok.mp asserted
    · exact calculateCoeff_nonempty.mpr ⟨aG, madeA⟩
    · intro nonzero
      rw [if_neg nonzero] at madeB
      exact calculateCoeff_nonempty.mpr ⟨bG, madeB⟩
    · exact calculateCoeff_nonempty.mpr ⟨bH, madeBH⟩
    · exact lastPoint_nonempty.mpr ⟨lastDeltaG, deltaG⟩
    · exact lastPoint_nonempty.mpr ⟨lastDeltaH, deltaH⟩
    · exact ⟨h, mapped, assertEq_eq_ok.mp size⟩
  · rw [otherTerms, deltaG, ok_bind, madeA, ok_bind, madeB, ok_bind, mapped, ok_bind, summed]
    rfl
  · simp only []
    abel

/-- Where the other checks pass, there is a proof. -/
theorem OtherChecks.proves (checks : OtherChecks qap debug mscs circuit pk r after witness ck)
    (s : F) : ∃ proof, proveLastStage qap debug mscs circuit pk r s = .ok proof := by
  obtain ⟨lastDeltaG, deltaG⟩ := lastPoint_nonempty.mp checks.deltasG
  obtain ⟨lastDeltaH, deltaH⟩ := lastPoint_nonempty.mp checks.deltasH
  obtain ⟨aG, madeA⟩ : ∃ point, calculateCoeff (r • lastDeltaG) pk.aG pk.vk.alphaG
      (after.cs.fullAssignment.drop 1) = .ok point := calculateCoeff_nonempty.mp checks.aG
  obtain ⟨bG, madeB⟩ : ∃ point, (if r = 0 then .ok 0 else calculateCoeff (s • lastDeltaG) pk.bG
      pk.betaG (after.cs.fullAssignment.drop 1)) = (.ok point : Outcome G₁) := by
    by_cases zero : r = 0
    · exact ⟨0, if_pos zero⟩
    · rw [if_neg zero]
      exact calculateCoeff_nonempty.mp (checks.bG zero)
  obtain ⟨bH, madeBH⟩ : ∃ point, calculateCoeff (s • lastDeltaH) pk.bH pk.vk.betaH
      (after.cs.fullAssignment.drop 1) = .ok point := calculateCoeff_nonempty.mp checks.bH
  obtain ⟨h, mapped, size⟩ := checks.quotient
  refine ⟨⟨aG, bH, s • aG + r • bG - (r * s) • lastDeltaG + (msm ck witness).getD 0 +
    dot (h.take pk.hG.length) pk.hG⟩, ?_⟩
  refine bind_eq_ok.mpr ⟨after, checks.last.ran, ?_⟩
  refine bind_eq_ok.mpr ⟨(), assertSatisfied_eq_ok.mpr checks.satisfied, ?_⟩
  refine bind_eq_ok.mpr ⟨lastDeltaG, deltaG, ?_⟩
  refine bind_eq_ok.mpr ⟨lastDeltaH, deltaH, ?_⟩
  refine bind_eq_ok.mpr ⟨aG, madeA, ?_⟩
  refine (apply_ite (fun o : Outcome G₁ => o >>= _) (r = 0) _ _).symm.trans
    (bind_eq_ok.mpr ⟨bG, madeB, ?_⟩)
  refine bind_eq_ok.mpr ⟨bH, madeBH, ?_⟩
  refine bind_eq_ok.mpr ⟨witness, checks.last.current, ?_⟩
  refine bind_eq_ok.mpr ⟨ck, checks.last.key, ?_⟩
  refine bind_eq_ok.mpr ⟨h, mapped, ?_⟩
  refine bind_eq_ok.mpr ⟨(), assertEq_eq_ok.mpr size, ?_⟩
  rw [msm_take size]
  rfl

/-- The lengths agree wherever the other checks pass. -/
def LengthsAgree (qap : R1CSToQAP F) (debug : Bool) (mscs : MultiStageConstraintSystem F)
    (circuit : MultiStageConstraintSynthesizer F) (pk : ProvingKey G₁ G₂) (r : F) : Prop :=
  ∀ after witness ck, OtherChecks qap debug mscs circuit pk r after witness ck →
    witness.length = ck.length

/-- A point made of the last stage's `C` under a further check fails loudly when that check
fails or the lengths agree. -/
theorem failsLoudly_under {blinding : G₁} {c : Outcome G₁} {Further : Prop}
    (made : ∀ point, c = .ok point ↔ Further ∧ ∃ proof,
      proveLastStage qap debug mscs circuit pk r s = .ok proof ∧ point = proof.c - blinding) :
    FailsLoudly qap mscs circuit pk r s blinding c ↔
      (Further → LengthsAgree qap debug mscs circuit pk r) := by
  constructor
  · intro loud further after witness ck checks
    obtain ⟨proof, ran⟩ := checks.proves s
    by_contra mismatch
    exact loud.refused after witness ck checks.last mismatch _
      ((made _).mpr ⟨further, proof, ran, rfl⟩)
  · intro agree
    constructor
    · intro after witness ck last mismatch point made'
      obtain ⟨further, proof, ran, _⟩ := (made point).mp made'
      obtain ⟨after', witness', ck', other, checks, _⟩ := proveLastStage_passes ran
      obtain ⟨rfl, rfl⟩ := last.unique checks.last
      exact mismatch (agree further after' witness ck checks)
    · intro point made'
      obtain ⟨further, proof, ran, rfl⟩ := (made point).mp made'
      obtain ⟨after, witness, ck, other, checks, terms, same⟩ := proveLastStage_passes ran
      have size := agree further after witness ck checks
      refine ⟨after, witness, ck, other, checks.last, size, terms, ?_⟩
      rw [same, msm, if_pos size.symm, Option.getD_some]

/-- Proving under a key of another length fails, and every `C` has all the products of the
last stage, exactly when the lengths agree wherever the prover's other checks pass. -/
theorem failsLoudly_iff (qap : R1CSToQAP F) (debug : Bool) (builder : CommitmentBuilder F G₁ G₂)
    (comms : List G₁) (commRands : List F) (r s : F) :
    (FailsLoudly qap builder.cs builder.circuit builder.pk r s 0
        ((proveLastStage qap debug builder.cs builder.circuit builder.pk r s).map
          ProofWithoutComms.c) ↔
      LengthsAgree qap debug builder.cs builder.circuit builder.pk r) ∧
    (FailsLoudly qap builder.cs builder.circuit builder.pk r s
        (msmUnchecked builder.pk.deltasG commRands)
        ((builder.prove qap debug comms commRands r s).map Proof.c) ↔
      (builder.pk.deltasG.length = commRands.length + 1 →
        LengthsAgree qap debug builder.cs builder.circuit builder.pk r)) := by
  constructor
  · refine (failsLoudly_under fun point => ?_).trans true_imp_iff
    cases ran : proveLastStage qap debug builder.cs builder.circuit builder.pk r s with
    | error fault => simp [Except.map]
    | ok proof => simp [Except.map, eq_comm]
  · refine failsLoudly_under fun point => ?_
    rw [CommitmentBuilder.prove]
    cases ran : proveLastStage qap debug builder.cs builder.circuit builder.pk r s with
    | error fault => simp [Except.map]
    | ok proof =>
      by_cases deltas : builder.pk.deltasG.length = commRands.length + 1
      · simp [Except.map, assertEq, deltas, eq_comm]
      · simp [Except.map, assertEq, deltas, panicWith]

omit [AddCommGroup G₂] [Module F G₂] in
/-- A commitment is made only under a key of the stage's length. -/
theorem commit_eq_ok {builder builder' : CommitmentBuilder F G₁ G₂} {randomness : F} {com : G₁} :
    builder.commit debug randomness = .ok (com, builder') ↔
      ∃ cs witness ck, builder.circuit.runStage builder.cs builder.curStage = .ok cs ∧
        (debug = true → unwrap cs.cs.isSatisfied = .ok true) ∧
        cs.currentStageWitnessAssignment = .ok witness ∧
        builder.pk.ck.deltasAbcG[builder.curStage]? = some ck ∧ witness.length = ck.length ∧
        com = dot witness ck + randomness • builder.pk.ck.lastDeltaG ∧
        builder' = { builder with cs := cs, curStage := builder.curStage + 1 } := by
  constructor
  · intro run
    obtain ⟨cs, ran, run⟩ := bind_eq_ok.mp run
    obtain ⟨_, asserted, run⟩ := bind_eq_ok.mp run
    obtain ⟨witness, current, run⟩ := bind_eq_ok.mp run
    obtain ⟨ck, found, run⟩ := bind_eq_ok.mp run
    obtain ⟨_, size, run⟩ := bind_eq_ok.mp run
    obtain ⟨commitment, sum, run⟩ := bind_eq_ok.mp run
    cases run
    have equal := assertEq_eq_ok.mp size
    rw [msm, if_pos equal.symm] at sum
    cases sum
    exact ⟨cs, witness, ck, ran, assertSatisfied_eq_ok.mp asserted, current,
      expect_eq_ok.mp found, equal, rfl, rfl⟩
  · rintro ⟨cs, witness, ck, ran, asserted, current, found, equal, rfl, rfl⟩
    refine bind_eq_ok.mpr ⟨cs, ran, ?_⟩
    refine bind_eq_ok.mpr ⟨(), assertSatisfied_eq_ok.mpr asserted, ?_⟩
    refine bind_eq_ok.mpr ⟨witness, current, ?_⟩
    refine bind_eq_ok.mpr ⟨ck, expect_eq_ok.mpr found, ?_⟩
    refine bind_eq_ok.mpr ⟨(), assertEq_eq_ok.mpr equal, ?_⟩
    refine bind_eq_ok.mpr ⟨dot witness ck, ?_, rfl⟩
    rw [msm, if_pos equal.symm, expect_some]

/-- The square of the committed number, and a bit that the square's key does not weigh. -/
def bitCircuit : StagedCircuit (ZMod 5) where
  stages := [[.newWitness (1 + 1)], [.newInput (-1), .newWitness 1,
    .enforce ⟨[(1, .witness 0)], [(1, .witness 0)], [(1, .input 1)]⟩,
    .enforce ⟨[(1, .witness 1)], [(1, .witness 1)], [(1, .witness 1)]⟩]]
  inScope := by simp [ScopedSteps, Column.Allocated]

omit [DecidableEq F] in
/-- The quotient has the length of the domain, whatever the assignment. -/
theorem witnessMap_length (domain : EvaluationDomain F) {cs cs' : ConstraintSystem F} {h : List F}
    (mapped : (libsnarkReduction domain).witnessMap cs = .ok h)
    (same : domain.new (cs'.numConstraints + cs'.numInstanceVariables) =
      domain.new (cs.numConstraints + cs.numInstanceVariables)) :
    ∃ h', (libsnarkReduction domain).witnessMap cs' = .ok h' ∧ h'.length = h.length := by
  simp only [libsnarkReduction, same] at mapped ⊢
  cases found : domain.new (cs.numConstraints + cs.numInstanceVariables) with
  | none => simp [found] at mapped
  | some nodes =>
    simp only [found, Except.ok.injEq] at mapped ⊢
    refine ⟨_, rfl, ?_⟩
    rw [← mapped, quotientOf, quotientOf, List.length_map, List.length_map]

/-- What the prover reads of the square's key: one weight for the number, none for the last
stage, and a quotient over four nodes. -/
structure SquareKey (pk : ProvingKey (ZMod 5) (ZMod 5)) : Prop where
  keys : ∃ weight, pk.ck.deltasAbcG = [[weight], []]
  aG : pk.aG ≠ []
  bH : pk.bH ≠ []
  deltasG : pk.deltasG.length = 1 + 1
  deltasH : pk.vk.deltasH ≠ []
  quotient : ∀ cs : ConstraintSystem (ZMod 5),
    (radix2Domain two_primitive).new (cs.numConstraints + cs.numInstanceVariables) =
      (radix2Domain two_primitive).new 3 →
    ∃ h, (libsnarkReduction (radix2Domain two_primitive)).witnessMap cs = .ok h ∧
      h.length = pk.hG.length + 1

theorem squareKeys {keys : List (List (ZMod 5))}
    (lengths : List.Forall₂ (fun steps (key : List (ZMod 5)) => key.length =
      (witnesses steps).length) (squareCircuit 0 0).stages keys) :
    ∃ weight, keys = [[weight], []] := by
  obtain _ | ⟨one, _ | ⟨none, _ | _⟩⟩ := lengths
  obtain ⟨weight, rfl⟩ := List.length_eq_one_iff.mp one
  obtain rfl := List.length_eq_zero_iff.mp none
  exact ⟨weight, rfl⟩

theorem squareKey_generated : ∃ pk,
    generateParameters (libsnarkReduction (radix2Domain two_primitive))
      (squareCircuit 0 0).synthesizer squareTrapdoor = .ok pk ∧ SquareKey pk := by
  obtain ⟨q, evaluates, generated⟩ := generateParameters_eq squareTrapdoor
    (libsnarkReduction_lawful (radix2Domain two_primitive)) (squareCircuit 0 0) rfl (by decide)
    (by decide) (by decide)
  have columns : Columns q 3 := ⟨evaluates.a_length, evaluates.b_length, evaluates.c_length⟩
  obtain ⟨h, mapped, quotient⟩ := evaluates.quotient (squareCircuit 0 0).assigned
    ⟨rfl, rfl, rfl⟩ ⟨rfl, rfl, rfl⟩ (by decide)
  refine ⟨_, generated, ?_⟩
  have lengths : KeysMatch (squareCircuit 0 0) (keyOf squareTrapdoor q 2 1
      (rangesFrom 0 (squareCircuit 0 0).stages)) := by
    refine keysMatch columns ?_ ?_
    · rfl
    · decide
  constructor
  · exact squareKeys lengths
  · intro empty
    have size := congrArg List.length empty
    rw [keyOf, List.length_map, columns.a] at size
    cases size
  · intro empty
    have size := congrArg List.length empty
    rw [keyOf, List.length_map, columns.b] at size
    cases size
  · rfl
  · exact List.cons_ne_nil _ _
  · intro cs same
    obtain ⟨h', mapped', size⟩ := witnessMap_length (radix2Domain two_primitive) mapped same
    have positive := evaluates.nonempty
    refine ⟨h', mapped', ?_⟩
    rw [size, quotient.length, keyOf, List.length_map, List.length_map, List.length_range]
    omega

/-- Under the key of the square alone the bit slips through: the committer accepts the first
stage and a proof comes out, though its `C` lacks the bit. -/
theorem bit_proved : ∃ pk com builder proof,
    generateParameters (libsnarkReduction (radix2Domain two_primitive))
      (squareCircuit 0 0).synthesizer squareTrapdoor = .ok pk ∧
    (CommitmentBuilder.new bitCircuit.synthesizer pk).commit true 1 = .ok (com, builder) ∧
    builder.prove (libsnarkReduction (radix2Domain two_primitive)) true [com] [1] 0 1 =
      .ok proof ∧
    ¬ FailsLoudly (libsnarkReduction (radix2Domain two_primitive)) builder.cs builder.circuit
      builder.pk 0 1 0 ((proveLastStage (libsnarkReduction (radix2Domain two_primitive)) true
        builder.cs builder.circuit builder.pk 0 1).map ProofWithoutComms.c) ∧
    ¬ FailsLoudly (libsnarkReduction (radix2Domain two_primitive)) builder.cs builder.circuit
      builder.pk 0 1 (msmUnchecked builder.pk.deltasG [(1 : ZMod 5)])
      ((builder.prove (libsnarkReduction (radix2Domain two_primitive)) true [com] [1] 0 1).map
        Proof.c) := by
  obtain ⟨pk, generated, key⟩ := squareKey_generated
  obtain ⟨weight, keys⟩ := key.keys
  let builder : CommitmentBuilder (ZMod 5) (ZMod 5) (ZMod 5) := ⟨afterStages false
    [[.newWitness (1 + 1)]], bitCircuit.synthesizer, 1, pk⟩
  have holds : (afterStages false [[Step.newWitness (1 + 1 : ZMod 5)]]).cs.isSatisfied =
      .ok true := by
    decide
  have committed : (CommitmentBuilder.new bitCircuit.synthesizer pk).commit true 1 =
      .ok (dot [(1 + 1 : ZMod 5)] [weight] + (1 : ZMod 5) • pk.ck.lastDeltaG, builder) := by
    refine commit_eq_ok.mpr ⟨builder.cs, [1 + 1], [weight], rfl, ?_, ?_, ?_, rfl, rfl, rfl⟩
    · intro _
      exact congrArg unwrap holds
    · rfl
    · rw [CommitmentBuilder.new, keys]
      rfl
  have checks : OtherChecks (libsnarkReduction (radix2Domain two_primitive)) true builder.cs
      builder.circuit builder.pk 0 (afterStages false bitCircuit.stages) [1] [] := by
    constructor
    · constructor
      · rfl
      · rfl
      · rw [ProvingKey.lastCk, keys]
        rfl
    · intro _
      decide
    · exact key.aG
    · intro nonzero
      exact absurd rfl nonzero
    · exact key.bH
    · intro empty
      have size := key.deltasG
      rw [empty] at size
      cases size
    · exact key.deltasH
    · exact key.quotient _ rfl
  obtain ⟨last, proved⟩ := checks.proves 1
  have finished : builder.prove (libsnarkReduction (radix2Domain two_primitive)) true
      [dot [(1 + 1 : ZMod 5)] [weight] + (1 : ZMod 5) • pk.ck.lastDeltaG] [1] 0 1 =
        .ok ⟨last.a, last.b, last.c - msmUnchecked pk.deltasG [(1 : ZMod 5)],
          [dot [(1 + 1 : ZMod 5)] [weight] + (1 : ZMod 5) • pk.ck.lastDeltaG]⟩ := by
    refine bind_eq_ok.mpr ⟨last, proved, ?_⟩
    exact bind_eq_ok.mpr ⟨(), assertEq_eq_ok.mpr key.deltasG, rfl⟩
  refine ⟨pk, _, builder, _, generated, committed, finished, ?_, ?_⟩
  · intro loud
    refine loud.refused _ _ _ checks.last (by decide) last.c ?_
    rw [proved]
    rfl
  · intro loud
    refine loud.refused _ _ _ checks.last (by decide)
      (last.c - msmUnchecked pk.deltasG [(1 : ZMod 5)]) ?_
    rw [finished]
    rfl

end MismatchedKeys
