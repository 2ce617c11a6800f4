import Hekaton.ConstraintSystems
import Mathlib.Algebra.Algebra.Bilinear

/-!
# The commit-and-prove SNARK

Key generation, commitments to stages, the proof of the last stage and verification.
The scalar field, the groups and the target group are parameters, and so are the pairing
and the reduction to a quadratic arithmetic program, which belong to the libraries.
Random draws are arguments, and a point stands for every form it is stored in.
-/

namespace CPGroth16

open LinearCombinations Outcomes ConstraintSystems

scoped instance scalars_commute {F G : Type} [Field F] [AddCommGroup G] [Module F G] :
    SMulCommClass F F G :=
  smulCommClass_self F G

/-- A pairing whose product over two lists of one length is position by position. -/
structure Pairing (F G₁ G₂ GT : Type) [Field F] [AddCommGroup G₁] [Module F G₁]
    [AddCommGroup G₂] [Module F G₂] [AddCommGroup GT] [Module F GT] where
  pairing : G₁ →ₗ[F] G₂ →ₗ[F] GT
  /-- The Miller loop over both lists and its final exponentiation. -/
  multiPairing : List G₁ → List G₂ → Outcome GT
  multiPairing_eq : ∀ left right, left.length = right.length →
    multiPairing left right = .ok (List.zipWith (fun g h => pairing g h) left right).sum

/-- The pairing of scalars with themselves. -/
def scalarPairing (F : Type) [Field F] : Pairing F F F F where
  pairing := LinearMap.mul F F
  multiPairing left right := .ok (List.zipWith (fun g h => LinearMap.mul F F g h) left right).sum
  multiPairing_eq _ _ _ := rfl

/-- The columns of the program at a point, its vanishing polynomial there, and its sizes. -/
structure QapEvaluation (F : Type) where
  a : List F
  b : List F
  c : List F
  zt : F
  qapNumVariables : Nat
  mRaw : Nat

structure R1CSToQAP (F : Type) where
  /-- The elements of the evaluation domain of at least this size, if there is one. -/
  newDomain : Nat → Option (List F)
  instanceMapWithEvaluation : ConstraintSystem F → F → Outcome (QapEvaluation F)
  witnessMap : ConstraintSystem F → Outcome (List F)
  hQueryScalars : Nat → F → F → F → Outcome (List F)

/-- The quotient's coefficients `h` of a satisfied system: `A(t)B(t) - C(t) = H(t)Z(t)`. -/
structure Quotient {F : Type} [Field F] (q : QapEvaluation F) (t : F) (assignment h : List F) :
    Prop where
  length : h.length = q.mRaw
  divides : dot assignment q.a * dot assignment q.b - dot assignment q.c =
    dot (h.take (q.mRaw - 1)) ((List.range (q.mRaw - 1)).map (t ^ ·)) * q.zt

/-- The evaluation of a system has one column a variable, and every satisfied system of the
same shape has a quotient. -/
structure Evaluates {F : Type} [Field F] [DecidableEq F] (qap : R1CSToQAP F)
    (cs : ConstraintSystem F) (t : F) (q : QapEvaluation F) : Prop where
  a_length : q.a.length = cs.numInstanceVariables + cs.numWitnessVariables
  b_length : q.b.length = cs.numInstanceVariables + cs.numWitnessVariables
  c_length : q.c.length = cs.numInstanceVariables + cs.numWitnessVariables
  nonempty : 0 < q.mRaw
  quotient : ∀ cs' : ConstraintSystem F, cs.SameShape cs' → cs'.Complete →
    cs'.isSatisfied = .ok true →
    ∃ h, qap.witnessMap cs' = .ok h ∧ Quotient q t cs'.fullAssignment h

/-- What the library documents of the reduction. -/
structure R1CSToQAP.Lawful {F : Type} [Field F] [DecidableEq F] (qap : R1CSToQAP F) : Prop where
  instanceMap : ∀ (cs : ConstraintSystem F) (t : F), cs.Scoped →
    (qap.newDomain (cs.numConstraints + cs.numInstanceVariables)).isSome →
    ∃ q, qap.instanceMapWithEvaluation cs t = .ok q ∧ Evaluates qap cs t q
  hQuery : ∀ (maxPower : Nat) (t zt deltaInverse : F), qap.hQueryScalars maxPower t zt deltaInverse =
    .ok ((List.range maxPower).map fun i => zt * deltaInverse * t ^ i)

structure Proof (G₁ G₂ : Type) where
  a : G₁
  b : G₂
  c : G₁
  ds : List G₁

structure ProofWithoutComms (G₁ G₂ : Type) where
  a : G₁
  b : G₂
  c : G₁

structure VerifyingKey (G₁ G₂ : Type) where
  alphaG : G₁
  betaH : G₂
  gammaH : G₂
  lastDeltaH : G₂
  gammaAbcG : List G₁
  deltasH : List G₂

structure PreparedVerifyingKey (G₁ G₂ GT : Type) where
  vk : VerifyingKey G₁ G₂
  alphaBetaGt : GT
  negGammaH : G₂
  negDeltasH : List G₂

structure CommitterKey (G₁ : Type) where
  lastDeltaG : G₁
  deltasAbcG : List (List G₁)

structure ProvingKey (G₁ G₂ : Type) where
  vk : VerifyingKey G₁ G₂
  betaG : G₁
  aG : List G₁
  bG : List G₁
  bH : List G₂
  hG : List G₁
  ck : CommitterKey G₁
  deltasG : List G₁

section Scheme
variable {F G₁ G₂ GT : Type} [Field F] [DecidableEq F] [AddCommGroup G₁] [Module F G₁]
variable [AddCommGroup G₂] [Module F G₂] [AddCommGroup GT] [Module F GT]

namespace ProvingKey

def lastDeltaG (pk : ProvingKey G₁ G₂) : Outcome G₁ := expect unwrapNone pk.deltasG.getLast?

def lastDeltaH (pk : ProvingKey G₁ G₂) : Outcome G₂ := expect unwrapNone pk.vk.deltasH.getLast?

def lastCk (pk : ProvingKey G₁ G₂) : Outcome (List G₁) :=
  expect unwrapNone pk.ck.deltasAbcG.getLast?

end ProvingKey

/-- What key generation draws; one delta a stage, and a point outside the domain. -/
structure Trapdoor (F G₁ G₂ : Type) where
  alpha : F
  beta : F
  gamma : F
  deltas : Nat → F
  g1Generator : G₁
  g2Generator : G₂
  t : F

/-- `inverse().expect(..)`. -/
def inverseOf (message : String) (x : F) : Outcome F :=
  if x = 0 then panicWith message else .ok x⁻¹

/-- `(beta * a + alpha * b + c) * scale`, variable by variable. -/
def combined (alpha beta scale : F) (a b c : List F) : List F :=
  List.zipWith (fun ab c => (beta * ab.1 + alpha * ab.2 + c) * scale) (a.zip b) c

/-- The polynomials of one stage, over its delta. -/
def deltaAbc (trapdoor : Trapdoor F G₁ G₂) (q : QapEvaluation F) (numInstanceVariables : Nat)
    (stage : F × Nat × Nat) : Outcome (List F) := do
  let range := (stage.2.1 + numInstanceVariables, stage.2.2 + numInstanceVariables)
  let deltaInv ← inverseOf "deltas should be non-zero" stage.1
  let a ← MultiStageConstraintSystem.sliced q.a range
  let b ← MultiStageConstraintSystem.sliced q.b range
  let c ← MultiStageConstraintSystem.sliced q.c range
  .ok (combined trapdoor.alpha trapdoor.beta deltaInv a b c)

/-- `FixedBase::msm` over the table of one generator. -/
def fixedBaseMsm {G : Type} [AddCommGroup G] [Module F G] (generator : G) (scalars : List F) :
    List G :=
  scalars.map (· • generator)

def generateParameters (qap : R1CSToQAP F) (circuit : MultiStageConstraintSynthesizer F)
    (trapdoor : Trapdoor F G₁ G₂) : Outcome (ProvingKey G₁ G₂) := do
  let deltas := (List.range circuit.totalNumStages).map trapdoor.deltas
  let g := trapdoor.g1Generator
  let h := trapdoor.g2Generator
  let empty : MultiStageConstraintSystem F := ⟨ConstraintSystem.new.setMode true, []⟩
  let mscs ← (List.range circuit.totalNumStages).foldlM circuit.runStage empty
  let domainSize := mscs.cs.numConstraints + mscs.cs.numInstanceVariables
  if (qap.newDomain domainSize).isNone then .error .polynomialDegreeTooLarge
  let numInstanceVariables := mscs.cs.numInstanceVariables
  let q ← qap.instanceMapWithEvaluation mscs.cs trapdoor.t
  let deltasAbc ← (deltas.zip mscs.variableRangeForStage).mapM
    (deltaAbc trapdoor q numInstanceVariables)
  if trapdoor.gamma = 0 then .error .unexpectedIdentity
  let instanceA ← MultiStageConstraintSystem.sliced q.a (0, numInstanceVariables)
  let instanceB ← MultiStageConstraintSystem.sliced q.b (0, numInstanceVariables)
  let instanceC ← MultiStageConstraintSystem.sliced q.c (0, numInstanceVariables)
  let gammaAbc := combined trapdoor.alpha trapdoor.beta trapdoor.gamma⁻¹ instanceA instanceB instanceC
  let lastDelta ← expect "we should have at least one witness." deltas.getLast?
  let lastDeltaInv ← inverseOf "delta should not be zero" lastDelta
  let deltasG := fixedBaseMsm g deltas
  let deltasH := fixedBaseMsm h deltas
  let lastDeltaG ← expect unwrapNone deltasG.getLast?
  let lastDeltaH ← expect unwrapNone deltasH.getLast?
  let hScalars ← qap.hQueryScalars (q.mRaw - 1) trapdoor.t q.zt lastDeltaInv
  .ok {
    vk := {
      alphaG := trapdoor.alpha • g
      betaH := trapdoor.beta • h
      gammaH := trapdoor.gamma • h
      lastDeltaH := lastDeltaH
      gammaAbcG := fixedBaseMsm g gammaAbc
      deltasH := deltasH }
    betaG := trapdoor.beta • g
    aG := fixedBaseMsm g q.a
    bG := fixedBaseMsm g q.b
    bH := fixedBaseMsm h q.b
    hG := fixedBaseMsm g hScalars
    ck := ⟨lastDeltaG, deltasAbc.map (fixedBaseMsm g)⟩
    deltasG := deltasG }

/-- `VariableBaseMSM::msm`, which refuses lists of different lengths. -/
def msm {G : Type} [AddCommGroup G] [Module F G] (bases : List G) (scalars : List F) : Option G :=
  if bases.length = scalars.length then some (dot scalars bases) else none

def msmUnchecked {G : Type} [AddCommGroup G] [Module F G] (bases : List G) (scalars : List F) : G :=
  dot scalars bases

/-- Debug assertions run in debug builds only. -/
def debugAssert (debug : Bool) (message : String) (condition : Bool) : Outcome Unit :=
  if debug && !condition then panicWith message else .ok ()

def assertEq (left right : Nat) : Outcome Unit :=
  if left = right then .ok () else panicWith "assertion `left == right` failed"

def calculateCoeff {G : Type} [AddCommGroup G] [Module F G] (initial : G) (query : List G)
    (vkParam : G) (assignment : List F) : Outcome G :=
  match query with
  | [] => panicWith "index out of bounds: the len is 0 but the index is 0"
  | el :: query => .ok (initial + el + msmUnchecked query assignment + vkParam)

def unsatisfied : String := "assertion failed: cs.is_satisfied()?"

/-- The assertion reads the constraint system in debug builds only. -/
def assertSatisfied (debug : Bool) (isSatisfied : Outcome Bool) : Outcome Unit :=
  if debug then do
    let satisfied ← isSatisfied
    debugAssert debug unsatisfied satisfied
  else .ok ()

/-- `Result::unwrap`. -/
def unwrap {α : Type} : Outcome α → Outcome α
  | .ok a => .ok a
  | .error _ => panicWith "called `Result::unwrap()` on an `Err` value"

def proveLastStage (qap : R1CSToQAP F) (debug : Bool) (mscs : MultiStageConstraintSystem F)
    (circuit : MultiStageConstraintSynthesizer F) (pk : ProvingKey G₁ G₂) (r s : F) :
    Outcome (ProofWithoutComms G₁ G₂) := do
  let mscs ← circuit.runStage mscs circuit.lastStage
  assertSatisfied debug mscs.cs.isSatisfied
  -- the one-variable is skipped
  let assignment := mscs.cs.fullAssignment.drop 1
  let lastDeltaG ← pk.lastDeltaG
  let lastDeltaH ← pk.lastDeltaH
  let aG ← calculateCoeff (r • lastDeltaG) pk.aG pk.vk.alphaG assignment
  let bG ← if r = 0 then .ok 0
    else calculateCoeff (s • lastDeltaG) pk.bG pk.betaG assignment
  let bH ← calculateCoeff (s • lastDeltaH) pk.bH pk.vk.betaH assignment
  let currentWitness ← mscs.currentStageWitnessAssignment
  let lastCk ← pk.lastCk
  -- a key of another length contributes nothing
  let lAuxAcc := (msm lastCk currentWitness).getD 0
  let h ← qap.witnessMap mscs.cs
  assertEq h.length (pk.hG.length + 1)
  let hAcc ← expect unwrapNone (msm pk.hG (h.take pk.hG.length))
  let cG := s • aG + r • bG - (r * s) • lastDeltaG + lAuxAcc + hAcc
  .ok ⟨aG, bH, cG⟩

structure CommitmentBuilder (F G₁ G₂ : Type) where
  cs : MultiStageConstraintSystem F
  circuit : MultiStageConstraintSynthesizer F
  curStage : Nat
  pk : ProvingKey G₁ G₂

namespace CommitmentBuilder

def new (circuit : MultiStageConstraintSynthesizer F) (pk : ProvingKey G₁ G₂) :
    CommitmentBuilder F G₁ G₂ :=
  ⟨.new, circuit, 0, pk⟩

/-- Commit to the witnesses of the next stage. -/
def commit (debug : Bool) (builder : CommitmentBuilder F G₁ G₂) (randomness : F) :
    Outcome (G₁ × CommitmentBuilder F G₁ G₂) := do
  let cs ← builder.circuit.runStage builder.cs builder.curStage
  assertSatisfied debug (unwrap cs.cs.isSatisfied)
  let currentWitness ← cs.currentStageWitnessAssignment
  let currentCk ← expect "no more values left in committing key"
    builder.pk.ck.deltasAbcG[builder.curStage]?
  assertEq currentWitness.length currentCk.length
  let commitment ← expect unwrapNone (msm currentCk currentWitness)
  .ok (commitment + randomness • builder.pk.ck.lastDeltaG,
    { builder with cs := cs, curStage := builder.curStage + 1 })

def prove (qap : R1CSToQAP F) (debug : Bool) (builder : CommitmentBuilder F G₁ G₂)
    (comms : List G₁) (commRands : List F) (r s : F) : Outcome (Proof G₁ G₂) := do
  let proof ← proveLastStage qap debug builder.cs builder.circuit builder.pk r s
  assertEq builder.pk.deltasG.length (commRands.length + 1)
  let kappasEtasG1 := msmUnchecked builder.pk.deltasG commRands
  .ok ⟨proof.a, proof.b, proof.c - kappasEtasG1, comms⟩

end CommitmentBuilder

variable (E : Pairing F G₁ G₂ GT)

def prepareVerifyingKey (vk : VerifyingKey G₁ G₂) : PreparedVerifyingKey G₁ G₂ GT where
  vk := vk
  alphaBetaGt := E.pairing vk.alphaG vk.betaH
  negGammaH := -vk.gammaH
  negDeltasH := vk.deltasH.map (- ·)

variable [DecidableEq GT]

def verifyProofWithPreparedInputs (pvk : PreparedVerifyingKey G₁ G₂ GT) (proof : Proof G₁ G₂)
    (preparedInputs : G₁) : Outcome Bool := do
  let lhs := [proof.a] ++ [preparedInputs] ++ proof.ds ++ [proof.c]
  let rhs := [proof.b] ++ [pvk.negGammaH] ++ pvk.negDeltasH
  let test ← E.multiPairing lhs rhs
  .ok (test = pvk.alphaBetaGt)

def prepareInputs (pvk : PreparedVerifyingKey G₁ G₂ GT) (publicInputs : List F) : Outcome G₁ :=
  if publicInputs.length + 1 ≠ pvk.vk.gammaAbcG.length then .error .malformedVerifyingKey
  else match pvk.vk.gammaAbcG with
    | [] => panicWith "index out of bounds: the len is 0 but the index is 0"
    | base :: bases => .ok ((publicInputs.zip bases).foldl (fun gIc p => gIc + p.1 • p.2) base)

def verifyProof (vk : PreparedVerifyingKey G₁ G₂ GT) (proof : Proof G₁ G₂)
    (publicInputs : List F) : Outcome Bool := do
  let preparedInputs ← prepareInputs vk publicInputs
  verifyProofWithPreparedInputs E vk proof preparedInputs

end Scheme
end CPGroth16
