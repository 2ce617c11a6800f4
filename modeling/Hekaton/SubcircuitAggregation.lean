import Hekaton.TwistedSums
import Hekaton.Workers
import Mathlib

/-!
# Aggregating the proofs of the subcircuits

The aggregator combines all verification equations under the powers of one challenge, and
the vectors on both sides under powers of two more, and proves the inner product of what
comes out. The sixteen cross terms add up to that inner product, the combined equation is
the sum of the errors of the single ones, and the combined commitment is the commitment to
the combined vectors.
-/

namespace SubcircuitAggregation

open LinearCombinations TwistedSums Outcomes CPGroth16 Aggregation Workers

section Libraries
variable (F G₁ G₂ GT Com Pf : Type) [Field F] [AddCommGroup G₁] [Module F G₁]
variable [AddCommGroup G₂] [Module F G₂] [AddCommGroup GT] [Module F GT]
variable [AddCommGroup Com] [Module F Com]

/-- Commitments to a vector of either side or to both, linear on the right as well. -/
structure IPCommitment extends TIPPCommitment F G₁ G₂ Com where
  right_add : ∀ l l', l.length = supportedSize → l'.length = supportedSize →
    right (List.zipWith (· + ·) l l') = right l + right l'
  right_smul : ∀ (s : F) l, l.length = supportedSize → right (l.map (s • ·)) = s • right l
  withIp : List G₁ → List G₂ → Com
  withIp_eq : ∀ l r, l.length = supportedSize → r.length = supportedSize →
    withIp l r = left l + right r

variable {F G₁ G₂ GT Com} in
/-- The inner product with position `i` under the power `i` of the twist. -/
structure PairingInnerProduct (E : Pairing F G₁ G₂ GT) where
  twistedInnerProduct : List G₁ → List G₂ → F → Outcome GT
  twistedInnerProduct_eq : ∀ left right twist, left.length = right.length →
    twistedInnerProduct left right twist =
      .ok (dot (powers left.length twist) (List.zipWith (fun g h => E.pairing g h) left right))

structure Instance where
  size : Nat
  output : GT
  commitment : Com
  twist : F

structure Witness where
  left : List G₁
  right : List G₂

/-- The argument for twisted inner products of committed vectors, under one pair of keys. -/
structure TIPA where
  prove : Instance F GT Com → Witness G₁ G₂ → Outcome Pf
  verify : Instance F GT Com → Pf → Outcome Bool

/-- A transcript that challenges are derived from. -/
structure ProtoTranscript (Seed : Type) where
  State : Type
  new : String → State
  appendMessage : State → String → List UInt8 → State
  challengeBytes : State → String → Seed × State
  serializeCom : Com → List UInt8
  serializeTerms : List (List GT) → List UInt8

/-- What the aggregator is built with. -/
structure Backend where
  debug : Bool
  E : Pairing F G₁ G₂ GT
  innerProduct : PairingInnerProduct E
  ipp : IPCommitment F G₁ G₂ Com
  tipa : TIPA F G₁ G₂ GT Com Pf
  rng : SeedableRng F
  transcript : ProtoTranscript GT Com rng.Seed

end Libraries

section Vectors
variable {F G₁ G₂ GT Com Pf : Type} [Field F] [AddCommGroup G₁] [Module F G₁]
variable [AddCommGroup G₂] [Module F G₂] [AddCommGroup GT] [Module F GT]
variable [AddCommGroup Com] [Module F Com]

def IPCommitment.commitWithIp (ipp : IPCommitment F G₁ G₂ Com) (l : List G₁) (r : List G₂) :
    Outcome Com :=
  if l.length = ipp.supportedSize ∧ r.length = ipp.supportedSize then .ok (ipp.withIp l r)
  else panicWith wrongLength

def assertionFailed : String := "assertion `left == right` failed"

/-- The product of pairings, position by position. -/
def pairing (E : Pairing F G₁ G₂ GT) (left : List G₁) (right : List G₂) : Outcome GT :=
  if left.length = right.length then E.multiPairing left right else panicWith assertionFailed

/-- Each element under the scalar at its place. -/
def scalarPairing {G : Type} [AddCommGroup G] [Module F G] (gp : List G) (scalars : List F) :
    List G :=
  List.zipWith (fun g r => r • g) gp scalars

/-- The index `i - 1` is that of the last power so far. -/
def structuredScalarPower (num : Nat) (s : F) : List F :=
  (List.range' 1 (num - 1)).foldl (fun powers i => powers ++ [powers.getD (i - 1) 0 * s]) [1]

/-- Every vector on the left with every vector on the right. -/
def crossTerms (E : Pairing F G₁ G₂ GT) (lhs : List (List G₁)) (rhs : List (List G₂)) :
    Outcome (List (List GT)) :=
  lhs.mapM fun l => rhs.mapM fun r => pairing E l r

def crossTerm (terms : List (List GT)) (j k : Nat) : Outcome GT := do
  let row ← indexed terms j
  indexed row k

/-- `A · S^s · D^(s^2) · C^(s^3)`, or `B · H^t · delta0^(t^2) · delta1^(t^3)`. -/
def combine {G : Type} [AddCommGroup G] [Module F G] (numProofs : Nat) (s : F)
    (first second third fourth : List G) : List G :=
  let sSq := s * s
  let sCube := sSq * s
  let second := scalarPairing second (List.replicate numProofs s)
  let third := scalarPairing third (List.replicate numProofs sSq)
  let fourth := scalarPairing fourth (List.replicate numProofs sCube)
  (((first.zip second).zip third).zip fourth).map fun x => x.1.1.1 + x.1.1.2 + x.1.2 + x.2

/-- The commitment to both combined vectors. -/
def combineCommitments (agg : AggProvingKey G₁ G₂ Com)
    (comAb comPreparedInput comD comC : Com) (s t : F) : Com :=
  let sSq := s * s
  let sCube := sSq * s
  let tSq := t * t
  let tCube := tSq * t
  let sPartialSum := comAb + s • comPreparedInput + sSq • comD + sCube • comC
  let tPartialSum := t • agg.comH + tSq • agg.comDelta0 + tCube • agg.comDelta1
  sPartialSum + tPartialSum

namespace Backend
variable (backend : Backend F G₁ G₂ GT Com Pf)

def challengeScalar (pt : backend.transcript.State) (label : String) :
    F × backend.transcript.State :=
  let (buf, pt) := backend.transcript.challengeBytes pt label
  ((backend.rng.rand (backend.rng.fromSeed buf)).1, pt)

def appendCom (pt : backend.transcript.State) (label : String) (com : Com) :
    backend.transcript.State :=
  backend.transcript.appendMessage pt label (backend.transcript.serializeCom com)

/-- The twist, from the commitments to the proofs. -/
def deriveTwist (pt : backend.transcript.State) (comAb comC superCom : Com) :
    F × backend.transcript.State :=
  let pt := backend.appendCom pt "AB-commitment" comAb
  let pt := backend.appendCom pt "C-commitment" comC
  let pt := backend.appendCom pt "D-commitment" superCom
  backend.challengeScalar pt "r-random-fiatshamir"

/-- The challenges `s` and `t`, from the cross terms. -/
def deriveFolding (pt : backend.transcript.State) (terms : List (List GT)) : F × F :=
  let pt := backend.transcript.appendMessage pt "cross-terms"
    (backend.transcript.serializeTerms terms)
  let (s, pt) := backend.challengeScalar pt "s-random-fiatshamir"
  let (t, _) := backend.challengeScalar pt "t-random-fiatshamir"
  (s, t)

variable [DecidableEq GT]

/-- Debug builds check the equation of every proof. -/
def assertEquation (agg : AggProvingKey G₁ G₂ Com) (preparedInput : List G₁)
    (proof : Proof G₁ G₂) (i : Nat) : Outcome Unit :=
  if backend.debug then do
    let holds ← checkedEquation backend.E agg preparedInput proof i
    debugAssert backend.debug assertionFailed holds
  else .ok ()

/-- The equation again under the power of the twist. A release build prints where it fails. -/
def assertTwisted (agg : AggProvingKey G₁ G₂ Com) (aR : List G₁) (bVals : List G₂)
    (alphaR inputR dR cR : List G₁) (i : Nat) : Outcome Unit := do
  let a ← indexed aR i
  let b ← indexed bVals i
  let alpha ← indexed alphaR i
  let beta ← indexed agg.beta i
  let input ← indexed inputR i
  let h ← indexed agg.h i
  let d ← indexed dR i
  let delta0 ← indexed agg.delta0 i
  let c ← indexed cR i
  let delta1 ← indexed agg.delta1 i
  debugAssert backend.debug assertionFailed (backend.E.pairing a b =
    backend.E.pairing alpha beta + backend.E.pairing input h + backend.E.pairing d delta0 +
      backend.E.pairing c delta1)

/-- The product of all equations. -/
def assertProduct (agg : AggProvingKey G₁ G₂ Com) (alphaR : List G₁) (terms : List (List GT)) :
    Outcome Unit := do
  let zAb ← crossTerm terms 0 0
  let zSh ← crossTerm terms 1 1
  let zDdelta0 ← crossTerm terms 2 2
  let zCdelta1 ← crossTerm terms 3 3
  if backend.debug then do
    let alphaBeta ← pairing backend.E alphaR agg.beta
    debugAssert backend.debug assertionFailed (zAb = alphaBeta + zSh + zDdelta0 + zCdelta1)
  else .ok ()

/-- Prove the inner product and verify the proof. -/
def proveAndVerify (inst : Instance F GT Com) (witness : Witness G₁ G₂) : Outcome Pf := do
  let tippProof ← unwrap (backend.tipa.prove inst witness)
  let accepted ← unwrap (backend.tipa.verify inst tippProof)
  if accepted then .ok tippProof
  else panicWith "assertion failed: TIPA::<_, Sha256>::verify(..).unwrap()"

/-- Aggregate the proofs of all subcircuits. -/
def aggSubcircuitProofs (agg : AggProvingKey G₁ G₂ Com) (pt : backend.transcript.State)
    (superCom : Com) (proofs : List (Proof G₁ G₂)) (pubInputs : List F) : Outcome Pf := do
  let numProofs := proofs.length
  let aVals := proofs.map Proof.a
  let bVals := proofs.map Proof.b
  let cVals := proofs.map Proof.c
  let dVals ← proofs.mapM fun p => indexed p.ds 0
  let comAb ← backend.ipp.commitWithIp aVals bVals
  let comC ← backend.ipp.commitOnlyLeft cVals
  let comPreparedInput ← agg.comPreparedInput pubInputs
  let preparedInput ← agg.preparedInput pubInputs
  proofs.zipIdx.forM fun p => backend.assertEquation agg preparedInput p.1 p.2
  let (twist, pt) := backend.deriveTwist pt comAb comC superCom
  let twistPowers := structuredScalarPower numProofs twist
  let aR := scalarPairing aVals twistPowers
  let cR := scalarPairing cVals twistPowers
  let dR := scalarPairing dVals twistPowers
  let alphaR := scalarPairing agg.alpha twistPowers
  let preparedInputR := scalarPairing preparedInput twistPowers
  (List.range numProofs).forM fun i =>
    backend.assertTwisted agg aR bVals alphaR preparedInputR dR cR i
  let terms ← crossTerms backend.E [aR, preparedInputR, dR, cR]
    [bVals, agg.h, agg.delta0, agg.delta1]
  backend.assertProduct agg alphaR terms
  let (s, t) := backend.deriveFolding pt terms
  let left := combine numProofs s aVals preparedInput dVals cVals
  let right := combine numProofs t bVals agg.h agg.delta0 agg.delta1
  let comLr := combineCommitments agg comAb comPreparedInput superCom comC s t
  let zLr ← unwrap (backend.innerProduct.twistedInnerProduct left right twist)
  backend.proveAndVerify ⟨numProofs, zLr, comLr, twist⟩ ⟨left, right⟩

end Backend

/-- What the verification equation of one proof is about. -/
structure Equation (G₁ G₂ : Type) where
  a : G₁
  b : G₂
  c : G₁
  d : G₁
  input : G₁
  h : G₂
  delta0 : G₂
  delta1 : G₂
  alpha : G₁
  beta : G₂

namespace Equation

/-- The vectors that are combined on the left and on the right. -/
def lhs (q : Equation G₁ G₂) : Fin 4 → G₁ := ![q.a, q.input, q.d, q.c]

def rhs (q : Equation G₁ G₂) : Fin 4 → G₂ := ![q.b, q.h, q.delta0, q.delta1]

/-- How far the equation is off. -/
def error (E : Pairing F G₁ G₂ GT) (q : Equation G₁ G₂) : GT :=
  E.pairing q.a q.b - (E.pairing q.alpha q.beta + E.pairing q.input q.h +
    E.pairing q.d q.delta0 + E.pairing q.c q.delta1)

end Equation

theorem structuredScalarPower_eq {n : Nat} (positive : 0 < n) (r : F) :
    structuredScalarPower n r = powers n r := by
  obtain ⟨n, rfl⟩ := Nat.exists_eq_succ_of_ne_zero positive.ne'
  rw [structuredScalarPower, Nat.succ_sub_one]
  clear positive
  induction n with
  | zero => simp [powers]
  | succ n ih =>
    rw [List.range'_1_concat, List.foldl_concat, ih, powers_succ (n + 1)]
    apply congrArg
    have last : (powers n.succ r).getD (1 + n - 1) 0 = r ^ n := by
      simp [powers]
    rw [last, pow_succ]

section Rows
variable {ρ : Type} (rows : List ρ)

theorem scalarPairing_replicate {G : Type} [AddCommGroup G] [Module F G] (s : F) (f : ρ → G) :
    scalarPairing (rows.map f) (List.replicate rows.length s) = rows.map fun x => s • f x := by
  rw [← List.map_const', scalarPairing, List.zipWith_map, List.zipWith_self]

theorem combine_map {G : Type} [AddCommGroup G] [Module F G] (s : F) (f : Fin 4 → ρ → G) :
    combine rows.length s (rows.map (f 0)) (rows.map (f 1)) (rows.map (f 2)) (rows.map (f 3)) =
      rows.map fun x => ∑ j : Fin 4, s ^ (j : Nat) • f j x := by
  simp only [combine, scalarPairing_replicate, List.zip_map', List.map_map]
  apply List.map_congr_left
  intro x _
  rw [Fin.sum_univ_four, Function.comp_apply]
  simp only [Fin.val_zero, Fin.val_one, Fin.val_two, pow_zero, pow_one, one_smul, pow_two]
  rw [show ((3 : Fin 4) : Nat) = 2 + 1 from rfl, pow_succ, pow_two]

/-- A product of pairings under scalars on the left. -/
theorem pairing_scaled (E : Pairing F G₁ G₂ GT) {scalars : List F}
    (size : scalars.length = rows.length) (f : ρ → G₁) (g : ρ → G₂) :
    pairing E (scalarPairing (rows.map f) scalars) (rows.map g) =
      .ok (dot scalars (rows.map fun x => E.pairing (f x) (g x))) := by
  have sizes : (scalarPairing (rows.map f) scalars).length = (rows.map g).length := by
    rw [scalarPairing, List.length_zipWith, List.length_map, List.length_map, size, Nat.min_self]
  rw [pairing, if_pos sizes, E.multiPairing_eq _ _ sizes]
  clear sizes
  apply congrArg
  induction rows generalizing scalars with
  | nil => simp [scalarPairing]
  | cons x rows ih =>
    obtain _ | ⟨r, scalars⟩ := scalars
    · cases size
    · have rest := ih (Nat.succ.inj size)
      rw [scalarPairing] at rest
      simp only [scalarPairing, List.map_cons, List.zipWith_cons_cons, List.sum_cons, rest,
        dot_cons, map_smul, LinearMap.smul_apply]

end Rows

/-- Row `j` on the left with row `k` on the right, under the scalars. -/
def term (E : Pairing F G₁ G₂ GT) (scalars : List F) (rows : List (Equation G₁ G₂))
    (j k : Fin 4) : GT :=
  dot scalars (rows.map fun q => E.pairing (q.lhs j) (q.rhs k))

/-- The terms of the vectors that belong to these equations. -/
def twistedTerms (E : Pairing F G₁ G₂ GT) (scalars : List F) (a input d c : List G₁)
    (b h delta0 delta1 : List G₂) : Outcome (List (List GT)) :=
  crossTerms E [scalarPairing a scalars, scalarPairing input scalars, scalarPairing d scalars,
    scalarPairing c scalars] [b, h, delta0, delta1]

theorem twistedTerms_eq (E : Pairing F G₁ G₂ GT) {scalars : List F}
    (rows : List (Equation G₁ G₂)) (size : scalars.length = rows.length) :
    twistedTerms E scalars (rows.map Equation.a) (rows.map Equation.input) (rows.map Equation.d)
        (rows.map Equation.c) (rows.map Equation.b) (rows.map Equation.h)
        (rows.map Equation.delta0) (rows.map Equation.delta1) =
      .ok (List.ofFn fun j => List.ofFn fun k => term E scalars rows j k) := by
  simp only [twistedTerms, crossTerms, List.mapM_cons, List.mapM_nil, pairing_scaled rows E size,
    ok_bind, pure, Except.pure]
  rfl

omit [AddCommGroup GT] in
theorem crossTerm_ofFn (terms : Fin 4 → Fin 4 → GT) (j k : Fin 4) :
    crossTerm (List.ofFn fun j => List.ofFn fun k => terms j k) j k = .ok (terms j k) := by
  rw [crossTerm, indexed, List.getElem?_ofFn, dif_pos j.isLt, expect_some, ok_bind, indexed,
    List.getElem?_ofFn, dif_pos k.isLt]
  rfl

/-- The pairing of the combined vectors at one position. -/
theorem pairing_combined (E : Pairing F G₁ G₂ GT) (s t : F) (q : Equation G₁ G₂) :
    E.pairing (∑ j : Fin 4, s ^ (j : Nat) • q.lhs j) (∑ k : Fin 4, t ^ (k : Nat) • q.rhs k) =
      ∑ j : Fin 4, ∑ k : Fin 4, (s ^ (j : Nat) * t ^ (k : Nat)) • E.pairing (q.lhs j) (q.rhs k) := by
  simp only [map_sum, LinearMap.sum_apply, map_smul, LinearMap.smul_apply, Finset.smul_sum]
  rw [Finset.sum_comm]
  simp only [smul_smul, mul_comm]

omit [AddCommGroup G₂] [Module F G₂] in
/-- The combined vectors. -/
theorem combine_lhs (s : F) (rows : List (Equation G₁ G₂)) :
    combine rows.length s (rows.map Equation.a) (rows.map Equation.input) (rows.map Equation.d)
        (rows.map Equation.c) = rows.map fun q => ∑ j : Fin 4, s ^ (j : Nat) • q.lhs j :=
  combine_map rows s fun j q => q.lhs j

omit [AddCommGroup G₁] [Module F G₁] in
theorem combine_rhs (t : F) (rows : List (Equation G₁ G₂)) :
    combine rows.length t (rows.map Equation.b) (rows.map Equation.h) (rows.map Equation.delta0)
        (rows.map Equation.delta1) = rows.map fun q => ∑ k : Fin 4, t ^ (k : Nat) • q.rhs k :=
  combine_map rows t fun k q => q.rhs k

/-- The inner product of the combined vectors is the sum of the cross terms. -/
theorem twistedInnerProduct_eq {E : Pairing F G₁ G₂ GT} (inner : PairingInnerProduct E)
    (rows : List (Equation G₁ G₂)) (r s t : F) :
    inner.twistedInnerProduct (rows.map fun q => ∑ j : Fin 4, s ^ (j : Nat) • q.lhs j)
        (rows.map fun q => ∑ k : Fin 4, t ^ (k : Nat) • q.rhs k) r =
      .ok (∑ j : Fin 4, ∑ k : Fin 4,
        (s ^ (j : Nat) * t ^ (k : Nat)) • term E (powers rows.length r) rows j k) := by
  rw [inner.twistedInnerProduct_eq _ _ _ (by rw [List.length_map, List.length_map]),
    List.length_map, List.zipWith_map, List.zipWith_self]
  simp only [pairing_combined, dot_map_sum, dot_map_scale]
  rfl

/-- The combined equation is the sum of the errors. -/
theorem term_sub_eq (E : Pairing F G₁ G₂ GT) (scalars : List F) (rows : List (Equation G₁ G₂)) :
    term E scalars rows 0 0 - (dot scalars (rows.map fun q => E.pairing q.alpha q.beta) +
        term E scalars rows 1 1 + term E scalars rows 2 2 + term E scalars rows 3 3) =
      dot scalars (rows.map (Equation.error E)) := by
  have errors := dot_map_sub scalars rows (fun q => E.pairing q.a q.b) fun q =>
    E.pairing q.alpha q.beta + E.pairing q.input q.h + E.pairing q.d q.delta0 +
      E.pairing q.c q.delta1
  simp only [dot_map_add] at errors
  exact errors.symm

/-- Commitments that are linear on one side, to a combination of four vectors. -/
theorem commit_combined {G ρ : Type} [AddCommGroup G] [Module F G] {commit : List G → Com}
    {size : Nat} (add : ∀ l l', l.length = size → l'.length = size →
      commit (List.zipWith (· + ·) l l') = commit l + commit l')
    (smul : ∀ (s : F) l, l.length = size → commit (l.map (s • ·)) = s • commit l)
    {rows : List ρ} (fits : rows.length = size) (s : F) (f : Fin 4 → ρ → G) :
    commit (rows.map fun x => ∑ j : Fin 4, s ^ (j : Nat) • f j x) =
      commit (rows.map (f 0)) + s • commit (rows.map (f 1)) + (s * s) • commit (rows.map (f 2)) +
        (s * s * s) • commit (rows.map (f 3)) := by
  have scaled : ∀ (c : F) (g : ρ → G),
      commit (rows.map fun x => c • g x) = c • commit (rows.map g) := by
    intro c g
    rw [← smul c _ ((List.length_map g).trans fits), List.map_map]
    rfl
  have added : ∀ g g' : ρ → G, commit (rows.map fun x => g x + g' x) =
      commit (rows.map g) + commit (rows.map g') := by
    intro g g'
    rw [← add _ _ ((List.length_map g).trans fits) ((List.length_map g').trans fits),
      List.zipWith_map, List.zipWith_self]
  simp only [Fin.sum_univ_four, added, scaled]
  rw [show ((3 : Fin 4) : Nat) = 2 + 1 from rfl, pow_succ]
  simp only [Fin.val_zero, Fin.val_one, Fin.val_two, pow_zero, pow_one, one_smul, pow_two]

/-- A key whose commitments are those of its vectors, as `new` makes them. -/
def Commits (ipp : IPCommitment F G₁ G₂ Com) (agg : AggProvingKey G₁ G₂ Com) : Prop :=
  ∃ parts : List (KeyParts G₁ G₂), parts.length = ipp.supportedSize ∧
    agg = ofParts ipp.toTIPPCommitment parts

omit [AddCommGroup GT] [Module F GT] in
theorem commits_of_new {ipp : IPCommitment F G₁ G₂ Com} {pkFetcher : Nat → ProvingKey G₁ G₂}
    {agg : AggProvingKey G₁ G₂ Com}
    (built : AggProvingKey.new ipp.toTIPPCommitment pkFetcher = .ok agg) : Commits ipp agg := by
  obtain ⟨parts, taken, same⟩ := new_eq built
  refine ⟨parts, ?_, same⟩
  rw [← taken.length_eq, List.length_range]

omit [AddCommGroup G₂] [Module F G₂] [AddCommGroup Com] [Module F Com] in
/-- The prepared inputs need three public inputs. -/
theorem inputs_of_prepared {agg : AggProvingKey G₁ G₂ Com} {pubInputs : List F} {input : List G₁}
    (prepared : agg.preparedInput pubInputs = .ok input) :
    ∃ input0 input1 input2 more, pubInputs = input0 :: input1 :: input2 :: more := by
  rw [AggProvingKey.preparedInput] at prepared
  simp only [bind_eq_ok, indexed, expect_eq_ok] at prepared
  obtain ⟨input0, _, input1, _, input2, third, _⟩ := prepared
  rcases pubInputs with _ | ⟨x, _ | ⟨y, _ | ⟨z, more⟩⟩⟩
  · cases third
  · cases third
  · cases third
  · exact ⟨x, y, z, more, rfl⟩

/-- The prepared inputs are committed to by linearity. -/
theorem comPreparedInput_of_commits {ipp : IPCommitment F G₁ G₂ Com}
    {agg : AggProvingKey G₁ G₂ Com} (commits : Commits ipp agg) {pubInputs : List F}
    {input : List G₁} (prepared : agg.preparedInput pubInputs = .ok input) :
    agg.comPreparedInput pubInputs = .ok (ipp.left input) := by
  obtain ⟨input0, input1, input2, more, rfl⟩ := inputs_of_prepared prepared
  obtain ⟨parts, size, rfl⟩ := commits
  rw [preparedInput_eq] at prepared
  cases prepared
  exact comPreparedInput_eq _ size input0 input1 input2 more

/-- The combined commitment is the commitment to the combined vectors, but for what the
commitment to the `d` is off. -/
theorem combineCommitments_eq {ipp : IPCommitment F G₁ G₂ Com} {agg : AggProvingKey G₁ G₂ Com}
    (commits : Commits ipp agg) {rows : List (Equation G₁ G₂)}
    (fits : rows.length = ipp.supportedSize) (hs : agg.h = rows.map Equation.h)
    (delta0s : agg.delta0 = rows.map Equation.delta0)
    (delta1s : agg.delta1 = rows.map Equation.delta1) (superCom : Com) (s t : F) :
    combineCommitments agg (ipp.withIp (rows.map Equation.a) (rows.map Equation.b))
        (ipp.left (rows.map Equation.input)) superCom (ipp.left (rows.map Equation.c)) s t =
      ipp.left (rows.map fun q => ∑ j : Fin 4, s ^ (j : Nat) • q.lhs j) +
        ipp.right (rows.map fun q => ∑ k : Fin 4, t ^ (k : Nat) • q.rhs k) +
        (s * s) • (superCom - ipp.left (rows.map Equation.d)) := by
  have left := commit_combined ipp.left_add ipp.left_smul fits s fun j q => q.lhs j
  have right := commit_combined ipp.right_add ipp.right_smul fits t fun k q => q.rhs k
  have h : agg.comH = ipp.right (rows.map Equation.h) := by
    obtain ⟨parts, _, rfl⟩ := commits
    exact congrArg ipp.right hs
  have delta0 : agg.comDelta0 = ipp.right (rows.map Equation.delta0) := by
    obtain ⟨parts, _, rfl⟩ := commits
    exact congrArg ipp.right delta0s
  have delta1 : agg.comDelta1 = ipp.right (rows.map Equation.delta1) := by
    obtain ⟨parts, _, rfl⟩ := commits
    exact congrArg ipp.right delta1s
  have both := ipp.withIp_eq (rows.map Equation.a) (rows.map Equation.b)
    ((List.length_map _).trans fits) ((List.length_map _).trans fits)
  rw [left, right, combineCommitments, h, delta0, delta1, both, smul_sub]
  simp only [Equation.lhs, Equation.rhs, Matrix.cons_val_zero, Matrix.cons_val_one,
    Matrix.cons_val]
  abel

/-- The difference that the combined equation leaves. -/
def productError (E : Pairing F G₁ G₂ GT) (scalars : List F) (a input d c : List G₁)
    (b h delta0 delta1 : List G₂) (alpha : List G₁) (beta : List G₂) : Outcome GT := do
  let terms ← twistedTerms E scalars a input d c b h delta0 delta1
  let zAb ← crossTerm terms 0 0
  let zSh ← crossTerm terms 1 1
  let zDdelta0 ← crossTerm terms 2 2
  let zCdelta1 ← crossTerm terms 3 3
  let alphaBeta ← pairing E (scalarPairing alpha scalars) beta
  .ok (zAb - (alphaBeta + zSh + zDdelta0 + zCdelta1))

theorem productError_eq (E : Pairing F G₁ G₂ GT) {scalars : List F}
    (rows : List (Equation G₁ G₂)) (size : scalars.length = rows.length) :
    productError E scalars (rows.map Equation.a) (rows.map Equation.input) (rows.map Equation.d)
        (rows.map Equation.c) (rows.map Equation.b) (rows.map Equation.h)
        (rows.map Equation.delta0) (rows.map Equation.delta1) (rows.map Equation.alpha)
        (rows.map Equation.beta) = .ok (dot scalars (rows.map (Equation.error E))) := by
  have read := crossTerm_ofFn (term E scalars rows)
  have zAb := read 0 0
  have zSh := read 1 1
  have zDdelta0 := read 2 2
  have zCdelta1 := read 3 3
  rw [productError, twistedTerms_eq E rows size, ok_bind]
  rw [Fin.val_zero] at zAb
  rw [Fin.val_one] at zSh
  rw [Fin.val_two] at zDdelta0
  rw [show ((3 : Fin 4) : Nat) = 3 from rfl] at zCdelta1
  rw [zAb, ok_bind, zSh, ok_bind, zDdelta0, ok_bind, zCdelta1, ok_bind,
    pairing_scaled rows E size, ok_bind, term_sub_eq]

section Columns
variable {n : Nat} (a c d input alpha : Fin n → G₁) (b h delta0 delta1 beta : Fin n → G₂)

/-- The equation at position `i` of the vectors. -/
def equationAt (i : Fin n) : Equation G₁ G₂ :=
  ⟨a i, b i, c i, d i, input i, h i, delta0 i, delta1 i, alpha i, beta i⟩

/-- The inner product that is proved, its cross terms, the combined equation and the combined
commitment of the vectors of `n` proofs. -/
theorem aggregation_algebra (positive : 0 < n) {E : Pairing F G₁ G₂ GT}
    (inner : PairingInnerProduct E) (ipp : IPCommitment F G₁ G₂ Com) (s t : F) :
    (∀ r, ∃ (terms : List (List GT)) (z : GT) (term : Fin 4 → Fin 4 → GT),
      twistedTerms E (structuredScalarPower n r) (List.ofFn a) (List.ofFn input) (List.ofFn d)
        (List.ofFn c) (List.ofFn b) (List.ofFn h) (List.ofFn delta0) (List.ofFn delta1) =
          .ok terms ∧
      inner.twistedInnerProduct
        (combine n s (List.ofFn a) (List.ofFn input) (List.ofFn d) (List.ofFn c))
        (combine n t (List.ofFn b) (List.ofFn h) (List.ofFn delta0) (List.ofFn delta1)) r = .ok z ∧
      (∀ j k : Fin 4, crossTerm terms j k = .ok (term j k)) ∧
      z = ∑ j : Fin 4, ∑ k : Fin 4, (s ^ (j : Nat) * t ^ (k : Nat)) • term j k) ∧
    (∀ r, productError E (structuredScalarPower n r) (List.ofFn a) (List.ofFn input) (List.ofFn d)
        (List.ofFn c) (List.ofFn b) (List.ofFn h) (List.ofFn delta0) (List.ofFn delta1)
        (List.ofFn alpha) (List.ofFn beta) =
      .ok (∑ i : Fin n, r ^ (i : Nat) •
        (equationAt a c d input alpha b h delta0 delta1 beta i).error E)) ∧
    (∀ twists : Fin n → F, Function.Injective twists →
      ((∀ j, productError E (structuredScalarPower n (twists j)) (List.ofFn a) (List.ofFn input)
          (List.ofFn d) (List.ofFn c) (List.ofFn b) (List.ofFn h) (List.ofFn delta0)
          (List.ofFn delta1) (List.ofFn alpha) (List.ofFn beta) = .ok 0) ↔
        ∀ i, E.pairing (a i) (b i) = E.pairing (alpha i) (beta i) + E.pairing (input i) (h i) +
          E.pairing (d i) (delta0 i) + E.pairing (c i) (delta1 i))) ∧
    (∀ (agg : AggProvingKey G₁ G₂ Com) (pubInputs : List F) (superCom : Com), Commits ipp agg →
      agg.h = List.ofFn h → agg.delta0 = List.ofFn delta0 → agg.delta1 = List.ofFn delta1 →
      agg.preparedInput pubInputs = .ok (List.ofFn input) → superCom = ipp.left (List.ofFn d) →
      ∃ comPreparedInput, agg.comPreparedInput pubInputs = .ok comPreparedInput ∧
        combineCommitments agg (ipp.withIp (List.ofFn a) (List.ofFn b)) comPreparedInput superCom
          (ipp.left (List.ofFn c)) s t =
        ipp.left (combine n s (List.ofFn a) (List.ofFn input) (List.ofFn d) (List.ofFn c)) +
        ipp.right (combine n t (List.ofFn b) (List.ofFn h) (List.ofFn delta0)
          (List.ofFn delta1))) := by
  have column : ∀ {G : Type} (f : Equation G₁ G₂ → G) (v : Fin n → G),
      (∀ i, f (equationAt a c d input alpha b h delta0 delta1 beta i) = v i) →
      List.ofFn v =
        ((List.finRange n).map (equationAt a c d input alpha b h delta0 delta1 beta)).map f := by
    intro G f v same
    rw [List.map_map, List.ofFn_eq_map]
    exact List.map_congr_left fun i _ => (same i).symm
  rw [column Equation.a a fun _ => rfl, column Equation.b b fun _ => rfl,
    column Equation.c c fun _ => rfl, column Equation.d d fun _ => rfl,
    column Equation.input input fun _ => rfl, column Equation.h h fun _ => rfl,
    column Equation.delta0 delta0 fun _ => rfl, column Equation.delta1 delta1 fun _ => rfl,
    column Equation.alpha alpha fun _ => rfl, column Equation.beta beta fun _ => rfl]
  have size : ((List.finRange n).map
      (equationAt a c d input alpha b h delta0 delta1 beta)).length = n := by
    rw [List.length_map, List.length_finRange]
  have errors : ∀ r : F, dot (powers n r) (((List.finRange n).map
      (equationAt a c d input alpha b h delta0 delta1 beta)).map (Equation.error E)) =
        ∑ i : Fin n, r ^ (i : Nat) •
          (equationAt a c d input alpha b h delta0 delta1 beta i).error E := by
    intro r
    rw [List.map_map]
    exact dot_powers_ofFn r _
  generalize (List.finRange n).map (equationAt a c d input alpha b h delta0 delta1 beta) = rows
    at size errors ⊢
  have lhs := combine_lhs s rows
  have rhs := combine_rhs t rows
  rw [size] at lhs rhs
  rw [lhs, rhs]
  have product : ∀ r, productError E (structuredScalarPower n r) (rows.map Equation.a)
      (rows.map Equation.input) (rows.map Equation.d) (rows.map Equation.c)
      (rows.map Equation.b) (rows.map Equation.h) (rows.map Equation.delta0)
      (rows.map Equation.delta1) (rows.map Equation.alpha) (rows.map Equation.beta) =
        .ok (∑ i : Fin n, r ^ (i : Nat) •
          (equationAt a c d input alpha b h delta0 delta1 beta i).error E) := by
    intro r
    rw [structuredScalarPower_eq positive, ← errors]
    exact productError_eq E rows ((length_powers n r).trans size.symm)
  refine ⟨?_, product, ?_, ?_⟩
  · intro r
    have sizes : (powers n r).length = rows.length := (length_powers n r).trans size.symm
    have terms := twistedTerms_eq E rows sizes
    have output := twistedInnerProduct_eq inner rows r s t
    rw [size] at output
    rw [structuredScalarPower_eq positive]
    exact ⟨_, _, term E (powers n r) rows, terms, output, crossTerm_ofFn _, rfl⟩
  · intro twists distinct
    simp only [product, Except.ok.injEq]
    rw [sums_vanish_iff distinct]
    apply forall_congr'
    intro i
    exact sub_eq_zero
  · intro agg pubInputs superCom commits hs delta0s delta1s prepared same
    refine ⟨_, comPreparedInput_of_commits commits prepared, ?_⟩
    have fits : rows.length = ipp.supportedSize := by
      obtain ⟨parts, counted, rfl⟩ := commits
      have lengths := congrArg List.length hs
      rw [List.length_map] at lengths
      rw [← lengths, ← counted]
      exact List.length_map _
    rw [combineCommitments_eq commits fits hs delta0s delta1s, same, sub_self, smul_zero, add_zero]

end Columns
end Vectors

/-- The library's inner product, as it is documented. -/
def productOf {F G₁ G₂ GT : Type} [Field F] [AddCommGroup G₁] [Module F G₁] [AddCommGroup G₂]
    [Module F G₂] [AddCommGroup GT] [Module F GT] (E : Pairing F G₁ G₂ GT) :
    PairingInnerProduct E where
  twistedInnerProduct left right twist :=
    .ok (dot (powers left.length twist) (List.zipWith (fun g h => E.pairing g h) left right))
  twistedInnerProduct_eq _ _ _ _ := rfl

/-- Both sides with the same weights. -/
def weightedIp (weights : List (ZMod 3)) :
    IPCommitment (ZMod 3) (ZMod 3) (ZMod 3) (ZMod 3) where
  toTIPPCommitment := weighted weights
  right_add _ _ size size' := dot_zipWith_add weights (size.trans size'.symm)
  right_smul s l _ := dot_map_mul weights l s
  withIp l r := dot weights l + dot weights r
  withIp_eq _ _ _ _ := rfl

/-- Both sides of one scalar each. -/
def scalarIpCommitment : IPCommitment (ZMod 3) (ZMod 3) (ZMod 3) (ZMod 3) := weightedIp [1]

def pairIpCommitment : IPCommitment (ZMod 3) (ZMod 3) (ZMod 3) (ZMod 3) := weightedIp [1, -1]

def ones : Fin 2 → ZMod 3 := fun _ => 1

/-- One, then minus one. -/
def signs : Fin 2 → ZMod 3 := ![1, -1]

/-- One, then nothing. -/
def firstOnly : Fin 2 → ZMod 3 := ![1, 0]

/-- The keys of two proofs whose prepared inputs are the signs. -/
def signsKey : AggProvingKey (ZMod 3) (ZMod 3) (ZMod 3) :=
  ofParts pairCommitment [⟨1, 1, 1, 1, 1, 1, 1, 1, 1⟩, ⟨-1, 1, 1, 1, 1, 1, 1, 1, 1⟩]

/-- Two different proofs that satisfy their equations: the inner product, the combined equation
and the combined commitment. -/
theorem signs_combine :
    (∃ (terms : List (List (ZMod 3))) (z : ZMod 3) (term : Fin 4 → Fin 4 → ZMod 3),
      twistedTerms (CPGroth16.scalarPairing (ZMod 3)) (structuredScalarPower 2 (-1 : ZMod 3))
        (List.ofFn signs) (List.ofFn signs) (List.ofFn firstOnly) (List.ofFn signs)
        (List.ofFn ones) (List.ofFn ones) (List.ofFn ones) (List.ofFn ones) = .ok terms ∧
      (productOf (CPGroth16.scalarPairing (ZMod 3))).twistedInnerProduct
        (combine 2 (-1 : ZMod 3) (List.ofFn signs) (List.ofFn signs) (List.ofFn firstOnly)
          (List.ofFn signs))
        (combine 2 (1 : ZMod 3) (List.ofFn ones) (List.ofFn ones) (List.ofFn ones)
          (List.ofFn ones)) (-1) = .ok z ∧
      (∀ j k : Fin 4, crossTerm terms j k = .ok (term j k)) ∧
      z = ∑ j : Fin 4, ∑ k : Fin 4, ((-1 : ZMod 3) ^ (j : Nat) * 1 ^ (k : Nat)) •
        term j k) ∧
    productError (CPGroth16.scalarPairing (ZMod 3)) (structuredScalarPower 2 (-1 : ZMod 3))
      (List.ofFn signs) (List.ofFn signs) (List.ofFn firstOnly) (List.ofFn signs)
      (List.ofFn ones) (List.ofFn ones) (List.ofFn ones) (List.ofFn ones) (List.ofFn ones)
      (List.ofFn ones) = .ok 0 ∧
    ∃ comPreparedInput, signsKey.comPreparedInput [(1 : ZMod 3), 0, -1] = .ok comPreparedInput ∧
      combineCommitments signsKey
        (pairIpCommitment.withIp (List.ofFn signs) (List.ofFn ones)) comPreparedInput
        (pairCommitment.left (List.ofFn firstOnly)) (pairCommitment.left (List.ofFn signs))
        (-1 : ZMod 3) 1 =
      pairCommitment.left (combine 2 (-1 : ZMod 3) (List.ofFn signs) (List.ofFn signs)
        (List.ofFn firstOnly) (List.ofFn signs)) +
      pairCommitment.right (combine 2 (1 : ZMod 3) (List.ofFn ones) (List.ofFn ones)
        (List.ofFn ones) (List.ofFn ones)) := by
  obtain ⟨product, error, vanish, commitment⟩ := aggregation_algebra signs signs firstOnly signs
    ones ones ones ones ones ones Nat.two_pos (productOf (CPGroth16.scalarPairing (ZMod 3)))
    pairIpCommitment (-1) 1
  have distinct : Function.Injective signs := by decide
  have balanced : ∀ i, signs i * ones i = ones i * ones i + signs i * ones i +
      firstOnly i * ones i + signs i * ones i := by decide
  have commits : Commits pairIpCommitment signsKey := ⟨_, rfl, rfl⟩
  have prepared : signsKey.preparedInput [(1 : ZMod 3), 0, -1] = .ok (List.ofFn signs) := by
    decide +kernel
  refine ⟨product (-1), (vanish signs distinct).mpr balanced 1, ?_⟩
  exact commitment signsKey [1, 0, -1] _ commits rfl rfl rfl prepared rfl

end SubcircuitAggregation
