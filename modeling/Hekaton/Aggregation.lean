import Hekaton.CPGroth16
import Hekaton.Coordinator
import Mathlib

/-!
# The aggregator's public inputs

The aggregation key takes four elements of each key's public-input part, and every proof
is checked against their combination with the first three public inputs. For read-only
memory these are all there are. For random-access memory two more are left out, and the
aggregator's equation is the verifier's exactly when those two cancel.
-/

namespace Aggregation

open LinearCombinations Outcomes Transcript EvalTree Coordinator CPGroth16

/-- The inner-product commitments: linear on vectors of the supported size. -/
structure TIPPCommitment (F G₁ G₂ Com : Type) [Field F] [AddCommGroup G₁] [Module F G₁]
    [AddCommGroup G₂] [Module F G₂] [AddCommGroup Com] [Module F Com] where
  supportedSize : Nat
  left : List G₁ → Com
  right : List G₂ → Com
  left_add : ∀ l l', l.length = supportedSize → l'.length = supportedSize →
    left (List.zipWith (· + ·) l l') = left l + left l'
  left_smul : ∀ (s : F) l, l.length = supportedSize → left (l.map (s • ·)) = s • left l

section Commitments
variable {F G₁ G₂ Com : Type} [Field F] [AddCommGroup G₁] [Module F G₁]
variable [AddCommGroup G₂] [Module F G₂] [AddCommGroup Com] [Module F Com]

theorem TIPPCommitment.left_map_add (ipp : TIPPCommitment F G₁ G₂ Com) {α : Type} (f g : α → G₁)
    {l : List α} (size : l.length = ipp.supportedSize) :
    ipp.left (l.map fun a => f a + g a) = ipp.left (l.map f) + ipp.left (l.map g) := by
  rw [← ipp.left_add _ _ ((List.length_map f).trans size) ((List.length_map g).trans size),
    List.zipWith_map, List.zipWith_self]

theorem TIPPCommitment.left_map_smul (ipp : TIPPCommitment F G₁ G₂ Com) {α : Type} (s : F)
    (f : α → G₁) {l : List α} (size : l.length = ipp.supportedSize) :
    ipp.left (l.map fun a => s • f a) = s • ipp.left (l.map f) := by
  rw [← ipp.left_smul s _ ((List.length_map f).trans size), List.map_map]
  rfl

def wrongLength : String := "called `Result::unwrap()` on an `Err` value: MessageLengthInvalid"

/-- `commit_only_left(..).unwrap()`. -/
def TIPPCommitment.commitOnlyLeft (ipp : TIPPCommitment F G₁ G₂ Com) (l : List G₁) : Outcome Com :=
  if l.length = ipp.supportedSize then .ok (ipp.left l) else panicWith wrongLength

/-- `commit_only_right(..).unwrap()`. -/
def TIPPCommitment.commitOnlyRight (ipp : TIPPCommitment F G₁ G₂ Com) (l : List G₂) : Outcome Com :=
  if l.length = ipp.supportedSize then .ok (ipp.right l) else panicWith wrongLength

end Commitments

structure AggProvingKey (G₁ G₂ Com : Type) where
  s0 : List G₁
  s1 : List G₁
  s2 : List G₁
  s3 : List G₁
  comS0 : Com
  comS1 : Com
  comS2 : Com
  comS3 : Com
  h : List G₂
  comH : Com
  delta0 : List G₂
  delta1 : List G₂
  comDelta0 : Com
  comDelta1 : Com
  alpha : List G₁
  beta : List G₂

/-- What the aggregation key takes of one proving key. -/
structure KeyParts (G₁ G₂ : Type) where
  s0 : G₁
  s1 : G₁
  s2 : G₁
  s3 : G₁
  h : G₂
  delta0 : G₂
  delta1 : G₂
  alpha : G₁
  beta : G₂

section Keys
variable {F G₁ G₂ GT Com : Type} [Field F] [AddCommGroup G₁] [Module F G₁]
variable [AddCommGroup G₂] [Module F G₂] [AddCommGroup Com] [Module F Com]

def indexed {α : Type} (l : List α) (i : Nat) : Outcome α := expect Coordinator.outOfBounds l[i]?

def keyParts (pk : ProvingKey G₁ G₂) : Outcome (KeyParts G₁ G₂) := do
  let s0 ← indexed pk.vk.gammaAbcG 0
  let s1 ← indexed pk.vk.gammaAbcG 1
  let s2 ← indexed pk.vk.gammaAbcG 2
  let s3 ← indexed pk.vk.gammaAbcG 3
  let delta0 ← indexed pk.vk.deltasH 0
  let delta1 ← indexed pk.vk.deltasH 1
  .ok ⟨s0, s1, s2, s3, pk.vk.gammaH, delta0, delta1, pk.vk.alphaG, pk.vk.betaH⟩

namespace AggProvingKey

def new (ipp : TIPPCommitment F G₁ G₂ Com) (pkFetcher : Nat → ProvingKey G₁ G₂) :
    Outcome (AggProvingKey G₁ G₂ Com) := do
  let parts ← (List.range ipp.supportedSize).mapM fun i => keyParts (pkFetcher i)
  let s0 := parts.map KeyParts.s0
  let s1 := parts.map KeyParts.s1
  let s2 := parts.map KeyParts.s2
  let s3 := parts.map KeyParts.s3
  let h := parts.map KeyParts.h
  let delta0 := parts.map KeyParts.delta0
  let delta1 := parts.map KeyParts.delta1
  let comS0 ← ipp.commitOnlyLeft s0
  let comS1 ← ipp.commitOnlyLeft s1
  let comS2 ← ipp.commitOnlyLeft s2
  let comS3 ← ipp.commitOnlyLeft s3
  let comH ← ipp.commitOnlyRight h
  let comDelta0 ← ipp.commitOnlyRight delta0
  let comDelta1 ← ipp.commitOnlyRight delta1
  .ok {
    s0 := s0, s1 := s1, s2 := s2, s3 := s3
    comS0 := comS0, comS1 := comS1, comS2 := comS2, comS3 := comS3
    h := h, comH := comH
    delta0 := delta0, delta1 := delta1, comDelta0 := comDelta0, comDelta1 := comDelta1
    alpha := parts.map KeyParts.alpha
    beta := parts.map KeyParts.beta }

def comPreparedInput (agg : AggProvingKey G₁ G₂ Com) (pubInputs : List F) : Outcome Com := do
  let input0 ← indexed pubInputs 0
  let input1 ← indexed pubInputs 1
  let input2 ← indexed pubInputs 2
  .ok (agg.comS0 + input0 • agg.comS1 + input1 • agg.comS2 + input2 • agg.comS3)

/-- The first public input is always one, so `s0` gets no coefficient. -/
def preparedInput (agg : AggProvingKey G₁ G₂ Com) (pubInputs : List F) : Outcome (List G₁) := do
  let input0 ← indexed pubInputs 0
  let input1 ← indexed pubInputs 1
  let input2 ← indexed pubInputs 2
  .ok ((((agg.s0.zip agg.s1).zip agg.s2).zip agg.s3).map fun s =>
    s.1.1.1 + input0 • s.1.1.2 + input1 • s.1.2 + input2 • s.2)

end AggProvingKey
end Keys

section Checks
variable {F G₁ G₂ GT Com : Type} [Field F] [DecidableEq F] [AddCommGroup G₁] [Module F G₁]
variable [AddCommGroup G₂] [Module F G₂] [AddCommGroup GT] [Module F GT]
variable [AddCommGroup Com] [Module F Com]

/-- The equation of proof `i` that is checked while aggregating. -/
def checkedEquation [DecidableEq GT] (E : Pairing F G₁ G₂ GT) (agg : AggProvingKey G₁ G₂ Com)
    (preparedInput : List G₁) (proof : Proof G₁ G₂) (i : Nat) : Outcome Bool := do
  let alpha ← indexed agg.alpha i
  let beta ← indexed agg.beta i
  let input ← indexed preparedInput i
  let h ← indexed agg.h i
  let d ← indexed proof.ds 0
  let delta0 ← indexed agg.delta0 i
  let delta1 ← indexed agg.delta1 i
  .ok (E.pairing proof.a proof.b = E.pairing alpha beta + E.pairing input h +
    E.pairing d delta0 + E.pairing proof.c delta1)

end Checks

theorem drop_eq_cons {α : Type} {l : List α} {i : Nat} {a : α} (found : l[i]? = some a) :
    l.drop i = a :: l.drop (i + 1) := by
  obtain ⟨inside, rfl⟩ := List.getElem?_eq_some_iff.mp found
  exact List.drop_eq_getElem_cons inside

section Inputs
variable {F G₁ G₂ GT Com : Type} [Field F] [AddCommGroup G₁] [Module F G₁]
variable [AddCommGroup G₂] [Module F G₂] [AddCommGroup GT] [Module F GT]
variable [AddCommGroup Com] [Module F Com]

omit [AddCommGroup G₁] [AddCommGroup G₂] in
/-- The parts are the first elements of the key. -/
theorem keyParts_eq {pk : ProvingKey G₁ G₂} {parts : KeyParts G₁ G₂}
    (taken : keyParts pk = .ok parts) :
    pk.vk.gammaAbcG = parts.s0 :: parts.s1 :: parts.s2 :: parts.s3 :: pk.vk.gammaAbcG.drop 4 ∧
      pk.vk.deltasH = parts.delta0 :: parts.delta1 :: pk.vk.deltasH.drop 2 ∧
      parts.h = pk.vk.gammaH ∧ parts.alpha = pk.vk.alphaG ∧ parts.beta = pk.vk.betaH := by
  rw [keyParts] at taken
  simp only [bind_eq_ok, indexed, expect_eq_ok] at taken
  obtain ⟨s0, h0, s1, h1, s2, h2, s3, h3, delta0, e0, delta1, e1, same⟩ := taken
  cases same
  refine ⟨?_, ?_, rfl, rfl, rfl⟩
  · rw [← drop_eq_cons h3, ← drop_eq_cons h2, ← drop_eq_cons h1, ← drop_eq_cons h0,
      List.drop_zero]
  · rw [← drop_eq_cons e1, ← drop_eq_cons e0, List.drop_zero]

/-- The aggregation key over the parts of all keys. -/
def ofParts (ipp : TIPPCommitment F G₁ G₂ Com) (parts : List (KeyParts G₁ G₂)) :
    AggProvingKey G₁ G₂ Com where
  s0 := parts.map KeyParts.s0
  s1 := parts.map KeyParts.s1
  s2 := parts.map KeyParts.s2
  s3 := parts.map KeyParts.s3
  comS0 := ipp.left (parts.map KeyParts.s0)
  comS1 := ipp.left (parts.map KeyParts.s1)
  comS2 := ipp.left (parts.map KeyParts.s2)
  comS3 := ipp.left (parts.map KeyParts.s3)
  h := parts.map KeyParts.h
  comH := ipp.right (parts.map KeyParts.h)
  delta0 := parts.map KeyParts.delta0
  delta1 := parts.map KeyParts.delta1
  comDelta0 := ipp.right (parts.map KeyParts.delta0)
  comDelta1 := ipp.right (parts.map KeyParts.delta1)
  alpha := parts.map KeyParts.alpha
  beta := parts.map KeyParts.beta

theorem new_eq {ipp : TIPPCommitment F G₁ G₂ Com} {pkFetcher : Nat → ProvingKey G₁ G₂}
    {agg : AggProvingKey G₁ G₂ Com} (built : AggProvingKey.new ipp pkFetcher = .ok agg) :
    ∃ parts, List.Forall₂ (fun i part => keyParts (pkFetcher i) = .ok part)
      (List.range ipp.supportedSize) parts ∧ agg = ofParts ipp parts := by
  rw [AggProvingKey.new] at built
  obtain ⟨parts, ran, rest⟩ := bind_eq_ok.mp built
  have taken := forall₂_of_mapM ran
  have size : parts.length = ipp.supportedSize := by
    rw [← taken.length_eq, List.length_range]
  refine ⟨parts, taken, ?_⟩
  simp only [TIPPCommitment.commitOnlyLeft, TIPPCommitment.commitOnlyRight, List.length_map, size,
    if_true, ok_bind] at rest
  cases rest
  rfl

/-- The combination of one key's parts with the first three inputs. -/
def combinedInput (input0 input1 input2 : F) (part : KeyParts G₁ G₂) : G₁ :=
  part.s0 + input0 • part.s1 + input1 • part.s2 + input2 • part.s3

theorem preparedInput_eq (ipp : TIPPCommitment F G₁ G₂ Com) (parts : List (KeyParts G₁ G₂))
    (input0 input1 input2 : F) (more : List F) :
    (ofParts ipp parts).preparedInput (input0 :: input1 :: input2 :: more) =
      .ok (parts.map (combinedInput input0 input1 input2)) := by
  have zipped : (((parts.map KeyParts.s0).zip (parts.map KeyParts.s1)).zip
      (parts.map KeyParts.s2)).zip (parts.map KeyParts.s3) =
        parts.map fun part => (((part.s0, part.s1), part.s2), part.s3) := by
    rw [List.zip_map', List.zip_map', List.zip_map']
  simp only [AggProvingKey.preparedInput, ofParts, zipped, List.map_map]
  rfl

/-- By linearity it is the commitment to the prepared inputs. -/
theorem comPreparedInput_eq (ipp : TIPPCommitment F G₁ G₂ Com) {parts : List (KeyParts G₁ G₂)}
    (size : parts.length = ipp.supportedSize) (input0 input1 input2 : F) (more : List F) :
    (ofParts ipp parts).comPreparedInput (input0 :: input1 :: input2 :: more) =
      .ok (ipp.left (parts.map (combinedInput input0 input1 input2))) := by
  have first := ipp.left_map_add (fun part : KeyParts G₁ G₂ => part.s0 + input0 • part.s1 +
    input1 • part.s2) (fun part => input2 • part.s3) size
  have second := ipp.left_map_add (fun part : KeyParts G₁ G₂ => part.s0 + input0 • part.s1)
    (fun part => input1 • part.s2) size
  have third := ipp.left_map_add (fun part : KeyParts G₁ G₂ => part.s0)
    (fun part => input0 • part.s1) size
  rw [ipp.left_map_smul input0 (fun part : KeyParts G₁ G₂ => part.s1) size] at third
  rw [ipp.left_map_smul input1 (fun part : KeyParts G₁ G₂ => part.s2) size, third] at second
  rw [ipp.left_map_smul input2 (fun part : KeyParts G₁ G₂ => part.s3) size, second] at first
  exact congrArg Except.ok first.symm

omit [AddCommGroup G₂] [Module F G₂] [AddCommGroup GT] [Module F GT] in
/-- The verifier also counts the inputs past the third one. -/
theorem prepareInputs_split (vk : PreparedVerifyingKey G₁ G₂ GT) {part : KeyParts G₁ G₂}
    {rest : List G₁} (key : vk.vk.gammaAbcG = part.s0 :: part.s1 :: part.s2 :: part.s3 :: rest)
    (input0 input1 input2 : F) {more : List F} (size : more.length = rest.length) :
    prepareInputs vk (input0 :: input1 :: input2 :: more) =
      .ok (combinedInput input0 input1 input2 part + dot more rest) := by
  rw [prepareInputs, key, if_neg (by simp [size])]
  simp only [foldl_dot, dot_cons, combinedInput]
  congr 1
  abel

omit [Field F] in
/-- The public inputs: two or four challenges, then the root. -/
theorem publicInputs_eq {m : MemType} {state : CoordinatorStage1State F F m}
    {final : FinalAggState F} (aggregated : state.intoAggState (fun root => [root]) = .ok final) :
    ∃ input0 input1 input2 more, final.publicInputs = input0 :: input1 :: input2 :: more ∧
      (m = .rom → more = []) := by
  rw [CoordinatorStage1State.intoAggState] at aggregated
  obtain ⟨first, _, rest⟩ := bind_eq_ok.mp aggregated
  obtain ⟨challenges, listed, same⟩ := bind_eq_ok.mp rest
  cases same
  obtain ⟨chals, _, same⟩ := bind_eq_ok.mp listed
  cases same
  cases chals with
  | rom entryChal trChal => exact ⟨entryChal, trChal, state.execTreeRoot, [], rfl, fun _ => rfl⟩
  | ram entryChal₁ entryChal₂ entryChal₃ trChal =>
    refine ⟨entryChal₁, entryChal₂, entryChal₃, [trChal, state.execTreeRoot], rfl, ?_⟩
    intro absent
    cases absent

variable [DecidableEq GT]

/-- With equal prepared inputs both check the same equation. -/
theorem checkedEquation_eq (E : Pairing F G₁ G₂ GT) (ipp : TIPPCommitment F G₁ G₂ Com)
    {parts : List (KeyParts G₁ G₂)} {i : Nat} {part : KeyParts G₁ G₂} (found : parts[i]? = some part)
    {pk : ProvingKey G₁ G₂} (taken : keyParts pk = .ok part) (twoStages : pk.vk.deltasH.length = 2)
    {preparedInputs : List G₁} {input : G₁} (prepared : preparedInputs[i]? = some input)
    {proof : Proof G₁ G₂} {d : G₁} (single : proof.ds = [d]) :
    checkedEquation E (ofParts ipp parts) preparedInputs proof i =
      verifyProofWithPreparedInputs E (prepareVerifyingKey E pk.vk) proof input := by
  obtain ⟨_, deltas, gamma, alpha, beta⟩ := keyParts_eq taken
  have ends : pk.vk.deltasH.drop 2 = [] := List.drop_eq_nil_of_le (Nat.le_of_eq twoStages)
  rw [ends] at deltas
  have parted : ∀ {α : Type} (f : KeyParts G₁ G₂ → α), (parts.map f)[i]? = some (f part) := by
    intro α f
    rw [List.getElem?_map, found, Option.map_some]
  rw [checkedEquation, verifyProofWithPreparedInputs]
  simp only [indexed, ofParts, parted, prepared, single, expect_some, ok_bind,
    prepareVerifyingKey, deltas, List.getElem?_cons_zero]
  rw [E.multiPairing_eq _ _ rfl, ok_bind, gamma, alpha, beta]
  refine congrArg Except.ok (decide_eq_decide.mpr ?_)
  simp only [List.map_cons, List.map_nil, List.cons_append, List.nil_append,
    List.zipWith_cons_cons, List.zipWith_nil_left, List.sum_cons, List.sum_nil, map_neg]
  constructor
  · intro balanced
    rw [balanced]
    abel
  · intro balanced
    rw [← balanced]
    abel

/-- The aggregator's inputs and equations are the verifier's exactly when the public inputs
past the third one cancel against their key elements. -/
theorem preparedInput_iff (E : Pairing F G₁ G₂ GT) (ipp : TIPPCommitment F G₁ G₂ Com)
    {pkFetcher : Nat → ProvingKey G₁ G₂} {agg : AggProvingKey G₁ G₂ Com}
    (built : AggProvingKey.new ipp pkFetcher = .ok agg) {m : MemType}
    {state : CoordinatorStage1State F F m} {final : FinalAggState F}
    (aggregated : state.intoAggState (fun root => [root]) = .ok final)
    (lengths : ∀ i < ipp.supportedSize,
      (pkFetcher i).vk.gammaAbcG.length = 1 + final.publicInputs.length) :
    (m = .rom → final.publicInputs.drop 3 = []) ∧
    ∃ prepared, agg.preparedInput final.publicInputs = .ok prepared ∧
      prepared.length = ipp.supportedSize ∧
      agg.comPreparedInput final.publicInputs = .ok (ipp.left prepared) ∧
      ∀ i input, prepared[i]? = some input →
        (prepareInputs (prepareVerifyingKey E (pkFetcher i).vk) final.publicInputs = .ok input ↔
          dot (final.publicInputs.drop 3) ((pkFetcher i).vk.gammaAbcG.drop 4) = 0) ∧
        (dot (final.publicInputs.drop 3) ((pkFetcher i).vk.gammaAbcG.drop 4) = 0 →
          (pkFetcher i).vk.deltasH.length = 2 → ∀ proof d, proof.ds = [d] →
          checkedEquation E agg prepared proof i =
            verifyProof E (prepareVerifyingKey E (pkFetcher i).vk) proof final.publicInputs) := by
  obtain ⟨input0, input1, input2, more, inputs, rom⟩ := publicInputs_eq aggregated
  obtain ⟨parts, taken, rfl⟩ := new_eq built
  have size : parts.length = ipp.supportedSize := by
    rw [← taken.length_eq, List.length_range]
  rw [inputs] at lengths ⊢
  refine ⟨rom, _, preparedInput_eq ipp parts input0 input1 input2 more, ?_,
    comPreparedInput_eq ipp size input0 input1 input2 more, ?_⟩
  · rw [List.length_map, size]
  intro i input prepared
  obtain ⟨part, found, rfl⟩ : ∃ part, parts[i]? = some part ∧
      combinedInput input0 input1 input2 part = input := by
    rwa [List.getElem?_map, Option.map_eq_some_iff] at prepared
  obtain ⟨inside, rfl⟩ := List.getElem?_eq_some_iff.mp found
  have ranged : i < (List.range ipp.supportedSize).length := by
    rw [List.length_range, ← size]
    exact inside
  have here : keyParts (pkFetcher i) = .ok parts[i] := by
    have := taken.get ranged inside
    simpa using this
  obtain ⟨gammaAbc, _⟩ := keyParts_eq here
  have counted : more.length = ((pkFetcher i).vk.gammaAbcG.drop 4).length := by
    have all := lengths i (size ▸ inside)
    rw [List.length_drop, all]
    simp only [List.length_cons]
    omega
  have verifier := prepareInputs_split (prepareVerifyingKey E (pkFetcher i).vk) gammaAbc
    input0 input1 input2 counted
  have same : prepareInputs (prepareVerifyingKey E (pkFetcher i).vk)
      (input0 :: input1 :: input2 :: more) = .ok (combinedInput input0 input1 input2 parts[i]) ↔
        dot more ((pkFetcher i).vk.gammaAbcG.drop 4) = 0 := by
    rw [verifier, Except.ok.injEq, add_eq_left]
  refine ⟨same, fun cancel twoStages proof d single => ?_⟩
  rw [verifyProof, same.mpr cancel, ok_bind]
  exact checkedEquation_eq E ipp found here twoStages prepared single

end Inputs

/-- Committing to scalars is summing them up with these weights. -/
def weighted (weights : List (ZMod 3)) :
    TIPPCommitment (ZMod 3) (ZMod 3) (ZMod 3) (ZMod 3) where
  supportedSize := weights.length
  left := dot weights
  right := dot weights
  left_add _ _ size size' := dot_zipWith_add weights (size.trans size'.symm)
  left_smul s l _ := dot_map_mul weights l s

/-- Committing to one scalar is keeping it. -/
def scalarCommitment : TIPPCommitment (ZMod 3) (ZMod 3) (ZMod 3) (ZMod 3) := weighted [1]

def pairCommitment : TIPPCommitment (ZMod 3) (ZMod 3) (ZMod 3) (ZMod 3) := weighted [1, -1]

/-- A two-stage key with this many public inputs. -/
def unitKey (inputs : Nat) : ProvingKey (ZMod 3) (ZMod 3) where
  vk := ⟨1, 1, 1, 1, List.replicate (1 + inputs) 1, [1, 1]⟩
  betaG := 1
  aG := []
  bG := []
  bH := []
  hG := []
  ck := ⟨1, [[], []]⟩
  deltasG := [1, 1]

/-- A state whose challenges and root are one. -/
def unitState {m : MemType} (c : Challenges (ZMod 3) m) :
    CoordinatorStage1State (ZMod 3) (ZMod 3) m where
  timeOrderedSubtraces := [[]]
  addrOrderedSubtraces := [[]]
  execTreeLeaves := [⟨⟨1, 1, some c⟩, .padding m⟩]
  execTreeRoot := 1
  execTreeLeafAuthPaths := []

theorem unitInputs_equal : ∃ agg prepared,
    AggProvingKey.new scalarCommitment (fun _ => unitKey 3) = .ok agg ∧
    agg.preparedInput [(1 : ZMod 3), 1, 1] = .ok prepared ∧ ∀ i : Nat, ∀ input : ZMod 3,
      prepared[i]? = some input → prepareInputs (prepareVerifyingKey (scalarPairing (ZMod 3))
        (unitKey 3).vk)
        [(1 : ZMod 3), 1, 1] = .ok input := by
  obtain ⟨rom, prepared, ran, _, _, all⟩ := preparedInput_iff (scalarPairing (ZMod 3))
    scalarCommitment (show AggProvingKey.new scalarCommitment (fun _ => unitKey 3) = .ok _ from rfl)
    (show (unitState (.rom 1 1)).intoAggState (fun root => [root]) = .ok _ from rfl)
    (fun _ _ => rfl)
  exact ⟨_, prepared, rfl, ran, fun i input found => (all i input found).1.mpr rfl⟩

/-- For random-access memory the challenge `tr_chal` and the root are left out. -/
theorem unitInputs_differ : ∃ agg final,
    AggProvingKey.new scalarCommitment (fun _ => unitKey 5) = .ok agg ∧
    (unitState (.ram 1 1 1 1)).intoAggState (fun root => [root]) = .ok final ∧
    (unitKey 5).vk.gammaAbcG.length = 1 + final.publicInputs.length ∧
    agg.preparedInput final.publicInputs = .ok [1] ∧
    prepareInputs (prepareVerifyingKey (scalarPairing (ZMod 3)) (unitKey 5).vk)
      final.publicInputs = .ok 0 ∧ (1 : ZMod 3) ≠ 0 := by
  refine ⟨_, _, rfl, rfl, rfl, ?_, ?_, ?_⟩
  · rfl
  · rfl
  · decide

end Aggregation
