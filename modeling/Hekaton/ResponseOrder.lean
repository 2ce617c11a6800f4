import Hekaton.AggregationSoundness
import Hekaton.CommitmentConsistency
import Hekaton.StableSorting

/-!
# The order of the responses

The coordinator sorts the responses of both stages by their subcircuits, so it does not
matter in which order they arrive. Position `i` holds what subcircuit `i` answered, in the
commitments under the commitment to them all, in the proofs that are aggregated and in the
vectors of the aggregation key.
-/

namespace ResponseOrder

open LinearCombinations Outcomes CPGroth16 Transcript EvalTree Coordinator Aggregation Workers
open SubcircuitAggregation AggregationSoundness CommitmentConsistency StableSorting

section Positions
variable {α : Type} {r : α → α → Prop} [DecidableRel r] [Std.Total r] [IsTrans α r]
variable {key : α → Nat} {n : Nat} {l l' : List α}

/-- Elements of distinct positions come to stand at their positions. -/
theorem map_insertionSort (keyed : ∀ a b, r a b ↔ key a ≤ key b)
    (positions : (l.map key).Perm (List.range n)) :
    (l.insertionSort r).map key = List.range n := by
  have same := ((List.perm_insertionSort r l).map key).trans positions
  have sorted : ((l.insertionSort r).map key).Pairwise (· ≤ ·) := by
    rw [List.pairwise_map]
    exact (List.pairwise_insertionSort r l).imp fun le => (keyed _ _).mp le
  apply same.eq_of_pairwise _ sorted List.pairwise_le_range
  intro a b _ _ first second
  exact Nat.le_antisymm first second

theorem getElem?_insertionSort (keyed : ∀ a b, r a b ↔ key a ≤ key b)
    (positions : (l.map key).Perm (List.range n)) {a : α} (member : a ∈ l) :
    (l.insertionSort r)[key a]? = some a := by
  have stands := map_insertionSort keyed positions
  obtain ⟨i, inside, rfl⟩ := List.getElem_of_mem ((List.mem_insertionSort r).mpr member)
  have here : key (l.insertionSort r)[i] = i := by
    have at_ := congrArg (·[i]?) stands
    have below : i < n := by
      rw [← List.length_range (n := n), ← stands, List.length_map]
      exact inside
    simp only [List.getElem?_map, List.getElem?_eq_getElem inside, Option.map_some,
      List.getElem?_range below, Option.some.injEq] at at_
    exact at_
  rw [here]
  exact List.getElem?_eq_getElem inside

/-- The sorted list does not depend on the order. -/
theorem insertionSort_comm (keyed : ∀ a b, r a b ↔ key a ≤ key b)
    (positions : (l.map key).Perm (List.range n)) (perm : l.Perm l') :
    l'.insertionSort r = l.insertionSort r := by
  apply (insertionSort_eq_of_perm perm _).symm
  intro a ha b hb first second
  have same : key a = key b := Nat.le_antisymm ((keyed a b).mp first) ((keyed b a).mp second)
  have at_ := getElem?_insertionSort keyed positions ha
  rw [same, getElem?_insertionSort keyed positions hb] at at_
  exact (Option.some.inj at_).symm

end Positions

instance {G Seed : Type} : Std.Total (indexLe : Stage0Response G Seed → _ → Prop) where
  total resp resp' := Nat.le_total resp.subcircuitIdx resp'.subcircuitIdx

instance {G Seed : Type} : IsTrans (Stage0Response G Seed) indexLe where
  trans _ _ _ := Nat.le_trans

def proofIndexLe {G₁ G₂ : Type} (resp resp' : Stage1Response G₁ G₂) : Prop :=
  resp.subcircuitIdx ≤ resp'.subcircuitIdx

instance {G₁ G₂ : Type} : DecidableRel (proofIndexLe : Stage1Response G₁ G₂ → _ → Prop) :=
  fun resp resp' => inferInstanceAs (Decidable (resp.subcircuitIdx ≤ resp'.subcircuitIdx))

instance {G₁ G₂ : Type} : Std.Total (proofIndexLe : Stage1Response G₁ G₂ → _ → Prop) where
  total resp resp' := Nat.le_total resp.subcircuitIdx resp'.subcircuitIdx

instance {G₁ G₂ : Type} : IsTrans (Stage1Response G₁ G₂) proofIndexLe where
  trans _ _ _ := Nat.le_trans

section Final
variable {F G₁ G₂ GT Com Pf D P Seed : Type} [Field F] [AddCommGroup G₁] [Module F G₁]
variable [AddCommGroup G₂] [Module F G₂] [AddCommGroup GT] [Module F GT]
variable [AddCommGroup Com] [Module F Com] {m : MemType}

/-- The public inputs and the commitment to all commitments. -/
structure CommittedAggState (F Com : Type) extends FinalAggState F where
  superCom : Com

/-- `into_agg_state`. -/
def intoCommittedAggState (digestFields : D → List F)
    (state : CommittedState F D P G₁ Seed Com m) : Outcome (CommittedAggState F Com) := do
  let final ← state.toCoordinatorStage1State.intoAggState digestFields
  .ok { final with superCom := state.superCom }

/-- The proofs in the order of their subcircuits. -/
def g16Proofs (responses : List (Stage1Response G₁ G₂)) : List (Proof G₁ G₂) :=
  (responses.insertionSort proofIndexLe).map Stage1Response.proof

def CommittedAggState.genAggProof [DecidableEq GT] (backend : Backend F G₁ G₂ GT Com Pf)
    (state : CommittedAggState F Com) (aggCk : AggProvingKey G₁ G₂ Com)
    (resps : List (Stage1Response G₁ G₂)) : Outcome Pf :=
  backend.aggSubcircuitProofs aggCk (backend.transcript.new "test-e2e") state.superCom
    (g16Proofs resps) state.publicInputs

/-- The vectors of the key at position `i` are the elements of one proving key. -/
structure KeyAt (agg : AggProvingKey G₁ G₂ Com) (i : Nat) (pk : ProvingKey G₁ G₂) : Prop where
  s0 : agg.s0[i]? = pk.vk.gammaAbcG[0]?
  s1 : agg.s1[i]? = pk.vk.gammaAbcG[1]?
  s2 : agg.s2[i]? = pk.vk.gammaAbcG[2]?
  s3 : agg.s3[i]? = pk.vk.gammaAbcG[3]?
  h : agg.h[i]? = some pk.vk.gammaH
  delta0 : agg.delta0[i]? = pk.vk.deltasH[0]?
  delta1 : agg.delta1[i]? = pk.vk.deltasH[1]?
  alpha : agg.alpha[i]? = some pk.vk.alphaG
  beta : agg.beta[i]? = some pk.vk.betaH

theorem keyAt_of_new {ipp : TIPPCommitment F G₁ G₂ Com} {pkFetcher : Nat → ProvingKey G₁ G₂}
    {agg : AggProvingKey G₁ G₂ Com} (built : AggProvingKey.new ipp pkFetcher = .ok agg) {i : Nat}
    (inside : i < ipp.supportedSize) : KeyAt agg i (pkFetcher i) := by
  obtain ⟨parts, taken, rfl⟩ := new_eq built
  have size : parts.length = ipp.supportedSize := by
    rw [← taken.length_eq, List.length_range]
  have below : i < parts.length := size ▸ inside
  have here : keyParts (pkFetcher i) = .ok parts[i] := by
    have at_ := taken.get (by rw [List.length_range]; exact inside) below
    simpa using at_
  obtain ⟨gammaAbc, deltas, gamma, alpha, beta⟩ := keyParts_eq here
  have parted : ∀ {α : Type} (f : KeyParts G₁ G₂ → α), (parts.map f)[i]? = some (f parts[i]) := by
    intro α f
    rw [List.getElem?_map, List.getElem?_eq_getElem below, Option.map_some]
  constructor
  · rw [gammaAbc]
    exact parted KeyParts.s0
  · rw [gammaAbc]
    exact parted KeyParts.s1
  · rw [gammaAbc]
    exact parted KeyParts.s2
  · rw [gammaAbc]
    exact parted KeyParts.s3
  · exact (parted KeyParts.h).trans (congrArg some gamma)
  · rw [deltas]
    exact parted KeyParts.delta0
  · rw [deltas]
    exact parted KeyParts.delta1
  · exact (parted KeyParts.alpha).trans (congrArg some alpha)
  · exact (parted KeyParts.beta).trans (congrArg some beta)

/-- The state of stage 1 over responses in any order: commitments and seeds by position. -/
theorem processStage0Responses_positions [Inhabited D] {gadget : TreeConfigGadget F D}
    {depth : Nat} {ipp : TIPPCommitment F G₁ G₂ Com} {transcriptHash : Com → String → F}
    {state₀ : CoordinatorStage0State F P m} {responses : List (Stage0Response G₁ Seed)} {n : Nat}
    (positions : (responses.map Stage0Response.subcircuitIdx).Perm (List.range n))
    {state : CommittedState F D P G₁ Seed Com m}
    (processed : state₀.processStage0Responses gadget depth ipp transcriptHash responses =
      .ok state) :
    state.superCom = ipp.left state.coms ∧ state.coms.length = n ∧ state.seeds.length = n ∧
      ∀ response ∈ responses, state.coms[response.subcircuitIdx]? = some response.com ∧
        state.seeds[response.subcircuitIdx]? = some response.comSeed := by
  rw [CoordinatorStage0State.processStage0Responses] at processed
  obtain ⟨superCom, committed, rest⟩ := bind_eq_ok.mp processed
  obtain ⟨stage1, _, same⟩ := bind_eq_ok.mp rest
  cases same
  have counted : (responses.insertionSort indexLe).length = n := by
    rw [List.length_insertionSort, ← List.length_map Stage0Response.subcircuitIdx,
      positions.length_eq, List.length_range]
  refine ⟨?_, (List.length_map _).trans counted, (List.length_map _).trans counted, ?_⟩
  · rw [TIPPCommitment.commitOnlyLeft] at committed
    by_cases fits : ((responses.insertionSort indexLe).map Stage0Response.com).length =
      ipp.supportedSize
    · rw [if_pos fits] at committed
      exact (Except.ok.inj committed).symm
    · rw [if_neg fits] at committed
      cases committed
  · intro response member
    have keyed : ∀ a b : Stage0Response G₁ Seed, indexLe a b ↔
        a.subcircuitIdx ≤ b.subcircuitIdx := fun _ _ => Iff.rfl
    have at_ := getElem?_insertionSort keyed positions member
    constructor
    · rw [List.getElem?_map, at_, Option.map_some]
    · rw [List.getElem?_map, at_, Option.map_some]

/-- The responses of both stages may come in any order, and every vector is aligned: the
commitments, the seeds, the proofs and the elements of the keys. -/
theorem responses_in_any_order [Inhabited D] [DecidableEq GT] {n : Nat}
    {responses responses' : List (Stage0Response G₁ Seed)}
    (positions : (responses.map Stage0Response.subcircuitIdx).Perm (List.range n))
    (perm : responses.Perm responses') {resps resps' : List (Stage1Response G₁ G₂)}
    (proofPositions : (resps.map Stage1Response.subcircuitIdx).Perm (List.range n))
    (proofPerm : resps.Perm resps') (gadget : TreeConfigGadget F D) (depth : Nat)
    (ipp : TIPPCommitment F G₁ G₂ Com) (transcriptHash : Com → String → F)
    (state₀ : CoordinatorStage0State F P m) :
    (state₀.processStage0Responses gadget depth ipp transcriptHash responses' =
      state₀.processStage0Responses gadget depth ipp transcriptHash responses) ∧
    (∀ state : CommittedState F D P G₁ Seed Com m,
      state₀.processStage0Responses gadget depth ipp transcriptHash responses = .ok state →
      state.superCom = ipp.left state.coms ∧ state.coms.length = n ∧ state.seeds.length = n ∧
      ∀ response ∈ responses, state.coms[response.subcircuitIdx]? = some response.com ∧
        state.seeds[response.subcircuitIdx]? = some response.comSeed) ∧
    (g16Proofs resps' = g16Proofs resps ∧ (g16Proofs resps).length = n ∧
      ∀ resp ∈ resps, (g16Proofs resps)[resp.subcircuitIdx]? = some resp.proof) ∧
    (∀ (backend : Backend F G₁ G₂ GT Com Pf) (final : CommittedAggState F Com)
      (aggCk : AggProvingKey G₁ G₂ Com),
      final.genAggProof backend aggCk resps' = final.genAggProof backend aggCk resps) ∧
    (∀ (pks : ProvingKeys G₁ G₂) (pkFetcher : Nat → ProvingKey G₁ G₂)
      (aggCk : AggProvingKey G₁ G₂ Com), ipp.supportedSize = n →
      (∀ i < n, pks.getPk i = .ok (pkFetcher i)) → AggProvingKey.new ipp pkFetcher = .ok aggCk →
      ∀ i < n, ∃ pk, pks.getPk i = .ok pk ∧ KeyAt aggCk i pk) := by
  have sorted : responses'.insertionSort indexLe = responses.insertionSort indexLe :=
    insertionSort_comm (fun _ _ => Iff.rfl) positions perm
  have keyed : ∀ a b : Stage1Response G₁ G₂, proofIndexLe a b ↔
      a.subcircuitIdx ≤ b.subcircuitIdx := fun _ _ => Iff.rfl
  have proofs : g16Proofs resps' = g16Proofs resps := by
    rw [g16Proofs, insertionSort_comm keyed proofPositions proofPerm]
    rfl
  refine ⟨?_, ?_, ⟨proofs, ?_, ?_⟩, ?_, ?_⟩
  · rw [CoordinatorStage0State.processStage0Responses, sorted]
    rfl
  · intro state processed
    exact processStage0Responses_positions positions processed
  · rw [g16Proofs, List.length_map, List.length_insertionSort,
      ← List.length_map Stage1Response.subcircuitIdx, proofPositions.length_eq, List.length_range]
  · intro resp member
    have at_ := getElem?_insertionSort keyed proofPositions member
    rw [g16Proofs, List.getElem?_map, at_, Option.map_some]
  · intro backend final aggCk
    rw [CommittedAggState.genAggProof, proofs]
    rfl
  · intro pks pkFetcher aggCk size fetched built i inside
    exact ⟨pkFetcher i, fetched i inside, keyAt_of_new built (size ▸ inside)⟩

end Final

/-- Both responses swapped. -/
theorem twoResponses_swap : oneRead.processStage0Responses (freeGadget (ZMod 3)) 1 pairCommitment
      (fun _ _ => 1) [(⟨0, 1, ()⟩ : Stage0Response (ZMod 3) Unit), ⟨1, 2, ()⟩] =
    oneRead.processStage0Responses (freeGadget (ZMod 3)) 1 pairCommitment (fun _ _ => 1)
      [⟨1, 2, ()⟩, ⟨0, 1, ()⟩] ∧
    g16Proofs [⟨0, zeroProof⟩, ⟨1, ⟨1, 1, 1, [1]⟩⟩] = [zeroProof, ⟨1, 1, 1, [1]⟩] := by
  have positions : ([(⟨1, 2, ()⟩ : Stage0Response (ZMod 3) Unit), ⟨0, 1, ()⟩].map
      Stage0Response.subcircuitIdx).Perm (List.range 2) := List.Perm.swap 0 1 []
  have proofPositions : ([(⟨1, ⟨1, 1, 1, [1]⟩⟩ : Stage1Response (ZMod 3) (ZMod 3)),
      ⟨0, zeroProof⟩].map Stage1Response.subcircuitIdx).Perm (List.range 2) :=
    List.Perm.swap 0 1 []
  have all := @responses_in_any_order (ZMod 3) (ZMod 3) (ZMod 3) (ZMod 3) (ZMod 3) Unit
    (FreeDigest (ZMod 3)) Unit Unit _ _ _ _ _ _ _ _ _ .rom _ _ 2 _ _ positions
    (List.Perm.swap _ _ []) _ _ proofPositions (List.Perm.swap _ _ []) (freeGadget (ZMod 3)) 1
    pairCommitment (fun _ _ => 1) oneRead
  exact ⟨all.1, all.2.2.1.1.trans rfl⟩

end ResponseOrder
