import Hekaton.KeyReuse
import Hekaton.Sha256Digests
import Hekaton.TreeHashRuns

/-!
# Keys of the Merkle tree circuit

A subcircuit and its representative are both the first leaf, other leaves, the root, other
parents or the padding. Their bodies then have the same rows and as many portal calls as
their traces have entries, whatever the leaves and the root hash of their circuits are.
-/

namespace TreeHashKeys

open Outcomes Wires Synthesis Contracts Transcript PortalManager PrimeFields VkdHash FieldGadgets
open HonestRuns EvalTree SubcircuitCircuit SubcircuitShapes KeyReuse TreeIndexing TreeHashCircuit
open TreeHashTraces TreeHashRuns Sha256Digests

section Roles
variable {overflowChecks : Bool} {params : MerkleTreeCircuitParams} {idx r : Nat}

/-- Both indices are the first, of leaves, of the root or of the padding, or neither is. -/
structure SameRole (params : MerkleTreeCircuitParams) (idx r : Nat) : Prop where
  inside : r < params.numSubcircuits
  first : idx = 0 ↔ r = 0
  leaf : idx < params.numLeaves ↔ r < params.numLeaves
  root : idx + 2 = params.numSubcircuits ↔ r + 2 = params.numSubcircuits
  padding : idx + 1 = params.numSubcircuits ↔ r + 1 = params.numSubcircuits

theorem unique_eq (many : 2 ≤ params.numLeaves) :
    params.getUniqueSubcircuits overflowChecks = .ok [0, 1, params.numSubcircuits - 1,
      params.numSubcircuits - 2, params.numSubcircuits - 3] := by
  have double : params.numSubcircuits = 2 * params.numLeaves := rfl
  rw [MerkleTreeCircuitParams.getUniqueSubcircuits, subBits_eq (by omega), ok_bind,
    subBits_eq (by omega), ok_bind, subBits_eq (by omega), ok_bind]

/-- The representative has the role of the subcircuit, and a key of its own. -/
theorem representative_role (many : 2 ≤ params.numLeaves) (inside : idx < params.numSubcircuits) :
    ∃ r, params.representativeSubcircuit overflowChecks idx = .ok r ∧ SameRole params idx r ∧
      r ∈ [0, 1, params.numSubcircuits - 1, params.numSubcircuits - 2,
        params.numSubcircuits - 3] := by
  have double : params.numSubcircuits = 2 * params.numLeaves := rfl
  have half : params.numSubcircuits / 2 = params.numLeaves := by omega
  rw [MerkleTreeCircuitParams.representativeSubcircuit, subBits_eq (by omega), ok_bind,
    subBits_eq (by omega), ok_bind, subBits_eq (by omega), ok_bind, half]
  by_cases first : idx = 0
  · rw [if_pos first]
    exact ⟨0, rfl, ⟨by omega, by omega, by omega, by omega, by omega⟩, by simp⟩
  rw [if_neg first]
  by_cases leaf : 1 ≤ idx ∧ idx < params.numLeaves
  · rw [if_pos leaf]
    exact ⟨1, rfl, ⟨by omega, by omega, by omega, by omega, by omega⟩, by simp⟩
  rw [if_neg leaf]
  by_cases parent : params.numLeaves ≤ idx ∧ idx ≤ params.numSubcircuits - 3
  · rw [if_pos parent]
    exact ⟨_, rfl, ⟨by omega, by omega, by omega, by omega, by omega⟩, by simp⟩
  rw [if_neg parent]
  by_cases padding : idx = params.numSubcircuits - 1
  · rw [if_pos padding]
    exact ⟨_, rfl, ⟨by omega, by omega, by omega, by omega, by omega⟩, by simp⟩
  · rw [if_neg padding, if_pos (by omega)]
    exact ⟨_, rfl, ⟨by omega, by omega, by omega, by omega, by omega⟩, by simp⟩

theorem SameRole.callCount_eq (role : SameRole params idx r) (inside : idx < params.numSubcircuits) :
    callCount params idx = callCount params r := by
  have below := role.inside
  have before : idx + 1 < params.numSubcircuits ↔ r + 1 < params.numSubcircuits := by
    have := role.padding
    omega
  rw [callCount, callCount, ownCount, ownCount]
  simp only [role.first, role.leaf, before]

end Roles

section Rows
variable {F D : Type} [Field F] [PrimeField F] [DecidableEq F] [Inhabited D] [DecidableEq D]
variable {overflowChecks : Bool} {sha : Sha256 F D} {params : MerkleTreeCircuitParams}
variable {c c' : MerkleTreeCircuit params} {idx r : Nat}

/-- The rows of the gadget do not depend on the values of its variables. -/
def Uniform (sha : Sha256 F D) : Prop := ∀ vs, Parallel (sha.gadget vs) (sha.gadget vs) (· = ·)

omit [PrimeField F] [Inhabited D] [DecidableEq D] in
theorem standard_uniform : Uniform (standard F D) := gadget_parallel

omit [PrimeField F] [DecidableEq F] [Inhabited D] [DecidableEq D] in
theorem iteratedSha256Var_parallel (uniform : Uniform sha) (vs : List (UInt8Var F D)) :
    Parallel (iteratedSha256Var sha params vs) (iteratedSha256Var sha params vs) (· = ·) := by
  have rounds (n : Nat) (vs : List (UInt8Var F D)) :
      Parallel (iterateGadget sha n vs) (iterateGadget sha n vs) (· = ·) := by
    induction n generalizing vs with
    | zero => exact .pure rfl
    | succ n ih => exact (uniform vs).bind_eq ih
  exact (rounds _ vs).bind_eq fun digest => .pure rfl

omit [PrimeField F] [DecidableEq F] [Inhabited D] [DecidableEq D] in
theorem paddingConstraints_alike (uniform : Uniform sha) : Alike .rom 0
    (paddingConstraints sha params) (paddingConstraints sha params) fun _ _ => True := by
  apply Alike.lift_bind (newWitnessVec_parallel rfl)
  rintro vs _ ⟨rfl, _⟩
  apply Alike.lift_bind (iteratedSha256Var_parallel uniform vs)
  exact fun _ _ _ => .done trivial

omit [PrimeField F] [Inhabited D] in
theorem leafConstraints_alike (uniform : Uniform sha) {node node' : Nat}
    (inside : node / 2 < params.numLeaves) (inside' : node' / 2 < params.numLeaves) :
    Alike .rom 1 (leafConstraints sha c node) (leafConstraints sha c' node') fun _ _ => True := by
  rw [← c.leaves.toList_length] at inside
  rw [← c'.leaves.toList_length] at inside'
  apply Alike.lift_bind (R := fun _ _ => True)
  · apply Parallel.lift (a := c.leaves.toList[node / 2]) (b := c'.leaves.toList[node' / 2])
    · rw [List.getElem?_eq_getElem inside, expect_some]
    · rw [List.getElem?_eq_getElem inside', expect_some]
    · trivial
  intro leaf leaf' _
  apply Alike.lift_bind
    (newWitnessVec_parallel (leaf.toList_length.trans leaf'.toList_length.symm))
  rintro vs _ ⟨rfl, _⟩
  apply Alike.lift_bind (iteratedSha256Var_parallel uniform vs)
  rintro w _ rfl
  exact Alike.set _ _ w

omit [PrimeField F] [DecidableEq F] [Inhabited D] [DecidableEq D] in
theorem rootConstraints_alike {isRoot isRoot' : Prop} [Decidable isRoot] [Decidable isRoot']
    (same : isRoot ↔ isRoot') (w : Wire F D .field) :
    Alike .rom 0 (rootConstraints c isRoot w) (rootConstraints c' isRoot' w) fun _ _ => True := by
  rw [rootConstraints, rootConstraints]
  by_cases root : isRoot
  · rw [if_pos root, if_pos (same.mp root)]
    apply Alike.lift_bind Parallel.newVariable
    rintro expected _ rfl
    exact (Alike.lift (Parallel.emit _)).mono fun _ _ _ => trivial
  · rw [if_neg root, if_neg fun root' => root (same.mpr root')]
    exact .done trivial

theorem child_eq {offset node : Nat} (parent : level node ≠ 0) : ∃ n, child offset node = .ok n :=
  ⟨_, if_neg parent⟩

omit [Inhabited D] in
theorem parentConstraints_alike (uniform : Uniform sha) {isRoot isRoot' : Prop} [Decidable isRoot]
    [Decidable isRoot'] (same : isRoot ↔ isRoot') {node node' : Nat} (parent : level node ≠ 0)
    (parent' : level node' ≠ 0) : Alike .rom 3 (parentConstraints sha c isRoot node)
      (parentConstraints sha c' isRoot' node') fun _ _ => True := by
  have children (offset : Nat) : Parallel (F := F) (D := D) (Synth.lift (child offset node))
      (Synth.lift (child offset node')) fun _ _ => True := by
    obtain ⟨n, here⟩ := child_eq parent
    obtain ⟨n', there⟩ := child_eq parent'
    exact .lift here there trivial
  have digests (w : Wire F D .field) :
      Parallel (fpvarToDigest w) (fpvarToDigest w) (· = ·) := by
    obtain ⟨vs, computes, _⟩ := fpvarToDigest_computes w
    exact computes.parallel.mono fun _ _ both => both.1.trans both.2.symm
  apply Alike.lift_bind (children 1)
  intro left left' _
  apply Alike.lift_bind (children 3)
  intro right right' _
  change Alike .rom (1 + (1 + 1)) _ _ _
  apply (Alike.get (m := .rom) (nodeName left) (nodeName left')).bind
  rintro leftHash _ rfl
  apply (Alike.get (m := .rom) (nodeName right) (nodeName right')).bind
  rintro rightHash _ rfl
  apply Alike.lift_bind (digests leftHash)
  rintro leftBytes _ rfl
  apply Alike.lift_bind (digests rightHash)
  rintro rightBytes _ rfl
  apply Alike.lift_bind (iteratedSha256Var_parallel uniform _)
  rintro w _ rfl
  exact (Alike.set (nodeName node) (nodeName node') w).bind fun _ _ _ =>
    rootConstraints_alike same w

omit [PrimeField F] [Inhabited D] in
theorem setPlaceholder_alike (first : idx = 0 ↔ r = 0) : Alike .rom (if idx = 0 then 1 else 0)
    (setPlaceholder (F := F) (D := D) idx) (setPlaceholder r) fun _ _ => True := by
  rw [setPlaceholder, setPlaceholder]
  by_cases zero : idx = 0
  · rw [if_pos zero, if_pos zero, if_pos (first.mp zero)]
    apply Alike.lift_bind Parallel.newVariable
    rintro w _ rfl
    exact .set _ _ w
  · rw [if_neg zero, if_neg zero, if_neg fun zero' => zero (first.mpr zero')]
    exact .done trivial

omit [PrimeField F] [Inhabited D] in
theorem getPlaceholders_alike (portals : 1 ≤ params.numPortalsPerSubcircuit) :
    Alike .rom (dummyCount params) (getPlaceholders (F := F) (D := D) overflowChecks params)
      (getPlaceholders overflowChecks params) fun _ _ => True := by
  have count : subBits overflowChecks 64 params.numPortalsPerSubcircuit 1 =
      .ok (dummyCount params) := subBits_eq portals
  apply Alike.lift_bind (Parallel.lift (R := fun i j => i = dummyCount params ∧ j = i) count count
    ⟨rfl, rfl⟩)
  rintro n _ ⟨rfl, rfl⟩
  have each : Alike .rom 1 (do let _ ← Program.portalGet (F := F) (D := D) placeholder; pure ())
      (do let _ ← Program.portalGet placeholder; pure ()) fun _ _ => True :=
    (Alike.get placeholder placeholder).bind fun _ _ _ => .done trivial
  have loop := Alike.loop
    (List.forall₂_same.mpr fun (i : Nat) (_ : i ∈ List.range (dummyCount params)) => each)
  rwa [List.length_range, Nat.mul_one] at loop

omit [Inhabited D] in
/-- Nodes of one role have the same rows. -/
theorem nodeConstraints_alike (uniform : Uniform sha) {k node node' : Nat}
    (power : params.numLeaves = 2 ^ k) (height : k < 32) (role : SameRole params idx r)
    (found : subcircuitIdxToNodeIdx overflowChecks idx params.numLeaves = .ok node)
    (found' : subcircuitIdxToNodeIdx overflowChecks r params.numLeaves = .ok node') :
    Alike .rom (if idx < params.numLeaves then 1 else 3)
      (nodeConstraints overflowChecks sha c idx) (nodeConstraints overflowChecks sha c' r)
      fun _ _ => True := by
  have top : rootIdx overflowChecks params.numLeaves = .ok (nodeAt k 0) := by
    rw [power]
    exact rootIdx_eq height
  apply Alike.lift_bind (Parallel.lift (R := fun i j => i = node ∧ j = node') found found'
    ⟨rfl, rfl⟩)
  rintro _ _ ⟨rfl, rfl⟩
  apply Alike.lift_bind (Parallel.lift (R := fun i j => i = nodeAt k 0 ∧ j = i) top top ⟨rfl, rfl⟩)
  rintro _ _ ⟨rfl, rfl⟩
  have whole := MerkleTreeCircuitParams.numSubcircuits_eq power
  rw [power] at found found'
  obtain ⟨leafHere, rootHere, insideHere⟩ := node_kind height found
  obtain ⟨leafThere, rootThere, insideThere⟩ := node_kind height found'
  rw [← whole] at rootHere rootThere
  rw [← power] at leafHere leafThere insideHere insideThere
  by_cases leaf : idx < params.numLeaves
  · rw [if_pos leaf, if_pos (leafHere.mpr leaf), if_pos (leafThere.mpr (role.leaf.mp leaf))]
    exact leafConstraints_alike uniform insideHere insideThere
  · have parent := fun zero => leaf (leafHere.mp zero)
    have parent' := fun zero => leaf (role.leaf.mpr (leafThere.mp zero))
    rw [if_neg leaf, if_neg parent, if_neg parent']
    exact parentConstraints_alike uniform (rootHere.trans (role.root.trans rootThere.symm)) parent
      parent'

omit [Inhabited D] in
theorem treeConstraints_alike (uniform : Uniform sha) {k : Nat}
    (power : params.numLeaves = 2 ^ k) (height : k < 32)
    (found : ∀ idx, idx + 1 < params.numSubcircuits →
      ∃ node, subcircuitIdxToNodeIdx overflowChecks idx params.numLeaves = .ok node)
    (inside : idx < params.numSubcircuits) (role : SameRole params idx r) :
    Alike .rom (ownCount params idx) (treeConstraints overflowChecks sha c idx)
      (treeConstraints overflowChecks sha c' r) fun _ _ => True := by
  have double : params.numSubcircuits = 2 * params.numLeaves := rfl
  have below := role.inside
  have padding := role.padding
  have last : subBits overflowChecks 64 params.numSubcircuits 1 =
      .ok (params.numSubcircuits - 1) := subBits_eq (by omega)
  apply Alike.lift_bind (Parallel.lift (R := fun i j => i = params.numSubcircuits - 1 ∧ j = i)
    last last ⟨rfl, rfl⟩)
  rintro i _ ⟨rfl, rfl⟩
  by_cases here : idx + 1 = params.numSubcircuits
  · have there := padding.mp here
    rw [ownCount_padding here (by omega), if_pos (Nat.eq_sub_of_add_eq here),
      if_pos (Nat.eq_sub_of_add_eq there)]
    exact paddingConstraints_alike uniform
  · have there : ¬ r + 1 = params.numSubcircuits := fun same => here (padding.mpr same)
    obtain ⟨node, foundHere⟩ := found idx (by omega)
    obtain ⟨node', foundThere⟩ := found r (by omega)
    have inner : idx + 1 < params.numSubcircuits := by omega
    rw [ownCount_node inner, if_neg (show ¬ idx = params.numSubcircuits - 1 by omega),
      if_neg (show ¬ r = params.numSubcircuits - 1 by omega)]
    exact nodeConstraints_alike uniform power height role foundHere foundThere

omit [Inhabited D] in
/-- Subcircuits of one role have the same rows. -/
theorem generateConstraints_alike (uniform : Uniform sha) {k : Nat}
    (power : params.numLeaves = 2 ^ k) (height : k < 32)
    (portals : 1 ≤ params.numPortalsPerSubcircuit)
    (found : ∀ idx, idx + 1 < params.numSubcircuits →
      ∃ node, subcircuitIdxToNodeIdx overflowChecks idx params.numLeaves = .ok node)
    (inside : idx < params.numSubcircuits) (role : SameRole params idx r) :
    Alike .rom (callCount params idx) (generateConstraints overflowChecks sha c idx)
      (generateConstraints overflowChecks sha c' r) fun _ _ => True :=
  (treeConstraints_alike uniform power height found inside role).bind fun _ _ _ =>
    (setPlaceholder_alike role.first).bind fun _ _ _ => getPlaceholders_alike portals

variable {gadget : TreeConfigGadget F D} {traces traces' : List (List (TranscriptEntry F .rom))}

omit [Field F] [PrimeField F] [DecidableEq F] [Inhabited D] [DecidableEq D] in
theorem length_of_recorded {m : Nat} {count : Nat → Nat}
    (lengths : traces.map List.length = (List.range m).map count) {i : Nat}
    {subtrace : List (TranscriptEntry F .rom)} (here : traces[i]? = some subtrace) :
    subtrace.length = count i := by
  have found := congrArg (·[i]?) lengths
  simp only [List.getElem?_map, here, Option.map_some] at found
  obtain ⟨j, inRange, same⟩ := Option.map_eq_some_iff.mp found.symm
  obtain ⟨_, rfl⟩ := List.getElem?_eq_some_iff.mp inRange
  rw [← same, List.getElem_range]

/-- The representative of a subcircuit has a key of its own, and its prover the rows of the
subcircuit's, for any trees of these parameters. -/
theorem representative_sharesKey (lawful : gadget.Lawful) (uniform : Uniform sha) {k : Nat}
    (power : params.numLeaves = 2 ^ k) (many : 2 ≤ params.numLeaves)
    (portals : 1 ≤ params.numPortalsPerSubcircuit) (inside : idx < params.numSubcircuits) :
    ∃ r unique, params.representativeSubcircuit overflowChecks idx = .ok r ∧
      params.getUniqueSubcircuits overflowChecks = .ok unique ∧ r ∈ unique ∧
      ∀ (c c₀ c' c₀' : MerkleTreeCircuit params) (traces traces' : List (List (TranscriptEntry F .rom)))
        (p p' : SubcircuitWithPortalsProver F D .rom),
        getPortalSubtraces overflowChecks sha c₀ = .ok traces →
        getPortalSubtraces overflowChecks sha c₀' = .ok traces' →
        Assigned (circuit overflowChecks sha c) traces idx p →
        Assigned (circuit overflowChecks sha c') traces' r p' → SameStages gadget p p' := by
  obtain ⟨r, representative, role, member⟩ :=
    representative_role many inside
  refine ⟨r, _, representative, unique_eq many, member, ?_⟩
  intro c c₀ c' c₀' traces traces' p p' recorded recorded' assigned assigned'
  obtain ⟨lengths, found⟩ := recorded_lengths (by omega) portals recorded
  obtain ⟨lengths', _⟩ := recorded_lengths (by omega) portals recorded'
  have whole := MerkleTreeCircuitParams.numSubcircuits_eq power
  have height : k < 32 := by
    have double : params.numSubcircuits = 2 * params.numLeaves := rfl
    obtain ⟨node, root⟩ := found (params.numSubcircuits - 2) (by omega)
    rw [whole, power] at root
    exact (height_of_root root).1
  have length := length_of_recorded lengths assigned.time
  have length' := length_of_recorded lengths' assigned'.time
  rw [← role.callCount_eq inside] at length'
  have same := comparable assigned assigned' rfl length length'
    (generateConstraints_alike uniform power height portals found inside role)
  apply same_of_alike lawful assigned assigned' same role.first
  have padding := role.padding
  have below := role.inside
  change idx = params.numSubcircuits - 1 ↔ r = params.numSubcircuits - 1
  omega

theorem recorded_found (fit : Fitting overflowChecks sha params k) :
    ∃ traces, getPortalSubtraces overflowChecks sha c = .ok traces ∧
      ∀ i < params.numSubcircuits, ∃ subtrace, traces[i]? = some subtrace := by
  obtain ⟨pm, ran, _, count⟩ := below_ok (c := c) fit (Nat.le_refl _)
  have some : 1 ≤ params.numLeaves := by
    rw [fit.power]
    exact Nat.two_pow_pos k
  refine ⟨pm.subtraces, (getPortalSubtraces_eq_ok some).mpr ⟨pm, ran, rfl⟩, fun i inside => ?_⟩
  exact ⟨_, List.getElem?_eq_getElem (count ▸ inside)⟩

end Rows

/-- Four empty leaves. -/
def fourLeaves : MerkleTreeCircuit ⟨4, 1, 1⟩ :=
  ⟨List.Vector.replicate 4 emptyLeaf, List.Vector.replicate innerHashSize 0⟩

abbrev fourLeavesCircuit : CircuitWithPortals Bls12381Fr (FreeDigest Bls12381Fr) .rom :=
  circuit true (standard _ _) fourLeaves

/-- The two parents below the root share a key. -/
theorem parentsOfFour_shareKey : ∃ traces first second,
    fourLeavesCircuit.getPortalSubtraces = .ok traces ∧ traces[4]? = some first ∧
    traces[5]? = some second ∧ fourLeavesCircuit.representativeSubcircuit 4 = .ok 5 ∧
    SameStages (freeGadget Bls12381Fr) (proverOf fourLeavesCircuit 4 first)
      (proverOf fourLeavesCircuit 5 second) := by
  have fit : Fitting true (standard Bls12381Fr (FreeDigest Bls12381Fr)) ⟨4, 1, 1⟩ 2 :=
    ⟨digest_length, by decide, by decide, rfl, by decide, by decide⟩
  obtain ⟨traces, recorded, found⟩ := recorded_found (c := fourLeaves) fit
  obtain ⟨first, here⟩ := found 4 (by decide)
  obtain ⟨second, there⟩ := found 5 (by decide)
  have power : (⟨4, 1, 1⟩ : MerkleTreeCircuitParams).numLeaves = 2 ^ 2 := rfl
  have inside : 4 < (⟨4, 1, 1⟩ : MerkleTreeCircuitParams).numSubcircuits := by decide
  obtain ⟨r, unique, representative, _, _, share⟩ := representative_sharesKey
    (pathGadget_lawful _ _) (standard_uniform (F := Bls12381Fr) (D := FreeDigest Bls12381Fr))
    power (by decide) (by decide) inside
  cases representative
  exact ⟨traces, first, second, recorded, here, there, rfl, share fourLeaves fourLeaves fourLeaves
    fourLeaves traces traces _ _ recorded recorded (proverOf_assigned here)
    (proverOf_assigned there)⟩

end TreeHashKeys
