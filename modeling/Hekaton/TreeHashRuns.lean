import Hekaton.TreeHashTraces

/-!
# Honest runs of the Merkle tree circuit

After the subcircuits below an index, the portal wires of their nodes hold the nodes' hashes
and no other node's wire is set. From there the next subcircuit goes through, on values and
on wires alike; its constraints hold, except for the root's, which hold exactly when the
root's hash is the circuit's root hash.
-/

namespace TreeHashRuns

open Outcomes Wires Synthesis Contracts Transcript PortalManager PrimeFields Codecs
open VkdHash FieldGadgets HonestRuns MirroredRuns TreeIndexing TreeHashCircuit TreeHashTraces

section Digests
variable {F D : Type} (sha : Sha256 F D) {params : MerkleTreeCircuitParams}

/-- The last digest of a node: of its leaf, or of the first bytes of its children's digests. -/
def nodeDigest (c : MerkleTreeCircuit params) : Nat → Nat → List UInt8
  | 0, upper => iteratedSha256 sha params (leafAt c upper).toList
  | level + 1, upper => iteratedSha256 sha params
      ((nodeDigest c level (2 * upper)).take innerHashSize ++
        (nodeDigest c level (2 * upper + 1)).take innerHashSize)

/-- What the portal wire of a node holds. -/
def nodeValue [Field F] (c : MerkleTreeCircuit params) (level upper : Nat) : F :=
  digestElement (nodeDigest sha c level upper)

variable {sha}

theorem iteratedSha256_length (size : ∀ input, (sha.digest input).length = 32)
    (iterations : 1 ≤ params.numShaItersPerSubcircuit) (input : List UInt8) :
    (iteratedSha256 sha params input).length = 32 := by
  obtain ⟨n, count⟩ := Nat.exists_eq_succ_of_ne_zero (Nat.ne_of_gt iterations)
  rw [iteratedSha256, count, Function.iterate_succ_apply']
  exact size _

theorem wholeDigest_eq (size : ∀ input, (sha.digest input).length = 32)
    (iterations : 1 ≤ params.numShaItersPerSubcircuit) (input : List UInt8) :
    wholeDigest sha params input = .ok (iteratedSha256 sha params input) :=
  if_pos (iteratedSha256_length size iterations input)

theorem nodeDigest_length (size : ∀ input, (sha.digest input).length = 32)
    (iterations : 1 ≤ params.numShaItersPerSubcircuit) (c : MerkleTreeCircuit params)
    (level upper : Nat) : (nodeDigest sha c level upper).length = 32 := by
  cases level with
  | zero => exact iteratedSha256_length size iterations _
  | succ level => exact iteratedSha256_length size iterations _

/-- The first bytes of a digest are read back from its element. -/
theorem truncated_digestElement [Field F] [PrimeField F] {digest : List UInt8}
    (size : digest.length = 32) :
    (truncated (digestElement digest : F)).toList = digest.take innerHashSize := by
  have inner : (digest.take innerHashSize).length = innerHashSize := by
    rw [List.length_take, size]
    rfl
  have same := truncated_innerHashToField (F := F) ⟨digest.take innerHashSize, inner⟩
  exact congrArg List.Vector.toList same

theorem siblingBytes_eq [Field F] [PrimeField F] (size : ∀ input, (sha.digest input).length = 32)
    (iterations : 1 ≤ params.numShaItersPerSubcircuit) (c : MerkleTreeCircuit params)
    (level upper : Nat) : iteratedSha256 sha params (siblingBytes
      (nodeValue sha c level (2 * upper) : F) (nodeValue sha c level (2 * upper + 1))) =
      nodeDigest sha c (level + 1) upper := by
  rw [siblingBytes, nodeValue, nodeValue,
    truncated_digestElement (nodeDigest_length size iterations c level _),
    truncated_digestElement (nodeDigest_length size iterations c level _), nodeDigest]

end Digests

theorem nodeName_injective : Function.Injective nodeName := by
  intro m n same
  rw [nodeName, nodeName, String.append_left_inj, String.append_right_inj] at same
  exact decimal_injective same

theorem nodeName_ne_placeholder (n : Nat) : nodeName n ≠ placeholder := by
  intro same
  have first := congrArg (fun s : String => s.toList.head?) same
  simp [nodeName, placeholder] at first

section Progress
variable {F D : Type} [Field F] [PrimeField F]
variable {overflowChecks : Bool} {sha : Sha256 F D} {params : MerkleTreeCircuitParams}
variable {c : MerkleTreeCircuit params} {k idx : Nat} {pm pm' : SetupRomPortalManager F}

/-- A tree of height `k` whose nodes are all numbered, with work at each of them. -/
structure Fitting (overflowChecks : Bool) (sha : Sha256 F D) (params : MerkleTreeCircuitParams)
    (k : Nat) : Prop where
  size : ∀ input, (sha.digest input).length = 32
  iterations : 1 ≤ params.numShaItersPerSubcircuit
  portals : 1 ≤ params.numPortalsPerSubcircuit
  power : params.numLeaves = 2 ^ k
  height : k < 32
  fits : overflowChecks = true → k < 31

/-- The wires of the nodes below this index, and of no other node, are set to their hashes. -/
structure Progress (sha : Sha256 F D) (c : MerkleTreeCircuit params) (k idx : Nat)
    (pm : SetupRomPortalManager F) : Prop where
  nodes : ∀ i l upper, AtPlace k i l upper →
    valueOf pm (nodeName (nodeAt l upper)) = if i < idx then some (nodeValue sha c l upper) else none
  zero : valueOf pm placeholder = if idx = 0 then none else some 0

omit [PrimeField F] in
theorem progress_new : Progress sha c k 0 (SetupRomPortalManager.new : SetupRomPortalManager F) :=
  ⟨fun _ _ _ _ => rfl, rfl⟩

omit [PrimeField F] in
theorem Progress.congr (progress : Progress sha c k idx pm) (same : pm'.varMap = pm.varMap) :
    Progress sha c k idx pm' := by
  have values (name : String) : valueOf pm' name = valueOf pm name := by rw [valueOf, same, valueOf]
  refine ⟨fun i l upper place => ?_, ?_⟩
  · rw [values]
    exact progress.nodes i l upper place
  · rw [values]
    exact progress.zero

omit [Field F] [PrimeField F] in
theorem startSubtrace_ne_nil (pm : SetupRomPortalManager F) : pm.startSubtrace.subtraces ≠ [] :=
  List.append_ne_nil_of_right_ne_nil _ (List.cons_ne_nil _ _)

omit [PrimeField F] in
theorem Progress.start (progress : Progress sha c k idx pm) :
    Progress sha c k idx pm.startSubtrace := progress.congr rfl

/-- The wire of a node is set, and no other. -/
structure NodeSet (sha : Sha256 F D) (c : MerkleTreeCircuit params) (l upper : Nat)
    (pm pm' : SetupRomPortalManager F) : Prop where
  started : pm'.subtraces ≠ []
  values : ∀ name, valueOf pm' name =
    if name = nodeName (nodeAt l upper) then some (nodeValue sha c l upper) else valueOf pm name

variable {l upper : Nat}

omit [PrimeField F] in
theorem setNode_ok (started : pm.subtraces ≠ []) (progress : Progress sha c k idx pm)
    (place : AtPlace k idx l upper) : ∃ pm', SetupManager.setValue pm (nodeName (nodeAt l upper))
      (nodeValue sha c l upper : F) = .ok pm' ∧ NodeSet sha c l upper pm pm' := by
  have free := progress.nodes idx l upper place
  rw [if_neg (Nat.lt_irrefl idx)] at free
  obtain ⟨pm', set, grown⟩ := setValue_ok started free (nodeValue sha c l upper)
  exact ⟨pm', set, grown, valueOf_set set⟩

omit [PrimeField F] in
theorem leafEffect_ok (fit : Fitting overflowChecks sha params k) (started : pm.subtraces ≠ [])
    (progress : Progress sha c k idx pm) (place : AtPlace k idx 0 idx) :
    ∃ pm', leafEffect overflowChecks sha params pm idx (leafAt c idx) = .ok pm' ∧
      NodeSet sha c 0 idx pm pm' := by
  obtain ⟨pm', set, after⟩ := setNode_ok started progress place
  refine ⟨pm', ?_, after⟩
  rw [leafEffect, wholeDigest_eq fit.size fit.iterations, ok_bind, fit.power,
    subcircuitIdxToNodeIdx_eq fit.height fit.fits place, ok_bind]
  exact set

omit [PrimeField F] in
/-- The wires of the children, where a parent is to be set. -/
theorem Progress.children (progress : Progress sha c k idx pm) (place : AtPlace k idx (l + 1) upper) :
    valueOf pm (nodeName (nodeAt l (2 * upper))) = some (nodeValue sha c l (2 * upper)) ∧
    valueOf pm (nodeName (nodeAt l (2 * upper + 1))) = some (nodeValue sha c l (2 * upper + 1)) := by
  obtain ⟨i, below, left⟩ := place.children (Or.inl rfl)
  obtain ⟨j, below', right⟩ := place.children (Or.inr rfl)
  rw [progress.nodes i l _ left, progress.nodes j l _ right, if_pos below, if_pos below']
  exact ⟨rfl, rfl⟩

theorem parentEffect_ok (fit : Fitting overflowChecks sha params k) (started : pm.subtraces ≠ [])
    (progress : Progress sha c k idx pm) (place : AtPlace k idx (l + 1) upper) :
    ∃ pm', parentEffect overflowChecks sha params pm idx = .ok pm' ∧
      NodeSet sha c (l + 1) upper pm pm' := by
  have low : l + 1 < 32 := Nat.lt_of_le_of_lt place.low fit.height
  obtain ⟨left, right⟩ := progress.children place
  obtain ⟨pm₁, leftGot, started₁⟩ := getValue_ok started left
  have same₁ := (getValue_eq_ok leftGot).2
  rw [← (by rw [valueOf, same₁, valueOf] : valueOf pm₁ _ = valueOf pm _)] at right
  obtain ⟨pm₂, rightGot, started₂⟩ := getValue_ok started₁ right
  have same₂ := (getValue_eq_ok rightGot).2.trans same₁
  obtain ⟨pm', set, after⟩ := setNode_ok started₂ (progress.congr same₂) place
  refine ⟨pm', ?_, after.started, fun name => ?_⟩
  · rw [parentEffect, fit.power, subcircuitIdxToNodeIdx_eq fit.height fit.fits place, ok_bind,
      leftChild_nodeAt low, ok_bind, rightChild_nodeAt low, ok_bind, leftGot, ok_bind, rightGot,
      ok_bind, wholeDigest_eq fit.size fit.iterations, ok_bind, siblingBytes_eq fit.size fit.iterations]
    exact set
  · rw [after.values name, valueOf, same₂, valueOf]

/-- A parent reads its children and sets its own hash. -/
theorem of_parentEffect (fit : Fitting overflowChecks sha params k)
    (progress : Progress sha c k idx pm) (place : AtPlace k idx (l + 1) upper)
    (ran : parentEffect overflowChecks sha params pm idx = .ok pm') : ∃ pm₁ pm₂,
      SetupManager.getValue pm (nodeName (nodeAt l (2 * upper))) =
        .ok (nodeValue sha c l (2 * upper), pm₁) ∧
      SetupManager.getValue pm₁ (nodeName (nodeAt l (2 * upper + 1))) =
        .ok (nodeValue sha c l (2 * upper + 1), pm₂) ∧
      SetupManager.setValue pm₂ (nodeName (nodeAt (l + 1) upper))
        (nodeValue sha c (l + 1) upper : F) = .ok pm' := by
  have low : l + 1 < 32 := Nat.lt_of_le_of_lt place.low fit.height
  obtain ⟨left, right⟩ := progress.children place
  rw [parentEffect, fit.power, subcircuitIdxToNodeIdx_eq fit.height fit.fits place, ok_bind,
    leftChild_nodeAt low, ok_bind, rightChild_nodeAt low, ok_bind] at ran
  obtain ⟨⟨leftValue, pm₁⟩, leftGot, ran⟩ := bind_eq_ok.mp ran
  obtain ⟨⟨rightValue, pm₂⟩, rightGot, ran⟩ := bind_eq_ok.mp ran
  obtain ⟨known, same⟩ := getValue_eq_ok leftGot
  obtain ⟨known', _⟩ := getValue_eq_ok rightGot
  rw [left] at known
  rw [valueOf, same] at known'
  cases known
  cases right.symm.trans known'
  rw [wholeDigest_eq fit.size fit.iterations, ok_bind,
    siblingBytes_eq fit.size fit.iterations] at ran
  exact ⟨pm₁, pm₂, leftGot, rightGot, ran⟩

/-- A subcircuit of a node sets its wire. -/
theorem treeEffect_node (fit : Fitting overflowChecks sha params k) (started : pm.subtraces ≠ [])
    (progress : Progress sha c k idx pm) (inner : idx + 1 < params.numSubcircuits) :
    ∃ l upper pm', AtPlace k idx l upper ∧ treeEffect overflowChecks sha c pm idx = .ok pm' ∧
      NodeSet sha c l upper pm pm' := by
  have whole := MerkleTreeCircuitParams.numSubcircuits_eq fit.power
  obtain ⟨l, upper, place⟩ := exists_place fit.height (whole ▸ inner)
  obtain ⟨leaf, _⟩ := place.level_cases
  rw [← fit.power] at leaf
  rw [treeEffect]
  cases l with
  | zero =>
    obtain rfl : upper = idx := by
      have index := place.index
      rw [Nat.sub_zero] at index
      omega
    obtain ⟨pm', ran, after⟩ := leafEffect_ok fit started progress place
    rw [if_pos (leaf.mp rfl)]
    exact ⟨0, upper, pm', place, ran, after⟩
  | succ l =>
    obtain ⟨pm', ran, after⟩ := parentEffect_ok fit started progress place
    rw [if_neg fun early => absurd (leaf.mpr early) (Nat.succ_ne_zero l), if_pos inner]
    exact ⟨l + 1, upper, pm', place, ran, after⟩

omit [PrimeField F] in
/-- Then the wires below the next index are set. -/
theorem NodeSet.nodes (set : NodeSet sha c l upper pm pm') (place : AtPlace k idx l upper)
    (height : k < 32) (progress : Progress sha c k idx pm) (i l' upper' : Nat)
    (place' : AtPlace k i l' upper') : valueOf pm' (nodeName (nodeAt l' upper')) =
      if i < idx + 1 then some (nodeValue sha c l' upper') else none := by
  rw [set.values, progress.nodes i l' upper' place']
  by_cases same : nodeName (nodeAt l' upper') = nodeName (nodeAt l upper)
  · obtain ⟨rfl, rfl⟩ := nodeAt_injective (Nat.lt_of_le_of_lt place'.low height)
      (Nat.lt_of_le_of_lt place.low height) (nodeName_injective same)
    have index := place.index
    have index' := place'.index
    rw [if_pos rfl, if_pos (show i < idx + 1 by omega)]
  · have other : i ≠ idx := by
      rintro rfl
      obtain ⟨rfl, rfl⟩ := place.unique place'
      exact same rfl
    rw [if_neg same]
    simp only [show i < idx + 1 ↔ i < idx by omega]

/-- The next subcircuit's own calls go through. -/
theorem treeEffect_ok (fit : Fitting overflowChecks sha params k) (started : pm.subtraces ≠ [])
    (progress : Progress sha c k idx pm) (inside : idx < params.numSubcircuits) :
    ∃ pm', treeEffect overflowChecks sha c pm idx = .ok pm' ∧ pm'.subtraces ≠ [] ∧
      (∀ i l upper, AtPlace k i l upper → valueOf pm' (nodeName (nodeAt l upper)) =
        if i < idx + 1 then some (nodeValue sha c l upper) else none) ∧
      valueOf pm' placeholder = valueOf pm placeholder := by
  by_cases inner : idx + 1 < params.numSubcircuits
  · obtain ⟨l, upper, pm', place, ran, set⟩ := treeEffect_node fit started progress inner
    refine ⟨pm', ran, set.started, set.nodes place fit.height progress, ?_⟩
    rw [set.values, if_neg (nodeName_ne_placeholder _).symm]
  · have whole := MerkleTreeCircuitParams.numSubcircuits_eq fit.power
    have double : params.numSubcircuits = 2 * params.numLeaves := rfl
    have positive := Nat.two_pow_pos k
    rw [treeEffect, if_neg (show ¬ idx < params.numLeaves by omega), if_neg inner]
    refine ⟨pm, rfl, started, fun i l upper place => ?_, rfl⟩
    have before : i < idx := by
      have index := place.index
      have below := place.inside
      have upperLevel := two_pow_sub_succ place.low
      omega
    rw [progress.nodes i l upper place, if_pos before, if_pos (Nat.lt_succ_of_lt before)]

omit [PrimeField F] in
theorem placeholderEffect_ok (started : pm.subtraces ≠ [])
    (zero : valueOf pm placeholder = if idx = 0 then none else some 0) :
    ∃ pm', placeholderEffect pm idx = .ok pm' ∧ pm'.subtraces ≠ [] ∧
      valueOf pm' placeholder = some 0 ∧
      ∀ name, name ≠ placeholder → valueOf pm' name = valueOf pm name := by
  rw [placeholderEffect]
  by_cases first : idx = 0
  · rw [if_pos first] at zero ⊢
    obtain ⟨pm', set, grown⟩ := setValue_ok started zero 0
    refine ⟨pm', set, grown, ?_, fun name other => ?_⟩
    · rw [valueOf_set set, if_pos rfl]
    · rw [valueOf_set set, if_neg other]
  · rw [if_neg first] at zero ⊢
    exact ⟨pm, rfl, started, zero, fun _ _ => rfl⟩

omit [PrimeField F] in
theorem dummyEffect_ok (portals : 1 ≤ params.numPortalsPerSubcircuit) (started : pm.subtraces ≠ [])
    (zero : valueOf pm placeholder = some 0) :
    ∃ pm', dummyEffect overflowChecks params pm = .ok pm' ∧ pm'.varMap = pm.varMap := by
  rw [dummyEffect, subBits_eq portals, ok_bind]
  generalize List.range _ = l
  induction l generalizing pm with
  | nil => exact ⟨pm, rfl, rfl⟩
  | cons i l ih =>
    obtain ⟨pm₁, got, grown⟩ := getValue_ok started zero
    have same := (getValue_eq_ok got).2
    obtain ⟨pm₂, rest, same'⟩ := ih grown (by rw [valueOf, same]; exact zero)
    refine ⟨pm₂, ?_, same'.trans same⟩
    rw [List.foldlM_cons, got, ok_bind, ok_bind]
    exact rest

/-- The next subcircuit goes through. -/
theorem subcircuitEffect_ok (fit : Fitting overflowChecks sha params k) (started : pm.subtraces ≠ [])
    (progress : Progress sha c k idx pm) (inside : idx < params.numSubcircuits) :
    ∃ pm', subcircuitEffect overflowChecks sha c pm idx = .ok pm' ∧
      Progress sha c k (idx + 1) pm' := by
  obtain ⟨pm₁, own, started₁, nodes₁, zero₁⟩ := treeEffect_ok fit started
    progress inside
  obtain ⟨pm₂, placed, started₂, zero₂, others⟩ :=
    placeholderEffect_ok started₁ (zero₁.trans progress.zero)
  obtain ⟨pm₃, dummies, same⟩ :=
    dummyEffect_ok fit.portals started₂ zero₂
  refine ⟨pm₃, ?_, ?_⟩
  · rw [subcircuitEffect, own, ok_bind, placed, ok_bind]
    exact dummies
  · refine Progress.congr ⟨fun i l upper place => ?_, zero₂⟩ same
    rw [others _ (nodeName_ne_placeholder _)]
    exact nodes₁ i l upper place

/-- The subcircuits below an index go through, each with a subtrace of its own. -/
theorem below_ok (fit : Fitting overflowChecks sha params k) {m : Nat}
    (most : m ≤ params.numSubcircuits) : ∃ pm,
      recordEffects (F := F) (fun idx pm => subcircuitEffect overflowChecks sha c pm idx)
        (List.range m) SetupRomPortalManager.new = .ok pm ∧
      Progress sha c k m pm ∧ pm.subtraces.length = m := by
  induction m with
  | zero => exact ⟨_, rfl, progress_new, rfl⟩
  | succ m ih =>
    obtain ⟨pm, before, progress, count⟩ := ih (Nat.le_of_succ_le most)
    obtain ⟨pm', ran, progress'⟩ := subcircuitEffect_ok fit (startSubtrace_ne_nil pm)
      progress.start most
    obtain ⟨⟨made, _, added⟩, _⟩ := subcircuitEffect_adds fit.portals ran
    refine ⟨pm', ?_, progress', ?_⟩
    · rw [recordEffects] at before ⊢
      rw [List.range_succ, List.foldlM_append, before, ok_bind, List.foldlM_cons]
      exact bind_eq_ok.mpr ⟨pm', ran, rfl⟩
    · rw [added, List.length_append, count]
      rfl

end Progress
end TreeHashRuns
