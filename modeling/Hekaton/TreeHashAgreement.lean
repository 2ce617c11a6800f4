import Hekaton.Sha256Digests
import Hekaton.TreeHashRuns

/-!
# The constraints of the Merkle tree circuit follow its values

Over a gadget that computes SHA-256, the constraints of a subcircuit make the portal calls of
the native trace. They hold under the values they were given, except that the root's compare
its hash with the root hash of the circuit.
-/

namespace TreeHashAgreement

open Outcomes Wires Synthesis Contracts Transcript PortalManager PrimeFields Codecs
open VkdHash FieldGadgets HonestRuns MirroredRuns TreeIndexing TreeHashCircuit TreeHashTraces
open TreeHashRuns Sha256Digests

variable {F D : Type} [Field F] [PrimeField F] [DecidableEq F] [Inhabited D] [DecidableEq D]

omit [PrimeField F] in
/-- Digests have 32 bytes, and the gadget computes those of the values of its variables. -/
structure Lawful (sha : Sha256 F D) : Prop where
  size : ∀ input, (sha.digest input).length = 32
  decides : ∀ (vars : List (Variable F D)) (vs : List (UInt8Var F D)) (bytes : List UInt8),
    BytesValued vars vs bytes →
      Decides vars (sha.gadget vs) True fun now out => BytesValued now out (sha.digest bytes)

omit [PrimeField F] in
theorem standard_lawful : Lawful (standard F D) := ⟨digest_length, gadget_decides⟩

variable {overflowChecks : Bool} {sha : Sha256 F D} {params : MerkleTreeCircuitParams}
variable {c c' : MerkleTreeCircuit params} {k idx l upper : Nat} {pm pm' : SetupRomPortalManager F}
variable {vars : List (Variable F D)}

omit [PrimeField F] in
theorem iteratedSha256Var_decides (lawful : Lawful sha) {vs : List (UInt8Var F D)}
    {input : List UInt8} (bytes : BytesValued vars vs input) :
    Decides vars (iteratedSha256Var sha params vs) True
      fun now w => Valued now w (digestElement (iteratedSha256 sha params input)) := by
  have rounds (n : Nat) {vars : List (Variable F D)} {vs : List (UInt8Var F D)}
      {input : List UInt8} (bytes : BytesValued vars vs input) :
      Decides vars (iterateGadget sha n vs) True
        fun now out => BytesValued now out (sha.digest^[n] input) := by
    induction n generalizing vars vs input with
    | zero => exact .pure bytes
    | succ n ih =>
      rw [iterateGadget, Function.iterate_succ_apply]
      apply (lawful.decides vars vs input bytes).bind_true
      exact fun more out later => ih later
  apply (rounds _ bytes).bind_true
  exact fun more out last => .pure (digestToFpvar_element last)

omit [Field F] [PrimeField F] [DecidableEq F] [Inhabited D] [DecidableEq D] in
theorem leaves_getElem? (inside : idx < params.numLeaves) :
    c.leaves.toList[idx]? = some (leafAt c idx) := by
  rw [← c.leaves.toList_length] at inside
  rw [leafAt, List.getD_eq_getElem?_getD, List.getElem?_eq_getElem inside, Option.getD_some]

omit [PrimeField F] in
theorem paddingConstraints_decides (lawful : Lawful sha) :
    Decides vars ((paddingConstraints sha params).run pm) True fun _ r => r.2 = pm := by
  apply decides_lift (newWitnessVec_decides emptyLeaf.toList)
  intro more vs bytes
  apply decides_lift (iteratedSha256Var_decides lawful bytes)
  exact fun more' w _ => .pure rfl

omit [PrimeField F] in
theorem leafConstraints_decides (lawful : Lawful sha) (inside : idx < params.numLeaves)
    (same : leafAt c' idx = leafAt c idx)
    (set : SetupManager.setValue pm (nodeName (nodeAt 0 idx)) (nodeValue sha c 0 idx : F) = .ok pm') :
    Decides vars ((leafConstraints sha c' (nodeAt 0 idx)).run pm) True fun _ r => r.2 = pm' := by
  have half : nodeAt 0 idx / 2 = idx := by
    rw [nodeAt_zero]
    omega
  rw [leafConstraints, half, leaves_getElem? inside, same]
  apply decides_call rfl
  apply decides_lift (newWitnessVec_decides (leafAt c idx).toList)
  intro more vs bytes
  apply decides_lift (iteratedSha256Var_decides lawful bytes)
  exact fun more' w hw => decides_set_last hw set

/-- The root's hash is the circuit's root hash, as elements. -/
def RootMatches (sha : Sha256 F D) (c : MerkleTreeCircuit params) (k : Nat) (rootHash : InnerHash) :
    Prop := (nodeValue sha c k 0 : F) = innerHashToField rootHash

omit [PrimeField F] in
theorem rootConstraints_decides {isRoot : Prop} [Decidable isRoot] {w : Wire F D .field} {value : F}
    (hw : Valued vars w value) : Decides vars ((rootConstraints c' isRoot w).run pm)
      (isRoot → value = innerHashToField c'.rootHash) fun _ r => r.2 = pm := by
  rw [rootConstraints]
  by_cases root : isRoot
  · rw [if_pos root]
    apply decides_lift (Decides.newVariable .witness .field (innerHashToField c'.rootHash : F))
    intro more expected valued
    have checked := (Decides.enforceEqual (hw.mono more) valued).bind (R := fun _ r => r.2 = pm)
      fun more' a _ => .pure (a := (a, pm)) rfl
    apply checked.congr
    rw [and_true]
    exact ⟨fun same _ => same, fun same => same root⟩
  · rw [if_neg root]
    have nothing : Decides vars ((pure () : Program F D Unit).run pm) True
        fun _ r => r.2 = pm := .pure rfl
    exact nothing.congr (iff_of_true trivial fun root' => absurd root' root)

theorem parentConstraints_decides (lawful : Lawful sha) (fit : Fitting overflowChecks sha params k)
    (progress : Progress sha c k idx pm) (place : AtPlace k idx (l + 1) upper)
    (ran : parentEffect overflowChecks sha params pm idx = .ok pm') {isRoot : Prop}
    [Decidable isRoot] : Decides vars
      ((parentConstraints sha c' isRoot (nodeAt (l + 1) upper)).run pm)
      (isRoot → (nodeValue sha c (l + 1) upper : F) = innerHashToField c'.rootHash)
      fun _ r => r.2 = pm' := by
  have low : l + 1 < 32 := Nat.lt_of_le_of_lt place.low fit.height
  obtain ⟨pm₁, pm₂, leftGot, rightGot, set⟩ := of_parentEffect fit progress place ran
  rw [parentConstraints]
  apply decides_call (leftChild_nodeAt low upper)
  apply decides_call (rightChild_nodeAt low upper)
  apply decides_get leftGot
  intro more leftVar leftValued
  apply decides_get rightGot
  intro more' rightVar rightValued
  obtain ⟨leftVs, leftRun, leftBytes⟩ := fpvarToDigest_bytes (leftValued.mono more')
  obtain ⟨rightVs, rightRun, rightBytes⟩ := fpvarToDigest_bytes rightValued
  apply decides_lift (Decides.computes leftRun)
  rintro more₁ _ ⟨rfl, same₁⟩
  rw [same₁]
  apply decides_lift (Decides.computes rightRun)
  rintro more₂ _ ⟨rfl, same₂⟩
  rw [same₂]
  apply decides_lift (iteratedSha256Var_decides lawful (BytesValued.append leftBytes rightBytes))
  intro more₃ w hw
  have whole := siblingBytes_eq (F := F) fit.size fit.iterations c l upper
  rw [siblingBytes] at whole
  rw [whole] at hw
  apply decides_set hw set
  intro more₄
  exact rootConstraints_decides (hw.mono more₄)

/-- A node's constraints make its calls; the root's also compare its hash. -/
theorem nodeConstraints_decides (lawful : Lawful sha) (fit : Fitting overflowChecks sha params k)
    (progress : Progress sha c k idx pm) (inner : idx + 1 < params.numSubcircuits)
    (same : idx < params.numLeaves → leafAt c' idx = leafAt c idx)
    (ran : treeEffect overflowChecks sha c pm idx = .ok pm') :
    Decides vars ((nodeConstraints overflowChecks sha c' idx).run pm)
      (0 < k → idx + 2 = params.numSubcircuits → RootMatches sha c k c'.rootHash)
      fun _ r => r.2 = pm' := by
  have whole := MerkleTreeCircuitParams.numSubcircuits_eq fit.power
  obtain ⟨l, upper, place⟩ := exists_place fit.height (whole ▸ inner)
  obtain ⟨leaf, root⟩ := place.level_cases
  have found := subcircuitIdxToNodeIdx_eq fit.height fit.fits place
  have top : rootIdx overflowChecks (2 ^ k) = .ok (nodeAt k 0) := rootIdx_eq fit.height
  rw [← fit.power] at found top leaf
  rw [← whole] at root
  rw [treeEffect] at ran
  apply decides_call found
  apply decides_call top
  rw [level_nodeAt (Nat.lt_of_le_of_lt place.low fit.height)]
  cases l with
  | zero =>
    have early := leaf.mp rfl
    obtain rfl : upper = idx := by
      have index := place.index
      rw [Nat.sub_zero] at index
      omega
    rw [if_pos early, leafEffect, wholeDigest_eq fit.size fit.iterations, ok_bind, found,
      ok_bind] at ran
    rw [if_pos rfl]
    apply (leafConstraints_decides lawful early (same early) ran).congr
    exact iff_of_true trivial fun high last => absurd (root.mpr last) (Nat.ne_of_lt high)
  | succ l =>
    rw [if_neg fun early => absurd (leaf.mpr early) (Nat.succ_ne_zero l), if_pos inner] at ran
    rw [if_neg (Nat.succ_ne_zero l)]
    apply (parentConstraints_decides lawful fit progress place ran).congr
    constructor
    · intro holds _ last
      obtain rfl := root.mpr last
      have inside := place.inside
      rw [Nat.sub_self, Nat.pow_zero, Nat.lt_one_iff] at inside
      subst inside
      exact holds rfl
    · intro holds isRoot
      obtain ⟨rfl, rfl⟩ := nodeAt_injective fit.height
        (Nat.lt_of_le_of_lt place.low fit.height) isRoot
      exact holds (Nat.succ_pos l) (root.mp rfl)

omit [PrimeField F] in
theorem setPlaceholder_decides (ran : placeholderEffect pm idx = .ok pm') :
    Decides vars ((setPlaceholder (F := F) (D := D) idx).run pm) True fun _ r => r.2 = pm' := by
  rw [placeholderEffect] at ran
  rw [setPlaceholder]
  by_cases first : idx = 0
  · rw [if_pos first] at ran ⊢
    apply decides_lift (Decides.newVariable .witness .field (0 : F))
    exact fun more w hw => decides_set_last hw ran
  · rw [if_neg first] at ran ⊢
    cases ran
    exact .pure rfl

omit [PrimeField F] in
theorem getPlaceholders_decides (ran : dummyEffect overflowChecks params pm = .ok pm') :
    Decides vars ((getPlaceholders (F := F) (D := D) overflowChecks params).run pm) True
      fun _ r => r.2 = pm' := by
  have steps := bind_eq_ok.mp ran
  clear ran
  obtain ⟨count, counted, ran⟩ := steps
  apply decides_call counted
  generalize List.range count = l at ran ⊢
  induction l generalizing vars pm with
  | nil =>
    cases ran
    exact .pure rfl
  | cons i l ih =>
    obtain ⟨pm₁, first, rest⟩ := bind_eq_ok.mp ran
    obtain ⟨⟨value, pm₂⟩, got, same⟩ := bind_eq_ok.mp first
    cases same
    exact decides_get got fun more w hw => ih rest

/-- A subcircuit's constraints make its calls, and decide the root's hash. -/
theorem generateConstraints_decides (lawful : Lawful sha)
    (fit : Fitting overflowChecks sha params k) (progress : Progress sha c k idx pm)
    (inside : idx < params.numSubcircuits)
    (same : idx < params.numLeaves → leafAt c' idx = leafAt c idx)
    (ran : subcircuitEffect overflowChecks sha c pm idx = .ok pm') :
    Decides vars ((generateConstraints overflowChecks sha c' idx).run pm)
      (0 < k → idx + 2 = params.numSubcircuits → RootMatches sha c k c'.rootHash)
      fun _ r => r.2 = pm' := by
  obtain ⟨pm₁, own, ran⟩ := bind_eq_ok.mp ran
  obtain ⟨pm₂, placed, dummies⟩ := bind_eq_ok.mp ran
  have last : subBits overflowChecks 64 params.numSubcircuits 1 =
      .ok (params.numSubcircuits - 1) := subBits_eq (by omega)
  have tree : Decides vars ((treeConstraints overflowChecks sha c' idx).run pm)
      (0 < k → idx + 2 = params.numSubcircuits → RootMatches sha c k c'.rootHash)
      fun _ r => r.2 = pm₁ := by
    apply decides_call last
    by_cases padding : idx = params.numSubcircuits - 1
    · have many : 1 ≤ params.numLeaves := by
        rw [fit.power]
        exact Nat.two_pow_pos k
      have double : params.numSubcircuits = 2 * params.numLeaves := rfl
      rw [treeEffect, if_neg (by omega), if_neg (by omega)] at own
      cases own
      rw [if_pos padding]
      apply (paddingConstraints_decides lawful).congr
      exact iff_of_true trivial fun _ root => absurd root (by omega)
    · rw [if_neg padding]
      exact nodeConstraints_decides lawful fit progress (by omega) same own
  have rest : ∀ more (r : Unit × SetupRomPortalManager F), r.2 = pm₁ → Decides (vars ++ more)
      ((setPlaceholder idx >>= fun _ => getPlaceholders overflowChecks params).run r.2) True
      fun _ r => r.2 = pm' := by
    rintro more ⟨_, _⟩ rfl
    rw [run_bind]
    apply (setPlaceholder_decides placed).bind_true
    rintro more' ⟨_, _⟩ rfl
    exact getPlaceholders_decides dummies
  rw [generateConstraints, run_bind]
  apply (tree.bind rest).congr
  rw [and_true]

end TreeHashAgreement
