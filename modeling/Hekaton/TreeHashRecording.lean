import Hekaton.TreeHashRoot

/-!
# The two traces of the Merkle tree circuit agree

The slow way to the trace runs the constraints of every subcircuit on a fresh circuit that
has this subcircuit's witnesses only. It records what the native trace has, and in the root's
subtrace the calculated root, in every tree whose nodes are numbered; in higher trees neither
way goes through.
-/

namespace TreeHashRecording

open Outcomes Wires Synthesis Contracts Transcript PortalManager PrimeFields Codecs
open VkdHash FieldGadgets HonestRuns MirroredRuns TreeIndexing TreeHashCircuit TreeHashTraces
open Sha256Digests TreeHashRuns TreeHashAgreement TreeHashRoot

section Model
variable {F D : Type} [Field F] [PrimeField F] [DecidableEq F] [Inhabited D] [DecidableEq D]
variable (overflowChecks : Bool) (sha : Sha256 F D) {params : MerkleTreeCircuitParams}

/-- A new circuit with the witnesses of one subcircuit. -/
def circCopy (c : MerkleTreeCircuit params) (subcircuitIdx : Nat) :
    Outcome (MerkleTreeCircuit params) := do
  let copy ← new params
  let wits ← getSerializedWitnesses overflowChecks c subcircuitIdx
  setSerializedWitnesses overflowChecks copy subcircuitIdx wits

/-- Run a subcircuit's constraints on its own copy, in a fresh constraint system. -/
def slowSubtrace (c : MerkleTreeCircuit params) (pm : SetupRomPortalManager F)
    (subcircuitIdx : Nat) : Outcome (SetupRomPortalManager F) := do
  let copy ← circCopy overflowChecks c subcircuitIdx
  let r ← (generateConstraints overflowChecks sha copy subcircuitIdx).run pm.startSubtrace []
  .ok r.1.2

def slowGetPortalSubtraces (c : MerkleTreeCircuit params) :
    Outcome (List (List (TranscriptEntry F .rom))) := do
  let pm ← (List.range params.numSubcircuits).foldlM (slowSubtrace overflowChecks sha c)
    SetupRomPortalManager.new
  .ok pm.subtraces

end Model

section Copies
variable {F D : Type} {overflowChecks : Bool} {sha : Sha256 F D} {params : MerkleTreeCircuitParams}
variable {c : MerkleTreeCircuit params} {k idx : Nat}

theorem readArray_toList {n : Nat} (v : List.Vector UInt8 n) : readArray n v.toList = .ok v := by
  have size : n ≤ v.toList.length := le_of_eq v.toList_length.symm
  rw [readArray, firstBytes, dif_pos size]
  exact congrArg _ (Subtype.ext (List.take_of_length_le (le_of_eq v.toList_length)))

theorem leafAt_set {leaf : TestLeaf} {i : Nat} (inside : i < params.numLeaves) (same : i = idx) :
    leafAt { c with leaves := c.leaves.set ⟨i, inside⟩ leaf } idx = leaf := by
  subst same
  have size : i < c.leaves.toList.length := by rwa [c.leaves.toList_length]
  rw [leafAt, List.Vector.toList_set, List.getD_eq_getElem?_getD, List.getElem?_set_self size,
    Option.getD_some]

/-- The copy has the leaf of its subcircuit. -/
theorem circCopy_ok (fit : Fitting overflowChecks sha params k)
    (inside : idx < params.numSubcircuits) : ∃ copy, circCopy overflowChecks c idx = .ok copy ∧
      (idx < params.numLeaves → leafAt copy idx = leafAt c idx) := by
  have whole := MerkleTreeCircuitParams.numSubcircuits_eq fit.power
  have last : subBits overflowChecks 64 params.numSubcircuits 1 =
      .ok (params.numSubcircuits - 1) := subBits_eq (by omega)
  rw [circCopy, new, if_pos (show params.numShaItersPerSubcircuit > 0 from fit.iterations), ok_bind,
    getSerializedWitnesses, last, ok_bind]
  by_cases padding : idx = params.numSubcircuits - 1
  · rw [if_pos padding, ok_bind, setSerializedWitnesses, last, ok_bind, if_pos padding]
    refine ⟨_, rfl, fun early => absurd early ?_⟩
    have double : params.numSubcircuits = 2 * params.numLeaves := rfl
    omega
  have within : idx + 1 < 2 ^ (k + 1) := by omega
  obtain ⟨l, upper, place⟩ := exists_place fit.height within
  obtain ⟨leaf, _⟩ := place.level_cases
  have found := subcircuitIdxToNodeIdx_eq fit.height fit.fits place
  have top : rootIdx overflowChecks (2 ^ k) = .ok (nodeAt k 0) := rootIdx_eq fit.height
  rw [← fit.power] at found top leaf
  rw [if_neg padding, found, ok_bind, top, ok_bind,
    level_nodeAt (Nat.lt_of_le_of_lt place.low fit.height)]
  by_cases early : idx < params.numLeaves
  · obtain rfl := leaf.mpr early
    obtain rfl : upper = idx := by
      have index := place.index
      rw [Nat.sub_zero] at index
      omega
    have half : nodeAt 0 upper / 2 = upper := by
      rw [nodeAt_zero]
      omega
    have there : nodeAt 0 upper / 2 < params.numLeaves := by rwa [half]
    rw [if_pos rfl, leaves_getElem? there, expect_some, ok_bind, ok_bind,
      setSerializedWitnesses, last, ok_bind, if_neg padding, found, ok_bind, top, ok_bind,
      level_nodeAt (by decide), if_pos rfl, readArray_toList, ok_bind, dif_pos there]
    exact ⟨_, rfl, fun _ => (leafAt_set there half).trans (congrArg (leafAt c) half)⟩
  · have high : l ≠ 0 := fun zero => early (leaf.mp zero)
    rw [if_neg high]
    by_cases root : nodeAt k 0 = nodeAt l upper
    · rw [if_pos root, ok_bind, setSerializedWitnesses, last, ok_bind, if_neg padding, found,
        ok_bind, top, ok_bind, level_nodeAt (Nat.lt_of_le_of_lt place.low fit.height), if_neg high,
        if_pos root, readArray_toList, ok_bind]
      exact ⟨_, rfl, fun early' => absurd early' early⟩
    · rw [if_neg root, ok_bind, setSerializedWitnesses, last, ok_bind, if_neg padding, found,
        ok_bind, top, ok_bind, level_nodeAt (Nat.lt_of_le_of_lt place.low fit.height), if_neg high,
        if_neg root]
      exact ⟨_, rfl, fun early' => absurd early' early⟩

end Copies

section Runs
variable {F D : Type} [Field F] [PrimeField F] [DecidableEq F] [Inhabited D] [DecidableEq D]
variable {overflowChecks : Bool} {sha : Sha256 F D} {params : MerkleTreeCircuitParams}
variable {c : MerkleTreeCircuit params} {k idx l upper : Nat} {pm pm' : SetupRomPortalManager F}

/-- On the copy of the next subcircuit, its constraints leave the manager as the native step. -/
theorem slowSubtrace_ok (lawful : Lawful sha) (fit : Fitting overflowChecks sha params k)
    (progress : Progress sha c k idx pm) (inside : idx < params.numSubcircuits)
    (ran : subcircuitEffect overflowChecks sha c pm.startSubtrace idx = .ok pm') :
    slowSubtrace overflowChecks sha c pm idx = .ok pm' := by
  obtain ⟨copy, copied, same⟩ := circCopy_ok (c := c) fit inside
  have follows : Decides [] _ _ _ := generateConstraints_decides lawful fit progress.start
    inside same ran
  obtain ⟨⟨_, _⟩, e, run, _, rfl⟩ := follows.run
  rw [slowSubtrace, copied, ok_bind, run]
  rfl

/-- The slow run follows the native one. -/
theorem slow_follows (lawful : Lawful sha) (fit : Fitting overflowChecks sha params k) {m : Nat}
    (most : m ≤ params.numSubcircuits)
    (ran : recordEffects (F := F) (fun idx pm => subcircuitEffect overflowChecks sha c pm idx)
      (List.range m) SetupRomPortalManager.new = .ok pm) :
    (List.range m).foldlM (slowSubtrace overflowChecks sha c) SetupRomPortalManager.new = .ok pm := by
  induction m generalizing pm with
  | zero => exact ran
  | succ m ih =>
    obtain ⟨pm₀, before, progress, _⟩ := below_ok (c := c) fit (Nat.le_of_succ_le most)
    have slow := ih (Nat.le_of_succ_le most) before
    rw [recordEffects] at ran before
    rw [List.range_succ, List.foldlM_append, before, ok_bind] at ran
    obtain ⟨pm', step, same⟩ := bind_eq_ok.mp ran
    cases same
    have next := slowSubtrace_ok lawful fit progress most step
    rw [List.range_succ, List.foldlM_append, slow, ok_bind, List.foldlM_cons, next]
    rfl

omit [DecidableEq F] [Inhabited D] [DecidableEq D] in
/-- A parent gets two wires and sets its hash. -/
theorem parentEffect_pushes (fit : Fitting overflowChecks sha params k)
    (progress : Progress sha c k idx pm) (place : AtPlace k idx (l + 1) upper)
    (ran : parentEffect overflowChecks sha params pm idx = .ok pm') :
    ∃ left right addr, Pushes [.rom left, .rom right,
      .rom ⟨addr, nodeValue sha c (l + 1) upper⟩] pm pm' := by
  obtain ⟨pm₁, pm₂, leftGot, rightGot, set⟩ := of_parentEffect fit progress place ran
  obtain ⟨leftEntry, first⟩ := Pushes.of_get leftGot
  obtain ⟨rightEntry, second⟩ := Pushes.of_get rightGot
  exact ⟨leftEntry, rightEntry, _, first.trans (second.trans (.of_set set))⟩

omit [DecidableEq F] [Inhabited D] [DecidableEq D] in
/-- The root's subtrace has its hash in its third entry. -/
theorem rootEntry (fit : Fitting overflowChecks sha params k) (high : 0 < k)
    (ran : traceEffect overflowChecks sha c = .ok pm) : ∃ subtrace addr,
      pm.subtraces[params.numSubcircuits - 2]? = some subtrace ∧
      subtrace[2]? = some (.rom ⟨addr, nodeValue sha c k 0⟩) := by
  obtain ⟨l, rfl⟩ := Nat.exists_eq_succ_of_ne_zero (Nat.ne_of_gt high)
  have whole : params.numSubcircuits = 2 ^ (l + 1 + 1) := by
    rw [Nat.pow_succ', ← fit.power]
    rfl
  have four : 4 ≤ params.numSubcircuits := by
    rw [whole]
    exact Nat.pow_le_pow_right (by decide : 2 > 0) (by omega : 2 ≤ l + 1 + 1)
  have double : params.numSubcircuits = 2 * params.numLeaves := rfl
  have split : List.range params.numSubcircuits = List.range (params.numSubcircuits - 2) ++
      [params.numSubcircuits - 2, params.numSubcircuits - 1] := by
    have last := List.range_succ (n := params.numSubcircuits - 1)
    have root := List.range_succ (n := params.numSubcircuits - 2)
    rw [show (params.numSubcircuits - 1).succ = params.numSubcircuits by omega] at last
    rw [show (params.numSubcircuits - 2).succ = params.numSubcircuits - 1 by omega] at root
    rw [last, root, List.append_assoc, List.singleton_append]
  obtain ⟨pm₀, before, progress, count⟩ := below_ok (c := c) fit
    (m := params.numSubcircuits - 2) (by omega)
  rw [traceEffect, recordEffects, split, List.foldlM_append] at ran
  rw [recordEffects] at before
  rw [before, ok_bind] at ran
  obtain ⟨pm₁, root, ran⟩ := bind_eq_ok.mp ran
  obtain ⟨pm₂, padding, same⟩ := bind_eq_ok.mp ran
  cases same
  obtain ⟨pm₃, own, root⟩ := bind_eq_ok.mp root
  obtain ⟨pm₄, placed, dummies⟩ := bind_eq_ok.mp root
  rw [placeholderEffect, if_neg (by omega)] at placed
  cases placed
  rw [treeEffect, if_neg (by omega), if_pos (by omega)] at own
  have place : AtPlace (l + 1) (params.numSubcircuits - 2) (l + 1) 0 := by
    refine ⟨Nat.le_refl _, Nat.two_pow_pos _, ?_⟩
    rw [whole, show l + 1 + 1 - (l + 1) = 1 by omega]
    omega
  obtain ⟨left, right, addr, pushes⟩ := parentEffect_pushes fit progress.start place own
  obtain ⟨more, _, dummies⟩ := dummyEffect_grows fit.portals dummies
  obtain ⟨⟨made, _, added⟩, _⟩ := subcircuitEffect_adds fit.portals padding
  have all := (pushes.trans dummies) pm₀.subtraces [] rfl
  refine ⟨[] ++ ([.rom left, .rom right, .rom ⟨addr, nodeValue sha c (l + 1) 0⟩] ++ more), addr, ?_, rfl⟩
  rw [added, all, ← count, List.append_assoc, List.getElem?_append_right (Nat.le_refl _), Nat.sub_self]
  rfl

/-- A slow run found the nodes of all subcircuits. -/
theorem found_of_slow {l : List Nat} (ran : l.foldlM (slowSubtrace overflowChecks sha c) pm = .ok pm') :
    ∀ i ∈ l, i + 1 < params.numSubcircuits →
      ∃ node, subcircuitIdxToNodeIdx overflowChecks i params.numLeaves = .ok node := by
  induction l generalizing pm with
  | nil => exact fun i member => absurd member List.not_mem_nil
  | cons i l ih =>
    obtain ⟨pm₁, first, rest⟩ := bind_eq_ok.mp ran
    refine List.forall_mem_cons.mpr ⟨fun inner => ?_, ih rest⟩
    obtain ⟨copy, copied, _⟩ := bind_eq_ok.mp first
    obtain ⟨fresh, _, copied⟩ := bind_eq_ok.mp copied
    obtain ⟨wits, serialized, _⟩ := bind_eq_ok.mp copied
    rw [getSerializedWitnesses, subBits_eq (by omega), ok_bind, if_neg (by omega)] at serialized
    obtain ⟨node, found, _⟩ := bind_eq_ok.mp serialized
    exact ⟨node, found⟩

/-- In trees that are too high nothing is recorded natively. -/
theorem never_recorded {traces : List (List (TranscriptEntry F .rom))}
    (power : params.numLeaves = 2 ^ k) (portals : 1 ≤ params.numPortalsPerSubcircuit)
    (high : ¬ (k < 32 ∧ (overflowChecks = true → k < 31))) :
    getPortalSubtraces overflowChecks sha c ≠ .ok traces := by
  intro recorded
  have whole := MerkleTreeCircuitParams.numSubcircuits_eq power
  have two : 2 ≤ 2 ^ (k + 1) := Nat.le_self_pow (Nat.succ_ne_zero k) 2
  have some : 1 ≤ params.numLeaves := by
    rw [power]
    exact Nat.two_pow_pos k
  obtain ⟨_, found⟩ := recorded_lengths some portals recorded
  obtain ⟨node, root⟩ := found (params.numSubcircuits - 2) (by omega)
  rw [whole, power] at root
  exact high (height_of_root root)

/-- Both ways record the same trace, with the calculated root in the root's subtrace, where the
nodes are numbered; in higher trees neither way goes through. -/
theorem traces_agree (lawful : Lawful sha) (iterations : 1 ≤ params.numShaItersPerSubcircuit)
    (portals : 1 ≤ params.numPortalsPerSubcircuit) (power : params.numLeaves = 2 ^ k)
    (several : 2 ≤ params.numLeaves) :
    if k < 32 ∧ (overflowChecks = true → k < 31) then
      ∃ traces root subtrace addr, getPortalSubtraces overflowChecks sha c = .ok traces ∧
        slowGetPortalSubtraces overflowChecks sha c = .ok traces ∧
        calculateRoot sha params c.leaves.toList = .ok root ∧
        traces[params.numSubcircuits - 2]? = some subtrace ∧
        subtrace[2]? = some (.rom ⟨addr, innerHashToField root⟩)
    else ∀ traces, getPortalSubtraces overflowChecks sha c ≠ .ok traces ∧
      slowGetPortalSubtraces overflowChecks sha c ≠ .ok traces := by
  have whole := MerkleTreeCircuitParams.numSubcircuits_eq power
  have double : params.numSubcircuits = 2 * params.numLeaves := rfl
  by_cases numbered : k < 32 ∧ (overflowChecks = true → k < 31)
  · have fit : Fitting overflowChecks sha params k :=
      ⟨lawful.size, iterations, portals, power, numbered.1, numbered.2⟩
    have high : 0 < k := by
      by_contra none
      rw [power, show k = 0 by omega] at several
      exact absurd several (by decide)
    obtain ⟨pm, native, _, _⟩ := below_ok (c := c) fit (Nat.le_refl _)
    have slow := slow_follows lawful fit (Nat.le_refl _) native
    obtain ⟨subtrace, addr, there, entry⟩ := rootEntry fit high native
    rw [if_pos numbered]
    refine ⟨pm.subtraces, nodeHash fit c k 0, subtrace, addr, ?_, ?_, calculateRoot_eq fit c, there,
      entry⟩
    · exact (getPortalSubtraces_eq_ok (by omega)).mpr ⟨pm, native, rfl⟩
    · rw [slowGetPortalSubtraces, slow]
      rfl
  · rw [if_neg numbered]
    have never : ¬ ∃ node, subcircuitIdxToNodeIdx overflowChecks (params.numSubcircuits - 2)
        params.numLeaves = .ok node := by
      rintro ⟨node, found⟩
      rw [whole, power] at found
      exact numbered (height_of_root found)
    intro traces
    constructor
    · exact never_recorded power portals numbered
    · intro recorded
      obtain ⟨pm, slow, _⟩ := bind_eq_ok.mp recorded
      exact never (found_of_slow slow _ (List.mem_range.mpr (by omega)) (by omega))

theorem twoLeaves_agree : ∃ traces root subtrace addr,
    getPortalSubtraces true (standard Bls12381Fr Unit) twoLeaves = .ok traces ∧
    slowGetPortalSubtraces true (standard Bls12381Fr Unit) twoLeaves = .ok traces ∧
    calculateRoot (standard Bls12381Fr Unit) ⟨2, 1, 1⟩ twoLeaves.leaves.toList = .ok root ∧
    traces[2]? = some subtrace ∧ subtrace[2]? = some (.rom ⟨addr, innerHashToField root⟩) := by
  have agree : if 1 < 32 ∧ (true = true → 1 < 31) then _ else _ := traces_agree (c := twoLeaves)
    (standard_lawful (F := Bls12381Fr) (D := Unit)) (by decide) (by decide) (k := 1) rfl (by decide)
  rwa [if_pos (by decide)] at agree

/-- A tree of empty leaves whose root has no number. -/
def tallTree : MerkleTreeCircuit ⟨2 ^ 32, 1, 1⟩ :=
  ⟨List.Vector.replicate _ emptyLeaf, List.Vector.replicate innerHashSize 0⟩

theorem tallTree_unrecorded : ¬ ∃ traces, getPortalSubtraces false (standard Bls12381Fr Unit)
    tallTree = .ok traces := by
  rintro ⟨traces, recorded⟩
  exact never_recorded rfl (by decide) (by decide) recorded

end Runs
end TreeHashRecording
