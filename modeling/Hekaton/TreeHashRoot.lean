import Hekaton.TreeHashAgreement

/-!
# The root of the Merkle tree circuit

The root computed level by level is the first bytes of the root node's digest, and is read
back from the value of the root's portal wire. The constraints of all subcircuits therefore
hold exactly for this root hash, unless the only leaf is the root, which has no check, or the
tree is too high for its nodes to be numbered.
-/

namespace TreeHashRoot

open Outcomes Wires Synthesis Contracts Transcript PortalManager PrimeFields Codecs Packing
open VkdHash FieldGadgets HonestRuns MirroredRuns TreeIndexing TreeHashCircuit TreeHashTraces
open Sha256Digests TreeHashRuns TreeHashAgreement

section Levels
variable {F D : Type} {sha : Sha256 F D} {params : MerkleTreeCircuitParams}
variable {overflowChecks : Bool} {c : MerkleTreeCircuit params} {k : Nat}

theorem chunks_pairs {α : Type} (f : Nat → α) (m : Nat) :
    chunks 2 ((List.range (2 * m)).map f) =
      (List.range m).map fun u => [f (2 * u), f (2 * u + 1)] := by
  rw [chunks_of_length (k := m) (by decide) (by rw [List.length_map, List.length_range])]
  apply List.map_congr_left
  intro u member
  have inside := List.mem_range.mp member
  apply List.ext_getElem
  · simp
    omega
  · intro i here there
    have two : i < 2 := by simpa using there
    interval_cases i <;> simp

/-- The hash of a node: the first bytes of its digest. -/
def nodeHash (fit : Fitting overflowChecks sha params k) (c : MerkleTreeCircuit params)
    (level upper : Nat) : InnerHash :=
  ⟨(nodeDigest sha c level upper).take innerHashSize, by
    rw [List.length_take, nodeDigest_length fit.size fit.iterations]
    rfl⟩

theorem innerDigest_eq {input : List UInt8} {hash : InnerHash}
    (size : (iteratedSha256 sha params input).length = 32)
    (same : hash.toList = (iteratedSha256 sha params input).take innerHashSize) :
    innerDigest sha params input = .ok hash := by
  have long : innerHashSize ≤ (iteratedSha256 sha params input).length := by
    rw [size]
    decide
  rw [innerDigest, firstBytes, dif_pos long]
  exact congrArg _ (Subtype.ext same.symm)

theorem innerDigest_leaf (fit : Fitting overflowChecks sha params k) (c : MerkleTreeCircuit params)
    (i : Nat) : innerDigest sha params (leafAt c i).toList = .ok (nodeHash fit c 0 i) :=
  innerDigest_eq (nodeDigest_length fit.size fit.iterations c 0 i) rfl

theorem parentDigest_eq (fit : Fitting overflowChecks sha params k) (c : MerkleTreeCircuit params)
    (level upper : Nat) : parentDigest sha params
      [nodeHash fit c level (2 * upper), nodeHash fit c level (2 * upper + 1)] =
        .ok (nodeHash fit c (level + 1) upper) :=
  innerDigest_eq (nodeDigest_length fit.size fit.iterations c (level + 1) upper) rfl

theorem reduceLevels_eq (fit : Fitting overflowChecks sha params k) (c : MerkleTreeCircuit params)
    {level height n : Nat} (enough : height ≤ n) : reduceLevels sha params n
      ((List.range (2 ^ height)).map (nodeHash fit c level)) =
        .ok [nodeHash fit c (level + height) 0] := by
  induction height generalizing level n with
  | zero =>
    cases n with
    | zero => rfl
    | succ n => rfl
  | succ height ih =>
    obtain ⟨n, rfl⟩ := Nat.exists_eq_succ_of_ne_zero
      (Nat.ne_of_gt (Nat.lt_of_lt_of_le (Nat.succ_pos height) enough))
    have many : ((List.range (2 ^ (height + 1))).map (nodeHash fit c level)).length > 1 := by
      rw [List.length_map, List.length_range]
      exact Nat.one_lt_two_pow (Nat.succ_ne_zero height)
    have parents : ((List.range (2 ^ height)).map fun u =>
        [nodeHash fit c level (2 * u), nodeHash fit c level (2 * u + 1)]).mapM
          (parentDigest sha params) =
        .ok ((List.range (2 ^ height)).map (nodeHash fit c (level + 1))) := by
      rw [List.mapM_map]
      exact mapM_eq_ok fun u _ => parentDigest_eq fit c level u
    rw [reduceLevels, if_pos many, Nat.pow_succ', chunks_pairs, parents, ok_bind,
      ih (Nat.le_of_succ_le_succ enough), Nat.add_assoc, Nat.add_comm 1]

/-- The root is the hash of the node at the top. -/
theorem calculateRoot_eq (fit : Fitting overflowChecks sha params k)
    (c : MerkleTreeCircuit params) :
    calculateRoot sha params c.leaves.toList = .ok (nodeHash fit c k 0) := by
  have indexed := congrArg (List.map Prod.fst) (zipIdx_leafAt c)
  rw [List.zipIdx_map_fst, List.map_map] at indexed
  have leaves : c.leaves.toList = (List.range (2 ^ k)).map (leafAt c) :=
    indexed.trans (congrArg (fun n => (List.range n).map (leafAt c)) fit.power)
  have first : ((List.range (2 ^ k)).map (leafAt c)).mapM
      (fun leaf => innerDigest sha params leaf.toList) =
      .ok ((List.range (2 ^ k)).map (nodeHash fit c 0)) := by
    rw [List.mapM_map]
    exact mapM_eq_ok fun i _ => innerDigest_leaf fit c i
  have enough : k ≤ ((List.range (2 ^ k)).map (nodeHash fit c 0)).length := by
    rw [List.length_map, List.length_range]
    exact Nat.le_of_lt Nat.lt_two_pow_self
  rw [calculateRoot, leaves, first, ok_bind, reduceLevels_eq fit c enough, ok_bind, Nat.zero_add]
  rfl

variable [Field F]

theorem nodeValue_eq (fit : Fitting overflowChecks sha params k) (c : MerkleTreeCircuit params)
    (level upper : Nat) :
    (nodeValue sha c level upper : F) = innerHashToField (nodeHash fit c level upper) := rfl

variable [PrimeField F]

/-- The root's wire holds the root hash exactly when this is the calculated root. -/
theorem rootMatches_iff (fit : Fitting overflowChecks sha params k) {rootHash : InnerHash} :
    RootMatches sha c k rootHash ↔ calculateRoot sha params c.leaves.toList = .ok rootHash := by
  rw [calculateRoot_eq fit, RootMatches, nodeValue_eq fit, Except.ok.injEq]
  exact innerHashToField_injective.eq_iff

end Levels

section Runs
variable {F D : Type} [Field F] [PrimeField F] [DecidableEq F] [Inhabited D] [DecidableEq D]
variable {overflowChecks : Bool} {sha : Sha256 F D} {params : MerkleTreeCircuitParams}
variable {c c' : MerkleTreeCircuit params} {k idx : Nat} {pm pm' : SetupRomPortalManager F}

/-- The constraints of the subcircuits that are left hold exactly for the root hash, where the
root is among them. -/
theorem recordBodies_decide (lawful : Lawful sha) (fit : Fitting overflowChecks sha params k)
    {m : Nat} (all : idx + m = params.numSubcircuits) (progress : Progress sha c k idx pm)
    (vars : List (Variable F D)) : Decides vars
      (recordBodies ((List.range' idx m).map (generateConstraints overflowChecks sha c)) pm)
      (0 < k → idx + 2 ≤ params.numSubcircuits → RootMatches sha c k c.rootHash)
      fun _ r => Progress sha c k params.numSubcircuits r := by
  induction m generalizing idx pm vars with
  | zero =>
    rw [← all]
    apply (Decides.pure (Q := fun _ r => Progress sha c k idx r) progress).congr
    exact iff_of_true trivial fun _ beyond => absurd beyond (by omega)
  | succ m ih =>
    obtain ⟨pm₁, ran, progress₁⟩ := subcircuitEffect_ok fit (startSubtrace_ne_nil pm)
      progress.start (by omega)
    have here : Decides vars _ _ _ := generateConstraints_decides lawful fit progress.start
      (by omega) (fun _ => rfl) ran
    have later : ∀ more (r : Unit × SetupRomPortalManager F), r.2 = pm₁ → Decides (vars ++ more)
        (recordBodies ((List.range' (idx + 1) m).map (generateConstraints overflowChecks sha c)) r.2)
        (0 < k → idx + 1 + 2 ≤ params.numSubcircuits → RootMatches sha c k c.rootHash)
        fun _ r => Progress sha c k params.numSubcircuits r := by
      rintro more ⟨_, _⟩ rfl
      exact ih (by omega) progress₁ _
    rw [List.range'_succ, List.map_cons, recordBodies]
    apply (here.bind later).congr
    constructor
    · rintro ⟨now, later⟩ high reached
      by_cases root : idx + 2 = params.numSubcircuits
      · exact now high root
      · exact later high (by omega)
    · intro holds
      exact ⟨fun high root => holds high (le_of_eq root),
        fun high reached => holds high (by omega)⟩

/-- The constraints of all subcircuits, generated in order on one manager. -/
def allConstraints (overflowChecks : Bool) (sha : Sha256 F D) (c : MerkleTreeCircuit params) :
    Synth F D (SetupRomPortalManager F) :=
  recordBodies ((List.range params.numSubcircuits).map (generateConstraints overflowChecks sha c))
    SetupRomPortalManager.new

/-- They are generated, and all satisfied by the values they were given. -/
def AllSatisfied (overflowChecks : Bool) (sha : Sha256 F D) (c : MerkleTreeCircuit params) : Prop :=
  ∃ r, allConstraints overflowChecks sha c [] = .ok r ∧
    r.2.Satisfied (assignmentOf r.2.allocations)

theorem allSatisfied_iff (lawful : Lawful sha) (fit : Fitting overflowChecks sha params k) :
    AllSatisfied overflowChecks sha c ↔
      (0 < k → calculateRoot sha params c.leaves.toList = .ok c.rootHash) := by
  have whole : 2 ≤ params.numSubcircuits := by
    have positive := Nat.two_pow_pos k
    change 2 ≤ 2 * params.numLeaves
    rw [fit.power]
    omega
  have run := recordBodies_decide lawful fit (Nat.zero_add _) (progress_new (c := c)) []
  rw [← List.range_eq_range'] at run
  obtain ⟨r, e, ran, holds, _⟩ := run.run
  rw [List.nil_append] at holds
  rw [← rootMatches_iff (F := F) fit, AllSatisfied]
  constructor
  · rintro ⟨r', again, sat⟩ high
    cases ran.symm.trans again
    exact holds.mp sat high (by omega)
  · intro matched
    exact ⟨(r, e), ran, holds.mpr fun high _ => matched high⟩

/-- A body that ran found the node of its subcircuit. -/
theorem found_of_run {vars : List (Variable F D)} {r : (Unit × SetupRomPortalManager F) × Emission F D}
    (inner : idx + 1 < params.numSubcircuits)
    (ran : (generateConstraints overflowChecks sha c idx).run pm vars = .ok r) :
    ∃ node, subcircuitIdxToNodeIdx overflowChecks idx params.numLeaves = .ok node := by
  rw [generateConstraints, run_bind] at ran
  obtain ⟨r₁, e₁, _, _, tree, _, _⟩ := Synth.bind_eq_ok.mp ran
  rw [treeConstraints, run_bind, subBits_eq (by omega)] at tree
  obtain ⟨r₂, e₂, _, _, first, tree, _⟩ := Synth.bind_eq_ok.mp tree
  cases first
  rw [if_neg (by omega), nodeConstraints, run_bind] at tree
  obtain ⟨r₃, e₃, _, _, node, _, _⟩ := Synth.bind_eq_ok.mp tree
  obtain ⟨a, _, _, _, found, _, _⟩ := Synth.bind_eq_ok.mp node
  obtain ⟨a', ok, _⟩ := Synth.lift_eq_ok.mp found
  exact ⟨a', ok⟩

omit [PrimeField F] in
/-- Where all bodies ran, each of them did. -/
theorem run_of_recordBodies {ι : Type} {body : ι → Program F D Unit} {l : List ι}
    {vars : List (Variable F D)} {r : SetupRomPortalManager F × Emission F D}
    (ran : recordBodies (l.map body) pm vars = .ok r) :
    ∀ i ∈ l, ∃ (pm : SetupRomPortalManager F) (vars : List (Variable F D)) (r' : _),
      (body i).run pm vars = .ok r' := by
  induction l generalizing pm vars r with
  | nil => exact fun i member => absurd member List.not_mem_nil
  | cons i l ih =>
    obtain ⟨r₁, e₁, r₂, e₂, first, rest, _⟩ := Synth.bind_eq_ok.mp ran
    exact List.forall_mem_cons.mpr ⟨⟨_, _, _, first⟩, ih rest⟩

/-- Only trees whose nodes are all numbered have their constraints generated. -/
theorem height_of_allSatisfied (power : params.numLeaves = 2 ^ k)
    (satisfied : AllSatisfied overflowChecks sha c) :
    k < 32 ∧ (overflowChecks = true → k < 31) := by
  have whole := MerkleTreeCircuitParams.numSubcircuits_eq power
  have two : 2 ≤ 2 ^ (k + 1) := Nat.le_self_pow (Nat.succ_ne_zero k) 2
  obtain ⟨r, ran, _⟩ := satisfied
  obtain ⟨pm, vars, r', last⟩ := run_of_recordBodies ran (params.numSubcircuits - 2)
    (List.mem_range.mpr (by omega))
  obtain ⟨node, found⟩ := found_of_run (by omega) last
  rw [whole, power] at found
  exact height_of_root found

/-- The constraints hold exactly for the calculated root, in trees of several leaves whose nodes
are numbered; where there is one leaf they always hold, and in higher trees they never do. -/
theorem satisfied_iff_root (lawful : Lawful sha)
    (iterations : 1 ≤ params.numShaItersPerSubcircuit)
    (portals : 1 ≤ params.numPortalsPerSubcircuit) (power : params.numLeaves = 2 ^ k) :
    (AllSatisfied overflowChecks sha c ↔
      calculateRoot sha params c.leaves.toList = .ok c.rootHash) ↔
    if k < 32 ∧ (overflowChecks = true → k < 31) then
      2 ≤ params.numLeaves ∨ calculateRoot sha params c.leaves.toList = .ok c.rootHash
    else calculateRoot sha params c.leaves.toList ≠ .ok c.rootHash := by
  by_cases numbered : k < 32 ∧ (overflowChecks = true → k < 31)
  · have fit : Fitting overflowChecks sha params k :=
      ⟨lawful.size, iterations, portals, power, numbered.1, numbered.2⟩
    have several : 2 ≤ params.numLeaves ↔ 0 < k := by
      rw [power]
      constructor
      · intro many
        by_contra none
        rw [show k = 0 by omega] at many
        exact absurd many (by decide)
      · exact fun high => Nat.le_self_pow (Nat.ne_of_gt high) 2
    rw [if_pos numbered, allSatisfied_iff lawful fit, several]
    by_cases high : 0 < k
    · exact iff_of_true ⟨fun holds => holds high, fun same _ => same⟩ (Or.inl high)
    · constructor
      · exact fun same => Or.inr (same.mp fun high' => absurd high' high)
      · rintro (high' | same)
        · exact absurd high' high
        · exact iff_of_true (fun _ => same) same
  · have never : ¬ AllSatisfied overflowChecks sha c := fun satisfied =>
      numbered (height_of_allSatisfied power satisfied)
    rw [if_neg numbered]
    exact ⟨fun same root => never (same.mpr root), fun other => iff_of_false never other⟩

/-- Two empty leaves under a root hash that is not theirs. -/
def twoLeaves : MerkleTreeCircuit ⟨2, 1, 1⟩ :=
  ⟨List.Vector.replicate 2 emptyLeaf, List.Vector.replicate innerHashSize 0⟩

theorem twoLeaves_satisfied_iff : AllSatisfied true (standard Bls12381Fr Unit) twoLeaves ↔
    calculateRoot (standard Bls12381Fr Unit) ⟨2, 1, 1⟩ twoLeaves.leaves.toList =
      .ok twoLeaves.rootHash := by
  apply (satisfied_iff_root (c := twoLeaves)
    (standard_lawful (F := Bls12381Fr) (D := Unit)) (by decide) (by decide) (k := 1) rfl).mpr
  rw [if_pos (by decide)]
  exact Or.inl (by decide)

/-- One empty leaf under a root hash that is not its own. -/
def oneLeaf : MerkleTreeCircuit ⟨1, 1, 1⟩ :=
  ⟨List.Vector.replicate 1 emptyLeaf, List.Vector.replicate innerHashSize 0⟩

theorem oneLeaf_unchecked : ¬ (AllSatisfied true (standard Bls12381Fr Unit) oneLeaf ↔
    calculateRoot (standard Bls12381Fr Unit) ⟨1, 1, 1⟩ oneLeaf.leaves.toList =
      .ok oneLeaf.rootHash) := by
  have fit : Fitting true (standard Bls12381Fr Unit) ⟨1, 1, 1⟩ 0 :=
    ⟨digest_length, by decide, by decide, rfl, by decide, by decide⟩
  have satisfied : AllSatisfied true (standard Bls12381Fr Unit) oneLeaf :=
    (allSatisfied_iff standard_lawful fit).mpr fun high => absurd high (Nat.lt_irrefl 0)
  intro same
  have root := same.mp satisfied
  rw [calculateRoot_eq fit, Except.ok.injEq] at root
  have bytes := congrArg List.Vector.toList root
  have other : (digest (List.replicate 64 0)).take 27 ≠ List.replicate 27 0 := by decide +kernel
  exact other bytes

end Runs
end TreeHashRoot
