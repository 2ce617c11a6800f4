import Hekaton.VkdGadgets
import Mathlib

/-!
# What the path gadgets force

Leaf hashes are computed from their bytes, but every level of a path ends in a fresh witness
that no row mentions. So in a satisfying assignment the root of a path with a level is any
element at all, and a check of the path accepts any root.
-/

namespace PathGadgets

open Outcomes Wires Synthesis Contracts Codecs PrimeFields ByteBits VkdHash FieldGadgets SparseTree
open KeyDirectory VkdGadgets

section Settled
variable {F D : Type} [Field F] [DecidableEq F] [DecidableEq D]

/-- The wire's value is that of the first `n` variables. -/
def Settled (n : Nat) {k : Kind} (w : Wire F D k) : Prop :=
  ∀ z z' : Assignment F D, (∀ l i, i < n → z l i = z' l i) → w.eval z = w.eval z'

theorem Settled.mono {n m : Nat} {k : Kind} {w : Wire F D k} (settled : Settled n w)
    (more : n ≤ m) : Settled m w :=
  fun z z' same => settled z z' fun l i below => same l i (below.trans_le more)

theorem exists_settled {k : Kind} (w : Wire F D k) : ∃ n, Settled n w := by
  induction w with
  | constant c => exact ⟨0, fun _ _ _ => rfl⟩
  | var k i => exact ⟨i + 1, fun _ _ same => same k i (Nat.lt_succ_self i)⟩
  | nil => exact ⟨0, fun _ _ _ => rfl⟩
  | not a iha | ofBool a iha | call f a iha =>
    obtain ⟨n, ha⟩ := iha
    refine ⟨n, fun z z' same => ?_⟩
    simp only [Wire.eval, ha z z' same]
  | add a b iha ihb | sub a b iha ihb | mul a b iha ihb | isEq a b iha ihb | and a b iha ihb
  | or a b iha ihb | xor a b iha ihb | cons a b iha ihb | call₂ f a b iha ihb =>
    obtain ⟨n, ha⟩ := iha
    obtain ⟨m, hb⟩ := ihb
    refine ⟨max n m, fun z z' same => ?_⟩
    have left := ha.mono (Nat.le_max_left n m) z z' same
    have right := hb.mono (Nat.le_max_right n m) z z' same
    simp only [Wire.eval, left, right]
  | select c a b ihc iha ihb =>
    obtain ⟨l, hc⟩ := ihc
    obtain ⟨n, ha⟩ := iha
    obtain ⟨m, hb⟩ := ihb
    refine ⟨max l (max n m), fun z z' same => ?_⟩
    have condition := hc.mono (by omega) z z' same
    have left := ha.mono (by omega) z z' same
    have right := hb.mono (by omega) z z' same
    simp only [Wire.eval, condition, left, right]

theorem exists_settled_all {k : Kind} (ws : List (Wire F D k)) :
    ∃ n, ∀ w ∈ ws, Settled n w := by
  induction ws with
  | nil => exact ⟨0, fun _ h => absurd h List.not_mem_nil⟩
  | cons w ws ih =>
    obtain ⟨n, first⟩ := exists_settled w
    obtain ⟨m, rest⟩ := ih
    refine ⟨max n m, fun w' h => ?_⟩
    rcases List.mem_cons.mp h with rfl | h
    · exact first.mono (Nat.le_max_left n m)
    · exact (rest w' h).mono (Nat.le_max_right n m)

end Settled

section Facts
variable {F D : Type} [Field F] [PrimeField F] [DecidableEq F] [Inhabited D] [DecidableEq D]
variable {p : Poseidon F}

/-- The wires carry the elements of these digests. -/
def Carries (z : Assignment F D) (ws : List (Wire F D .field)) (digests : List InnerHash) : Prop :=
  ws.map (fun w => (w.eval z : F)) = digests.map innerHashToField

instance decidableCarries (z : Assignment F D) (ws : List (Wire F D .field))
    (digests : List InnerHash) : Decidable (Carries z ws digests) :=
  inferInstanceAs (Decidable (ws.map (fun w => (w.eval z : F)) = digests.map innerHashToField))

/-- The index that the bits stand for natively, where `true` is a left child. -/
def nativeIndex (z : Assignment F D) (index : List (Wire F D .bool)) : List Bool :=
  index.map fun b => !(b.eval z)

/-- The native function computes the root whose element this is. -/
def IsRoot (p : Poseidon F) (z : Assignment F D) (siblings : List InnerHash) (value : List UInt8)
    (index : List (Wire F D .bool)) (nodeType : NodeType) (x : F) : Prop :=
  ∃ root, MerkleTreePath.computeRoot (hashing p) ⟨siblings⟩ value (nativeIndex z index) nodeType =
    .ok root ∧ x = innerHashToField root

/-- From a leaf, the gadget's root is the native one. -/
def LeafRootBound (p : Poseidon F) (v : MerkleTreePathVar F D) (leaf : List (UInt8Var F D))
    (index : List (Wire F D .bool)) : Prop :=
  ∀ z siblings, Carries z v.path siblings →
    Forces z (v.computeRootVarFromLeaf (hashInnerNodeVar p) p leaf index) fun w =>
      IsRoot p z siblings (bytesValue z leaf) index .leaf (w.eval z)

/-- From a leaf, the check holds of the native root only. -/
def LeafCheckBound (p : Poseidon F) (v : MerkleTreePathVar F D) (leaf : List (UInt8Var F D))
    (index : List (Wire F D .bool)) : Prop :=
  ∀ (root : Wire F D .field) z siblings, Carries z v.path siblings →
    Forces z (v.checkPathFromLeaf (hashInnerNodeVar p) p root leaf index) fun _ =>
      IsRoot p z siblings (bytesValue z leaf) index .leaf (root.eval z)

/-- From an internal node, the gadget's root is the native one. -/
def NodeRootBound (p : Poseidon F) (v : MerkleTreePathVar F D) (node : Wire F D .field)
    (index : List (Wire F D .bool)) : Prop :=
  ∀ z digest siblings, Carries z (node :: v.path) (digest :: siblings) →
    Forces z (v.computeRootVarFromInternalNode (hashInnerNodeVar p) node index) fun w =>
      IsRoot p z siblings digest.toList index .internalNode (w.eval z)

/-- From an internal node, the check holds of the native root only. -/
def NodeCheckBound (p : Poseidon F) (v : MerkleTreePathVar F D) (node : Wire F D .field)
    (index : List (Wire F D .bool)) : Prop :=
  ∀ (root : Wire F D .field) z digest siblings, Carries z (node :: v.path) (digest :: siblings) →
    Forces z (v.checkPathFromInternalNode (hashInnerNodeVar p) root node index) fun _ =>
      IsRoot p z siblings digest.toList index .internalNode (root.eval z)

omit [PrimeField F] [Inhabited D] in
theorem carries_cons {z : Assignment F D} {w : Wire F D .field} {ws : List (Wire F D .field)}
    {digest : InnerHash} {digests : List InnerHash} :
    Carries z (w :: ws) (digest :: digests) ↔
      (w.eval z : F) = innerHashToField digest ∧ Carries z ws digests := by
  simp only [Carries, List.map_cons, List.cons.injEq]

omit [PrimeField F] [Inhabited D] in
/-- Variables that no wire mentions can be given any value. -/
theorem Carries.congr {z z' : Assignment F D} {ws : List (Wire F D .field)}
    {digests : List InnerHash} {n : Nat} (carries : Carries z ws digests)
    (settled : ∀ w ∈ ws, Settled n w) (same : ∀ l i, i < n → z l i = z' l i) :
    Carries z' ws digests := by
  rw [Carries, ← carries]
  apply List.map_congr_left
  intro w listed
  exact (settled w listed z z' same).symm

/-- Natively, the digest and the siblings lead to the root whose element this is. -/
def ClimbsTo (p : Poseidon F) (z : Assignment F D) (index : List (Wire F D .bool))
    (digest : InnerHash) (siblings : List InnerHash) (x : F) : Prop :=
  ∃ root, MerkleTreePath.climbFrom (hashing p) (nativeIndex z index) 0 digest siblings =
    .ok root ∧ x = innerHashToField root

omit [Inhabited D] in
/-- A native root climbs from the start's digest. -/
theorem isRoot_iff {z : Assignment F D} {siblings : List InnerHash} {value : List UInt8}
    {index : List (Wire F D .bool)} {nodeType : NodeType} {digest : InnerHash} {x : F}
    (start : nodeDigest (hashing p) value nodeType = .ok digest) :
    IsRoot p z siblings value index nodeType x ↔ ClimbsTo p z index digest siblings x := by
  rw [IsRoot, MerkleTreePath.computeRoot, start, ok_bind, ClimbsTo]

omit [DecidableEq D] [DecidableEq F] in
/-- 27 bytes do not reach this number. -/
theorem not_innerHash (digest : InnerHash) : ((2 ^ 216 : Nat) : F) ≠ innerHashToField digest := by
  intro same
  have below := fromLittleEndian_lt digest.toList
  have large : 2 ^ 254 < PrimeField.modulus F := PrimeField.large
  rw [digest.toList_length] at below
  have small : 256 ^ innerHashSize = 2 ^ 216 := by decide
  have equal := natCast_injOn (F := F) (by omega) (by omega) same
  omega

/-- The output of a level is a new variable, which no row mentions. -/
theorem hashInnerNodeVar_run (p : Poseidon F) (left right : Wire F D .field)
    (vars : List (Variable F D)) :
    ∃ e, hashInnerNodeVar p left right vars = .ok (.var .field vars.length, e) ∧
      ∀ z, e.Satisfied z := by
  have run : ∃ e, hashInnerNodeVar p left right vars =
      .ok (.var .field ((vars ++ []) ++ []).length, e) ∧ ∀ z, e.Satisfied z := by
    refine ⟨_, rfl, fun z c listed => ?_⟩
    cases List.mem_singleton.mp listed
    exact True.intro
  rwa [List.append_nil, List.append_nil] at run

/-- The climb of one level goes on from a new variable that no row mentions. -/
theorem climbVar_level (p : Poseidon F) (b : Wire F D .bool) (index : List (Wire F D .bool))
    (s : Wire F D .field) (path : List (Wire F D .field)) (current : Wire F D .field)
    (vars : List (Variable F D)) :
    ∃ i e, vars.length ≤ i ∧ (∀ z, e.Satisfied z) ∧
      ∀ r, MerkleTreePathVar.climbVar (hashInnerNodeVar p) index path (.var .field i)
          (vars ++ e.allocations) = .ok r →
        MerkleTreePathVar.climbVar (hashInnerNodeVar p) (b :: index) (s :: path) current vars =
          .ok (r.1, e ++ r.2) := by
  have select (a c : Wire F D .field) (vars : List (Variable F D)) :
      ∃ e : Emission F D, Synth.conditionallySelect b a c vars = .ok (.select b a c, e) ∧
        ∀ z, e.Satisfied z := by
    refine ⟨_, rfl, fun z c listed => ?_⟩
    cases List.mem_singleton.mp listed
    exact True.intro
  obtain ⟨e₁, left, sat₁⟩ := select s current vars
  obtain ⟨e₂, right, sat₂⟩ := select current s (vars ++ e₁.allocations)
  obtain ⟨e₃, inner, sat₃⟩ := hashInnerNodeVar_run p (.select b s current)
    (.select b current s) (vars ++ e₁.allocations ++ e₂.allocations)
  refine ⟨(vars ++ e₁.allocations ++ e₂.allocations).length, e₁ ++ (e₂ ++ e₃), ?_, fun z => ?_,
    fun r rest => ?_⟩
  · simp only [List.length_append]
    omega
  · simp only [Emission.satisfied_append]
    exact ⟨sat₁ z, sat₂ z, sat₃ z⟩
  · simp only [Emission.append_allocations, ← List.append_assoc] at rest
    rw [MerkleTreePathVar.climbVar, Emission.append_assoc, Emission.append_assoc]
    exact Synth.bind_of_ok left (Synth.bind_of_ok right (Synth.bind_of_ok inner rest))

/-- With a level to climb, the result is a new variable, which no row mentions. -/
theorem climbVar_run (p : Poseidon F) (b : Wire F D .bool) (index : List (Wire F D .bool))
    (s : Wire F D .field) (path : List (Wire F D .field)) (current : Wire F D .field)
    (vars : List (Variable F D)) :
    ∃ i e, MerkleTreePathVar.climbVar (hashInnerNodeVar p) (b :: index) (s :: path) current vars =
      .ok (.var .field i, e) ∧ vars.length ≤ i ∧ ∀ z, e.Satisfied z := by
  induction index generalizing b s path current vars with
  | nil =>
    obtain ⟨i, e, fresh, satisfied, run⟩ := climbVar_level p b [] s path current vars
    refine ⟨i, e ++ .empty, run (.var .field i, .empty) ?_, fresh, fun z => ?_⟩
    · rw [MerkleTreePathVar.climbVar]
      rfl
    · exact Emission.satisfied_append.mpr ⟨satisfied z, Emission.satisfied_empty⟩
  | cons b' index ih =>
    obtain ⟨i, e, fresh, satisfied, run⟩ :=
      climbVar_level p b (b' :: index) s path current vars
    cases path with
    | nil =>
      refine ⟨i, e ++ .empty, run (.var .field i, .empty) rfl, fresh, fun z => ?_⟩
      exact Emission.satisfied_append.mpr ⟨satisfied z, Emission.satisfied_empty⟩
    | cons s' path =>
      obtain ⟨j, e', rest, later, satisfied'⟩ := ih b' s' path (.var .field i)
        (vars ++ e.allocations)
      refine ⟨j, e ++ e', run (.var .field j, e') rest, ?_, fun z => ?_⟩
      · rw [List.length_append] at later
        omega
      · exact Emission.satisfied_append.mpr ⟨satisfied z, satisfied' z⟩

/-- With a level to climb, some assignment that satisfies the rows has another result. -/
theorem climbVar_unbound (p : Poseidon F) (index : List (Wire F D .bool))
    {path : List (Wire F D .field)} {current : Wire F D .field} {z : Assignment F D}
    {digest : InnerHash} {siblings : List InnerHash} (levels : path ≠ [])
    (carries : Carries z (current :: path) (digest :: siblings)) :
    ∃ z' vars w e, Carries z' (current :: path) (digest :: siblings) ∧
      MerkleTreePathVar.climbVar (hashInnerNodeVar p) index path current vars = .ok (w, e) ∧
      e.Satisfied z' ∧ ¬ ClimbsTo p z' index digest siblings (w.eval z') := by
  obtain ⟨s, path, rfl⟩ := List.exists_cons_of_ne_nil levels
  cases index with
  | nil =>
    -- natively a path without bits runs past the end of the index
    refine ⟨z, [], current, .empty, carries, rfl, Emission.satisfied_empty, ?_⟩
    rintro ⟨root, climbed, _⟩
    obtain ⟨_, rest⟩ := carries_cons.mp carries
    cases siblings with
    | nil => cases rest
    | cons sibling siblings => cases climbed
  | cons b index =>
    obtain ⟨n, settled⟩ := exists_settled_all (current :: s :: path)
    obtain ⟨i, e, run, fresh, satisfied⟩ := climbVar_run p b index s path current
      (List.replicate n ⟨.witness, .bool, false⟩)
    rw [List.length_replicate] at fresh
    let z' : Assignment F D := Function.update z .field
      (Function.update (z .field) i ((2 ^ 216 : Nat) : F))
    have same : ∀ l j, j < n → z l j = z' l j := by
      intro l j below
      cases l with
      | field => exact (Function.update_of_ne (by omega) _ _).symm
      | bool => rfl
      | digest => rfl
      | fields => rfl
    have forged : (Wire.var .field i : Wire F D .field).eval z' = ((2 ^ 216 : Nat) : F) := by
      exact Function.update_self i _ _
    refine ⟨z', _, _, e, carries.congr settled same, run, satisfied z', ?_⟩
    rintro ⟨root, _, reached⟩
    exact not_innerHash root (forged.symm.trans reached)

omit [Inhabited D] in
/-- Without levels the climb ends where it starts. -/
theorem climbsTo_nil {z : Assignment F D} {index : List (Wire F D .bool)}
    {current : Wire F D .field} {digest : InnerHash} {siblings : List InnerHash}
    (carries : Carries z [current] (digest :: siblings)) :
    ClimbsTo p z index digest siblings (current.eval z) := by
  obtain ⟨start, rest⟩ := carries_cons.mp carries
  cases siblings with
  | nil => exact ⟨digest, rfl, start⟩
  | cons sibling siblings => cases rest

omit [Field F] [PrimeField F] [DecidableEq F] [Inhabited D] [DecidableEq D] in
theorem climbVar_nil (inner : Wire F D .field → Wire F D .field → Synth F D (Wire F D .field))
    (index : List (Wire F D .bool)) (current : Wire F D .field) :
    MerkleTreePathVar.climbVar inner index [] current = pure current := by
  cases index <;> rfl

/-- The climb forces the native root exactly where there is nothing to climb. -/
theorem climbVar_forces_iff (index : List (Wire F D .bool)) (path : List (Wire F D .field))
    (current : Wire F D .field) :
    (∀ z digest siblings, Carries z (current :: path) (digest :: siblings) →
      Forces z (MerkleTreePathVar.climbVar (hashInnerNodeVar p) index path current)
        fun w => ClimbsTo p z index digest siblings (w.eval z)) ↔
    path = [] ∨ ¬ ∃ z digest siblings, Carries z (current :: path) (digest :: siblings) := by
  constructor
  · intro bound
    by_cases levels : path = []
    · exact .inl levels
    · right
      rintro ⟨z, digest, siblings, carries⟩
      obtain ⟨z', vars, w, e, carries', run, satisfied, other⟩ :=
        climbVar_unbound p index levels carries
      exact other (bound z' digest siblings carries' vars w e run satisfied)
  · rintro (rfl | nothing) z digest siblings carries
    · rw [climbVar_nil]
      exact .pure (climbsTo_nil carries)
    · exact absurd ⟨z, digest, siblings, carries⟩ nothing

/-- So does the check of its result. -/
theorem climbVar_check_iff (index : List (Wire F D .bool)) (path : List (Wire F D .field))
    (current : Wire F D .field) :
    (∀ (root : Wire F D .field) z digest siblings,
      Carries z (current :: path) (digest :: siblings) →
      Forces z (do
        let w ← MerkleTreePathVar.climbVar (hashInnerNodeVar p) index path current
        Synth.conditionalEnforceEqual root w (.constant true))
        fun _ => ClimbsTo p z index digest siblings (root.eval z)) ↔
    path = [] ∨ ¬ ∃ z digest siblings, Carries z (current :: path) (digest :: siblings) := by
  constructor
  · intro bound
    apply (climbVar_forces_iff (p := p) index path current).mp
    intro z digest siblings carries vars w e run satisfied
    have claimed := bound (.constant (w.eval z)) z digest siblings carries vars () _
      (Synth.bind_of_ok run rfl)
    refine claimed (Emission.satisfied_append.mpr ⟨satisfied, ?_⟩)
    exact List.forall_mem_singleton.mpr fun _ => rfl
  · rintro (rfl | nothing) root z digest siblings carries
    · rw [climbVar_nil]
      refine (Forces.pure (Q := (· = current)) rfl).bind ?_
      rintro w rfl
      refine Forces.emit.mono fun _ holds => ?_
      have equal : root.eval z = (w.eval z : F) := holds rfl
      rw [equal]
      exact climbsTo_nil carries
    · exact absurd ⟨z, digest, siblings, carries⟩ nothing

theorem nodeRootBound_iff (v : MerkleTreePathVar F D) (node : Wire F D .field)
    (index : List (Wire F D .bool)) : NodeRootBound p v node index ↔
      v.path = [] ∨ ¬ ∃ z digest siblings, Carries z (node :: v.path) (digest :: siblings) := by
  rw [← climbVar_forces_iff (p := p) index v.path node]
  simp only [NodeRootBound, isRoot_iff (nodeDigest_internal _)]
  rfl

theorem nodeCheckBound_iff (v : MerkleTreePathVar F D) (node : Wire F D .field)
    (index : List (Wire F D .bool)) : NodeCheckBound p v node index ↔
      v.path = [] ∨ ¬ ∃ z digest siblings, Carries z (node :: v.path) (digest :: siblings) := by
  rw [← climbVar_check_iff (p := p) index v.path node]
  simp only [NodeCheckBound, isRoot_iff (nodeDigest_internal _)]
  rfl

omit [Inhabited D] in
/-- A leaf that is not empty is hashed to a wire that carries its digest. -/
theorem leafStart {leaf : List (UInt8Var F D)} (nonempty : leaf ≠ []) :
    ∃ current, Computes (hashLeafVar p leaf) current ∧
      ∀ z digest path siblings, Carries z (current :: path) (digest :: siblings) ↔
        digest = hashLeaf p (bytesValue z leaf) ∧ Carries z path siblings := by
  obtain ⟨current, run, value⟩ := hashLeafVar_computes (p := p) nonempty
  refine ⟨current, run, fun z digest path siblings => ?_⟩
  rw [carries_cons, value z]
  constructor
  · rintro ⟨same, rest⟩
    exact ⟨(innerHashToField_injective same).symm, rest⟩
  · rintro ⟨rfl, rest⟩
    exact ⟨rfl, rest⟩

omit [Inhabited D] in
/-- On an empty leaf the gadget panics. -/
theorem emptyLeaf_forces {α : Type} {z : Assignment F D} (f : Wire F D .field → Synth F D α)
    (Q : α → Prop) : Forces z (hashLeafVar p [] >>= f) Q := by
  refine Forces.bind (P := fun _ => False) ?_ fun _ impossible => impossible.elim
  intro vars a e run _
  cases run

omit [Inhabited D] in
/-- What follows the leaf's hash starts from its digest. -/
theorem leafStart_forces_iff {α : Type} {leaf : List (UInt8Var F D)} {current : Wire F D .field}
    (path : List (Wire F D .field)) (run : Computes (hashLeafVar p leaf) current)
    (starts : ∀ z digest path siblings, Carries z (current :: path) (digest :: siblings) ↔
      digest = hashLeaf p (bytesValue z leaf) ∧ Carries z path siblings)
    (f : Wire F D .field → Synth F D α)
    (Q : Assignment F D → InnerHash → List InnerHash → α → Prop) :
    (∀ z siblings, Carries z path siblings →
      Forces z (hashLeafVar p leaf >>= f) (Q z (hashLeaf p (bytesValue z leaf)) siblings)) ↔
    ∀ z digest siblings, Carries z (current :: path) (digest :: siblings) →
      Forces z (f current) (Q z digest siblings) := by
  constructor
  · intro bound z digest siblings carries
    obtain ⟨rfl, rest⟩ := (starts _ _ _ _).mp carries
    exact run.forces_bind_iff.mp (bound z siblings rest)
  · intro bound z siblings carries
    exact run.forces_bind_iff.mpr (bound z _ siblings ((starts _ _ _ _).mpr ⟨rfl, carries⟩))

theorem leafRootBound_iff (v : MerkleTreePathVar F D) (leaf : List (UInt8Var F D))
    (index : List (Wire F D .bool)) : LeafRootBound p v leaf index ↔
      leaf = [] ∨ v.path = [] ∨ ¬ ∃ z siblings, Carries z v.path siblings := by
  by_cases nonempty : leaf = []
  · subst nonempty
    exact iff_of_true (fun z siblings _ => emptyLeaf_forces _ _) (.inl rfl)
  · obtain ⟨current, run, starts⟩ := leafStart (p := p) nonempty
    have climb := climbVar_forces_iff (p := p) index v.path current
    rw [← leafStart_forces_iff v.path run starts] at climb
    simp only [starts, exists_and_left, exists_eq_left] at climb
    rw [or_iff_right nonempty, ← climb]
    rfl

theorem leafCheckBound_iff (v : MerkleTreePathVar F D) (leaf : List (UInt8Var F D))
    (index : List (Wire F D .bool)) : LeafCheckBound p v leaf index ↔
      leaf = [] ∨ v.path = [] ∨ ¬ ∃ z siblings, Carries z v.path siblings := by
  have hashFirst (root : Wire F D .field) :
      v.checkPathFromLeaf (hashInnerNodeVar p) p root leaf index = (do
        let currentHash ← hashLeafVar p leaf
        let w ← MerkleTreePathVar.climbVar (hashInnerNodeVar p) index v.path currentHash
        Synth.conditionalEnforceEqual root w (.constant true)) := bind_assoc _ _ _
  simp only [LeafCheckBound, hashFirst]
  by_cases nonempty : leaf = []
  · subst nonempty
    exact iff_of_true (fun root z siblings _ => emptyLeaf_forces _ _) (.inl rfl)
  · obtain ⟨current, run, starts⟩ := leafStart (p := p) nonempty
    have climb := climbVar_check_iff (p := p) index v.path current
    have start (root : Wire F D .field) := leafStart_forces_iff v.path run starts
      (fun currentHash => do
        let w ← MerkleTreePathVar.climbVar (hashInnerNodeVar p) index v.path currentHash
        Synth.conditionalEnforceEqual root w (.constant true))
      (fun z digest siblings _ => ClimbsTo p z index digest siblings (root.eval z))
    rw [← forall_congr' start] at climb
    simp only [starts, exists_and_left, exists_eq_left] at climb
    rw [or_iff_right nonempty, ← climb]
    rfl

/-- The gadgets force the native root exactly where the path has no level to climb, or where
no assignment gives the wires digests. -/
theorem pathGadgets_bound_iff (p : Poseidon F) (v : MerkleTreePathVar F D)
    (leaf : List (UInt8Var F D)) (node : Wire F D .field) (index : List (Wire F D .bool)) :
    (LeafRootBound p v leaf index ↔
      leaf = [] ∨ v.path = [] ∨ ¬ ∃ z siblings, Carries z v.path siblings) ∧
    (LeafCheckBound p v leaf index ↔
      leaf = [] ∨ v.path = [] ∨ ¬ ∃ z siblings, Carries z v.path siblings) ∧
    (NodeRootBound p v node index ↔
      v.path = [] ∨ ¬ ∃ z digest siblings, Carries z (node :: v.path) (digest :: siblings)) ∧
    (NodeCheckBound p v node index ↔
      v.path = [] ∨ ¬ ∃ z digest siblings, Carries z (node :: v.path) (digest :: siblings)) :=
  ⟨leafRootBound_iff v leaf index, leafCheckBound_iff v leaf index,
    nodeRootBound_iff v node index, nodeCheckBound_iff v node index⟩

end Facts

/-- A path of one level and a digest, both witnessed, and an index bit. -/
def oneLevel : MerkleTreePathVar Bls12381Fr Unit := ⟨[.var .field 1]⟩

def zeroDigest : InnerHash := List.Vector.replicate innerHashSize 0

/-- Every variable is zero, but the one that the level allocates. -/
def forged : Assignment Bls12381Fr Unit
  | .field, i => if i < 3 then 0 else 1
  | .bool, _ => false
  | .digest, _ => ()
  | .fields, _ => []

/-- The root 1 is accepted where the path hashes to 0. -/
theorem forgedRoot_accepted : ¬ NodeCheckBound linearPoseidon oneLevel (.var .field 0)
    [.var .bool 2] := by
  intro bound
  have carries : Carries forged (.var .field 0 :: oneLevel.path) [zeroDigest, zeroDigest] := by
    decide +kernel
  have native : MerkleTreePath.computeRoot (hashing linearPoseidon) ⟨[zeroDigest]⟩
      zeroDigest.toList [true] .internalNode = .ok zeroDigest := by
    decide +kernel
  obtain ⟨root, computed, one⟩ := bound (.constant 1) forged zeroDigest [zeroDigest] carries
    [⟨.witness, .field, 0⟩, ⟨.witness, .field, 0⟩, ⟨.witness, .bool, false⟩] () _ rfl
    (by decide +kernel)
  cases native.symm.trans computed
  exact absurd one (by decide +kernel)

end PathGadgets
