import Hekaton.InstanceScale
import Hekaton.VkdRows
import Mathlib

/-!
# Proving keys of the key directory

The classes of subcircuits are those of the types of their primitives. They are the roles in
the layout: each role has the rows of the subcircuit that the circuit lists for it. But all
paddings share the key of subcircuit 0, whose prover also makes the checks of the first leaf.
-/

namespace VkdKeys

open Outcomes Wires Synthesis Transcript PrimeFields EvalTree SubcircuitCircuit SubcircuitShapes
open KeyReuse SparseTree KeyDirectory VkdCircuits VkdGadgets VkdSubcircuits VkdTraces VkdInstances
open VkdCompleteness VkdRows
open VkdHash (Poseidon)
open TreeIndexing (subBits)

section Model
variable {F : Type} [Field F] [PrimeField F] [DecidableEq F]
variable (overflowChecks : Bool) (p : Poseidon F)

/-- `1 << log`; with overflow checks a log that is too large has stopped `random`. -/
def numSubcircuits (c : VerifiableKeyDirectoryCircuit) : Nat :=
  2 ^ (c.params.logNumSubcircuits % 64)

def getUniqueSubcircuits (c : VerifiableKeyDirectoryCircuit) : List Nat :=
  [0, 6, 7, 8, 10, 19, numSubcircuits c - 1]

def representativeSubcircuit (c : VerifiableKeyDirectoryCircuit) (subcircuitIdx : Nat) :
    Outcome Nat := do
  let subcircuit ← expect Coordinator.outOfBounds c.subcircuits[subcircuitIdx]?
  if subcircuit.getType = "padding" then .ok 0
  else if subcircuit.getType = "write pp" then .ok 6
  else if subcircuit.getType = "hash leaf, get index, compute path" then .ok 7
  else if subcircuit.getType = "compute path" then .ok 8
  else if subcircuit.getType = "compute path, equality" then .ok 10
  else if subcircuit.getType = "equality, hash leaf, compute path" then .ok 19
  else if subcircuit.getType = "equality" then .ok (numSubcircuits c - 1)
  else panicWith "shouldn't be here"

/-- The key directory as a partitioned circuit. -/
def circuit (D : Type) [Inhabited D] [DecidableEq D] (c : VerifiableKeyDirectoryCircuit) :
    CircuitWithPortals F D .rom where
  numSubcircuits := numSubcircuits c
  generateConstraints := generateConstraints p c
  getPortalSubtraces := getPortalSubtraces p overflowChecks D c
  getUniqueSubcircuits := getUniqueSubcircuits c
  representativeSubcircuit := representativeSubcircuit c

end Model

inductive Role where
  | padding
  | publicParameter
  | firstClimb
  | climb
  | lastClimb
  | newLeaf
  | finalCheck

/-- The pieces of paths that the layout climbs. -/
def Climbs (op : ComputePathPrimitive) : Prop :=
  (∃ a, op.initialValueAddr = .nodeAddressToBytes a) ∧
    (∃ b, op.finalValueAddr = .nodeAddressToBytes b) ∧ op.path.path.length = pathLength

/-- The primitives of a subcircuit of this role. -/
inductive HasRole : Role → SubCircuit → Prop
  | padding : HasRole .padding ⟨[.paddingPrimitive]⟩
  | publicParameter : HasRole .publicParameter ⟨[.writePublicParameterPrimitive]⟩
  | firstClimb {h : HashLeafPrimitive} {ind : GetIndexPrimitive} {op : ComputePathPrimitive}
      (climbs : Climbs op) : HasRole .firstClimb
        ⟨[.hashLeafPrimitive h, .getIndexPrimitive ind, .computePathPrimitive op]⟩
  | climb {op : ComputePathPrimitive} (climbs : Climbs op) :
      HasRole .climb ⟨[.computePathPrimitive op]⟩
  | lastClimb {op : ComputePathPrimitive} {k : UInt64} {a b : NodeAddress} (climbs : Climbs op) :
      HasRole .lastClimb ⟨[.computePathPrimitive op, equalityOp k a b]⟩
  | newLeaf {h : HashLeafPrimitive} {op : ComputePathPrimitive} {k : UInt64} {a b : NodeAddress}
      (climbs : Climbs op) : HasRole .newLeaf
        ⟨[equalityOp k a b, .hashLeafPrimitive h, .computePathPrimitive op]⟩
  | finalCheck {k : UInt64} {a b : NodeAddress} : HasRole .finalCheck ⟨[equalityOp k a b]⟩

/-- The subcircuit that stands for a role, of so many. -/
def Role.representative (num : Nat) : Role → Nat
  | .padding => 0
  | .publicParameter => 6
  | .firstClimb => 7
  | .climb => 8
  | .lastClimb => 10
  | .newLeaf => 19
  | .finalCheck => num - 1

def appendRoles : List Role :=
  [.firstClimb, .climb, .climb, .lastClimb, .climb, .climb, .climb, .climb]

def updateRoles : List Role :=
  [.climb, .climb, .climb, .climb, .newLeaf, .climb, .climb, .climb]

/-- The roles of an append and so many updates. -/
def roles (n : Nat) : List Role :=
  List.replicate 6 .padding ++ .publicParameter :: (appendRoles ++
    ((List.replicate n updateRoles).flatten ++ [.finalCheck]))

theorem sameKind_of_climbs {op op' : ComputePathPrimitive} (climbs : Climbs op)
    (climbs' : Climbs op') : SameKind (.computePathPrimitive op) (.computePathPrimitive op') := by
  obtain ⟨⟨a, start⟩, ⟨b, target⟩, size⟩ := climbs
  obtain ⟨⟨a', start'⟩, ⟨b', target'⟩, size'⟩ := climbs'
  exact .computePath start target start' target' (size.trans size'.symm)

/-- Subcircuits of one role do the same. -/
theorem HasRole.sameKinds {role : Role} {s s' : SubCircuit} (has : HasRole role s)
    (has' : HasRole role s') :
    List.Forall₂ SameKind s.compoundPrimitiveVec s'.compoundPrimitiveVec := by
  cases has with
  | padding =>
    cases has'
    exact .cons .padding .nil
  | publicParameter =>
    cases has'
    exact .cons .publicParameter .nil
  | firstClimb climbs =>
    cases has' with
    | firstClimb climbs' =>
      have climb := sameKind_of_climbs climbs climbs'
      exact .cons (.hashLeaf _ _) (.cons (.getIndex _ _) (.cons climb .nil))
  | climb climbs =>
    cases has' with
    | climb climbs' => exact .cons (sameKind_of_climbs climbs climbs') .nil
  | lastClimb climbs =>
    cases has' with
    | lastClimb climbs' =>
      exact .cons (sameKind_of_climbs climbs climbs') (.cons (.equality ..) .nil)
  | newLeaf climbs =>
    cases has' with
    | newLeaf climbs' =>
      have climb := sameKind_of_climbs climbs climbs'
      exact .cons (.equality ..) (.cons (.hashLeaf _ _) (.cons climb .nil))
  | finalCheck =>
    cases has'
    exact .cons (.equality ..) .nil

/-- The class of a subcircuit is its role. -/
theorem representative_eq {c : VerifiableKeyDirectoryCircuit} {idx : Nat} {role : Role}
    {s : SubCircuit} (found : c.subcircuits[idx]? = some s) (has : HasRole role s) :
    representativeSubcircuit c idx = .ok (role.representative (numSubcircuits c)) := by
  rw [representativeSubcircuit, found, expect_some, ok_bind]
  cases has <;> rfl

section Layouts
variable {idx n i : Nat}

theorem climbOp_climbs (k pathId : UInt64) (node : NodeAddress) (leaf : Leaf)
    {path : MerkleTreePath} (size : path.path.length = DEPTH) (inside : i < splitFactor) :
    Climbs (climbOp k pathId node leaf path i) := by
  obtain ⟨same, length⟩ := pieceOf_eq size inside
  refine ⟨⟨_, rfl⟩, ⟨_, rfl⟩, ?_⟩
  rw [climbOp, same]
  exact length

theorem append_roles {u : VkdAppend} (size : u.path.path.length = DEPTH) :
    List.Forall₂ HasRole appendRoles (operationLayout idx (.append u)) := by
  have old : ∀ i < splitFactor, Climbs
      (climbOp (UInt64.ofNat idx) 0 .nullLeaf (appendedLeaf u) u.path i) :=
    fun i inside => climbOp_climbs _ 0 _ _ size inside
  have new : ∀ i < splitFactor, Climbs (climbOp (UInt64.ofNat idx) 1
      (.leafHash ⟨appendedLeaf u⟩) (appendedLeaf u) u.path i) :=
    fun i inside => climbOp_climbs _ 1 _ _ size inside
  refine .cons (.firstClimb (old 0 (by decide))) ?_
  refine .cons (.climb (old 1 (by decide))) ?_
  refine .cons (.climb (old 2 (by decide))) ?_
  refine .cons (.lastClimb (old 3 (by decide))) ?_
  refine .cons (.climb (new 0 (by decide))) ?_
  refine .cons (.climb (new 1 (by decide))) ?_
  refine .cons (.climb (new 2 (by decide))) ?_
  exact .cons (.climb (new 3 (by decide))) .nil

theorem update_roles {u : VkdUpdate} (size : u.path.path.length = DEPTH) :
    List.Forall₂ HasRole updateRoles (operationLayout idx (.update u)) := by
  have old : ∀ i < splitFactor, Climbs (climbOp (UInt64.ofNat idx) 0
      (.leafHash ⟨oldLeaf u⟩) (oldLeaf u) u.path i) :=
    fun i inside => climbOp_climbs _ 0 _ _ size inside
  have new : ∀ i < splitFactor, Climbs (climbOp (UInt64.ofNat idx) 1
      (.leafHash ⟨newLeaf u⟩) (oldLeaf u) u.path i) :=
    fun i inside => climbOp_climbs _ 1 _ _ size inside
  refine .cons (.climb (old 0 (by decide))) ?_
  refine .cons (.climb (old 1 (by decide))) ?_
  refine .cons (.climb (old 2 (by decide))) ?_
  refine .cons (.climb (old 3 (by decide))) ?_
  refine .cons (.newLeaf (new 0 (by decide))) ?_
  refine .cons (.climb (new 1 (by decide))) ?_
  refine .cons (.climb (new 2 (by decide))) ?_
  exact .cons (.climb (new 3 (by decide))) .nil

theorem updates_roles {us : List VkdUpdate} (size : ∀ u ∈ us, u.path.path.length = DEPTH) :
    List.Forall₂ HasRole (List.replicate us.length updateRoles).flatten
      (operationsLayout idx (us.map .update)) := by
  induction us generalizing idx with
  | nil => exact .nil
  | cons u us ih =>
    obtain ⟨here, there⟩ := List.forall_mem_cons.mp size
    rw [List.length_cons, List.replicate_succ, List.flatten_cons, List.map_cons, operationsLayout]
    exact List.rel_append (update_roles here) (ih there)

/-- An instance has these roles in its layout. -/
theorem layout_roles {F : Type} [Field F] [PrimeField F] {p : Poseidon F} :
    List.Forall₂ HasRole (roles n) (layout (instanceUpdates p n)) := by
  obtain ⟨us, same, count, size⟩ : ∃ us : List VkdUpdate,
      (List.range n).map (instanceUpdate p) = us.map .update ∧ us.length = n ∧
        ∀ u ∈ us, u.path.path.length = DEPTH := by
    refine ⟨(List.range n).map fun i => ⟨instanceUser, UInt16.ofNat i, keyAfter i, instancePath p,
      keyAfter (i + 1)⟩, ?_, ?_, ?_⟩
    · rw [List.map_map]
      rfl
    · rw [List.length_map, List.length_range]
    · intro u member
      obtain ⟨i, _, rfl⟩ := List.mem_map.mp member
      exact instancePath_length
  have paddings : List.Forall₂ HasRole (List.replicate 6 .padding)
      (List.replicate 6 ⟨[.paddingPrimitive]⟩) :=
    .cons .padding (.cons .padding (.cons .padding (.cons .padding (.cons .padding
      (.cons .padding .nil)))))
  rw [layout, instanceUpdates, same, operationsLayout, List.append_assoc, roles, ← count]
  refine List.rel_append paddings (.cons .publicParameter ?_)
  refine List.rel_append (append_roles instancePath_length) ?_
  exact List.rel_append (updates_roles size) (.cons .finalCheck .nil)

theorem roles_length (n : Nat) : (roles n).length = 8 * (n + 2) := by
  have updates : (List.replicate n updateRoles).flatten.length = 8 * n := by
    rw [List.length_flatten, List.map_replicate, List.sum_replicate_nat, Nat.mul_comm]
    rfl
  rw [roles, List.length_append, List.length_replicate, List.length_cons, List.length_append,
    List.length_append, updates]
  change 6 + (8 + (8 * n + 1) + 1) = _
  omega

/-- The paddings are the first six. -/
theorem padding_iff : (roles n)[i]? = some .padding ↔ i < 6 := by
  rw [roles]
  constructor
  · intro found
    by_contra later
    rw [List.getElem?_append_right (by rw [List.length_replicate]; omega)] at found
    have member := List.mem_of_getElem? found
    simp [appendRoles, updateRoles, List.mem_flatten, List.mem_replicate] at member
  · intro early
    rw [List.getElem?_append_left (by rw [List.length_replicate]; exact early),
      List.getElem?_replicate, if_pos early]

/-- The final check is the last one. -/
theorem finalCheck_iff : (roles n)[i]? = some .finalCheck ↔ i = 8 * (n + 2) - 1 := by
  obtain ⟨front, split, none⟩ : ∃ front, roles n = front ++ [.finalCheck] ∧
      .finalCheck ∉ front := by
    refine ⟨List.replicate 6 .padding ++ .publicParameter :: (appendRoles ++
      (List.replicate n updateRoles).flatten), ?_, ?_⟩
    · rw [roles, List.append_assoc, List.cons_append, List.append_assoc]
    · simp [appendRoles, updateRoles, List.mem_flatten, List.mem_replicate]
  have size := roles_length n
  rw [split, List.length_append, List.length_singleton] at size
  rw [split]
  constructor
  · intro found
    by_contra other
    by_cases early : i < front.length
    · rw [List.getElem?_append_left early] at found
      exact none (List.mem_of_getElem? found)
    · have past : (front ++ [Role.finalCheck]).length ≤ i := by
        rw [List.length_append, List.length_singleton]
        omega
      rw [List.getElem?_eq_none past] at found
      cases found
  · rintro rfl
    rw [show 8 * (n + 2) - 1 = front.length by omega]
    exact List.getElem?_concat_length

/-- Each role that occurs is that of the subcircuit that stands for it. -/
theorem representative_found {role : Role} (member : role ∈ roles n) :
    (roles n)[role.representative (8 * (n + 2))]? = some role := by
  cases role with
  | padding => rfl
  | publicParameter => rfl
  | firstClimb => rfl
  | climb => rfl
  | lastClimb => rfl
  | newLeaf =>
    cases n with
    | zero => simp [roles, appendRoles] at member
    | succ n => rfl
  | finalCheck => exact finalCheck_iff.mpr rfl

end Layouts
section Sizes
variable {F D : Type} [Field F] [PrimeField F] {p : Poseidon F} {checks : Bool} {n : Nat}
variable {params : VerifiableKeyDirectoryCircuitParams} {c : VerifiableKeyDirectoryCircuit}

omit [Field F] [PrimeField F] in
theorem subBits_cases {width a b d : Nat} (less : subBits checks width a b = .ok d) :
    (b ≤ a ∧ d = a - b) ∨ (a < b ∧ d = a + 2 ^ width - b) := by
  rw [subBits] at less
  by_cases le : b ≤ a
  · rw [if_pos le] at less
    exact .inl ⟨le, (Except.ok.inj less).symm⟩
  · rw [if_neg le] at less
    cases checks with
    | true => cases less
    | false => exact .inr ⟨Nat.lt_of_not_le le, (Except.ok.inj less).symm⟩

/-- The size of an instance, whatever the shift that its parameters ask for does. -/
structure Sized (checks : Bool) (p : Poseidon F) (c : VerifiableKeyDirectoryCircuit) (n : Nat) :
    Prop where
  update : c.update = instanceUpdates p n
  subcircuits : c.subcircuits = layout (instanceUpdates p n)
  laid : vkdUpdateToSubcircuit checks c.update = .ok c.subcircuits
  capacity : n + 1 < 2 ^ 63
  apart : n ≠ 65536
  count : numSubcircuits c = 8 * (n + 2) ∨ numSubcircuits c ≤ 4 ∧ 65536 < n

theorem random_sized (generated : random checks p params = .ok c) : ∃ n, Sized checks p c n := by
  obtain ⟨n, counted, bound, capacity, rfl⟩ := random_eq_ok.mp generated
  have room : ∀ i < n, CounterRoom checks i := counterRoom_below.mpr bound
  have laid : vkdUpdateToSubcircuit checks (instanceUpdates p n) =
      .ok (layout (instanceUpdates p n)) :=
    vkdUpdateToSubcircuit_eq_ok.mpr ⟨instanceUpdates_fit room, fun _ => List.cons_ne_nil _ _, rfl⟩
  obtain ⟨subcircuits, shifted, counted⟩ := bind_eq_ok.mp counted
  obtain ⟨operations, less, counted⟩ := bind_eq_ok.mp counted
  have whole := oneShiftedLeft_ok shifted
  have count : numSubcircuits (instanceOf p params n) = subcircuits := whole.symm
  generalize params.logNumSubcircuits % 64 = j at whole
  have first := subBits_cases less
  have second := subBits_cases counted
  refine ⟨n, rfl, rfl, laid, capacity, ?_, ?_⟩
  · rintro rfl
    by_cases low : j ≤ 19
    · have small : 2 ^ j ≤ 2 ^ 19 := Nat.pow_le_pow_right (by decide) low
      interval_cases j <;> omega
    · have large : 2 ^ 20 ≤ 2 ^ j := Nat.pow_le_pow_right (by decide) (by omega)
      omega
  · rw [count]
    by_cases few : j < 4
    · interval_cases j <;> omega
    · have split := WitnessLocality.eight_mul_pow (show 3 ≤ j by omega)
      have two : 2 ≤ 2 ^ (j - 3) := Nat.le_self_pow (by omega) 2
      omega

end Sizes
section Keys
variable {F D : Type} [Field F] [PrimeField F] [DecidableEq F] [Inhabited D] [DecidableEq D]
variable {p : Poseidon F} {checks : Bool} {n i r : Nat} {gadget : TreeConfigGadget F D}
variable {c : VerifiableKeyDirectoryCircuit} {traces : List (List (TranscriptEntry F .rom))}
variable {q q' : SubcircuitWithPortalsProver F D .rom}

/-- A subcircuit has a representative with a key, and the prover of each emits the same rows. -/
def SharesKey (gadget : TreeConfigGadget F D) (checks : Bool) (p : Poseidon F)
    (c : VerifiableKeyDirectoryCircuit) (i : Nat) : Prop :=
  ∃ r, (circuit checks p D c).representativeSubcircuit i = .ok r ∧
    r ∈ (circuit checks p D c).getUniqueSubcircuits ∧ r < (circuit checks p D c).numSubcircuits ∧
    ∀ traces q q', (circuit checks p D c).getPortalSubtraces = .ok traces →
      Assigned (circuit checks p D c) traces i q → Assigned (circuit checks p D c) traces r q' →
      SameStages gadget q q'

/-- The traces of an instance are recorded where the counter does not run over. -/
theorem recorded_iff_small (sized : Sized checks p c n) :
    (∃ traces, getPortalSubtraces p checks D c = .ok traces) ↔ c.update.length ≤ 65536 := by
  have capacity := sized.capacity
  have apart := sized.apart
  have length : c.update.length = n + 1 := by
    rw [sized.update, instanceUpdates_length]
  rw [recorded_iff sized.laid (by omega), length, sized.update]
  constructor
  · intro orderly
    by_contra many
    exact InstanceScale.not_orderly (by omega) orderly
  · intro few
    exact instance_orderly (by omega)

/-- What a subcircuit of an instance and the one that stands for it have in common. -/
structure Represented (c : VerifiableKeyDirectoryCircuit) (i r : Nat) : Prop where
  representative : representativeSubcircuit c i = .ok r
  unique : r ∈ getUniqueSubcircuits c
  inside : r < numSubcircuits c
  zero : r = 0 ↔ i < 6
  kinds : ∃ s s', c.subcircuits[i]? = some s ∧ c.subcircuits[r]? = some s' ∧
    List.Forall₂ SameKind s.compoundPrimitiveVec s'.compoundPrimitiveVec
  last : c.update.length ≤ 65536 → (i = numSubcircuits c - 1 ↔ r = numSubcircuits c - 1)

omit [DecidableEq F] in
theorem role_found (sized : Sized checks p c n) {role : Role} (found : (roles n)[i]? = some role) :
    ∃ s, c.subcircuits[i]? = some s ∧ HasRole role s := by
  have all := layout_roles (n := n) (p := p)
  obtain ⟨inside, rfl⟩ := List.getElem?_eq_some_iff.mp found
  have inside' := all.length_eq ▸ inside
  refine ⟨(layout (instanceUpdates p n))[i], ?_, all.get inside inside'⟩
  rw [sized.subcircuits, List.getElem?_eq_getElem]

omit [DecidableEq F] in
theorem represented (sized : Sized checks p c n) (inside : i < numSubcircuits c) :
    ∃ r, Represented c i r := by
  have count := sized.count
  have positive : 0 < numSubcircuits c := Nat.two_pow_pos _
  have size := roles_length n
  have within : i < (roles n).length := by omega
  obtain ⟨role, here⟩ : ∃ role, (roles n)[i]? = some role := ⟨_, List.getElem?_eq_getElem within⟩
  obtain ⟨s, found, has⟩ := role_found sized here
  have paddings : i < 6 → role = .padding := fun early =>
    Option.some.inj (here.symm.trans (padding_iff.mpr early))
  -- with four subcircuits or fewer all of them are paddings
  have there : (roles n)[role.representative (numSubcircuits c)]? = some role := by
    rcases count with whole | few
    · rw [whole]
      exact representative_found (List.mem_of_getElem? here)
    · cases paddings (by omega)
      rfl
  obtain ⟨s', found', has'⟩ := role_found sized there
  refine ⟨role.representative (numSubcircuits c), representative_eq found has, ?_, ?_, ?_,
    ⟨s, s', found, found', has.sameKinds has'⟩, ?_⟩
  · cases role <;> simp [getUniqueSubcircuits, Role.representative]
  · obtain ⟨below, _⟩ := List.getElem?_eq_some_iff.mp there
    rcases count with whole | few
    · omega
    · cases paddings (by omega)
      exact positive
  · constructor
    · intro zero
      rw [zero] at there
      have padding := (padding_iff (n := n)).mpr (show 0 < 6 by decide)
      cases there.symm.trans padding
      exact padding_iff.mp here
    · intro early
      cases paddings early
      rfl
  · intro few
    rw [sized.update, instanceUpdates_length] at few
    have whole : numSubcircuits c = 8 * (n + 2) := by omega
    rw [whole] at there ⊢
    rw [← finalCheck_iff, ← finalCheck_iff, here, there]

theorem comparable_of_kinds (sized : Sized checks p c n)
    (recorded : getPortalSubtraces p checks D c = .ok traces) {s s' : SubCircuit}
    (found : c.subcircuits[i]? = some s) (found' : c.subcircuits[r]? = some s')
    (kinds : List.Forall₂ SameKind s.compoundPrimitiveVec s'.compoundPrimitiveVec)
    (assigned : Assigned (circuit checks p D c) traces i q)
    (assigned' : Assigned (circuit checks p D c) traces r q') : Comparable q q' := by
  have lengths := recorded_lengths sized.laid recorded
  have size : ∀ {j : Nat} {t : List (TranscriptEntry F .rom)} {s : SubCircuit},
      traces[j]? = some t → c.subcircuits[j]? = some s → t.length = callsOf s := by
    intro j t s traced here
    have both := congrArg (·[j]?) lengths
    simp only [List.getElem?_map, traced, here, Option.map_some] at both
    exact Option.some.inj both
  have calls := (callsOf_eq kinds).symm
  exact comparable assigned assigned' rfl (size assigned.time found)
    ((size assigned'.time found').trans calls) (generateConstraints_alike found found' kinds)

omit [PrimeField F] [Inhabited D] [DecidableEq F] [DecidableEq D] in
theorem sameStages_symm (same : SameStages gadget q q') : SameStages gadget q' q := by
  obtain ⟨vars, e₀, vars', e₀', r, e₁, r', e₁', run₀, run₀', run₁, run₁', rows₀, rows₁⟩ := same
  exact ⟨vars', e₀', vars, e₀, r', e₁', r, e₁, run₀', run₀, run₁', run₁,
    ⟨rows₀.1.symm, rows₀.2.symm⟩, ⟨rows₁.1.symm, rows₁.2.symm⟩⟩

/-- The prover of subcircuit 0 has rows that the provers of the paddings it stands for lack. -/
theorem padding_differs (lawful : gadget.Lawful) (sized : Sized checks p c n)
    (few : c.update.length ≤ 65536) (later : i ≠ 0) (padding : i < 6)
    (inside : i < numSubcircuits c) : ¬ SharesKey gadget checks p c i := by
  intro shares
  obtain ⟨traces, recorded⟩ := (recorded_iff_small (D := D) sized).mpr few
  obtain ⟨r, rep⟩ := represented sized inside
  obtain ⟨r', representative, _, _, same⟩ := shares
  cases rep.representative.symm.trans representative
  cases rep.zero.mpr padding
  obtain ⟨s, s', found, found', kinds⟩ := rep.kinds
  have size := congrArg List.length (recorded_lengths sized.laid recorded)
  rw [List.length_map, List.length_map] at size
  obtain ⟨below, _⟩ := List.getElem?_eq_some_iff.mp found
  obtain ⟨below', _⟩ := List.getElem?_eq_some_iff.mp found'
  have assigned : Assigned (circuit checks p D c) traces i _ :=
    proverOf_assigned (List.getElem?_eq_getElem (size ▸ below))
  have assigned' : Assigned (circuit checks p D c) traces 0 _ :=
    proverOf_assigned (List.getElem?_eq_getElem (size ▸ below'))
  have swapped : List.Forall₂ SameKind s'.compoundPrimitiveVec s.compoundPrimitiveVec :=
    kinds.flip.imp fun _ _ => SameKind.symm
  have comparable := comparable_of_kinds sized recorded found' found swapped assigned' assigned
  refine not_sameStages_of_first lawful comparable rfl later assigned'.isSome assigned.isSome ?_
    (sameStages_symm (same traces _ _ recorded assigned assigned'))
  rw [assigned.isLast_iff, assigned'.isLast_iff]
  exact (rep.last few).symm

/-- Any other subcircuit has the rows of the one that stands for it. -/
theorem shares_of_first (lawful : gadget.Lawful) (sized : Sized checks p c n)
    (either : i = 0 ∨ 6 ≤ i ∨ 65536 < c.update.length) (inside : i < numSubcircuits c) :
    SharesKey gadget checks p c i := by
  obtain ⟨r, rep⟩ := represented sized inside
  obtain ⟨s, s', found, found', kinds⟩ := rep.kinds
  refine ⟨r, rep.representative, rep.unique, rep.inside, ?_⟩
  intro traces q q' recorded assigned assigned'
  have few := (recorded_iff_small sized).mp ⟨traces, recorded⟩
  have zero := rep.zero
  have comparable := comparable_of_kinds sized recorded found found' kinds assigned assigned'
  refine same_of_alike lawful assigned assigned' comparable ?_ (rep.last few)
  omega

/-- In a generated instance every subcircuit shares the key of its representative but for
the paddings after the first one, whose representative is subcircuit 0. -/
theorem sharesKey_iff (lawful : gadget.Lawful)
    {params : VerifiableKeyDirectoryCircuitParams} (generated : random checks p params = .ok c)
    (inside : i < (circuit checks p D c).numSubcircuits) :
    SharesKey gadget checks p c i ↔ i = 0 ∨ 6 ≤ i ∨ 65536 < c.update.length := by
  obtain ⟨n, sized⟩ := random_sized generated
  constructor
  · intro shares
    by_contra neither
    exact padding_differs lawful sized (by omega) (by omega) (by omega) inside shares
  · intro either
    exact shares_of_first lawful sized either inside

end Keys

abbrev thirtyTwo : VerifiableKeyDirectoryCircuit :=
  instanceOf linearPoseidon ⟨5, nullLeaf linearPoseidon⟩ 2

theorem thirtyTwo_generated :
    random true linearPoseidon ⟨5, nullLeaf linearPoseidon⟩ = .ok thirtyTwo :=
  random_eq_ok.mpr ⟨2, rfl, fun _ => by decide, by decide, rfl⟩

/-- The final check of a recorded instance has a key of its own. -/
theorem finalCheck_sharesKey :
    SharesKey (freeGadget Bls12381Fr) true linearPoseidon thirtyTwo 31 ∧
    ∃ traces, getPortalSubtraces linearPoseidon true (FreeDigest Bls12381Fr) thirtyTwo =
      .ok traces := by
  constructor
  · refine (sharesKey_iff (pathGadget_lawful _ _) thirtyTwo_generated (by decide)).mpr ?_
    exact .inr (.inl (by decide))
  · obtain ⟨n, sized⟩ := random_sized thirtyTwo_generated
    refine (recorded_iff_small sized).mpr ?_
    change (instanceUpdates linearPoseidon 2).length ≤ 65536
    rw [instanceUpdates_length]
    decide

/-- The second padding has the key of subcircuit 0, but not its rows. -/
theorem secondPadding_differs :
    random true linearPoseidon ⟨5, nullLeaf linearPoseidon⟩ = .ok thirtyTwo ∧
    representativeSubcircuit thirtyTwo 1 = .ok 0 ∧
    ¬ SharesKey (freeGadget Bls12381Fr) true linearPoseidon thirtyTwo 1 := by
  obtain ⟨n, sized⟩ := random_sized thirtyTwo_generated
  refine ⟨thirtyTwo_generated, rfl, ?_⟩
  refine padding_differs (pathGadget_lawful _ _) sized ?_ (by decide) (by decide) (by decide)
  change (instanceUpdates linearPoseidon 2).length ≤ 65536
  rw [instanceUpdates_length]
  decide

end VkdKeys
