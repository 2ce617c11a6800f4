import Hekaton.TreeIndexing
import Hekaton.VkdSubcircuits

/-!
# Generated instances of the key directory

The instance of given parameters has one user beside the genesis user: it is appended once
and then updated, so often that the subcircuits are as many as the parameters say. Nothing in
it is random. It is generated where the counter of two bytes does not run over, or overflows
are not checked, and where there are at least sixteen subcircuits.
-/

namespace VkdInstances

open Outcomes VkdHash SparseTree VkdCircuits KeyDirectory VkdGadgets VkdSubcircuits MerkleTrees
open SparseMerkleTrees TreeIndexing Function

section Model
variable {F : Type} [Field F] [PrimeFields.PrimeField F]
variable (overflowChecks : Bool) (p : Poseidon F)

/-- `1 << n` in a `usize`. -/
def oneShiftedLeft (n : Nat) : Outcome Nat :=
  if overflowChecks ∧ 64 ≤ n then panicWith "attempt to shift left with overflow"
  else .ok (2 ^ (n % 64))

def numOfUpdates (params : VerifiableKeyDirectoryCircuitParams) : Outcome Nat := do
  let subcircuits ← oneShiftedLeft overflowChecks params.logNumSubcircuits
  let operations ← subBits overflowChecks 64 subcircuits 8
  subBits overflowChecks 64 (operations / 8) 1

def genesisUser : Username := byteArray 32 0

def instanceUser : Username := byteArray 32 8

/-- The tree, the users with their counters and keys, and the updates so far. -/
structure InstanceState where
  tree : SparseMerkleTree
  users : Username → Option (Counter × Key)
  updates : List Update

/-- A vector never has more than `isize::MAX` bytes. -/
def pushUpdate (updates : List Update) (u : Update) : Outcome (List Update) :=
  if updates.length + 1 < 2 ^ 63 then .ok (updates ++ [u]) else panicWith "capacity overflow"

def insertUser (tree : SparseMerkleTree) (username : Username) (key : Key) (counter : Counter) :
    Outcome SparseMerkleTree := do
  let index ← userIndex p username
  tree.insert (hashing p) index (concat username key counter) .leaf

def genesisState : Outcome InstanceState := do
  let tree ← insertUser p (.new (hashing p) DEPTH) genesisUser (byteArray 32 0) 0
  .ok ⟨tree, update (fun _ => none) genesisUser (some (0, byteArray 32 0)), []⟩

/-- The first operation. -/
def appendUser (s : InstanceState) : Outcome InstanceState := do
  let key := byteArray 32 0
  let index ← userIndex p instanceUser
  let path ← s.tree.lookupPath index
  let tree ← s.tree.insert (hashing p) index (concat instanceUser key 0) .leaf
  let updates ← pushUpdate s.updates (.append ⟨instanceUser, key, path⟩)
  .ok ⟨tree, update s.users instanceUser (some (0, key)), updates⟩

def updateUser (count : Nat) (s : InstanceState) (i : Nat) : Outcome InstanceState :=
  if i < count then do
    let entry ← expect unwrapNone (s.users instanceUser)
    let index ← userIndex p instanceUser
    let path ← s.tree.lookupPath index
    let key2 := byteArray 32 (UInt8.ofNat (i % 256))
    let newCounter ← nextCounter overflowChecks entry.1
    let tree ← s.tree.insert (hashing p) index (concat instanceUser key2 newCounter) .leaf
    let updates ← pushUpdate s.updates (.update ⟨instanceUser, entry.1, entry.2, path, key2⟩)
    .ok ⟨tree, update s.users instanceUser (some (newCounter, key2)), updates⟩
  else .ok s

/-- `VerifiableKeyDirectoryCircuit::random`. -/
def random (params : VerifiableKeyDirectoryCircuitParams) :
    Outcome VerifiableKeyDirectoryCircuit := do
  let genesis ← genesisState p
  let count ← numOfUpdates overflowChecks params
  let appended ← appendUser p genesis
  let rounds ← addBits overflowChecks 64 count 0
  let last ← (List.range rounds).foldlM (updateUser overflowChecks p count) appended
  let subcircuits ← vkdUpdateToSubcircuit overflowChecks last.updates
  .ok ⟨genesis.tree.root, params, last.tree.root, last.updates, subcircuits⟩

/-- The key after so many updates. -/
def keyAfter : Nat → Key
  | 0 => byteArray 32 0
  | n + 1 => byteArray 32 (UInt8.ofNat (n % 256))

/-- The leaves with the genesis user only. -/
def genesisLeaves : MerkleIndex → Option (List UInt8) :=
  update (fun _ => none) ⟨indexOf p genesisUser, DEPTH⟩
    (some (concat genesisUser (byteArray 32 0) 0))

/-- The leaves after the append and so many updates. -/
def leavesAfter (n : Nat) : MerkleIndex → Option (List UInt8) :=
  update (genesisLeaves p) ⟨indexOf p instanceUser, DEPTH⟩
    (some (concat instanceUser (keyAfter n) (UInt16.ofNat n)))

def digestsOf (leaves : MerkleIndex → Option (List UInt8)) (i : Nat) : InnerHash :=
  hashLeaf p ((leaves ⟨i, DEPTH⟩).getD initialLeafValue)

/-- The root of the tree with these leaves. -/
def rootOf (leaves : MerkleIndex → Option (List UInt8)) : InnerHash :=
  node (hashInnerNode p) (digestsOf p leaves) DEPTH 0

/-- The path of the user, which no operation changes. -/
def instancePath : MerkleTreePath :=
  ⟨siblings (hashInnerNode p) DEPTH (digestsOf p (genesisLeaves p)) (indexOf p instanceUser)⟩

def instanceUpdate (n : Nat) : Update :=
  .update ⟨instanceUser, UInt16.ofNat n, keyAfter n, instancePath p, keyAfter (n + 1)⟩

/-- The append and so many updates. -/
def instanceUpdates (n : Nat) : List Update :=
  .append ⟨instanceUser, byteArray 32 0, instancePath p⟩ :: (List.range n).map (instanceUpdate p)

end Model

section Facts
variable {F : Type} [Field F] [PrimeFields.PrimeField F] {p : Poseidon F} {checks : Bool}
variable {t : SparseMerkleTree} {s s' : InstanceState} {n : Nat}

theorem root_of_leaves {leaves : MerkleIndex → Option (List UInt8)}
    (represents : Represents (hashing p) DEPTH t) (stored : t.leaves = leaves) :
    t.root = rootOf p leaves := by
  subst stored
  exact represents.root

/-- The user's path is the same in every tree whose other leaves are those of genesis. -/
theorem lookup_instancePath (represents : Represents (hashing p) DEPTH t)
    (others : ∀ i, i ≠ indexOf p instanceUser → t.leaves ⟨i, DEPTH⟩ = genesisLeaves p ⟨i, DEPTH⟩) :
    t.lookupPath ⟨indexOf p instanceUser, DEPTH⟩ = .ok (instancePath p) := by
  rw [lookupPath_eq represents (indexOf_lt instanceUser), instancePath]
  have same : siblings (hashInnerNode p) DEPTH (leafDigest (hashing p) DEPTH t)
      (indexOf p instanceUser) = siblings (hashInnerNode p) DEPTH (digestsOf p (genesisLeaves p))
      (indexOf p instanceUser) := by
    apply siblings_congr
    intro j other
    rw [leafDigest, digestsOf, others j other]
    rfl
  exact congrArg (fun path => Except.ok (MerkleTreePath.mk path)) same

/-- Along the user's path each such tree's root is computed from its leaf. -/
theorem climb_instancePath {leaves : MerkleIndex → Option (List UInt8)}
    (others : ∀ i, i ≠ indexOf p instanceUser → leaves ⟨i, DEPTH⟩ = genesisLeaves p ⟨i, DEPTH⟩) :
    climb (hashInnerNode p) (levelsOf (indexOf p instanceUser) (instancePath p).path)
      (digestsOf p leaves (indexOf p instanceUser)) = rootOf p leaves := by
  have same : siblings (hashInnerNode p) DEPTH (digestsOf p (genesisLeaves p))
      (indexOf p instanceUser) =
      siblings (hashInnerNode p) DEPTH (digestsOf p leaves) (indexOf p instanceUser) := by
    apply siblings_congr
    intro j other
    rw [digestsOf, digestsOf, others j other]
  rw [instancePath, same, climb_siblings _ (indexOf_lt instanceUser), root_eq_node, rootOf]

theorem leavesAfter_of_ne {i : Nat} (other : i ≠ indexOf p instanceUser) :
    leavesAfter p n ⟨i, DEPTH⟩ = genesisLeaves p ⟨i, DEPTH⟩ := by
  apply update_of_ne
  rintro ⟨⟩
  exact other rfl

theorem genesisState_eq : ∃ s, genesisState p = .ok s ∧ Represents (hashing p) DEPTH s.tree ∧
    s.tree.leaves = genesisLeaves p ∧ s.updates = [] := by
  obtain ⟨t, inserted, stored, represents⟩ := insert_represents
    (represents_new (hashing p) DEPTH) (indexOf_lt (p := p) genesisUser)
    (concat genesisUser (byteArray 32 0) 0)
  refine ⟨⟨t, update (fun _ => none) genesisUser (some (0, byteArray 32 0)), []⟩, ?_, represents,
    stored, rfl⟩
  rw [genesisState, insertUser, userIndex_eq, ok_bind, inserted, ok_bind]

/-- The state after the append and so many updates. -/
structure After (p : Poseidon F) (n : Nat) (s : InstanceState) : Prop where
  represents : Represents (hashing p) DEPTH s.tree
  leaves : s.tree.leaves = leavesAfter p n
  user : s.users instanceUser = some (UInt16.ofNat n, keyAfter n)
  updates : s.updates = instanceUpdates p n

theorem appendUser_eq (represents : Represents (hashing p) DEPTH s.tree)
    (leaves : s.tree.leaves = genesisLeaves p) (first : s.updates = []) :
    ∃ s', appendUser p s = .ok s' ∧ After p 0 s' := by
  have looked := lookup_instancePath represents fun i _ => congrFun leaves ⟨i, DEPTH⟩
  obtain ⟨t, inserted, stored, represents'⟩ := insert_represents represents
    (indexOf_lt (p := p) instanceUser) (concat instanceUser (byteArray 32 0) 0)
  have pushed : pushUpdate s.updates (.append ⟨instanceUser, byteArray 32 0, instancePath p⟩) =
      .ok (instanceUpdates p 0) := by
    rw [first]
    rfl
  refine ⟨⟨t, update s.users instanceUser (some (0, byteArray 32 0)), instanceUpdates p 0⟩, ?_,
    represents', ?_, ?_, rfl⟩
  · rw [appendUser, userIndex_eq, ok_bind, looked, ok_bind, inserted, ok_bind, pushed]
    rfl
  · change t.leaves = _
    rw [stored, leaves]
    rfl
  · exact update_self instanceUser _ s.users

theorem instanceUpdates_length (n : Nat) : (instanceUpdates p n).length = n + 1 := by
  rw [instanceUpdates, List.length_cons, List.length_map, List.length_range]

theorem instanceUpdates_succ (n : Nat) :
    instanceUpdates p (n + 1) = instanceUpdates p n ++ [instanceUpdate p n] := by
  rw [instanceUpdates, List.range_succ, List.map_append, instanceUpdates]
  rfl

/-- The counter has room for one more update. -/
def CounterRoom (checks : Bool) (n : Nat) : Prop := checks = true → UInt16.ofNat n ≠ 65535

theorem nextCounter_room {next : Counter} : nextCounter checks (UInt16.ofNat n) = .ok next ↔
    CounterRoom checks n ∧ UInt16.ofNat (n + 1) = next := by
  rw [nextCounter_eq_ok, CounterRoom, UInt16.ofNat_add]
  rfl

/-- Every counter below has room exactly where the last one is no more than the largest. -/
theorem counterRoom_below : (∀ m < n, CounterRoom checks m) ↔ (checks = true → n ≤ 65535) := by
  constructor
  · intro room checked
    by_contra high
    exact room 65535 (by omega) checked rfl
  · intro bound m below checked same
    have small : m < 65535 := Nat.lt_of_lt_of_le below (bound checked)
    have number := congrArg UInt16.toNat same
    rw [UInt16.toNat_ofNat_of_lt' (by change m < 65536; omega)] at number
    exact absurd number (Nat.ne_of_lt small)

/-- An update goes through where the counter and the vector have room for it. -/
theorem updateUser_ok {count : Nat} (inside : n < count) (after : After p n s)
    (room : CounterRoom checks n) (capacity : n + 2 < 2 ^ 63) :
    ∃ s', updateUser checks p count s n = .ok s' ∧ After p (n + 1) s' := by
  have looked := lookup_instancePath after.represents fun i other => by
    rw [after.leaves, leavesAfter_of_ne other]
  obtain ⟨t, inserted, stored, represents⟩ := insert_represents after.represents
    (indexOf_lt (p := p) instanceUser) (concat instanceUser (keyAfter (n + 1)) (UInt16.ofNat (n + 1)))
  have next := (nextCounter_room).mpr ⟨room, rfl⟩
  have pushed : pushUpdate s.updates (instanceUpdate p n) = .ok (instanceUpdates p (n + 1)) := by
    rw [pushUpdate, after.updates, instanceUpdates_length, if_pos capacity, instanceUpdates_succ]
  refine ⟨⟨t, update s.users instanceUser (some (UInt16.ofNat (n + 1), keyAfter (n + 1))),
    instanceUpdates p (n + 1)⟩, ?_, represents, ?_, ?_, rfl⟩
  · rw [updateUser, if_pos inside, after.user, expect_some, ok_bind, userIndex_eq, ok_bind, looked,
      ok_bind, next, ok_bind]
    refine bind_eq_ok.mpr ⟨t, inserted, ?_⟩
    exact bind_eq_ok.mpr ⟨_, pushed, rfl⟩
  · change t.leaves = _
    rw [stored, after.leaves, leavesAfter, update_idem, leavesAfter]
  · exact update_self instanceUser _ s.users

theorem room_of_updateUser {count : Nat} (inside : n < count) (after : After p n s)
    (ran : updateUser checks p count s n = .ok s') :
    CounterRoom checks n ∧ n + 2 < 2 ^ 63 := by
  rw [updateUser, if_pos inside, after.user, expect_some, ok_bind, userIndex_eq, ok_bind] at ran
  obtain ⟨path, _, ran⟩ := bind_eq_ok.mp ran
  obtain ⟨next, counted, ran⟩ := bind_eq_ok.mp ran
  obtain ⟨t, _, ran⟩ := bind_eq_ok.mp ran
  obtain ⟨updates, pushed, _⟩ := bind_eq_ok.mp ran
  refine ⟨(nextCounter_room.mp counted).1, ?_⟩
  by_contra full
  rw [pushUpdate, after.updates, instanceUpdates_length, if_neg full] at pushed
  cases pushed

/-- The rounds go through where each has room. -/
theorem rounds_ok {count : Nat} (after : After p 0 s) {m : Nat} (most : m ≤ count)
    (room : ∀ n < m, CounterRoom checks n) (capacity : m + 1 < 2 ^ 63) :
    ∃ s', (List.range m).foldlM (updateUser checks p count) s = .ok s' ∧ After p m s' := by
  induction m with
  | zero => exact ⟨s, rfl, after⟩
  | succ m ih =>
    obtain ⟨s₁, ran, after₁⟩ := ih (Nat.le_of_succ_le most)
      (fun n below => room n (Nat.lt_succ_of_lt below)) (by omega)
    obtain ⟨s₂, step, after₂⟩ := updateUser_ok most after₁ (room m (Nat.lt_succ_self m)) capacity
    refine ⟨s₂, ?_, after₂⟩
    rw [List.range_succ, List.foldlM_append, ran, ok_bind, List.foldlM_cons]
    exact bind_eq_ok.mpr ⟨s₂, step, rfl⟩

theorem room_of_rounds {count : Nat} (after : After p 0 s) {m : Nat} (most : m ≤ count)
    (ran : (List.range m).foldlM (updateUser checks p count) s = .ok s') :
    (∀ n < m, CounterRoom checks n) ∧ m + 1 < 2 ^ 63 := by
  induction m generalizing s' with
  | zero => exact ⟨fun n below => absurd below (Nat.not_lt_zero n), by decide⟩
  | succ m ih =>
    rw [List.range_succ, List.foldlM_append] at ran
    obtain ⟨s₁, before, ran⟩ := bind_eq_ok.mp ran
    obtain ⟨s₂, step, _⟩ := bind_eq_ok.mp ran
    obtain ⟨room, capacity⟩ := ih (Nat.le_of_succ_le most) before
    obtain ⟨s₃, again, after₁⟩ := rounds_ok after (Nat.le_of_succ_le most) room capacity
    cases before.symm.trans again
    obtain ⟨here, capacity'⟩ := room_of_updateUser most after₁ step
    refine ⟨fun n below => ?_, capacity'⟩
    rcases Nat.lt_succ_iff_lt_or_eq.mp below with earlier | rfl
    · exact room n earlier
    · exact here

/-- The instance with so many updates. -/
def instanceOf (p : Poseidon F) (params : VerifiableKeyDirectoryCircuitParams) (n : Nat) :
    VerifiableKeyDirectoryCircuit :=
  ⟨rootOf p (genesisLeaves p), params, rootOf p (leavesAfter p n), instanceUpdates p n,
    layout (instanceUpdates p n)⟩

theorem instanceUpdates_fit (room : ∀ m < n, CounterRoom checks m) :
    ∀ u ∈ instanceUpdates p n, u.CounterFits checks := by
  refine List.forall_mem_cons.mpr ⟨trivial, fun u member => ?_⟩
  obtain ⟨m, below, rfl⟩ := List.mem_map.mp member
  exact room m (List.mem_range.mp below)

theorem subBits_lt {width a b n : Nat} (small : a < 2 ^ width)
    (subtracted : subBits checks width a b = .ok n) : n < 2 ^ width := by
  rw [subBits] at subtracted
  by_cases le : b ≤ a
  · rw [if_pos le] at subtracted
    cases subtracted
    omega
  · rw [if_neg le] at subtracted
    by_cases checked : checks = true
    · rw [if_pos checked] at subtracted
      cases subtracted
    · rw [if_neg checked] at subtracted
      cases subtracted
      omega

theorem oneShiftedLeft_ok {k : Nat} (shifted : oneShiftedLeft checks k = .ok n) :
    n = 2 ^ (k % 64) := by
  rw [oneShiftedLeft] at shifted
  by_cases refused : checks = true ∧ 64 ≤ k
  · rw [if_pos refused] at shifted
    cases shifted
  · rw [if_neg refused] at shifted
    exact (Except.ok.inj shifted).symm

theorem numOfUpdates_lt {params : VerifiableKeyDirectoryCircuitParams}
    (counted : numOfUpdates checks params = .ok n) : n < 2 ^ 64 := by
  obtain ⟨subcircuits, shifted, counted⟩ := bind_eq_ok.mp counted
  obtain ⟨operations, less, counted⟩ := bind_eq_ok.mp counted
  have small : subcircuits < 2 ^ 64 := by
    rw [oneShiftedLeft_ok shifted]
    exact Nat.pow_lt_pow_right (by decide) (Nat.mod_lt _ (by decide))
  have below := subBits_lt small less
  exact subBits_lt (Nat.lt_of_le_of_lt (Nat.div_le_self ..) below) counted

/-- What is generated, and where. -/
theorem random_eq_ok {params : VerifiableKeyDirectoryCircuitParams}
    {c : VerifiableKeyDirectoryCircuit} : random checks p params = .ok c ↔
      ∃ n, numOfUpdates checks params = .ok n ∧ (checks = true → n ≤ 65535) ∧ n + 1 < 2 ^ 63 ∧
        c = instanceOf p params n := by
  obtain ⟨s, generated, represents, leaves, none⟩ := genesisState_eq (p := p)
  obtain ⟨s₀, appended, after₀⟩ := appendUser_eq represents leaves none
  rw [random, generated, ok_bind]
  constructor
  · intro ran
    obtain ⟨n, counted, ran⟩ := bind_eq_ok.mp ran
    rw [appended, ok_bind, addBits_eq (show n + 0 < 2 ^ 64 from numOfUpdates_lt counted),
      ok_bind] at ran
    obtain ⟨last, rounds, ran⟩ := bind_eq_ok.mp ran
    obtain ⟨subcircuits, laid, same⟩ := bind_eq_ok.mp ran
    cases same
    obtain ⟨room, capacity⟩ := room_of_rounds after₀ (Nat.le_refl n) rounds
    obtain ⟨last', again, after⟩ := rounds_ok after₀ (Nat.le_refl n) room capacity
    cases rounds.symm.trans again
    refine ⟨n, counted, counterRoom_below.mp room, capacity, ?_⟩
    obtain ⟨_, _, rfl⟩ := vkdUpdateToSubcircuit_eq_ok.mp laid
    rw [instanceOf, root_of_leaves represents leaves, root_of_leaves after.represents after.leaves,
      after.updates]
  · rintro ⟨n, counted, bound, capacity, rfl⟩
    have room := counterRoom_below.mpr bound
    obtain ⟨last, rounds, after⟩ := rounds_ok after₀ (Nat.le_refl n) room capacity
    have laid : vkdUpdateToSubcircuit checks last.updates = .ok (layout (instanceUpdates p n)) := by
      rw [after.updates]
      exact vkdUpdateToSubcircuit_eq_ok.mpr
        ⟨instanceUpdates_fit room, fun _ => List.cons_ne_nil _ _, rfl⟩
    rw [counted, ok_bind, appended, ok_bind, addBits_eq (show n + 0 < 2 ^ 64 by omega), ok_bind,
      Nat.add_zero, rounds, ok_bind, laid, ok_bind, instanceOf,
      root_of_leaves represents leaves, root_of_leaves after.represents after.leaves, after.updates]

theorem instancePath_length : (instancePath p).path.length = DEPTH := length_siblings ..

theorem startDigest_instance (pp : InnerHash) (n : Nat) : startDigest p pp (instanceUpdate p n) =
    digestsOf p (leavesAfter p n) (indexOf p instanceUser) := by
  rw [digestsOf, leavesAfter, update_self]
  rfl

/-- Each update leads from the tree before it to the tree after it. -/
theorem updates_accepted (pp : InnerHash) {m : Nat}
    (room : ∀ i < n + m, CounterRoom checks i) : Accepts checks p pp (rootOf p (leavesAfter p n))
      ((List.range' n m).map (instanceUpdate p)) (rootOf p (leavesAfter p (n + m))) := by
  induction m generalizing n with
  | zero => exact rfl
  | succ m ih =>
    have same : ∀ i, i ≠ indexOf p instanceUser → ∀ n,
        leavesAfter p n ⟨i, DEPTH⟩ = genesisLeaves p ⟨i, DEPTH⟩ :=
      fun i other n => leavesAfter_of_ne other
    have after : hashLeaf p (instanceUpdate p n).leaf =
        digestsOf p (leavesAfter p (n + 1)) (indexOf p instanceUser) := by
      rw [digestsOf, leavesAfter, update_self]
      exact congrArg (fun next => hashLeaf p (concat instanceUser (keyAfter (n + 1)) next))
        (UInt16.ofNat_add n 1).symm
    have next : n + (m + 1) = n + 1 + m := by omega
    rw [next] at room ⊢
    rw [List.range'_succ, List.map_cons]
    refine ⟨le_of_eq instancePath_length, room n (by omega), ?_, ?_⟩
    · rw [startDigest_instance]
      exact climb_instancePath fun i other => same i other n
    · rw [after]
      change Accepts checks p pp (climb (hashInnerNode p) (levelsOf (indexOf p instanceUser)
        (instancePath p).path) _) _ _
      rw [climb_instancePath fun i other => same i other (n + 1)]
      exact ih room

/-- What is generated is accepted, where the two users have different indices. -/
theorem instance_accepted (apart : indexOf p genesisUser ≠ indexOf p instanceUser)
    (room : ∀ i < n, CounterRoom checks i) : Accepts checks p (nullLeaf p)
      (rootOf p (genesisLeaves p)) (instanceUpdates p n) (rootOf p (leavesAfter p n)) := by
  have free : nullLeaf p = digestsOf p (genesisLeaves p) (indexOf p instanceUser) := by
    have other : (⟨indexOf p instanceUser, DEPTH⟩ : MerkleIndex) ≠ ⟨indexOf p genesisUser, DEPTH⟩ := by
      rintro same
      exact apart (MerkleIndex.mk.inj same).1.symm
    rw [digestsOf, genesisLeaves, update_of_ne other]
    rfl
  have after : hashLeaf p (concat instanceUser (byteArray 32 0) 0) =
      digestsOf p (leavesAfter p 0) (indexOf p instanceUser) := by
    rw [digestsOf, leavesAfter, update_self]
    rfl
  refine ⟨le_of_eq instancePath_length, trivial, ?_, ?_⟩
  · change climb (hashInnerNode p) (levelsOf (indexOf p instanceUser) (instancePath p).path)
      (nullLeaf p) = _
    rw [free]
    exact climb_instancePath fun _ _ => rfl
  · change Accepts checks p (nullLeaf p) (climb (hashInnerNode p)
      (levelsOf (indexOf p instanceUser) (instancePath p).path)
      (hashLeaf p (concat instanceUser (byteArray 32 0) 0))) _ _
    rw [after, climb_instancePath fun i other => leavesAfter_of_ne other, List.range_eq_range']
    have updates := updates_accepted (p := p) (n := 0) (nullLeaf p) (by rwa [Nat.zero_add])
    rwa [Nat.zero_add] at updates

end Facts
end VkdInstances
