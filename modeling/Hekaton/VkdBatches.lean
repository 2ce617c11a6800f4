import Hekaton.VkdWires

/-!
# Batches on a store

An operation can be performed after others where the old leaf of an update was written by one
of them, its own leaf was not, and the user of an append was not appended before. A batch
goes through exactly where each of its operations can be performed after those before it; the
store then holds both roots of every operation.
-/

namespace VkdBatches

open Outcomes HonestRuns FieldGadgets VkdGadgets MirroredRuns PortalManager PrimeFields VkdHash
open SparseTree VkdCircuits KeyDirectory VkdSubcircuits VkdNames VkdTraces VkdAgreement MerkleTrees
open Function Transcript VkdWires Codecs

/-- The leaf that an operation writes. -/
def writtenLeaf : Update → Leaf
  | .update u => newLeaf u
  | .append u => appendedLeaf u

/-- The leaf whose user's index an operation climbs along. -/
def indexLeaf : Update → Leaf
  | .update u => oldLeaf u
  | .append u => appendedLeaf u

def appendedUser : Update → Option (List UInt8)
  | .update _ => none
  | .append u => some u.username.toList

/-- An operation finds the leaf it updates, and writes what is not written yet. -/
def Ready (done : List Update) : Update → Prop
  | .update u => oldLeaf u ∈ done.map writtenLeaf ∧ newLeaf u ∉ done.map writtenLeaf
  | .append u => appendedLeaf u ∉ done.map writtenLeaf ∧
      u.username.toList ∉ done.filterMap appendedUser

/-- Every piece of a path is no longer than the piece of an index. -/
def Short (path : MerkleTreePath) : Prop :=
  ∀ i < splitFactor, (pieceOf path i).path.length ≤ 32

theorem userOf_concat (username : Username) (key : Key) (counter : Counter) :
    userOf (leafArray username key counter) = username.toList := by
  have width : username.toList.length = 32 := username.toList_length
  change (concat username key counter).take 32 = _
  rw [concat, List.append_assoc, List.take_left' width]

theorem userOf_writtenLeaf (u : Update) : userOf (writtenLeaf u) = u.username.toList := by
  cases u <;> exact userOf_concat ..

section Climbs
variable {F : Type} [Field F] [PrimeField F] {p : Poseidon F} {c : VerifiableKeyDirectoryCircuit}
variable {s s' : Store} {k pathId : UInt64} {start : NodeAddress} {leaf : Leaf}
variable {path : MerkleTreePath}

/-- The number of a piece of a user's index. -/
def userPiece (p : Poseidon F) (user : List UInt8) (i : Nat) : Nat :=
  fromLittleEndian ((VkdHash.hash p user).take 16) / 2 ^ (32 * i) % 2 ^ 32

/-- Climb piece `i` of a path. -/
def climbOne (p : Poseidon F) (user : List UInt8) (path : MerkleTreePath) (i : Nat)
    (digest : InnerHash) : InnerHash :=
  climb (hashInnerNode p) (levelsOf (userPiece p user i) (pieceOf path i).path) digest

/-- Climb the four pieces of a path. -/
def climbAll (p : Poseidon F) (user : List UInt8) (path : MerkleTreePath) (digest : InnerHash) :
    InnerHash :=
  climbOne p user path 3 (climbOne p user path 2 (climbOne p user path 1
    (climbOne p user path 0 digest)))

/-- The addresses that a path of an operation writes. -/
def Owned (k pathId : UInt64) : NodeAddress → Prop
  | .pathRoot a => a.pathId = pathId ∧ a.updateIdx = k
  | .intermediateRoot a => a.pathId = pathId ∧ a.updateIdx = k
  | _ => False

def climbs (k pathId : UInt64) (start : NodeAddress) (leaf : Leaf) (path : MerkleTreePath) :
    List PrimitiveSubcircuit :=
  (List.range splitFactor).map fun i => .computePathPrimitive (climbOp k pathId start leaf path i)

/-- One node is written, and nothing else. -/
structure Writes (s : Store) (a : NodeAddress) (digest : InnerHash) (s' : Store) : Prop where
  pieces : s'.piece = s.piece
  here : s'.node a = some digest
  others : ∀ b, b ≠ a → s'.node b = s.node b

theorem setNode_ok {a : NodeAddress} (free : s.node a = none) (digest : InnerHash) :
    ∃ s', s.setNode a digest = some s' ∧ Writes s a digest s' := by
  refine ⟨⟨update s.node a (some digest), s.piece⟩, ?_, rfl, update_self .., fun b other => ?_⟩
  · rw [Store.setNode, free]
    rfl
  · exact update_of_ne other ..

theorem free_of_setNode {a : NodeAddress} {digest : InnerHash}
    (set : s.setNode a digest = some s') : s.node a = none := by
  rw [Store.setNode] at set
  cases known : s.node a with
  | none => rfl
  | some digest' =>
    rw [known] at set
    cases set

theorem step_climbOp (i : Nat) :
    s.step p c (.computePathPrimitive (climbOp k pathId start leaf path i)) =
      s.climbPiece p (nodeAddressesAt k pathId start i).1 (nodeAddressesAt k pathId start i).2
        ⟨UInt64.ofNat i, leaf⟩ (pieceOf path i) := by
  rw [Store.step, climbOp, NodeAddressBytes.bytesToNodeAddress_nodeAddressToBytes,
    NodeAddressBytes.bytesToNodeAddress_nodeAddressToBytes]
  rfl

/-- One piece, where its index and its start are known and its end is free. -/
theorem climbPiece_ok {start target : NodeAddress} {i : Nat} {digest : InnerHash}
    (index : s.piece (UInt64.ofNat i, userOf leaf) = some (userPiece p (userOf leaf) i))
    (known : s.node start = some digest) (short : (pieceOf path i).path.length ≤ 32)
    (free : s.node target = none) :
    ∃ s', s.climbPiece p start target ⟨UInt64.ofNat i, leaf⟩ (pieceOf path i) = some s' ∧
      Writes s target (climbOne p (userOf leaf) path i digest) s' := by
  rw [Store.climbPiece, index, known]
  change ∃ s', (if (pieceOf path i).path.length ≤ 32 then _ else none) = some s' ∧ _
  rw [if_pos short]
  exact setNode_ok free _

theorem of_climbPiece {start target : NodeAddress} {index : IndexAddress} {path : MerkleTreePath}
    (ran : s.climbPiece p start target index path = some s') :
    (s.piece (index.indicator, userOf index.leaf)).isSome ∧ (s.node start).isSome ∧
      path.path.length ≤ 32 := by
  rw [Store.climbPiece] at ran
  obtain ⟨n, known, ran⟩ := Option.bind_eq_some_iff.mp ran
  obtain ⟨digest, found, ran⟩ := Option.bind_eq_some_iff.mp ran
  by_cases short : path.path.length ≤ 32
  · exact ⟨by rw [known]; rfl, by rw [found]; rfl, short⟩
  · rw [if_neg short] at ran
    cases ran

def interRoot (k pathId : UInt64) (i : Nat) : NodeAddress :=
  .intermediateRoot ⟨UInt64.ofNat i, pathId, k⟩

theorem interRoot_ne {i j : Nat} (small : i < 2 ^ 64) (small' : j < 2 ^ 64) (other : i ≠ j) :
    interRoot k pathId i ≠ interRoot k pathId j := by
  intro same
  injection same with address
  injection address with numbers
  have number := congrArg UInt64.toNat numbers
  rw [UInt64.toNat_ofNat_of_lt' small, UInt64.toNat_ofNat_of_lt' small'] at number
  exact other number

/-- A whole path: its root is written, and nothing but its own addresses. -/
theorem climbs_ok {digest : InnerHash} (index : ∀ i < splitFactor,
      s.piece (UInt64.ofNat i, userOf leaf) = some (userPiece p (userOf leaf) i))
    (known : s.node start = some digest) (short : Short path)
    (free : ∀ a, Owned k pathId a → s.node a = none) :
    ∃ s', (climbs k pathId start leaf path).foldlM (Store.step p c) s = some s' ∧
      s'.piece = s.piece ∧
      s'.node (.pathRoot ⟨pathId, k⟩) = some (climbAll p (userOf leaf) path digest) ∧
      ∀ a, ¬ Owned k pathId a → s'.node a = s.node a := by
  have inter (i : Nat) : s.node (interRoot k pathId i) = none := free _ ⟨rfl, rfl⟩
  have root : s.node (.pathRoot ⟨pathId, k⟩) = none := free _ ⟨rfl, rfl⟩
  have apart (i : Nat) : NodeAddress.pathRoot ⟨pathId, k⟩ ≠ interRoot k pathId i := nofun
  have pieces : ∀ {s' : Store}, s'.piece = s.piece → ∀ i < splitFactor,
      s'.piece (UInt64.ofNat i, userOf leaf) = some (userPiece p (userOf leaf) i) :=
    fun same i inside => same ▸ index i inside
  obtain ⟨s₀, run₀, w₀⟩ := climbPiece_ok (index 0 (by decide)) known (short 0 (by decide)) (inter 0)
  have free₁ : s₀.node (interRoot k pathId 1) = none := by
    rw [w₀.others _ (interRoot_ne (by decide) (by decide) (by decide)), inter]
  have same₀ := w₀.pieces
  obtain ⟨s₁, run₁, w₁⟩ := climbPiece_ok (pieces same₀ 1 (by decide)) w₀.here (short 1 (by decide)) free₁
  have free₂ : s₁.node (interRoot k pathId 2) = none := by
    rw [w₁.others _ (interRoot_ne (by decide) (by decide) (by decide)),
      w₀.others _ (interRoot_ne (by decide) (by decide) (by decide)), inter]
  have same₁ := w₁.pieces.trans same₀
  obtain ⟨s₂, run₂, w₂⟩ := climbPiece_ok (pieces same₁ 2 (by decide)) w₁.here (short 2 (by decide)) free₂
  have free₃ : s₂.node (.pathRoot ⟨pathId, k⟩) = none := by
    rw [w₂.others _ (apart 2), w₁.others _ (apart 1), w₀.others _ (apart 0), root]
  have same₂ := w₂.pieces.trans same₁
  obtain ⟨s₃, run₃, w₃⟩ := climbPiece_ok (pieces same₂ 3 (by decide)) w₂.here (short 3 (by decide)) free₃
  refine ⟨s₃, ?_, w₃.pieces.trans same₂, w₃.here, fun a stranger => ?_⟩
  · have steps : climbs k pathId start leaf path = [.computePathPrimitive (climbOp k pathId start leaf path 0),
        .computePathPrimitive (climbOp k pathId start leaf path 1),
        .computePathPrimitive (climbOp k pathId start leaf path 2),
        .computePathPrimitive (climbOp k pathId start leaf path 3)] := rfl
    rw [steps, List.foldlM_cons, step_climbOp]
    refine Option.bind_eq_some_iff.mpr ⟨s₀, run₀, ?_⟩
    rw [List.foldlM_cons, step_climbOp]
    refine Option.bind_eq_some_iff.mpr ⟨s₁, run₁, ?_⟩
    rw [List.foldlM_cons, step_climbOp]
    refine Option.bind_eq_some_iff.mpr ⟨s₂, run₂, ?_⟩
    rw [List.foldlM_cons, step_climbOp]
    exact Option.bind_eq_some_iff.mpr ⟨s₃, run₃, rfl⟩
  · have notInter (i : Nat) : a ≠ interRoot k pathId i := by
      rintro rfl
      exact stranger ⟨rfl, rfl⟩
    have notRoot : a ≠ .pathRoot ⟨pathId, k⟩ := by
      rintro rfl
      exact stranger ⟨rfl, rfl⟩
    rw [w₃.others _ notRoot, w₂.others _ (notInter 2), w₁.others _ (notInter 1),
      w₀.others _ (notInter 0)]

omit [Field F] [PrimeField F] in
theorem steps_of_foldlM {α ι : Type} {f : α → ι → Option α} {l : List ι} {a b : α}
    (ran : l.foldlM f a = some b) : ∀ i ∈ l, ∃ a' b', f a' i = some b' := by
  induction l generalizing a with
  | nil => exact fun i member => absurd member List.not_mem_nil
  | cons i l ih =>
    rw [List.foldlM_cons] at ran
    obtain ⟨a₁, first, rest⟩ := Option.bind_eq_some_iff.mp ran
    exact List.forall_mem_cons.mpr ⟨⟨a, a₁, first⟩, ih rest⟩

theorem of_climbs (ran : (climbs k pathId start leaf path).foldlM (Store.step p c) s = some s') :
    (s.node start).isSome ∧ Short path := by
  constructor
  · obtain ⟨s₁, first, _⟩ := Option.bind_eq_some_iff.mp ran
    rw [step_climbOp] at first
    exact (of_climbPiece first).2.1
  · intro i inside
    obtain ⟨s₁, s₂, step⟩ := steps_of_foldlM ran _
      (List.mem_map.mpr ⟨i, List.mem_range.mpr inside, rfl⟩)
    rw [step_climbOp] at step
    exact (of_climbPiece step).2.2

/-- The pieces of a user's index are written where none was. -/
theorem setPieces_ok (free : ∀ i, s.piece (i, userOf leaf) = none) :
    ∃ s', s.setPieces p leaf = some s' ∧ s'.node = s.node ∧ ∀ i user, s'.piece (i, user) =
      if user = userOf leaf ∧ i.toNat < splitFactor then some (userPiece p user i.toNat)
      else s.piece (i, user) := by
  have loop : ∀ m ≤ splitFactor, ∃ s', (List.range m).foldlM (fun s i =>
      s.setPiece (UInt64.ofNat i, userOf leaf) (indexPiece p leaf i)) s = some s' ∧
      s'.node = s.node ∧ ∀ i user, s'.piece (i, user) =
        if user = userOf leaf ∧ i.toNat < m then some (userPiece p user i.toNat)
        else s.piece (i, user) := by
    intro m inside
    induction m with
    | zero =>
      refine ⟨s, rfl, rfl, fun i user => ?_⟩
      rw [if_neg fun both => absurd both.2 (Nat.not_lt_zero _)]
    | succ m ih =>
      obtain ⟨s₁, ran, nodes, pieces⟩ := ih (Nat.le_of_succ_le inside)
      have small : m < 2 ^ 64 := Nat.lt_of_lt_of_le inside (by decide)
      have number : (UInt64.ofNat m).toNat = m := UInt64.toNat_ofNat_of_lt' small
      have unset : s₁.piece (UInt64.ofNat m, userOf leaf) = none := by
        rw [pieces, if_neg (by rw [number]; exact fun both => Nat.lt_irrefl _ both.2), free]
      refine ⟨⟨s₁.node, update s₁.piece (UInt64.ofNat m, userOf leaf)
        (some (indexPiece p leaf m))⟩, ?_, nodes, fun i user => ?_⟩
      · rw [List.range_succ, List.foldlM_append]
        refine Option.bind_eq_some_iff.mpr ⟨s₁, ran, ?_⟩
        rw [List.foldlM_cons, Store.setPiece, unset]
        rfl
      · by_cases same : (i, user) = (UInt64.ofNat m, userOf leaf)
        · obtain ⟨rfl, rfl⟩ := Prod.mk.inj same
          rw [if_pos ⟨rfl, by rw [number]; exact Nat.lt_succ_self m⟩, number]
          exact update_self ..
        · refine (update_of_ne same ..).trans ((pieces i user).trans ?_)
          have before : user = userOf leaf ∧ i.toNat < m ↔
              user = userOf leaf ∧ i.toNat < m + 1 := by
            constructor
            · rintro ⟨own, below⟩
              exact ⟨own, Nat.lt_succ_of_lt below⟩
            · rintro ⟨own, below⟩
              refine ⟨own, lt_of_le_of_ne (Nat.le_of_lt_succ below) fun last => ?_⟩
              have index : i = UInt64.ofNat m := by
                rw [← last, UInt64.ofNat_toNat]
              exact same (by rw [index, own])
          simp only [before]
  exact loop splitFactor le_rfl

theorem of_setPieces (ran : s.setPieces p leaf = some s') :
    s.piece (0, userOf leaf) = none := by
  obtain ⟨s₁, first, _⟩ := Option.bind_eq_some_iff.mp ran
  cases known : s.piece (0, userOf leaf) with
  | none => rfl
  | some n =>
    change (if (s.piece (0, userOf leaf)).isSome = true then none else some _) = _ at first
    rw [known] at first
    cases first

end Climbs

section Runs
variable {F : Type} [Field F] [PrimeField F] {p : Poseidon F} {c : VerifiableKeyDirectoryCircuit}
variable {s s' : Store} {done : List Update} {u : Update}

/-- The old root that a batch computes for an operation. -/
def oldRoot (p : Poseidon F) (nullLeaf : InnerHash) (u : Update) : InnerHash :=
  climbAll p u.username.toList u.path (startDigest p nullLeaf u)

def newRoot (p : Poseidon F) (u : Update) : InnerHash :=
  climbAll p u.username.toList u.path (hashLeaf p u.leaf)

/-- What the store holds after these operations. -/
structure Held (p : Poseidon F) (c : VerifiableKeyDirectoryCircuit) (done : List Update)
    (s : Store) : Prop where
  initial : s.node .initialRoot = some c.initialRoot
  final : s.node .finalRoot = some c.finalRoot
  null : s.node .nullLeaf = some c.params.nullLeaf
  leaves : ∀ leaf, s.node (.leafHash ⟨leaf⟩) =
    if leaf ∈ done.map writtenLeaf then some (hashLeaf p leaf.toList) else none
  pieces : ∀ i user, s.piece (i, user) =
    if user ∈ done.filterMap appendedUser ∧ i.toNat < splitFactor then
      some (userPiece p user i.toNat) else none
  users : ∀ leaf ∈ done.map writtenLeaf, userOf leaf ∈ done.filterMap appendedUser
  roots : ∀ i u, done[i]? = some u →
    s.node (.pathRoot ⟨0, UInt64.ofNat i⟩) = some (oldRoot p c.params.nullLeaf u) ∧
    s.node (.pathRoot ⟨1, UInt64.ofNat i⟩) = some (newRoot p u)
  later : ∀ a k pathId, done.length ≤ k.toNat → Owned k pathId a → s.node a = none

theorem previousRoot_known (held : Held p c done s) :
    ∃ digest, s.node (previousRoot done.length) = some digest := by
  rw [previousRoot]
  by_cases first : done.length = 0
  · rw [if_pos first]
    exact ⟨_, held.initial⟩
  · rw [if_neg first]
    have inside : done.length - 1 < done.length := by omega
    exact ⟨_, (held.roots _ _ (List.getElem?_eq_getElem inside)).2⟩

theorem updatePrimitives (idx : Nat) (u : VkdUpdate) :
    (operationLayout idx (.update u)).flatMap SubCircuit.compoundPrimitiveVec =
      climbs (UInt64.ofNat idx) 0 (.leafHash ⟨oldLeaf u⟩) (oldLeaf u) u.path ++
        rootCheck idx :: .hashLeafPrimitive ⟨newLeaf u⟩ ::
          climbs (UInt64.ofNat idx) 1 (.leafHash ⟨newLeaf u⟩) (oldLeaf u) u.path := rfl

theorem appendPrimitives (idx : Nat) (u : VkdAppend) :
    (operationLayout idx (.append u)).flatMap SubCircuit.compoundPrimitiveVec =
      .hashLeafPrimitive ⟨appendedLeaf u⟩ :: .getIndexPrimitive ⟨UInt64.ofNat idx, appendedLeaf u⟩ ::
        (climbs (UInt64.ofNat idx) 0 .nullLeaf (appendedLeaf u) u.path ++
          rootCheck idx ::
            climbs (UInt64.ofNat idx) 1 (.leafHash ⟨appendedLeaf u⟩) (appendedLeaf u) u.path) := rfl

/-- A comparison of known digests changes nothing. -/
theorem step_equalityOp_ok {idx : UInt64} {a b : NodeAddress} {digest digest' : InnerHash}
    (known : s.node a = some digest) (known' : s.node b = some digest') :
    s.step p c (equalityOp idx a b) = some s := by
  rw [equalityOp, Store.step, NodeAddressBytes.bytesToNodeAddress_nodeAddressToBytes,
    NodeAddressBytes.bytesToNodeAddress_nodeAddressToBytes]
  change s.compare a b = _
  rw [Store.compare, known, known']
  rfl

/-- What an operation has written. -/
structure Performed (p : Poseidon F) (c : VerifiableKeyDirectoryCircuit) (k : UInt64) (u : Update)
    (s s' : Store) : Prop where
  others : ∀ a, ¬ Owned k 0 a → ¬ Owned k 1 a → a ≠ .leafHash ⟨writtenLeaf u⟩ →
    s'.node a = s.node a
  leaf : s'.node (.leafHash ⟨writtenLeaf u⟩) = some (hashLeaf p u.leaf)
  old : s'.node (.pathRoot ⟨0, k⟩) = some (oldRoot p c.params.nullLeaf u)
  new : s'.node (.pathRoot ⟨1, k⟩) = some (newRoot p u)
  pieces : ∀ i user, s'.piece (i, user) =
    if appendedUser u = some user ∧ i.toNat < splitFactor then some (userPiece p user i.toNat)
    else s.piece (i, user)

theorem previousRoot_not_owned (idx : Nat) (k : UInt64) : ¬ Owned k 0 (previousRoot idx) := by
  rw [previousRoot]
  by_cases first : idx = 0
  · rw [if_pos first]
    exact id
  · rw [if_neg first]
    exact fun owned => absurd (show (1 : UInt64) = 0 from owned.1) (by decide)

theorem oldRoot_not_new (k : UInt64) : ¬ Owned k 1 (.pathRoot ⟨0, k⟩) :=
  fun owned => absurd (show (0 : UInt64) = 1 from owned.1) (by decide)

theorem not_owned_both {k : UInt64} {a : NodeAddress} (owned : Owned k 1 a) : ¬ Owned k 0 a := by
  cases a with
  | pathRoot a => exact fun other => absurd (owned.1.symm.trans other.1) (by decide)
  | intermediateRoot a => exact fun other => absurd (owned.1.symm.trans other.1) (by decide)
  | _ => exact id

/-- The pieces of a user's index are known. -/
def Indexed (p : Poseidon F) (s : Store) (user : List UInt8) : Prop :=
  ∀ i < splitFactor, s.piece (UInt64.ofNat i, user) = some (userPiece p user i)

theorem Held.indexed (held : Held p c done s) {user : List UInt8}
    (known : user ∈ done.filterMap appendedUser) : Indexed p s user := by
  intro i inside
  have number : (UInt64.ofNat i).toNat = i :=
    UInt64.toNat_ofNat_of_lt' (Nat.lt_trans inside (by decide))
  rw [held.pieces, number, if_pos ⟨known, inside⟩]

/-- Both paths of an operation, around what a store gets in between. -/
theorem update_ok {idx : Nat} {u : VkdUpdate} {digest : InnerHash}
    (index : Indexed p s u.username.toList) (short : Short u.path)
    (old : s.node (.leafHash ⟨oldLeaf u⟩) = some (hashLeaf p (oldLeaf u).toList))
    (fresh : s.node (.leafHash ⟨newLeaf u⟩) = none)
    (previous : s.node (previousRoot idx) = some digest)
    (free : ∀ a pathId, Owned (UInt64.ofNat idx) pathId a → s.node a = none) :
    ∃ s', s.run p c (operationLayout idx (.update u)) = some s' ∧
      Performed p c (UInt64.ofNat idx) (.update u) s s' := by
  have user : userOf (oldLeaf u) = u.username.toList := userOf_concat ..
  rw [← user] at index
  obtain ⟨s₁, ran₁, pieces₁, root₁, others₁⟩ :=
    climbs_ok (c := c) index old short fun a owned => free a 0 owned
  have check : s₁.step p c (rootCheck idx) = some s₁ := step_equalityOp_ok root₁
    ((others₁ _ (previousRoot_not_owned idx _)).trans previous)
  obtain ⟨s₂, ran₂, w⟩ := setNode_ok (s := s₁) (a := .leafHash ⟨newLeaf u⟩)
    ((others₁ _ id).trans fresh) (hashLeaf p (newLeaf u).toList)
  have index₂ : Indexed p s₂ (userOf (oldLeaf u)) := by
    intro i inside
    rw [w.pieces, pieces₁]
    exact index i inside
  have free₂ : ∀ a, Owned (UInt64.ofNat idx) 1 a → s₂.node a = none := by
    intro a owned
    have other : a ≠ .leafHash ⟨newLeaf u⟩ := by
      rintro rfl
      exact owned
    rw [w.others a other, others₁ a (not_owned_both owned)]
    exact free a 1 owned
  obtain ⟨s₃, ran₃, pieces₃, root₃, others₃⟩ := climbs_ok (c := c) index₂ w.here short free₂
  refine ⟨s₃, ?_, ?_, ?_, ?_, ?_, ?_⟩
  · rw [Store.run, updatePrimitives, List.foldlM_append]
    refine Option.bind_eq_some_iff.mpr ⟨s₁, ran₁, ?_⟩
    rw [List.foldlM_cons]
    refine Option.bind_eq_some_iff.mpr ⟨s₁, check, ?_⟩
    rw [List.foldlM_cons]
    exact Option.bind_eq_some_iff.mpr ⟨s₂, ran₂, ran₃⟩
  · intro a notOld notNew other
    rw [others₃ a notNew, w.others a other, others₁ a notOld]
  · exact (others₃ _ id).trans w.here
  · have notLeaf : NodeAddress.pathRoot ⟨0, UInt64.ofNat idx⟩ ≠ .leafHash ⟨newLeaf u⟩ := by
      rintro ⟨⟩
    rw [others₃ _ (oldRoot_not_new _), w.others _ notLeaf, root₁, user]
    rfl
  · rw [root₃, user]
    rfl
  · intro i user
    rw [pieces₃, w.pieces, pieces₁]
    refine (if_neg ?_).symm
    rintro ⟨⟨⟩, _⟩

theorem append_ok {idx : Nat} {u : VkdAppend} {digest : InnerHash}
    (unset : ∀ i, s.piece (i, u.username.toList) = none) (short : Short u.path)
    (null : s.node .nullLeaf = some c.params.nullLeaf)
    (fresh : s.node (.leafHash ⟨appendedLeaf u⟩) = none)
    (previous : s.node (previousRoot idx) = some digest)
    (free : ∀ a pathId, Owned (UInt64.ofNat idx) pathId a → s.node a = none) :
    ∃ s', s.run p c (operationLayout idx (.append u)) = some s' ∧
      Performed p c (UInt64.ofNat idx) (.append u) s s' := by
  have user : userOf (appendedLeaf u) = u.username.toList := userOf_concat ..
  rw [← user] at unset
  obtain ⟨s₁, ran₁, w⟩ := setNode_ok fresh (hashLeaf p (appendedLeaf u).toList)
  have unset₁ : ∀ i, s₁.piece (i, userOf (appendedLeaf u)) = none := fun i => w.pieces ▸ unset i
  obtain ⟨s₂, ran₂, nodes₂, pieces₂⟩ := setPieces_ok (p := p) unset₁
  have index₂ : Indexed p s₂ (userOf (appendedLeaf u)) := by
    intro i inside
    have number : (UInt64.ofNat i).toNat = i :=
      UInt64.toNat_ofNat_of_lt' (Nat.lt_trans inside (by decide))
    rw [pieces₂, number, if_pos ⟨rfl, inside⟩]
  have before : ∀ a, a ≠ .leafHash ⟨appendedLeaf u⟩ → s₂.node a = s.node a := by
    intro a other
    rw [nodes₂, w.others a other]
  have notLeaf : ∀ {a pathId}, Owned (UInt64.ofNat idx) pathId a →
      a ≠ .leafHash ⟨appendedLeaf u⟩ := by
    rintro a pathId owned rfl
    exact owned
  have null₂ : s₂.node .nullLeaf = some c.params.nullLeaf :=
    (before .nullLeaf (by rintro ⟨⟩)).trans null
  obtain ⟨s₃, ran₃, pieces₃, root₃, others₃⟩ := climbs_ok (c := c) index₂ null₂ short
    fun a owned => (before a (notLeaf owned)).trans (free a 0 owned)
  have previous₃ : s₃.node (previousRoot idx) = some digest := by
    have notLeaf' : previousRoot idx ≠ .leafHash ⟨appendedLeaf u⟩ := by
      rw [previousRoot]
      split <;> rintro ⟨⟩
    rw [others₃ _ (previousRoot_not_owned idx _), before _ notLeaf', previous]
  have check : s₃.step p c (rootCheck idx) = some s₃ := step_equalityOp_ok root₃ previous₃
  have leaf₃ : s₃.node (.leafHash ⟨appendedLeaf u⟩) =
      some (hashLeaf p (appendedLeaf u).toList) := by
    rw [others₃ _ id, nodes₂, w.here]
  have index₃ : Indexed p s₃ (userOf (appendedLeaf u)) := by
    intro i inside
    rw [pieces₃]
    exact index₂ i inside
  have free₃ : ∀ a, Owned (UInt64.ofNat idx) 1 a → s₃.node a = none := by
    intro a owned
    rw [others₃ a (not_owned_both owned), before a (notLeaf owned)]
    exact free a 1 owned
  obtain ⟨s₄, ran₄, pieces₄, root₄, others₄⟩ := climbs_ok (c := c) index₃ leaf₃ short free₃
  refine ⟨s₄, ?_, ?_, ?_, ?_, ?_, ?_⟩
  · rw [Store.run, appendPrimitives, List.foldlM_cons]
    refine Option.bind_eq_some_iff.mpr ⟨s₁, ran₁, ?_⟩
    rw [List.foldlM_cons]
    refine Option.bind_eq_some_iff.mpr ⟨s₂, ran₂, ?_⟩
    rw [List.foldlM_append]
    refine Option.bind_eq_some_iff.mpr ⟨s₃, ran₃, ?_⟩
    rw [List.foldlM_cons]
    exact Option.bind_eq_some_iff.mpr ⟨s₃, check, ran₄⟩
  · intro a notOld notNew other
    rw [others₄ a notNew, others₃ a notOld, before a other]
  · exact (others₄ _ id).trans leaf₃
  · rw [others₄ _ (oldRoot_not_new _), root₃, user]
    rfl
  · rw [root₄, user]
    rfl
  · intro i other
    rw [pieces₄, pieces₃, pieces₂, w.pieces, user]
    simp only [appendedUser, Option.some.injEq, eq_comm]

theorem leaf_eq (u : Update) : (writtenLeaf u).toList = u.leaf := by
  cases u <;> rfl

theorem Owned.updateIdx_unique {k k' pathId pathId' : UInt64} {a : NodeAddress}
    (owned : Owned k pathId a) (owned' : Owned k' pathId' a) : k = k' := by
  cases a with
  | pathRoot a => exact owned.2.symm.trans owned'.2
  | intermediateRoot a => exact owned.2.symm.trans owned'.2
  | _ => exact owned.elim

/-- What an operation leaves alone, it owns in neither of its trees and is no leaf. -/
theorem Performed.kept {k : UInt64} (performed : Performed p c k u s s') {a : NodeAddress}
    (notOld : ¬ Owned k 0 a) (notNew : ¬ Owned k 1 a) (notLeaf : ∀ leaf, a ≠ .leafHash leaf) :
    s'.node a = s.node a :=
  performed.others a notOld notNew (notLeaf _)

theorem Performed.leaves {k : UInt64} (performed : Performed p c k u s s') (held : Held p c done s)
    (leaf : Leaf) : s'.node (.leafHash ⟨leaf⟩) =
      if leaf ∈ (done ++ [u]).map writtenLeaf then some (hashLeaf p leaf.toList) else none := by
  rw [List.map_append, List.map_singleton]
  by_cases here : leaf = writtenLeaf u
  · subst here
    rw [if_pos (List.mem_append_right _ List.mem_cons_self), performed.leaf, leaf_eq]
  · have other : NodeAddress.leafHash ⟨leaf⟩ ≠ .leafHash ⟨writtenLeaf u⟩ := by
      rintro ⟨⟩
      exact here rfl
    have before : leaf ∈ done.map writtenLeaf ++ [writtenLeaf u] ↔ leaf ∈ done.map writtenLeaf := by
      simp [here]
    rw [performed.others _ id id other, held.leaves]
    simp only [before]

theorem Performed.allPieces {k : UInt64} (performed : Performed p c k u s s')
    (held : Held p c done s) (i : UInt64) (user : List UInt8) : s'.piece (i, user) =
      if user ∈ (done ++ [u]).filterMap appendedUser ∧ i.toNat < splitFactor then
        some (userPiece p user i.toNat) else none := by
  have grown : user ∈ (done ++ [u]).filterMap appendedUser ↔
      appendedUser u = some user ∨ user ∈ done.filterMap appendedUser := by
    simp [List.filterMap_append, or_comm]
  rw [performed.pieces, held.pieces]
  simp only [grown]
  by_cases own : appendedUser u = some user
  · by_cases small : i.toNat < splitFactor
    · simp [own, small]
    · simp [small]
  · simp [own]

/-- The user of every leaf written so far was appended. -/
theorem Held.users_snoc (held : Held p c done s) (ready : Ready done u) :
    ∀ leaf ∈ (done ++ [u]).map writtenLeaf, userOf leaf ∈ (done ++ [u]).filterMap appendedUser := by
  intro leaf member
  rw [List.map_append, List.map_singleton] at member
  rw [List.filterMap_append]
  rcases List.mem_append.mp member with earlier | now
  · exact List.mem_append_left _ (held.users leaf earlier)
  · obtain rfl := List.mem_singleton.mp now
    rw [userOf_writtenLeaf]
    cases u with
    | update u =>
      have user := held.users _ ready.1
      rw [show userOf (oldLeaf u) = u.username.toList from userOf_concat ..] at user
      exact List.mem_append_left _ user
    | append u => exact List.mem_append_right _ List.mem_cons_self

theorem Performed.roots (performed : Performed p c (UInt64.ofNat done.length) u s s')
    (held : Held p c done s) (bound : done.length < 2 ^ 64) (i : Nat) (v : Update)
    (found : (done ++ [u])[i]? = some v) :
    s'.node (.pathRoot ⟨0, UInt64.ofNat i⟩) = some (oldRoot p c.params.nullLeaf v) ∧
      s'.node (.pathRoot ⟨1, UInt64.ofNat i⟩) = some (newRoot p v) := by
  by_cases last : i = done.length
  · subst last
    rw [List.getElem?_concat_length, Option.some.injEq] at found
    subst found
    exact ⟨performed.old, performed.new⟩
  · have early : i < done.length := by
      have inside := (List.getElem?_eq_some_iff.mp found).1
      rw [List.length_append, List.length_singleton] at inside
      omega
    rw [List.getElem?_append_left early] at found
    have other : UInt64.ofNat i ≠ UInt64.ofNat done.length := by
      intro equal
      have numbers := congrArg UInt64.toNat equal
      rw [UInt64.toNat_ofNat_of_lt' bound,
        UInt64.toNat_ofNat_of_lt' (Nat.lt_trans early bound)] at numbers
      exact last numbers
    have untouched (pathId : UInt64) : s'.node (.pathRoot ⟨pathId, UInt64.ofNat i⟩) =
        s.node (.pathRoot ⟨pathId, UInt64.ofNat i⟩) :=
      performed.kept (fun owned => other owned.2) (fun owned => other owned.2) fun _ => nofun
    rw [untouched, untouched]
    exact held.roots i v found

/-- What later operations own is still unset. -/
theorem Performed.later (performed : Performed p c (UInt64.ofNat done.length) u s s')
    (held : Held p c done s) (bound : done.length < 2 ^ 64) (a : NodeAddress) (k pathId : UInt64)
    (beyond : done.length < k.toNat) (owned : Owned k pathId a) : s'.node a = none := by
  have other : UInt64.ofNat done.length ≠ k := by
    rintro rfl
    rw [UInt64.toNat_ofNat_of_lt' bound] at beyond
    exact absurd beyond (Nat.lt_irrefl _)
  have notLeaf : ∀ leaf, a ≠ .leafHash leaf := by
    rintro leaf rfl
    exact owned
  rw [performed.kept (fun owned' => other (owned'.updateIdx_unique owned))
    (fun owned' => other (owned'.updateIdx_unique owned)) notLeaf]
  exact held.later a k pathId (Nat.le_of_lt beyond) owned

/-- A performed operation is one more that the store holds. -/
theorem Held.performed (held : Held p c done s) (bound : done.length < 2 ^ 64)
    (ready : Ready done u) (performed : Performed p c (UInt64.ofNat done.length) u s s') :
    Held p c (done ++ [u]) s' where
  initial := (performed.kept (a := .initialRoot) id id fun _ => nofun).trans held.initial
  final := (performed.kept (a := .finalRoot) id id fun _ => nofun).trans held.final
  null := (performed.kept (a := .nullLeaf) id id fun _ => nofun).trans held.null
  leaves := performed.leaves held
  pieces := performed.allPieces held
  users := held.users_snoc ready
  roots := performed.roots held bound
  later := by
    intro a k pathId beyond owned
    rw [List.length_append, List.length_singleton] at beyond
    exact performed.later held bound a k pathId beyond owned

/-- An operation that is ready is performed. -/
theorem operation_ok (held : Held p c done s) (bound : done.length < 2 ^ 64)
    (ready : Ready done u) (short : Short u.path) :
    ∃ s', s.run p c (operationLayout done.length u) = some s' ∧ Held p c (done ++ [u]) s' := by
  have number : (UInt64.ofNat done.length).toNat = done.length := UInt64.toNat_ofNat_of_lt' bound
  obtain ⟨digest, previous⟩ := previousRoot_known held
  have free : ∀ a pathId, Owned (UInt64.ofNat done.length) pathId a → s.node a = none :=
    fun a pathId => held.later a _ pathId number.ge
  cases u with
  | update u =>
    have user := held.users _ ready.1
    rw [show userOf (oldLeaf u) = u.username.toList from userOf_concat ..] at user
    have old := held.leaves (oldLeaf u)
    rw [if_pos ready.1] at old
    have fresh := held.leaves (newLeaf u)
    rw [if_neg ready.2] at fresh
    obtain ⟨s', ran, performed⟩ := update_ok (c := c) (held.indexed user) short old fresh previous free
    exact ⟨s', ran, held.performed bound ready performed⟩
  | append u =>
    have fresh := held.leaves (appendedLeaf u)
    rw [if_neg ready.1] at fresh
    have unset : ∀ i, s.piece (i, u.username.toList) = none := by
      intro i
      rw [held.pieces, if_neg fun both => ready.2 both.1]
    obtain ⟨s', ran, performed⟩ := append_ok (p := p) unset short held.null fresh
      previous free
    exact ⟨s', ran, held.performed bound ready performed⟩

/-- An operation that is performed was ready. -/
theorem of_operation (held : Held p c done s) (bound : done.length < 2 ^ 64)
    (ran : s.run p c (operationLayout done.length u) = some s') : Ready done u ∧ Short u.path := by
  have number : (UInt64.ofNat done.length).toNat = done.length := UInt64.toNat_ofNat_of_lt' bound
  have free : ∀ a pathId, Owned (UInt64.ofNat done.length) pathId a → s.node a = none :=
    fun a pathId => held.later a _ pathId number.ge
  have written : ∀ leaf, s.node (.leafHash ⟨leaf⟩) = none → leaf ∉ done.map writtenLeaf := by
    intro leaf unset member
    rw [held.leaves, if_pos member] at unset
    cases unset
  cases u with
  | update u =>
    rw [Store.run, updatePrimitives, List.foldlM_append] at ran
    obtain ⟨s₁, ran₁, ran⟩ := Option.bind_eq_some_iff.mp ran
    obtain ⟨start, short⟩ := of_climbs ran₁
    have known : oldLeaf u ∈ done.map writtenLeaf := by
      by_contra missing
      rw [held.leaves, if_neg missing] at start
      cases start
    refine ⟨⟨known, ?_⟩, short⟩
    have old := held.leaves (oldLeaf u)
    rw [if_pos known] at old
    obtain ⟨s₁', again, _, root, others⟩ := climbs_ok (c := c)
      (held.indexed (held.users _ known)) old short fun a owned => free a 0 owned
    cases ran₁.symm.trans again
    obtain ⟨digest, previous⟩ := previousRoot_known held
    have check : s₁.step p c (rootCheck done.length) = some s₁ := step_equalityOp_ok root
      ((others _ (previousRoot_not_owned _ _)).trans previous)
    rw [List.foldlM_cons] at ran
    obtain ⟨_, same, ran⟩ := Option.bind_eq_some_iff.mp ran
    cases check.symm.trans same
    rw [List.foldlM_cons] at ran
    obtain ⟨s₂, ran₂, _⟩ := Option.bind_eq_some_iff.mp ran
    have unset := free_of_setNode ran₂
    rw [others _ id] at unset
    exact written _ unset
  | append u =>
    rw [Store.run, appendPrimitives, List.foldlM_cons] at ran
    obtain ⟨s₁, ran₁, ran⟩ := Option.bind_eq_some_iff.mp ran
    obtain ⟨s₂, ran₂, ran⟩ := Option.bind_eq_some_iff.mp ran
    rw [List.foldlM_append] at ran
    obtain ⟨s₃, ran₃, _⟩ := Option.bind_eq_some_iff.mp ran
    refine ⟨⟨written _ (free_of_setNode ran₁), fun member => ?_⟩, (of_climbs ran₃).2⟩
    obtain ⟨s₁', again, w⟩ := setNode_ok (free_of_setNode ran₁) (hashLeaf p (appendedLeaf u).toList)
    cases ran₁.symm.trans again
    have unset := of_setPieces ran₂
    rw [w.pieces, held.pieces,
      show userOf (appendedLeaf u) = u.username.toList from userOf_concat ..] at unset
    rw [if_pos ⟨member, by decide⟩] at unset
    cases unset

/-- Every operation is ready after the ones before it, along a path that can be cut. -/
def Orderly (us : List Update) : Prop :=
  ∀ i u, us[i]? = some u → Ready (us.take i) u ∧ Short u.path

theorem run_append (xs ys : List SubCircuit) :
    s.run p c (xs ++ ys) = s.run p c xs >>= fun s => s.run p c ys := by
  rw [Store.run, List.flatMap_append, List.foldlM_append]
  rfl

theorem operations_ok {all rest : List Update} (orderly : Orderly all)
    (split : all = done ++ rest) (bound : all.length < 2 ^ 64) (held : Held p c done s) :
    ∃ s', s.run p c (operationsLayout done.length rest) = some s' ∧ Held p c all s' := by
  induction rest generalizing done s with
  | nil =>
    rw [List.append_nil] at split
    subst split
    exact ⟨s, rfl, held⟩
  | cons u rest ih =>
    have size := congrArg List.length split
    rw [List.length_append, List.length_cons] at size
    have here := orderly done.length u (by rw [split]; simp)
    rw [split, List.take_left] at here
    obtain ⟨s₁, ran₁, held₁⟩ := operation_ok held (by omega) here.1 here.2
    have next : all = (done ++ [u]) ++ rest := by simpa using split
    obtain ⟨s₂, ran₂, held₂⟩ := ih next held₁
    rw [List.length_append, List.length_singleton] at ran₂
    refine ⟨s₂, ?_, held₂⟩
    rw [operationsLayout, run_append]
    exact Option.bind_eq_some_iff.mpr ⟨s₁, ran₁, ran₂⟩

theorem of_operations {all rest : List Update} (split : all = done ++ rest)
    (bound : all.length < 2 ^ 64) (held : Held p c done s)
    (ran : s.run p c (operationsLayout done.length rest) = some s') :
    ∀ i u, done.length ≤ i → all[i]? = some u → Ready (all.take i) u ∧ Short u.path := by
  induction rest generalizing done s with
  | nil =>
    intro i u beyond found
    obtain ⟨inside, _⟩ := List.getElem?_eq_some_iff.mp found
    rw [split, List.append_nil] at inside
    exact absurd inside (by omega)
  | cons v rest ih =>
    have size := congrArg List.length split
    rw [List.length_append, List.length_cons] at size
    have small : done.length < 2 ^ 64 := by omega
    rw [operationsLayout, run_append] at ran
    obtain ⟨s₁, ran₁, ran₂⟩ := Option.bind_eq_some_iff.mp ran
    have here := of_operation held small ran₁
    obtain ⟨s₁', again, held₁⟩ := operation_ok held small here.1 here.2
    cases ran₁.symm.trans again
    have next : all = (done ++ [v]) ++ rest := by simpa using split
    have later := ih next held₁ (by rwa [List.length_append, List.length_singleton])
    intro i u beyond found
    by_cases first : i = done.length
    · subst first
      rw [split, List.getElem?_append_right (le_refl _), Nat.sub_self] at found
      cases found
      rw [split, List.take_left]
      exact here
    · apply later i u _ found
      rw [List.length_append, List.length_singleton]
      omega

/-- The paddings and the public parameters. -/
def front : List SubCircuit :=
  List.replicate 6 ⟨[.paddingPrimitive]⟩ ++ [⟨[.writePublicParameterPrimitive]⟩]

theorem front_ok : ∃ s₀ : Store, Store.empty.run p c front = some s₀ ∧ Held p c [] s₀ := by
  obtain ⟨s₁, ran₁, w₁⟩ := setNode_ok (s := .empty) (a := .initialRoot) rfl c.initialRoot
  obtain ⟨s₂, ran₂, w₂⟩ := setNode_ok (a := .finalRoot) (w₁.others .finalRoot nofun) c.finalRoot
  have free : s₂.node .nullLeaf = none :=
    (w₂.others .nullLeaf nofun).trans (w₁.others .nullLeaf nofun)
  obtain ⟨s₃, ran₃, w₃⟩ := setNode_ok free c.params.nullLeaf
  have others : ∀ a, a ≠ .initialRoot → a ≠ .finalRoot → a ≠ .nullLeaf → s₃.node a = none := by
    intro a notInitial notFinal notNull
    rw [w₃.others a notNull, w₂.others a notFinal, w₁.others a notInitial]
    rfl
  refine ⟨s₃, ?_, ?_⟩
  · change (Store.empty.writePublicParameter c >>= fun s => some s) = some s₃
    refine Option.bind_eq_some_iff.mpr ⟨s₃, ?_, rfl⟩
    rw [Store.writePublicParameter]
    refine Option.bind_eq_some_iff.mpr ⟨s₁, ran₁, ?_⟩
    exact Option.bind_eq_some_iff.mpr ⟨s₂, ran₂, ran₃⟩
  · refine ⟨?_, ?_, w₃.here, ?_, ?_, ?_, ?_, ?_⟩
    · rw [w₃.others .initialRoot nofun, w₂.others .initialRoot nofun, w₁.here]
    · rw [w₃.others .finalRoot nofun, w₂.here]
    · exact fun leaf => others _ nofun nofun nofun
    · intro i user
      rw [w₃.pieces, w₂.pieces, w₁.pieces]
      rfl
    · exact fun leaf member => absurd member List.not_mem_nil
    · exact fun i u found => nomatch found
    · intro a k pathId _ owned
      apply others a
      · rintro rfl
        exact owned
      · rintro rfl
        exact owned
      · rintro rfl
        exact owned

theorem layout_eq (us : List Update) :
    layout us = front ++ (operationsLayout 0 us ++ [⟨[finalCheck us]⟩]) := rfl

/-- The primitives of a batch go through where its operations are in order. -/
theorem batch_ok {us : List Update} (orderly : Orderly us) (bound : us.length < 2 ^ 64) :
    ∃ s, Store.empty.run p c (layout us) = some s ∧ Held p c us s := by
  obtain ⟨s₀, ran₀, held₀⟩ := front_ok (p := p) (c := c)
  obtain ⟨s, ran, held⟩ := operations_ok orderly (List.nil_append us).symm bound held₀
  obtain ⟨digest, previous⟩ := previousRoot_known held
  have last : s.step p c (finalCheck us) = some s := step_equalityOp_ok held.final previous
  refine ⟨s, ?_, held⟩
  rw [layout_eq, run_append]
  refine Option.bind_eq_some_iff.mpr ⟨s₀, ran₀, ?_⟩
  rw [run_append]
  refine Option.bind_eq_some_iff.mpr ⟨s, ran, ?_⟩
  exact Option.bind_eq_some_iff.mpr ⟨s, last, rfl⟩

theorem orderly_of_batch {us : List Update} (bound : us.length < 2 ^ 64)
    (ran : Store.empty.run p c (layout us) = some s) : Orderly us := by
  obtain ⟨s₀, ran₀, held₀⟩ := front_ok (p := p) (c := c)
  rw [layout_eq, run_append] at ran
  obtain ⟨s₀', again, ran⟩ := Option.bind_eq_some_iff.mp ran
  cases ran₀.symm.trans again
  rw [run_append] at ran
  obtain ⟨s₁, ran₁, _⟩ := Option.bind_eq_some_iff.mp ran
  exact fun i u => of_operations (List.nil_append us).symm bound held₀ ran₁ i u (Nat.zero_le i)

end Runs
end VkdBatches
