import Hekaton.VkdCircuits
import Mathlib

/-!
# The verifiable key directory

A leaf holds a user's name, counter and key at the index that the name hashes to. The
verifier recomputes the root before and after each update along one path. What is recorded
from a tree while its leaves are appended and updated is accepted, whatever the order of the
users and the kinds of operation.
-/

namespace KeyDirectory

open Outcomes Codecs VkdHash SparseTree VkdCircuits MerkleTrees SparseMerkleTrees Function

abbrev DEPTH : Nat := 128

structure VkdUpdate where
  username : Username
  counter : Counter
  key1 : Key
  path : MerkleTreePath
  key2 : Key
  deriving DecidableEq

structure VkdAppend where
  username : Username
  key : Key
  path : MerkleTreePath
  deriving DecidableEq

inductive Update where
  | update (op : VkdUpdate)
  | append (op : VkdAppend)
  deriving DecidableEq

structure VerifiableKeyDirectoryCircuitParams where
  logNumSubcircuits : Nat
  nullLeaf : InnerHash

structure VerifiableKeyDirectoryCircuit where
  initialRoot : InnerHash
  params : VerifiableKeyDirectoryCircuitParams
  finalRoot : InnerHash
  update : List Update
  subcircuits : List SubCircuit

/-- The leaf of a user, with the counter's two bytes in the middle. -/
def concat (username : Username) (key : Key) (counter : Counter) : List UInt8 :=
  username.toList ++ littleEndian 2 counter.toNat ++ key.toList

@[simp] theorem concat_length (username : Username) (key : Key) (counter : Counter) :
    (concat username key counter).length = 66 := by
  simp [concat]

/-- `counter + 1`, which panics on the largest counter where overflow is checked. -/
def nextCounter (overflowChecks : Bool) (counter : Counter) : Outcome Counter :=
  if overflowChecks && counter == 65535 then panicWith "attempt to add with overflow"
  else .ok (counter + 1)

section Model
variable {F : Type} [Field F] [PrimeFields.PrimeField F]

/-- The hashes of the directory's tree. -/
def hashing (p : Poseidon F) : Hashing := ⟨hashLeaf p, hashInnerNode p⟩

def userIndex (p : Poseidon F) (username : Username) : Outcome MerkleIndex := do
  let index ← SparseMerkleTree.getIndex (hash p username.toList) DEPTH
  unwrap "InvalidHashSize" index

/-- One round of the verifier's loop, on the verdict and the root so far. -/
def verifyUpdate (overflowChecks : Bool) (p : Poseidon F) (pp : InnerHash)
    (state : Bool × InnerHash) : Update → Outcome (Bool × InnerHash)
  | .update op => do
      let index ← userIndex p op.username
      let verified ← op.path.verify (hashing p) state.2
        (concat op.username op.key1 op.counter) index.toBitVector .leaf
      let counter ← nextCounter overflowChecks op.counter
      let root ← op.path.computeRoot (hashing p) (concat op.username op.key2 counter)
        index.toBitVector .leaf
      .ok (state.1 && verified, root)
  | .append op => do
      let index ← userIndex p op.username
      let verified ← op.path.verify (hashing p) state.2 pp.toList index.toBitVector .internalNode
      let root ← op.path.computeRoot (hashing p) (concat op.username op.key 0)
        index.toBitVector .leaf
      .ok (state.1 && verified, root)

def VerifiableKeyDirectoryCircuit.verify (c : VerifiableKeyDirectoryCircuit)
    (overflowChecks : Bool) (p : Poseidon F) (pp : InnerHash) : Outcome Bool := do
  let last ← c.update.foldlM (verifyUpdate overflowChecks p pp) (true, c.initialRoot)
  .ok (decide (last.2 = c.finalRoot) && last.1)

end Model

section Facts
variable {F : Type} [Field F] [PrimeFields.PrimeField F] {p : Poseidon F} {checks : Bool}
variable {t t' : SparseMerkleTree}

/-- The position of a user's leaf. -/
def indexOf (p : Poseidon F) (username : Username) : Nat :=
  fromLittleEndian ((hash p username.toList).take 16)

@[simp] theorem hashing_inner : (hashing p).inner = hashInnerNode p := rfl

@[simp] theorem hashing_leaf : (hashing p).leaf = hashLeaf p := rfl

theorem indexOf_lt (username : Username) : indexOf p username < 2 ^ DEPTH := by
  have below := fromLittleEndian_lt ((hash p username.toList).take 16)
  rw [List.length_take, hash_length] at below
  exact below

@[simp] theorem userIndex_eq (username : Username) :
    userIndex p username = .ok ⟨indexOf p username, DEPTH⟩ := by
  simp [userIndex, SparseMerkleTree.getIndex, unwrap, indexOf, DEPTH]

attribute [irreducible] indexOf

/-- The digest that a path of this update starts from before the update. -/
def startDigest (p : Poseidon F) (pp : InnerHash) : Update → InnerHash
  | .update op => hashLeaf p (concat op.username op.key1 op.counter)
  | .append _ => pp

def Update.username : Update → Username
  | .update op => op.username
  | .append op => op.username

def Update.path : Update → MerkleTreePath
  | .update op => op.path
  | .append op => op.path

/-- The leaf that an update writes. -/
def Update.leaf : Update → List UInt8
  | .update op => concat op.username op.key2 (op.counter + 1)
  | .append op => concat op.username op.key 0

/-- The counter of an update does not run over where that is checked. -/
def Update.CounterFits (checks : Bool) : Update → Prop
  | .update op => checks = true → op.counter ≠ 65535
  | .append _ => True

/-- The levels of an update's path, from the user's leaf. -/
def Update.levels (p : Poseidon F) (u : Update) : List (Bool × InnerHash) :=
  levelsOf (indexOf p u.username) u.path.path

theorem nextCounter_eq_ok {counter next : Counter} :
    nextCounter checks counter = .ok next ↔
      (checks = true → counter ≠ 65535) ∧ counter + 1 = next := by
  cases checks with
  | false => simp [nextCounter]
  | true =>
    by_cases last : counter = 65535
    · simp [nextCounter, panicWith, last]
    · simp [nextCounter, last]

theorem nodeDigest_internal (digest : InnerHash) :
    nodeDigest (hashing p) digest.toList .internalNode = .ok digest := by
  rw [nodeDigest, innerHashOf, dif_pos digest.toList_length]
  rfl

/-- What a round does: it fails where the path is too long or the counter runs over. -/
theorem verifyUpdate_eq_ok {pp root : InnerHash} {verdict : Bool} {u : Update}
    {state : Bool × InnerHash} :
    verifyUpdate checks p pp (verdict, root) u = .ok state ↔
      u.path.path.length ≤ DEPTH ∧ u.CounterFits checks ∧
      state = (verdict && decide (climb (hashInnerNode p) (u.levels p) (startDigest p pp u) = root),
        climb (hashInnerNode p) (u.levels p) (hashLeaf p u.leaf)) := by
  cases u with
  | update op =>
    rw [verifyUpdate, userIndex_eq, ok_bind, verify_eq (h := hashing p) rfl]
    by_cases fits : op.path.path.length ≤ DEPTH
    · rw [if_pos fits, ok_bind, Outcomes.bind_eq_ok]
      constructor
      · rintro ⟨next, counted, run⟩
        obtain ⟨small, rfl⟩ := nextCounter_eq_ok.mp counted
        rw [computeRoot_eq (h := hashing p) rfl, if_pos fits, ok_bind] at run
        exact ⟨fits, small, (Except.ok.inj run).symm⟩
      · rintro ⟨_, small, rfl⟩
        refine ⟨op.counter + 1, nextCounter_eq_ok.mpr ⟨small, rfl⟩, ?_⟩
        rw [computeRoot_eq (h := hashing p) rfl, if_pos fits, ok_bind]
        rfl
    · rw [if_neg fits]
      exact ⟨fun run => (nomatch run), fun ⟨short, _⟩ => absurd short fits⟩
  | append op =>
    rw [verifyUpdate, userIndex_eq, ok_bind, verify_eq (nodeDigest_internal pp),
      computeRoot_eq (h := hashing p) rfl]
    by_cases fits : op.path.path.length ≤ DEPTH
    · rw [if_pos fits, if_pos fits, ok_bind, ok_bind]
      constructor
      · exact fun run => ⟨fits, trivial, (Except.ok.inj run).symm⟩
      · rintro ⟨_, _, rfl⟩
        rfl
    · rw [if_neg fits]
      exact ⟨fun run => (nomatch run), fun ⟨short, _⟩ => absurd short fits⟩

/-- The rounds accept: every path climbs from its start to the root reached so far, and the
last root is the one given. -/
def Accepts (checks : Bool) (p : Poseidon F) (pp : InnerHash) :
    InnerHash → List Update → InnerHash → Prop
  | root, [], final => root = final
  | root, u :: us, final =>
      u.path.path.length ≤ DEPTH ∧ u.CounterFits checks ∧
      climb (hashInnerNode p) (u.levels p) (startDigest p pp u) = root ∧
      Accepts checks p pp (climb (hashInnerNode p) (u.levels p) (hashLeaf p u.leaf)) us final

/-- A verdict of `false` stays. -/
theorem foldlM_accepts {pp root final : InnerHash} {verdict : Bool} {us : List Update} :
    us.foldlM (verifyUpdate checks p pp) (verdict, root) = .ok (true, final) ↔
      verdict = true ∧ Accepts checks p pp root us final := by
  induction us generalizing verdict root with
  | nil => simp [Accepts, pure, Except.pure]
  | cons u us ih =>
    rw [List.foldlM_cons, Outcomes.bind_eq_ok]
    constructor
    · rintro ⟨state, step, rest⟩
      obtain ⟨short, fits, rfl⟩ := verifyUpdate_eq_ok.mp step
      obtain ⟨both, later⟩ := ih.mp rest
      rw [Bool.and_eq_true, decide_eq_true_iff] at both
      exact ⟨both.1, short, fits, both.2, later⟩
    · rintro ⟨rfl, short, fits, climbs, later⟩
      refine ⟨_, verifyUpdate_eq_ok.mpr ⟨short, fits, rfl⟩, ih.mpr ⟨?_, later⟩⟩
      rw [Bool.true_and, decide_eq_true climbs]

theorem verify_eq_true {c : VerifiableKeyDirectoryCircuit} {pp : InnerHash} :
    c.verify checks p pp = .ok true ↔ Accepts checks p pp c.initialRoot c.update c.finalRoot := by
  rw [VerifiableKeyDirectoryCircuit.verify, Outcomes.bind_eq_ok]
  constructor
  · rintro ⟨⟨verdict, root⟩, ran, both⟩
    have accepted := Except.ok.inj both
    rw [Bool.and_eq_true, decide_eq_true_iff] at accepted
    obtain ⟨rfl, rfl⟩ := accepted
    exact (foldlM_accepts.mp ran).2
  · intro accepts
    refine ⟨_, foldlM_accepts.mpr ⟨rfl, accepts⟩, ?_⟩
    simp

/-- What `sparse_initial_hashes[DEPTH]` holds. -/
def nullLeaf (p : Poseidon F) : InnerHash := initialHash (hashing p) 0

theorem nullLeaf_eq :
    (SparseMerkleTree.new (hashing p) DEPTH).sparseInitialHashes[DEPTH]? = some (nullLeaf p) := by
  rw [SparseMerkleTree.new, sparseInitialHashes_getElem? le_rfl, Nat.sub_self, nullLeaf]

/-- Updates recorded while a tree changes: a user is appended where nothing is stored, or the
key stored for a user is replaced. The path is looked up before the leaf is inserted. -/
inductive Recorded (p : Poseidon F) : SparseMerkleTree → List Update → SparseMerkleTree → Prop where
  | done (t : SparseMerkleTree) : Recorded p t [] t
  | append {t t' t'' : SparseMerkleTree} {username : Username} {key : Key} {path : MerkleTreePath}
      {us : List Update} (unoccupied : t.leaves ⟨indexOf p username, DEPTH⟩ = none)
      (looked : t.lookupPath ⟨indexOf p username, DEPTH⟩ = .ok path)
      (inserted : t.insert (hashing p) ⟨indexOf p username, DEPTH⟩ (concat username key 0) .leaf =
        .ok t') (rest : Recorded p t' us t'') :
      Recorded p t (.append ⟨username, key, path⟩ :: us) t''
  | update {t t' t'' : SparseMerkleTree} {username : Username} {counter : Counter}
      {key1 key2 : Key} {path : MerkleTreePath} {us : List Update}
      (stored : t.leaves ⟨indexOf p username, DEPTH⟩ = some (concat username key1 counter))
      (below : counter < 65535)
      (looked : t.lookupPath ⟨indexOf p username, DEPTH⟩ = .ok path)
      (inserted : t.insert (hashing p) ⟨indexOf p username, DEPTH⟩
        (concat username key2 (counter + 1)) .leaf = .ok t') (rest : Recorded p t' us t'') :
      Recorded p t (.update ⟨username, counter, key1, path, key2⟩ :: us) t''

/-- Along a looked up path the root is computed from the leaf that is stored, and after the
leaf is replaced it is the tree's new root. -/
theorem climbs_of_lookup (represents : Represents (hashing p) DEPTH t) {u : Update}
    (looked : t.lookupPath ⟨indexOf p u.username, DEPTH⟩ = .ok u.path)
    (inserted : t.insert (hashing p) ⟨indexOf p u.username, DEPTH⟩ u.leaf .leaf = .ok t') :
    u.path.path.length = DEPTH ∧ Represents (hashing p) DEPTH t' ∧
      climb (hashInnerNode p) (u.levels p)
        (leafDigest (hashing p) DEPTH t (indexOf p u.username)) = t.root ∧
      climb (hashInnerNode p) (u.levels p) (hashLeaf p u.leaf) = t'.root := by
  have bound := indexOf_lt (p := p) u.username
  have path := Except.ok.inj (looked.symm.trans (lookupPath_eq represents bound))
  obtain ⟨stored, after⟩ := insert_of_eq_ok represents bound inserted
  have siblings_eq : u.path.path =
      siblings (hashInnerNode p) DEPTH (leafDigest (hashing p) DEPTH t) (indexOf p u.username) := by
    rw [path, hashing_inner]
  refine ⟨by rw [siblings_eq, length_siblings], after, ?_, ?_⟩
  · rw [Update.levels, siblings_eq, climb_siblings _ bound, root_eq_node, represents.root,
      hashing_inner]
  · rw [Update.levels, siblings_eq, climb_update bound, after.root, leafDigest_update stored rfl,
      hashing_inner, hashing_leaf]

theorem recorded_accepts (represents : Represents (hashing p) DEPTH t) {us : List Update}
    (recorded : Recorded p t us t') :
    Accepts checks p (nullLeaf p) t.root us t'.root := by
  induction recorded with
  | done t => exact rfl
  | @append t t' _ username key path us unoccupied looked inserted _ ih =>
    obtain ⟨size, after, before, next⟩ :=
      climbs_of_lookup (u := .append ⟨username, key, path⟩) represents looked inserted
    refine ⟨le_of_eq size, trivial, ?_, ?_⟩
    · rw [leafDigest] at before
      simp only [Update.username, unoccupied] at before
      exact before
    · rw [next]
      exact ih after
  | @update t t' _ username counter key1 key2 path us stored below looked inserted _ ih =>
    obtain ⟨size, after, before, next⟩ :=
      climbs_of_lookup (u := .update ⟨username, counter, key1, path, key2⟩) represents looked
        inserted
    have fits : counter ≠ 65535 := by
      rintro rfl
      exact absurd below (by decide)
    refine ⟨le_of_eq size, fun _ => fits, ?_, ?_⟩
    · rw [leafDigest] at before
      simp only [Update.username, stored] at before
      exact before
    · rw [next]
      exact ih after

/-- What is recorded from a tree is accepted, from its root to the root it ends with. -/
theorem recorded_verifies (reached : Reached (hashing p) DEPTH t) {us : List Update}
    (recorded : Recorded p t us t') {c : VerifiableKeyDirectoryCircuit}
    (initial : c.initialRoot = t.root) (updates : c.update = us) (final : c.finalRoot = t'.root)
    {pp : InnerHash}
    (parameter : (SparseMerkleTree.new (hashing p) DEPTH).sparseInitialHashes[DEPTH]? = some pp) :
    c.verify checks p pp = .ok true := by
  obtain rfl : nullLeaf p = pp := Option.some.inj (nullLeaf_eq.symm.trans parameter)
  rw [verify_eq_true, initial, updates, final]
  exact recorded_accepts reached.represents recorded

end Facts

/-- A sponge whose permutation is the identity, over sums of the two inputs. -/
def linearPoseidon : Poseidon PrimeFields.Bls12381Fr := ⟨fun l r => l + (r + r), fun state => state⟩

def byteArray (n : Nat) (byte : UInt8) : List.Vector UInt8 n := .replicate n byte

/-- A run between two roots, with the default leaf as the null leaf. -/
def linearRun (initial final : InnerHash) (us : List Update) : VerifiableKeyDirectoryCircuit :=
  ⟨initial, ⟨0, nullLeaf linearPoseidon⟩, final, us, []⟩

theorem appendThenUpdate_verifies : ∃ path path' root root',
    (linearRun root root' [.append ⟨byteArray 32 1, byteArray 32 2, path⟩,
      .update ⟨byteArray 32 1, 0, byteArray 32 2, path', byteArray 32 3⟩]).verify true
        linearPoseidon (nullLeaf linearPoseidon) = .ok true := by
  have fresh := represents_new (hashing linearPoseidon) DEPTH
  have bound := indexOf_lt (p := linearPoseidon) (byteArray 32 1)
  obtain ⟨t, inserted, stored, represents⟩ :=
    insert_represents fresh bound (concat (byteArray 32 1) (byteArray 32 2) 0)
  obtain ⟨t', inserted', _, _⟩ :=
    insert_represents represents bound (concat (byteArray 32 1) (byteArray 32 3) (0 + 1))
  have recorded := Recorded.append rfl (lookupPath_eq fresh bound) inserted
    (.update (by rw [stored, update_self]) (by decide) (lookupPath_eq represents bound) inserted'
      (.done t'))
  exact ⟨_, _, _, _, recorded_verifies .new recorded rfl rfl rfl nullLeaf_eq⟩

end KeyDirectory
