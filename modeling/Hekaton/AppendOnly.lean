import Hekaton.KeyDirectory

/-!
# Append-only safety of the key directory

A directory stores a user's leaf at the user's index. Without collisions an accepted update
starts from the digest stored at its index. The default leaf is absorbed as three zeros, and
so is the leaf of the zero name with the zero key and counter 0: the two have one digest, and
the safety of a run comes down to that leaf.
-/

namespace AppendOnly

open Outcomes VkdHash SparseTree VkdCircuits KeyDirectory MerkleTrees SparseMerkleTrees Function

/-- The leaf stored at each index. -/
abbrev Store := Nat → Option (List UInt8)

def stored (t : SparseMerkleTree) : Store := fun i => t.leaves ⟨i, DEPTH⟩

/-- The leaf of the zero name, the zero key and counter 0. -/
def zeroLeaf : List UInt8 := List.replicate 66 0

section Statements
variable {F : Type} [Field F] [PrimeFields.PrimeField F] (p : Poseidon F)

/-- A tree whose occupied leaves are users' leaves, each at the index of its user. -/
structure Directory (t : SparseMerkleTree) : Prop extends Represents (hashing p) DEPTH t where
  users : ∀ i leaf, t.leaves ⟨i, DEPTH⟩ = some leaf →
    ∃ username key counter, leaf = concat username key counter ∧ i = indexOf p username

def after (store : Store) (u : Update) : Store :=
  update store (indexOf p u.username) (some u.leaf)

/-- An append finds nothing at its index, an update its own old leaf. -/
def Finds (store : Store) : Update → Prop
  | .append op => store (indexOf p op.username) = none
  | .update op => store (indexOf p op.username) = some (concat op.username op.key1 op.counter)

/-- Every update finds what it should, one after the other. -/
def AppendOnlyRun : Store → List Update → Prop
  | _, [] => True
  | store, u :: us => Finds p store u ∧ AppendOnlyRun (after p store u) us

/-- An append is not made over the zero leaf, and the zero leaf is not updated where nothing
is stored. -/
def SparesZeroLeaf (store : Store) : Update → Prop
  | .append op => store (indexOf p op.username) ≠ some zeroLeaf
  | .update op => concat op.username op.key1 op.counter = zeroLeaf →
      store (indexOf p op.username) ≠ none

def SparesZeroLeafRun : Store → List Update → Prop
  | _, [] => True
  | store, u :: us => SparesZeroLeaf p store u ∧ SparesZeroLeafRun (after p store u) us

/-- The leaf whose digest an update starts from. -/
def startLeaf : Update → List UInt8
  | .update op => concat op.username op.key1 op.counter
  | .append _ => initialLeafValue

def digests (store : Store) (i : Nat) : InnerHash :=
  hashLeaf p ((store i).getD initialLeafValue)

/-- The pairs hashed by the inner nodes of the tree and along the update's path. -/
def innerCalls (store : Store) (u : Update) : Set (InnerHash × InnerHash) :=
  { pair | pair ∈ climbPairs (hashInnerNode p) (u.levels p) (hashLeaf p (startLeaf u)) } ∪
    treePairs (hashInnerNode p) (digests p store) DEPTH

/-- The states squeezed for the update's old leaf and for the leaf stored at its index. -/
def leafStates (store : Store) (u : Update) : Set (Fin 4 → F) :=
  { state | state = absorbed p (startLeaf u) ∨
    state = absorbed p ((store (indexOf p u.username)).getD initialLeafValue) }

/-- No two of the hashes collide. A path shorter than the tree could start from an inner node:
only there the old leaf's digest has to be none of the inner digests. -/
structure CollisionFree (store : Store) (u : Update) : Prop where
  inner : Set.InjOn (uncurry (hashInnerNode p)) (innerCalls p store u)
  leaf : Set.InjOn (stateDigest p) (leafStates p store u)
  separate : u.path.path.length < DEPTH → hashLeaf p (startLeaf u) ∉
    Set.image (uncurry (hashInnerNode p)) (treePairs (hashInnerNode p) (digests p store) DEPTH)

def CollisionFreeRun : Store → List Update → Prop
  | _, [] => True
  | store, u :: us => CollisionFree p store u ∧ CollisionFreeRun (after p store u) us

end Statements

section Facts
variable {F : Type} [Field F] [PrimeFields.PrimeField F] {p : Poseidon F} {checks : Bool}
variable {store : Store} {u : Update}

theorem startDigest_eq (u : Update) : startDigest p (nullLeaf p) u = hashLeaf p (startLeaf u) := by
  cases u <;> rfl

omit [PrimeFields.PrimeField F] in
theorem absorbed_initialLeafValue : absorbed p initialLeafValue = block (0 : F) 0 0 := by
  apply absorbed_two
  rw [fieldVector_two (by decide) (by decide)]
  simp [initialLeafValue, PrimeFields.fromLeBytesModOrder, Codecs.fromLittleEndian]

omit [PrimeFields.PrimeField F] in
/-- The default leaf and the zero leaf leave one state. -/
theorem absorbed_zeroLeaf : absorbed p zeroLeaf = absorbed p initialLeafValue := by
  rw [absorbed_initialLeafValue]
  apply absorbed_three
  rw [fieldVector_three (by decide) (by decide)]
  simp [zeroLeaf, PrimeFields.fromLeBytesModOrder, Codecs.fromLittleEndian]

/-- A user's leaf that leaves the state of the default leaf is the zero leaf. -/
theorem concat_eq_zeroLeaf {username : Username} {key : Key} {counter : Counter}
    (same : absorbed p (concat username key counter) = absorbed p initialLeafValue) :
    concat username key counter = zeroLeaf := by
  rw [← absorbed_zeroLeaf] at same
  exact absorbed_injective (by simp) (by simp) (by simp [zeroLeaf]) same

/-- Without collisions an accepted update starts from the digest that is stored at its index,
and its path climbs to the root of the directory in which its leaf is stored. -/
theorem starts_from_stored (free : CollisionFree p store u)
    (short : u.path.path.length ≤ DEPTH)
    (climbs : climb (hashInnerNode p) (u.levels p) (hashLeaf p (startLeaf u)) =
      node (hashInnerNode p) (digests p store) DEPTH 0) :
    hashLeaf p (startLeaf u) = digests p store (indexOf p u.username) ∧
      climb (hashInnerNode p) (u.levels p) (hashLeaf p u.leaf) =
        node (hashInnerNode p) (digests p (after p store u)) DEPTH 0 := by
  have size : (u.levels p).length = u.path.path.length := length_levelsOf ..
  rcases Nat.lt_or_eq_of_le short with less | whole
  · have grafted := short_climb (size.symm ▸ less) free.inner climbs
    exact absurd grafted (free.separate less)
  · have place : position (u.levels p) = indexOf p u.username := by
      rw [Update.levels, position_levelsOf, whole]
      exact Nat.mod_eq_of_lt (indexOf_lt u.username)
    have deep : (u.levels p).length = DEPTH := size.trans whole
    have distinct := free.inner
    rw [innerCalls, ← deep] at distinct
    rw [← deep] at climbs
    obtain ⟨start, replaced⟩ := climb_binds distinct climbs
    have digests_after : digests p (after p store u) =
        update (digests p store) (indexOf p u.username) (hashLeaf p u.leaf) := by
      funext i
      by_cases here : i = indexOf p u.username
      · subst here
        simp [digests, after]
      · simp [digests, after, here]
    rw [place] at start
    refine ⟨start, ?_⟩
    rw [replaced, place, deep, digests_after]

/-- Where the old leaf's digest is the stored one, only the zero leaf can be mistaken. -/
theorem finds_iff (free : CollisionFree p store u)
    (users : ∀ i leaf, store i = some leaf →
      ∃ username key counter, leaf = concat username key counter ∧ i = indexOf p username)
    (start : hashLeaf p (startLeaf u) = digests p store (indexOf p u.username)) :
    Finds p store u ↔ SparesZeroLeaf p store u := by
  have same : absorbed p (startLeaf u) =
      absorbed p ((store (indexOf p u.username)).getD initialLeafValue) :=
    free.leaf (.inl rfl) (.inr rfl) start
  cases u with
  | append op =>
    simp only [Finds, SparesZeroLeaf, startLeaf, Update.username] at same ⊢
    cases held : store (indexOf p op.username) with
    | none => simp
    | some leaf =>
      obtain ⟨username, key, counter, rfl, _⟩ := users _ leaf held
      rw [held, Option.getD_some] at same
      simp [concat_eq_zeroLeaf same.symm]
  | update op =>
    simp only [Finds, SparesZeroLeaf, startLeaf, Update.username] at same ⊢
    cases held : store (indexOf p op.username) with
    | none =>
      rw [held, Option.getD_none] at same
      simp [concat_eq_zeroLeaf same]
    | some leaf =>
      obtain ⟨username, key, counter, rfl, _⟩ := users _ leaf held
      rw [held, Option.getD_some] at same
      have equal := absorbed_injective (by simp) (by simp) (by simp) same
      simp [equal]

/-- An update stores a user's leaf at the user's index. -/
theorem users_after (users : ∀ i leaf, store i = some leaf →
      ∃ username key counter, leaf = concat username key counter ∧ i = indexOf p username)
    (u : Update) : ∀ i leaf, after p store u i = some leaf →
      ∃ username key counter, leaf = concat username key counter ∧ i = indexOf p username := by
  intro i leaf held
  by_cases here : i = indexOf p u.username
  · subst here
    rw [after, update_self] at held
    cases Option.some.inj held
    cases u with
    | append op => exact ⟨op.username, op.key, 0, rfl, rfl⟩
    | update op => exact ⟨op.username, op.key2, op.counter + 1, rfl, rfl⟩
  · rw [after, update_of_ne here] at held
    exact users i leaf held

theorem run_iff {us : List Update} {root final : InnerHash}
    (users : ∀ i leaf, store i = some leaf →
      ∃ username key counter, leaf = concat username key counter ∧ i = indexOf p username)
    (free : CollisionFreeRun p store us)
    (top : root = node (hashInnerNode p) (digests p store) DEPTH 0)
    (accepts : Accepts checks p (nullLeaf p) root us final) :
    AppendOnlyRun p store us ↔ SparesZeroLeafRun p store us := by
  induction us generalizing store root with
  | nil => exact Iff.rfl
  | cons u us ih =>
    obtain ⟨short, _, climbs, rest⟩ := accepts
    rw [startDigest_eq, top] at climbs
    obtain ⟨start, next⟩ := starts_from_stored free.1 short climbs
    have step := finds_iff free.1 users start
    have later := ih (users_after users u) free.2 next rest
    exact and_congr step later

/-- An accepted run from a directory's root is append-only exactly when it spares the zero
leaf. -/
theorem appendOnly_iff {t : SparseMerkleTree} (directory : Directory p t)
    {c : VerifiableKeyDirectoryCircuit} (initial : c.initialRoot = t.root) {pp : InnerHash}
    (parameter : (SparseMerkleTree.new (hashing p) DEPTH).sparseInitialHashes[DEPTH]? = some pp)
    (accepted : c.verify checks p pp = .ok true)
    (free : CollisionFreeRun p (stored t) c.update) :
    AppendOnlyRun p (stored t) c.update ↔ SparesZeroLeafRun p (stored t) c.update := by
  obtain rfl : nullLeaf p = pp := Option.some.inj (nullLeaf_eq.symm.trans parameter)
  apply run_iff directory.users free _ (verify_eq_true.mp accepted)
  rw [initial, directory.root, hashing_inner]
  rfl

/-- With one digest throughout, the tree hashes one pair. -/
theorem treePairs_constant {D : Type} {hash : D → D → D} {leaf : Nat → D} {c : D}
    (bottom : ∀ i, leaf i = c) (fixed : hash c c = c) (d : Nat) :
    treePairs hash leaf d ⊆ {(c, c)} := by
  rintro _ ⟨h, i, _, _, rfl⟩
  rw [node_constant (c := fun _ => c) bottom (fun _ => fixed),
    node_constant (c := fun _ => c) bottom (fun _ => fixed)]
  rfl

theorem climbPairs_constant {D : Type} {hash : D → D → D} {c : D} (fixed : hash c c = c)
    {path : List (Bool × D)} (siblings : ∀ step ∈ path, step.2 = c) :
    ∀ pair ∈ climbPairs hash path c, pair = (c, c) := by
  induction path with
  | nil => exact fun pair member => absurd member List.not_mem_nil
  | cons step path ih =>
    obtain ⟨right, sibling⟩ := step
    obtain rfl : sibling = c := siblings _ List.mem_cons_self
    have rest := ih fun step member => siblings step (List.mem_cons_of_mem _ member)
    cases right <;> simp only [climbPairs, fixed, List.mem_cons] <;> rintro pair (rfl | later)
    · rfl
    · exact rest pair later
    · rfl
    · exact rest pair later

theorem levelsOf_siblings_constant {D : Type} {hash : D → D → D} {leaf : Nat → D} {c : D}
    (bottom : ∀ i, leaf i = c) (fixed : hash c c = c) (d i : Nat) :
    ∀ step ∈ levelsOf i (siblings hash d leaf i), step.2 = c := by
  have each : ∀ (siblings : List D) (i : Nat), (∀ s ∈ siblings, s = c) →
      ∀ step ∈ levelsOf i siblings, step.2 = c := by
    intro siblings
    induction siblings with
    | nil => exact fun i _ step member => absurd member List.not_mem_nil
    | cons sibling siblings ih =>
      intro i all step member
      rcases List.mem_cons.mp member with rfl | later
      · exact all sibling List.mem_cons_self
      · exact ih _ (fun s here => all s (List.mem_cons_of_mem _ here)) step later
  apply each
  intro s member
  rw [siblings_eq] at member
  obtain ⟨h, _, rfl⟩ := List.mem_map.mp member
  have constant := fun i => node_constant (c := fun _ => c) bottom (fun _ => fixed) h i
  split
  · exact constant _
  · exact constant _

/-- With one digest throughout nothing collides. -/
theorem collisionFree_constant {op : VkdAppend} {t : SparseMerkleTree}
    (represents : Represents (hashing p) DEPTH t)
    (bottom : ∀ i, absorbed p ((stored t i).getD initialLeafValue) = absorbed p initialLeafValue)
    (fixed : hashInnerNode p (nullLeaf p) (nullLeaf p) = nullLeaf p)
    (looked : t.lookupPath ⟨indexOf p op.username, DEPTH⟩ = .ok op.path) :
    CollisionFree p (stored t) (.append op) := by
  have digest : ∀ i, leafDigest (hashing p) DEPTH t i = nullLeaf p := fun i =>
    congrArg (stateDigest p) (bottom i)
  have path := Except.ok.inj (looked.symm.trans (lookupPath_eq represents (indexOf_lt _)))
  have levels : ∀ step ∈ Update.levels p (.append op), step.2 = nullLeaf p := by
    rw [Update.levels, Update.path, path]
    exact levelsOf_siblings_constant digest fixed DEPTH (indexOf p op.username)
  constructor
  · have one : innerCalls p (stored t) (.append op) ⊆ {(nullLeaf p, nullLeaf p)} :=
      Set.union_subset (climbPairs_constant fixed levels)
        (treePairs_constant digest fixed DEPTH)
    exact (Set.injOn_singleton _ _).mono one
  · rintro state (rfl | rfl) state' (rfl | rfl) _
    · rfl
    · exact (bottom _).symm
    · exact bottom _
    · rfl
  · intro short
    have size : op.path.path.length = DEPTH := by rw [path, length_siblings]
    exact absurd size (Nat.ne_of_lt short)

end Facts

theorem linear_fixed : hashInnerNode linearPoseidon (nullLeaf linearPoseidon)
    (nullLeaf linearPoseidon) = nullLeaf linearPoseidon := by
  have zero : nullLeaf linearPoseidon = truncated (0 : PrimeFields.Bls12381Fr) := by
    change truncated (absorbed linearPoseidon initialLeafValue 1) = _
    rw [absorbed_initialLeafValue]
    rfl
  rw [zero]
  decide +kernel

theorem empty_directory :
    Directory linearPoseidon (.new (hashing linearPoseidon) DEPTH) where
  toRepresents := represents_new _ DEPTH
  users _ _ held := nomatch held

theorem firstUser_appended : ∃ path root,
    AppendOnlyRun linearPoseidon (stored (.new (hashing linearPoseidon) DEPTH))
      (linearRun (initialHash (hashing linearPoseidon) DEPTH) root
        [.append ⟨byteArray 32 1, byteArray 32 2, path⟩]).update ↔
    SparesZeroLeafRun linearPoseidon (stored (.new (hashing linearPoseidon) DEPTH))
      [.append ⟨byteArray 32 1, byteArray 32 2, path⟩] := by
  have fresh := empty_directory.toRepresents
  have bound := indexOf_lt (p := linearPoseidon) (byteArray 32 1)
  obtain ⟨path, looked⟩ : ∃ path, SparseMerkleTree.lookupPath _ ⟨_, DEPTH⟩ = .ok path :=
    ⟨_, lookupPath_eq fresh bound⟩
  obtain ⟨t, inserted, _, _⟩ := insert_represents fresh bound
    (concat (byteArray 32 1) (byteArray 32 2) 0)
  have recorded := Recorded.append rfl looked inserted (.done t)
  have accepted := @recorded_verifies _ _ _ linearPoseidon true _ _ .new _ recorded
    (linearRun _ _ _) rfl rfl rfl _ nullLeaf_eq
  have free := @collisionFree_constant _ _ _ linearPoseidon ⟨byteArray 32 1, byteArray 32 2, path⟩ _
    fresh (fun _ => rfl) linear_fixed looked
  exact ⟨path, t.root, appendOnly_iff empty_directory rfl nullLeaf_eq accepted ⟨free, trivial⟩⟩

/-- The zero name appended over itself: the leaf that is replaced is the zero leaf. -/
theorem zeroUser_appendedTwice : ∃ (t : SparseMerkleTree) (c : VerifiableKeyDirectoryCircuit),
    Directory linearPoseidon t ∧ c.initialRoot = t.root ∧
    c.verify true linearPoseidon (nullLeaf linearPoseidon) = .ok true ∧
    CollisionFreeRun linearPoseidon (stored t) c.update ∧
    ¬ AppendOnlyRun linearPoseidon (stored t) c.update := by
  have bound := indexOf_lt (p := linearPoseidon) (byteArray 32 0)
  obtain ⟨t, _, kept, represents⟩ := insert_represents empty_directory.toRepresents bound
    (concat (byteArray 32 0) (byteArray 32 0) 0)
  have zero : concat (byteArray 32 0) (byteArray 32 0) 0 = zeroLeaf := by decide
  have held : ∀ i, stored t i = if i = indexOf linearPoseidon (byteArray 32 0) then some zeroLeaf
      else none := by
    intro i
    by_cases here : i = indexOf linearPoseidon (byteArray 32 0)
    · rw [if_pos here, here, stored, kept, update_self, zero]
    · have other : (⟨i, DEPTH⟩ : MerkleIndex) ≠ ⟨indexOf linearPoseidon (byteArray 32 0), DEPTH⟩ := by
        rintro ⟨⟩
        exact here rfl
      rw [if_neg here, stored, kept, update_of_ne other]
      rfl
  have directory : Directory linearPoseidon t := by
    refine ⟨represents, fun i leaf found => ?_⟩
    rw [show t.leaves ⟨i, DEPTH⟩ = stored t i from rfl, held] at found
    split at found
    · exact ⟨byteArray 32 0, byteArray 32 0, 0, (Option.some.inj found).symm.trans zero.symm, ‹_›⟩
    · cases found
  have bottom : ∀ i, absorbed linearPoseidon ((stored t i).getD initialLeafValue) =
      absorbed linearPoseidon initialLeafValue := by
    intro i
    rw [held]
    split
    · exact absorbed_zeroLeaf
    · rfl
  obtain ⟨path, looked⟩ : ∃ path, t.lookupPath ⟨_, DEPTH⟩ = .ok path :=
    ⟨_, lookupPath_eq represents bound⟩
  obtain ⟨t', inserted, _, _⟩ := insert_represents represents bound
    (concat (byteArray 32 0) (byteArray 32 1) 0)
  obtain ⟨size, _, before, next⟩ :=
    climbs_of_lookup (u := .append ⟨byteArray 32 0, byteArray 32 1, path⟩) represents looked inserted
  have digest : leafDigest (hashing linearPoseidon) DEPTH t
      (indexOf linearPoseidon (byteArray 32 0)) = nullLeaf linearPoseidon :=
    congrArg (stateDigest linearPoseidon) (bottom _)
  rw [Update.username, digest] at before
  refine ⟨t, linearRun t.root t'.root [.append ⟨byteArray 32 0, byteArray 32 1, path⟩], directory,
    rfl, ?_, ⟨?_, trivial⟩, ?_⟩
  · exact verify_eq_true.mpr ⟨le_of_eq size, trivial, before, next⟩
  · exact collisionFree_constant represents bottom linear_fixed looked
  · rintro ⟨finds, _⟩
    rw [Finds, held, if_pos rfl] at finds
    cases finds

end AppendOnly
