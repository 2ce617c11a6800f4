import Hekaton.VkdBatches
import Hekaton.VkdInstances

/-!
# Completeness of the key directory's circuit

For an accepted batch the trace is recorded and all constraints hold exactly where every
operation is ready after those before it, no path has one sibling less than the tree has
levels, and the four pieces of each path lead from root to root. The last is so wherever the
paths are as long as the tree is high.
-/

namespace VkdCompleteness

open Outcomes HonestRuns FieldGadgets VkdGadgets MirroredRuns PortalManager PrimeFields VkdHash
open SparseTree VkdCircuits KeyDirectory VkdSubcircuits VkdNames VkdTraces VkdAgreement MerkleTrees
open Function Transcript VkdWires VkdBatches VkdInstances SparseMerkleTrees Synthesis

section Runs
variable {F : Type} [Field F] [PrimeField F] {p : Poseidon F} {c : VerifiableKeyDirectoryCircuit}
variable {s : Store}

/-- The root before operation `i`: the initial one, or the new root of the operation before. -/
def rootAt (new : Update → InnerHash) (initial : InnerHash) (us : List Update) (i : Nat) :
    InnerHash := if i = 0 then initial else ((us[i - 1]?).map new).getD initial

abbrev rootBefore (p : Poseidon F) (c : VerifiableKeyDirectoryCircuit) (i : Nat) : InnerHash :=
  rootAt (newRoot p) c.initialRoot c.update i

/-- The paths, climbed piece by piece, lead from each root to the next. -/
def Linked (p : Poseidon F) (c : VerifiableKeyDirectoryCircuit) : Prop :=
  (∀ i u, c.update[i]? = some u → oldRoot p c.params.nullLeaf u = rootBefore p c i) ∧
    c.finalRoot = rootBefore p c c.update.length

theorem previous_held (held : Held p c c.update s) {i : Nat} (inside : i ≤ c.update.length) :
    s.node (previousRoot i) = some (rootBefore p c i) := by
  rw [previousRoot, rootBefore, rootAt]
  by_cases first : i = 0
  · rw [if_pos first, if_pos first, held.initial]
  · have before : i - 1 < c.update.length := by omega
    have found := List.getElem?_eq_getElem before
    rw [if_neg first, if_neg first, (held.roots _ _ found).2, found]
    rfl

/-- A primitive that compares nothing. -/
def Quiet : PrimitiveSubcircuit → Prop
  | .equalityPrimitive _ => False
  | _ => True

theorem forall_climbs {P : PrimitiveSubcircuit → Prop}
    (quiet : ∀ primitive, Quiet primitive → P primitive) {k pathId : UInt64} {start : NodeAddress}
    {leaf : Leaf} {path : MerkleTreePath} :
    ∀ primitive ∈ climbs k pathId start leaf path, P primitive := by
  intro primitive member
  obtain ⟨i, _, rfl⟩ := List.mem_map.mp member
  exact quiet _ trivial

theorem forall_operation {P : PrimitiveSubcircuit → Prop}
    (quiet : ∀ primitive, Quiet primitive → P primitive) (idx : Nat) (u : Update) :
    (∀ primitive ∈ (operationLayout idx u).flatMap SubCircuit.compoundPrimitiveVec, P primitive) ↔
      P (rootCheck idx) := by
  cases u with
  | update u =>
    rw [updatePrimitives, List.forall_mem_append, List.forall_mem_cons, List.forall_mem_cons]
    exact ⟨fun all => all.2.1, fun check =>
      ⟨forall_climbs quiet, check, quiet _ trivial, forall_climbs quiet⟩⟩
  | append u =>
    rw [appendPrimitives, List.forall_mem_cons, List.forall_mem_cons, List.forall_mem_append,
      List.forall_mem_cons]
    exact ⟨fun all => all.2.2.2.1, fun check => ⟨quiet _ trivial, quiet _ trivial,
      forall_climbs quiet, check, forall_climbs quiet⟩⟩

theorem forall_operations {P : PrimitiveSubcircuit → Prop}
    (quiet : ∀ primitive, Quiet primitive → P primitive) (idx : Nat) (us : List Update) :
    (∀ primitive ∈ (operationsLayout idx us).flatMap SubCircuit.compoundPrimitiveVec,
      P primitive) ↔ ∀ i < us.length, P (rootCheck (idx + i)) := by
  induction us generalizing idx with
  | nil => exact iff_of_true (fun _ member => absurd member List.not_mem_nil) nofun
  | cons u us ih =>
    rw [operationsLayout, List.flatMap_append, List.forall_mem_append, forall_operation quiet, ih,
      List.length_cons]
    constructor
    · rintro ⟨here, later⟩ i inside
      cases i with
      | zero => exact here
      | succ i =>
        have check := later i (Nat.lt_of_succ_lt_succ inside)
        rwa [Nat.add_right_comm] at check
    · intro all
      refine ⟨all 0 (Nat.succ_pos _), fun i inside => ?_⟩
      have check := all (i + 1) (Nat.succ_lt_succ inside)
      rwa [Nat.add_right_comm]

/-- What all primitives of a batch say is what its comparisons say. -/
theorem forall_layout {P : PrimitiveSubcircuit → Prop}
    (quiet : ∀ primitive, Quiet primitive → P primitive) (us : List Update) :
    (∀ subcircuit ∈ layout us, ∀ primitive ∈ subcircuit.compoundPrimitiveVec, P primitive) ↔
      (∀ i < us.length, P (rootCheck i)) ∧ P (finalCheck us) := by
  have flat : (∀ subcircuit ∈ layout us, ∀ primitive ∈ subcircuit.compoundPrimitiveVec,
      P primitive) ↔ ∀ primitive ∈ (layout us).flatMap SubCircuit.compoundPrimitiveVec,
        P primitive := by
    constructor
    · intro all primitive member
      obtain ⟨subcircuit, listed, inside⟩ := List.mem_flatMap.mp member
      exact all subcircuit listed primitive inside
    · intro all subcircuit listed primitive inside
      exact all primitive (List.mem_flatMap.mpr ⟨subcircuit, listed, inside⟩)
  have first : ∀ primitive ∈ front.flatMap SubCircuit.compoundPrimitiveVec, P primitive := by
    intro primitive member
    have kinds : primitive = .paddingPrimitive ∨ primitive = .writePublicParameterPrimitive := by
      simpa [front] using member
    rcases kinds with rfl | rfl
    · exact quiet _ trivial
    · exact quiet _ trivial
  rw [flat, layout_eq, List.flatMap_append, List.flatMap_append, List.forall_mem_append,
    List.forall_mem_append, forall_operations quiet]
  simp only [Nat.zero_add]
  constructor
  · rintro ⟨_, operations, final⟩
    exact ⟨operations, final _ List.mem_cons_self⟩
  · rintro ⟨operations, final⟩
    refine ⟨first, operations, fun primitive member => ?_⟩
    obtain rfl := List.mem_singleton.mp member
    exact final

/-- All comparisons of a batch hold where its roots are linked. -/
theorem all_hold_iff {state : NativeState F} (rests : Rests state s)
    (held : Held p c c.update s) :
    (∀ subcircuit ∈ layout c.update, ∀ primitive ∈ subcircuit.compoundPrimitiveVec,
      Holds state.pm primitive) ↔ Linked p c := by
  have quiet : ∀ primitive, Quiet primitive → Holds state.pm primitive := by
    rintro ⟨⟩ silent
    case equalityPrimitive => exact silent.elim
    all_goals trivial
  have checks : ∀ i u, c.update[i]? = some u → (Holds state.pm (rootCheck i) ↔
      oldRoot p c.params.nullLeaf u = rootBefore p c i) := by
    intro i u found
    obtain ⟨inside, _⟩ := List.getElem?_eq_some_iff.mp found
    rw [rootCheck, holds_iff rests, (held.roots i u found).1, previous_held held (Nat.le_of_lt inside),
      Option.some_inj]
  have last : Holds state.pm (finalCheck c.update) ↔
      c.finalRoot = rootBefore p c c.update.length := by
    rw [finalCheck, holds_iff rests, held.final, previous_held held le_rfl, Option.some_inj]
  rw [forall_layout quiet, last, Linked]
  apply and_congr_left
  intro _
  constructor
  · intro operations i u found
    exact (checks i u found).mp (operations i (List.getElem?_eq_some_iff.mp found).1)
  · intro operations i inside
    exact (checks i _ (List.getElem?_eq_getElem inside)).mpr
      (operations i _ (List.getElem?_eq_getElem inside))

/-- A path no longer than the tree is high can be cut, unless one sibling is missing. -/
theorem short_iff {path : MerkleTreePath} (fits : path.path.length ≤ DEPTH) :
    Short path ↔ path.path.length ≠ 127 := by
  have low : (pieceOf path 0).path.length = path.path.length / 2 / 2 := by
    change ((path.path.take _).take _).length = _
    rw [List.length_take, List.length_take]
    omega
  have second : (pieceOf path 1).path.length =
      path.path.length / 2 - path.path.length / 2 / 2 := by
    change ((path.path.take _).drop _).length = _
    rw [List.length_drop, List.length_take]
    omega
  have third : (pieceOf path 2).path.length = path.path.length / 2 / 2 := by
    change ((path.path.drop _).take _).length = _
    rw [List.length_take, List.length_drop]
    omega
  have high : (pieceOf path 3).path.length =
      path.path.length - path.path.length / 2 - path.path.length / 2 / 2 := by
    change ((path.path.drop _).drop _).length = _
    rw [List.length_drop, List.length_drop]
  have bound : path.path.length ≤ 128 := fits
  constructor
  · intro short missing
    have last := short 3 (by decide)
    rw [high, missing] at last
    exact absurd last (by decide)
  · intro whole i inside
    have cases : i = 0 ∨ i = 1 ∨ i = 2 ∨ i = 3 := by
      change i < 4 at inside
      omega
    rcases cases with rfl | rfl | rfl | rfl
    · omega
    · omega
    · omega
    · omega

theorem userPiece_eq (username : Username) (i : Nat) : userPiece p username.toList i =
    indexOf p username / 2 ^ (32 * i) % 2 ^ 32 := by
  rw [userPiece, indexOf]

/-- The pieces of a path of the tree's height have 32 siblings each. -/
theorem pieceOf_eq {path : MerkleTreePath} (size : path.path.length = DEPTH) {i : Nat}
    (inside : i < splitFactor) : pieceOf path i = ⟨piece path.path i⟩ ∧
      (piece path.path i).length = pathLength := by
  have low : i < 4 := inside
  constructor
  · rw [pieceOf, pathPieces_eq size, List.getD_eq_getElem?_getD, List.getElem?_map,
      List.getElem?_range inside]
    rfl
  · rw [piece, List.length_take, List.length_drop, size]
    change min 32 (128 - 32 * i) = 32
    omega

/-- Four pieces of a path of the tree's height climb as the whole path does. -/
theorem climbAll_eq {path : MerkleTreePath} (size : path.path.length = DEPTH)
    (username : Username) (digest : InnerHash) : climbAll p username.toList path digest =
      climb (hashInnerNode p) (levelsOf (indexOf p username) path.path) digest := by
  have one : ∀ i < splitFactor, ∀ digest, climbOne p username.toList path i digest =
      climb (hashInnerNode p) (levelsOf (indexOf p username / 2 ^ (32 * i)) (piece path.path i))
        digest := by
    intro i inside digest
    obtain ⟨same, length⟩ := pieceOf_eq size inside
    rw [climbOne, userPiece_eq, same, levelsOf_mod (le_of_eq length)]
  have whole : path.path = piece path.path 0 ++ (piece path.path 1 ++
      (piece path.path 2 ++ piece path.path 3)) := by
    have next (n : Nat) : path.path.drop (32 * n) =
        piece path.path n ++ path.path.drop (32 * (n + 1)) := by
      have cut := (List.take_append_drop 32 (path.path.drop (32 * n))).symm
      rwa [List.drop_drop, ← Nat.mul_succ] at cut
    have end' : path.path.drop (32 * (3 + 1)) = [] := List.drop_eq_nil_of_le (le_of_eq size)
    have start := next 0
    rwa [next 1, next 2, next 3, end', List.append_nil] at start
  have width (i : Nat) (inside : i < splitFactor) (n : Nat) :
      n / 2 ^ (32 * i) / 2 ^ (piece path.path i).length = n / 2 ^ (32 * (i + 1)) := by
    rw [(pieceOf_eq size inside).2, Nat.div_div_eq_div_mul, ← pow_add, Nat.mul_succ]
  have lowest : indexOf p username / 2 ^ (32 * 0) = indexOf p username := by
    rw [Nat.mul_zero, pow_zero, Nat.div_one]
  have levels := congrArg (levelsOf (indexOf p username / 2 ^ (32 * 0))) whole
  rw [levelsOf_append, width 0 (by decide), levelsOf_append, width 1 (by decide), levelsOf_append,
    width 2 (by decide), lowest] at levels
  rw [climbAll, one 0 (by decide), one 1 (by decide), one 2 (by decide), one 3 (by decide),
    ← climb_append, ← climb_append, ← climb_append, levels, lowest]

/-- The new root along the whole path, as the verifier computes it. -/
def wholeRoot (p : Poseidon F) (u : Update) : InnerHash :=
  climb (hashInnerNode p) (u.levels p) (hashLeaf p u.leaf)

theorem rootAt_cons {new : Update → InnerHash} {initial : InnerHash} {u : Update}
    {us : List Update} {i : Nat} (inside : i ≤ us.length) :
    rootAt new initial (u :: us) (i + 1) = rootAt new (new u) us i := by
  rw [rootAt, rootAt, if_neg (Nat.succ_ne_zero i), Nat.add_sub_cancel]
  by_cases zero : i = 0
  · subst zero
    rfl
  · obtain ⟨j, rfl⟩ := Nat.exists_eq_succ_of_ne_zero zero
    have known : us[j]? = some us[j] := List.getElem?_eq_getElem (by omega)
    rw [if_neg zero, List.getElem?_cons_succ, Nat.succ_sub_one, known]
    rfl

/-- The digests between the operations of an accepted batch. -/
theorem roots_of_accepts {checks : Bool} {pp root final : InnerHash} {us : List Update}
    (accepts : Accepts checks p pp root us final) :
    (∀ i u, us[i]? = some u → climb (hashInnerNode p) (u.levels p) (startDigest p pp u) =
      rootAt (wholeRoot p) root us i) ∧ final = rootAt (wholeRoot p) root us us.length := by
  induction us generalizing root with
  | nil => exact ⟨fun i u found => (nomatch found), accepts.symm⟩
  | cons v us ih =>
    obtain ⟨_, _, first, rest⟩ := accepts
    obtain ⟨steps, last⟩ := ih rest
    constructor
    · intro i u found
      cases i with
      | zero =>
        cases found
        exact first
      | succ i =>
        obtain ⟨inside, _⟩ := List.getElem?_eq_some_iff.mp found
        rw [rootAt_cons (Nat.le_of_lt_succ (Nat.lt_of_succ_lt inside))]
        exact steps i u found
    · rw [List.length_cons, rootAt_cons le_rfl]
      exact last

/-- Along paths as long as the tree is high, the batch reaches the verifier's roots. -/
theorem rootAt_whole (whole : ∀ u ∈ c.update, u.path.path.length = DEPTH) (i : Nat) :
    rootAt (wholeRoot p) c.initialRoot c.update i = rootBefore p c i := by
  rw [rootBefore, rootAt, rootAt]
  cases found : c.update[i - 1]? with
  | none => rfl
  | some u =>
    have size := whole u (List.mem_of_getElem? found)
    rw [Option.map_some, Option.map_some, wholeRoot, newRoot, climbAll_eq size]
    rfl

/-- Where the paths are as long as the tree is high, an accepted batch is linked. -/
theorem linked_of_whole {checks : Bool} (whole : ∀ u ∈ c.update, u.path.path.length = DEPTH)
    (accepts : Accepts checks p c.params.nullLeaf c.initialRoot c.update c.finalRoot) :
    Linked p c := by
  obtain ⟨steps, last⟩ := roots_of_accepts accepts
  have same := rootAt_whole (p := p) whole
  constructor
  · intro i u found
    rw [oldRoot, climbAll_eq (whole u (List.mem_of_getElem? found)), ← same]
    exact steps i u found
  · rw [← same]
    exact last

theorem lengths_of_accepts {checks : Bool} {pp root final : InnerHash} {us : List Update}
    (accepts : Accepts checks p pp root us final) : ∀ u ∈ us, u.path.path.length ≤ DEPTH := by
  induction us generalizing root with
  | nil => exact fun u member => absurd member List.not_mem_nil
  | cons v us ih =>
    obtain ⟨fits, _, _, rest⟩ := accepts
    exact List.forall_mem_cons.mpr ⟨fits, ih rest⟩

end Runs

section Completeness
variable {F D : Type} [Field F] [PrimeField F] [DecidableEq F] [Inhabited D] [DecidableEq D]
variable {p : Poseidon F} {c : VerifiableKeyDirectoryCircuit} {checks : Bool}

/-- The native trace is recorded, and the constraints of all subcircuits in order run and are
satisfied. -/
def Completes (checks : Bool) (p : Poseidon F) (D : Type) [Inhabited D] [DecidableEq D]
    (c : VerifiableKeyDirectoryCircuit) : Prop :=
  (∃ traces, getPortalSubtraces p checks D c = .ok traces) ∧
    ∃ r, recordBodies (D := D) ((List.range c.subcircuits.length).map (generateConstraints p c))
      (SetupRomPortalManager.new : SetupRomPortalManager F) [] = .ok r ∧
      r.2.Satisfied (assignmentOf r.2.allocations)

/-- What a batch needs beside the verifier's checks. -/
structure Provable (p : Poseidon F) (c : VerifiableKeyDirectoryCircuit) : Prop where
  ready : ∀ i u, c.update[i]? = some u → Ready (c.update.take i) u
  cut : ∀ u ∈ c.update, u.path.path.length ≠ 127
  linked : Linked p c

/-- The native trace is recorded exactly for batches in order. -/
theorem recorded_iff (laid : vkdUpdateToSubcircuit checks c.update = .ok c.subcircuits)
    (bound : c.update.length < 2 ^ 64) :
    (∃ traces, getPortalSubtraces p checks D c = .ok traces) ↔ Orderly c.update := by
  rw [traced_iff]
  obtain ⟨_, _, same⟩ := vkdUpdateToSubcircuit_eq_ok.mp laid
  constructor
  · rintro ⟨subcircuits, s, laid', run⟩
    cases laid.symm.trans laid'
    rw [← same] at run
    exact orderly_of_batch bound run
  · intro orderly
    obtain ⟨s, run, _⟩ := batch_ok (p := p) (c := c) orderly bound
    exact ⟨c.subcircuits, s, laid, same ▸ run⟩

/-- In order, the constraints run, and are satisfied where the roots are linked. -/
theorem satisfied_iff_linked (laid : vkdUpdateToSubcircuit checks c.update = .ok c.subcircuits)
    (bound : c.update.length < 2 ^ 64) (orderly : Orderly c.update) :
    (∃ r, recordBodies (D := D) ((List.range c.subcircuits.length).map (generateConstraints p c))
      (SetupRomPortalManager.new : SetupRomPortalManager F) [] = .ok r ∧
      r.2.Satisfied (assignmentOf r.2.allocations)) ↔ Linked p c := by
  obtain ⟨_, _, same⟩ := vkdUpdateToSubcircuit_eq_ok.mp laid
  obtain ⟨s, run, held⟩ := batch_ok (p := p) (c := c) orderly bound
  rw [same] at run
  obtain ⟨state, ran, rests⟩ :=
    (subcircuits_match (p := p) (c := c) c.subcircuits (rests_new (F := F))).runs s run
  obtain ⟨r, e, generated, holds, _⟩ := (constraints_follow (D := D) ran).2
  have alone := holds []
  rw [List.nil_append, List.append_nil] at alone
  have linked := all_hold_iff rests held
  rw [same] at linked
  rw [← linked, ← alone]
  constructor
  · rintro ⟨r', again, satisfied⟩
    cases generated.symm.trans again
    exact satisfied
  · exact fun satisfied => ⟨(r, e), generated, satisfied⟩

/-- An accepted batch can be proved exactly where it is in order, its paths can be cut, and
their pieces link its roots. -/
theorem completes_iff (verified : c.verify checks p c.params.nullLeaf = .ok true)
    (laid : vkdUpdateToSubcircuit checks c.update = .ok c.subcircuits)
    (bound : c.update.length < 2 ^ 64) : Completes checks p D c ↔ Provable p c := by
  have lengths := lengths_of_accepts (verify_eq_true.mp verified)
  rw [Completes, recorded_iff laid bound]
  constructor
  · rintro ⟨orderly, satisfied⟩
    refine ⟨fun i u found => (orderly i u found).1, fun u member => ?_,
      (satisfied_iff_linked laid bound orderly).mp satisfied⟩
    obtain ⟨i, found⟩ := List.mem_iff_getElem?.mp member
    exact (short_iff (lengths u member)).mp (orderly i u found).2
  · intro provable
    have orderly : Orderly c.update := by
      intro i u found
      have member := List.mem_of_getElem? found
      exact ⟨provable.ready i u found, (short_iff (lengths u member)).mpr (provable.cut u member)⟩
    exact ⟨orderly, (satisfied_iff_linked laid bound orderly).mpr provable.linked⟩

end Completeness

section Instances
variable {F : Type} [Field F] [PrimeField F] {p : Poseidon F} {checks : Bool} {n : Nat}

theorem counter_of_leafArray {username username' : Username} {key key' : Key}
    {counter counter' : Counter}
    (same : leafArray username key counter = leafArray username' key' counter') :
    counter = counter' := by
  have cut : ∀ (username : Username) (key : Key) (counter : Counter),
      ((leafArray username key counter).toList.drop 32).take 2 =
        Codecs.littleEndian 2 counter.toNat := by
    intro username key counter
    have width : username.toList.length = 32 := username.toList_length
    change ((concat username key counter).drop 32).take 2 = _
    rw [concat, List.append_assoc, List.drop_left' width, List.take_left' (by simp)]
  have number := congrArg (fun leaf : Leaf => Codecs.fromLittleEndian ((leaf.toList.drop 32).take 2))
    same
  have small := counter.toNat_lt
  have small' := counter'.toNat_lt
  simp only [cut] at number
  rw [Codecs.fromLittleEndian_littleEndian small, Codecs.fromLittleEndian_littleEndian small']
    at number
  exact UInt16.toNat_inj.mp number

theorem instanceUpdates_getElem? (m : Nat) (inside : m < n) :
    (instanceUpdates p n)[m + 1]? = some (instanceUpdate p m) := by
  rw [instanceUpdates, List.getElem?_cons_succ, List.getElem?_map, List.getElem?_range inside,
    Option.map_some]

/-- The leaf that operation `i` writes has counter `i`. -/
theorem writtenLeaf_instance {i : Nat} (inside : i ≤ n) :
    ((instanceUpdates p n)[i]?).map writtenLeaf =
      some (leafArray instanceUser (keyAfter i) (UInt16.ofNat i)) := by
  cases i with
  | zero => rfl
  | succ m =>
    rw [instanceUpdates_getElem? m inside, Option.map_some, instanceUpdate, writtenLeaf, newLeaf,
      UInt16.ofNat_add]
    rfl

theorem instanceUpdates_short {u : Update} (member : u ∈ instanceUpdates p n) :
    u.path.path.length = DEPTH := by
  rcases List.mem_cons.mp member with rfl | updated
  · exact instancePath_length
  · obtain ⟨m, _, rfl⟩ := List.mem_map.mp updated
    exact instancePath_length

/-- While the counter does not run over, every operation is ready. -/
theorem instance_ready (small : n ≤ 65535) {i : Nat} {u : Update}
    (found : (instanceUpdates p n)[i]? = some u) : Ready ((instanceUpdates p n).take i) u := by
  have taken : ∀ leaf, leaf ∈ ((instanceUpdates p n).take i).map writtenLeaf ↔
      ∃ j < i, ((instanceUpdates p n)[j]?).map writtenLeaf = some leaf := by
    intro leaf
    simp only [List.mem_iff_getElem?, List.getElem?_map, List.getElem?_take]
    constructor
    · rintro ⟨j, known⟩
      by_cases earlier : j < i
      · exact ⟨j, earlier, by rwa [if_pos earlier] at known⟩
      · rw [if_neg earlier] at known
        cases known
    · rintro ⟨j, earlier, known⟩
      exact ⟨j, by rwa [if_pos earlier]⟩
  cases i with
  | zero =>
    cases found
    exact ⟨List.not_mem_nil, List.not_mem_nil⟩
  | succ m =>
    obtain ⟨inside, _⟩ := List.getElem?_eq_some_iff.mp found
    rw [instanceUpdates_length] at inside
    cases (instanceUpdates_getElem? m (by omega)).symm.trans found
    refine ⟨(taken _).mpr ⟨m, Nat.lt_succ_self m, writtenLeaf_instance (by omega)⟩, ?_⟩
    rintro member
    obtain ⟨j, earlier, same⟩ := (taken _).mp member
    have written := writtenLeaf_instance (p := p) (n := n) (i := m + 1) (by omega)
    rw [writtenLeaf_instance (by omega)] at same
    rw [instanceUpdates_getElem? m (by omega), Option.map_some] at written
    have counters := counter_of_leafArray ((Option.some.inj same).trans (Option.some.inj written))
    have number := congrArg UInt16.toNat counters
    rw [UInt16.toNat_ofNat_of_lt' (by change j < 65536; omega),
      UInt16.toNat_ofNat_of_lt' (by change m + 1 < 65536; omega)] at number
    omega

theorem instance_orderly (small : n ≤ 65535) : Orderly (instanceUpdates p n) := by
  intro i u found
  have size := instanceUpdates_short (List.mem_of_getElem? found)
  refine ⟨instance_ready small found, (short_iff (le_of_eq size)).mpr ?_⟩
  rw [size]
  decide

/-- What is generated can be proved, while the counter does not run over. -/
theorem instance_provable {params : VerifiableKeyDirectoryCircuitParams}
    (parameter : params.nullLeaf = nullLeaf p) (small : n ≤ 65535)
    (apart : indexOf p genesisUser ≠ indexOf p instanceUser) :
    Provable p (instanceOf p params n) := by
  refine ⟨fun i u found => instance_ready small found, fun u member => ?_, ?_⟩
  · rw [instanceUpdates_short member]
    decide
  · have accepted : Accepts false p (instanceOf p params n).params.nullLeaf
        (instanceOf p params n).initialRoot (instanceOf p params n).update
        (instanceOf p params n).finalRoot := by
      change Accepts false p params.nullLeaf _ _ _
      rw [parameter]
      exact instance_accepted apart fun i _ => nofun
    exact linked_of_whole (fun u member => instanceUpdates_short member) accepted

end Instances

/-- The generated instance of 32 subcircuits. -/
def demo : VerifiableKeyDirectoryCircuit :=
  instanceOf linearPoseidon ⟨5, nullLeaf linearPoseidon⟩ 2

theorem demo_completes : Completes true linearPoseidon Unit demo := by
  have apart : indexOf linearPoseidon genesisUser ≠ indexOf linearPoseidon instanceUser := by
    decide +kernel
  have room : ∀ i < 2, CounterRoom true i := counterRoom_below.mpr fun _ => by decide
  have verified : demo.verify true linearPoseidon demo.params.nullLeaf = .ok true :=
    verify_eq_true.mpr (instance_accepted apart room)
  have laid : vkdUpdateToSubcircuit true demo.update = .ok demo.subcircuits :=
    vkdUpdateToSubcircuit_eq_ok.mpr
      ⟨instanceUpdates_fit room, fun _ => List.cons_ne_nil _ _, rfl⟩
  have bound : demo.update.length < 2 ^ 64 := by
    change (instanceUpdates linearPoseidon 2).length < 2 ^ 64
    rw [instanceUpdates_length]
    decide
  exact (completes_iff verified laid bound).mpr (instance_provable rfl (by decide) apart)

/-- A user who was appended before the batch is updated. -/
def updateAlone : VerifiableKeyDirectoryCircuit where
  initialRoot := rootOf linearPoseidon (leavesAfter linearPoseidon 0)
  params := ⟨4, nullLeaf linearPoseidon⟩
  finalRoot := rootOf linearPoseidon (leavesAfter linearPoseidon 1)
  update := [instanceUpdate linearPoseidon 0]
  subcircuits := layout [instanceUpdate linearPoseidon 0]

/-- The verifier accepts the update, and its old leaf is never written. -/
theorem updateAlone_incomplete :
    updateAlone.verify true linearPoseidon updateAlone.params.nullLeaf = .ok true ∧
    vkdUpdateToSubcircuit true updateAlone.update = .ok updateAlone.subcircuits ∧
    ¬ Completes true linearPoseidon Unit updateAlone := by
  have room : ∀ i < 0 + 1, CounterRoom true i := counterRoom_below.mpr fun _ => by decide
  have verified : updateAlone.verify true linearPoseidon updateAlone.params.nullLeaf = .ok true :=
    verify_eq_true.mpr (updates_accepted _ room)
  have fits : ∀ u ∈ updateAlone.update, u.CounterFits true := by
    intro u member
    obtain rfl := List.mem_singleton.mp member
    exact room 0 (by decide)
  have laid : vkdUpdateToSubcircuit true updateAlone.update = .ok updateAlone.subcircuits :=
    vkdUpdateToSubcircuit_eq_ok.mpr ⟨fits, fun _ => List.cons_ne_nil _ _, rfl⟩
  refine ⟨verified, laid, fun completes => ?_⟩
  have orderly := (recorded_iff laid (by decide)).mp completes.1
  exact absurd (orderly 0 _ rfl).1.1 List.not_mem_nil

end VkdCompleteness
