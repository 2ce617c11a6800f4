import Hekaton.VkdCompleteness
import Hekaton.VkdIdeal

/-!
# Soundness of the key directory's circuit

Even over ideal gadgets the rows leave the leaves, the users and both paths of every operation
to the prover. Where an assignment takes them from one list of updates, with one path for the
old and the new root, the verifier accepts that list between the roots on the wires. Where it
takes another path for the new root, the rows hold between roots that no list connects.
-/

namespace VkdSoundness

open Outcomes Wires Synthesis PortalManager PrimeFields VkdHash SparseTree VkdCircuits
open KeyDirectory VkdGadgets VkdSubcircuits VkdNames VkdTraces VkdBatches VkdCompleteness VkdIdeal
open MerkleTrees SparseMerkleTrees HonestRuns

/-- The kind and the user of an update. -/
inductive UpdateShape where
  | update (username : Username)
  | append (username : Username)
  deriving DecidableEq

def shapeOf : Update → UpdateShape
  | .update u => .update u.username
  | .append u => .append u.username

/-- Every old leaf is the leaf of the operation whose leaf hash the batch `us` climbs from. -/
def Wired (us us' : List Update) : Prop :=
  ∀ (i : Nat) u u', us[i]? = some (Update.update u) → us'[i]? = some (Update.update u') →
    ∃ (j : Nat) (v v' : Update), us[j]? = some v ∧ us'[j]? = some v' ∧ oldLeaf u = writtenLeaf v ∧
      oldLeaf u' = writtenLeaf v'

section Statements
variable {F D : Type} [Field F] [PrimeField F] [DecidableEq F] [DecidableEq D]
variable (checks : Bool) (p : Poseidon F) (z : Assignment F D)

/-- The wire at this address has the element of the digest. -/
def ReadsAs (portal : IdealPortal F D) (a : NodeAddress) (digest : InnerHash) : Prop :=
  ∃ w, portal.wires a.toName = some w ∧ w.eval z = (innerHashToField digest : F)

/-- The verifier accepts some updates of this shape, between the roots on the wires and from
the null leaf there. -/
def Verified (us : List Update) (portal : IdealPortal F D) : Prop :=
  ∃ c : VerifiableKeyDirectoryCircuit, c.update.map shapeOf = us.map shapeOf ∧
    ReadsAs z portal .initialRoot c.initialRoot ∧ ReadsAs z portal .finalRoot c.finalRoot ∧
    ReadsAs z portal .nullLeaf c.params.nullLeaf ∧
    c.verify checks p c.params.nullLeaf = .ok true

omit [DecidableEq F] [DecidableEq D] in
/-- The circuit consists of the subcircuits of its updates, with these wires and rows. -/
structure Synthesized (c : VerifiableKeyDirectoryCircuit) (portal : IdealPortal F D)
    (rows : List (Constraint F D)) : Prop where
  laid : vkdUpdateToSubcircuit checks c.update = .ok c.subcircuits
  bound : c.update.length < 2 ^ 64
  run : ∃ e, synthesize p c [] = .ok (portal, e) ∧ e.constraints = rows

/-- The assignment gives the leaves, users, siblings and roots the values of one circuit, whose
updates have this shape and wiring and one path each, as long as the tree is high. -/
structure Consistent (us : List Update) (c : VerifiableKeyDirectoryCircuit) : Prop where
  laid : vkdUpdateToSubcircuit checks c.update = .ok c.subcircuits
  shape : c.update.map shapeOf = us.map shapeOf
  wired : Wired us c.update
  whole : ∀ u ∈ us ++ c.update, u.path.path.length = DEPTH
  given : Agrees z 0 (witnesses c)

end Statements

section Digests
variable {F : Type} [Field F] [PrimeField F] (p : Poseidon F)

/-- Where the first `n` pieces of a path lead. -/
def climbFirst (user : List UInt8) (path : MerkleTreePath) (n : Nat) (digest : InnerHash) :
    InnerHash := (List.range n).foldl (fun digest i => climbOne p user path i digest) digest

/-- The digest that the old path, of number 0, or the new one starts from. -/
def startOf (nullLeaf : InnerHash) (pathId : UInt64) (u : Update) : InnerHash :=
  if pathId = 0 then startDigest p nullLeaf u else hashLeaf p u.leaf

def reached (c : VerifiableKeyDirectoryCircuit) (pathId updateIdx : UInt64) (n : Nat) : InnerHash :=
  (c.update[updateIdx.toNat]?).elim c.initialRoot fun u =>
    climbFirst p u.username.toList u.path n (startOf p c.params.nullLeaf pathId u)

/-- The digest of a circuit's node, where the leaves are named as in the batch `us`. -/
def digestAt (us : List Update) (c : VerifiableKeyDirectoryCircuit) : NodeAddress → InnerHash
  | .initialRoot => c.initialRoot
  | .finalRoot => c.finalRoot
  | .nullLeaf => c.params.nullLeaf
  | .leafHash a => (c.update[(us.map writtenLeaf).idxOf a.leaf]?).elim c.initialRoot fun u =>
      hashLeaf p u.leaf
  | .intermediateRoot a => reached p c a.pathId a.updateIdx (a.indicator.toNat + 1)
  | .pathRoot a => reached p c a.pathId a.updateIdx splitFactor

variable {p} {us : List Update} {c c' : VerifiableKeyDirectoryCircuit} {k pathId : UInt64}
variable {start start' : NodeAddress} {leaf leaf' : Leaf} {path path' : MerkleTreePath} {i : Nat}

theorem climbFirst_succ (user : List UInt8) (n : Nat) (digest : InnerHash) :
    climbFirst p user path (n + 1) digest =
      climbOne p user path n (climbFirst p user path n digest) := by
  rw [climbFirst, List.range_succ, List.foldl_append]
  rfl

theorem reached_eq {u : Update} (small : i < 2 ^ 64) (found : c.update[i]? = some u) (n : Nat) :
    reached p c pathId (UInt64.ofNat i) n =
      climbFirst p u.username.toList u.path n (startOf p c.params.nullLeaf pathId u) := by
  rw [reached, UInt64.toNat_ofNat_of_lt' small, found]
  rfl

/-- A piece starts where the piece before it ended. -/
theorem digestAt_piece (starts : digestAt p us c start = reached p c pathId k 0)
    (inside : i < splitFactor) :
    digestAt p us c (nodeAddressesAt k pathId start i).1 = reached p c pathId k i ∧
      digestAt p us c (nodeAddressesAt k pathId start i).2 = reached p c pathId k (i + 1) := by
  have number : ∀ j < 4, (UInt64.ofNat j).toNat = j := by decide
  have low : i < 4 := inside
  rw [nodeAddressesAt]
  by_cases first : i = 0
  · subst first
    exact ⟨starts, rfl⟩
  · rw [if_neg first]
    have before : digestAt p us c (.intermediateRoot ⟨UInt64.ofNat (i - 1), pathId, k⟩) =
        reached p c pathId k i := by
      rw [digestAt, number _ (by omega), Nat.sub_add_cancel (Nat.one_le_iff_ne_zero.mpr first)]
    by_cases last : i = splitFactor - 1
    · rw [if_pos last]
      refine ⟨before, ?_⟩
      rw [last]
      rfl
    · rw [if_neg last]
      refine ⟨before, ?_⟩
      rw [digestAt, number i low]

theorem climbOp_meets {u : Update} (small : i < 2 ^ 64) (found : c.update[i]? = some u)
    (starts : digestAt p us c start = startOf p c.params.nullLeaf pathId u)
    (user : userOf leaf = u.username.toList) (size : path.path.length = DEPTH)
    (size' : u.path.path.length = DEPTH) {j : Nat} (inside : j < splitFactor) :
    Meets p c (digestAt p us c)
      (.computePathPrimitive (climbOp (UInt64.ofNat i) pathId start leaf path j))
      (.computePathPrimitive (climbOp (UInt64.ofNat i) pathId start' leaf' u.path j)) := by
  obtain ⟨same, length⟩ := pieceOf_eq size inside
  obtain ⟨same', length'⟩ := pieceOf_eq size' inside
  have begins : digestAt p us c start = reached p c pathId (UInt64.ofNat i) 0 := by
    rw [starts, reached_eq small found]
    rfl
  obtain ⟨before, after⟩ := digestAt_piece begins inside
  have number : (UInt64.ofNat j).toNat = j :=
    UInt64.toNat_ofNat_of_lt' (Nat.lt_trans inside (by decide))
  apply Meets.computePath
  · change (pieceOf path j).path.length = (pieceOf u.path j).path.length
    rw [same, same', length, length']
  · change (pieceOf u.path j).path.length ≤ 32
    rw [same']
    exact le_of_eq length'
  · intro a b read read'
    cases (NodeAddressBytes.bytesToNodeAddress_nodeAddressToBytes _).symm.trans read
    cases (NodeAddressBytes.bytesToNodeAddress_nodeAddressToBytes _).symm.trans read'
    change _ = climb (hashInnerNode p) (levelsOf (userPiece p (userOf leaf) (UInt64.ofNat j).toNat)
      (pieceOf u.path j).path) _
    rw [before, after, reached_eq small found, reached_eq small found, climbFirst_succ, user, number]
    rfl

/-- The hash of a leaf has the digest of the operation that wrote it. -/
theorem digestAt_leaf (once : (us.map writtenLeaf).Nodup) {v v' : Update} (found : us[i]? = some v)
    (found' : c.update[i]? = some v') :
    digestAt p us c (.leafHash ⟨writtenLeaf v⟩) = hashLeaf p v'.leaf := by
  obtain ⟨inside, rfl⟩ := List.getElem?_eq_some_iff.mp found
  have bound : i < (us.map writtenLeaf).length := by rwa [List.length_map]
  have place := once.idxOf_getElem i bound
  rw [List.getElem_map] at place
  rw [digestAt, place, found']
  rfl

/-- The digest at which the operations' paths start. -/
theorem startOf_old (null : InnerHash) (u : VkdUpdate) :
    startOf p null 0 (.update u) = hashLeaf p (oldLeaf u).toList := rfl

end Digests

section Batches
variable {F D : Type} [Field F] [PrimeField F] [DecidableEq F] [DecidableEq D]
variable {checks : Bool} {p : Poseidon F} {z : Assignment F D} {us us' : List Update}
variable {c : VerifiableKeyDirectoryCircuit} {k pathId : UInt64} {i : Nat}

/-- Subcircuits whose primitives meet, one by one. -/
def Paired (p : Poseidon F) (us : List Update) (c : VerifiableKeyDirectoryCircuit)
    (s s' : SubCircuit) : Prop :=
  List.Forall₂ (Meets p c (digestAt p us c)) s.compoundPrimitiveVec s'.compoundPrimitiveVec

omit [PrimeField F] [DecidableEq F] [DecidableEq D] in
theorem Consistent.length_eq (consistent : Consistent checks z us c) :
    us.length = c.update.length := by
  have lengths := congrArg List.length consistent.shape
  rw [List.length_map, List.length_map] at lengths
  exact lengths.symm

omit [PrimeField F] [DecidableEq F] [DecidableEq D] in
theorem Consistent.shape_eq (consistent : Consistent checks z us c) {u u' : Update}
    (found : us[i]? = some u) (found' : c.update[i]? = some u') : shapeOf u' = shapeOf u := by
  have at_i := congrArg (fun shapes => shapes[i]?) consistent.shape
  simp only [List.getElem?_map, found, found', Option.map_some] at at_i
  exact Option.some.inj at_i

omit [PrimeField F] [DecidableEq F] [DecidableEq D] in
theorem Consistent.size (consistent : Consistent checks z us c) {u : Update}
    (found : us[i]? = some u) : u.path.path.length = DEPTH :=
  consistent.whole u (List.mem_append_left _ (List.mem_of_getElem? found))

omit [PrimeField F] [DecidableEq F] [DecidableEq D] in
theorem Consistent.size' (consistent : Consistent checks z us c) {u : Update}
    (found : c.update[i]? = some u) : u.path.path.length = DEPTH :=
  consistent.whole u (List.mem_append_right _ (List.mem_of_getElem? found))

omit [DecidableEq F] [DecidableEq D] in
theorem operation_paired (consistent : Consistent checks z us c)
    (once : (us.map writtenLeaf).Nodup) (small : i < 2 ^ 64) {u u' : Update}
    (found : us[i]? = some u) (found' : c.update[i]? = some u') :
    List.Forall₂ (Paired p us c) (operationLayout i u) (operationLayout i u') := by
  have same := consistent.shape_eq found found'
  have size := consistent.size found
  have size' := consistent.size' found'
  have written := digestAt_leaf (p := p) once found found'
  cases u with
  | update u =>
    obtain u' | u' := u'
    · injection same with name
      have user : userOf (oldLeaf u) = u'.username.toList := (userOf_concat ..).trans (by rw [name])
      obtain ⟨j, v, v', foundv, foundv', wire, wire'⟩ := consistent.wired i u u' found found'
      have old : digestAt p us c (.leafHash ⟨oldLeaf u⟩) =
          startOf p c.params.nullLeaf 0 (.update u') := by
        rw [wire, digestAt_leaf once foundv foundv', startOf_old, wire', leaf_eq]
      have climbOld : ∀ j < splitFactor, Paired p us c
          (climbOnly (UInt64.ofNat i) 0 (.leafHash ⟨oldLeaf u⟩) (oldLeaf u) u.path j)
          (climbOnly (UInt64.ofNat i) 0 (.leafHash ⟨oldLeaf u'⟩) (oldLeaf u') u'.path j) :=
        fun j inside => .cons (climbOp_meets small found' old user size size' inside) .nil
      have climbNew : ∀ j < splitFactor, Meets p c (digestAt p us c)
          (.computePathPrimitive
            (climbOp (UInt64.ofNat i) 1 (.leafHash ⟨newLeaf u⟩) (oldLeaf u) u.path j))
          (.computePathPrimitive
            (climbOp (UInt64.ofNat i) 1 (.leafHash ⟨newLeaf u'⟩) (oldLeaf u') u'.path j)) :=
        fun j inside => climbOp_meets small found' written user size size' inside
      have first : Paired p us c
          ⟨rootCheck i :: .hashLeafPrimitive ⟨newLeaf u⟩ :: (climbOnly (UInt64.ofNat i) 1
            (.leafHash ⟨newLeaf u⟩) (oldLeaf u) u.path 0).compoundPrimitiveVec⟩
          ⟨rootCheck i :: .hashLeafPrimitive ⟨newLeaf u'⟩ :: (climbOnly (UInt64.ofNat i) 1
            (.leafHash ⟨newLeaf u'⟩) (oldLeaf u') u'.path 0).compoundPrimitiveVec⟩ :=
        .cons (.equality _ _) (.cons (.hashLeaf written) (.cons (climbNew 0 (by decide)) .nil))
      exact .cons (climbOld 0 (by decide)) (.cons (climbOld 1 (by decide))
        (.cons (climbOld 2 (by decide)) (.cons (climbOld 3 (by decide)) (.cons first
          (.cons (.cons (climbNew 1 (by decide)) .nil) (.cons (.cons (climbNew 2 (by decide)) .nil)
            (.cons (.cons (climbNew 3 (by decide)) .nil) .nil)))))))
    · cases same
  | append u =>
    obtain u' | u' := u'
    · cases same
    · injection same with name
      have user : userOf (appendedLeaf u) = u'.username.toList :=
        (userOf_concat ..).trans (by rw [name])
      have user' : userOf (appendedLeaf u') = u'.username.toList := userOf_concat ..
      have climbOld : ∀ j < splitFactor, Meets p c (digestAt p us c)
          (.computePathPrimitive
            (climbOp (UInt64.ofNat i) 0 .nullLeaf (appendedLeaf u) u.path j))
          (.computePathPrimitive
            (climbOp (UInt64.ofNat i) 0 .nullLeaf (appendedLeaf u') u'.path j)) :=
        fun j inside => climbOp_meets small found' rfl user size size' inside
      have climbNew : ∀ j < splitFactor, Paired p us c
          (climbOnly (UInt64.ofNat i) 1 (.leafHash ⟨appendedLeaf u⟩) (appendedLeaf u) u.path j)
          (climbOnly (UInt64.ofNat i) 1 (.leafHash ⟨appendedLeaf u'⟩) (appendedLeaf u') u'.path j) :=
        fun j inside => .cons (climbOp_meets small found' written user size size' inside) .nil
      have first : Paired p us c
          ⟨.hashLeafPrimitive ⟨appendedLeaf u⟩ ::
            .getIndexPrimitive ⟨UInt64.ofNat i, appendedLeaf u⟩ :: (climbOnly (UInt64.ofNat i) 0
              .nullLeaf (appendedLeaf u) u.path 0).compoundPrimitiveVec⟩
          ⟨.hashLeafPrimitive ⟨appendedLeaf u'⟩ ::
            .getIndexPrimitive ⟨UInt64.ofNat i, appendedLeaf u'⟩ :: (climbOnly (UInt64.ofNat i) 0
              .nullLeaf (appendedLeaf u') u'.path 0).compoundPrimitiveVec⟩ :=
        .cons (.hashLeaf written) (.cons (.getIndex (user.trans user'.symm))
          (.cons (climbOld 0 (by decide)) .nil))
      exact .cons first (.cons (.cons (climbOld 1 (by decide)) .nil)
        (.cons (.cons (climbOld 2 (by decide)) .nil)
          (.cons (.cons (climbOld 3 (by decide)) (.cons (.equality _ _) .nil))
            (.cons (climbNew 0 (by decide)) (.cons (climbNew 1 (by decide))
              (.cons (climbNew 2 (by decide)) (.cons (climbNew 3 (by decide)) .nil)))))))

theorem operations_paired {P : SubCircuit → SubCircuit → Prop} (size : us.length = us'.length)
    (idx : Nat) (each : ∀ i u u', us[i]? = some u → us'[i]? = some u' →
      List.Forall₂ P (operationLayout (idx + i) u) (operationLayout (idx + i) u')) :
    List.Forall₂ P (operationsLayout idx us) (operationsLayout idx us') := by
  induction us generalizing us' idx with
  | nil =>
    cases List.eq_nil_of_length_eq_zero size.symm
    exact .nil
  | cons u us ih =>
    obtain ⟨u', us', rfl⟩ := List.exists_cons_of_length_eq_add_one size.symm
    rw [operationsLayout, operationsLayout]
    apply List.rel_append (each 0 u u' rfl rfl)
    apply ih (Nat.succ.inj size)
    intro i v v' found found'
    have later := each (i + 1) v v' found found'
    rwa [← Nat.add_assoc, Nat.add_right_comm] at later

omit [DecidableEq F] [DecidableEq D] in
/-- The circuit of the one batch, primitive by primitive beside that of the other. -/
theorem layout_paired (consistent : Consistent checks z us c)
    (once : (us.map writtenLeaf).Nodup) (bound : us.length < 2 ^ 64) :
    List.Forall₂ (Paired p us c) (layout us) (layout c.update) := by
  have padding : Paired p us c ⟨[.paddingPrimitive]⟩ ⟨[.paddingPrimitive]⟩ := .cons .padding .nil
  have public_ : Paired p us c ⟨[.writePublicParameterPrimitive]⟩
      ⟨[.writePublicParameterPrimitive]⟩ := .cons (.writePublicParameter rfl rfl rfl) .nil
  have last : Paired p us c ⟨[finalCheck us]⟩ ⟨[finalCheck c.update]⟩ :=
    .cons (.equality _ _) .nil
  have operations := operations_paired (P := Paired p us c) consistent.length_eq 0
    fun i u u' found found' => by
      have small := Nat.lt_trans (List.getElem?_eq_some_iff.mp found).1 bound
      rw [Nat.zero_add]
      exact operation_paired consistent once small found found'
  rw [layout_eq, layout_eq]
  refine List.rel_append ?_ (List.rel_append operations (.cons last .nil))
  exact .cons padding (.cons padding (.cons padding (.cons padding (.cons padding
    (.cons padding (.cons public_ .nil))))))

omit [DecidableEq F] in
theorem digestAt_previous (inside : i ≤ c.update.length) (bound : c.update.length < 2 ^ 64) :
    digestAt p us c (previousRoot i) = rootBefore p c i := by
  rw [previousRoot, rootBefore, rootAt]
  by_cases first : i = 0
  · rw [if_pos first, if_pos first]
    rfl
  · have before : i - 1 < c.update.length := by omega
    have found := List.getElem?_eq_getElem before
    rw [if_neg first, if_neg first, digestAt, reached_eq (Nat.lt_trans before bound) found, found]
    rfl

omit [DecidableEq F] in
/-- The comparisons of a batch hold of the digests exactly where they link its roots. -/
theorem compared_iff_linked (size : us.length = c.update.length)
    (bound : c.update.length < 2 ^ 64) :
    (∀ subcircuit ∈ layout us, ∀ primitive ∈ subcircuit.compoundPrimitiveVec,
      Compared (digestAt p us c) primitive) ↔ Linked p c := by
  have quiet : ∀ primitive, Quiet primitive → Compared (digestAt p us c) primitive := by
    rintro ⟨⟩ silent
    case equalityPrimitive => exact silent.elim
    all_goals trivial
  have equal {idx : UInt64} {a b : NodeAddress} :
      Compared (digestAt p us c) (equalityOp idx a b) ↔
        digestAt p us c a = digestAt p us c b := by
    constructor
    · intro said
      exact said _ _ (NodeAddressBytes.bytesToNodeAddress_nodeAddressToBytes _)
        (NodeAddressBytes.bytesToNodeAddress_nodeAddressToBytes _)
    · intro same a' b' read read'
      cases (NodeAddressBytes.bytesToNodeAddress_nodeAddressToBytes _).symm.trans read
      cases (NodeAddressBytes.bytesToNodeAddress_nodeAddressToBytes _).symm.trans read'
      exact same
  have step {i : Nat} {u : Update} (found : c.update[i]? = some u) :
      Compared (digestAt p us c) (rootCheck i) ↔
        oldRoot p c.params.nullLeaf u = rootBefore p c i := by
    obtain ⟨inside, _⟩ := List.getElem?_eq_some_iff.mp found
    rw [rootCheck, equal, digestAt_previous (Nat.le_of_lt inside) bound, digestAt,
      reached_eq (Nat.lt_trans inside bound) found]
    rfl
  have last : Compared (digestAt p us c) (finalCheck us) ↔
      c.finalRoot = rootBefore p c c.update.length := by
    rw [finalCheck, equal, size, digestAt_previous le_rfl bound]
    rfl
  rw [forall_layout quiet us, last]
  apply and_congr_left'
  constructor
  · intro operations i u found
    have inside := (List.getElem?_eq_some_iff.mp found).1
    exact (step found).mp (operations i (size ▸ inside))
  · intro steps i inside
    have found := List.getElem?_eq_getElem (size ▸ inside)
    exact (step found).mpr (steps i _ found)

omit [DecidableEq F] in
theorem accepts_of_roots {pp root final : InnerHash} {us : List Update}
    (lengths : ∀ u ∈ us, u.path.path.length ≤ DEPTH) (fits : ∀ u ∈ us, u.CounterFits checks)
    (steps : ∀ i u, us[i]? = some u → climb (hashInnerNode p) (u.levels p) (startDigest p pp u) =
      rootAt (wholeRoot p) root us i) (last : final = rootAt (wholeRoot p) root us us.length) :
    Accepts checks p pp root us final := by
  induction us generalizing root with
  | nil => exact last.symm
  | cons u us ih =>
    obtain ⟨short, shorter⟩ := List.forall_mem_cons.mp lengths
    obtain ⟨room, rooms⟩ := List.forall_mem_cons.mp fits
    refine ⟨short, room, steps 0 u rfl, ih shorter rooms (fun i v found => ?_) ?_⟩
    · have inside := (List.getElem?_eq_some_iff.mp found).1
      have step := steps (i + 1) v found
      rwa [rootAt_cons (Nat.le_of_lt inside)] at step
    · rw [last, List.length_cons, rootAt_cons le_rfl]
      rfl

omit [DecidableEq F] in
/-- Along whole paths, linked roots are what the verifier checks. -/
theorem linked_iff_verify (whole : ∀ u ∈ c.update, u.path.path.length = DEPTH)
    (fits : ∀ u ∈ c.update, u.CounterFits checks) :
    Linked p c ↔ c.verify checks p c.params.nullLeaf = .ok true := by
  rw [verify_eq_true]
  refine ⟨fun linked => ?_, linked_of_whole whole⟩
  apply accepts_of_roots (fun u member => le_of_eq (whole u member)) fits
  · intro i u found
    have step := linked.1 i u found
    rw [oldRoot, climbAll_eq (whole u (List.mem_of_getElem? found))] at step
    rw [rootAt_whole whole, ← step]
    rfl
  · rw [rootAt_whole whole]
    exact linked.2

theorem operation_names (idx : Nat) (u : Update) :
    (operationLayout idx u).flatMap subcircuitNames =
      [LeafHashAddress.toName ⟨writtenLeaf u⟩] := by
  cases u <;> rfl

/-- A batch names the public parameters and the leaves that its operations write. -/
theorem layout_names (us : List Update) : (layout us).flatMap subcircuitNames =
    [NodeAddress.initialRoot.toName, NodeAddress.finalRoot.toName, NodeAddress.nullLeaf.toName] ++
      us.map fun u => LeafHashAddress.toName ⟨writtenLeaf u⟩ := by
  have operations (idx : Nat) : (operationsLayout idx us).flatMap subcircuitNames =
      us.map fun u => LeafHashAddress.toName ⟨writtenLeaf u⟩ := by
    induction us generalizing idx with
    | nil => rfl
    | cons u us ih =>
      rw [operationsLayout, List.flatMap_append, operation_names, ih]
      rfl
  have last : [SubCircuit.mk [finalCheck us]].flatMap subcircuitNames = [] := rfl
  rw [layout_eq, List.flatMap_append, List.flatMap_append, operations, last, List.append_nil]
  rfl

end Batches

section Soundness
variable {F D : Type} [Field F] [PrimeField F] [DecidableEq F] [DecidableEq D]
variable {checks : Bool} {p : Poseidon F} {c : VerifiableKeyDirectoryCircuit}
variable {z : Assignment F D} {portal : IdealPortal F D} {rows : List (Constraint F D)}

omit [DecidableEq F] [DecidableEq D] in
/-- The public parameters are on the wires, and no leaf is hashed twice. -/
theorem names_of_synthesized (synthesized : Synthesized checks p c portal rows) :
    (c.update.map writtenLeaf).Nodup ∧ (portal.wires NodeAddress.initialRoot.toName).isSome ∧
      (portal.wires NodeAddress.finalRoot.toName).isSome ∧
      (portal.wires NodeAddress.nullLeaf.toName).isSome := by
  obtain ⟨laid, _, e, run, _⟩ := synthesized
  obtain ⟨_, _, subcircuits⟩ := vkdUpdateToSubcircuit_eq_ok.mp laid
  obtain ⟨once, set⟩ := names_of_synthesize run
  rw [← subcircuits, layout_names] at once set
  refine ⟨?_, set _ (by simp), set _ (by simp), set _ (by simp)⟩
  have leaves := (List.nodup_append.mp once).2.1
  have composed : (c.update.map fun u => LeafHashAddress.toName ⟨writtenLeaf u⟩) =
      (c.update.map writtenLeaf).map fun leaf => LeafHashAddress.toName ⟨leaf⟩ := by
    rw [List.map_map]
    rfl
  rw [composed] at leaves
  exact leaves.of_map

theorem readsAs_of_carried {digests : NodeAddress → InnerHash}
    (carried : Carried p z digests portal) {a : NodeAddress}
    (set : (portal.wires a.toName).isSome) : ReadsAs z portal a (digests a) := by
  obtain ⟨w, found⟩ := Option.isSome_iff_exists.mp set
  exact ⟨w, found, carried.nodes a w found⟩

/-- Under an assignment that takes leaves, users and siblings from one list of updates, the rows
hold exactly where the verifier accepts that list. -/
theorem rows_iff_verify {c' : VerifiableKeyDirectoryCircuit}
    (synthesized : Synthesized checks p c portal rows)
    (consistent : Consistent checks z c.update c') :
    ((∀ row ∈ rows, row.Holds z) ↔ c'.verify checks p c'.params.nullLeaf = .ok true) ∧
      Carried p z (digestAt p c.update c') portal := by
  obtain ⟨once, _⟩ := names_of_synthesized synthesized
  obtain ⟨laid, bound, e, run, same⟩ := synthesized
  obtain ⟨_, _, subcircuits⟩ := vkdUpdateToSubcircuit_eq_ok.mp laid
  obtain ⟨fits, _, subcircuits'⟩ := vkdUpdateToSubcircuit_eq_ok.mp consistent.laid
  have size := consistent.length_eq
  have paired := layout_paired (p := p) consistent once bound
  rw [subcircuits, subcircuits'] at paired
  obtain ⟨_, satisfied, carried⟩ := synthesize_given paired [] portal e run consistent.given
  rw [← subcircuits, compared_iff_linked size (size ▸ bound), linked_iff_verify
    (fun u member => consistent.whole u (List.mem_append_right _ member)) fits] at satisfied
  subst same
  exact ⟨satisfied, carried⟩

/-- Where an assignment of the rows takes leaves, users and siblings from one list of updates of
the shape, the verifier accepts that list between the roots on the wires. -/
theorem verified_of_consistent (synthesized : Synthesized checks p c portal rows)
    (satisfied : ∀ row ∈ rows, row.Holds z)
    (consistent : ∃ c', Consistent checks z c.update c') :
    Verified checks p z c.update portal := by
  obtain ⟨_, initial, final, null⟩ := names_of_synthesized synthesized
  obtain ⟨c', consistent⟩ := consistent
  obtain ⟨verifies, carried⟩ := rows_iff_verify synthesized consistent
  exact ⟨c', consistent.shape, readsAs_of_carried carried initial,
    readsAs_of_carried carried final, readsAs_of_carried carried null, verifies.mp satisfied⟩

end Soundness

section Demo

/-- A weighted sum of two children, and of all elements of a sponge's state. -/
def mixingPoseidon : Poseidon Bls12381Fr :=
  ⟨linearPoseidon.twoToOne, fun state _ => (List.ofFn state).foldr linearPoseidon.twoToOne 0⟩

def mixedUser : Username := byteArray 32 8

/-- The siblings differ from level to level. -/
def mixedPath : MerkleTreePath :=
  ⟨(List.range 128).map fun i => byteArray 27 (UInt8.ofNat (i + 1))⟩

/-- A user is appended, and the key is replaced. -/
def mixedBatch : List Update :=
  [.append ⟨mixedUser, byteArray 32 3, mixedPath⟩,
    .update ⟨mixedUser, 0, byteArray 32 3, mixedPath, byteArray 32 4⟩]

def mixedRoot (digest : InnerHash) : InnerHash :=
  climb (hashInnerNode mixingPoseidon)
    (levelsOf (indexOf mixingPoseidon mixedUser) mixedPath.path) digest

def mixedCircuit : VerifiableKeyDirectoryCircuit where
  initialRoot := mixedRoot (nullLeaf mixingPoseidon)
  params := ⟨4, nullLeaf mixingPoseidon⟩
  finalRoot := mixedRoot (hashLeaf mixingPoseidon (concat mixedUser (byteArray 32 4) 1))
  update := mixedBatch
  subcircuits := layout mixedBatch

/-- The values that the prover allocates the variables with. -/
def mixedValues : Assignment Bls12381Fr Unit := assignmentOf (witnesses mixedCircuit)

theorem mixedCircuit_laid :
    vkdUpdateToSubcircuit true mixedCircuit.update = .ok mixedCircuit.subcircuits := by
  refine vkdUpdateToSubcircuit_eq_ok.mpr ⟨?_, fun _ => List.cons_ne_nil _ _, rfl⟩
  intro u member
  obtain rfl | rfl := List.mem_pair.mp member
  · trivial
  · intro _
    decide

theorem consistent_mixed : Consistent true mixedValues mixedCircuit.update mixedCircuit where
  laid := mixedCircuit_laid
  shape := rfl
  wired := by
    intro i u u' found found'
    cases found.symm.trans found'
    refine ⟨0, _, _, rfl, rfl, ?_⟩
    obtain listed | listed := List.mem_pair.mp (List.mem_of_getElem? found)
    · cases listed
    · cases listed
      exact ⟨rfl, rfl⟩
  whole := by
    intro u member
    have listed : u ∈ mixedBatch := by
      obtain before | after := List.mem_append.mp member
      · exact before
      · exact after
    obtain rfl | rfl := List.mem_pair.mp listed
    · exact List.length_map ..
    · exact List.length_map ..
  given := assignmentOf_agrees _

set_option maxRecDepth 100000 in
theorem mixedCircuit_synthesizes :
    (synthesize (D := Unit) mixingPoseidon mixedCircuit []).toOption.isSome = true := by
  decide +kernel

set_option maxRecDepth 100000 in
theorem mixedCircuit_verified :
    Accepts true mixingPoseidon mixedCircuit.params.nullLeaf mixedCircuit.initialRoot
      mixedCircuit.update mixedCircuit.finalRoot := by
  refine ⟨?_, trivial, rfl, ?_, fun _ => by decide, ?_, rfl⟩
  · decide
  · decide
  · rfl

theorem verified_of_consistent_mixed : ∃ portal,
    Verified true mixingPoseidon mixedValues mixedCircuit.update portal := by
  obtain ⟨⟨portal, e⟩, ran⟩ := Option.isSome_iff_exists.mp mixedCircuit_synthesizes
  have synthesized : Synthesized true mixingPoseidon mixedCircuit portal e.constraints :=
    ⟨mixedCircuit_laid, by decide, e, ok_of_toOption ran, rfl⟩
  have satisfied := (rows_iff_verify synthesized consistent_mixed).1.mpr
    (verify_eq_true.mpr mixedCircuit_verified)
  exact ⟨portal, verified_of_consistent synthesized satisfied ⟨mixedCircuit, consistent_mixed⟩⟩

/-- An inner node is its right child, and what is squeezed is zero. -/
def rightPoseidon : Poseidon Bls12381Fr := ⟨fun _ r => r, fun _ _ => 0⟩

def zeroDigest : InnerHash := byteArray 27 0

def zeroAppend : Update :=
  .append ⟨byteArray 32 0, byteArray 32 0, ⟨List.replicate 128 zeroDigest⟩⟩

def zeroCircuit : VerifiableKeyDirectoryCircuit :=
  ⟨zeroDigest, ⟨4, zeroDigest⟩, zeroDigest, [zeroAppend], layout [zeroAppend]⟩

/-- Only the last sibling of the new path and the final root are one. -/
def otherPath : Assignment Bls12381Fr Unit
  | .field, i => if i = 1687 then 1 else 0
  | .bool, i => decide (i = 216)
  | .digest, _ => default
  | .fields, _ => default

/-- All rows hold, and the wires of both roots have these elements. -/
def runsTo (z : Assignment Bls12381Fr Unit) (initial final : Bls12381Fr) : Bool :=
  (synthesize (D := Unit) rightPoseidon zeroCircuit []).toOption.any fun r =>
    decide (r.2.Satisfied z) &&
      ((r.1.wires NodeAddress.initialRoot.toName).any fun w => decide (w.eval z = initial)) &&
      (r.1.wires NodeAddress.finalRoot.toName).any fun w => decide (w.eval z = final)

set_option maxRecDepth 100000 in
theorem runsTo_otherPath : runsTo otherPath 0 1 = true := by decide +kernel

theorem synthesized_zeroCircuit {portal : IdealPortal Bls12381Fr Unit}
    {e : Emission Bls12381Fr Unit} (run : synthesize rightPoseidon zeroCircuit [] = .ok (portal, e)) :
    Synthesized true rightPoseidon zeroCircuit portal e.constraints where
  laid := vkdUpdateToSubcircuit_eq_ok.mpr
    ⟨List.forall_mem_singleton.mpr trivial, fun _ => List.cons_ne_nil _ _, rfl⟩
  bound := by decide
  run := ⟨e, run, rfl⟩

/-- What an evaluation of the circuit says. -/
theorem of_runsTo {z : Assignment Bls12381Fr Unit} {initial final : Bls12381Fr}
    (runs : runsTo z initial final = true) : ∃ portal rows,
      Synthesized true rightPoseidon zeroCircuit portal rows ∧ (∀ row ∈ rows, row.Holds z) ∧
        (∃ w, portal.wires NodeAddress.initialRoot.toName = some w ∧ w.eval z = initial) ∧
        ∃ w, portal.wires NodeAddress.finalRoot.toName = some w ∧ w.eval z = final := by
  obtain ⟨⟨portal, e⟩, ran, facts⟩ := (Option.any_eq_true _ _).mp runs
  rw [Bool.and_eq_true, Bool.and_eq_true] at facts
  obtain ⟨⟨satisfied, first⟩, last⟩ := facts
  obtain ⟨w, found, value⟩ := (Option.any_eq_true _ _).mp first
  obtain ⟨w', found', value'⟩ := (Option.any_eq_true _ _).mp last
  have run := ok_of_toOption ran
  exact ⟨portal, e.constraints, synthesized_zeroCircuit run, of_decide_eq_true satisfied,
    ⟨w, found, of_decide_eq_true value⟩, w', found', of_decide_eq_true value'⟩

/-- Where an inner node is its right child, both roots of an append at index zero are the last
sibling, and without siblings they are the null leaf and the new leaf. -/
theorem climb_right {siblings : List InnerHash} (digest digest' : InnerHash) :
    climb (hashInnerNode rightPoseidon) (levelsOf 0 siblings) digest =
      climb (hashInnerNode rightPoseidon) (levelsOf 0 siblings) digest' ∨ siblings = [] := by
  cases siblings with
  | nil => exact .inr rfl
  | cons sibling siblings =>
    have right (left : InnerHash) : hashInnerNode rightPoseidon left sibling = sibling :=
      truncated_innerHashToField (F := Bls12381Fr) sibling
    left
    change climb _ (levelsOf 0 siblings) (hashInnerNode rightPoseidon digest sibling) =
      climb _ (levelsOf 0 siblings) (hashInnerNode rightPoseidon digest' sibling)
    rw [right, right]

theorem indexOf_right (username : Username) : indexOf rightPoseidon username = 0 := by
  have hashed : hash rightPoseidon username.toList = toSpongeBytes (0 : Bls12381Fr) := rfl
  rw [indexOf, hashed]
  decide +kernel

theorem hashLeaf_right (leaf : List UInt8) :
    innerHashToField (hashLeaf rightPoseidon leaf) = (0 : Bls12381Fr) := by
  have hashed : hashLeaf rightPoseidon leaf = truncated (0 : Bls12381Fr) := rfl
  rw [hashed]
  decide +kernel

/-- Along another new path the rows hold between roots that no append connects. -/
theorem not_verified_otherPath : ∃ portal rows,
    Synthesized true rightPoseidon zeroCircuit portal rows ∧ (∀ row ∈ rows, row.Holds otherPath) ∧
      ¬ Verified true rightPoseidon otherPath zeroCircuit.update portal := by
  obtain ⟨portal, rows, synthesized, satisfied, ⟨w, found, value⟩, w', found', value'⟩ :=
    of_runsTo runsTo_otherPath
  refine ⟨portal, rows, synthesized, satisfied, ?_⟩
  rintro ⟨c, shape, ⟨v, foundv, initial⟩, ⟨v', foundv', final⟩, _, verified⟩
  cases found.symm.trans foundv
  cases found'.symm.trans foundv'
  rw [value] at initial
  rw [value'] at final
  obtain ⟨u, only⟩ : ∃ u, c.update = [u] := by
    have count := congrArg List.length shape
    rw [List.length_map] at count
    exact List.length_eq_one_iff.mp count
  have accepts := verify_eq_true.mp verified
  rw [only] at accepts shape
  obtain ⟨_, _, old, new⟩ := accepts
  cases u with
  | update u => cases shape
  | append u =>
    change climb _ (levelsOf (indexOf rightPoseidon u.username) u.path.path) _ = _ at old
    change climb _ (levelsOf (indexOf rightPoseidon u.username) u.path.path) _ = _ at new
    rw [indexOf_right] at old new
    rcases climb_right (startDigest rightPoseidon c.params.nullLeaf
      (.append u)) (hashLeaf rightPoseidon (Update.leaf (.append u))) with same | empty
    · rw [old, new] at same
      rw [same, ← final] at initial
      exact zero_ne_one initial
    · rw [empty] at new
      rw [← new] at final
      exact zero_ne_one ((hashLeaf_right _).symm.trans final.symm)

end Demo
end VkdSoundness
