import Hekaton.MerkleTrees
import Hekaton.Transcript

/-!
# The execution tree

Leaf `i` holds the running evaluations after subcircuit `i` and the last entry of the
address-ordered trace so far. The Merkle tree library is a parameter: its hashes, the
allocation of a path and the membership gadget, with the laws its documentation states.
`pathGadget` is the gadget those laws describe, over any pair of hashes.
-/

namespace EvalTree

open Outcomes Wires Synthesis Contracts Transcript MerkleTrees

/-- A leaf in the execution tree. -/
structure ExecTreeLeaf (F : Type) (m : MemType) where
  evals : RunningEvaluation F m
  lastSubtraceEntry : TranscriptEntry F m

structure ExecTreeLeafVar (F D : Type) (m : MemType) where
  evals : RunningEvaluationVar F D m
  lastSubtraceEntry : TranscriptEntryVar F D m

/-- The values of a leaf that the tree commits to. -/
structure AssignedLeaf (F : Type) (m : MemType) where
  timeEval : F
  addrEval : F
  lastEntry : Entry F F m
  deriving DecidableEq

namespace ExecTreeLeaf
variable {F : Type} [Field F] {m : MemType}

/-- The leaf handed to the first subcircuit: empty evaluations, an all-zero entry. -/
def padding (F : Type) [Field F] (m : MemType) : ExecTreeLeaf F m :=
  ⟨.default F m, .padding m⟩

def toFieldElements (leaf : ExecTreeLeaf F m) : List F :=
  [leaf.evals.timeOrderedEval] ++ [leaf.evals.addrOrderedEval] ++
    leaf.lastSubtraceEntry.toFieldElements

def assigned (leaf : ExecTreeLeaf F m) : AssignedLeaf F m :=
  ⟨leaf.evals.timeOrderedEval, leaf.evals.addrOrderedEval, leaf.lastSubtraceEntry.assigned⟩

end ExecTreeLeaf

section Assigned
variable {F D : Type} [Field F] {m : MemType}

def AssignedLeaf.fields (leaf : AssignedLeaf F m) : List F :=
  [leaf.timeEval, leaf.addrEval] ++ leaf.lastEntry.fields

theorem fields_assigned (leaf : ExecTreeLeaf F m) : leaf.assigned.fields = leaf.toFieldElements := by
  simp only [AssignedLeaf.fields, ExecTreeLeaf.assigned, ExecTreeLeaf.toFieldElements,
    Entry.toFieldElements_eq, List.cons_append, List.nil_append]

namespace ExecTreeLeafVar

def newVariable (mode : AllocationMode) (leaf : ExecTreeLeaf F m) :
    Synth F D (ExecTreeLeafVar F D m) := do
  let evals ← RunningEvaluationVar.newVariable mode leaf.evals
  let lastSubtraceEntry ← TranscriptEntryVar.newVariable mode leaf.lastSubtraceEntry
  pure ⟨evals, lastSubtraceEntry⟩

def toConstraintField (leaf : ExecTreeLeafVar F D m) : List (Wire F D .field) :=
  [leaf.evals.timeOrderedEval] ++ [leaf.evals.addrOrderedEval] ++
    leaf.lastSubtraceEntry.toConstraintField

variable [DecidableEq F] [DecidableEq D] {z : Assignment F D}

def value (z : Assignment F D) (leaf : ExecTreeLeafVar F D m) : AssignedLeaf F m :=
  ⟨leaf.evals.timeOrderedEval.eval z, leaf.evals.addrOrderedEval.eval z,
    leaf.lastSubtraceEntry.value z⟩

theorem toConstraintField_eval (leaf : ExecTreeLeafVar F D m) :
    leaf.toConstraintField.map (fun w => (w.eval z : F)) = (leaf.value z).fields := by
  rw [toConstraintField, List.map_append, toConstraintField_value]
  rfl

theorem newVariable_admits (mode : AllocationMode) (leaf : ExecTreeLeaf F m) :
    Admits z (newVariable mode leaf) (fun v => v.value z = leaf.assigned) := by
  refine Admits.bind (P := fun evals => (evals.timeOrderedEval.eval z : F) =
    leaf.evals.timeOrderedEval ∧ (evals.addrOrderedEval.eval z : F) =
    leaf.evals.addrOrderedEval) ?_ fun evals hevals => ?_
  · exact .newVariable_bind fun t ht => .newVariable_bind fun a ha => .pure ⟨ht, ha⟩
  · refine (Transcript.newVariable_admits mode leaf.lastSubtraceEntry).bind fun e he => .pure ?_
    rw [value, hevals.1, hevals.2, he]
    rfl

omit [DecidableEq F] [DecidableEq D] in
theorem newVariable_parallel {mode : AllocationMode} {leaf leaf' : ExecTreeLeaf F m} :
    Parallel (newVariable (D := D) mode leaf) (newVariable mode leaf') (· = ·) := by
  refine .bind_eq ?_ fun evals => .bind_eq Transcript.newVariable_parallel fun e => .pure rfl
  exact .bind_eq .newVariable fun t => .bind_eq .newVariable fun a => .pure rfl

end ExecTreeLeafVar
end Assigned

section Gadget

/-- An authentication path: `authPath` runs from the root down to the leaf's parent. -/
structure MerklePath (D : Type) where
  leafSiblingHash : D
  authPath : List D
  leafIndex : Nat

/-- Sides and siblings from the leaf upwards. -/
def MerklePath.levels {D : Type} (path : MerklePath D) : List (Bool × D) :=
  levelsOf path.leafIndex (path.leafSiblingHash :: path.authPath.reverse)

/-- What the constraints use of a Merkle tree library. -/
structure TreeConfigGadget (F D : Type) where
  leafHash : List F → D
  twoToOneHash : D → D → D
  PathVar : Type
  newWitness : MerklePath D → Synth F D PathVar
  verifyMembership : PathVar → Wire F D .digest → List (Wire F D .field) →
    Synth F D (Wire F D .bool)
  levels : Assignment F D → PathVar → List (Bool × D)

/-- The documented behaviour: a path variable keeps its length and its values, the gadget
answers whether the path hashes the leaf up to the root, and neither takes an input. -/
structure TreeConfigGadget.Lawful {F D : Type} [Field F] [DecidableEq F] [DecidableEq D]
    (gadget : TreeConfigGadget F D) : Prop where
  newWitness_parallel : ∀ path path' : MerklePath D, path.authPath.length = path'.authPath.length →
    Parallel (gadget.newWitness path) (gadget.newWitness path')
      (fun v v' => v = v' ∧ ∀ z, (gadget.levels z v).length = path.authPath.length + 1)
  newWitness_admits : ∀ z path,
    Admits z (gadget.newWitness path) (fun v => gadget.levels z v = path.levels)
  verify_parallel : ∀ v root leaf,
    Parallel (gadget.verifyMembership v root leaf) (gadget.verifyMembership v root leaf) (· = ·)
  verify_forces : ∀ z v root leaf, Forces z (gadget.verifyMembership v root leaf) (fun b =>
    b.eval z = true → climb gadget.twoToOneHash (gadget.levels z v)
      (gadget.leafHash (leaf.map fun w => w.eval z)) = root.eval z)
  verify_admits : ∀ z v (root : Wire F D .digest) leaf, climb gadget.twoToOneHash
      (gadget.levels z v) (gadget.leafHash (leaf.map fun w => w.eval z)) = root.eval z →
    Admits z (gadget.verifyMembership v root leaf) (fun b => b.eval z = true)
  newWitness_witnesses : ∀ path, OnlyWitnesses (gadget.newWitness path)
  verify_witnesses : ∀ v root leaf, OnlyWitnesses (gadget.verifyMembership v root leaf)

/-- The root of the tree over the serialized leaves. -/
def treeRoot {F D : Type} (gadget : TreeConfigGadget F D) (depth : Nat) (leaf : Nat → List F) : D :=
  root gadget.twoToOneHash depth fun i => gadget.leafHash (leaf i)

/-- `MerkleTree::generate_proof`: siblings bottom up, stored with the leaf level apart. -/
def generateProof {F D : Type} [Inhabited D] (gadget : TreeConfigGadget F D) (depth : Nat)
    (leaf : Nat → List F) (i : Nat) : MerklePath D :=
  match siblings gadget.twoToOneHash depth (fun j => gadget.leafHash (leaf j)) i with
  | [] => ⟨default, [], i⟩
  | sibling :: upper => ⟨sibling, upper.reverse, i⟩

/-- The proof generated for a leaf of a tree with a level hashes it up to the root. -/
theorem climb_generateProof {F D : Type} [Inhabited D] (gadget : TreeConfigGadget F D)
    {depth : Nat} (level : 0 < depth) (leaf : Nat → List F) {i : Nat} (h : i < 2 ^ depth) :
    climb gadget.twoToOneHash (generateProof gadget depth leaf i).levels
      (gadget.leafHash (leaf i)) = treeRoot gadget depth leaf := by
  have upward : climb gadget.twoToOneHash (levelsOf i (siblings gadget.twoToOneHash depth
      (fun j => gadget.leafHash (leaf j)) i)) (gadget.leafHash (leaf i)) =
      treeRoot gadget depth leaf := climb_siblings _ h
  rw [generateProof]
  split
  · rename_i none
    have size := length_siblings gadget.twoToOneHash depth (fun j => gadget.leafHash (leaf j)) i
    rw [none] at size
    cases size
    exact absurd level (Nat.lt_irrefl 0)
  · rename_i some
    rw [some] at upward
    rw [MerklePath.levels, List.reverse_reverse]
    exact upward

end Gadget

section PathGadget
variable {F D : Type}

/-- Allocate a list of variables of one kind. -/
def newList (mode : AllocationMode) (k : Kind) :
    List (k.Val F D) → Synth F D (List (Wire F D k))
  | [] => pure []
  | value :: values => do
      let w ← Synth.newVariable mode k value
      let ws ← newList mode k values
      pure (w :: ws)

/-- The sides of the lowest `n` levels above index `i`. -/
def sides : Nat → Nat → List Bool
  | _, 0 => []
  | i, n + 1 => decide (i % 2 = 1) :: sides (i / 2) n

/-- The variables of a path: `path` and `authPath` run from the root down. -/
structure PathVar (F D : Type) where
  leafSibling : Wire F D .digest
  leafIsRightChild : Wire F D .bool
  path : List (Wire F D .bool)
  authPath : List (Wire F D .digest)

namespace PathVar

def newWitness (path : MerklePath D) : Synth F D (PathVar F D) := do
  let leafSibling ← Synth.newWitness .digest path.leafSiblingHash
  let leafIsRightChild ← Synth.newWitness .bool (decide (path.leafIndex % 2 = 1))
  let bits ← newList .witness .bool (sides (path.leafIndex / 2) path.authPath.length).reverse
  let authPath ← newList .witness .digest path.authPath
  pure ⟨leafSibling, leafIsRightChild, bits, authPath⟩

/-- Hash the two children in the order that the side bit selects. -/
def hashUp (hash : D → D → D) (bit : Wire F D .bool) (sibling node : Wire F D .digest) :
    Synth F D (Wire F D .digest) := do
  let left ← Synth.conditionallySelect bit sibling node
  let right ← Synth.conditionallySelect bit node sibling
  Synth.define (.call₂ (k := .digest) (l := .digest) (m := .digest) hash left right)

def climbUp (hash : D → D → D) :
    List (Wire F D .bool × Wire F D .digest) → Wire F D .digest → Synth F D (Wire F D .digest)
  | [], node => pure node
  | (bit, sibling) :: path, node => do
      let parent ← hashUp hash bit sibling node
      climbUp hash path parent

def fieldsWire : List (Wire F D .field) → Wire F D .fields
  | [] => .nil
  | w :: ws => .cons w (fieldsWire ws)

def steps (v : PathVar F D) : List (Wire F D .bool × Wire F D .digest) :=
  (v.leafIsRightChild, v.leafSibling) :: v.path.reverse.zip v.authPath.reverse

def verifyMembership (leafHash : List F → D) (hash : D → D → D) (v : PathVar F D)
    (root : Wire F D .digest) (leaf : List (Wire F D .field)) : Synth F D (Wire F D .bool) := do
  let claimed ← Synth.define (.call (k := .fields) (l := .digest) leafHash (fieldsWire leaf))
  let computed ← climbUp hash v.steps claimed
  Synth.isEq root computed

end PathVar

variable [Field F] [DecidableEq F] [DecidableEq D]

/-- The documented membership gadget over a leaf hash and a two-to-one hash. -/
def pathGadget (leafHash : List F → D) (hash : D → D → D) : TreeConfigGadget F D where
  leafHash := leafHash
  twoToOneHash := hash
  PathVar := PathVar F D
  newWitness := PathVar.newWitness
  verifyMembership := PathVar.verifyMembership leafHash hash
  levels := fun z v => v.steps.map fun p => (p.1.eval z, p.2.eval z)

variable {z : Assignment F D}

theorem newList_admits {mode : AllocationMode} {k : Kind} {values : List (k.Val F D)} :
    Admits z (newList mode k values) (fun ws => ws.map (fun w => w.eval z) = values) := by
  induction values with
  | nil => exact .pure rfl
  | cons value values ih =>
    refine .newVariable_bind fun w hw => ih.bind fun ws hws => .pure ?_
    rw [List.map_cons, hw, hws]

omit [Field F] [DecidableEq F] [DecidableEq D] in
theorem newList_parallel {mode : AllocationMode} {k : Kind} {values values' : List (k.Val F D)}
    (width : values.length = values'.length) :
    Parallel (newList mode k values) (newList mode k values')
      (fun ws ws' => ws = ws' ∧ ws.length = values.length) := by
  induction values generalizing values' with
  | nil =>
    cases List.eq_nil_of_length_eq_zero width.symm
    exact .pure ⟨rfl, rfl⟩
  | cons value values ih =>
    obtain _ | ⟨value', values'⟩ := values'
    · cases width
    · refine .bind_eq .newVariable fun w => (ih (Nat.succ.inj width)).bind ?_
      rintro ws _ ⟨rfl, size⟩
      exact .pure ⟨rfl, congrArg Nat.succ size⟩

omit [Field F] [DecidableEq F] [DecidableEq D] in
theorem newList_witnesses {k : Kind} (values : List (k.Val F D)) :
    OnlyWitnesses (newList .witness k values) := by
  induction values with
  | nil => exact .pure _
  | cons value values ih => exact .bind (.newWitness k value) fun _ => .bind ih fun _ => .pure _

@[simp] theorem length_sides (i n : Nat) : (sides i n).length = n := by
  induction n generalizing i with
  | zero => rfl
  | succ n ih => exact congrArg Nat.succ (ih _)

omit [DecidableEq D] in
theorem zip_sides (i : Nat) (siblings : List D) :
    (sides i siblings.length).zip siblings = levelsOf i siblings := by
  induction siblings generalizing i with
  | nil => rfl
  | cons sibling siblings ih => exact congrArg (_ :: ·) (ih _)

theorem fieldsWire_eval (ws : List (Wire F D .field)) :
    ((PathVar.fieldsWire ws).eval z : List F) = ws.map fun w => (w.eval z : F) := by
  induction ws with
  | nil => rfl
  | cons w ws ih =>
    change (_ : F) :: ((PathVar.fieldsWire ws).eval z : List F) = _
    rw [ih]
    rfl

theorem climbUp_computes (hash : D → D → D) (steps : List (Wire F D .bool × Wire F D .digest))
    (node : Wire F D .digest) :
    ∃ w, Computes (PathVar.climbUp hash steps node) w ∧ ∀ z : Assignment F D,
      w.eval z = climb hash (steps.map fun p => (p.1.eval z, p.2.eval z)) (node.eval z) := by
  induction steps generalizing node with
  | nil => exact ⟨node, .pure _, fun z => rfl⟩
  | cons step steps ih =>
    obtain ⟨bit, sibling⟩ := step
    obtain ⟨w, run, hw⟩ := ih (.call₂ (k := .digest) (l := .digest) (m := .digest) hash
      (.select bit sibling node) (.select bit node sibling))
    refine ⟨w, .bind (.bind (.define _) (.bind (.define _) (.define _))) run, fun z => ?_⟩
    rw [hw z, List.map_cons]
    have side : ∃ b, Wire.eval z bit = b := ⟨_, rfl⟩
    obtain ⟨b, hb⟩ := side
    cases b <;> simp [climb, Wire.eval, hb]

theorem verifyMembership_computes (leafHash : List F → D) (hash : D → D → D) (v : PathVar F D)
    (root : Wire F D .digest) (leaf : List (Wire F D .field)) :
    ∃ w, Computes (PathVar.verifyMembership leafHash hash v root leaf) w ∧
      ∀ z : Assignment F D, w.eval z = true ↔
        climb hash (v.steps.map fun p => (p.1.eval z, p.2.eval z))
          (leafHash (leaf.map fun w => w.eval z)) = root.eval z := by
  obtain ⟨w, run, hw⟩ := climbUp_computes hash v.steps
    (.call (k := .fields) (l := .digest) leafHash (PathVar.fieldsWire leaf))
  refine ⟨_, .bind (.define _) (.bind run (.define _)), fun z => ?_⟩
  rw [Wire.eval_isEq, hw z, eq_comm]
  change climb hash _ (leafHash ((PathVar.fieldsWire leaf).eval z : List F)) = _ ↔ _
  rw [fieldsWire_eval]

theorem pathGadget_lawful (leafHash : List F → D) (hash : D → D → D) :
    (pathGadget leafHash hash).Lawful where
  newWitness_parallel := by
    intro path path' same
    refine .bind_eq .newVariable fun leafSibling => .bind_eq .newVariable fun right => ?_
    refine (newList_parallel (by simp [same])).bind ?_
    rintro bits _ ⟨rfl, bitsSize⟩
    refine (newList_parallel same).bind ?_
    rintro upper _ ⟨rfl, upperSize⟩
    refine .pure ⟨rfl, fun z => ?_⟩
    simp only [pathGadget, PathVar.steps, List.length_map, List.length_cons, List.length_zip,
      List.length_reverse, bitsSize, upperSize, length_sides, Nat.min_self]
  newWitness_admits := by
    intro z path
    refine .newVariable_bind fun leafSibling hsibling => .newVariable_bind fun right hright => ?_
    refine newList_admits.bind fun bits hbits => ?_
    refine newList_admits.bind fun upper hupper => .pure ?_
    have reversedBits : bits.reverse.map (fun w => w.eval z) =
        sides (path.leafIndex / 2) path.authPath.reverse.length := by
      rw [List.map_reverse, hbits, List.reverse_reverse, List.length_reverse]
    have reversedUpper : upper.reverse.map (fun w => w.eval z) = path.authPath.reverse := by
      rw [List.map_reverse, hupper]
    have zipped : (bits.reverse.zip upper.reverse).map (fun p => (p.1.eval z, p.2.eval z)) =
        levelsOf (path.leafIndex / 2) path.authPath.reverse := by
      rw [← zip_sides, ← reversedBits, ← reversedUpper, List.zip_map]
      rfl
    simp only [pathGadget, PathVar.steps, List.map_cons, zipped, hsibling, hright]
    rfl
  verify_parallel := by
    intro v root leaf
    obtain ⟨w, run, _⟩ := verifyMembership_computes leafHash hash v root leaf
    exact run.parallel.mono fun x y h => h.1.trans h.2.symm
  verify_forces := by
    intro z v root leaf
    obtain ⟨w, run, hw⟩ := verifyMembership_computes leafHash hash v root leaf
    exact run.forces.mono fun b hb yes => (hw z).mp (hb ▸ yes)
  verify_admits := by
    intro z v root leaf same
    obtain ⟨w, run, hw⟩ := verifyMembership_computes leafHash hash v root leaf
    exact run.admits.mono fun b hb => hb ▸ (hw z).mpr same
  newWitness_witnesses path := by
    refine .bind (.newWitness _ _) fun _ => .bind (.newWitness _ _) fun _ => ?_
    exact .bind (newList_witnesses _) fun _ => .bind (newList_witnesses _) fun _ => .pure _
  verify_witnesses v root leaf := by
    obtain ⟨w, run, _⟩ := verifyMembership_computes leafHash hash v root leaf
    exact run.onlyWitnesses

end PathGadget

section Free

/-- Digests without collisions: the hashed inputs themselves. -/
inductive FreeDigest (F : Type) where
  | leaf (fields : List F)
  | node (left right : FreeDigest F)
  deriving DecidableEq

instance (F : Type) : Inhabited (FreeDigest F) := ⟨.leaf []⟩

abbrev freeGadget (F : Type) [Field F] [DecidableEq F] : TreeConfigGadget F (FreeDigest F) :=
  pathGadget FreeDigest.leaf FreeDigest.node

theorem freeLeaf_injective (F : Type) : Function.Injective (FreeDigest.leaf (F := F)) :=
  fun _ _ h => FreeDigest.leaf.inj h

theorem freeNode_injective (F : Type) : Function.Injective2 (FreeDigest.node (F := F)) :=
  fun _ _ _ _ h => FreeDigest.node.inj h

end Free
end EvalTree
