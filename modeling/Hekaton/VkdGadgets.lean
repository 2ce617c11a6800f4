import Hekaton.EvalTree
import Hekaton.FieldGadgets
import Hekaton.KeyDirectory

/-!
# Hash and path gadgets of the key directory

The gadgets hash bytes and inner nodes as the native functions do, and compute a root along
a witnessed path. An inner node's digest is a fresh witness: no row ties it to the output of
the hash gadget. Index bits are `true` for a right child, the other way round than natively.
-/

namespace VkdGadgets

open Outcomes Wires Synthesis Contracts Uint32 Packing PrimeFields Codecs ByteBits VkdHash
open HonestRuns FieldGadgets SparseTree MerkleTrees EvalTree

/-- `split_at`. -/
def splitAt {α : Type} (mid : Nat) (v : List α) : Outcome (List α × List α) :=
  if mid ≤ v.length then .ok (v.take mid, v.drop mid) else panicWith "mid > len"

/-- One round of `split`, on all pieces so far. -/
def splitRound {α : Type} (length : Nat) : List (List α) → Outcome (List (List α))
  | [] => .ok []
  | v :: vs => do
      let parts ← splitAt length v
      let rest ← splitRound length vs
      .ok (parts.1 :: parts.2 :: rest)

/-- The loop of `split`, with the factor as fuel. -/
def splitLoop {α : Type} : Nat → Nat → Nat → List (List α) → Outcome (List (List α))
  | 0, _, _, res => .ok res
  | fuel + 1, splitFactor, length, res =>
      if splitFactor = 1 then .ok res
      else do
        let res ← splitRound (length / 2) res
        splitLoop fuel (splitFactor / 2) (length / 2) res

def split {α : Type} (vector : List α) (splitFactor : Nat) :
    Outcome (Except MerkleTreeError (List (List α))) :=
  if [2, 4, 8, 16].contains splitFactor then do
    let res ← splitLoop splitFactor splitFactor vector.length [vector]
    .ok (.ok res)
  else .ok (.error .invalidParameter)

abbrev splitFactor : Nat := 4

/-- `DEPTH / SPLIT_FACTOR`. -/
abbrev pathLength : Nat := 32

section Split
variable {α : Type}

/-- A round cuts every chunk in two. -/
theorem splitRound_chunks {n k : Nat} {v : List α} (positive : 0 < n)
    (size : v.length = 2 * n * k) : splitRound n (chunks (2 * n) v) = .ok (chunks n v) := by
  induction k generalizing v with
  | zero =>
    cases List.eq_nil_of_length_eq_zero size
    rw [chunks_nil positive, chunks_nil (by omega)]
    rfl
  | succ k ih =>
    rw [Nat.mul_succ] at size
    have block : (v.take (2 * n)).length = 2 * n := by
      rw [List.length_take]
      omega
    have low : (v.take n).length = n := by
      rw [List.length_take]
      omega
    have high : ((v.take (2 * n)).drop n).length = n := by
      rw [List.length_drop, block]
      omega
    have fits : n ≤ (v.take (2 * n)).length := by omega
    have lowest : (v.take (2 * n)).take n = v.take n := by
      rw [List.take_take, Nat.min_eq_left (by omega)]
    have wide := chunks_append (by omega) block (v.drop (2 * n))
    have halves := chunks_append positive low ((v.take (2 * n)).drop n ++ v.drop (2 * n))
    rw [chunks_append positive high, ← List.append_assoc, ← lowest, List.take_append_drop,
      List.take_append_drop] at halves
    rw [List.take_append_drop] at wide
    have rest := ih (v := v.drop (2 * n)) (by rw [List.length_drop]; omega)
    rw [wide, halves, splitRound, splitAt, if_pos fits, ok_bind, rest, ok_bind]

theorem splitLoop_chunks {fuel j n k : Nat} {v : List α} (positive : 0 < n) (enough : j ≤ fuel)
    (size : v.length = 2 ^ j * n * k) :
    splitLoop fuel (2 ^ j) (2 ^ j * n) (chunks (2 ^ j * n) v) = .ok (chunks n v) := by
  induction j generalizing fuel k with
  | zero =>
    rw [pow_zero, Nat.one_mul]
    cases fuel with
    | zero => rfl
    | succ fuel => rw [splitLoop, if_pos rfl]
  | succ j ih =>
    obtain _ | fuel := fuel
    · exact absurd enough (Nat.not_succ_le_zero j)
    · have more : 2 ^ (j + 1) ≠ 1 := (Nat.one_lt_two_pow (Nat.succ_ne_zero j)).ne'
      have wide : 2 ^ (j + 1) * n = 2 * (2 ^ j * n) := by
        rw [pow_succ', Nat.mul_assoc]
      have factor : 2 ^ (j + 1) / 2 = 2 ^ j := by
        rw [pow_succ', Nat.mul_div_cancel_left _ Nat.two_pos]
      rw [wide] at size
      rw [splitLoop, if_neg more, factor, wide, Nat.mul_div_cancel_left _ Nat.two_pos,
        splitRound_chunks (by positivity) size, ok_bind]
      apply ih (by omega) (k := 2 * k)
      rw [size, Nat.mul_comm 2, Nat.mul_assoc]

/-- Split by 2, 4, 8 or 16, a list of as many equal parts is cut into them. -/
theorem split_chunks {j n : Nat} {v : List α} (factor : j ∈ [1, 2, 3, 4]) (positive : 0 < n)
    (size : v.length = 2 ^ j * n) : split v (2 ^ j) = .ok (.ok (chunks n v)) := by
  have allowed : [2, 4, 8, 16].contains (2 ^ j) = true := by
    fin_cases factor <;> rfl
  have whole : chunks (2 ^ j * n) v = [v] := by
    have one := chunks_append (by positivity) size []
    rwa [List.append_nil, chunks_nil (by positivity)] at one
  have run := splitLoop_chunks (k := 1) positive Nat.lt_two_pow_self.le
    (by rw [size, Nat.mul_one])
  rw [whole] at run
  rw [split, if_pos allowed, size, run, ok_bind]

end Split

/-- The piece of 32 that starts at `32 * i`. -/
def piece {α : Type} (v : List α) (i : Nat) : List α := (v.drop (pathLength * i)).take pathLength

theorem split_pieces {α : Type} {v : List α} (size : v.length = 128) :
    split v splitFactor = .ok (.ok ((List.range splitFactor).map (piece v))) := by
  have run := split_chunks (j := 2) (n := pathLength) (by simp) (by decide) size
  rwa [chunks_of_length (k := splitFactor) (by decide) size] at run

section Model
variable {F D : Type} [Field F] [PrimeField F]

/-- `CRHGadget::evaluate`: absorb the elements and squeeze one. -/
def crh (p : Poseidon F) (elements : List F) : F :=
  squeezed p (elements.foldl (PoseidonSponge.absorb p) PoseidonSponge.new).state

def leafAsFieldVector (leaf : List (UInt8Var F D)) : List (Wire F D .field) :=
  (chunks innerHashSize leaf).map fun chunk => leBitsToFpVar 1 (toBits chunk)

/-- `leaf[0].cs()` panics on an empty leaf. -/
def hashVar (p : Poseidon F) (leaf : List (UInt8Var F D)) : Synth F D (List (UInt8Var F D)) := do
  let _ ← Synth.lift (expect Coordinator.outOfBounds leaf.head?)
  let digestFieldValue ← Synth.define
    (.call (k := .fields) (l := .field) (crh p) (PathVar.fieldsWire (leafAsFieldVector leaf)))
  let bytes ← toBytes digestFieldValue
  pure (bytes.take 32)

def hashLeafVar (p : Poseidon F) (leaf : List (UInt8Var F D)) : Synth F D (Wire F D .field) := do
  let digest ← hashVar p leaf
  pure (digestToFpvar (digest.take innerHashSize))

/-- `TwoToOneCRHGadget::evaluate`. -/
def twoToOneWire (p : Poseidon F) (left right : Wire F D .field) : Wire F D .field :=
  .call₂ (k := .field) (l := .field) (m := .field) p.twoToOne left right

/-- The digest cut to 27 bytes is witnessed, with no constraint on it. -/
def hashInnerNodeVar [DecidableEq F] [Inhabited D] [DecidableEq D] (p : Poseidon F)
    (leftInput rightInput : Wire F D .field) : Synth F D (Wire F D .field) := do
  let poseidonDigest ← Synth.define (twoToOneWire p leftInput rightInput)
  let digestValue ← Synth.value poseidonDigest
  Synth.newWitness .field (innerHashToField (truncated digestValue))

structure MerkleTreePathVar (F D : Type) where
  path : List (Wire F D .field)

namespace MerkleTreePathVar

def newVariable (mode : AllocationMode) (p : MerkleTreePath) :
    Synth F D (MerkleTreePathVar F D) := do
  let path ← p.path.mapM fun digest => Synth.newVariable mode .field (innerHashToField digest)
  pure ⟨path⟩

omit [Field F] [PrimeField F] in
/-- The loop over the index bits and the path; `inner` is the gadget of an inner node. -/
def climbVar (inner : Wire F D .field → Wire F D .field → Synth F D (Wire F D .field)) :
    List (Wire F D .bool) → List (Wire F D .field) → Wire F D .field → Synth F D (Wire F D .field)
  | b :: index, sibling :: path, currentHash => do
      let lc ← Synth.conditionallySelect b sibling currentHash
      let rc ← Synth.conditionallySelect b currentHash sibling
      let currentHash ← inner lc rc
      climbVar inner index path currentHash
  | [], _, currentHash => pure currentHash
  | _ :: _, [], currentHash => pure currentHash

variable (inner : Wire F D .field → Wire F D .field → Synth F D (Wire F D .field))

omit [Field F] [PrimeField F] in
def computeRootVarFromInternalNode (v : MerkleTreePathVar F D) (internalNode : Wire F D .field)
    (index : List (Wire F D .bool)) : Synth F D (Wire F D .field) :=
  climbVar inner index v.path internalNode

def computeRootVarFromLeaf (p : Poseidon F) (v : MerkleTreePathVar F D)
    (leaf : List (UInt8Var F D)) (index : List (Wire F D .bool)) :
    Synth F D (Wire F D .field) := do
  let currentHash ← hashLeafVar p leaf
  climbVar inner index v.path currentHash

omit [Field F] [PrimeField F] in
def conditionalCheckPathFromInternalNode (v : MerkleTreePathVar F D)
    (root internalNode : Wire F D .field) (index : List (Wire F D .bool))
    (condition : Wire F D .bool) : Synth F D Unit := do
  let computedRoot ← v.computeRootVarFromInternalNode inner internalNode index
  Synth.conditionalEnforceEqual root computedRoot condition

def conditionalCheckPathFromLeaf (p : Poseidon F) (v : MerkleTreePathVar F D)
    (root : Wire F D .field) (leaf : List (UInt8Var F D)) (index : List (Wire F D .bool))
    (condition : Wire F D .bool) : Synth F D Unit := do
  let computedRoot ← v.computeRootVarFromLeaf inner p leaf index
  Synth.conditionalEnforceEqual root computedRoot condition

omit [Field F] [PrimeField F] in
def checkPathFromInternalNode (v : MerkleTreePathVar F D) (root internalNode : Wire F D .field)
    (index : List (Wire F D .bool)) : Synth F D Unit :=
  v.conditionalCheckPathFromInternalNode inner root internalNode index (.constant true)

def checkPathFromLeaf (p : Poseidon F) (v : MerkleTreePathVar F D) (root : Wire F D .field)
    (leaf : List (UInt8Var F D)) (index : List (Wire F D .bool)) : Synth F D Unit :=
  v.conditionalCheckPathFromLeaf inner p root leaf index (.constant true)

end MerkleTreePathVar

/-- The lowest 32 bits of an element. -/
def fpvarToBooleanIndex (fpvar : Wire F D .field) : Synth F D (List (Wire F D .bool)) := do
  let booleanVec ← toBitsLe fpvar
  pure (booleanVec.take pathLength)

end Model

section Values
variable {F D : Type} [Field F] [PrimeField F] [DecidableEq F] [DecidableEq D] {p : Poseidon F}

omit [PrimeField F] in
theorem leafAsFieldVector_eval (z : Assignment F D) (leaf : List (UInt8Var F D)) :
    (leafAsFieldVector leaf).map (fun w => (w.eval z : F)) = fieldVector (bytesValue z leaf) := by
  rw [leafAsFieldVector, fieldVector, chunks, chunks, bytesValue_length, List.map_map, List.map_map,
    List.map_map]
  apply List.map_congr_left
  intro i _
  apply leBitsToFpVar_bytes
  rw [values_toBits, bytesValue, bytesValue, List.map_take, List.map_drop]

omit [PrimeField F] [DecidableEq F] [DecidableEq D] in
theorem crh_fieldVector (value : List UInt8) :
    crh p (fieldVector value) = squeezed p (absorbed p value) := rfl

/-- The hash gadget runs on a leaf that is not empty, and computes the hash of its bytes. -/
theorem hashVar_computes {leaf : List (UInt8Var F D)} (nonempty : leaf ≠ []) :
    ∃ vs, Computes (hashVar p leaf) vs ∧ vs.length = 32 ∧
      ∀ z : Assignment F D, bytesValue z vs = hash p (bytesValue z leaf) := by
  obtain ⟨vs, run, count, same⟩ := toBytes_computes (F := F) (D := D)
    (.call (k := .fields) (l := .field) (crh p) (PathVar.fieldsWire (leafAsFieldVector leaf)))
  obtain ⟨first, rest, rfl⟩ := List.exists_cons_of_ne_nil nonempty
  refine ⟨vs.take 32, .bind (.lift rfl) (.bind (.define _) (run.bind (.pure _))), ?_, fun z => ?_⟩
  · rw [List.length_take, count, Nat.min_self]
  · rw [List.take_of_length_le (le_of_eq count), same z, Wire.eval, fieldsWire_eval,
      leafAsFieldVector_eval, crh_fieldVector, VkdHash.hash]

theorem hashLeafVar_computes {leaf : List (UInt8Var F D)} (nonempty : leaf ≠ []) :
    ∃ w, Computes (hashLeafVar p leaf) w ∧
      ∀ z : Assignment F D, (w.eval z : F) = innerHashToField (hashLeaf p (bytesValue z leaf)) := by
  obtain ⟨vs, run, _, same⟩ := hashVar_computes (p := p) nonempty
  refine ⟨digestToFpvar (vs.take innerHashSize), run.bind (.pure _), fun z => ?_⟩
  have digest : bytesValue z (vs.take innerHashSize) = (hashLeaf p (bytesValue z leaf)).toList := by
    have cut := congrArg (List.take innerHashSize) (same z)
    rw [bytesValue, List.map_take]
    exact cut
  rw [digestToFpvar_eval, digest, innerHashToField, List.take_of_length_le]
  exact le_of_eq (List.Vector.toList_length _)

omit [DecidableEq F] [DecidableEq D] in
theorem fpvarToBooleanIndex_computes (w : Wire F D .field) :
    Computes (fpvarToBooleanIndex w) ((List.range pathLength).map (bitWire w)) := by
  have cut : ((List.range modulusBitSize).map (bitWire w)).take pathLength =
      (List.range pathLength).map (bitWire w) := by
    rw [← List.map_take, List.take_range]
    rfl
  exact (toBitsLe_computes w).bind (cut ▸ .pure _)

end Values

section Honest
variable {F D : Type} [Field F] [PrimeField F] [DecidableEq F] [Inhabited D] [DecidableEq D]
variable {p : Poseidon F} {vars : List (Variable F D)}

theorem hashInnerNodeVar_decides {left right : Wire F D .field} {l r : InnerHash}
    (hl : Valued vars left (innerHashToField l)) (hr : Valued vars right (innerHashToField r)) :
    Decides vars (hashInnerNodeVar p left right) True
      fun now w => Valued now w (innerHashToField (hashInnerNode p l r)) := by
  have digest : Valued vars (twoToOneWire p left right)
      (p.twoToOne (innerHashToField l) (innerHashToField r)) :=
    Valued.call₂ (m := .field) hl hr p.twoToOne
  apply Decides.define_bind
  intro more
  apply (Decides.value (digest.mono more)).bind_true
  rintro more' _ rfl
  exact Decides.newVariable _ _ _

omit [PrimeField F] in
theorem newPath_decides (path : MerkleTreePath) :
    Decides vars (MerkleTreePathVar.newVariable .witness path) True fun now v =>
      List.Forall₂ (fun w digest => Valued now w (innerHashToField digest)) v.path path.path := by
  have each : Decides vars _ True _ := Decides.mapM (l := path.path)
    (g := fun digest => Synth.newVariable (F := F) (D := D) .witness .field (innerHashToField digest))
    (S := fun digest now w => Valued now w (innerHashToField digest))
    (fun _ _ more _ hw => hw.mono more) fun _ _ _ => Decides.newVariable _ _ _
  apply each.bind_true
  intro more ws all
  exact Decides.pure all.flip

omit [Field F] [PrimeField F] [DecidableEq F] [Inhabited D] [DecidableEq D] in
/-- Index bits past the end of the path are not used. -/
theorem climbVar_take {inner : Wire F D .field → Wire F D .field → Synth F D (Wire F D .field)}
    (index : List (Wire F D .bool)) (path : List (Wire F D .field)) (current : Wire F D .field) :
    MerkleTreePathVar.climbVar inner index path current =
      MerkleTreePathVar.climbVar inner (index.take path.length) path current := by
  induction path generalizing index current with
  | nil => cases index <;> rfl
  | cons sibling path ih =>
    cases index with
    | nil => rfl
    | cons b index =>
      rw [List.length_cons, List.take_succ_cons, MerkleTreePathVar.climbVar,
        MerkleTreePathVar.climbVar]
      apply congrArg
      funext lc
      apply congrArg
      funext rc
      exact congrArg _ (funext fun current => ih index current)

/-- The gadget climbs from a digest as the native function does. -/
theorem climbVar_decides {index : List (Wire F D .bool)} {path : List (Wire F D .field)}
    {levels : List (Bool × InnerHash)} {current : Wire F D .field} {digest : InnerHash}
    (bits : List.Forall₂ (fun w level => Valued vars w level.1) index levels)
    (siblings : List.Forall₂ (fun w level => Valued vars w (innerHashToField level.2)) path levels)
    (start : Valued vars current (innerHashToField digest)) :
    Decides vars (MerkleTreePathVar.climbVar (hashInnerNodeVar p) index path current) True
      fun now w => Valued now w (innerHashToField (climb (hashInnerNode p) levels digest)) := by
  induction levels generalizing vars index path current digest with
  | nil =>
    cases bits
    exact .pure start
  | cons level levels ih =>
    obtain ⟨right, sibling⟩ := level
    obtain _ | ⟨hb, bits⟩ := bits
    obtain _ | ⟨hs, siblings⟩ := siblings
    rename_i b index s path
    rw [MerkleTreePathVar.climbVar]
    apply Decides.define_bind
    intro more
    apply Decides.define_bind
    intro more'
    have lc := (hb.select hs start).mono (more ++ more')
    have rc := (hb.select start hs).mono (more ++ more')
    rw [List.append_assoc]
    have next : Decides (vars ++ (more ++ more'))
        (hashInnerNodeVar p (.select b s current) (.select b current s)) True fun now w =>
          Valued now w (innerHashToField
            (bif right then hashInnerNode p sibling digest else hashInnerNode p digest sibling)) := by
      cases right with
      | true => exact hashInnerNodeVar_decides lc rc
      | false => exact hashInnerNodeVar_decides lc rc
    apply next.bind_true
    intro more'' w hw
    rw [List.append_assoc] at hw ⊢
    have rest := ih (bits.imp fun w level h => h.mono _) (siblings.imp fun w level h => h.mono _) hw
    cases right with
    | true => exact rest
    | false => exact rest

end Honest

section Rows
variable {F D : Type} [Field F] [PrimeField F] {p : Poseidon F}

theorem hashInnerNodeVar_parallel [DecidableEq F] [Inhabited D] [DecidableEq D]
    (left right : Wire F D .field) :
    Parallel (hashInnerNodeVar p left right) (hashInnerNodeVar p left right) (· = ·) := by
  apply (Parallel.define _).bind_eq
  intro digest
  apply Parallel.bind (R := fun _ _ => True)
  · exact fun vars vars' _ => ⟨_, .empty, _, .empty, rfl, rfl, ⟨rfl, rfl⟩, trivial⟩
  · exact fun _ _ _ => .newVariable

omit [PrimeField F] in
/-- Paths of one length have the same variables. -/
theorem newPath_parallel {path path' : MerkleTreePath}
    (size : path.path.length = path'.path.length) :
    Parallel (MerkleTreePathVar.newVariable (F := F) (D := D) .witness path)
      (MerkleTreePathVar.newVariable .witness path') (· = ·) := by
  obtain ⟨siblings⟩ := path
  obtain ⟨siblings'⟩ := path'
  change siblings.length = siblings'.length at size
  apply Parallel.bind_eq _ fun ws => .pure rfl
  induction siblings generalizing siblings' with
  | nil =>
    cases List.eq_nil_of_length_eq_zero size.symm
    exact .pure rfl
  | cons digest siblings ih =>
    obtain _ | ⟨digest', siblings'⟩ := siblings'
    · cases size
    · rw [List.mapM_cons, List.mapM_cons]
      apply Parallel.newVariable.bind_eq
      intro w
      have rest : siblings.length = siblings'.length := Nat.succ.inj size
      exact (ih _ rest).bind_eq fun ws => .pure rfl

omit [Field F] [PrimeField F] in
theorem climbVar_parallel {inner : Wire F D .field → Wire F D .field → Synth F D (Wire F D .field)}
    (same : ∀ l r, Parallel (inner l r) (inner l r) (· = ·)) (index : List (Wire F D .bool))
    (path : List (Wire F D .field)) (current : Wire F D .field) :
    Parallel (MerkleTreePathVar.climbVar inner index path current)
      (MerkleTreePathVar.climbVar inner index path current) (· = ·) := by
  induction index generalizing path current with
  | nil =>
    rw [MerkleTreePathVar.climbVar]
    exact .pure rfl
  | cons b index ih =>
    cases path with
    | nil => exact .pure rfl
    | cons sibling path =>
      apply (Parallel.define _).bind_eq
      intro lc
      apply (Parallel.define _).bind_eq
      intro rc
      exact (same lc rc).bind_eq fun current => ih path current

end Rows
end VkdGadgets
