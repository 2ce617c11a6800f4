import Hekaton.SubcircuitCircuit
import Mathlib.Data.List.Sort

/-!
# The coordinator

Sorts the time-ordered trace by address into subtraces of the same sizes, evaluates both
traces subtrace by subtrace into the leaves of the execution tree, and makes one request
for each subcircuit: the leaf before it, the path of its own leaf and the root. Leaf `i`
is the padding leaf advanced over the first `i + 1` subtraces.
-/

namespace Coordinator

open Outcomes Wires Synthesis Transcript EvalTree SubcircuitCircuit

section Sorting
variable {F : Type} {m : MemType}

/-- The sort key: the address for ROM, address and then timestamp for RAM. -/
def KeyLe : TranscriptEntry F m → TranscriptEntry F m → Prop
  | .rom e, .rom e' => e.addr ≤ e'.addr
  | .ram e, .ram e' => e.addr < e'.addr ∨
      e.addr = e'.addr ∧ e.i.representation ≤ e'.i.representation

instance : DecidableRel (KeyLe (F := F) (m := m))
  | .rom e, .rom e' => inferInstanceAs (Decidable (e.addr ≤ e'.addr))
  | .ram e, .ram e' => inferInstanceAs (Decidable (e.addr < e'.addr ∨
      e.addr = e'.addr ∧ e.i.representation ≤ e'.i.representation))

/-- Cut a list into chunks of the given sizes. -/
def rechunk {α : Type} : List Nat → List α → List (List α)
  | [], _ => []
  | size :: sizes, l => l.take size :: rechunk sizes (l.drop size)

/-- The whole trace sorted, in subtraces of the old sizes; an empty trace has no entry 0. -/
def sortSubtracesByAddr (timeOrderedSubtraces : List (List (TranscriptEntry F m))) :
    Outcome (List (List (TranscriptEntry F m))) :=
  match timeOrderedSubtraces.flatten with
  | [] => panicWith "index out of bounds: the len is 0 but the index is 0"
  | e :: trace => .ok (rechunk (timeOrderedSubtraces.map List.length)
      ((e :: trace).insertionSort KeyLe))

theorem keyLe_addr {e e' : TranscriptEntry F m} (h : KeyLe e e') : e.addr ≤ e'.addr := by
  cases e <;> cases e'
  · exact h
  · rcases h with below | ⟨same, _⟩
    · exact Nat.le_of_lt below
    · exact Nat.le_of_eq same

instance : Std.Total (KeyLe (F := F) (m := m)) where
  total e e' := by
    cases e with
    | rom e =>
      cases e' with
      | rom e' => exact Nat.le_total e.addr e'.addr
    | ram e =>
      cases e' with
      | ram e' =>
        rcases Nat.lt_trichotomy e.addr e'.addr with below | same | above
        · exact Or.inl (Or.inl below)
        · refine (Nat.le_total e.i.representation e'.i.representation).imp ?_ ?_
          · exact fun le => Or.inr ⟨same, le⟩
          · exact fun le => Or.inr ⟨same.symm, le⟩
        · exact Or.inr (Or.inl above)

instance : IsTrans (TranscriptEntry F m) KeyLe where
  trans e e' e'' h h' := by
    cases e with
    | rom e =>
      cases e' with
      | rom e' => cases e'' with | rom e'' => exact Nat.le_trans h h'
    | ram e =>
      cases e' with
      | ram e' =>
        cases e'' with
        | ram e'' =>
          rcases h with below | ⟨same, le⟩ <;> rcases h' with below' | ⟨same', le'⟩
          · exact Or.inl (below.trans below')
          · exact Or.inl (same' ▸ below)
          · exact Or.inl (same ▸ below')
          · exact Or.inr ⟨same.trans same', le.trans le'⟩

theorem rechunk_flatten {α : Type} {sizes : List Nat} {l : List α} (h : sizes.sum = l.length) :
    (rechunk sizes l).flatten = l := by
  induction sizes generalizing l with
  | nil => exact (List.eq_nil_of_length_eq_zero h.symm).symm
  | cons size sizes ih =>
    have rest : sizes.sum = (l.drop size).length := by
      rw [List.length_drop, ← h, List.sum_cons, Nat.add_sub_cancel_left]
    rw [rechunk, List.flatten_cons, ih rest, List.take_append_drop]

theorem rechunk_lengths {α : Type} {sizes : List Nat} {l : List α} (h : sizes.sum = l.length) :
    (rechunk sizes l).map List.length = sizes := by
  induction sizes generalizing l with
  | nil => rfl
  | cons size sizes ih =>
    have rest : sizes.sum = (l.drop size).length := by
      rw [List.length_drop, ← h, List.sum_cons, Nat.add_sub_cancel_left]
    have fits : size ≤ l.length := by
      rw [← h, List.sum_cons]
      exact Nat.le_add_right _ _
    rw [rechunk, List.map_cons, ih rest, List.length_take, Nat.min_eq_left fits]

/-- What sorting makes of the subtraces. -/
structure SortedByAddr (times addrs : List (List (TranscriptEntry F m))) : Prop where
  perm : addrs.flatten.Perm times.flatten
  lengths : addrs.map List.length = times.map List.length
  sorted : addrs.flatten.Pairwise KeyLe

theorem SortedByAddr.length_eq {times addrs : List (List (TranscriptEntry F m))}
    (sorted : SortedByAddr times addrs) : addrs.length = times.length := by
  have sizes := congrArg List.length sorted.lengths
  simpa only [List.length_map] using sizes

theorem SortedByAddr.length_getElem {times addrs : List (List (TranscriptEntry F m))}
    (sorted : SortedByAddr times addrs) {i : Nat} {time addr : List (TranscriptEntry F m)}
    (ht : times[i]? = some time) (ha : addrs[i]? = some addr) : addr.length = time.length := by
  have sizes := congrArg (fun l => l[i]?) sorted.lengths
  simp only [List.getElem?_map, ht, ha, Option.map_some, Option.some.injEq] at sizes
  exact sizes

theorem sortSubtracesByAddr_spec {times : List (List (TranscriptEntry F m))}
    (nonempty : times.flatten ≠ []) :
    ∃ addrs, sortSubtracesByAddr times = .ok addrs ∧ SortedByAddr times addrs := by
  have sizes : (times.map List.length).sum = (times.flatten.insertionSort KeyLe).length := by
    rw [List.length_insertionSort, List.length_flatten]
  refine ⟨rechunk (times.map List.length) (times.flatten.insertionSort KeyLe), ?_, ?_, ?_, ?_⟩
  · rw [sortSubtracesByAddr]
    split
    · rename_i empty
      exact absurd empty nonempty
    · rename_i trace
      rw [trace]
  · rw [rechunk_flatten sizes]
    exact List.perm_insertionSort KeyLe _
  · exact rechunk_lengths sizes
  · rw [rechunk_flatten sizes]
    exact List.pairwise_insertionSort KeyLe _

end Sorting

section Tree
variable {F : Type} [Field F] {m : MemType}

/-- Evaluate one pair of entries and remember the address-ordered one. -/
def updateLeaf (leaf : ExecTreeLeaf F m) (entries : TranscriptEntry F m × TranscriptEntry F m) :
    Outcome (ExecTreeLeaf F m) := do
  let evals ← leaf.evals.updateTimeOrdered entries.1
  let evals ← evals.updateAddrOrdered entries.2
  .ok ⟨evals, entries.2⟩

/-- The leaves from `leaf` on: one after each pair of subtraces. -/
def leavesFrom (leaf : ExecTreeLeaf F m) :
    List (List (TranscriptEntry F m) × List (TranscriptEntry F m)) →
      Outcome (List (ExecTreeLeaf F m))
  | [] => .ok []
  | (time, addr) :: rest => do
      let leaf ← (time.zip addr).foldlM updateLeaf leaf
      let leaves ← leavesFrom leaf rest
      .ok (leaf :: leaves)

/-- The leaves of the execution tree; `hash` derives the challenges from the commitment. -/
def generateExecTree (hash : String → F)
    (timeOrderedSubtraces addrOrderedSubtraces : List (List (TranscriptEntry F m))) :
    Outcome (List (ExecTreeLeaf F m)) :=
  leavesFrom ⟨.new hash m, .padding m⟩ (timeOrderedSubtraces.zip addrOrderedSubtraces)

/-- A leaf moved on over entries of both traces. -/
def advance (c : Challenges F m) (leaf : ExecTreeLeaf F m)
    (time addr : List (TranscriptEntry F m)) : ExecTreeLeaf F m where
  evals := ⟨leaf.evals.timeOrderedEval * (time.map fun e => c.factor e.assigned).prod,
    leaf.evals.addrOrderedEval * (addr.map fun e => c.factor e.assigned).prod, some c⟩
  lastSubtraceEntry := (leaf.lastSubtraceEntry :: addr).getLast (List.cons_ne_nil _ _)

variable {c : Challenges F m}

theorem advance_append (leaf : ExecTreeLeaf F m)
    (time addr time' addr' : List (TranscriptEntry F m)) :
    advance c (advance c leaf time addr) time' addr' =
      advance c leaf (time ++ time') (addr ++ addr') := by
  have last : ∀ (l l' : List (TranscriptEntry F m)) (e : TranscriptEntry F m),
      ((e :: l).getLast (List.cons_ne_nil _ _) :: l').getLast (List.cons_ne_nil _ _) =
        (e :: (l ++ l')).getLast (List.cons_ne_nil _ _) := by
    intro l l' e
    rcases List.eq_nil_or_concat' l' with rfl | ⟨l', x, rfl⟩
    · simp
    · have snoc : ∀ (e : TranscriptEntry F m) (l : List (TranscriptEntry F m)),
          (e :: (l ++ [x])).getLast (List.cons_ne_nil _ _) = x := by
        intro e l
        rw [List.getLast_cons (by simp), List.getLast_concat]
      simp only [snoc, ← List.append_assoc]
  simp only [advance, List.map_append, List.prod_append, mul_assoc, last]

theorem advance_nil {leaf : ExecTreeLeaf F m} (set : leaf.evals.challenges = some c) :
    advance c leaf [] [] = leaf := by
  obtain ⟨⟨t, a, chals⟩, last⟩ := leaf
  cases set
  simp [advance]

theorem updateLeaf_eq {leaf : ExecTreeLeaf F m} (set : leaf.evals.challenges = some c)
    (t a : TranscriptEntry F m) : updateLeaf leaf (t, a) = .ok (advance c leaf [t] [a]) := by
  simp only [updateLeaf, RunningEvaluation.updateTimeOrdered, RunningEvaluation.updateAddrOrdered,
    set, expect_some, ok_bind, advance, List.map_singleton, List.prod_singleton,
    List.getLast_cons_cons, List.getLast_singleton]

theorem foldlM_updateLeaf {leaf : ExecTreeLeaf F m} (set : leaf.evals.challenges = some c)
    {time addr : List (TranscriptEntry F m)} (size : time.length = addr.length) :
    (time.zip addr).foldlM updateLeaf leaf = .ok (advance c leaf time addr) := by
  induction time generalizing leaf addr with
  | nil =>
    cases List.eq_nil_of_length_eq_zero size.symm
    rw [advance_nil set]
    rfl
  | cons t time ih =>
    obtain _ | ⟨a, addr⟩ := addr
    · cases size
    · rw [List.zip_cons_cons, List.foldlM_cons, updateLeaf_eq set, ok_bind,
        ih rfl (Nat.succ.inj size), advance_append]
      rfl

/-- Leaf `i` is the first leaf moved on over the subtraces up to `i`. -/
theorem leavesFrom_eq {leaf : ExecTreeLeaf F m} (set : leaf.evals.challenges = some c)
    {l : List (List (TranscriptEntry F m) × List (TranscriptEntry F m))}
    (sizes : ∀ p ∈ l, p.1.length = p.2.length) :
    leavesFrom leaf l = .ok ((List.range l.length).map fun i =>
      advance c leaf ((l.take (i + 1)).flatMap Prod.fst) ((l.take (i + 1)).flatMap Prod.snd)) := by
  induction l generalizing leaf with
  | nil => rfl
  | cons p l ih =>
    obtain ⟨time, addr⟩ := p
    have set' : (advance c leaf time addr).evals.challenges = some c := rfl
    have rest := ih set' fun q hq => sizes q (List.mem_cons_of_mem _ hq)
    rw [leavesFrom, foldlM_updateLeaf set (sizes _ List.mem_cons_self), ok_bind, rest, ok_bind,
      List.length_cons, List.range_succ_eq_map, List.map_cons, List.map_map]
    simp only [Function.comp_def, List.take_succ_cons, List.take_zero, List.flatMap_cons,
      List.flatMap_nil, List.append_nil, advance_append]

end Tree

section Requests
variable {F D : Type} [Field F] {m : MemType}

structure CoordinatorStage1State (F D : Type) (m : MemType) where
  timeOrderedSubtraces : List (List (TranscriptEntry F m))
  addrOrderedSubtraces : List (List (TranscriptEntry F m))
  execTreeLeaves : List (ExecTreeLeaf F m)
  execTreeRoot : D
  execTreeLeafAuthPaths : List (MerklePath D)

structure Stage0Request (F : Type) (m : MemType) where
  subcircuitIdx : Nat
  timeOrderedSubtrace : List (TranscriptEntry F m)
  addrOrderedSubtrace : List (TranscriptEntry F m)

structure Stage1Request (F D : Type) (m : MemType) where
  subcircuitIdx : Nat
  curLeaf : ExecTreeLeaf F m
  nextLeafMembership : MerklePath D
  root : D

structure FinalAggState (F : Type) where
  publicInputs : List F

def outOfBounds : String := "index out of bounds"

/-- The incoming leaf of a request, without its challenges. -/
def requestedLeaf (leaf : Nat → ExecTreeLeaf F m) : Nat → ExecTreeLeaf F m
  | 0 => .padding F m
  | idx + 1 => leaf idx

namespace CoordinatorStage1State

/-- `depth` is the height of the tree over the leaves. -/
def new [Inhabited D] (gadget : TreeConfigGadget F D) (depth : Nat) (hash : String → F)
    (timeOrderedSubtraces addrOrderedSubtraces : List (List (TranscriptEntry F m))) :
    Outcome (CoordinatorStage1State F D m) := do
  let leaves ← generateExecTree hash timeOrderedSubtraces addrOrderedSubtraces
  let serialized := fun i => (leaves.getD i (.padding F m)).toFieldElements
  .ok ⟨timeOrderedSubtraces, addrOrderedSubtraces, leaves, treeRoot gadget depth serialized,
    (List.range timeOrderedSubtraces.length).map (generateProof gadget depth serialized)⟩

/-- The request of stage 0 only names the subtraces. -/
def genStage0Request (state : CoordinatorStage1State F D m) (subcircuitIdx : Nat) :
    Outcome (Stage0Request F m) := do
  let time ← expect unwrapNone state.timeOrderedSubtraces[subcircuitIdx]?
  let addr ← expect unwrapNone state.addrOrderedSubtraces[subcircuitIdx]?
  .ok ⟨subcircuitIdx, time, addr⟩

/-- The incoming leaf is leaf `idx - 1`, or the padding leaf with leaf 0's challenges. -/
def genRequest (state : CoordinatorStage1State F D m) (subcircuitIdx : Nat) :
    Outcome (Stage1Request F D m) := do
  let curLeaf ← if 0 < subcircuitIdx then
      expect unwrapNone state.execTreeLeaves[subcircuitIdx - 1]?
    else do
      let first ← expect outOfBounds state.execTreeLeaves[0]?
      let leaf := ExecTreeLeaf.padding F m
      .ok { leaf with evals := leaf.evals.copyChallengesFrom first.evals }
  let path ← expect outOfBounds state.execTreeLeafAuthPaths[subcircuitIdx]?
  .ok ⟨subcircuitIdx, curLeaf, path, state.execTreeRoot⟩

theorem genRequest_curLeaf {state : CoordinatorStage1State F D m}
    {leaf : Nat → ExecTreeLeaf F m} {n subcircuitIdx : Nat} {req : Stage1Request F D m}
    (leaves : state.execTreeLeaves = (List.range n).map leaf) (inside : subcircuitIdx < n)
    (made : state.genRequest subcircuitIdx = .ok req) :
    req.curLeaf.toFieldElements = (requestedLeaf leaf subcircuitIdx).toFieldElements := by
  rw [CoordinatorStage1State.genRequest] at made
  cases subcircuitIdx with
  | zero =>
    rw [if_neg (Nat.lt_irrefl 0)] at made
    obtain ⟨first, _, rest⟩ := bind_eq_ok.mp made
    obtain ⟨curLeaf, started, rest⟩ := bind_eq_ok.mp rest
    obtain ⟨path, _, same⟩ := bind_eq_ok.mp rest
    cases started
    cases same
    rfl
  | succ idx =>
    have found : state.execTreeLeaves[idx + 1 - 1]? = some (leaf idx) := by
      rw [Nat.add_sub_cancel, leaves, List.getElem?_map,
        List.getElem?_range (Nat.lt_of_succ_lt inside), Option.map_some]
    rw [if_pos (Nat.succ_pos idx), found] at made
    obtain ⟨curLeaf, handed, rest⟩ := bind_eq_ok.mp made
    obtain ⟨path, _, same⟩ := bind_eq_ok.mp rest
    cases handed
    cases same
    rfl

/-- The public inputs of every proof; a digest is a list of field elements. -/
def intoAggState (digestFields : D → List F) (state : CoordinatorStage1State F D m) :
    Outcome (FinalAggState F) := do
  let first ← expect outOfBounds state.execTreeLeaves[0]?
  let challenges ← first.evals.challengeList
  .ok ⟨challenges ++ digestFields state.execTreeRoot⟩

end CoordinatorStage1State

/-- The worker's prover for one subcircuit, with the values of both requests. -/
def requestedProver [Inhabited D] (circ : CircuitWithPortals F D m) (req₀ : Stage0Request F m)
    (req₁ : Stage1Request F D m) : Outcome (SubcircuitWithPortalsProver F D m) :=
  match req₁.curLeaf.evals.challengeList with
  | .error fault => .error fault
  | .ok challenges => .ok { SubcircuitWithPortalsProver.new 2 with
      subcircuitIdx := req₀.subcircuitIdx
      timeOrderedSubtrace := req₀.timeOrderedSubtrace
      addrOrderedSubtrace := req₀.addrOrderedSubtrace
      circ := some circ
      curLeaf := req₁.curLeaf
      nextLeafMembership := req₁.nextLeafMembership
      root := req₁.root
      challenges := challenges }

/-- The generator's placeholder for one subcircuit: the time-ordered subtrace twice. -/
def generatorProver [Inhabited D] (circ : CircuitWithPortals F D m)
    (timeOrderedSubtraces : List (List (TranscriptEntry F m))) (subcircuitIdx : Nat) :
    Outcome (SubcircuitWithPortalsProver F D m) :=
  match timeOrderedSubtraces[subcircuitIdx]? with
  | none => panicWith outOfBounds
  | some subtrace => .ok { SubcircuitWithPortalsProver.new circ.numSubcircuits with
      subcircuitIdx := subcircuitIdx
      circ := some circ
      timeOrderedSubtrace := subtrace
      addrOrderedSubtrace := subtrace }

end Requests
end Coordinator
