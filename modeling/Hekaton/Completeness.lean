import Hekaton.PublicInputs
import Hekaton.Recordings
import Hekaton.SubcircuitShapes
import Mathlib

/-!
# Completeness of the protocol

A prover whose traces pass every check, whose path climbs from the leaf after its
subtraces to the root, and whose body replays the recorded operations is accepted: both
stages run and their honest values satisfy every row. Recording, sorting, building the
execution tree and answering the requests makes every subcircuit such a prover.
-/

namespace Completeness

open Outcomes Wires Synthesis Contracts Uint32 Transcript PortalManager PortalChecks MemoryTraces
open MerkleTrees EvalTree SubcircuitCircuit SubcircuitShapes Coordinator Scripts Recordings
open PublicInputs

variable {F D : Type} [Field F] {m : MemType} {gadget : TreeConfigGadget F D}

/-- A prover that can only be accepted: `c` are its challenges. -/
structure HonestProver (gadget : TreeConfigGadget F D) (c : Challenges F m)
    (p : SubcircuitWithPortalsProver F D m) : Prop where
  challenges : p.challenges = c.toList
  body : ∃ circ ops, p.circ = some circ ∧
    circ.generateConstraints p.subcircuitIdx = script ops ∧
    List.Forall₂ PortalOp.Matches ops p.timeOrderedSubtrace
  lengths : p.addrOrderedSubtrace.length = p.timeOrderedSubtrace.length
  follows : ((p.curLeaf.lastSubtraceEntry :: p.addrOrderedSubtrace).map Entry.assigned).IsChain
    (Follows (F := F) (m := m))
  ticks : (p.timeOrderedSubtrace.map Entry.assigned).IsChain (Ticks (F := F) (m := m))
  first : p.subcircuitIdx = 0 → p.curLeaf.evals.timeOrderedEval = 1 ∧
    p.curLeaf.evals.addrOrderedEval = 1 ∧ p.curLeaf.lastSubtraceEntry = .padding m
  member : climb gadget.twoToOneHash p.nextLeafMembership.levels (gadget.leafHash
    (advance c p.curLeaf p.timeOrderedSubtrace p.addrOrderedSubtrace).toFieldElements) = p.root
  last : IsLast p →
    (advance c p.curLeaf p.timeOrderedSubtrace p.addrOrderedSubtrace).evals.timeOrderedEval =
    (advance c p.curLeaf p.timeOrderedSubtrace p.addrOrderedSubtrace).evals.addrOrderedEval

variable [DecidableEq F] [DecidableEq D] {z : Assignment F D}

omit [Field F] [DecidableEq F] [DecidableEq D] in
theorem checked_of_chains [Field F] {times addrs : List (Entry F F m)}
    (follows : addrs.IsChain Follows) (ticks : times.IsChain Ticks) (k : Nat) :
    Checked Ticks times addrs k := by
  constructor
  · intro e next he hnext
    obtain ⟨_, rfl⟩ := List.getElem?_eq_some_iff.mp he
    obtain ⟨inside, rfl⟩ := List.getElem?_eq_some_iff.mp hnext
    exact follows.getElem _ inside
  · intro e next he hnext
    obtain ⟨_, rfl⟩ := List.getElem?_eq_some_iff.mp he
    obtain ⟨inside, rfl⟩ := List.getElem?_eq_some_iff.mp hnext
    exact ticks.getElem _ inside

omit [DecidableEq F] in
theorem matches_assigned {op : PortalOp F} {e : TranscriptEntry F m} (h : op.Matches e) :
    op.Matches e.assigned := by
  cases op with
  | get name => trivial
  | set name val => cases e <;> exact h

section Admission
variable {c : Challenges F m} {p : SubcircuitWithPortalsProver F D m}

theorem newEntries_admits (entries : List (TranscriptEntry F m)) :
    Admits z (newEntries .witness entries)
      (fun vars => vars.map (TranscriptEntryVar.value z) = entries.map Entry.assigned) := by
  induction entries with
  | nil => exact .pure rfl
  | cons e entries ih =>
    refine (newVariable_admits .witness e).bind fun v hv => ih.bind fun vs hvs => .pure ?_
    rw [List.map_cons, List.map_cons, hv, hvs]

/-- The variables of stage 0 hold the subtraces. -/
structure Holds (z : Assignment F D) (p : SubcircuitWithPortalsProver F D m)
    (vars : SubtraceVars F D m) : Prop where
  time : vars.time.map (TranscriptEntryVar.value z) = p.timeOrderedSubtrace.map Entry.assigned
  addr : vars.addr.map (TranscriptEntryVar.value z) = p.addrOrderedSubtrace.map Entry.assigned

theorem stage0_admits (p : SubcircuitWithPortalsProver F D m) :
    Admits z p.stage0 (Holds z p) := by
  refine (newEntries_admits _).bind fun time htime => ?_
  exact (newEntries_admits _).bind fun addr haddr => .pure ⟨htime, haddr⟩

/-- The variables that stage 1 opens with hold the request. -/
structure Opened (z : Assignment F D) (p : SubcircuitWithPortalsProver F D m)
    (v : LeafVars F D m gadget) : Prop where
  curLeaf : v.curLeaf.value z = p.curLeaf.assigned
  path : gadget.levels z v.path = p.nextLeafMembership.levels
  challenges : v.challenges.map (fun w => (w.eval z : F)) = p.challenges
  root : v.root.eval z = p.root

theorem openLeaf_admits (lawful : gadget.Lawful) (p : SubcircuitWithPortalsProver F D m) :
    Admits z (p.openLeaf gadget) (Opened z p) := by
  refine (ExecTreeLeafVar.newVariable_admits .witness _).bind fun curLeaf hleaf => ?_
  refine (lawful.newWitness_admits z _).bind fun path hpath => ?_
  refine newList_admits.bind fun challenges hchallenges => ?_
  exact .newVariable_bind fun root hroot => .pure ⟨hleaf, hpath, hchallenges, hroot⟩

theorem firstLeafChecks_admits (honest : HonestProver gadget c p)
    {curLeaf : ExecTreeLeafVar F D m} (opened : curLeaf.value z = p.curLeaf.assigned) :
    Admits z (p.firstLeafChecks curLeaf) (fun _ => True) := by
  rw [SubcircuitWithPortalsProver.firstLeafChecks]
  split
  · rename_i first
    obtain ⟨time, addr, padding⟩ := honest.first first
    obtain ⟨w, run, hw⟩ := isPadding_computes curLeaf.lastSubtraceEntry
    have leaf := AssignedLeaf.mk.inj opened
    refine .emit_bind ?_ (.emit_bind ?_ (run.admits_bind (.emit ?_)))
    · exact leaf.1.trans time
    · exact leaf.2.1.trans addr
    · rw [holds_enforceEqual, hw z, leaf.2.2, padding, Entry.assigned_padding]
      exact checkedAsPadding_padding
  · exact .pure trivial

/-- The body ends with the evaluations of the leaf after the subtraces. -/
theorem runBody_admits (honest : HonestProver gadget c p) {vars : SubtraceVars F D m}
    (holds : Holds z p vars) {curLeaf : ExecTreeLeafVar F D m}
    (opened : curLeaf.value z = p.curLeaf.assigned) {chals : Challenges (Wire F D .field) m}
    (hchals : chals.value z = c) :
    Admits z (p.runBody (preparedManager vars curLeaf chals)) (fun pm =>
      (ExecTreeLeafVar.mk pm.runningEvals ((curLeaf.lastSubtraceEntry :: vars.addr).getLast
        (List.cons_ne_nil _ _))).value z =
      (advance c p.curLeaf p.timeOrderedSubtrace p.addrOrderedSubtrace).assigned) := by
  obtain ⟨circ, ops, hcirc, body, matched⟩ := honest.body
  have leaf := AssignedLeaf.mk.inj opened
  have htimes : times z (preparedManager vars curLeaf chals) =
      p.timeOrderedSubtrace.map Entry.assigned := holds.time
  have haddrs : addrs z (preparedManager vars curLeaf chals) =
      (p.curLeaf.lastSubtraceEntry :: p.addrOrderedSubtrace).map Entry.assigned := by
    rw [List.map_cons, ← leaf.2.2, ← holds.addr]
    rfl
  have count := matched.length_eq
  rw [SubcircuitWithPortalsProver.runBody]
  simp only [hcirc, body]
  refine (script_admits (c := chals) rfl ?_ ?_).bind fun r ran => .pure ?_
  · intro j _
    rw [htimes, haddrs]
    exact checked_of_chains honest.follows honest.ticks _
  · intro j op t hop ht
    rw [htimes, List.getElem?_map] at ht
    obtain ⟨e, he, rfl⟩ := Option.map_eq_some_iff.mp ht
    have start : (preparedManager vars curLeaf chals).nextEntryIdx + j = j := Nat.zero_add j
    rw [start] at he
    obtain ⟨hj, rfl⟩ := List.getElem?_eq_some_iff.mp hop
    obtain ⟨hj', rfl⟩ := List.getElem?_eq_some_iff.mp he
    exact matches_assigned (matched.get hj hj')
  · obtain ⟨made, size, ran⟩ := ran
    have time := ran.timeEval
    have addr := ran.addrEval
    have start : (preparedManager vars curLeaf chals).nextEntryIdx = 0 := rfl
    rw [htimes, hchals, size, count, start, List.drop_zero, List.take_of_length_le (by simp)] at time
    rw [haddrs, hchals, size, count, ← honest.lengths, start, List.map_cons, List.drop_succ_cons,
      List.drop_zero, List.take_of_length_le (by simp)] at addr
    have lastEntry : ((curLeaf.lastSubtraceEntry :: vars.addr).getLast
        (List.cons_ne_nil _ _)).value z =
        ((p.curLeaf.lastSubtraceEntry :: p.addrOrderedSubtrace).getLast
          (List.cons_ne_nil _ _)).assigned := by
      have witnessed := List.getLast_map (f := TranscriptEntryVar.value z)
        (l := curLeaf.lastSubtraceEntry :: vars.addr) (by simp)
      have native := List.getLast_map (f := Entry.assigned (F := F) (m := m))
        (l := p.curLeaf.lastSubtraceEntry :: p.addrOrderedSubtrace) (by simp)
      rw [← witnessed, ← native]
      exact List.getLast_congr _ _ haddrs
    refine AssignedLeaf.mk.injEq .. ▸ ⟨?_, ?_, lastEntry⟩
    · rw [time, List.map_map]
      exact congrArg (· * _) leaf.1
    · rw [addr, List.map_map]
      exact congrArg (· * _) leaf.2.1

theorem handOver_admits (lawful : gadget.Lawful) (honest : HonestProver gadget c p)
    {vars : SubtraceVars F D m} (holds : Holds z p vars) {v : LeafVars F D m gadget}
    (opened : Opened z p v) :
    Admits z ((p.withVars vars).handOver gadget v) (fun h => h.nextLeaf.value z =
      (advance c p.curLeaf p.timeOrderedSubtrace p.addrOrderedSubtrace).assigned) := by
  refine .lift_bind fun evals set => ?_
  obtain ⟨chals, hlist, hevals⟩ := Outcomes.bind_eq_ok.mp set
  cases hevals
  have hchals : chals.value z = c := by
    have lists : (chals.value z).toList = c.toList := by
      rw [Challenges.value, Challenges.toList_map, ← Challenges.toList_of_ofList hlist,
        opened.challenges, honest.challenges]
    have same := congrArg (Challenges.ofList m) lists
    rwa [Challenges.ofList_toList, Challenges.ofList_toList, Except.ok.injEq] at same
  refine (runBody_admits honest holds opened.curLeaf hchals).bind fun pm leaf => ?_
  refine (lawful.verify_admits z v.path v.root _ ?_).bind fun b member => ?_
  · rw [opened.path, opened.root, ← honest.member, ← fields_assigned, ← leaf]
    exact congrArg (climb _ _) (congrArg _ (ExecTreeLeafVar.toConstraintField_eval _))
  · exact .emit_bind member (.pure leaf)

theorem lastLeafCheck_admits (honest : HonestProver gadget c p)
    {nextLeaf : ExecTreeLeafVar F D m} (handed : nextLeaf.value z =
      (advance c p.curLeaf p.timeOrderedSubtrace p.addrOrderedSubtrace).assigned) :
    Admits z (p.lastLeafCheck nextLeaf) (fun _ => True) := by
  have leaf := AssignedLeaf.mk.inj handed
  rw [SubcircuitWithPortalsProver.lastLeafCheck]
  split
  · exact .lift fun _ _ => trivial
  · rename_i circ hcirc
    split
    · rename_i last
      refine .emit ?_
      rw [holds_enforceEqual, leaf.1, leaf.2.1]
      exact honest.last ⟨circ, hcirc, last⟩
    · exact .pure trivial

/-- The honest values satisfy every row of both stages. -/
theorem synthesize_admits (lawful : gadget.Lawful) (honest : HonestProver gadget c p) :
    Admits z (p.synthesize gadget) (fun _ => True) := by
  refine (stage0_admits p).bind fun vars holds => ?_
  refine Admits.bind (P := fun _ => True) ?_ fun _ _ => .pure trivial
  refine (openLeaf_admits lawful (p.withVars vars)).bind fun v opened => ?_
  have opened' : Opened z p v := ⟨opened.1, opened.2, opened.3, opened.4⟩
  refine (firstLeafChecks_admits (p := p) honest opened'.curLeaf).bind fun _ _ => ?_
  refine (handOver_admits lawful honest holds opened').bind fun handover handed => ?_
  exact (lastLeafCheck_admits (p := p) honest handed).bind fun _ _ => .pure trivial

/-- An honest prover runs through both stages. -/
theorem synthesize_total (lawful : gadget.Lawful) (honest : HonestProver gadget c p) :
    SameStages gadget p p := by
  obtain ⟨circ, ops, hcirc, body, matched⟩ := honest.body
  have size : p.challenges.length = Challenges.count m := by
    rw [honest.challenges, Challenges.length_toList]
  refine sameStages lawful ⟨rfl, rfl, rfl, size, size, fun pm ready => ?_⟩ Iff.rfl ?_ ?_ Iff.rfl
  · rw [SubcircuitWithPortalsProver.runBody]
    simp only [hcirc, body]
    obtain ⟨c', set⟩ := ready.set
    refine .bind_eq (script_parallel set ?_ ?_) fun r => .pure rfl
    · rw [ready.fresh, ready.time, matched.length_eq, Nat.zero_add]
    · rw [ready.fresh, ready.addr, honest.lengths, matched.length_eq, Nat.zero_add]
      exact Nat.lt_succ_self _
  · rw [hcirc]
    rfl
  · rw [hcirc]
    rfl

variable [Inhabited D]

/-- Both stages run, the honest values satisfy every row, and `inputs` are the inputs. -/
def Accepted (gadget : TreeConfigGadget F D) (digestFields : D → List F)
    (p : SubcircuitWithPortalsProver F D m) (inputs : List F) : Prop :=
  ∃ r, p.synthesize gadget [] = .ok r ∧ r.2.Satisfied (assignmentOf r.2.allocations) ∧
    publicInputs digestFields r.2 = inputs

theorem honest_accepted (lawful : gadget.Lawful) (honest : HonestProver gadget c p)
    (digestFields : D → List F) :
    Accepted gadget digestFields p (c.toList ++ digestFields p.root) := by
  obtain ⟨vars, e₀, _, _, v, e₁, _, _, run₀, _, run₁, _⟩ := synthesize_total lawful honest
  have rest : (do
      let handover ← (p.withVars vars).stage1 gadget
      pure (vars, handover)) e₀.allocations = .ok ((vars, v), e₁ ++ .empty) :=
    Synth.bind_of_ok run₁ rfl
  have run : p.synthesize gadget [] = .ok ((vars, v), e₀ ++ (e₁ ++ .empty)) :=
    Synth.bind_of_ok run₀ rest
  rw [Emission.append_empty] at run
  refine ⟨_, run, ?_, ?_⟩
  · exact (synthesize_admits lawful honest [] _ _ run (assignmentOf_agrees _)).1
  · rw [publicInputs_stages lawful (fun pm => ?_) run₀ run₁, honest.challenges]
    obtain ⟨circ, ops, hcirc, body, _⟩ := honest.body
    rw [SubcircuitWithPortalsProver.runBody]
    simp only [hcirc, body]
    exact .bind (script_witnesses ops pm) fun r => .pure _

end Admission

section Protocol
omit [DecidableEq F] [DecidableEq D]

def challengesOf (hash : String → F) : (m : MemType) → Challenges F m
  | .rom => .rom (hash "entry_chal") (hash "tr_chal")
  | .ram => .ram (hash "entry_chal_1") (hash "entry_chal_2") (hash "entry_chal_3") (hash "tr_chal")

theorem new_eq (hash : String → F) :
    RunningEvaluation.new hash m = ⟨1, 1, some (challengesOf hash m)⟩ := by
  cases m <;> rfl

/-- The leaf handed to subcircuit `i`: the padding leaf moved on over the ones before. -/
def leafAt (c : Challenges F m) (times addrs : List (List (TranscriptEntry F m))) (i : Nat) :
    ExecTreeLeaf F m :=
  advance c ⟨⟨1, 1, some c⟩, .padding m⟩ (times.take i).flatten (addrs.take i).flatten

variable {c : Challenges F m} {times addrs : List (List (TranscriptEntry F m))}

theorem leafAt_succ {i : Nat} {time addr : List (TranscriptEntry F m)} (ht : times[i]? = some time)
    (ha : addrs[i]? = some addr) :
    advance c (leafAt c times addrs i) time addr = leafAt c times addrs (i + 1) := by
  rw [leafAt, leafAt, advance_append, List.take_add_one, List.take_add_one, ht, ha]
  simp only [Option.toList_some, List.flatten_append, List.flatten_singleton]

/-- The leaves of the tree: leaf `i` is what subcircuit `i + 1` is handed. -/
theorem generateExecTree_eq (hash : String → F) (sorted : SortedByAddr times addrs) :
    generateExecTree hash times addrs = .ok ((List.range times.length).map fun i =>
      leafAt (challengesOf hash m) times addrs (i + 1)) := by
  have size := sorted.length_eq
  have pairs : ∀ p ∈ times.zip addrs, p.1.length = p.2.length := by
    intro p hp
    obtain ⟨i, hi, rfl⟩ := List.getElem_of_mem hp
    rw [List.length_zip] at hi
    rw [List.getElem_zip]
    exact (sorted.length_getElem (List.getElem?_eq_getElem (by omega))
      (List.getElem?_eq_getElem (by omega))).symm
  have zipped : ∀ j, ((times.zip addrs).take j).flatMap Prod.fst = (times.take j).flatten ∧
      ((times.zip addrs).take j).flatMap Prod.snd = (addrs.take j).flatten := by
    intro j
    have cut : (times.zip addrs).take j = (times.take j).zip (addrs.take j) := List.take_zipWith
    have same : (times.take j).length = (addrs.take j).length := by
      rw [List.length_take, List.length_take, size]
    rw [cut, List.flatMap_def, List.flatMap_def, List.map_fst_zip (Nat.le_of_eq same),
      List.map_snd_zip (Nat.le_of_eq same.symm)]
    exact ⟨rfl, rfl⟩
  rw [generateExecTree, new_eq, leavesFrom_eq rfl pairs, List.length_zip, size, Nat.min_self]
  simp only [zipped, leafAt]

variable [Inhabited D] (gadget) (k : Nat)

/-- What the tree commits to at leaf `i`. -/
def serialized (c : Challenges F m) (times addrs : List (List (TranscriptEntry F m))) (i : Nat) :
    List F :=
  (((List.range times.length).map fun i => leafAt c times addrs (i + 1)).getD i
    (.padding F m)).toFieldElements

theorem serialized_eq {i : Nat} (inside : i < times.length) :
    serialized c times addrs i = (leafAt c times addrs (i + 1)).toFieldElements := by
  simp [serialized, inside]

/-- The coordinator's state over sorted subtraces. -/
def builtState (c : Challenges F m) (times addrs : List (List (TranscriptEntry F m))) :
    CoordinatorStage1State F D m where
  timeOrderedSubtraces := times
  addrOrderedSubtraces := addrs
  execTreeLeaves := (List.range times.length).map fun i => leafAt c times addrs (i + 1)
  execTreeRoot := treeRoot gadget k (serialized c times addrs)
  execTreeLeafAuthPaths := (List.range times.length).map
    (generateProof gadget k (serialized c times addrs))

theorem state_new (hash : String → F) (sorted : SortedByAddr times addrs) :
    CoordinatorStage1State.new gadget k hash times addrs =
      .ok (builtState gadget k (challengesOf hash m) times addrs) := by
  rw [CoordinatorStage1State.new, generateExecTree_eq hash sorted]
  rfl

/-- The request of stage 1 hands out leaf `i - 1`, or the padding leaf, and path `i`. -/
theorem genRequest_eq {i : Nat} (inside : i < times.length) :
    (builtState gadget k c times addrs).genRequest i = .ok ⟨i, leafAt c times addrs i,
      generateProof gadget k (serialized c times addrs) i,
      treeRoot gadget k (serialized c times addrs)⟩ := by
  have path : (builtState gadget k c times addrs).execTreeLeafAuthPaths[i]? =
      some (generateProof gadget k (serialized c times addrs) i) := by
    simp [builtState, inside]
  have leaf : ∀ j, j < times.length → (builtState gadget k c times addrs).execTreeLeaves[j]? =
      some (leafAt c times addrs (j + 1)) := by
    intro j hj
    simp [builtState, hj]
  rw [CoordinatorStage1State.genRequest, path]
  split
  · rename_i later
    rw [leaf (i - 1) (by omega), Nat.sub_add_cancel later]
    rfl
  · rename_i first
    obtain rfl : i = 0 := by omega
    rw [leaf 0 inside]
    have start : leafAt c times addrs 0 = ⟨⟨1, 1, some c⟩, .padding m⟩ := advance_nil rfl
    rw [start]
    rfl

theorem intoAggState_eq (digestFields : D → List F) (inside : 0 < times.length) :
    (builtState gadget k c times addrs).intoAggState digestFields =
      .ok ⟨c.toList ++ digestFields (treeRoot gadget k (serialized c times addrs))⟩ := by
  have first : (builtState gadget k c times addrs).execTreeLeaves[0]? =
      some (leafAt c times addrs 1) := by
    simp [builtState, inside]
  rw [CoordinatorStage1State.intoAggState, first]
  rfl

/-- Sorting a trace does not change its evaluation. -/
theorem evals_eq (sorted : SortedByAddr times addrs) :
    (leafAt c times addrs times.length).evals.timeOrderedEval =
      (leafAt c times addrs times.length).evals.addrOrderedEval := by
  have same := (sorted.perm.symm.map fun e => c.factor e.assigned).prod_eq
  simp only [leafAt, advance, one_mul, List.take_length, same,
    List.take_of_length_le (Nat.le_of_eq sorted.length_eq)]

/-- The prover that the worker builds from both requests of subcircuit `i`. -/
def workerProver (circ : CircuitWithPortals F D m) (c : Challenges F m)
    (times addrs : List (List (TranscriptEntry F m))) (i : Nat)
    (time addr : List (TranscriptEntry F m)) : SubcircuitWithPortalsProver F D m :=
  { SubcircuitWithPortalsProver.new 2 with
    subcircuitIdx := i
    timeOrderedSubtrace := time
    addrOrderedSubtrace := addr
    circ := some circ
    curLeaf := leafAt c times addrs i
    nextLeafMembership := generateProof gadget k (serialized c times addrs) i
    root := treeRoot gadget k (serialized c times addrs)
    challenges := c.toList }

variable {gadget} {k}

/-- Every subcircuit of honest traces gets an honest prover. -/
theorem workerProver_honest (level : 0 < k) (size : times.length = 2 ^ k)
    (honest : HonestTraces times addrs) {programs : List (List (PortalOp F))}
    (recorded : List.Forall₂ (List.Forall₂ PortalOp.Matches) programs times)
    {circ : CircuitWithPortals F D m}
    (bodies : ∀ i, circ.generateConstraints i = script (programs.getD i []))
    (count : circ.numSubcircuits = 2 ^ k) {i : Nat} {time addr : List (TranscriptEntry F m)}
    (ht : times[i]? = some time) (ha : addrs[i]? = some addr) :
    HonestProver gadget c (workerProver gadget k circ c times addrs i time addr) where
  challenges := rfl
  body := by
    obtain ⟨hi, rfl⟩ := List.getElem?_eq_some_iff.mp ht
    have hi' : i < programs.length := recorded.length_eq ▸ hi
    refine ⟨circ, programs[i], rfl, ?_, recorded.get hi' hi⟩
    change circ.generateConstraints i = script programs[i]
    rw [bodies, List.getD_eq_getElem?_getD, List.getElem?_eq_getElem hi', Option.getD_some]
  lengths := honest.sorted.length_getElem ht ha
  follows := by
    have split : addrs.flatten =
        (addrs.take i).flatten ++ (addr ++ (addrs.drop (i + 1)).flatten) := by
      obtain ⟨hi, rfl⟩ := List.getElem?_eq_some_iff.mp ha
      rw [← List.flatten_cons, ← List.drop_eq_getElem_cons hi, ← List.flatten_append,
        List.take_append_drop]
    have chain := honest.follows
    rw [List.isChain_map, split] at chain
    rw [List.isChain_map]
    exact isChain_window chain
  ticks := by
    have chain := honest.ticks
    obtain ⟨hi, rfl⟩ := List.getElem?_eq_some_iff.mp ht
    rw [← List.take_append_drop i times, List.drop_eq_getElem_cons hi, List.flatten_append,
      List.flatten_cons, List.map_append, List.map_append] at chain
    exact (List.isChain_append.mp (List.isChain_append.mp chain).2.1).1
  first := by
    rintro rfl
    have start : leafAt c times addrs 0 = ⟨⟨1, 1, some c⟩, .padding m⟩ := advance_nil rfl
    rw [workerProver, start]
    exact ⟨rfl, rfl, rfl⟩
  member := by
    have inside : i < times.length := (List.getElem?_eq_some_iff.mp ht).1
    change climb _ _ (gadget.leafHash
      (advance c (leafAt c times addrs i) time addr).toFieldElements) = _
    rw [leafAt_succ ht ha, ← serialized_eq inside]
    exact climb_generateProof gadget level _ (size ▸ inside)
  last := by
    rintro ⟨circ', same, index⟩
    cases same
    have final : i + 1 = times.length := by
      have := Nat.two_pow_pos k
      have atLast : i = circ.numSubcircuits - 1 := index
      omega
    change (advance c (leafAt c times addrs i) time addr).evals.timeOrderedEval =
      (advance c (leafAt c times addrs i) time addr).evals.addrOrderedEval
    rw [leafAt_succ ht ha, final]
    exact evals_eq honest.sorted

end Protocol

section Run
variable [Inhabited D] {k : Nat} {times addrs : List (List (TranscriptEntry F m))}

/-- The coordinator's run over sorted subtraces gets every subcircuit accepted, with the
inputs of the aggregator's state. -/
def Complete (gadget : TreeConfigGadget F D) (k : Nat)
    (digestFields : D → List F) (hash : String → F) (circ : CircuitWithPortals F D m)
    (times addrs : List (List (TranscriptEntry F m))) : Prop :=
  ∃ state agg, CoordinatorStage1State.new gadget k hash times addrs = .ok state ∧
    state.intoAggState digestFields = .ok agg ∧
    ∀ i < 2 ^ k, ∃ req₀ req₁ p, state.genStage0Request i = .ok req₀ ∧
      state.genRequest i = .ok req₁ ∧ requestedProver circ req₀ req₁ = .ok p ∧
      Accepted gadget digestFields p agg.publicInputs

theorem complete_of_honest (lawful : gadget.Lawful) (level : 0 < k) (size : times.length = 2 ^ k)
    (honest : HonestTraces times addrs) {programs : List (List (PortalOp F))}
    (recorded : List.Forall₂ (List.Forall₂ PortalOp.Matches) programs times)
    {circ : CircuitWithPortals F D m}
    (bodies : ∀ i, circ.generateConstraints i = script (programs.getD i []))
    (count : circ.numSubcircuits = 2 ^ k) (digestFields : D → List F) (hash : String → F) :
    Complete gadget k digestFields hash circ times addrs := by
  have nonempty : 0 < times.length := size ▸ Nat.two_pow_pos k
  refine ⟨_, _, state_new gadget k hash honest.sorted,
    intoAggState_eq gadget k digestFields nonempty, fun i inside => ?_⟩
  have hi : i < times.length := size ▸ inside
  have hi' : i < addrs.length := honest.sorted.length_eq ▸ hi
  have ht := List.getElem?_eq_getElem hi
  have ha := List.getElem?_eq_getElem hi'
  have accepted := honest_accepted lawful (workerProver_honest (c := challengesOf hash m) level
    size honest recorded bodies count ht ha) digestFields
  refine ⟨⟨i, times[i], addrs[i]⟩, _, _, ?_, genRequest_eq gadget k hi, rfl, accepted⟩
  rw [CoordinatorStage1State.genStage0Request, builtState]
  simp only [ht, ha]
  rfl

end Run

section Scripts
variable [Inhabited D]

/-- The circuit whose subcircuits are scripts, recorded by the ROM setup manager. -/
def romCircuit (D : Type) [Inhabited D] [DecidableEq D] (programs : List (List (PortalOp F))) :
    CircuitWithPortals F D .rom where
  numSubcircuits := programs.length
  generateConstraints i := script (programs.getD i [])
  getPortalSubtraces := do
    let r ← recordSubtraces (D := D) SetupRomPortalManager.startSubtrace programs .new []
    .ok r.1.subtraces
  getUniqueSubcircuits := List.range programs.length
  representativeSubcircuit := .ok

/-- The circuit whose subcircuits are scripts, recorded by the RAM setup manager. -/
def ramCircuit (D : Type) [Inhabited D] [DecidableEq D] (programs : List (List (PortalOp F))) :
    CircuitWithPortals F D .ram where
  numSubcircuits := programs.length
  generateConstraints i := script (programs.getD i [])
  getPortalSubtraces := do
    let r ← recordSubtraces (D := D) SetupRamPortalManager.startSubtrace programs .new []
    .ok r.1.subtraces
  getUniqueSubcircuits := List.range programs.length
  representativeSubcircuit := .ok

omit [Field F] [DecidableEq F] in
theorem lengths_of_recorded {programs : List (List (PortalOp F))}
    {times : List (List (TranscriptEntry F m))}
    (recorded : List.Forall₂ (List.Forall₂ PortalOp.Matches) programs times) :
    times.flatten.length = programs.flatten.length := by
  induction recorded with
  | nil => rfl
  | cons first rest ih =>
    rw [List.flatten_cons, List.flatten_cons, List.length_append, List.length_append, ih,
      first.length_eq]

omit [Field F] [DecidableEq F] in
theorem nonempty_of_recorded {programs : List (List (PortalOp F))}
    {times : List (List (TranscriptEntry F m))}
    (recorded : List.Forall₂ (List.Forall₂ PortalOp.Matches) programs times)
    (nonempty : programs.flatten ≠ []) : times.flatten ≠ [] := by
  intro empty
  have sizes := lengths_of_recorded recorded
  rw [empty] at sizes
  exact nonempty (List.eq_nil_of_length_eq_zero sizes.symm)

/-- ROM: whatever the setup manager accepts, every subcircuit's honest run is accepted. -/
theorem rom_complete (lawful : gadget.Lawful) {k : Nat} (level : 0 < k)
    (programs : List (List (PortalOp F))) (count : programs.length = 2 ^ k)
    (nonempty : programs.flatten ≠ []) {times : List (List (TranscriptEntry F .rom))}
    (accepted : (romCircuit D programs).getPortalSubtraces = .ok times)
    (digestFields : D → List F) (hash : String → F) :
    ∃ addrs, sortSubtracesByAddr times = .ok addrs ∧
      Complete gadget k digestFields hash (romCircuit D programs) times addrs := by
  obtain ⟨⟨pm, e⟩, run, same⟩ := Outcomes.bind_eq_ok.mp accepted
  cases same
  obtain ⟨inv, made, all, recorded⟩ := romRecords.all romInv_new run
  rw [show (SetupRomPortalManager.new : SetupRomPortalManager F).subtraces = [] from rfl,
    List.nil_append] at all
  subst all
  obtain ⟨addrs, sorted, spec⟩ := sortSubtracesByAddr_spec (nonempty_of_recorded recorded nonempty)
  refine ⟨addrs, sorted, ?_⟩
  exact complete_of_honest lawful level (recorded.length_eq ▸ count) (rom_honest inv rfl spec)
    recorded (fun _ => rfl) count digestFields hash

/-- One subcircuit sets two wires, the other reads them in the other order. -/
def relayPrograms : List (List (PortalOp (ZMod 3))) :=
  [[.set "a" 1, .set "b" (-1)], [.get "b", .get "a"]]

theorem relayPrograms_complete : ∃ times addrs,
    (romCircuit (FreeDigest (ZMod 3)) relayPrograms).getPortalSubtraces = .ok times ∧
    sortSubtracesByAddr times = .ok addrs ∧ Complete (freeGadget (ZMod 3)) 1 (fun _ => [1])
      (fun _ => 2) (romCircuit (FreeDigest (ZMod 3)) relayPrograms) times addrs := by
  have ran : (romCircuit (FreeDigest (ZMod 3)) relayPrograms).getPortalSubtraces.isOk := by
    decide +kernel
  obtain ⟨addrs, sorted, complete⟩ := rom_complete (pathGadget_lawful _ _) Nat.one_pos
    relayPrograms rfl (by decide) (eq_ok_result ran) (fun _ => [1]) (fun _ => 2)
  exact ⟨_, addrs, eq_ok_result ran, sorted, complete⟩

/-- RAM: whatever the setup manager accepts, in at most `2 ^ 32` operations. -/
theorem ram_complete (lawful : gadget.Lawful) {k : Nat} (level : 0 < k)
    (programs : List (List (PortalOp F))) (count : programs.length = 2 ^ k)
    (nonempty : programs.flatten ≠ []) (small : programs.flatten.length ≤ 2 ^ 32)
    {times : List (List (TranscriptEntry F .ram))}
    (accepted : (ramCircuit D programs).getPortalSubtraces = .ok times)
    (digestFields : D → List F) (hash : String → F) :
    ∃ addrs, sortSubtracesByAddr times = .ok addrs ∧
      Complete gadget k digestFields hash (ramCircuit D programs) times addrs := by
  obtain ⟨⟨pm, e⟩, run, same⟩ := Outcomes.bind_eq_ok.mp accepted
  cases same
  obtain ⟨inv, made, all, recorded⟩ := ramRecords.all ramInv_new run
  rw [show (SetupRamPortalManager.new : SetupRamPortalManager F).subtraces = [] from rfl,
    List.nil_append] at all
  subst all
  obtain ⟨addrs, sorted, spec⟩ := sortSubtracesByAddr_spec (nonempty_of_recorded recorded nonempty)
  refine ⟨addrs, sorted, ?_⟩
  refine complete_of_honest lawful level (recorded.length_eq ▸ count) (ram_honest inv rfl ?_ spec)
    recorded (fun _ => rfl) count digestFields hash
  exact (lengths_of_recorded recorded).symm ▸ small

/-- One subcircuit overwrites a wire, the other does nothing. -/
def overwritePrograms : List (List (PortalOp (ZMod 3))) :=
  [[.set "a" 1, .get "a", .set "b" 0, .set "a" (-1), .get "a"], []]

theorem overwritePrograms_complete : ∃ times addrs,
    (ramCircuit (FreeDigest (ZMod 3)) overwritePrograms).getPortalSubtraces = .ok times ∧
    sortSubtracesByAddr times = .ok addrs ∧ Complete (freeGadget (ZMod 3)) 1 (fun _ => [1])
      (fun _ => 2) (ramCircuit (FreeDigest (ZMod 3)) overwritePrograms) times addrs := by
  have ran : (ramCircuit (FreeDigest (ZMod 3)) overwritePrograms).getPortalSubtraces.isOk := by
    decide +kernel
  obtain ⟨addrs, sorted, complete⟩ := ram_complete (pathGadget_lawful _ _) Nat.one_pos
    overwritePrograms rfl (by decide) (by decide) (eq_ok_result ran) (fun _ => [1]) (fun _ => 2)
  exact ⟨_, addrs, eq_ok_result ran, sorted, complete⟩

end Scripts
end Completeness
