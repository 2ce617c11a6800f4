import Hekaton.EvalTree
import Hekaton.PortalChecks

/-!
# The circuit of one subcircuit

Stage 0 witnesses both subtraces. Stage 1 witnesses the incoming leaf and the path of
the outgoing one, takes the challenges and the root as inputs, checks the padding leaf
at index 0, runs the subcircuit's body over the prepended address trace, checks that
the outgoing leaf is in the tree and, at the last index, that both evaluations agree.
-/

namespace SubcircuitCircuit

open Outcomes Wires Synthesis Contracts Transcript PortalManager PortalChecks EvalTree
open MerkleTrees

/-- A partitioned circuit with memory of type `m`. -/
structure CircuitWithPortals (F D : Type) (m : MemType) : Type 1 where
  numSubcircuits : Nat
  generateConstraints : Nat → Program F D Unit
  getPortalSubtraces : Outcome (List (List (TranscriptEntry F m)))
  getUniqueSubcircuits : List Nat
  representativeSubcircuit : Nat → Outcome Nat

structure SubcircuitWithPortalsProver (F D : Type) (m : MemType) : Type 1 where
  subcircuitIdx : Nat
  circ : Option (CircuitWithPortals F D m)
  timeOrderedSubtrace : List (TranscriptEntry F m)
  addrOrderedSubtrace : List (TranscriptEntry F m)
  timeOrderedSubtraceVar : List (TranscriptEntryVar F D m)
  addrOrderedSubtraceVar : List (TranscriptEntryVar F D m)
  curLeaf : ExecTreeLeaf F m
  nextLeafMembership : MerklePath D
  challenges : List F
  root : D

/-- The variables of stage 0. -/
structure SubtraceVars (F D : Type) (m : MemType) where
  time : List (TranscriptEntryVar F D m)
  addr : List (TranscriptEntryVar F D m)

/-- The variables that stage 1 opens with. -/
structure LeafVars (F D : Type) (m : MemType) (gadget : TreeConfigGadget F D) where
  curLeaf : ExecTreeLeafVar F D m
  path : gadget.PathVar
  challenges : List (Wire F D .field)
  root : Wire F D .digest

/-- The variables of stage 1, with the manager and the leaf that the body ends with. -/
structure HandoverVars (F D : Type) (m : MemType) (gadget : TreeConfigGadget F D)
    extends LeafVars F D m gadget where
  pm : ProverPortalManager F D m
  nextLeaf : ExecTreeLeafVar F D m

section Model
variable {F D : Type} [Field F] {m : MemType} {gadget : TreeConfigGadget F D}

/-- Index 0, no subtraces, and an empty path of the length the tree calls for. -/
def SubcircuitWithPortalsProver.new [Inhabited D] (numSubcircuits : Nat) :
    SubcircuitWithPortalsProver F D m where
  subcircuitIdx := 0
  circ := none
  timeOrderedSubtrace := []
  addrOrderedSubtrace := []
  timeOrderedSubtraceVar := []
  addrOrderedSubtraceVar := []
  curLeaf := .padding F m
  nextLeafMembership := ⟨default, List.replicate (numSubcircuits.log2 - 1) default, 0⟩
  challenges := List.replicate (Challenges.count m) 0
  root := default

def newEntries (mode : AllocationMode) :
    List (TranscriptEntry F m) → Synth F D (List (TranscriptEntryVar F D m))
  | [] => pure []
  | e :: es => do
      let v ← TranscriptEntryVar.newVariable mode e
      let vs ← newEntries mode es
      pure (v :: vs)

namespace SubcircuitWithPortalsProver

def stage0 (p : SubcircuitWithPortalsProver F D m) : Synth F D (SubtraceVars F D m) := do
  let time ← newEntries .witness p.timeOrderedSubtrace
  let addr ← newEntries .witness p.addrOrderedSubtrace
  pure ⟨time, addr⟩

def withVars (p : SubcircuitWithPortalsProver F D m) (vars : SubtraceVars F D m) :
    SubcircuitWithPortalsProver F D m :=
  { p with timeOrderedSubtraceVar := vars.time, addrOrderedSubtraceVar := vars.addr }

/-- The checks of the incoming leaf at index 0. -/
def firstLeafChecks (p : SubcircuitWithPortalsProver F D m) (curLeaf : ExecTreeLeafVar F D m) :
    Synth F D Unit :=
  if p.subcircuitIdx = 0 then do
    Synth.enforceEqual curLeaf.evals.timeOrderedEval (.constant (1 : F))
    Synth.enforceEqual curLeaf.evals.addrOrderedEval (.constant (1 : F))
    let isPadding ← curLeaf.lastSubtraceEntry.isPadding
    Synth.enforceEqual isPadding (.constant true)
  else pure ()

/-- The address-ordered trace with the incoming leaf's last entry first. -/
def fullAddrOrderedSubtrace (p : SubcircuitWithPortalsProver F D m)
    (curLeaf : ExecTreeLeafVar F D m) : List (TranscriptEntryVar F D m) :=
  curLeaf.lastSubtraceEntry :: p.addrOrderedSubtraceVar

/-- Run the body of this subcircuit with the prepared manager. -/
def runBody (p : SubcircuitWithPortalsProver F D m) (pm : ProverPortalManager F D m) :
    Synth F D (ProverPortalManager F D m) :=
  match p.circ with
  | none => Synth.lift (panicWith "must provide circuit for stage 1 computation")
  | some circ => do
      let r ← (circ.generateConstraints p.subcircuitIdx).run pm
      pure r.2

/-- The check of the outgoing leaf at the last index. -/
def lastLeafCheck (p : SubcircuitWithPortalsProver F D m) (nextLeaf : ExecTreeLeafVar F D m) :
    Synth F D Unit :=
  match p.circ with
  | none => Synth.lift (panicWith unwrapNone)
  | some circ =>
      if p.subcircuitIdx = circ.numSubcircuits - 1 then
        Synth.enforceEqual nextLeaf.evals.timeOrderedEval nextLeaf.evals.addrOrderedEval
      else pure ()

/-- Witness the incoming leaf and the path; take the challenges and the root as inputs. -/
def openLeaf (gadget : TreeConfigGadget F D) (p : SubcircuitWithPortalsProver F D m) :
    Synth F D (LeafVars F D m gadget) := do
  let curLeaf ← ExecTreeLeafVar.newVariable .witness p.curLeaf
  let path ← gadget.newWitness p.nextLeafMembership
  let challenges ← newList .input .field p.challenges
  let root ← Synth.newInput .digest p.root
  pure ⟨curLeaf, path, challenges, root⟩

/-- Run the body from the incoming leaf and check that the outgoing one is in the tree. -/
def handOver (gadget : TreeConfigGadget F D) (p : SubcircuitWithPortalsProver F D m)
    (v : LeafVars F D m gadget) : Synth F D (HandoverVars F D m gadget) := do
  let runningEvals ← Synth.lift (v.curLeaf.evals.setChallenges v.challenges)
  let pm ← p.runBody
    (.new p.timeOrderedSubtraceVar (p.fullAddrOrderedSubtrace v.curLeaf) runningEvals)
  let nextLeaf : ExecTreeLeafVar F D m :=
    ⟨pm.runningEvals, (p.fullAddrOrderedSubtrace v.curLeaf).getLast (List.cons_ne_nil _ _)⟩
  let isMember ← gadget.verifyMembership v.path v.root nextLeaf.toConstraintField
  Synth.enforceEqual isMember (.constant true)
  pure { v with pm := pm, nextLeaf := nextLeaf }

def stage1 (gadget : TreeConfigGadget F D) (p : SubcircuitWithPortalsProver F D m) :
    Synth F D (HandoverVars F D m gadget) := do
  let opened ← p.openLeaf gadget
  p.firstLeafChecks opened.curLeaf
  let handover ← p.handOver gadget opened
  p.lastLeafCheck handover.nextLeaf
  pure handover

/-- Both stages, one after the other. -/
def synthesize (gadget : TreeConfigGadget F D) (p : SubcircuitWithPortalsProver F D m) :
    Synth F D (SubtraceVars F D m × HandoverVars F D m gadget) := do
  let vars ← p.stage0
  let handover ← (p.withVars vars).stage1 gadget
  pure (vars, handover)

end SubcircuitWithPortalsProver
end Model

section Facts
variable {F D : Type} [Field F] [DecidableEq F] [DecidableEq D] {m : MemType}
variable {gadget : TreeConfigGadget F D} {z : Assignment F D}

/-- The manager a subcircuit's body is run with. -/
def preparedManager (vars : SubtraceVars F D m) (curLeaf : ExecTreeLeafVar F D m)
    (c : Challenges (Wire F D .field) m) : ProverPortalManager F D m :=
  .new vars.time (curLeaf.lastSubtraceEntry :: vars.addr) { curLeaf.evals with challenges := some c }

/-- What a satisfying assignment of both stages makes of the leaf variables. -/
structure HandedOver (z : Assignment F D) (p : SubcircuitWithPortalsProver F D m)
    (vars : SubtraceVars F D m) (v : HandoverVars F D m gadget) : Prop where
  pathLength : (gadget.levels z v.path).length = p.nextLeafMembership.authPath.length + 1
  first : p.subcircuitIdx = 0 → (v.curLeaf.value z).timeEval = 1 ∧
    (v.curLeaf.value z).addrEval = 1 ∧ checkedAsPadding (v.curLeaf.value z).lastEntry = true
  body : ∃ c made, v.challenges = c.toList ∧
    Ran MayTick z c made (preparedManager vars v.curLeaf c) v.pm
  evals : v.nextLeaf.evals = v.pm.runningEvals
  lastEntry : v.nextLeaf.lastSubtraceEntry =
    (v.curLeaf.lastSubtraceEntry :: vars.addr).getLast (List.cons_ne_nil _ _)
  member : climb gadget.twoToOneHash (gadget.levels z v.path)
    (gadget.leafHash (v.nextLeaf.value z).fields) = v.root.eval z
  last : ∀ circ, p.circ = some circ → p.subcircuitIdx = circ.numSubcircuits - 1 →
    (v.nextLeaf.value z).timeEval = (v.nextLeaf.value z).addrEval

theorem firstLeafChecks_forces (p : SubcircuitWithPortalsProver F D m)
    (curLeaf : ExecTreeLeafVar F D m) :
    Forces z (p.firstLeafChecks curLeaf) (fun _ => p.subcircuitIdx = 0 →
      (curLeaf.value z).timeEval = 1 ∧ (curLeaf.value z).addrEval = 1 ∧
      checkedAsPadding (curLeaf.value z).lastEntry = true) := by
  rw [SubcircuitWithPortalsProver.firstLeafChecks]
  split
  · obtain ⟨w, run, hw⟩ := isPadding_computes curLeaf.lastSubtraceEntry
    refine .emit_bind fun time => .emit_bind fun addr => run.forces_bind ?_
    exact Forces.emit.mono fun _ padding _ => ⟨time, addr, (hw z).symm.trans padding⟩
  · rename_i later
    exact .pure fun first => absurd first later

theorem runBody_forces (p : SubcircuitWithPortalsProver F D m)
    {pm : ProverPortalManager F D m} {c : Challenges (Wire F D .field) m}
    (set : pm.runningEvals.challenges = some c) :
    Forces z (p.runBody pm) (fun pm' => ∃ made, Ran MayTick z c made pm pm') := by
  rw [SubcircuitWithPortalsProver.runBody]
  split
  · refine .lift fun _ fails => ?_
    cases fails
  · exact (run_forces_ran _ pm set).bind fun r ran => .pure ran

theorem lastLeafCheck_forces (p : SubcircuitWithPortalsProver F D m)
    (nextLeaf : ExecTreeLeafVar F D m) :
    Forces z (p.lastLeafCheck nextLeaf) (fun _ => ∀ circ, p.circ = some circ →
      p.subcircuitIdx = circ.numSubcircuits - 1 →
      (nextLeaf.value z).timeEval = (nextLeaf.value z).addrEval) := by
  rw [SubcircuitWithPortalsProver.lastLeafCheck]
  split
  · refine .lift fun _ fails => ?_
    cases fails
  · rename_i circ hcirc
    split
    · refine Forces.emit.mono fun _ equal circ' h _ => equal
    · rename_i inner
      refine .pure fun circ' h last => ?_
      cases hcirc.symm.trans h
      exact absurd last inner

theorem openLeaf_forces (lawful : gadget.Lawful) (p : SubcircuitWithPortalsProver F D m) :
    Forces z (p.openLeaf gadget) (fun v => (gadget.levels z v.path).length =
      p.nextLeafMembership.authPath.length + 1) := by
  refine (Forces.trivial _).bind fun curLeaf _ => ?_
  refine Forces.bind (P := fun path => (gadget.levels z path).length =
    p.nextLeafMembership.authPath.length + 1) ?_ fun path pathLength => ?_
  · intro vars path e run _
    obtain ⟨v, e', same, ⟨_, _, size⟩⟩ :=
      (lawful.newWitness_parallel p.nextLeafMembership _ rfl).total vars
    cases same.symm.trans run
    exact size z
  · exact (Forces.trivial _).bind fun challenges _ => .newVariable_bind fun root =>
      .pure pathLength

/-- What satisfying both stages of a subcircuit forces. -/
theorem stage1_forces (lawful : gadget.Lawful) (p : SubcircuitWithPortalsProver F D m)
    (vars : SubtraceVars F D m) :
    Forces z ((p.withVars vars).stage1 gadget) (HandedOver z p vars) := by
  refine (openLeaf_forces lawful _).bind fun v pathLength => ?_
  refine (firstLeafChecks_forces _ v.curLeaf).bind fun _ first => ?_
  refine Forces.bind (P := fun handover => ∀ last : (∀ circ, p.circ = some circ →
    p.subcircuitIdx = circ.numSubcircuits - 1 → (handover.nextLeaf.value z).timeEval =
      (handover.nextLeaf.value z).addrEval), HandedOver z p vars handover) ?_ ?_
  · refine .lift_bind fun evals set => ?_
    obtain ⟨c, hc, hevals⟩ := Outcomes.bind_eq_ok.mp set
    cases hevals
    refine Forces.bind (runBody_forces (c := c) _ rfl) fun pm ran => ?_
    refine (lawful.verify_forces z v.path v.root _).bind fun b member => .emit_bind fun yes => ?_
    refine .pure fun last => ?_
    obtain ⟨made, ran⟩ := ran
    refine ⟨pathLength, first, ⟨c, made, ?_, ran⟩, rfl, rfl, ?_, last⟩
    · exact Challenges.toList_of_ofList hc
    · rw [← ExecTreeLeafVar.toConstraintField_eval]
      exact member yes
  · intro handover handed
    exact (lastLeafCheck_forces _ _).bind fun _ last => .pure (handed last)

end Facts
end SubcircuitCircuit
