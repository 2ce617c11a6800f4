import Hekaton.Scripts
import Hekaton.SubcircuitCircuit

/-!
# Public inputs of a subcircuit

The only inputs that both stages allocate are the challenges and the root, in this
order: entries, leaves, paths, carries and the values of a script are witnesses.
-/

namespace PublicInputs

open Outcomes Wires Synthesis Contracts Uint32 Transcript PortalManager PortalChecks EvalTree
open SubcircuitCircuit Scripts

section Entries
variable {F D : Type} {m : MemType}

theorem newBits_witnesses (bits : List Bool) :
    OnlyWitnesses (newBits (F := F) (D := D) .witness bits) := by
  induction bits with
  | nil => exact .pure _
  | cons b bits ih => exact .bind (.newWitness .bool b) fun _ => .bind ih fun _ => .pure _

variable [Field F]

theorem newEntry_witnesses (e : TranscriptEntry F m) :
    OnlyWitnesses (TranscriptEntryVar.newVariable (D := D) .witness e) := by
  cases e with
  | rom e =>
    refine .bind ?_ fun _ => .pure _
    exact .bind (.newWitness _ _) fun _ => .bind (.newWitness _ _) fun _ => .pure _
  | ram e =>
    refine .bind ?_ fun _ => .pure _
    refine .bind (.newWitness _ _) fun _ => .bind (.newWitness _ _) fun _ => .bind ?_ fun _ => ?_
    · exact .bind (newBits_witnesses _) fun _ => .pure _
    · exact .bind (.newWitness _ _) fun _ => .pure _

theorem newEntries_witnesses (entries : List (TranscriptEntry F m)) :
    OnlyWitnesses (newEntries (D := D) .witness entries) := by
  induction entries with
  | nil => exact .pure _
  | cons e entries ih => exact .bind (newEntry_witnesses e) fun _ => .bind ih fun _ => .pure _

theorem newLeaf_witnesses (leaf : ExecTreeLeaf F m) :
    OnlyWitnesses (ExecTreeLeafVar.newVariable (D := D) .witness leaf) := by
  refine .bind ?_ fun _ => .bind (newEntry_witnesses _) fun _ => .pure _
  exact .bind (.newWitness _ _) fun _ => .bind (.newWitness _ _) fun _ => .pure _

end Entries

section Calls
variable {F D : Type} [Field F] {m : MemType}

omit [Field F] in
theorem incrementLoop_witnesses (carry : Wire F D .bool) (bits : List (Wire F D .bool)) :
    OnlyWitnesses (incrementLoop carry bits) := by
  induction bits generalizing carry with
  | nil => exact .pure _
  | cons b bits ih =>
    exact .bind (.define _) fun _ => .bind (.define _) fun _ => .bind (ih _) fun _ => .pure _

omit [Field F] in
theorem isGreaterThanLoop_witnesses (greater found : Wire F D .bool)
    (pairs : List (Wire F D .bool × Wire F D .bool)) :
    OnlyWitnesses (isGreaterThanLoop greater found pairs) := by
  induction pairs generalizing greater found with
  | nil => exact .pure _
  | cons pair pairs ih =>
    exact .bind (.define _) fun _ => .bind (.define _) fun _ => .bind (.define _) fun _ =>
      .bind (.define _) fun _ => .bind (.define _) fun _ => ih _ _

omit [Field F] in
theorem enforceEqual_witnesses (bits other : List (Wire F D .bool)) :
    OnlyWitnesses (Uint32.enforceEqual bits other) := by
  induction bits generalizing other with
  | nil => exact .pure _
  | cons a bits ih =>
    cases other with
    | nil => exact .lift _
    | cons b other => exact .bind (.emit _) fun _ => ih other

theorem factor_witnesses (c : Challenges (Wire F D .field) m) (e : TranscriptEntryVar F D m) :
    OnlyWitnesses (factor c e) := by
  cases e with
  | rom e => cases c with | rom a b => exact .bind (.define _) fun _ => .pure _
  | ram e =>
    cases c with
    | ram a b c d =>
      exact .bind (.define _) fun _ => .bind (.define _) fun _ => .bind (.define _) fun _ => .pure _

theorem updateTimeOrdered_witnesses (evals : RunningEvaluationVar F D m)
    (e : TranscriptEntryVar F D m) : OnlyWitnesses (evals.updateTimeOrdered e) :=
  .bind (.lift _) fun _ => .bind (factor_witnesses _ _) fun _ => .bind (.define _) fun _ => .pure _

theorem updateAddrOrdered_witnesses (evals : RunningEvaluationVar F D m)
    (e : TranscriptEntryVar F D m) : OnlyWitnesses (evals.updateAddrOrdered e) :=
  .bind (.lift _) fun _ => .bind (factor_witnesses _ _) fun _ => .bind (.define _) fun _ => .pure _

theorem romAddrCheck_witnesses (e next : TranscriptEntryVar F D .rom) :
    OnlyWitnesses (romAddrCheck e next) := by
  cases e with | rom e =>
  cases next with | rom next =>
  exact .bind (.define _) fun _ => .bind (.define _) fun _ => .bind (.define _) fun _ =>
    .bind (.emit _) fun _ => .emit _

theorem ramAddrCheck_witnesses (e next : TranscriptEntryVar F D .ram) :
    OnlyWitnesses (ramAddrCheck e next) := by
  cases e with | ram e =>
  cases next with | ram next =>
  exact .bind (.define _) fun _ => .bind (.define _) fun _ => .bind (.define _) fun _ =>
    .bind (.emit _) fun _ => .bind (.emit _) fun _ => .bind (.define _) fun _ =>
    .bind (.define _) fun _ => .bind (.emit _) fun _ =>
    .bind (isGreaterThanLoop_witnesses _ _ _) fun _ => .emit _

omit [Field F] in
theorem ramTimeCheck_witnesses (e next : TranscriptEntryVar F D .ram) :
    OnlyWitnesses (ramTimeCheck e next) := by
  cases e with | ram e =>
  cases next with | ram next =>
  refine .bind ?_ fun t => enforceEqual_witnesses t next.i.bits
  rw [incrementInplace.eq_def]
  split
  · exact .lift _
  · exact .bind (.newWitness .bool true) fun _ => incrementLoop_witnesses _ _

theorem get_witnesses (pm : ProverPortalManager F D m) (name : String) :
    OnlyWitnesses (pm.get name) := by
  cases m with
  | rom =>
    exact .bind (.lift _) fun _ => .bind (.lift _) fun _ =>
      .bind (updateTimeOrdered_witnesses _ _) fun _ => .bind (.lift _) fun _ =>
      .bind (romAddrCheck_witnesses _ _) fun _ => .bind (updateAddrOrdered_witnesses _ _) fun _ =>
      .pure _
  | ram =>
    refine .bind (.lift _) fun _ => .bind (.lift _) fun _ =>
      .bind (updateTimeOrdered_witnesses _ _) fun _ =>
      .bind (updateAddrOrdered_witnesses _ _) fun _ => .bind ?_ fun _ => .bind ?_ fun _ => .pure _
    · rw [nextAddrCheck]
      split
      · exact ramAddrCheck_witnesses _ _
      · exact .pure _
    · rw [nextTimeCheck]
      split
      · exact .bind (.lift _) fun _ => ramTimeCheck_witnesses _ _
      · exact .pure _

theorem set_witnesses (pm : ProverPortalManager F D m) (name : String) (val : Wire F D .field) :
    OnlyWitnesses (pm.set name val) :=
  .bind (get_witnesses pm name) fun _ => .bind (.emit _) fun _ => .pure _

theorem script_witnesses (ops : List (PortalOp F)) (pm : ProverPortalManager F D m) :
    OnlyWitnesses ((script (D := D) ops).run pm) := by
  induction ops generalizing pm with
  | nil => exact .pure _
  | cons op ops ih =>
    cases op with
    | get name => exact .bind (get_witnesses pm name) fun r => ih r.2
    | set name val =>
      exact .bind (.newWitness .field val) fun w => .bind (set_witnesses pm name w) fun pm' => ih pm'

end Calls

section Inputs
variable {F D : Type}

/-- The field elements of an input variable; a digest is a list of them. -/
def inputFields [Zero F] [One F] (digestFields : D → List F) : Variable F D → List F
  | ⟨.witness, _, _⟩ => []
  | ⟨.input, .field, value⟩ => [value]
  | ⟨.input, .bool, value⟩ => [if value then 1 else 0]
  | ⟨.input, .digest, value⟩ => digestFields value
  | ⟨.input, .fields, values⟩ => values

/-- The public inputs an emission allocates, in order. -/
def publicInputs [Zero F] [One F] (digestFields : D → List F) (e : Emission F D) : List F :=
  e.allocations.flatMap (inputFields digestFields)

variable [Field F] {m : MemType} {gadget : TreeConfigGadget F D}

@[simp] theorem publicInputs_append (digestFields : D → List F) (e e' : Emission F D) :
    publicInputs digestFields (e ++ e') =
      publicInputs digestFields e ++ publicInputs digestFields e' :=
  List.flatMap_append

@[simp] theorem publicInputs_empty (digestFields : D → List F) :
    publicInputs digestFields .empty = [] := rfl

theorem publicInputs_witnesses {α : Type} {step : Synth F D α} (h : OnlyWitnesses step)
    {digestFields : D → List F} {vars : List (Variable F D)} {a : α} {e : Emission F D}
    (run : step vars = .ok (a, e)) : publicInputs digestFields e = [] := by
  refine List.flatMap_eq_nil_iff.mpr fun v hv => ?_
  obtain ⟨mode, kind, value⟩ := v
  cases (h vars a e run _ hv : mode = .witness)
  rfl

theorem publicInputs_newList {digestFields : D → List F} {values : List F}
    {vars : List (Variable F D)} {ws : List (Wire F D .field)} {e : Emission F D}
    (run : newList .input .field values vars = .ok (ws, e)) :
    publicInputs digestFields e = values := by
  induction values generalizing vars ws e with
  | nil =>
    cases run
    rfl
  | cons value values ih =>
    obtain ⟨w, e₁, ws', e₂, first, rest, same⟩ := Synth.bind_eq_ok.mp run
    obtain ⟨ws'', e₃, _, e₄, later, last, same'⟩ := Synth.bind_eq_ok.mp rest
    cases last
    cases same'
    cases same
    cases first
    rw [publicInputs_append, publicInputs_append, ih later, publicInputs_empty, List.append_nil]
    rfl

variable [DecidableEq F] [DecidableEq D]

/-- Opening a leaf takes the challenges and the root as inputs. -/
theorem publicInputs_openLeaf (lawful : gadget.Lawful) {p : SubcircuitWithPortalsProver F D m}
    {digestFields : D → List F} {vars : List (Variable F D)} {v : LeafVars F D m gadget}
    {e : Emission F D} (run : p.openLeaf gadget vars = .ok (v, e)) :
    publicInputs digestFields e = p.challenges ++ digestFields p.root := by
  obtain ⟨leaf, e₁, _, e₂, leafRun, rest, same⟩ := Synth.bind_eq_ok.mp run
  obtain ⟨path, e₃, _, e₄, pathRun, rest, same₂⟩ := Synth.bind_eq_ok.mp rest
  obtain ⟨challenges, e₅, _, e₆, chalRun, rest, same₃⟩ := Synth.bind_eq_ok.mp rest
  obtain ⟨root, e₇, _, e₈, rootRun, last, same₄⟩ := Synth.bind_eq_ok.mp rest
  cases last
  cases same₄
  cases same₃
  cases same₂
  cases same
  cases rootRun
  simp only [publicInputs_append, publicInputs_witnesses (newLeaf_witnesses _) leafRun,
    publicInputs_witnesses (lawful.newWitness_witnesses _) pathRun, publicInputs_newList chalRun,
    List.nil_append]
  simp [publicInputs, inputFields]

/-- The inputs of both stages are the challenges and the root. -/
theorem publicInputs_stages (lawful : gadget.Lawful) {p : SubcircuitWithPortalsProver F D m}
    (body : ∀ pm, OnlyWitnesses (p.runBody pm)) {digestFields : D → List F}
    {allocated vars' : List (Variable F D)} {vars : SubtraceVars F D m}
    {v : HandoverVars F D m gadget} {e₀ e₁ : Emission F D} (run₀ : p.stage0 allocated = .ok (vars, e₀))
    (run₁ : (p.withVars vars).stage1 gadget vars' = .ok (v, e₁)) :
    publicInputs digestFields (e₀ ++ e₁) = p.challenges ++ digestFields p.root := by
  have subtraces : OnlyWitnesses p.stage0 :=
    .bind (newEntries_witnesses _) fun _ => .bind (newEntries_witnesses _) fun _ => .pure _
  obtain ⟨opened, e₂, _, e₃, openRun, rest, same⟩ := Synth.bind_eq_ok.mp run₁
  cases same
  have checks : OnlyWitnesses (do
      (p.withVars vars).firstLeafChecks opened.curLeaf
      let handover ← (p.withVars vars).handOver gadget opened
      (p.withVars vars).lastLeafCheck handover.nextLeaf
      pure handover) := by
    refine .bind ?_ fun _ => .bind ?_ fun handover => .bind ?_ fun _ => .pure _
    · rw [SubcircuitWithPortalsProver.firstLeafChecks]
      split
      · obtain ⟨w, run, _⟩ := isPadding_computes (F := F) opened.curLeaf.lastSubtraceEntry
        exact .bind (.emit _) fun _ => .bind (.emit _) fun _ => .bind run.onlyWitnesses fun _ =>
          .emit _
      · exact .pure _
    · exact .bind (.lift _) fun _ => .bind (body _) fun _ =>
        .bind (lawful.verify_witnesses _ _ _) fun _ => .bind (.emit _) fun _ => .pure _
    · rw [SubcircuitWithPortalsProver.lastLeafCheck]
      split
      · exact .lift _
      · split
        · exact .emit _
        · exact .pure _
  rw [publicInputs_append, publicInputs_append, publicInputs_witnesses subtraces run₀,
    publicInputs_openLeaf lawful openRun, publicInputs_witnesses checks rest, List.nil_append,
    List.append_nil]
  rfl

end Inputs
end PublicInputs
