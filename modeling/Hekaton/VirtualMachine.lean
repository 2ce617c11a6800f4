import Hekaton.KeyReuse
import Hekaton.Recordings
import Hekaton.VkdInstances

/-!
# The virtual machine circuit

Sixteen registers are portal wires; each subcircuit reads them, works on register 1 and
writes them back. With a Merkle memory the operations verify tree paths instead and make no
portal calls, which the native trace does not know. The two classes of subcircuits, the first
one and the others, leave out that the last one has a check of its own.
-/

namespace VirtualMachine

open Outcomes Wires Synthesis Contracts Transcript PortalManager PortalChecks Scripts HonestRuns
open PrimeFields Codecs ByteBits VkdHash SparseTree KeyDirectory FieldGadgets VkdGadgets
open SubcircuitCircuit SubcircuitShapes KeyReuse Recordings EvalTree VkdInstances

abbrev registerNum : Nat := 16

abbrev merkleMemoryDepth : Nat := 32

structure VirtualMachineParameters where
  useMerkleMemory : Bool
  logNumSubcircuit : Nat
  dummyConstraintNum : Nat
  operationsPerChunk : Nat

/-- `1 << log_num_subcircuit`. -/
def VirtualMachineParameters.numSubcircuits (overflowChecks : Bool)
    (params : VirtualMachineParameters) : Outcome Nat :=
  oneShiftedLeft overflowChecks params.logNumSubcircuit

def registerName (i : Nat) : String := "register " ++ toString i

section Model
variable {F D : Type} [Field F] [PrimeField F] [DecidableEq F] [Inhabited D] [DecidableEq D]
variable (overflowChecks : Bool) (p : Poseidon F)

/-- Verify the path of a leaf of ones in a tree that holds nothing else. -/
def merklePathVerification : Synth F D Unit := do
  let leaf := List.replicate 32 1
  let leafHash := VkdHash.hash p leaf
  let found ← Synth.lift (SparseMerkleTree.getIndex leafHash merkleMemoryDepth)
  let index ← Synth.lift (unwrap "InvalidHashSize" found)
  let tree ← Synth.lift
    ((SparseMerkleTree.new (hashing p) merkleMemoryDepth).insert (hashing p) index leaf .leaf)
  let path ← Synth.lift (tree.lookupPath index)
  let leafVar ← newWitnessVec leaf
  let indexVar ← Uint32.newBits .witness (bitsOf 64 (fromLittleEndian (leafHash.take 8)))
  let pathVar ← MerkleTreePathVar.newVariable .witness path
  let _ ← pathVar.computeRootVarFromLeaf (hashInnerNodeVar p) p leafVar indexVar.1
  pure ()

namespace Memory

def get (useMerkleMemory : Bool) (name : String) : Program F D Unit :=
  if useMerkleMemory then Program.lift (merklePathVerification p)
  else do
    let _ ← Program.portalGet name
    pure ()

def set (useMerkleMemory : Bool) (name : String) (value : Wire F D .field) : Program F D Unit :=
  if useMerkleMemory then do
    Program.lift (merklePathVerification p)
    Program.lift (merklePathVerification p)
  else Program.portalSet name value

end Memory

def getRegisters (useMerkleMemory : Bool) : Program F D Unit :=
  forEach (List.range registerNum) fun i => Memory.get p useMerkleMemory (registerName i)

def setRegisters (useMerkleMemory : Bool) : Program F D Unit :=
  forEach (List.range registerNum) fun i => do
    let value ← Program.lift (Synth.newWitness .field (1 : F))
    Memory.set p useMerkleMemory (registerName i) value

omit [PrimeField F] [DecidableEq F] [Inhabited D] [DecidableEq D] in
/-- So many products of two witnesses. -/
def dummyProducts : Nat → Synth F D Unit
  | 0 => pure ()
  | n + 1 => do
      let fp1 ← Synth.newWitness .field (12 : F)
      let fp2 ← Synth.newWitness .field (12 : F)
      let _ ← Synth.mul fp1 fp2
      dummyProducts n

def doDummyOperation (params : VirtualMachineParameters) : Program F D Unit :=
  forEach (List.range params.operationsPerChunk) fun _ => do
    let value ← Program.lift (Synth.newWitness .field (1 : F))
    Memory.set p params.useMerkleMemory (registerName 1) value
    Memory.get p params.useMerkleMemory (registerName 1)
    Memory.get p params.useMerkleMemory (registerName 1)
    Program.lift (dummyProducts (params.dummyConstraintNum / 2))

def generateConstraints (params : VirtualMachineParameters) (subcircuitIdx : Nat) :
    Program F D Unit :=
  if subcircuitIdx ≠ 0 then do
    getRegisters p params.useMerkleMemory
    doDummyOperation p params
    setRegisters p params.useMerkleMemory
  else do
    setRegisters p params.useMerkleMemory
    doDummyOperation p params

section Calls
variable (F)

omit [PrimeField F] [DecidableEq F] in
def getCalls : List (PortalOp F) := (List.range registerNum).map fun i => .get (registerName i)

omit [PrimeField F] [DecidableEq F] in
def setCalls : List (PortalOp F) := (List.range registerNum).map fun i => .set (registerName i) 1

omit [PrimeField F] [DecidableEq F] in
def dummyCalls (params : VirtualMachineParameters) : List (PortalOp F) :=
  (List.range params.operationsPerChunk).flatMap fun _ =>
    [.set (registerName 1) 1, .get (registerName 1), .get (registerName 1)]

omit [PrimeField F] [DecidableEq F] in
/-- The portal calls of a subcircuit, whatever the memory is. -/
def portalCalls (params : VirtualMachineParameters) (subcircuitIdx : Nat) : List (PortalOp F) :=
  if subcircuitIdx ≠ 0 then getCalls F ++ dummyCalls F params ++ setCalls F
  else setCalls F ++ dummyCalls F params

end Calls

omit [PrimeField F] in
def getPortalSubtraces (D : Type) [Inhabited D] [DecidableEq D]
    (params : VirtualMachineParameters) : Outcome (List (List (TranscriptEntry F .ram))) := do
  let count ← params.numSubcircuits overflowChecks
  let recorded ← recordSubtraces (D := D) SetupRamPortalManager.startSubtrace
    ((List.range count).map (portalCalls F params))
    SetupRamPortalManager.new []
  .ok recorded.1.subtraces

/-- What the setup manager records when all constraints are generated in order. -/
def constraintSubtraces (D : Type) [Inhabited D] [DecidableEq D]
    (params : VirtualMachineParameters) : Outcome (List (List (TranscriptEntry F .ram))) := do
  let count ← params.numSubcircuits overflowChecks
  let recorded ← recordBodies (D := D)
    ((List.range count).map (generateConstraints p params))
    (SetupRamPortalManager.new : SetupRamPortalManager F) []
  .ok recorded.1.subtraces

def representativeSubcircuit (subcircuitIdx : Nat) : Nat := if subcircuitIdx = 0 then 0 else 1

/-- The machine, where its subcircuits are counted. -/
def circuit (D : Type) [Inhabited D] [DecidableEq D] (params : VirtualMachineParameters)
    (count : Nat) : CircuitWithPortals F D .ram where
  numSubcircuits := count
  generateConstraints := generateConstraints p params
  getPortalSubtraces := getPortalSubtraces overflowChecks D params
  getUniqueSubcircuits := [0, 1]
  representativeSubcircuit idx := .ok (representativeSubcircuit idx)

end Model

section Traces
variable {F D : Type} [Field F] [PrimeField F] [DecidableEq F] [Inhabited D] [DecidableEq D]
variable {p : Poseidon F} {params : VirtualMachineParameters}

omit [PrimeField F] in
theorem dummyProducts_decides (n : Nat) (vars : List (Variable F D)) :
    Decides vars (dummyProducts n) True fun _ _ => True := by
  induction n generalizing vars with
  | zero => exact .pure trivial
  | succ n ih =>
    apply (Decides.newVariable .witness .field (12 : F)).bind_true
    intro more fp1 _
    apply (Decides.newVariable .witness .field (12 : F)).bind_true
    intro more' fp2 _
    exact Decides.define_bind fun more'' => ih _

variable {PM : Type} [Manager F D PM] [SetupManager F PM] [LawfulSetup F D PM]

theorem memoryGet_performs (name : String) :
    Performs PM (Memory.get (D := D) p false name) [.get name] :=
  (Performs.portalGet name).bind fun _ => .done ()

theorem memorySet_performs (name : String) :
    Performs PM (Program.lift (D := D) (Synth.newWitness .field (1 : F)) >>=
      Memory.set p false name) [.set name 1] := Performs.portalSet name 1

theorem getRegisters_performs : Performs PM (getRegisters (D := D) p false) (getCalls F) := by
  have each : ∀ i, Performs PM (Memory.get (D := D) p false (registerName i))
      [.get (registerName i)] := fun i => memoryGet_performs (registerName i)
  have loop := Performs.loop (l := List.range registerNum) fun i _ => each i
  rwa [← List.map_eq_flatMap] at loop

theorem setRegisters_performs : Performs PM (setRegisters (D := D) p false) (setCalls F) := by
  have each : ∀ i, Performs PM (Program.lift (D := D) (Synth.newWitness .field (1 : F)) >>=
      Memory.set p false (registerName i)) [.set (registerName i) 1] :=
    fun i => memorySet_performs (registerName i)
  have loop := Performs.loop (l := List.range registerNum) fun i _ => each i
  rwa [← List.map_eq_flatMap] at loop

theorem doDummyOperation_performs (memory : params.useMerkleMemory = false) :
    Performs PM (doDummyOperation (D := D) p params) (dummyCalls F params) := by
  rw [doDummyOperation, memory]
  apply Performs.loop
  intro _ _
  have products : Performs PM (Program.lift (D := D) (F := F)
      (dummyProducts (params.dummyConstraintNum / 2))) [] := .lift (dummyProducts_decides _)
  have gets := (memoryGet_performs (p := p) (D := D) (registerName 1)).bind fun _ =>
    (memoryGet_performs (p := p) (registerName 1)).bind fun _ => products
  exact (memorySet_performs (p := p) (registerName 1)).bind fun _ => gets

/-- Without a Merkle memory a subcircuit makes the calls of the native trace. -/
theorem generateConstraints_performs (memory : params.useMerkleMemory = false) (idx : Nat) :
    Performs PM (generateConstraints (D := D) p params idx) (portalCalls F params idx) := by
  rw [generateConstraints, portalCalls, memory]
  by_cases first : idx = 0
  · rw [if_neg (not_not.mpr first), if_neg (not_not.mpr first)]
    exact setRegisters_performs.bind fun _ => doDummyOperation_performs memory
  · rw [if_pos first, if_pos first, List.append_assoc]
    exact getRegisters_performs.bind fun _ =>
      (doDummyOperation_performs memory).bind fun _ => setRegisters_performs

end Traces

section Ram
variable {F D : Type} [Field F] [PrimeField F] [DecidableEq F] [Inhabited D] [DecidableEq D]
variable {p : Poseidon F} {params : VirtualMachineParameters}

omit [PrimeField F] [DecidableEq F] in
/-- Every register was set. -/
def Known (pm : SetupRamPortalManager F) : Prop :=
  ∀ i < registerNum, (pm.varMap (registerName i)).isSome

omit [PrimeField F] [DecidableEq F] in
theorem setCalls_ok {pm : SetupRamPortalManager F} (started : pm.subtraces ≠ []) :
    ∃ pm', opsEffect (setCalls F) pm = .ok pm' ∧ pm'.subtraces ≠ [] ∧ Known pm' := by
  have known : ∀ name, .get name ∈ setCalls F → (pm.varMap name).isSome := by
    intro name member
    obtain ⟨i, _, same⟩ := List.mem_map.mp member
    cases same
  obtain ⟨pm', ran, grown, _, written⟩ := opsEffect_ram started known
  refine ⟨pm', ran, grown, fun i inside => written (registerName i) 1 ?_⟩
  exact List.mem_map.mpr ⟨i, List.mem_range.mpr inside, rfl⟩

omit [PrimeField F] [DecidableEq F] in
theorem dummyCalls_ok {pm : SetupRamPortalManager F} (started : pm.subtraces ≠ [])
    (known : Known pm) : ∃ pm', opsEffect (dummyCalls F params) pm = .ok pm' ∧
      pm'.subtraces ≠ [] ∧ Known pm' := by
  have first : ∀ name, .get name ∈ dummyCalls F params → (pm.varMap name).isSome := by
    intro name member
    obtain ⟨_, _, call⟩ := List.mem_flatMap.mp member
    obtain rfl : name = registerName 1 := by simpa using call
    exact known 1 (by decide)
  obtain ⟨pm', ran, grown, kept, _⟩ := opsEffect_ram started first
  exact ⟨pm', ran, grown, fun i inside => kept _ (known i inside)⟩

omit [Field F] [PrimeField F] [DecidableEq F] in
theorem getCalls_ok {pm : SetupRamPortalManager F} (started : pm.subtraces ≠ [])
    (known : Known pm) : ∃ pm', opsEffect (getCalls F) pm = .ok pm' ∧ pm'.subtraces ≠ [] ∧
      Known pm' := by
  have registers : ∀ name, .get name ∈ getCalls F → (pm.varMap name).isSome := by
    intro name member
    obtain ⟨i, inside, same⟩ := List.mem_map.mp member
    cases same
    exact known i (List.mem_range.mp inside)
  obtain ⟨pm', ran, grown, kept, _⟩ := opsEffect_ram started registers
  exact ⟨pm', ran, grown, fun i inside => kept _ (known i inside)⟩

omit [Field F] [PrimeField F] [DecidableEq F] in
theorem opsEffect_append {PM : Type} [SetupManager F PM] {ops ops' : List (PortalOp F)}
    {pm pm₁ pm₂ : PM} (first : opsEffect ops pm = .ok pm₁) (rest : opsEffect ops' pm₁ = .ok pm₂) :
    opsEffect (ops ++ ops') pm = .ok pm₂ := by
  rw [opsEffect, List.foldlM_append]
  exact Outcomes.bind_eq_ok.mpr ⟨pm₁, first, rest⟩

omit [PrimeField F] [DecidableEq F] in
/-- The calls of subcircuit 0 go through, and those of the others once the registers are set. -/
theorem portalCalls_ok {idx : Nat} {pm : SetupRamPortalManager F} (started : pm.subtraces ≠ [])
    (known : idx ≠ 0 → Known pm) : ∃ pm', opsEffect (portalCalls F params idx) pm = .ok pm' ∧
      Known pm' := by
  rw [portalCalls]
  by_cases first : idx = 0
  · obtain ⟨pm₁, ran, grown, known₁⟩ := setCalls_ok started
    obtain ⟨pm₂, ran₂, _, known₂⟩ := dummyCalls_ok grown known₁
    rw [if_neg (not_not.mpr first)]
    exact ⟨pm₂, opsEffect_append ran ran₂, known₂⟩
  · obtain ⟨pm₁, ran, grown, known₁⟩ := getCalls_ok started (known first)
    obtain ⟨pm₂, ran₂, grown₂, known₂⟩ := dummyCalls_ok grown known₁
    obtain ⟨pm₃, ran₃, _, known₃⟩ := setCalls_ok grown₂
    rw [if_pos first]
    exact ⟨pm₃, opsEffect_append (opsEffect_append ran ran₂) ran₃, known₃⟩

omit [PrimeField F] [DecidableEq F] in
theorem recordEffects_ok {l : List Nat} {pm : SetupRamPortalManager F}
    (known : Known pm ∨ ∀ idx ∈ l.head?, idx = 0) :
    ∃ pm', recordEffects (F := F) (fun idx => opsEffect (portalCalls F params idx)) l pm =
      .ok pm' := by
  induction l generalizing pm with
  | nil => exact ⟨pm, rfl⟩
  | cons idx l ih =>
    have started : pm.startSubtrace.subtraces ≠ [] :=
      List.append_ne_nil_of_right_ne_nil _ (List.cons_ne_nil _ _)
    have ready : idx ≠ 0 → Known pm.startSubtrace := by
      intro later
      rcases known with known | first
      · exact known
      · exact absurd (first idx rfl) later
    obtain ⟨pm₁, ran, known₁⟩ := portalCalls_ok started ready
    obtain ⟨pm₂, rest⟩ := ih (Or.inl known₁)
    exact ⟨pm₂, Outcomes.bind_eq_ok.mpr ⟨pm₁, ran, rest⟩⟩

omit [PrimeField F] in
theorem recordSubtraces_eq (programs : List (List (PortalOp F))) (pm : SetupRamPortalManager F) :
    recordSubtraces (D := D) SetupRamPortalManager.startSubtrace programs pm =
      recordBodies (programs.map script) pm := by
  induction programs generalizing pm with
  | nil => rfl
  | cons ops programs ih =>
    rw [recordSubtraces, List.map_cons, recordBodies]
    exact congrArg _ (funext fun r => ih r.2)

variable {overflowChecks : Bool} {n : Nat}

omit [PrimeField F] in
/-- The native trace is recorded without a panic where the subcircuits can be counted. -/
theorem native_recorded (counted : params.numSubcircuits overflowChecks = .ok n) :
    ∃ pm : SetupRamPortalManager F,
    recordEffects (F := F) (fun idx => opsEffect (portalCalls F params idx))
      (List.range n) SetupRamPortalManager.new = .ok pm ∧
    getPortalSubtraces overflowChecks D params = .ok pm.subtraces := by
  have zeroth : ∀ idx ∈ (List.range n).head?, idx = 0 := by
    intro idx first
    cases n with
    | zero => cases first
    | succ n =>
      rw [List.range_succ_eq_map] at first
      cases first
      rfl
  obtain ⟨pm, ran⟩ : ∃ pm, recordEffects (F := F) (fun idx => opsEffect (portalCalls F params idx))
      (List.range n) SetupRamPortalManager.new = .ok pm := recordEffects_ok (Or.inr zeroth)
  refine ⟨pm, ran, ?_⟩
  obtain ⟨r, e, run, _, same⟩ := (recordBodies_performs (D := D)
    (fun idx _ => Performs.ofScript (portalCalls F params idx)) ran []).run
  subst same
  simp only [getPortalSubtraces, counted, ok_bind, recordSubtraces_eq, List.map_map]
  exact Outcomes.bind_eq_ok.mpr ⟨_, run, rfl⟩

theorem constraints_recorded (memory : params.useMerkleMemory = false)
    (counted : params.numSubcircuits overflowChecks = .ok n) {pm : SetupRamPortalManager F}
    (ran : recordEffects (F := F) (fun idx => opsEffect (portalCalls F params idx))
      (List.range n) SetupRamPortalManager.new = .ok pm) :
    constraintSubtraces overflowChecks p D params = .ok pm.subtraces := by
  obtain ⟨r, e, run, _, same⟩ := (recordBodies_performs (D := D)
    (fun idx _ => generateConstraints_performs (p := p) memory idx) ran []).run
  subst same
  simp only [constraintSubtraces, counted, ok_bind]
  exact Outcomes.bind_eq_ok.mpr ⟨_, run, rfl⟩

/-- A Merkle memory makes no portal call. -/
def Silent {α : Type} (program : Program F D α) : Prop :=
  ∀ (vars : List (Variable F D)) (pm : SetupRamPortalManager F) r e,
    program.run pm vars = .ok (r, e) → r.2 = pm

omit [PrimeField F] in
theorem Silent.bind {α β : Type} {program : Program F D α} {f : α → Program F D β}
    (first : Silent program) (rest : ∀ a, Silent (f a)) : Silent (program >>= f) := by
  intro vars pm r e run
  rw [run_bind] at run
  obtain ⟨r₁, e₁, r₂, e₂, early, late, same⟩ := Synth.bind_eq_ok.mp run
  cases same
  rw [rest _ _ _ _ _ late, first _ _ _ _ early]

omit [PrimeField F] in
theorem Silent.lift {α : Type} (m : Synth F D α) : Silent (Program.lift m) := by
  intro vars pm r e run
  obtain ⟨a, e₁, r₂, e₂, _, late, same⟩ := Synth.bind_eq_ok.mp run
  cases same
  cases late
  rfl

omit [PrimeField F] in
theorem Silent.loop {ι : Type} (l : List ι) {body : ι → Program F D Unit}
    (each : ∀ i, Silent (body i)) : Silent (forEach l body) := by
  induction l with
  | nil =>
    intro vars pm r e run
    cases run
    rfl
  | cons i l ih => exact (each i).bind fun _ => ih

theorem generateConstraints_silent (memory : params.useMerkleMemory = true) (idx : Nat) :
    Silent (generateConstraints (D := D) p params idx) := by
  have get (name : String) : Silent (Memory.get (D := D) p true name) := .lift _
  have set (name : String) (value : Wire F D .field) : Silent (Memory.set p true name value) :=
    (Silent.lift _).bind fun _ => .lift _
  have getters : Silent (getRegisters (D := D) p true) := .loop _ fun i => get _
  have setters : Silent (setRegisters (D := D) p true) :=
    .loop _ fun i => (Silent.lift _).bind fun value => set _ value
  have dummies : Silent (doDummyOperation (D := D) p params) := by
    rw [doDummyOperation, memory]
    apply Silent.loop
    intro _
    exact (Silent.lift _).bind fun value => (set _ value).bind fun _ => (get _).bind fun _ =>
      (get _).bind fun _ => .lift _
  rw [generateConstraints, memory]
  split
  · exact getters.bind fun _ => dummies.bind fun _ => setters
  · exact setters.bind fun _ => dummies

omit [PrimeField F] in
/-- Silent bodies leave one empty subtrace each. -/
theorem recordBodies_silent {ι : Type} {body : ι → Program F D Unit}
    (silent : ∀ i, Silent (body i)) {l : List ι} {pm pm' : SetupRamPortalManager F}
    {vars : List (Variable F D)} {e : Emission F D}
    (run : recordBodies (l.map body) pm vars = .ok (pm', e)) :
    pm'.subtraces = pm.subtraces ++ List.replicate l.length [] := by
  induction l generalizing pm vars e with
  | nil =>
    cases run
    exact (List.append_nil _).symm
  | cons i l ih =>
    obtain ⟨r, e₁, pm₂, e₂, first, rest, same⟩ := Synth.bind_eq_ok.mp run
    cases same
    have later := ih rest
    rw [silent i _ _ _ _ first] at later
    rw [later, List.length_cons, List.replicate_succ]
    exact List.append_assoc _ [[]] _

theorem numSubcircuits_pos (counted : params.numSubcircuits overflowChecks = .ok n) : 0 < n := by
  rw [oneShiftedLeft_ok counted]
  exact Nat.two_pow_pos _

/-- Shifting panics by the width and more, where overflow is checked. -/
theorem numSubcircuits_ok_iff : (∃ n, params.numSubcircuits overflowChecks = .ok n) ↔
    (overflowChecks = true → params.logNumSubcircuit < 64) := by
  rw [VirtualMachineParameters.numSubcircuits, oneShiftedLeft]
  by_cases refused : overflowChecks = true ∧ 64 ≤ params.logNumSubcircuit
  · rw [if_pos refused]
    constructor
    · rintro ⟨n, counted⟩
      cases counted
    · intro small
      exact absurd (small refused.1) (not_lt.mpr refused.2)
  · rw [if_neg refused]
    constructor
    · rintro - checked
      by_contra wide
      exact refused ⟨checked, not_lt.mp wide⟩
    · exact fun _ => ⟨_, rfl⟩

omit [PrimeField F] in
/-- The native trace has an entry for each call. -/
theorem native_entries {traces : List (List (TranscriptEntry F .ram))}
    (recorded : getPortalSubtraces overflowChecks D params = .ok traces) :
    ∃ n, params.numSubcircuits overflowChecks = .ok n ∧
      List.Forall₂ (List.Forall₂ PortalOp.Matches)
        ((List.range n).map (portalCalls F params)) traces := by
  obtain ⟨n, counted, recorded⟩ := Outcomes.bind_eq_ok.mp recorded
  obtain ⟨⟨pm, e⟩, run, same⟩ := Outcomes.bind_eq_ok.mp recorded
  cases same
  obtain ⟨_, made, all, matched⟩ := ramRecords.all ramInv_new run
  obtain rfl : pm.subtraces = made := all
  exact ⟨n, counted, matched⟩

/-- With a Merkle memory nothing is recorded where the native trace has entries. -/
theorem merkle_disagrees (memory : params.useMerkleMemory = true) :
    ¬ ∃ traces, getPortalSubtraces overflowChecks D params = .ok traces ∧
      constraintSubtraces overflowChecks p D params = .ok traces := by
  rintro ⟨traces, native, recorded⟩
  obtain ⟨n, counted, entries⟩ := native_entries native
  obtain ⟨_, counted', recorded⟩ := Outcomes.bind_eq_ok.mp recorded
  cases counted.symm.trans counted'
  obtain ⟨⟨pm, e⟩, run, same⟩ := Outcomes.bind_eq_ok.mp recorded
  cases same
  have empty := recordBodies_silent (generateConstraints_silent memory) run
  rw [empty] at entries
  obtain ⟨k, rfl⟩ := Nat.exists_eq_succ_of_ne_zero (numSubcircuits_pos counted).ne'
  rw [List.length_range, List.range_succ_eq_map, List.replicate_succ] at entries
  obtain ⟨first, _⟩ := List.forall₂_cons.mp entries
  have nothing := first.length_eq
  simp [portalCalls, setCalls, registerNum] at nothing

/-- The native trace is the recorded one exactly without a Merkle memory, where the
subcircuits can be counted. -/
theorem traces_agree_iff (overflowChecks : Bool) (p : Poseidon F)
    (params : VirtualMachineParameters) :
    (∃ traces, getPortalSubtraces overflowChecks D params = .ok traces ∧
      constraintSubtraces overflowChecks p D params = .ok traces) ↔
        params.useMerkleMemory = false ∧
          (overflowChecks = true → params.logNumSubcircuit < 64) := by
  constructor
  · rintro ⟨traces, native, recorded⟩
    obtain ⟨n, counted, _⟩ := native_entries native
    refine ⟨?_, numSubcircuits_ok_iff.mp ⟨n, counted⟩⟩
    by_contra memory
    exact merkle_disagrees (Bool.eq_true_of_not_eq_false memory) ⟨traces, native, recorded⟩
  · rintro ⟨memory, small⟩
    obtain ⟨n, counted⟩ := numSubcircuits_ok_iff.mpr small
    obtain ⟨pm, ran, native⟩ := native_recorded (F := F) (D := D) counted
    exact ⟨pm.subtraces, native, constraints_recorded memory counted ran⟩

/-- One subcircuit over a Merkle memory. -/
theorem merkleMemory_untraced : ¬ ∃ traces,
    getPortalSubtraces (F := Bls12381Fr) true Unit ⟨true, 0, 0, 0⟩ = .ok traces ∧
      constraintSubtraces true linearPoseidon Unit ⟨true, 0, 0, 0⟩ = .ok traces :=
  merkle_disagrees rfl

end Ram

section Keys
variable {F D : Type} [Field F] [PrimeField F] [DecidableEq F] [Inhabited D] [DecidableEq D]
variable {poseidon : Poseidon F} {params : VirtualMachineParameters}

omit [PrimeField F] [DecidableEq F] [DecidableEq D] [Inhabited D] in
theorem dummyProducts_parallel (n : Nat) :
    Parallel (dummyProducts (F := F) (D := D) n) (dummyProducts n) fun _ _ => True := by
  induction n with
  | zero => exact .pure trivial
  | succ n ih =>
    apply Parallel.newVariable.bind_eq
    intro fp1
    apply Parallel.newVariable.bind_eq
    intro fp2
    exact (Parallel.define _).bind_eq fun _ => ih

theorem memoryGet_alike (name : String) : Alike .ram 1 (Memory.get (D := D) poseidon false name)
    (Memory.get poseidon false name) fun _ _ => True :=
  (Alike.get name name).bind fun _ _ _ => .done trivial

theorem memorySet_alike (name : String) : Alike .ram 1
    (Program.lift (D := D) (Synth.newWitness .field (1 : F)) >>= Memory.set poseidon false name)
    (Program.lift (Synth.newWitness .field (1 : F)) >>= Memory.set poseidon false name)
    fun _ _ => True :=
  .lift_bind .newVariable (by rintro w _ rfl; exact .set name name w)

omit [Field F] [PrimeField F] [DecidableEq F] in
theorem forall₂_self {ι : Type} {R : ι → ι → Prop} {l : List ι} (each : ∀ i, R i i) :
    List.Forall₂ R l l := List.forall₂_same.mpr fun i _ => each i

/-- A body has the rows of another run of it, with as many calls as the native trace. -/
theorem generateConstraints_alike (memory : params.useMerkleMemory = false) (idx : Nat) :
    Alike .ram (portalCalls F params idx).length (generateConstraints (D := D) poseidon params idx)
      (generateConstraints poseidon params idx) fun _ _ => True := by
  have get : ∀ i, Alike .ram 1 (Memory.get (D := D) poseidon false (registerName i)) _ _ :=
    fun i => memoryGet_alike (registerName i)
  have set : ∀ i, Alike .ram 1 (Program.lift (D := D) (Synth.newWitness .field (1 : F)) >>=
    Memory.set poseidon false (registerName i)) _ _ := fun i => memorySet_alike (registerName i)
  have getters := Alike.loop (forall₂_self (l := List.range registerNum) get)
  have setters := Alike.loop (forall₂_self (l := List.range registerNum) set)
  have dummies := Alike.loop (forall₂_self (l := List.range params.operationsPerChunk) fun _ =>
    (set 1).bind fun _ _ _ => (get 1).bind fun _ _ _ => (get 1).bind fun _ _ _ =>
          Alike.lift (dummyProducts_parallel (params.dummyConstraintNum / 2)))
  rw [List.length_range] at getters setters dummies
  have getCount : (getCalls F).length = registerNum * 1 := by simp [getCalls]
  have setCount : (setCalls F).length = registerNum * 1 := by simp [setCalls]
  have dummyCount : (dummyCalls F params).length = params.operationsPerChunk * 3 := by
    simp [dummyCalls, List.length_flatMap]
  rw [generateConstraints, portalCalls, doDummyOperation, memory]
  by_cases first : idx = 0
  · rw [if_neg (not_not.mpr first), if_neg (not_not.mpr first), List.length_append, setCount,
      dummyCount]
    exact setters.bind fun _ _ _ => dummies
  · rw [if_pos first, if_pos first, List.append_assoc, List.length_append, List.length_append,
      getCount, setCount, dummyCount]
    exact getters.bind fun _ _ _ => dummies.bind fun _ _ _ => setters

variable {overflowChecks : Bool}

omit [PrimeField F] in
theorem native_length {traces : List (List (TranscriptEntry F .ram))}
    (recorded : getPortalSubtraces overflowChecks D params = .ok traces) {idx : Nat}
    {subtrace : List (TranscriptEntry F .ram)} (found : traces[idx]? = some subtrace) :
    subtrace.length = (portalCalls F params idx).length := by
  obtain ⟨inside, rfl⟩ := List.getElem?_eq_some_iff.mp found
  obtain ⟨n, _, entries⟩ := native_entries recorded
  have bound : idx < ((List.range n).map (portalCalls F params)).length := by
    rw [entries.length_eq]
    exact inside
  have here := entries.get bound inside
  simp only [List.get_eq_getElem, List.getElem_map, List.getElem_range] at here
  exact here.length_eq.symm

/-- All subcircuits but the first one have the same body. -/
theorem body_of_ne_zero {idx : Nat} (later : idx ≠ 0) :
    generateConstraints (D := D) poseidon params idx = generateConstraints poseidon params 1 ∧
      portalCalls F params idx = portalCalls F params 1 := by
  simp [generateConstraints, portalCalls, later]

variable {gadget : TreeConfigGadget F D} {traces : List (List (TranscriptEntry F .ram))}
variable {idx n : Nat} {p p' : SubcircuitWithPortalsProver F D .ram}

theorem representative_comparable (memory : params.useMerkleMemory = false)
    (recorded : getPortalSubtraces overflowChecks D params = .ok traces)
    (assigned : Assigned (circuit overflowChecks poseidon D params n) traces idx p)
    (assigned' : Assigned (circuit overflowChecks poseidon D params n) traces
      (representativeSubcircuit idx) p') : Comparable p p' := by
  have length := native_length recorded assigned.time
  have length' := native_length recorded assigned'.time
  have alike : Alike .ram _ (generateConstraints (D := D) poseidon params idx) _ _ :=
    generateConstraints_alike memory idx
  by_cases first : idx = 0
  · subst first
    exact comparable assigned assigned' rfl length length' alike
  · have representative : representativeSubcircuit idx = 1 := if_neg first
    obtain ⟨body, calls⟩ : generateConstraints (D := D) poseidon params idx = _ ∧ _ :=
      body_of_ne_zero first
    rw [representative, ← calls] at length'
    apply comparable assigned assigned' rfl length length'
    change Alike .ram _ (generateConstraints poseidon params idx)
      (generateConstraints poseidon params (representativeSubcircuit idx)) _
    rw [representative, ← body]
    exact alike

/-- The last subcircuit is not like its representative, unless it is subcircuit 1. -/
theorem last_differs (lawful : gadget.Lawful) (memory : params.useMerkleMemory = false)
    (recorded : getPortalSubtraces overflowChecks D params = .ok traces)
    (assigned : Assigned (circuit overflowChecks poseidon D params n) traces idx p)
    (assigned' : Assigned (circuit overflowChecks poseidon D params n) traces
      (representativeSubcircuit idx) p')
    (many : 2 ≤ idx) (last : idx = n - 1) : ¬ SameStages gadget p p' := by
  have later : idx ≠ 0 := by omega
  have representative : representativeSubcircuit idx = 1 := if_neg later
  have same := representative_comparable memory recorded assigned assigned'
  rw [representative] at assigned'
  apply not_same_of_last lawful assigned assigned' same (by simp [later]) last
  exact fun one => absurd (last.trans one.symm) (by omega)

/-- An inner subcircuit, or one of the first two, has the rows of its representative. -/
theorem inner_same (lawful : gadget.Lawful) (memory : params.useMerkleMemory = false)
    (recorded : getPortalSubtraces overflowChecks D params = .ok traces) (inside : idx < n)
    (assigned : Assigned (circuit overflowChecks poseidon D params n) traces idx p)
    (assigned' : Assigned (circuit overflowChecks poseidon D params n) traces
      (representativeSubcircuit idx) p') (inner : idx < 2 ∨ idx ≠ n - 1) :
    SameStages gadget p p' := by
  have same := representative_comparable memory recorded assigned assigned'
  apply same_of_alike lawful assigned assigned' same
  · rw [representativeSubcircuit]
    split <;> simp_all
  · change idx = n - 1 ↔ representativeSubcircuit idx = n - 1
    rw [representativeSubcircuit]
    split
    · rename_i first
      rw [first]
    · have one : idx = 1 ∨ 2 ≤ idx ∧ idx ≠ n - 1 := by omega
      rcases one with rfl | ⟨many, inner⟩
      · exact Iff.rfl
      · constructor
        · exact fun last => absurd last inner
        · exact fun short => absurd inside (by omega)

variable (poseidon) in
/-- The native trace is recorded, and on it a subcircuit's key is that of its representative
exactly when it is not the last one, or is its own representative. -/
theorem sharedKey_iff (lawful : gadget.Lawful) (memory : params.useMerkleMemory = false)
    (counted : params.numSubcircuits overflowChecks = .ok n) :
    ∃ traces, (circuit overflowChecks poseidon D params n).getPortalSubtraces = .ok traces ∧
      ∀ idx < n, ∀ p p', Assigned (circuit overflowChecks poseidon D params n) traces idx p →
        Assigned (circuit overflowChecks poseidon D params n) traces
          (representativeSubcircuit idx) p' →
        ((representativeSubcircuit idx ∈
            (circuit overflowChecks poseidon D params n).getUniqueSubcircuits ∧
          SameStages gadget p p') ↔ idx < 2 ∨ idx ≠ n - 1) := by
  obtain ⟨pm, _, recorded⟩ := native_recorded (F := F) (D := D) counted
  refine ⟨pm.subtraces, recorded, fun idx inside p p' assigned assigned' => ?_⟩
  constructor
  · rintro ⟨_, stages⟩
    by_contra neither
    rw [not_or, not_lt, not_not] at neither
    exact last_differs lawful memory recorded assigned assigned' neither.1 neither.2 stages
  · intro inner
    refine ⟨?_, inner_same lawful memory recorded inside assigned assigned' inner⟩
    change representativeSubcircuit idx ∈ [0, 1]
    rw [representativeSubcircuit]
    split <;> simp

omit [PrimeField F] in
theorem native_found (counted : params.numSubcircuits overflowChecks = .ok n)
    (recorded : getPortalSubtraces overflowChecks D params = .ok traces) (inside : idx < n) :
    ∃ subtrace, traces[idx]? = some subtrace := by
  obtain ⟨_, counted', entries⟩ := native_entries recorded
  cases counted.symm.trans counted'
  have count := entries.length_eq
  rw [List.length_map, List.length_range] at count
  exact ⟨_, List.getElem?_eq_getElem (count ▸ inside)⟩

end Keys

/-- A machine of this many subcircuits (as a power of two), without operations. -/
def idleMachine (log : Nat) : VirtualMachineParameters := ⟨false, log, 0, 0⟩

def idleCircuit (log : Nat) : CircuitWithPortals Bls12381Fr (FreeDigest Bls12381Fr) .ram :=
  circuit true linearPoseidon _ (idleMachine log) (2 ^ log)

/-- With two subcircuits the last one is its own representative. -/
theorem secondOfTwo_sharesKey : ∃ traces subtrace,
    (idleMachine 1).numSubcircuits true = .ok 2 ∧
    (idleCircuit 1).getPortalSubtraces = .ok traces ∧
    traces[1]? = some subtrace ∧ 1 ∈ (idleCircuit 1).getUniqueSubcircuits ∧
    SameStages (freeGadget Bls12381Fr) (proverOf (idleCircuit 1) 1 subtrace)
      (proverOf (idleCircuit 1) 1 subtrace) := by
  have counted : (idleMachine 1).numSubcircuits true = .ok 2 := rfl
  have lawful : (freeGadget Bls12381Fr).Lawful := pathGadget_lawful _ _
  obtain ⟨traces, recorded, shared⟩ := sharedKey_iff linearPoseidon lawful rfl counted
  obtain ⟨subtrace, found⟩ := native_found counted recorded one_lt_two
  exact ⟨traces, subtrace, counted, recorded, found, (shared 1 one_lt_two _ _
    (proverOf_assigned found) (proverOf_assigned found)).mpr (by decide)⟩

/-- With four subcircuits the key of the last one lacks its last check. -/
theorem lastOfFour_differs : ∃ traces last second,
    (idleMachine 2).numSubcircuits true = .ok 4 ∧
    (idleCircuit 2).getPortalSubtraces = .ok traces ∧ traces[3]? = some last ∧
    traces[1]? = some second ∧ (idleCircuit 2).representativeSubcircuit 3 = .ok 1 ∧
    ¬ SameStages (freeGadget Bls12381Fr) (proverOf (idleCircuit 2) 3 last)
      (proverOf (idleCircuit 2) 1 second) := by
  have counted : (idleMachine 2).numSubcircuits true = .ok 4 := rfl
  obtain ⟨pm, _, recorded⟩ := native_recorded (F := Bls12381Fr) (D := FreeDigest Bls12381Fr) counted
  obtain ⟨last, found⟩ := native_found counted recorded (show 3 < 4 by decide)
  obtain ⟨second, found'⟩ := native_found counted recorded (show 1 < 4 by decide)
  exact ⟨_, last, second, counted, recorded, found, found', rfl, last_differs
    (pathGadget_lawful _ _) rfl recorded (proverOf_assigned found)
    (proverOf_assigned found') (by decide) rfl⟩

end VirtualMachine
