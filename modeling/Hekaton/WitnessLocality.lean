import Hekaton.AppendOnly
import Hekaton.VkdCodecs
import Hekaton.VkdInstances
import Hekaton.VkdTraces

/-!
# Witnesses of the key directory's subcircuits

A worker rebuilds a circuit as the generated instance of its parameters with the primitives of
one subcircuit set. All but one of the primitives allocate their own data only. Writing the
public parameters takes the roots of the circuit itself, which no witness carries, so the
rebuilt subcircuit is the coordinator's only where the roots are those of the instance.
-/

namespace WitnessLocality

open Outcomes Wires Synthesis Contracts Transcript PortalManager PrimeFields VkdHash SparseTree
open VkdCircuits KeyDirectory FieldGadgets VkdSubcircuits VkdCodecs VkdTraces VkdInstances
open HonestRuns MirroredRuns TreeIndexing VkdGadgets

section Model
variable {F D : Type} [Field F] [PrimeField F]

/-- The cached instance is the generated one. -/
def new (overflowChecks : Bool) (p : Poseidon F) (params : VerifiableKeyDirectoryCircuitParams) :
    Outcome VerifiableKeyDirectoryCircuit := random overflowChecks p params

def getSerializedWitnesses (c : VerifiableKeyDirectoryCircuit) (subcircuitIdx : Nat) :
    Outcome (List UInt8) := do
  let subcircuit ← expect Coordinator.outOfBounds c.subcircuits[subcircuitIdx]?
  .ok (serializeSubcircuit subcircuit)

def setSerializedWitnesses (c : VerifiableKeyDirectoryCircuit) (subcircuitIdx : Nat)
    (bytes : List UInt8) : Outcome VerifiableKeyDirectoryCircuit := do
  let subcircuit ← deserializeSubcircuit bytes
  if subcircuitIdx < c.subcircuits.length then
    .ok { c with subcircuits := c.subcircuits.set subcircuitIdx subcircuit }
  else panicWith Coordinator.outOfBounds

/-- What a worker makes of the parameters and the witnesses of a subcircuit. -/
def rebuild (overflowChecks : Bool) (p : Poseidon F) (c : VerifiableKeyDirectoryCircuit)
    (subcircuitIdx : Nat) : Outcome VerifiableKeyDirectoryCircuit := do
  let fresh ← new overflowChecks p c.params
  let wits ← getSerializedWitnesses c subcircuitIdx
  setSerializedWitnesses fresh subcircuitIdx wits

/-- With every portal manager, both bodies allocate the same values and make the same calls. -/
def SameRuns (a b : Program F D Unit) : Prop :=
  ∀ (PM : Type) [Manager F D PM] (pm : PM) (vars : List (Variable F D)),
    a.run pm vars = b.run pm vars

/-- The rebuilt circuit runs a subcircuit as the circuit itself does. -/
def WitnessesLocal (overflowChecks : Bool) (p : Poseidon F)
    (inner : Wire F D .field → Wire F D .field → Synth F D (Wire F D .field))
    (c : VerifiableKeyDirectoryCircuit) (subcircuitIdx : Nat) : Prop :=
  ∃ copy, rebuild overflowChecks p c subcircuitIdx = .ok copy ∧
    SameRuns (generateConstraintsWith p inner copy subcircuitIdx)
      (generateConstraintsWith p inner c subcircuitIdx)

end Model

section Layouts

theorem operationLayout_length (idx : Nat) (u : Update) : (operationLayout idx u).length = 8 := by
  cases u <;> rfl

theorem operationsLayout_length (idx : Nat) (us : List Update) :
    (operationsLayout idx us).length = 8 * us.length := by
  induction us generalizing idx with
  | nil => rfl
  | cons u us ih =>
    rw [operationsLayout, List.length_append, operationLayout_length, ih, List.length_cons]
    omega

theorem layout_length (us : List Update) : (layout us).length = 8 * (us.length + 1) := by
  rw [layout, List.length_append, List.length_replicate, List.length_cons, List.length_append,
    operationsLayout_length, List.length_singleton]
  omega

theorem operationLayout_private {idx : Nat} {u : Update} {s : SubCircuit}
    (member : s ∈ operationLayout idx u) :
    .writePublicParameterPrimitive ∉ s.compoundPrimitiveVec := by
  cases u with
  | update u =>
    simp only [operationLayout, List.mem_cons, List.not_mem_nil, or_false] at member
    rcases member with rfl | rfl | rfl | rfl | rfl | rfl | rfl | rfl <;>
      simp [climbOnly, rootCheck, equalityOp]
  | append u =>
    simp only [operationLayout, List.mem_cons, List.not_mem_nil, or_false] at member
    rcases member with rfl | rfl | rfl | rfl | rfl | rfl | rfl | rfl <;>
      simp [climbOnly, rootCheck, equalityOp]

theorem operationsLayout_private {idx : Nat} {us : List Update} {s : SubCircuit}
    (member : s ∈ operationsLayout idx us) :
    .writePublicParameterPrimitive ∉ s.compoundPrimitiveVec := by
  induction us generalizing idx with
  | nil => cases member
  | cons u us ih =>
    rcases List.mem_append.mp member with here | later
    · exact operationLayout_private here
    · exact ih later

/-- The public parameters are written by the subcircuit after the paddings. -/
theorem layout_six (us : List Update) :
    (layout us)[6]? = some ⟨[.writePublicParameterPrimitive]⟩ := rfl

/-- No other subcircuit writes them. -/
theorem layout_private {us : List Update} {i : Nat} {s : SubCircuit} (other : i ≠ 6)
    (here : (layout us)[i]? = some s) : .writePublicParameterPrimitive ∉ s.compoundPrimitiveVec := by
  have paddings : (List.replicate 6 (SubCircuit.mk [.paddingPrimitive])).length = 6 :=
    List.length_replicate
  rw [layout] at here
  by_cases early : i < 6
  · rw [List.getElem?_append_left (by omega)] at here
    have same := List.eq_of_mem_replicate (List.mem_of_getElem? here)
    rw [same]
    simp
  · rw [List.getElem?_append_right (by omega), paddings] at here
    obtain ⟨j, rfl⟩ : ∃ j, i = 6 + (j + 1) := ⟨i - 7, by omega⟩
    rw [Nat.add_sub_cancel_left, List.getElem?_cons_succ] at here
    rcases List.mem_append.mp (List.mem_of_getElem? here) with operation | last
    · exact operationsLayout_private operation
    · rw [List.mem_singleton.mp last]
      simp [finalCheck, equalityOp]

end Layouts

section Counts
variable {overflowChecks : Bool} {params : VerifiableKeyDirectoryCircuitParams} {n : Nat}

theorem eight_mul_pow {log : Nat} (eight : 3 ≤ log) : 2 ^ log = 8 * 2 ^ (log - 3) := by
  rw [show 8 = 2 ^ 3 from rfl, ← Nat.pow_add, Nat.add_sub_cancel' eight]

theorem numOfUpdates_eq (sixteen : 4 ≤ params.logNumSubcircuits)
    (usize : params.logNumSubcircuits < 64) :
    numOfUpdates overflowChecks params = .ok (2 ^ (params.logNumSubcircuits - 3) - 2) := by
  have shifted : oneShiftedLeft overflowChecks params.logNumSubcircuits =
      .ok (2 ^ params.logNumSubcircuits) := by
    rw [oneShiftedLeft, if_neg (by omega), Nat.mod_eq_of_lt usize]
  have whole := eight_mul_pow (Nat.le_of_succ_le sixteen)
  have two : 2 ≤ 2 ^ (params.logNumSubcircuits - 3) := Nat.le_self_pow (by omega) 2
  have rest : (8 * 2 ^ (params.logNumSubcircuits - 3) - 8) / 8 =
      2 ^ (params.logNumSubcircuits - 3) - 1 := by omega
  rw [numOfUpdates, shifted, ok_bind, whole, subBits_eq (by omega), ok_bind, rest,
    subBits_eq (by omega)]
  exact congrArg Except.ok (by omega)

/-- With eight subcircuits the count of updates runs below zero. -/
theorem numOfUpdates_eight (eight : params.logNumSubcircuits = 3)
    (counted : numOfUpdates overflowChecks params = .ok n) : n = 2 ^ 64 - 1 := by
  cases overflowChecks with
  | true =>
    rw [numOfUpdates, eight] at counted
    cases counted
  | false =>
    rw [numOfUpdates, eight] at counted
    exact (Except.ok.inj counted).symm

end Counts

section Locality
variable {F D : Type} [Field F] [PrimeField F] {p : Poseidon F} {overflowChecks : Bool}
variable {inner : Wire F D .field → Wire F D .field → Synth F D (Wire F D .field)}
variable {c copy : VerifiableKeyDirectoryCircuit} {i : Nat} {s : SubCircuit}

/-- The primitives other than the public parameters' do not use the circuit. -/
theorem subcircuitConstraints_private (own : .writePublicParameterPrimitive ∉ s.compoundPrimitiveVec)
    (c copy : VerifiableKeyDirectoryCircuit) :
    subcircuitConstraints p inner copy s = subcircuitConstraints p inner c s := by
  have each : ∀ primitive ∈ s.compoundPrimitiveVec,
      primitiveConstraints p inner copy primitive = primitiveConstraints p inner c primitive := by
    intro primitive member
    cases primitive with
    | writePublicParameterPrimitive => exact absurd member own
    | _ => rfl
  rw [subcircuitConstraints, subcircuitConstraints]
  clear own
  generalize s.compoundPrimitiveVec = primitives at each ⊢
  induction primitives with
  | nil => rfl
  | cons primitive rest ih =>
    have later := ih fun q member => each q (List.mem_cons_of_mem primitive member)
    rw [forEach, forEach, each primitive List.mem_cons_self, later]

/-- A body runs as the primitives of its subcircuit. -/
theorem run_of_get {PM : Type} [Manager F D PM] (here : c.subcircuits[i]? = some s) (pm : PM)
    (vars : List (Variable F D)) : (generateConstraintsWith p inner c i).run pm vars =
      (subcircuitConstraints p inner c s).run pm vars := by
  have first : (call (expect Coordinator.outOfBounds c.subcircuits[i]?) : Program F D _).run pm =
      pure (s, pm) := by
    rw [here]
    rfl
  rw [generateConstraintsWith, run_bind, first, pure_bind]

/-- Two subcircuits with the same primitives run alike unless they write public parameters. -/
theorem sameRuns_of_private (here : c.subcircuits[i]? = some s) (there : copy.subcircuits[i]? = some s)
    (own : .writePublicParameterPrimitive ∉ s.compoundPrimitiveVec) :
    SameRuns (generateConstraintsWith p inner copy i) (generateConstraintsWith p inner c i) := by
  intro PM _ pm vars
  rw [run_of_get here, run_of_get there, subcircuitConstraints_private own]

/-- They also do where the public parameters are the same. -/
theorem sameRuns_of_roots (here : c.subcircuits[i]? = some s) (there : copy.subcircuits[i]? = some s)
    (initial : c.initialRoot = copy.initialRoot) (final : c.finalRoot = copy.finalRoot)
    (params : copy.params = c.params) :
    SameRuns (generateConstraintsWith p inner copy i) (generateConstraintsWith p inner c i) := by
  intro PM _ pm vars
  have each : primitiveConstraints p inner copy = primitiveConstraints p inner c := by
    funext primitive
    cases primitive with
    | writePublicParameterPrimitive =>
      rw [primitiveConstraints, primitiveConstraints, writePublicParameterConstraints,
        writePublicParameterConstraints, initial, final, params]
    | _ => rfl
  rw [run_of_get here, run_of_get there, subcircuitConstraints, subcircuitConstraints, each]

variable [DecidableEq F] [Inhabited D] [DecidableEq D]

omit [PrimeField F] in
/-- A root that is written is what its wire holds. -/
theorem setRoot_sets {pm : SetupRomPortalManager F} {name : String} (digest : InnerHash)
    (started : pm.subtraces ≠ []) (free : valueOf pm name = none) :
    ∃ pm', pm'.subtraces ≠ [] ∧ (∀ other, valueOf pm' other =
      if other = name then some (innerHashToField digest : F) else valueOf pm other) ∧
      ∀ vars : List (Variable F D),
        Decides vars ((setRoot name digest).run pm) True fun _ r => r.2 = pm' := by
  obtain ⟨pm', set, grown⟩ := setValue_ok started free (innerHashToField digest : F)
  refine ⟨pm', grown, valueOf_set set, fun vars => ?_⟩
  apply decides_lift (newWitnessVec_decides digest.toList)
  intro more vs bytes
  exact decides_set_last (digestToFpvar_valued bytes) set

omit [PrimeField F] in
/-- On a new manager the public parameters are written to their wires. -/
theorem writePublicParameter_sets (c : VerifiableKeyDirectoryCircuit) :
    ∃ pm' : SetupRomPortalManager F,
      valueOf pm' NodeAddress.initialRoot.toName = some (innerHashToField c.initialRoot) ∧
      valueOf pm' NodeAddress.finalRoot.toName = some (innerHashToField c.finalRoot) ∧
      Decides ([] : List (Variable F D)) ((writePublicParameterConstraints c).run
        (SetupRomPortalManager.new : SetupRomPortalManager F).startSubtrace) True
        fun _ r => r.2 = pm' := by
  have free₁ : valueOf (SetupRomPortalManager.new : SetupRomPortalManager F).startSubtrace
    NodeAddress.initialRoot.toName = none := rfl
  obtain ⟨pm₁, started₁, values₁, run₁⟩ := setRoot_sets (D := D) c.initialRoot
    (List.cons_ne_nil _ _) free₁
  have free₂ : valueOf pm₁ NodeAddress.finalRoot.toName = none := by
    rw [values₁, if_neg (by decide)]
    rfl
  obtain ⟨pm₂, started₂, values₂, run₂⟩ := setRoot_sets (D := D) c.finalRoot started₁ free₂
  have free₃ : valueOf pm₂ NodeAddress.nullLeaf.toName = none := by
    rw [values₂, if_neg (by decide), values₁, if_neg (by decide)]
    rfl
  obtain ⟨pm₃, _, values₃, run₃⟩ := setRoot_sets (D := D) c.params.nullLeaf started₂ free₃
  refine ⟨pm₃, ?_, ?_, ?_⟩
  · rw [values₃, if_neg (by decide), values₂, if_neg (by decide), values₁, if_pos rfl]
  · rw [values₃, if_neg (by decide), values₂, if_pos rfl]
  · rw [writePublicParameterConstraints, run_bind]
    apply (run₁ _).bind_true
    rintro more ⟨_, _⟩ rfl
    rw [run_bind]
    apply (run₂ _).bind_true
    rintro more' ⟨_, _⟩ rfl
    exact run₃ _

/-- Bodies that write public parameters and run alike write the same roots. -/
theorem roots_of_sameRuns (here : c.subcircuits[i]? = some ⟨[.writePublicParameterPrimitive]⟩)
    (there : copy.subcircuits[i]? = some ⟨[.writePublicParameterPrimitive]⟩)
    (same : SameRuns (F := F) (D := D) (generateConstraintsWith p inner copy i)
      (generateConstraintsWith p inner c i)) :
    c.initialRoot = copy.initialRoot ∧ c.finalRoot = copy.finalRoot := by
  have writes (c : VerifiableKeyDirectoryCircuit)
      (here : c.subcircuits[i]? = some ⟨[.writePublicParameterPrimitive]⟩) :
      ∃ pm' : SetupRomPortalManager F,
        valueOf pm' NodeAddress.initialRoot.toName = some (innerHashToField c.initialRoot) ∧
        valueOf pm' NodeAddress.finalRoot.toName = some (innerHashToField c.finalRoot) ∧
        ∃ r, (generateConstraintsWith p inner c i).run
          (SetupRomPortalManager.new : SetupRomPortalManager F).startSubtrace
            ([] : List (Variable F D)) = .ok r ∧ r.1.2 = pm' := by
    obtain ⟨pm', initial, final, writes⟩ := writePublicParameter_sets (F := F) (D := D) c
    refine ⟨pm', initial, final, ?_⟩
    have whole : Decides ([] : List (Variable F D)) ((subcircuitConstraints p inner c
        ⟨[.writePublicParameterPrimitive]⟩).run
          (SetupRomPortalManager.new : SetupRomPortalManager F).startSubtrace) True
        fun _ r => r.2 = pm' := by
      rw [subcircuitConstraints, forEach, run_bind]
      apply writes.bind_true
      rintro more ⟨_, _⟩ rfl
      exact .pure rfl
    obtain ⟨r, e, ran, _, last⟩ := whole.run
    exact ⟨(r, e), by rw [run_of_get here, ran], last⟩
  obtain ⟨pm₁, initial₁, final₁, r₁, ran₁, rfl⟩ := writes c here
  obtain ⟨pm₂, initial₂, final₂, r₂, ran₂, rfl⟩ := writes copy there
  have equal := same _ (SetupRomPortalManager.new : SetupRomPortalManager F).startSubtrace []
  cases (ran₂.symm.trans equal).trans ran₁
  rw [initial₂, Option.some.injEq] at initial₁
  rw [final₂, Option.some.injEq] at final₁
  exact ⟨(innerHashToField_injective initial₁).symm, (innerHashToField_injective final₁).symm⟩

theorem getSerializedWitnesses_eq (here : c.subcircuits[i]? = some s) :
    getSerializedWitnesses c i = .ok (serializeSubcircuit s) := by
  rw [getSerializedWitnesses, here]
  rfl

/-- Setting the witnesses of a subcircuit puts the subcircuit at the index. -/
theorem setSerializedWitnesses_eq (inside : i < copy.subcircuits.length)
    (fits : (serializeSubcircuit s).length < 2 ^ 64) :
    setSerializedWitnesses copy i (serializeSubcircuit s) =
      .ok { copy with subcircuits := copy.subcircuits.set i s } := by
  rw [setSerializedWitnesses, deserializeSubcircuit_eq fits, ok_bind, if_pos inside]

/-- What the encoders write is read back. Every vector of bytes is as long as a `usize`. -/
theorem codecs_roundTrip :
    (∀ a : NodeAddress, NodeAddressBytes.bytesToNodeAddress
      (NodeAddressBytes.nodeAddressToBytes a) = .ok a) ∧
    (∀ p : PrimitiveSubcircuit, (primitiveSubcircuitToBytes p).bytes.length < 2 ^ 64 →
      bytesToPrimitiveSubcircuit (primitiveSubcircuitToBytes p) = .ok p) ∧
    (∀ s : SubCircuit, (∀ p ∈ s.compoundPrimitiveVec,
        (primitiveSubcircuitToBytes p).bytes.length < 2 ^ 64) →
      bytesToSubcircuit (subcircuitToBytes s) = .ok s) ∧
    ∀ (c copy : VerifiableKeyDirectoryCircuit) (i : Nat) (s : SubCircuit),
      c.subcircuits[i]? = some s → (serializeSubcircuit s).length < 2 ^ 64 →
      ∃ bytes, getSerializedWitnesses c i = .ok bytes ∧
        setSerializedWitnesses c i bytes = .ok c ∧
        (i < copy.subcircuits.length → setSerializedWitnesses copy i bytes =
          .ok { copy with subcircuits := copy.subcircuits.set i s }) := by
  refine ⟨NodeAddressBytes.bytesToNodeAddress_nodeAddressToBytes,
    fun _ => bytesToPrimitiveSubcircuit_eq, fun _ => bytesToSubcircuit_eq,
    fun c copy i s here fits => ?_⟩
  obtain ⟨inside, same⟩ := List.getElem?_eq_some_iff.mp here
  refine ⟨_, getSerializedWitnesses_eq here, ?_, fun there => setSerializedWitnesses_eq there fits⟩
  rw [setSerializedWitnesses_eq inside fits, ← same, List.set_getElem_self]

omit [DecidableEq F] in
/-- What a worker rebuilds, and where it does. -/
theorem rebuild_eq_ok (here : c.subcircuits[i]? = some s)
    (fits : (serializeSubcircuit s).length < 2 ^ 64) : rebuild overflowChecks p c i = .ok copy ↔
      ∃ n, numOfUpdates overflowChecks c.params = .ok n ∧
        (overflowChecks = true → n ≤ 65535) ∧ n + 1 < 2 ^ 63 ∧ i < 8 * (n + 2) ∧
        copy = { instanceOf p c.params n with
          subcircuits := (layout (instanceUpdates p n)).set i s } := by
  have serialized := getSerializedWitnesses_eq here
  have size (n : Nat) : (layout (instanceUpdates p n)).length = 8 * (n + 2) := by
    rw [layout_length, instanceUpdates_length]
  rw [rebuild, serialized]
  constructor
  · intro ran
    obtain ⟨fresh, made, ran⟩ := bind_eq_ok.mp ran
    obtain ⟨n, counted, bound, capacity, rfl⟩ := random_eq_ok.mp made
    rw [ok_bind, setSerializedWitnesses, deserializeSubcircuit_eq fits, ok_bind] at ran
    by_cases inside : i < (layout (instanceUpdates p n)).length
    · rw [if_pos (show i < (instanceOf p c.params n).subcircuits.length from inside)] at ran
      rw [size] at inside
      exact ⟨n, counted, bound, capacity, inside, (Except.ok.inj ran).symm⟩
    · rw [if_neg (show ¬ i < (instanceOf p c.params n).subcircuits.length from inside)] at ran
      cases ran
  · rintro ⟨n, counted, bound, capacity, inside, rfl⟩
    rw [← size] at inside
    have made := (random_eq_ok (p := p)).mpr ⟨n, counted, bound, capacity, rfl⟩
    rw [new, made, ok_bind, ok_bind]
    exact setSerializedWitnesses_eq inside fits

/-- A circuit whose subcircuits are those of its updates, as many as its parameters say. The
subcircuits and their bytes fit in vectors. -/
structure Generated (overflowChecks : Bool) (c : VerifiableKeyDirectoryCircuit) : Prop where
  subcircuits : vkdUpdateToSubcircuit overflowChecks c.update = .ok c.subcircuits
  count : c.subcircuits.length = 2 ^ c.params.logNumSubcircuits
  usize : c.subcircuits.length < 2 ^ 64
  fits : ∀ s ∈ c.subcircuits, (serializeSubcircuit s).length < 2 ^ 64

theorem Generated.laid (generated : Generated overflowChecks c) : layout c.update = c.subcircuits :=
  (vkdUpdateToSubcircuit_eq_ok.mp generated.subcircuits).2.2

theorem Generated.log (generated : Generated overflowChecks c) :
    3 ≤ c.params.logNumSubcircuits ∧ c.params.logNumSubcircuits < 64 := by
  have size : 8 * (c.update.length + 1) = 2 ^ c.params.logNumSubcircuits := by
    rw [← layout_length, generated.laid, generated.count]
  have usize := generated.usize
  rw [generated.count] at usize
  constructor
  · by_contra low
    have most : 2 ^ c.params.logNumSubcircuits ≤ 2 ^ 2 :=
      Nat.pow_le_pow_right (by decide) (by omega)
    omega
  · exact (Nat.pow_lt_pow_iff_right (by decide)).mp usize

omit [DecidableEq F] in
/-- Where the instance is generated, and with how many updates. -/
theorem Generated.rebuild_eq_ok (generated : Generated overflowChecks c)
    (here : c.subcircuits[i]? = some s) : rebuild overflowChecks p c i = .ok copy ↔
      4 ≤ c.params.logNumSubcircuits ∧ (overflowChecks = true → c.params.logNumSubcircuits < 20) ∧
      copy = { instanceOf p c.params (2 ^ (c.params.logNumSubcircuits - 3) - 2) with
        subcircuits := (layout (instanceUpdates p (2 ^ (c.params.logNumSubcircuits - 3) - 2))).set i
          s } := by
  have fits := generated.fits s (List.mem_of_getElem? here)
  obtain ⟨eight, below⟩ := generated.log
  rw [WitnessLocality.rebuild_eq_ok here fits]
  constructor
  · rintro ⟨n, counted, bound, capacity, reached, rfl⟩
    have sixteen : 4 ≤ c.params.logNumSubcircuits := by
      by_contra low
      have many := numOfUpdates_eight (by omega) counted
      omega
    rw [numOfUpdates_eq sixteen below, Except.ok.injEq] at counted
    rw [counted]
    refine ⟨sixteen, fun checked => ?_, rfl⟩
    have small := bound checked
    by_contra high
    have least : 2 ^ 17 ≤ 2 ^ (c.params.logNumSubcircuits - 3) :=
      Nat.pow_le_pow_right (by decide) (by omega)
    omega
  · rintro ⟨sixteen, small, rfl⟩
    have inside : i < 2 ^ c.params.logNumSubcircuits := by
      rw [← generated.count]
      exact (List.getElem?_eq_some_iff.mp here).1
    have whole := eight_mul_pow eight
    have two : 2 ≤ 2 ^ (c.params.logNumSubcircuits - 3) := Nat.le_self_pow (by omega) 2
    have capacity : 2 ^ (c.params.logNumSubcircuits - 3) ≤ 2 ^ 61 :=
      Nat.pow_le_pow_right (by decide) (by omega)
    refine ⟨_, numOfUpdates_eq sixteen below, fun checked => ?_, by omega, by omega, rfl⟩
    have most : 2 ^ (c.params.logNumSubcircuits - 3) ≤ 2 ^ 16 :=
      Nat.pow_le_pow_right (by decide) (by have := small checked; omega)
    omega

/-- The rebuilt circuit runs a subcircuit as the circuit itself does, exactly where the instance
of the parameters is generated and, for the public parameters, has the circuit's roots. -/
theorem witnessesLocal_iff (generated : Generated overflowChecks c)
    (inside : i < c.subcircuits.length) :
    WitnessesLocal overflowChecks p inner c i ↔ 4 ≤ c.params.logNumSubcircuits ∧
      (overflowChecks = true → c.params.logNumSubcircuits < 20) ∧
      (i = 6 → c.initialRoot = rootOf p (genesisLeaves p) ∧
        c.finalRoot = rootOf p (leavesAfter p (2 ^ (c.params.logNumSubcircuits - 3) - 2))) := by
  obtain ⟨s, here⟩ : ∃ s, c.subcircuits[i]? = some s := ⟨_, List.getElem?_eq_getElem inside⟩
  have set {n : Nat} (sixteen : 4 ≤ c.params.logNumSubcircuits)
      (count : n = 2 ^ (c.params.logNumSubcircuits - 3) - 2) :
      ((layout (instanceUpdates p n)).set i s)[i]? = some s := by
    apply List.getElem?_set_self
    have whole := eight_mul_pow generated.log.1
    have two : 2 ≤ 2 ^ (c.params.logNumSubcircuits - 3) := Nat.le_self_pow (by omega) 2
    rw [layout_length, instanceUpdates_length]
    rw [generated.count] at inside
    omega
  constructor
  · rintro ⟨copy, rebuilt, same⟩
    obtain ⟨sixteen, small, rfl⟩ := (generated.rebuild_eq_ok here).mp rebuilt
    refine ⟨sixteen, small, ?_⟩
    rintro rfl
    have there := set sixteen rfl
    have written := layout_six c.update
    rw [generated.laid, here, Option.some.injEq] at written
    subst written
    exact roots_of_sameRuns here there same
  · rintro ⟨sixteen, small, roots⟩
    have there := set sixteen rfl
    refine ⟨_, (generated.rebuild_eq_ok here).mpr ⟨sixteen, small, rfl⟩, ?_⟩
    by_cases parameters : i = 6
    · obtain ⟨initial, final⟩ := roots parameters
      exact sameRuns_of_roots here there initial final rfl
    · apply sameRuns_of_private here there
      rw [← generated.laid] at here
      exact layout_private parameters here

end Locality

/-- A batch of one append, between two roots. -/
def oneAppend : VerifiableKeyDirectoryCircuit :=
  let updates : List Update :=
    [.append ⟨byteArray 32 1, byteArray 32 2, ⟨List.replicate DEPTH (byteArray 27 3)⟩⟩]
  ⟨byteArray 27 1, ⟨4, nullLeaf linearPoseidon⟩, byteArray 27 2, updates, layout updates⟩

theorem oneAppend_generated : Generated true oneAppend where
  subcircuits := vkdUpdateToSubcircuit_eq_ok.mpr
    ⟨fun u member => by rw [List.mem_singleton.mp member]; trivial, fun _ => List.cons_ne_nil _ _, rfl⟩
  count := rfl
  usize := by decide
  fits := by decide +kernel

theorem firstClimb_local : WitnessesLocal (D := Unit) true linearPoseidon
    (hashInnerNodeVar linearPoseidon) oneAppend 7 :=
  (witnessesLocal_iff oneAppend_generated (by decide)).mpr ⟨by decide, by decide, nofun⟩

/-- The first climb of the append is read back, and so is its leaf's hash on its own. -/
theorem firstClimb_restored :
    bytesToPrimitiveSubcircuit (primitiveSubcircuitToBytes (.hashLeafPrimitive ⟨byteArray 66 1⟩)) =
      .ok (.hashLeafPrimitive ⟨byteArray 66 1⟩) ∧
    bytesToSubcircuit (subcircuitToBytes ⟨[.paddingPrimitive]⟩) = .ok ⟨[.paddingPrimitive]⟩ ∧
    ∃ bytes, getSerializedWitnesses oneAppend 7 = .ok bytes ∧
      setSerializedWitnesses oneAppend 7 bytes = .ok oneAppend := by
  obtain ⟨_, primitive, subcircuit, witnesses⟩ := codecs_roundTrip
  obtain ⟨s, here⟩ : ∃ s, oneAppend.subcircuits[7]? = some s := ⟨_, rfl⟩
  obtain ⟨bytes, serialized, restored, _⟩ := witnesses oneAppend oneAppend 7 s here
    (oneAppend_generated.fits s (List.mem_of_getElem? here))
  exact ⟨primitive _ (by decide), subcircuit _ (by decide), bytes, serialized, restored⟩

/-- The genesis leaf of a linear sponge hashes as the leaves that were never written. -/
theorem linear_genesisRoot : rootOf linearPoseidon (genesisLeaves linearPoseidon) =
    nullLeaf linearPoseidon := by
  have leaves (i : Nat) : digestsOf linearPoseidon (genesisLeaves linearPoseidon) i =
      nullLeaf linearPoseidon := by
    rw [digestsOf]
    by_cases genesis : i = indexOf linearPoseidon genesisUser
    · subst genesis
      have zero : concat genesisUser (byteArray 32 0) 0 = AppendOnly.zeroLeaf := rfl
      rw [genesisLeaves, Function.update_self, Option.getD_some, zero]
      exact congrArg (fun state => truncated (squeezed linearPoseidon state))
        AppendOnly.absorbed_zeroLeaf
    · rw [genesisLeaves, Function.update_of_ne (fun same => genesis (congrArg MerkleIndex.index same))]
      rfl
  exact SparseMerkleTrees.node_constant (c := fun _ => nullLeaf linearPoseidon) leaves
    (fun _ => AppendOnly.linear_fixed.symm) DEPTH 0

/-- The worker's public parameters have the root of the instance. -/
theorem publicParameters_differ : ¬ WitnessesLocal (D := Unit) true linearPoseidon
    (hashInnerNodeVar linearPoseidon) oneAppend 6 := by
  rintro ⟨copy, rebuilt, same⟩
  have here : oneAppend.subcircuits[6]? = some ⟨[.writePublicParameterPrimitive]⟩ := layout_six _
  obtain ⟨_, _, rfl⟩ := (oneAppend_generated.rebuild_eq_ok here).mp rebuilt
  obtain ⟨initial, _⟩ := roots_of_sameRuns here (List.getElem?_set_self (by decide)) same
  have root : byteArray 27 1 = rootOf linearPoseidon (genesisLeaves linearPoseidon) := initial
  rw [linear_genesisRoot] at root
  exact absurd root (by decide +kernel)

end WitnessLocality
