import Hekaton.VkdCompleteness
import Hekaton.WitnessLocality
import Mathlib

/-!
# How far generated instances scale

The counter of the one user that is updated has two bytes. From 2^20 subcircuits on it runs
over: a build that checks overflows stops there, and in one that does not, the leaves of the
user repeat and the hash of a leaf is set a second time.
-/

namespace InstanceScale

open Outcomes PrimeFields VkdHash SparseTree VkdCircuits KeyDirectory VkdGadgets VkdSubcircuits
open VkdTraces VkdInstances VkdBatches VkdCompleteness WitnessLocality

def numSubcircuits (overflowChecks : Bool) (params : VerifiableKeyDirectoryCircuitParams) :
    Outcome Nat := oneShiftedLeft overflowChecks params.logNumSubcircuits

section Facts
variable {F D : Type} [Field F] [PrimeField F] [DecidableEq F] [Inhabited D] [DecidableEq D]
variable {p : Poseidon F} {checks : Bool} {n : Nat} {params : VerifiableKeyDirectoryCircuitParams}

/-- An instance is generated with as many subcircuits as its parameters say, it is accepted
for the empty leaf's hash, and its portal wires are traced, each set once. -/
def Scales (checks : Bool) (p : Poseidon F) (D : Type) [Inhabited D] [DecidableEq D]
    (params : VerifiableKeyDirectoryCircuitParams) : Prop :=
  ∃ c, random checks p params = .ok c ∧
    c.subcircuits.length = 2 ^ params.logNumSubcircuits ∧
    numSubcircuits checks c.params = .ok c.subcircuits.length ∧
    (∃ pp, (SparseMerkleTree.new (hashing p) DEPTH).sparseInitialHashes[DEPTH]? = some pp ∧
      c.verify checks p pp = .ok true) ∧
    ∃ traces, getPortalSubtraces p checks D c = .ok traces

/-- After as many updates as the counter has values the leaf is the same. -/
theorem leaf_repeats :
    leafArray instanceUser (keyAfter 65537) (UInt16.ofNat 65537) =
      leafArray instanceUser (keyAfter 1) (UInt16.ofNat 1) := by
  have counter : UInt16.ofNat 65537 = UInt16.ofNat 1 := rfl
  rw [counter]
  rfl

omit [DecidableEq F] in
theorem not_orderly (large : 65537 ≤ n) : ¬ Orderly (instanceUpdates p n) := by
  intro orderly
  have found := instanceUpdates_getElem? (p := p) (n := n) 65536 (by omega)
  obtain ⟨_, fresh⟩ := (orderly 65537 _ found).1
  refine fresh (List.mem_iff_getElem?.mpr ⟨1, ?_⟩)
  have written := writtenLeaf_instance (p := p) (n := n) (i := 65537) (by omega)
  rw [found, Option.map_some] at written
  have first := writtenLeaf_instance (p := p) (n := n) (i := 1) (by omega)
  rw [List.getElem?_map, List.getElem?_take_of_lt (by decide), first, ← leaf_repeats, ← written]
  rfl

/-- With fewer than 2^20 subcircuits there are as many updates as fit, and the counter holds. -/
theorem scales_of_le (apart : indexOf p genesisUser ≠ indexOf p instanceUser)
    (least : 5 ≤ params.logNumSubcircuits) (most : params.logNumSubcircuits ≤ 19) :
    Scales checks p D params := by
  obtain ⟨log, nullLeaf'⟩ := params
  change 5 ≤ log at least
  change log ≤ 19 at most
  have size := eight_mul_pow (show 3 ≤ log by omega)
  have two : 2 ≤ 2 ^ (log - 3) := Nat.le_self_pow (by omega) 2
  have high : 2 ^ (log - 3) ≤ 2 ^ 16 := Nat.pow_le_pow_right (by decide) (by omega)
  have counted := @numOfUpdates_eq checks ⟨log, nullLeaf'⟩ (by change 4 ≤ log; omega)
    (by change log < 64; omega)
  obtain ⟨n, updates⟩ : ∃ n, n = 2 ^ (log - 3) - 2 := ⟨_, rfl⟩
  have small : n ≤ 65535 := by omega
  have count : (layout (instanceUpdates p n)).length = 2 ^ log := by
    rw [layout_length, instanceUpdates_length]
    omega
  have room : ∀ i < n, CounterRoom checks i := counterRoom_below.mpr fun _ => small
  have laid : vkdUpdateToSubcircuit checks (instanceUpdates p n) =
      .ok (layout (instanceUpdates p n)) :=
    vkdUpdateToSubcircuit_eq_ok.mpr ⟨instanceUpdates_fit room, fun _ => List.cons_ne_nil _ _, rfl⟩
  refine ⟨instanceOf p ⟨log, nullLeaf'⟩ n, ?_, count, ?_, ⟨nullLeaf p, nullLeaf_eq, ?_⟩, ?_⟩
  · exact random_eq_ok.mpr ⟨n, updates ▸ counted, fun _ => small, by omega, rfl⟩
  · change oneShiftedLeft checks log = .ok (layout (instanceUpdates p n)).length
    rw [count, oneShiftedLeft, if_neg (by omega), Nat.mod_eq_of_lt (by omega)]
  · exact verify_eq_true.mpr (instance_accepted apart room)
  · refine (recorded_iff (c := instanceOf p ⟨log, nullLeaf'⟩ n) laid ?_).mpr
      (instance_orderly small)
    change (instanceUpdates p n).length < 2 ^ 64
    rw [instanceUpdates_length]
    omega

/-- From 2^20 subcircuits on it does not scale, whether overflows are checked or not. -/
theorem le_of_scales (scales : Scales checks p D params) : params.logNumSubcircuits ≤ 19 := by
  obtain ⟨c, generated, count, shifted, _, traced⟩ := scales
  obtain ⟨n, counted, bound, capacity, rfl⟩ := random_eq_ok.mp generated
  obtain ⟨log, nullLeaf'⟩ := params
  change log ≤ 19
  change (layout (instanceUpdates p n)).length = 2 ^ log at count
  change oneShiftedLeft checks log = .ok (layout (instanceUpdates p n)).length at shifted
  have usize : log < 64 := by
    rw [oneShiftedLeft, count] at shifted
    by_cases refused : checks = true ∧ 64 ≤ log
    · rw [if_pos refused] at shifted
      cases shifted
    · rw [if_neg refused] at shifted
      have same := Nat.pow_right_injective le_rfl (Except.ok.inj shifted)
      have below := Nat.mod_lt log (show 0 < 64 by decide)
      omega
  by_contra many
  have size := eight_mul_pow (show 3 ≤ log by omega)
  have large : 2 ^ 17 ≤ 2 ^ (log - 3) := Nat.pow_le_pow_right (by decide) (by omega)
  rw [layout_length, instanceUpdates_length] at count
  have updates : 65537 ≤ n := by omega
  have rounds : ∀ m < n, CounterRoom checks m := counterRoom_below.mpr bound
  have laid : vkdUpdateToSubcircuit checks (instanceUpdates p n) =
      .ok (layout (instanceUpdates p n)) :=
    vkdUpdateToSubcircuit_eq_ok.mpr ⟨instanceUpdates_fit rounds, fun _ => List.cons_ne_nil _ _, rfl⟩
  refine not_orderly updates ((recorded_iff (c := instanceOf p ⟨log, nullLeaf'⟩ n) laid ?_).mp traced)
  change (instanceUpdates p n).length < 2 ^ 64
  rw [instanceUpdates_length]
  omega

/-- Instances scale up to 2^19 subcircuits and no further. -/
theorem scales_iff (apart : indexOf p genesisUser ≠ indexOf p instanceUser)
    (least : 5 ≤ params.logNumSubcircuits) :
    Scales checks p D params ↔ params.logNumSubcircuits ≤ 19 :=
  ⟨le_of_scales, scales_of_le apart least⟩

end Facts

theorem thirtyTwo_scale : Scales true linearPoseidon Unit ⟨5, nullLeaf linearPoseidon⟩ :=
  (scales_iff (by decide +kernel) (by decide)).mpr (by decide)

/-- With 2^20 subcircuits the counter overflows, and where it wraps the instance is no better. -/
theorem million_overflow : (∀ c, random true linearPoseidon ⟨20, nullLeaf linearPoseidon⟩ ≠ .ok c) ∧
    ¬ Scales false linearPoseidon Unit ⟨20, nullLeaf linearPoseidon⟩ := by
  constructor
  · intro c generated
    obtain ⟨n, counted, bound, _⟩ := random_eq_ok.mp generated
    have updates : n = 2 ^ 17 - 2 :=
      (Except.ok.inj ((numOfUpdates_eq (by decide) (by decide)).symm.trans counted)).symm
    have small := bound rfl
    omega
  · intro scales
    exact absurd (le_of_scales scales) (by decide)

end InstanceScale
