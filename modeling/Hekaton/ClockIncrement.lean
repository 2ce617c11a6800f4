import Hekaton.PortalManager
import Mathlib.Algebra.Field.ZMod

/-!
# The increment of a clock in the circuit

The carry that `increment_inplace` starts from is a witness, and no constraint makes it one.
Under an assignment that satisfies all constraints the bits are those of the next number
exactly when the assignment sets that witness; otherwise the clock stands still.
-/

namespace ClockIncrement

open Outcomes Wires Synthesis Contracts Uint32 Transcript PortalManager

/-- A number of one bit or more is not the next one. -/
theorem next_ne {n w : Nat} (positive : 0 < w) (below : n < 2 ^ w) : n ≠ (n + 1) % 2 ^ w := by
  have wide : 2 ≤ 2 ^ w := Nat.le_self_pow positive.ne' 2
  by_cases last : n + 1 = 2 ^ w
  · rw [last, Nat.mod_self]
    omega
  · rw [Nat.mod_eq_of_lt (by omega)]
    omega

section Increment
variable {F D : Type} [Field F] [DecidableEq F] [DecidableEq D] {z : Assignment F D}

/-- The value of the first carry: the variable allocated after these. -/
def carryWitness (z : Assignment F D) (vars : List (Variable F D)) : Bool := z .bool vars.length

/-- What any satisfying assignment makes of the bits: the next ones, or the same. -/
theorem values_incrementInplace {bits t : List (Wire F D .bool)} {vars : List (Variable F D)}
    {e : Emission F D} (run : incrementInplace bits vars = .ok (t, e)) :
    bits ≠ [] ∧ values z t =
      bif carryWitness z vars then Bits.increment (values z bits) else values z bits := by
  cases bits with
  | nil => cases run
  | cons b bits =>
    obtain ⟨carry, e₁, t', e₂, first, rest, same⟩ := Synth.bind_eq_ok.mp run
    cases first
    cases same
    obtain ⟨ws, computes, _, value⟩ :=
      incrementLoop_computes (F := F) (D := D) (.var .bool vars.length) (b :: bits)
    obtain ⟨rows, _, ran⟩ := computes
    cases (ran _).symm.trans rest
    exact ⟨List.cons_ne_nil _ _, value z⟩

/-- The new bits are the next number's exactly under an assignment that sets the carry. -/
theorem toNat_increment_iff {bits t : List (Wire F D .bool)} {vars : List (Variable F D)}
    {e : Emission F D} (run : incrementInplace bits vars = .ok (t, e)) :
    Bits.toNat (values z t) = (Bits.toNat (values z bits) + 1) % 2 ^ bits.length ↔
      carryWitness z vars = true := by
  obtain ⟨nonempty, value⟩ := values_incrementInplace (z := z) run
  have width : (values z bits).length = bits.length := List.length_map _
  rw [value]
  cases carry : carryWitness z vars with
  | true =>
    rw [cond_true, Bits.toNat_increment, width]
    exact iff_of_true rfl rfl
  | false =>
    have below : Bits.toNat (values z bits) < 2 ^ bits.length := width ▸ Bits.toNat_lt _
    rw [cond_false]
    exact iff_of_false (next_ne (List.length_pos_of_ne_nil nonempty) below) Bool.false_ne_true

/-- The bits after the increment, and the timestamps that the RAM prover checks: both move on
exactly under an assignment that sets the carry. -/
theorem increment_iff_carry {bits t : List (Wire F D .bool)} {vars : List (Variable F D)}
    {e : Emission F D} (run : incrementInplace bits vars = .ok (t, e)) (_satisfied : e.Satisfied z) :
    (values z t = Unsigned32.incrementLoop true (values z bits) ∧
        Bits.toNat (values z t) = (Bits.toNat (values z bits) + 1) % 2 ^ bits.length ↔
      carryWitness z vars = true) ∧
    ∀ (current next : RamTranscriptEntryVar F D) (vars' : List (Variable F D))
      (e' : Emission F D), ramTimeCheck (.ram current) (.ram next) vars' = .ok ((), e') →
      e'.Satisfied z → ((next.i.value z).representation =
        ((current.i.value z).representation + 1) % 2 ^ 32 ↔ carryWitness z vars' = true) := by
  constructor
  · rw [← toNat_increment_iff run]
    constructor
    · exact And.right
    · intro number
      have carry := (toNat_increment_iff run).mp number
      have value := (values_incrementInplace (z := z) run).2
      rw [carry, cond_true] at value
      exact ⟨value.trans (Unsigned32.incrementLoop_true _).symm, number⟩
  · intro current next vars' e' run' satisfied'
    obtain ⟨ticked, e₁, _, e₂, first, rest, same⟩ := Synth.bind_eq_ok.mp run'
    cases same
    obtain ⟨_, later⟩ := Emission.satisfied_append.mp satisfied'
    have width : ticked.length = next.i.bits.length := by
      have forced := incrementInplace_forces (z := z) current.i _ _ _ first
        (Emission.satisfied_append.mp satisfied').1
      rw [forced.1, next.i.width]
    have equal := enforceEqual_forces width _ _ _ rest later
    have number := toNat_increment_iff (z := z) first
    rw [equal, current.i.width] at number
    rw [Unsigned32.representation_eq, Unsigned32.representation_eq]
    exact number

end Increment

/-- One bit, which is zero. -/
def zeroBit : List (Variable (ZMod 3) Unit) := [⟨.witness, .bool, false⟩]

/-- The carry is the second Boolean variable. -/
def withCarry (carry : Bool) : Assignment (ZMod 3) Unit
  | .bool, 1 => carry
  | .bool, _ => false
  | .field, _ => 0
  | .digest, _ => ()
  | .fields, _ => []

theorem zeroBit_increments : ∃ t e, incrementInplace [.var .bool 0] zeroBit = .ok (t, e) ∧
    values (withCarry true) t = [true] := by
  have run : incrementInplace [.var .bool 0] zeroBit = .ok (_, _) := rfl
  obtain ⟨both, _⟩ := increment_iff_carry (z := withCarry true) run (by decide)
  exact ⟨_, _, run, (both.mpr rfl).1⟩

/-- All constraints hold, and the bit is the old one. -/
theorem zeroBit_stands : ∃ t e, incrementInplace [.var .bool 0] zeroBit = .ok (t, e) ∧
    e.Satisfied (withCarry false) ∧ values (withCarry false) t = [false] ∧
    Unsigned32.incrementLoop true (values (withCarry false) [.var .bool 0]) = [true] :=
  ⟨_, _, rfl, by decide, by decide, by decide⟩

end ClockIncrement
