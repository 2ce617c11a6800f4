import Hekaton.Bits
import Hekaton.Contracts

/-!
# 32-bit clocks

The native clock and its in-circuit version, with the loops over their bits. The
loops take bit vectors of any width; a clock carries the proof that it has 32 bits.
-/

namespace Uint32

open Outcomes Wires Synthesis Contracts

@[ext]
structure Unsigned32 where
  bits : List Bool
  width : bits.length = 32
  deriving DecidableEq

structure Unsigned32Var (F D : Type) where
  bits : List (Wire F D .bool)
  width : bits.length = 32

namespace Unsigned32

def default : Unsigned32 := ⟨List.replicate 32 false, List.length_replicate⟩

/-- The loop of `increment_inplace`: stop at the first bit without a carry. -/
def incrementLoop (carry : Bool) : List Bool → List Bool
  | [] => []
  | b :: bits => if carry then (!b) :: incrementLoop b bits else b :: bits

theorem incrementLoop_false (bits : List Bool) : incrementLoop false bits = bits := by
  cases bits <;> rfl

theorem incrementLoop_true (bits : List Bool) :
    incrementLoop true bits = Bits.increment bits := by
  induction bits with
  | nil => rfl
  | cons b bits ih =>
    cases b with
    | false => exact congrArg (true :: ·) (incrementLoop_false bits)
    | true => exact congrArg (false :: ·) ih

def incrementInplace (u : Unsigned32) : Unsigned32 :=
  ⟨incrementLoop true u.bits, by rw [incrementLoop_true, Bits.length_increment, u.width]⟩

def representation (u : Unsigned32) : Nat :=
  u.bits.zipIdx.foldl (fun acc bit => if bit.1 then acc ||| (1 <<< bit.2) else acc) 0

def asFieldElem (F : Type) [Field F] (u : Unsigned32) : F :=
  u.bits.zipIdx.foldl (fun acc bit => if bit.1 then acc + ((1 <<< bit.2 : Nat) : F) else acc) 0

theorem representationLoop (bits : List Bool) (k acc : Nat) (below : acc < 2 ^ k) :
    (bits.zipIdx k).foldl (fun acc bit => if bit.1 then acc ||| (1 <<< bit.2) else acc) acc =
      acc + 2 ^ k * Bits.toNat bits := by
  induction bits generalizing k acc with
  | nil => simp
  | cons b bits ih =>
    have grow : 2 ^ k + 2 ^ k = 2 ^ (k + 1) := by rw [pow_succ, Nat.mul_two]
    rw [List.zipIdx_cons, List.foldl_cons, Bits.toNat_cons]
    cases b with
    | false =>
      have step := ih (k + 1) acc (by omega)
      simp only [Bool.false_eq_true, if_false, step, Bool.toNat_false, pow_succ]
      ring
    | true =>
      have disjoint : acc ||| (1 <<< k) = 2 ^ k + acc := by
        rw [Nat.one_shiftLeft, Nat.or_comm]
        simpa using (Nat.two_pow_add_eq_or_of_lt below 1).symm
      have step := ih (k + 1) (2 ^ k + acc) (by omega)
      simp only [if_true, disjoint, step, Bool.toNat_true, pow_succ]
      ring

theorem representation_eq (u : Unsigned32) : u.representation = Bits.toNat u.bits := by
  simpa [representation] using representationLoop u.bits 0 0 Nat.one_pos

theorem asFieldElemLoop {F : Type} [Field F] (bits : List Bool) (k : Nat) (acc : F) :
    (bits.zipIdx k).foldl
        (fun acc bit => if bit.1 then acc + ((1 <<< bit.2 : Nat) : F) else acc) acc =
      acc + 2 ^ k * (Bits.toNat bits : F) := by
  induction bits generalizing k acc with
  | nil => simp
  | cons b bits ih =>
    rw [List.zipIdx_cons, List.foldl_cons, Bits.toNat_cons, ih]
    cases b with
    | false => simp [pow_succ]; ring
    | true => simp [pow_succ, Nat.one_shiftLeft]; ring

theorem asFieldElem_eq {F : Type} [Field F] (u : Unsigned32) :
    u.asFieldElem F = (u.representation : F) := by
  rw [representation_eq]
  simpa [asFieldElem] using asFieldElemLoop u.bits 0 (0 : F)

theorem representation_lt (u : Unsigned32) : u.representation < 2 ^ 32 := by
  rw [representation_eq, ← u.width]
  exact Bits.toNat_lt u.bits

theorem representation_injective : Function.Injective representation := by
  rintro ⟨bits, width⟩ ⟨bits', width'⟩ h
  rw [representation_eq, representation_eq] at h
  have same := Bits.toNat_injective (width.trans width'.symm) h
  subst same
  rfl

/-- The clock wraps at 2^32. -/
theorem representation_increment (u : Unsigned32) :
    u.incrementInplace.representation = (u.representation + 1) % 2 ^ 32 := by
  have flipped : u.incrementInplace.bits = Bits.increment u.bits := incrementLoop_true u.bits
  rw [representation_eq, representation_eq, flipped, Bits.toNat_increment, u.width]

@[simp] theorem representation_default : default.representation = 0 := by decide

end Unsigned32

section Gadgets
variable {F D : Type}

/-- Allocate the bits one after the other. -/
def newBits (mode : AllocationMode) :
    (bits : List Bool) → Synth F D { ws : List (Wire F D .bool) // ws.length = bits.length }
  | [] => pure ⟨[], rfl⟩
  | b :: bits => do
      let w ← Synth.newVariable mode .bool b
      let ws ← newBits mode bits
      pure ⟨w :: ws.1, congrArg Nat.succ ws.2⟩

def Unsigned32Var.newVariable (mode : AllocationMode) (u : Unsigned32) :
    Synth F D (Unsigned32Var F D) := do
  let ws ← newBits mode u.bits
  pure ⟨ws.1, ws.2.trans u.width⟩

/-- The loop of the in-circuit `increment_inplace`. -/
def incrementLoop (carry : Wire F D .bool) :
    List (Wire F D .bool) → Synth F D (List (Wire F D .bool))
  | [] => pure []
  | b :: bits => do
      let flipped ← Synth.conditionallySelect carry (.not b) b
      let carry ← Synth.conditionallySelect b carry (.constant false)
      let rest ← incrementLoop carry bits
      pure (flipped :: rest)

/-- The first carry is a fresh witness; `cs()` reads the first bit. -/
def incrementInplace : List (Wire F D .bool) → Synth F D (List (Wire F D .bool))
  | [] => Synth.lift (panicWith "index out of bounds")
  | b :: bits => do
      let carry ← Synth.newWitness .bool true
      incrementLoop carry (b :: bits)

/-- The loop of `is_greater_than`, most significant pair first. -/
def isGreaterThanLoop (greater foundDifference : Wire F D .bool) :
    List (Wire F D .bool × Wire F D .bool) → Synth F D (Wire F D .bool)
  | [] => pure greater
  | (a, b) :: rest => do
      let aGreaterB ← Synth.and a (.not b)
      let difference ← Synth.xor a b
      let foundANewDifference ← Synth.and (.not foundDifference) difference
      let greater ← Synth.conditionallySelect foundANewDifference aGreaterB greater
      let foundDifference ← Synth.or foundDifference foundANewDifference
      isGreaterThanLoop greater foundDifference rest

def isGreaterThan (bits other : List (Wire F D .bool)) : Synth F D (Wire F D .bool) :=
  isGreaterThanLoop (.constant false) (.constant false) (bits.reverse.zip other.reverse)

def enforceEqual : List (Wire F D .bool) → List (Wire F D .bool) → Synth F D Unit
  | [], _ => pure ()
  | _ :: _, [] => Synth.lift (panicWith "index out of bounds")
  | a :: bits, b :: other => do
      Synth.enforceEqual a b
      enforceEqual bits other

/-- `Boolean::le_bits_to_fp_var`: the linear combination of the bits. -/
def leBitsToFpVar [Field F] (coefficient : F) : List (Wire F D .bool) → Wire F D .field
  | [] => .constant (0 : F)
  | b :: bits =>
      .add (.mul (.constant coefficient) (.ofBool b))
        (leBitsToFpVar (coefficient + coefficient) bits)

def Unsigned32Var.toFpvar [Field F] (v : Unsigned32Var F D) : Wire F D .field :=
  leBitsToFpVar 1 v.bits

end Gadgets

section Values
variable {F D : Type} [Field F] [DecidableEq F] [DecidableEq D] {z : Assignment F D}

def values (z : Assignment F D) (bits : List (Wire F D .bool)) : List Bool :=
  bits.map fun b => b.eval z

def Unsigned32Var.value (z : Assignment F D) (v : Unsigned32Var F D) : Unsigned32 :=
  ⟨values z v.bits, by rw [values, List.length_map, v.width]⟩

theorem newBits_admits (mode : AllocationMode) (bits : List Bool) :
    Admits z (newBits mode bits) (fun ws => values z ws.1 = bits) := by
  induction bits with
  | nil => exact .pure rfl
  | cons b bits ih =>
    refine .newVariable_bind fun w hw => ih.bind fun ws hws => .pure ?_
    exact congrArg₂ List.cons hw hws

theorem newVariable_admits (mode : AllocationMode) (u : Unsigned32) :
    Admits z (Unsigned32Var.newVariable mode u) (fun v => v.value z = u) := by
  refine (newBits_admits mode u.bits).bind fun ws hws => .pure ?_
  exact Unsigned32.ext hws

omit [Field F] [DecidableEq F] [DecidableEq D] in
theorem newBits_parallel {mode : AllocationMode} {bits bits' : List Bool}
    (width : bits.length = bits'.length) :
    Parallel (newBits (F := F) (D := D) mode bits) (newBits mode bits')
      (fun ws ws' => ws.1 = ws'.1) := by
  induction bits generalizing bits' with
  | nil =>
    cases List.eq_nil_of_length_eq_zero width.symm
    exact .pure rfl
  | cons b bits ih =>
    obtain _ | ⟨b', bits'⟩ := bits'
    · cases width
    · refine .bind_eq .newVariable fun w => ?_
      refine (ih (Nat.succ.inj width)).bind fun ws ws' hws => .pure ?_
      exact congrArg (w :: ·) hws

omit [Field F] [DecidableEq F] [DecidableEq D] in
theorem newVariable_parallel {mode : AllocationMode} {u u' : Unsigned32} :
    Parallel (Unsigned32Var.newVariable (F := F) (D := D) mode u)
      (Unsigned32Var.newVariable mode u') (· = ·) := by
  refine (newBits_parallel (u.width.trans u'.width.symm)).bind fun ws ws' hws => .pure ?_
  simp only [hws]

omit [DecidableEq F] [DecidableEq D] in
theorem leBitsToFpVar_eval [DecidableEq F] [DecidableEq D] (coefficient : F)
    (bits : List (Wire F D .bool)) :
    ((leBitsToFpVar coefficient bits).eval z : F) =
      coefficient * (Bits.toNat (values z bits) : F) := by
  induction bits generalizing coefficient with
  | nil => simp [leBitsToFpVar, Wire.eval, values]
  | cons b bits ih =>
    have step := ih (coefficient + coefficient)
    simp only [leBitsToFpVar, Wire.eval, step, values, List.map_cons, Bits.toNat_cons,
      Nat.cast_add, Nat.cast_mul]
    cases Wire.eval z b <;> simp <;> ring

theorem toFpvar_eval (v : Unsigned32Var F D) :
    (v.toFpvar.eval z : F) = ((v.value z).representation : F) := by
  rw [Unsigned32Var.toFpvar, leBitsToFpVar_eval, one_mul, Unsigned32.representation_eq]
  rfl

/-- The loop adds the carry, whatever value the carry witness was given. -/
theorem incrementLoop_computes (carry : Wire F D .bool) (bits : List (Wire F D .bool)) :
    ∃ ws, Computes (incrementLoop carry bits) ws ∧ ws.length = bits.length ∧
      ∀ z : Assignment F D,
        values z ws = bif carry.eval z then Bits.increment (values z bits) else values z bits := by
  induction bits generalizing carry with
  | nil => exact ⟨[], .pure _, rfl, fun z => by cases Wire.eval z carry <;> rfl⟩
  | cons b bits ih =>
    obtain ⟨ws, run, width, hws⟩ := ih (.select b carry (.constant false))
    refine ⟨.select carry (.not b) b :: ws, ?_, congrArg Nat.succ width, fun z => ?_⟩
    · exact .bind (.define _) (.bind (.define _) (.bind run (.pure _)))
    · have tail := hws z
      simp only [values, List.map_cons, Wire.eval] at tail ⊢
      rw [tail]
      cases Wire.eval z carry <;> cases Wire.eval z b <;> rfl

theorem isGreaterThanLoop_computes (greater found : Wire F D .bool)
    (pairs : List (Wire F D .bool × Wire F D .bool)) :
    ∃ w, Computes (isGreaterThanLoop greater found pairs) w ∧ ∀ z : Assignment F D,
      w.eval z = Bits.greaterFrom (greater.eval z) (found.eval z)
        (pairs.map fun p => (p.1.eval z, p.2.eval z)) := by
  induction pairs generalizing greater found with
  | nil => exact ⟨greater, .pure _, fun _ => rfl⟩
  | cons p pairs ih =>
    obtain ⟨a, b⟩ := p
    let difference : Wire F D .bool := .and (.not found) (.xor a b)
    obtain ⟨w, run, hw⟩ := ih (.select difference (.and a (.not b)) greater)
      (.or found difference)
    refine ⟨w, ?_, hw⟩
    exact .bind (.define _) (.bind (.define _) (.bind (.define _)
      (.bind (.define _) (.bind (.define _) run))))

/-- At one width the gadget computes the comparison of the two numbers. -/
theorem isGreaterThan_computes {bits other : List (Wire F D .bool)}
    (width : bits.length = other.length) :
    ∃ w, Computes (isGreaterThan bits other) w ∧ ∀ z : Assignment F D,
      w.eval z = decide (Bits.toNat (values z other) < Bits.toNat (values z bits)) := by
  obtain ⟨w, run, hw⟩ := isGreaterThanLoop_computes (.constant false)
    (.constant false) (bits.reverse.zip other.reverse)
  refine ⟨w, run, fun z => ?_⟩
  have same : (values z bits.reverse).length = (values z other.reverse).length := by
    simp only [values, List.length_map, List.length_reverse, width]
  have pairs : (bits.reverse.zip other.reverse).map (fun p => (p.1.eval z, p.2.eval z)) =
      (values z bits.reverse).zip (values z other.reverse) := by
    rw [values, values, List.zip_map]
    rfl
  have reversed : ∀ ws : List (Wire F D .bool), (values z ws.reverse).reverse = values z ws := by
    intro ws
    rw [values, List.map_reverse, List.reverse_reverse, values]
  have compare := Bits.greaterFrom_eq same
  rw [reversed, reversed] at compare
  rw [hw z, pairs]
  exact compare

theorem enforceEqual_forces {bits other : List (Wire F D .bool)}
    (width : bits.length = other.length) :
    Forces z (enforceEqual bits other) (fun _ => values z bits = values z other) := by
  induction bits generalizing other with
  | nil =>
    cases List.eq_nil_of_length_eq_zero width.symm
    exact .pure rfl
  | cons a bits ih =>
    obtain _ | ⟨b, other⟩ := other
    · cases width
    · refine .emit_bind fun hab => (ih (Nat.succ.inj width)).mono fun _ htail => ?_
      exact congrArg₂ List.cons hab htail

theorem enforceEqual_admits {bits other : List (Wire F D .bool)}
    (same : values z bits = values z other) :
    Admits z (enforceEqual bits other) (fun _ => True) := by
  induction bits generalizing other with
  | nil => exact .pure trivial
  | cons a bits ih =>
    obtain _ | ⟨b, other⟩ := other
    · cases same
    · obtain ⟨head, tail⟩ := List.cons.inj same
      exact .emit_bind head (ih tail)

omit [Field F] [DecidableEq F] [DecidableEq D] in
theorem enforceEqual_parallel {bits other : List (Wire F D .bool)}
    (width : bits.length = other.length) :
    Parallel (enforceEqual bits other) (enforceEqual bits other) (fun _ _ => True) := by
  induction bits generalizing other with
  | nil => exact .pure trivial
  | cons a bits ih =>
    obtain _ | ⟨b, other⟩ := other
    · cases width
    · exact .bind_eq (.emit _) fun _ => ih (Nat.succ.inj width)

/-- The incremented clock is the old one, or the next, as its carry witness says. -/
theorem incrementInplace_forces (v : Unsigned32Var F D) :
    Forces z (incrementInplace v.bits) (fun t => t.length = 32 ∧
      (values z t = values z v.bits ∨ values z t = Bits.increment (values z v.bits))) := by
  obtain ⟨bits, width⟩ := v
  obtain _ | ⟨b, bits⟩ := bits
  · cases width
  · refine .newVariable_bind fun carry => ?_
    obtain ⟨_, run, size, ht⟩ := incrementLoop_computes (F := F) (D := D) carry (b :: bits)
    refine run.forces.mono ?_
    rintro t rfl
    refine ⟨size.trans width, ?_⟩
    have tick := ht z
    cases hc : Wire.eval z carry with
    | false => exact Or.inl (by rw [tick, hc, cond_false])
    | true => exact Or.inr (by rw [tick, hc, cond_true])

theorem incrementInplace_admits (v : Unsigned32Var F D) :
    Admits z (incrementInplace v.bits)
      (fun t => values z t = Bits.increment (values z v.bits)) := by
  obtain ⟨bits, width⟩ := v
  obtain _ | ⟨b, bits⟩ := bits
  · cases width
  · refine .newVariable_bind fun carry hc => ?_
    obtain ⟨_, run, _, ht⟩ := incrementLoop_computes (F := F) (D := D) carry (b :: bits)
    refine run.admits.mono ?_
    rintro t rfl
    rw [ht z, hc, cond_true]

theorem incrementInplace_parallel (v : Unsigned32Var F D) :
    Parallel (incrementInplace v.bits) (incrementInplace v.bits)
      (fun t t' => t = t' ∧ t.length = 32) := by
  obtain ⟨bits, width⟩ := v
  obtain _ | ⟨b, bits⟩ := bits
  · cases width
  · refine .bind_eq .newVariable fun carry => ?_
    obtain ⟨t, run, size, _⟩ := incrementLoop_computes (F := F) (D := D) carry (b :: bits)
    exact run.parallel.mono fun x y h => ⟨h.1.trans h.2.symm, h.1 ▸ size.trans width⟩

theorem value_increment (v : Unsigned32Var F D) :
    Bits.increment (values z v.bits) = (v.value z).incrementInplace.bits :=
  (Unsigned32.incrementLoop_true _).symm

end Values
end Uint32
