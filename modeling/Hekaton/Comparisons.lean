import Hekaton.HonestRuns
import Hekaton.PrimeOrders

/-!
# The comparison gadget

`is_cmp` of the constraint library compares two field variables. Where equal ones are to count
it increases the right one by one. It enforces that both are then at most half of the field,
or fails where a constant is not, and its result is whether the left integer is the smaller.
The circuits that compare take the gadget as a parameter.
-/

namespace Comparisons

open Wires Synthesis Contracts HonestRuns PrimeOrders

/-- `is_cmp` of field variables. -/
structure CmpGadget (F D : Type) where
  isCmp : Wire F D .field → Wire F D .field → Ordering → Bool → Synth F D (Wire F D .bool)

section Field
variable {F : Type} [Field F] [PrimeOrder F]

/-- At most `(p - 1) / 2`. -/
def InHalf (x : F) : Prop := PrimeOrder.intoBigint x ≤ (PrimeOrder.modulus F - 1) / 2

instance (x : F) : Decidable (InHalf x) := inferInstanceAs (Decidable (_ ≤ _))

/-- The operands as they are checked and compared: the smaller one is to be the first, and
the second is increased where equal ones are to count. -/
def processCmpInputs (ordering : Ordering) (alsoEqual : Bool) (x y : F) : F × F :=
  let (left, right) := match ordering with
    | .gt => (y, x)
    | _ => (x, y)
  (left, if alsoEqual then right + 1 else right)

/-- Both operands are in the lower half, once the right one is increased. -/
def CmpApplies (ordering : Ordering) (alsoEqual : Bool) (x y : F) : Prop :=
  InHalf (processCmpInputs ordering alsoEqual x y).1 ∧
  InHalf (processCmpInputs ordering alsoEqual x y).2

instance (ordering : Ordering) (alsoEqual : Bool) (x y : F) :
    Decidable (CmpApplies ordering alsoEqual x y) := inferInstanceAs (Decidable (_ ∧ _))

/-- The integer of the left operand is below that of the right one, as far as it is increased. -/
def compares (ordering : Ordering) (alsoEqual : Bool) (x y : F) : Bool :=
  lt (processCmpInputs ordering alsoEqual x y).1 (processCmpInputs ordering alsoEqual x y).2

end Field

variable {F D : Type} [Field F] [PrimeOrder F] [DecidableEq F] [Inhabited D] [DecidableEq D]

/-- On two valued variables the gadget runs, holds and compares where it applies. Elsewhere
it fails or its rows do not hold. -/
structure CmpGadget.Lawful (cmp : CmpGadget F D) : Prop where
  decides : ∀ (vars : List (Variable F D)) (a b : Wire F D .field) (x y : F)
    (ordering : Ordering) (alsoEqual : Bool), ordering ≠ .eq → Valued vars a x →
    Valued vars b y → CmpApplies ordering alsoEqual x y →
    Decides vars (cmp.isCmp a b ordering alsoEqual) True fun now w =>
      Valued now w (compares ordering alsoEqual x y)
  refuses : ∀ (vars : List (Variable F D)) (a b : Wire F D .field) (x y : F)
    (ordering : Ordering) (alsoEqual : Bool), ordering ≠ .eq → Valued vars a x →
    Valued vars b y → ¬ CmpApplies ordering alsoEqual x y →
    Refuses vars (cmp.isCmp a b ordering alsoEqual)

omit [PrimeOrder F] [DecidableEq F] [Inhabited D] [DecidableEq D] in
/-- The rows of the gadget do not depend on the values of its variables. -/
def CmpGadget.Uniform (cmp : CmpGadget F D) : Prop :=
  ∀ a b ordering alsoEqual,
    Parallel (cmp.isCmp a b ordering alsoEqual) (cmp.isCmp a b ordering alsoEqual) (· = ·)

/-- A wire that tells whether a field wire is in the lower half. -/
def inHalfWire (w : Wire F D .field) : Wire F D .bool :=
  .call (k := .field) (l := .bool) (fun x : F => decide (InHalf x)) w

def enforceInHalf (w : Wire F D .field) : Synth F D Unit :=
  Synth.enforceEqual (inHalfWire w) (.constant true)

/-- The wires of the operands. -/
def cmpWires (ordering : Ordering) (alsoEqual : Bool) (a b : Wire F D .field) :
    Wire F D .field × Wire F D .field :=
  let (left, right) := match ordering with
    | .gt => (b, a)
    | _ => (a, b)
  (left, if alsoEqual then .add right (.constant (1 : F)) else right)

def directCmp (F D : Type) [Field F] [PrimeOrder F] : CmpGadget F D where
  isCmp a b ordering alsoEqual := do
    enforceInHalf (cmpWires ordering alsoEqual a b).1
    enforceInHalf (cmpWires ordering alsoEqual a b).2
    Synth.define (.call₂ (k := .field) (l := .field) (m := .bool) lt
      (cmpWires ordering alsoEqual a b).1 (cmpWires ordering alsoEqual a b).2)

theorem enforceInHalf_decides {vars : List (Variable F D)} {w : Wire F D .field} {x : F}
    (hw : Valued vars w x) : Decides vars (enforceInHalf w) (InHalf x) fun _ _ => True := by
  have test : Valued vars (inHalfWire w) (decide (InHalf x)) := hw.call (l := .bool) _
  have true' : Valued vars (.constant (k := .bool) true : Wire F D .bool) true := .constant _
  exact (Decides.enforceEqual test true').congr (by rw [decide_eq_true_iff])

omit [PrimeOrder F] in
theorem cmpWires_valued {vars : List (Variable F D)} {a b : Wire F D .field} {x y : F}
    (ha : Valued vars a x) (hb : Valued vars b y) (ordering : Ordering) (alsoEqual : Bool) :
    Valued vars (cmpWires ordering alsoEqual a b).1 (processCmpInputs ordering alsoEqual x y).1 ∧
    Valued vars (cmpWires ordering alsoEqual a b).2 (processCmpInputs ordering alsoEqual x y).2 := by
  have more {w : Wire F D .field} {v : F} (hw : Valued vars w v) :
      Valued vars (.add w (.constant (1 : F))) (v + 1) := by
    intro rest
    rw [Wire.eval, hw rest]
    rfl
  cases ordering <;> cases alsoEqual
  · exact ⟨ha, hb⟩
  · exact ⟨ha, more hb⟩
  · exact ⟨ha, hb⟩
  · exact ⟨ha, more hb⟩
  · exact ⟨hb, ha⟩
  · exact ⟨hb, more ha⟩

theorem directCmp_decides {vars : List (Variable F D)} {a b : Wire F D .field} {x y : F}
    (ordering : Ordering) (alsoEqual : Bool) (ha : Valued vars a x) (hb : Valued vars b y) :
    Decides vars ((directCmp F D).isCmp a b ordering alsoEqual)
      (CmpApplies ordering alsoEqual x y) fun now w =>
        Valued now w (compares ordering alsoEqual x y) := by
  obtain ⟨left, right⟩ := cmpWires_valued ha hb ordering alsoEqual
  apply (enforceInHalf_decides left).bind
  intro more _ _
  have decided (more' : List (Variable F D)) : Decides (vars ++ more ++ more')
      (Synth.define (.call₂ (k := .field) (l := .field) (m := .bool) lt
        (cmpWires ordering alsoEqual a b).1 (cmpWires ordering alsoEqual a b).2)) True
      fun now w => Valued now w (compares ordering alsoEqual x y) := by
    apply (Decides.define _).mono
    rintro more'' w rfl
    exact (((left.mono more).mono more').mono more'').call₂
      (((right.mono more).mono more').mono more'') _
  have later := (enforceInHalf_decides (right.mono more)).bind
    (f := fun _ => Synth.define (.call₂ (k := .field) (l := .field) (m := .bool) lt
      (cmpWires ordering alsoEqual a b).1 (cmpWires ordering alsoEqual a b).2))
    fun more' _ _ => decided more'
  exact later.congr (by rw [and_true])

theorem directCmp_lawful : (directCmp F D).Lawful where
  decides _ _ _ _ _ ordering alsoEqual _ ha hb applies :=
    (directCmp_decides ordering alsoEqual ha hb).congr (iff_true_intro applies)
  refuses _ _ _ _ _ ordering alsoEqual _ ha hb fails :=
    (directCmp_decides ordering alsoEqual ha hb).refuses fails

end Comparisons
