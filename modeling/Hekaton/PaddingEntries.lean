import Hekaton.SubcircuitCircuit
import Mathlib

/-!
# The padding test

The test of an entry variable answers with its last check alone: the address for ROM, the
read flag for RAM. It recognises the padding entry exactly on the entries where that check
decides the other fields, and so do the checks of the first subcircuit's incoming leaf.
-/

namespace PaddingEntries

open Outcomes Wires Synthesis Contracts Uint32 Transcript EvalTree SubcircuitCircuit

section Facts
variable {F D : Type} [Field F] [DecidableEq F] [DecidableEq D] {m : MemType}
variable {z : Assignment F D}

/-- The field that is looked at is not zero, or all fields are. -/
def Recognised : Entry F F m → Prop
  | .rom e => e.addr = 0 → e.val = 0
  | .ram e => e.read = false → e.addr = 0 ∧ e.val = 0 ∧ e.i.representation = 0

omit [DecidableEq F] [DecidableEq D] in
/-- The padding entry is the one whose fields are all zero. -/
theorem eq_padding_iff (e : Entry F F m) : e = Entry.padding m ↔
    e.addr = 0 ∧ e.value = 0 ∧ match e with
      | .rom _ => True
      | .ram e => e.i.representation = 0 ∧ e.read = false := by
  cases e with
  | rom e =>
    obtain ⟨addr, val⟩ := e
    simp [Entry.padding, Entry.addr, Entry.value]
  | ram e =>
    obtain ⟨addr, val, i, read⟩ := e
    have clock : i = Unsigned32.default ↔ i.representation = 0 := by
      constructor
      · rintro rfl
        exact Unsigned32.representation_default
      · intro zero
        exact Unsigned32.representation_injective (zero.trans Unsigned32.representation_default.symm)
    simp [Entry.padding, Entry.addr, Entry.value, clock]

omit [DecidableEq D] in
/-- The answer is right exactly on the entries that the last check decides. -/
theorem checkedAsPadding_iff (e : Entry F F m) :
    (checkedAsPadding e = true ↔ e = Entry.padding m) ↔ Recognised e := by
  rw [eq_padding_iff]
  cases e with
  | rom e =>
    simp only [checkedAsPadding, decide_eq_true_iff, Recognised, Entry.addr, Entry.value, and_true]
    constructor
    · exact fun same zero => (same.mp zero).2
    · exact fun decides => ⟨fun zero => ⟨zero, decides zero⟩, And.left⟩
  | ram e =>
    simp only [checkedAsPadding, decide_eq_true_iff, Recognised, Entry.addr, Entry.value]
    constructor
    · intro same written
      obtain ⟨addr, val, clock, _⟩ := same.mp written
      exact ⟨addr, val, clock⟩
    · intro decides
      constructor
      · intro written
        obtain ⟨addr, val, clock⟩ := decides written
        exact ⟨addr, val, clock, written⟩
      · exact fun all => all.2.2.2

/-- With both evaluations one, the first subcircuit's checks say what the test answers. -/
theorem firstLeafChecks_forces_iff {p : SubcircuitWithPortalsProver F D m}
    {curLeaf : ExecTreeLeafVar F D m} (first : p.subcircuitIdx = 0)
    (time : (curLeaf.value z).timeEval = 1) (addr : (curLeaf.value z).addrEval = 1) {Q : Prop} :
    Forces z (p.firstLeafChecks curLeaf) (fun _ => Q) ↔
      (checkedAsPadding (curLeaf.lastSubtraceEntry.value z) = true → Q) := by
  obtain ⟨w, run, answer⟩ := isPadding_computes curLeaf.lastSubtraceEntry
  have one : (Constraint.enforceEqual curLeaf.evals.timeOrderedEval (.constant (1 : F))).Holds z := time
  have one' : (Constraint.enforceEqual curLeaf.evals.addrOrderedEval (.constant (1 : F))).Holds z :=
    addr
  rw [SubcircuitWithPortalsProver.firstLeafChecks, if_pos first]
  refine Forces.emit_bind_iff.trans ?_
  rw [forall_prop_of_true one]
  refine Forces.emit_bind_iff.trans ?_
  rw [forall_prop_of_true one', run.forces_bind_iff]
  refine Forces.emit_iff.trans ?_
  rw [← answer z]
  rfl

/-- The test recognises the padding entry, and the first subcircuit's checks admit no other,
exactly on the entries that the last check decides. -/
theorem isPadding_exact_iff (e : TranscriptEntryVar F D m) :
    (Forces z e.isPadding (fun w => (w.eval z = true ↔ e.value z = Entry.padding m)) ↔
      Recognised (e.value z)) ∧
    ∀ (p : SubcircuitWithPortalsProver F D m) (curLeaf : ExecTreeLeafVar F D m),
      p.subcircuitIdx = 0 → curLeaf.lastSubtraceEntry = e →
      (curLeaf.value z).timeEval = 1 → (curLeaf.value z).addrEval = 1 →
      (Forces z (p.firstLeafChecks curLeaf) (fun _ => e.value z = Entry.padding m) ↔
        Recognised (e.value z)) := by
  obtain ⟨w, run, answer⟩ := isPadding_computes e
  constructor
  · rw [run.forces_iff, answer z, checkedAsPadding_iff]
  · rintro p curLeaf first rfl time addr
    rw [firstLeafChecks_forces_iff first time addr, ← checkedAsPadding_iff]
    constructor
    · intro admits
      exact ⟨admits, fun padding => padding ▸ checkedAsPadding_padding⟩
    · exact Iff.mp

end Facts

/-- A ROM entry of address 0. -/
def zeroAddress (val : ZMod 3) : TranscriptEntryVar (ZMod 3) Unit .rom :=
  .rom ⟨.constant val, .constant (0 : ZMod 3)⟩

/-- A RAM entry of address 1 at time 0. -/
def firstAccess (read : Bool) : TranscriptEntryVar (ZMod 3) Unit .ram :=
  .ram ⟨.constant (1 : ZMod 3), .constant (1 : ZMod 3),
    ⟨List.replicate 32 (.constant false), List.length_replicate⟩, .constant read⟩

/-- The incoming leaf of the first subcircuit, with both evaluations one. -/
def firstLeaf {m : MemType} (e : TranscriptEntryVar (ZMod 3) Unit m) :
    ExecTreeLeafVar (ZMod 3) Unit m :=
  ⟨⟨.constant (1 : ZMod 3), .constant (1 : ZMod 3), none⟩, e⟩

/-- A read is not taken for padding. -/
theorem firstRead_recognised :
    Forces (assignmentOf []) (firstAccess true).isPadding
      (fun w => (w.eval (assignmentOf []) = true ↔
        (firstAccess true).value (assignmentOf []) = Entry.padding .ram)) ∧
    Forces (assignmentOf [])
      ((SubcircuitWithPortalsProver.new 2).firstLeafChecks (firstLeaf (firstAccess true)))
      (fun _ => (firstAccess true).value (assignmentOf []) = Entry.padding .ram) := by
  have recognised : Recognised ((firstAccess true).value (assignmentOf [])) := nofun
  obtain ⟨test, checks⟩ := isPadding_exact_iff (z := assignmentOf []) (firstAccess true)
  exact ⟨test.mpr recognised, (checks (.new 2) (firstLeaf _) rfl rfl rfl rfl).mpr recognised⟩

/-- A ROM entry with a value and a RAM write pass for padding. -/
theorem values_admitted :
    ¬ Forces (assignmentOf []) (zeroAddress 1).isPadding
      (fun w => (w.eval (assignmentOf []) = true ↔
        (zeroAddress 1).value (assignmentOf []) = Entry.padding .rom)) ∧
    ¬ Forces (assignmentOf [])
      ((SubcircuitWithPortalsProver.new 2).firstLeafChecks (firstLeaf (zeroAddress 1)))
      (fun _ => (zeroAddress 1).value (assignmentOf []) = Entry.padding .rom) ∧
    ¬ Forces (assignmentOf []) (firstAccess false).isPadding
      (fun w => (w.eval (assignmentOf []) = true ↔
        (firstAccess false).value (assignmentOf []) = Entry.padding .ram)) ∧
    ¬ Forces (assignmentOf [])
      ((SubcircuitWithPortalsProver.new 2).firstLeafChecks (firstLeaf (firstAccess false)))
      (fun _ => (firstAccess false).value (assignmentOf []) = Entry.padding .ram) := by
  have rom : (zeroAddress 1).value (assignmentOf []) ≠ Entry.padding .rom := by decide
  have ram : (firstAccess false).value (assignmentOf []) ≠ Entry.padding .ram := by decide
  refine ⟨fun forces => ?_, fun forces => ?_, fun forces => ?_, fun forces => ?_⟩
  · obtain ⟨w, run, answer⟩ := isPadding_computes (zeroAddress 1)
    exact rom ((run.forces_iff.mp forces).mp (answer _))
  · exact rom ((firstLeafChecks_forces_iff rfl rfl rfl).mp forces rfl)
  · obtain ⟨w, run, answer⟩ := isPadding_computes (firstAccess false)
    exact ram ((run.forces_iff.mp forces).mp (answer _))
  · exact ram ((firstLeafChecks_forces_iff rfl rfl rfl).mp forces rfl)

end PaddingEntries
