import Hekaton.Uint32
import Mathlib.Algebra.BigOperators.Group.List.Basic

/-!
# Transcript entries and running evaluations

A ROM entry is `(addr, val)`; a RAM entry adds a timestamp and a read flag. Entries
are indexed by the memory type, so a trace cannot mix the two kinds. Running
evaluations multiply one factor `tr_chal - repr(entry)` for each entry, natively and
in-circuit. An address is a 64-bit number natively and a field element once assigned.
-/

namespace Transcript

open Outcomes Wires Synthesis Contracts Uint32

inductive MemType where
  | ram
  | rom
  deriving DecidableEq

structure RomEntry (A F : Type) where
  addr : A
  val : F
  deriving DecidableEq

structure RamEntry (A F : Type) where
  addr : A
  val : F
  i : Unsigned32
  read : Bool
  deriving DecidableEq

/-- An entry with addresses in `A`. -/
inductive Entry (A F : Type) : MemType → Type where
  | rom (e : RomEntry A F) : Entry A F .rom
  | ram (e : RamEntry A F) : Entry A F .ram
  deriving DecidableEq

abbrev TranscriptEntry (F : Type) (m : MemType) := Entry Nat F m

structure RomTranscriptEntryVar (F D : Type) where
  val : Wire F D .field
  addr : Wire F D .field

structure RamTranscriptEntryVar (F D : Type) where
  val : Wire F D .field
  addr : Wire F D .field
  i : Unsigned32Var F D
  read : Wire F D .bool

inductive TranscriptEntryVar (F D : Type) : MemType → Type where
  | rom (e : RomTranscriptEntryVar F D) : TranscriptEntryVar F D .rom
  | ram (e : RamTranscriptEntryVar F D) : TranscriptEntryVar F D .ram

/-- `(entry_chal, tr_chal)` for ROM; three entry challenges and `tr_chal` for RAM. -/
inductive Challenges (T : Type) : MemType → Type where
  | rom (entryChal trChal : T) : Challenges T .rom
  | ram (entryChal₁ entryChal₂ entryChal₃ trChal : T) : Challenges T .ram

structure RunningEvaluation (F : Type) (m : MemType) where
  timeOrderedEval : F
  addrOrderedEval : F
  challenges : Option (Challenges F m)

structure RunningEvaluationVar (F D : Type) (m : MemType) where
  timeOrderedEval : Wire F D .field
  addrOrderedEval : Wire F D .field
  challenges : Option (Challenges (Wire F D .field) m)

namespace Entry
variable {A F : Type} {m : MemType}

def addr : Entry A F m → A
  | rom e => e.addr
  | ram e => e.addr

def value : Entry A F m → F
  | rom e => e.val
  | ram e => e.val

def timestamp : Entry A F m → Nat
  | rom _ => 0
  | ram e => e.i.representation

/-- All fields are zero; this pads the head of the address-ordered trace. -/
def padding [Zero A] [Zero F] : (m : MemType) → Entry A F m
  | .rom => rom ⟨0, 0⟩
  | .ram => ram ⟨0, 0, Unsigned32.default, false⟩

variable [Field F]

/-- The entry with its address taken into the field. -/
def assigned : TranscriptEntry F m → Entry F F m
  | rom e => rom ⟨(e.addr : F), e.val⟩
  | ram e => ram ⟨(e.addr : F), e.val, e.i, e.read⟩

def fields : Entry F F m → List F
  | rom e => [e.addr, e.val]
  | ram e => [e.addr, e.val, (e.i.representation : F), if e.read then 1 else 0]

def toFieldElements : TranscriptEntry F m → List F
  | rom e => [(e.addr : F), e.val]
  | ram e => [(e.addr : F), e.val, e.i.asFieldElem F, if e.read then 1 else 0]

theorem toFieldElements_eq (e : TranscriptEntry F m) : e.toFieldElements = e.assigned.fields := by
  cases e with
  | rom e => rfl
  | ram e => simp only [toFieldElements, assigned, fields, Unsigned32.asFieldElem_eq]

@[simp] theorem assigned_padding : (padding m : TranscriptEntry F m).assigned = padding m := by
  cases m <;> simp [padding, assigned]

end Entry

namespace Challenges
variable {T F : Type} [Field F] {m : MemType}

def toList : Challenges T m → List T
  | rom a b => [a, b]
  | ram a b c d => [a, b, c, d]

/-- The number of challenges of a memory type. -/
def count : MemType → Nat
  | .rom => 2
  | .ram => 4

@[simp] theorem length_toList (c : Challenges T m) : c.toList.length = count m := by
  cases c <;> rfl

def map {S : Type} (f : T → S) : Challenges T m → Challenges S m
  | rom a b => rom (f a) (f b)
  | ram a b c d => ram (f a) (f b) (f c) (f d)

@[simp] theorem toList_map {S : Type} (f : T → S) (c : Challenges T m) :
    (c.map f).toList = c.toList.map f := by
  cases c <;> rfl

/-- `set_challenges` checks the number of challenges it is given. -/
def ofList : (m : MemType) → List T → Outcome (Challenges T m)
  | .rom, [a, b] => .ok (rom a b)
  | .ram, [a, b, c, d] => .ok (ram a b c d)
  | _, _ => panicWith "assertion failed: challenges.len()"

@[simp] theorem ofList_toList (c : Challenges T m) : ofList m c.toList = .ok c := by
  cases c <;> rfl

theorem toList_of_ofList {l : List T} {c : Challenges T m} (h : ofList m l = .ok c) :
    l = c.toList := by
  cases m with
  | rom =>
    rcases l with _ | ⟨a, _ | ⟨b, _ | ⟨x, l⟩⟩⟩ <;> cases h
    rfl
  | ram =>
    rcases l with _ | ⟨a, _ | ⟨b, _ | ⟨x, _ | ⟨y, _ | ⟨w, l⟩⟩⟩⟩⟩ <;> cases h
    rfl

/-- The factor `tr_chal - repr(entry)` an entry multiplies into an evaluation. -/
def factor : Challenges F m → Entry F F m → F
  | rom entryChal trChal, .rom e => trChal - (e.val + entryChal * e.addr)
  | ram entryChal₁ entryChal₂ entryChal₃ trChal, .ram e =>
      trChal - (e.val + entryChal₁ * e.addr + entryChal₂ * (e.i.representation : F) +
        entryChal₃ * if e.read then 1 else 0)

end Challenges

namespace RunningEvaluation
variable {F : Type} [Field F] {m : MemType}

/-- The challenges are hashes of the trace commitment under one label each. -/
def new (hash : String → F) : (m : MemType) → RunningEvaluation F m
  | .rom => ⟨1, 1, some (.rom (hash "entry_chal") (hash "tr_chal"))⟩
  | .ram => ⟨1, 1, some (.ram (hash "entry_chal_1") (hash "entry_chal_2") (hash "entry_chal_3")
      (hash "tr_chal"))⟩

def default (F : Type) [Field F] (m : MemType) : RunningEvaluation F m := ⟨1, 1, none⟩

def unsetChallenges : String :=
  "RunningEvals.challenges needs to be set in order to run update"

def updateTimeOrdered (evals : RunningEvaluation F m) (entry : TranscriptEntry F m) :
    Outcome (RunningEvaluation F m) := do
  let chals ← expect unsetChallenges evals.challenges
  .ok { evals with timeOrderedEval := evals.timeOrderedEval * chals.factor entry.assigned }

def updateAddrOrdered (evals : RunningEvaluation F m) (entry : TranscriptEntry F m) :
    Outcome (RunningEvaluation F m) := do
  let chals ← expect unsetChallenges evals.challenges
  .ok { evals with addrOrderedEval := evals.addrOrderedEval * chals.factor entry.assigned }

def copyChallengesFrom (evals other : RunningEvaluation F m) : RunningEvaluation F m :=
  { evals with challenges := other.challenges }

def challengeList (evals : RunningEvaluation F m) : Outcome (List F) := do
  let chals ← expect unwrapNone evals.challenges
  .ok chals.toList

end RunningEvaluation

section Gadgets
variable {F D : Type} [Field F] {m : MemType}

def RomTranscriptEntryVar.newVariable (mode : AllocationMode) (e : RomEntry Nat F) :
    Synth F D (RomTranscriptEntryVar F D) := do
  let val ← Synth.newVariable mode .field e.val
  let addr ← Synth.newVariable mode .field (e.addr : F)
  pure ⟨val, addr⟩

def RamTranscriptEntryVar.newVariable (mode : AllocationMode) (e : RamEntry Nat F) :
    Synth F D (RamTranscriptEntryVar F D) := do
  let val ← Synth.newVariable mode .field e.val
  let addr ← Synth.newVariable mode .field (e.addr : F)
  let i ← Unsigned32Var.newVariable mode e.i
  let read ← Synth.newVariable mode .bool e.read
  pure ⟨val, addr, i, read⟩

def TranscriptEntryVar.newVariable (mode : AllocationMode) :
    TranscriptEntry F m → Synth F D (TranscriptEntryVar F D m)
  | .rom e => do pure (.rom (← RomTranscriptEntryVar.newVariable mode e))
  | .ram e => do pure (.ram (← RamTranscriptEntryVar.newVariable mode e))

/-- The two address checks, chained by `Result::and`: the second is the answer. -/
def RomTranscriptEntryVar.isPadding (e : RomTranscriptEntryVar F D) :
    Synth F D (Wire F D .bool) := do
  let _ ← Synth.isEq e.addr (.constant (0 : F))
  Synth.isEq e.addr (.constant (0 : F))

/-- Four checks chained by `Result::and`: the last, of the read flag, is the answer. -/
def RamTranscriptEntryVar.isPadding (e : RamTranscriptEntryVar F D) :
    Synth F D (Wire F D .bool) := do
  let _ ← Synth.isEq e.addr (.constant (0 : F))
  let _ ← Synth.isEq e.addr (.constant (0 : F))
  let _ ← Synth.isEq e.i.toFpvar (.constant (0 : F))
  Synth.isEq e.read (.constant false)

def TranscriptEntryVar.isPadding : TranscriptEntryVar F D m → Synth F D (Wire F D .bool)
  | .rom e => e.isPadding
  | .ram e => e.isPadding

def TranscriptEntryVar.val : TranscriptEntryVar F D m → Wire F D .field
  | .rom e => e.val
  | .ram e => e.val

def TranscriptEntryVar.toConstraintField : TranscriptEntryVar F D m → List (Wire F D .field)
  | .rom e => [e.addr, e.val]
  | .ram e => [e.addr, e.val, e.i.toFpvar, .ofBool e.read]

/-- The factor of an entry, with the rows of its products. -/
def factor : Challenges (Wire F D .field) m → TranscriptEntryVar F D m →
    Synth F D (Wire F D .field)
  | .rom entryChal trChal, .rom e => do
      let addrTerm ← Synth.mul entryChal e.addr
      pure (.sub trChal (.add e.val addrTerm))
  | .ram entryChal₁ entryChal₂ entryChal₃ trChal, .ram e => do
      let addrTerm ← Synth.mul entryChal₁ e.addr
      let timeTerm ← Synth.mul entryChal₂ e.i.toFpvar
      let readTerm ← Synth.mul entryChal₃ (.ofBool e.read)
      pure (.sub trChal (.add (.add (.add e.val addrTerm) timeTerm) readTerm))

namespace RunningEvaluationVar

/-- The challenges are not allocated here; `set_challenges` gives them later. -/
def newVariable (mode : AllocationMode) (evals : RunningEvaluation F m) :
    Synth F D (RunningEvaluationVar F D m) := do
  let time ← Synth.newVariable mode .field evals.timeOrderedEval
  let addr ← Synth.newVariable mode .field evals.addrOrderedEval
  pure ⟨time, addr, none⟩

def setChallenges (evals : RunningEvaluationVar F D m) (challenges : List (Wire F D .field)) :
    Outcome (RunningEvaluationVar F D m) := do
  let chals ← Challenges.ofList m challenges
  .ok { evals with challenges := some chals }

def unsetChallenges : String :=
  "RunningEvalsVar.challenges needs to be set in order to run update"

def updateTimeOrdered (evals : RunningEvaluationVar F D m) (entry : TranscriptEntryVar F D m) :
    Synth F D (RunningEvaluationVar F D m) := do
  let chals ← Synth.lift (expect unsetChallenges evals.challenges)
  let term ← factor chals entry
  let product ← Synth.mul evals.timeOrderedEval term
  pure { evals with timeOrderedEval := product }

def updateAddrOrdered (evals : RunningEvaluationVar F D m) (entry : TranscriptEntryVar F D m) :
    Synth F D (RunningEvaluationVar F D m) := do
  let chals ← Synth.lift (expect unsetChallenges evals.challenges)
  let term ← factor chals entry
  let product ← Synth.mul evals.addrOrderedEval term
  pure { evals with addrOrderedEval := product }

end RunningEvaluationVar
end Gadgets

section Values
variable {F D : Type} [Field F] [DecidableEq F] [DecidableEq D] {m : MemType}
variable {z : Assignment F D}

/-- The entry an assignment gives to allocated entry variables. -/
def TranscriptEntryVar.value (z : Assignment F D) : TranscriptEntryVar F D m → Entry F F m
  | .rom e => .rom ⟨e.addr.eval z, e.val.eval z⟩
  | .ram e => .ram ⟨e.addr.eval z, e.val.eval z, e.i.value z, e.read.eval z⟩

def Challenges.value (z : Assignment F D) (c : Challenges (Wire F D .field) m) :
    Challenges F m :=
  c.map fun w => w.eval z

theorem toConstraintField_value (e : TranscriptEntryVar F D m) :
    e.toConstraintField.map (fun w => (w.eval z : F)) = (e.value z).fields := by
  cases e with
  | rom e => rfl
  | ram e =>
    simp only [TranscriptEntryVar.toConstraintField, TranscriptEntryVar.value, Entry.fields,
      List.map_cons, List.map_nil, toFpvar_eval, Wire.eval]
    cases Wire.eval z e.read <;> rfl

theorem newVariable_admits (mode : AllocationMode) (e : TranscriptEntry F m) :
    Admits z (TranscriptEntryVar.newVariable mode e) (fun v => v.value z = e.assigned) := by
  cases e with
  | rom e =>
    refine Admits.bind (P := fun v => v.val.eval z = e.val ∧ v.addr.eval z = (e.addr : F)) ?_ ?_
    · exact .newVariable_bind fun val hval => .newVariable_bind fun addr haddr =>
        .pure ⟨hval, haddr⟩
    · rintro v ⟨hval, haddr⟩
      refine .pure ?_
      simp only [TranscriptEntryVar.value, Entry.assigned, hval, haddr]
  | ram e =>
    refine Admits.bind (P := fun v => v.val.eval z = e.val ∧ v.addr.eval z = (e.addr : F) ∧
      v.i.value z = e.i ∧ v.read.eval z = e.read) ?_ ?_
    · refine .newVariable_bind fun val hval => .newVariable_bind fun addr haddr => ?_
      refine (Uint32.newVariable_admits mode e.i).bind fun i hi => ?_
      exact .newVariable_bind fun read hread => .pure ⟨hval, haddr, hi, hread⟩
    · rintro v ⟨hval, haddr, hi, hread⟩
      refine .pure ?_
      simp only [TranscriptEntryVar.value, Entry.assigned, hval, haddr, hi, hread]

omit [DecidableEq F] [DecidableEq D] in
theorem newVariable_parallel {mode : AllocationMode} {e e' : TranscriptEntry F m} :
    Parallel (TranscriptEntryVar.newVariable (D := D) mode e)
      (TranscriptEntryVar.newVariable mode e') (· = ·) := by
  cases e with
  | rom e =>
    cases e' with
    | rom e' =>
      refine .bind_eq ?_ fun v => .pure rfl
      exact .bind_eq .newVariable fun val => .bind_eq .newVariable fun addr => .pure rfl
  | ram e =>
    cases e' with
    | ram e' =>
      refine .bind_eq ?_ fun v => .pure rfl
      refine .bind_eq .newVariable fun val => .bind_eq .newVariable fun addr => ?_
      refine .bind_eq Uint32.newVariable_parallel fun i => ?_
      exact .bind_eq .newVariable fun read => .pure rfl

/-- What `is_padding` answers: the address test for ROM, the flag test for RAM. -/
def checkedAsPadding : Entry F F m → Bool
  | .rom e => decide (e.addr = 0)
  | .ram e => decide (e.read = false)

theorem isPadding_computes (e : TranscriptEntryVar F D m) :
    ∃ w, Computes e.isPadding w ∧
      ∀ z : Assignment F D, w.eval z = checkedAsPadding (e.value z) := by
  cases e with
  | rom e => exact ⟨_, .bind (.define _) (.define _), fun z => rfl⟩
  | ram e =>
    exact ⟨_, .bind (.define _) (.bind (.define _) (.bind (.define _) (.define _))), fun z => rfl⟩

theorem checkedAsPadding_padding : checkedAsPadding (Entry.padding m : Entry F F m) = true := by
  cases m <;> simp [checkedAsPadding, Entry.padding]

theorem factor_computes (c : Challenges (Wire F D .field) m) (e : TranscriptEntryVar F D m) :
    ∃ w, Computes (factor c e) w ∧
      ∀ z : Assignment F D, (w.eval z : F) = (c.value z).factor (e.value z) := by
  cases e with
  | rom e =>
    cases c with
    | rom entryChal trChal => exact ⟨_, .bind (.define _) (.pure _), fun z => rfl⟩
  | ram e =>
    cases c with
    | ram c₁ c₂ c₃ trChal =>
      refine ⟨_, .bind (.define _) (.bind (.define _) (.bind (.define _) (.pure _))), fun z => ?_⟩
      simp only [Wire.eval, toFpvar_eval, Challenges.value, Challenges.map, Challenges.factor,
        TranscriptEntryVar.value]
      cases Wire.eval z e.read <;> rfl

/-- One update multiplies the time-ordered evaluation by the entry's factor. -/
theorem updateTimeOrdered_computes (evals : RunningEvaluationVar F D m)
    {c : Challenges (Wire F D .field) m} (set : evals.challenges = some c)
    (e : TranscriptEntryVar F D m) :
    ∃ w, Computes (evals.updateTimeOrdered e) { evals with timeOrderedEval := w } ∧
      ∀ z : Assignment F D, (w.eval z : F) =
        (evals.timeOrderedEval.eval z : F) * (c.value z).factor (e.value z) := by
  obtain ⟨w, run, hw⟩ := factor_computes c e
  refine ⟨.mul evals.timeOrderedEval w, ?_, fun z => ?_⟩
  · refine .bind (.lift (a := c) ?_) (.bind run (.bind (.define _) (.pure _)))
    rw [set, expect_some]
  · simp only [Wire.eval, hw]

/-- One update multiplies the address-ordered evaluation by the entry's factor. -/
theorem updateAddrOrdered_computes (evals : RunningEvaluationVar F D m)
    {c : Challenges (Wire F D .field) m} (set : evals.challenges = some c)
    (e : TranscriptEntryVar F D m) :
    ∃ w, Computes (evals.updateAddrOrdered e) { evals with addrOrderedEval := w } ∧
      ∀ z : Assignment F D, (w.eval z : F) =
        (evals.addrOrderedEval.eval z : F) * (c.value z).factor (e.value z) := by
  obtain ⟨w, run, hw⟩ := factor_computes c e
  refine ⟨.mul evals.addrOrderedEval w, ?_, fun z => ?_⟩
  · refine .bind (.lift (a := c) ?_) (.bind run (.bind (.define _) (.pure _)))
    rw [set, expect_some]
  · simp only [Wire.eval, hw]

end Values
end Transcript
