import Hekaton.Contracts
import Hekaton.Scripts

/-!
# Honest runs

A step decides a condition when it runs, and its constraints hold under the values its
variables were given exactly when the condition does, whatever is allocated afterwards. A
wire is valued when it keeps its value under every later allocation. The setup managers are
determined by the values of the wires they are handed.
-/

namespace HonestRuns

open Outcomes Wires Synthesis Contracts Transcript PortalManager

instance {F D : Type} : LawfulMonad (Synth F D) := by
  refine LawfulMonad.mk' _ ?_ ?_ ?_
  · intro α m
    funext vars
    change Synth.bind m Synth.pure vars = m vars
    cases run : m vars with
    | error fault => simp [Synth.bind, run]
    | ok r => simp [Synth.bind, Synth.pure, run]
  · intro α β a f
    funext vars
    exact Synth.bind_of_ok_empty rfl
  · intro α β γ m f g
    funext vars
    change Synth.bind (Synth.bind m f) g vars = Synth.bind m (fun a => Synth.bind (f a) g) vars
    cases run : m vars with
    | error fault => simp [Synth.bind, run]
    | ok r =>
      cases run' : f r.1 (vars ++ r.2.allocations) with
      | error fault => simp [Synth.bind, run, run']
      | ok r' =>
        cases run'' : g r'.1 (vars ++ r.2.allocations ++ r'.2.allocations) with
        | error fault => simp [Synth.bind, run, run', ← List.append_assoc, run'']
        | ok r'' =>
          simp [Synth.bind, run, run', ← List.append_assoc, run'', Emission.append_assoc]

variable {F D α β : Type} [Field F] [DecidableEq F] [Inhabited D] [DecidableEq D]

/-- The wire keeps this value, whatever is allocated later. -/
def Valued (vars : List (Variable F D)) {k : Kind} (w : Wire F D k) (v : k.Val F D) : Prop :=
  ∀ more, w.eval (assignmentOf (vars ++ more)) = v

/-- The step runs, what it adds is satisfied exactly under the condition, and its result is
as said. -/
def Decides (vars : List (Variable F D)) (m : Synth F D α) (P : Prop)
    (Q : List (Variable F D) → α → Prop) : Prop :=
  ∃ a e, m vars = .ok (a, e) ∧
    (∀ more, e.Satisfied (assignmentOf (vars ++ e.allocations ++ more)) ↔ P) ∧
    Q (vars ++ e.allocations) a

/-- No run of the step is satisfied: it fails, or what it adds does not hold. -/
def Refuses (vars : List (Variable F D)) (m : Synth F D α) : Prop :=
  ∀ a e, m vars = .ok (a, e) → ∀ more, ¬ e.Satisfied (assignmentOf (vars ++ e.allocations ++ more))

variable {vars : List (Variable F D)}

namespace Valued
variable {k : Kind} {w : Wire F D k} {v : k.Val F D}

theorem mono (h : Valued vars w v) (more : List (Variable F D)) : Valued (vars ++ more) w v := by
  intro rest
  rw [List.append_assoc]
  exact h (more ++ rest)

theorem now (h : Valued vars w v) : w.eval (assignmentOf vars) = v := by
  have nothing := h []
  rwa [List.append_nil] at nothing

theorem constant (c : k.Val F D) : Valued vars (.constant c) c := fun _ => rfl

theorem call {l : Kind} (h : Valued vars w v) (f : k.Val F D → l.Val F D) :
    Valued vars (.call f w) (f v) := by
  intro more
  rw [Wire.eval, h]

theorem call₂ {l m : Kind} {w' : Wire F D l} {v' : l.Val F D} (h : Valued vars w v)
    (h' : Valued vars w' v') (f : k.Val F D → l.Val F D → m.Val F D) :
    Valued vars (.call₂ f w w') (f v v') := by
  intro more
  rw [Wire.eval, h, h']

theorem select {c : Wire F D .bool} {b : Bool} {w' : Wire F D k} {v' : k.Val F D}
    (condition : Valued vars c b) (h : Valued vars w v) (h' : Valued vars w' v') :
    Valued vars (.select c w w') (bif b then v else v') := by
  intro more
  rw [Wire.eval, condition, h, h']

end Valued

namespace Decides
variable {m : Synth F D α} {f : α → Synth F D β} {P P' : Prop}
variable {Q : List (Variable F D) → α → Prop} {R : List (Variable F D) → β → Prop}

theorem bind (first : Decides vars m P Q)
    (rest : ∀ more a, Q (vars ++ more) a → Decides (vars ++ more) (f a) P' R) :
    Decides vars (m >>= f) (P ∧ P') R := by
  obtain ⟨a, e, run, holds, ha⟩ := first
  obtain ⟨b, e', run', holds', hb⟩ := rest e.allocations a ha
  refine ⟨b, e ++ e', Synth.bind_of_ok run run', fun more => ?_, ?_⟩
  · have early := holds (e'.allocations ++ more)
    have late := holds' more
    rw [Emission.satisfied_append, Emission.append_allocations]
    simp only [← List.append_assoc] at early late ⊢
    exact and_congr early late
  · rwa [Emission.append_allocations, ← List.append_assoc]

/-- A first step whose constraints always hold. -/
theorem bind_true (first : Decides vars m True Q)
    (rest : ∀ more a, Q (vars ++ more) a → Decides (vars ++ more) (f a) P' R) :
    Decides vars (m >>= f) P' R := by
  have both := first.bind rest
  rwa [true_and] at both

theorem mono (h : Decides vars m P Q) {Q' : List (Variable F D) → α → Prop}
    (sub : ∀ more a, Q (vars ++ more) a → Q' (vars ++ more) a) : Decides vars m P Q' := by
  obtain ⟨a, e, run, holds, ha⟩ := h
  exact ⟨a, e, run, holds, sub _ a ha⟩

theorem congr (h : Decides vars m P Q) (same : P ↔ P') : Decides vars m P' Q := by
  obtain ⟨a, e, run, holds, ha⟩ := h
  exact ⟨a, e, run, fun more => (holds more).trans same, ha⟩

theorem pure {a : α} (h : Q vars a) : Decides vars (Pure.pure a) True Q := by
  refine ⟨a, .empty, rfl, fun _ => iff_true_intro Emission.satisfied_empty, ?_⟩
  rwa [Emission.empty_allocations, List.append_nil]

theorem lift {o : Outcome α} {a : α} (ok : o = .ok a) (h : Q vars a) :
    Decides vars (Synth.lift o) True Q := by
  subst ok
  exact pure h

theorem lift_bind {o : Outcome α} {a : α} (ok : o = .ok a) (rest : Decides vars (f a) P R) :
    Decides vars (Synth.lift o >>= f) P R := by
  have first : Decides vars (Synth.lift o : Synth F D α) True
      fun now b => b = a ∧ now = vars := lift ok ⟨rfl, rfl⟩
  apply first.bind_true
  rintro more b ⟨rfl, same⟩
  rwa [same]

theorem newVariable (mode : AllocationMode) (k : Kind) (value : k.Val F D) :
    Decides vars (Synth.newVariable mode k value) True fun now w => Valued now w value := by
  refine ⟨_, _, rfl, fun _ => iff_true_intro fun c hc => absurd hc List.not_mem_nil, fun more => ?_⟩
  have first := assignmentOf_agrees (vars ++ [⟨mode, k, value⟩] ++ more)
  rw [List.append_assoc, agrees_append, agrees_append] at first
  have here := agrees_singleton.mp first.2.1
  rwa [Nat.zero_add, ← List.append_assoc] at here

theorem define {k : Kind} (w : Wire F D k) :
    Decides vars (Synth.define w) True fun _ w' => w' = w := by
  refine ⟨w, _, rfl, fun _ => iff_true_intro fun c hc => ?_, rfl⟩
  cases List.mem_singleton.mp hc
  exact True.intro

theorem define_bind {k : Kind} {w : Wire F D k} {f : Wire F D k → Synth F D β}
    (rest : ∀ more, Decides (vars ++ more) (f w) P R) : Decides vars (Synth.define w >>= f) P R :=
  (define w).bind_true (by rintro more _ rfl; exact rest more)

theorem enforceEqual {k : Kind} {a b : Wire F D k} {x y : k.Val F D} (ha : Valued vars a x)
    (hb : Valued vars b y) : Decides vars (Synth.enforceEqual a b) (x = y) fun _ _ => True := by
  refine ⟨(), _, rfl, fun more => ?_, trivial⟩
  have left := ha ([] ++ more)
  have right := hb ([] ++ more)
  rw [← List.append_assoc] at left right
  constructor
  · intro sat
    have holds := sat _ List.mem_cons_self
    exact left.symm.trans (Eq.trans holds right)
  · rintro rfl c hc
    cases List.mem_singleton.mp hc
    exact left.trans right.symm

theorem value {k : Kind} {w : Wire F D k} {v : k.Val F D} (h : Valued vars w v) :
    Decides vars (Synth.value w) True fun _ v' => v' = v :=
  ⟨_, .empty, rfl, fun _ => iff_true_intro Emission.satisfied_empty, h.now⟩

/-- The run of a step that decides a condition. -/
theorem run (h : Decides vars m P Q) : ∃ a e, m vars = .ok (a, e) ∧
    (e.Satisfied (assignmentOf (vars ++ e.allocations)) ↔ P) ∧ Q (vars ++ e.allocations) a := by
  obtain ⟨a, e, run, holds, ha⟩ := h
  have nothing := holds []
  rw [List.append_nil] at nothing
  exact ⟨a, e, run, nothing, ha⟩

/-- A loop over a list whose every round decides its own condition. -/
theorem mapM {γ δ : Type} {g : γ → Synth F D δ} {S : γ → List (Variable F D) → δ → Prop}
    (stable : ∀ c now more d, S c now d → S c (now ++ more) d) {l : List γ}
    (each : ∀ c ∈ l, ∀ more, Decides (vars ++ more) (g c) True (S c)) :
    Decides vars (l.mapM g) True fun now ds => List.Forall₂ (fun c d => S c now d) l ds := by
  induction l generalizing vars with
  | nil => exact pure .nil
  | cons c l ih =>
    have first := each c List.mem_cons_self []
    rw [List.append_nil] at first
    rw [List.mapM_cons]
    apply first.bind_true
    intro more d hd
    have later := ih fun c' member more' => by
      have here := each c' (List.mem_cons_of_mem c member) (more ++ more')
      rwa [← List.append_assoc] at here
    apply later.bind_true
    intro more' ds hds
    exact pure (.cons (stable _ _ _ _ hd) hds)

end Decides

theorem Refuses.bind {m : Synth F D α} {f : α → Synth F D β} (refuses : Refuses vars m) :
    Refuses vars (m >>= f) := by
  intro b e run more sat
  obtain ⟨a, e₁, b', e₂, first, _, same⟩ := Synth.bind_eq_ok.mp run
  obtain ⟨rfl, rfl⟩ := Prod.mk.inj same
  rw [Emission.satisfied_append, Emission.append_allocations] at sat
  simp only [← List.append_assoc] at sat
  have early := sat.1
  rw [List.append_assoc (vars ++ e₁.allocations)] at early
  exact refuses a e₁ first _ early

theorem Decides.refuses {m : Synth F D α} {P : Prop} {Q : List (Variable F D) → α → Prop}
    (decides : Decides vars m P Q) (fails : ¬ P) : Refuses vars m := by
  obtain ⟨a, e, run, holds, _⟩ := decides
  intro a' e' run' more sat
  cases run.symm.trans run'
  exact fails ((holds more).mp sat)

/-- A later step that refuses. -/
theorem Decides.bind_refuses {m : Synth F D α} {f : α → Synth F D β} {P : Prop}
    {Q : List (Variable F D) → α → Prop} (first : Decides vars m P Q)
    (rest : ∀ more a, Q (vars ++ more) a → Refuses (vars ++ more) (f a)) :
    Refuses vars (m >>= f) := by
  obtain ⟨a, e, run, _, ha⟩ := first
  intro b e' run' more sat
  obtain ⟨a', e₁, b', e₂, first', second, same⟩ := Synth.bind_eq_ok.mp run'
  obtain ⟨rfl, rfl⟩ := Prod.mk.inj same
  cases run.symm.trans first'
  rw [Emission.satisfied_append, Emission.append_allocations] at sat
  simp only [← List.append_assoc] at sat
  exact rest e.allocations a ha b e₂ second more sat.2

theorem Decides.computes {m : Synth F D α} {a : α} (h : Computes m a) :
    Decides vars m True fun now b => b = a ∧ now = vars := by
  obtain ⟨rows, defines, run⟩ := h
  refine ⟨a, _, run vars, fun more => iff_true_intro fun c member => ?_, rfl, List.append_nil _⟩
  obtain ⟨k, w, rfl⟩ := defines c member
  exact True.intro

omit [Field F] [DecidableEq F] [Inhabited D] [DecidableEq D] in
/-- A loop whose every round only defines outputs. -/
theorem computes_mapM {γ : Type} {f : γ → Synth F D α} {g : γ → α} {l : List γ}
    (each : ∀ c ∈ l, Computes (f c) (g c)) : Computes (l.mapM f) (l.map g) := by
  induction l with
  | nil => exact .pure []
  | cons c l ih =>
    rw [List.mapM_cons]
    apply (each c List.mem_cons_self).bind
    exact (ih fun c' member => each c' (List.mem_cons_of_mem c member)).bind (.pure _)

/-- A setup manager, as a function of the values it is handed. -/
class SetupManager (F PM : Type) where
  startSubtrace : PM → PM
  getValue : PM → String → Outcome (F × PM)
  setValue : PM → String → F → Outcome PM

instance : SetupManager F (SetupRomPortalManager F) where
  startSubtrace := .startSubtrace
  getValue pm name := do
    let entry ← expect (unknownWire name) (pm.varMap name)
    let subtraces ← pushEntry pm.subtraces (.rom entry)
    .ok (entry.val, { pm with subtraces := subtraces })
  setValue pm name value :=
    if (pm.varMap name).isSome then
      panicWith ("cannot set portal wire more than once; wire '" ++ name ++ "'")
    else do
      let subtraces ← pushEntry pm.subtraces (.rom ⟨pm.nextVarAddr, value⟩)
      .ok ⟨subtraces, pm.nextVarAddr + 1,
        Function.update pm.varMap name (some ⟨pm.nextVarAddr, value⟩)⟩

instance : SetupManager F (SetupRamPortalManager F) where
  startSubtrace := .startSubtrace
  getValue pm name := do
    let value ← expect (unknownWire name) (pm.varMap name)
    let numbered := pm.address.nameToAddr name
    let subtraces ← pushEntry pm.subtraces (.ram ⟨numbered.1, value, pm.timeIndex, true⟩)
    .ok (value, ⟨subtraces, numbered.2, pm.timeIndex.incrementInplace, pm.varMap⟩)
  setValue pm name value := do
    let numbered := pm.address.nameToAddr name
    let subtraces ← pushEntry pm.subtraces (.ram ⟨numbered.1, value, pm.timeIndex, false⟩)
    .ok ⟨subtraces, numbered.2, pm.timeIndex.incrementInplace,
      Function.update pm.varMap name (some value)⟩

/-- The calls of a manager run as the functions of values say. -/
class LawfulSetup (F D PM : Type) [Field F] [DecidableEq F] [Inhabited D] [DecidableEq D]
    [Manager F D PM] [SetupManager F PM] : Prop where
  get : ∀ (vars : List (Variable F D)) (pm pm' : PM) (name : String) (value : F),
    SetupManager.getValue pm name = .ok (value, pm') →
    Decides vars (Manager.get pm name) True fun now r => Valued now r.1 value ∧ r.2 = pm'
  set : ∀ (vars : List (Variable F D)) (pm pm' : PM) (name : String) (w : Wire F D .field)
    (value : F), Valued vars w value → SetupManager.setValue pm name value = .ok pm' →
    Decides vars (Manager.set pm name w) True fun _ r => r = pm'

instance : LawfulSetup F D (SetupRomPortalManager F) where
  get vars pm pm' name value ok := by
    obtain ⟨entry, found, rest⟩ := bind_eq_ok.mp ok
    obtain ⟨subtraces, pushed, same⟩ := bind_eq_ok.mp rest
    cases same
    change Decides vars (SetupRomPortalManager.get pm name) True _
    rw [SetupRomPortalManager.get]
    apply Decides.lift_bind found
    apply (Decides.newVariable .witness .field entry.val).bind_true
    intro more w hw
    exact Decides.lift_bind pushed (.pure ⟨hw, rfl⟩)
  set vars pm pm' name w value hw ok := by
    change (if (pm.varMap name).isSome = true then _ else _) = _ at ok
    by_cases known : (pm.varMap name).isSome = true
    · rw [if_pos known] at ok
      cases ok
    · rw [if_neg known] at ok
      obtain ⟨subtraces, pushed, same⟩ := bind_eq_ok.mp ok
      cases same
      change Decides vars (SetupRomPortalManager.set pm name w) True _
      rw [SetupRomPortalManager.set, if_neg known]
      apply (Decides.value hw).bind_true
      rintro more _ rfl
      exact Decides.lift_bind pushed (.pure rfl)

instance : LawfulSetup F D (SetupRamPortalManager F) where
  get vars pm pm' name value ok := by
    obtain ⟨value', found, rest⟩ := bind_eq_ok.mp ok
    obtain ⟨subtraces, pushed, same⟩ := bind_eq_ok.mp rest
    cases same
    change Decides vars (SetupRamPortalManager.get pm name) True _
    rw [SetupRamPortalManager.get]
    apply Decides.lift_bind found
    apply (Decides.newVariable .witness .field value).bind_true
    intro more w hw
    exact Decides.lift_bind pushed (.pure ⟨hw, rfl⟩)
  set vars pm pm' name w value hw ok := by
    obtain ⟨subtraces, pushed, same⟩ := bind_eq_ok.mp ok
    cases same
    change Decides vars (SetupRamPortalManager.set pm name w) True _
    rw [SetupRamPortalManager.set]
    apply (Decides.value hw).bind_true
    rintro more _ rfl
    exact Decides.lift_bind pushed (.pure rfl)

section Bodies
variable {PM : Type} [Manager F D PM] [SetupManager F PM]

/-- Run the bodies of all subcircuits, each in a subtrace of its own. -/
def recordBodies : List (Program F D Unit) → PM → Synth F D PM
  | [], pm => pure pm
  | body :: bodies, pm => do
      let r ← body.run (SetupManager.startSubtrace F pm)
      recordBodies bodies r.2

omit [Field F] [DecidableEq F] [Inhabited D] [DecidableEq D] [SetupManager F PM] in
/-- Two bodies run one after the other. -/
theorem run_bind (program : Program F D α) (f : α → Program F D β) (pm : PM) :
    (program >>= f).run pm = program.run pm >>= fun r => (f r.1).run r.2 := by
  change (program.bind f).run pm = _
  induction program generalizing pm with
  | done a => exact (pure_bind (a, pm) fun r => (f r.1).run r.2).symm
  | gadget m rest ih =>
    rw [Program.bind, Program.run, Program.run, bind_assoc]
    exact congrArg _ (funext fun b => ih b pm)
  | get name rest ih =>
    rw [Program.bind, Program.run, Program.run, bind_assoc]
    exact congrArg _ (funext fun r => ih r.1 r.2)
  | set name val rest ih =>
    rw [Program.bind, Program.run, Program.run, bind_assoc]
    exact congrArg _ (funext fun pm' => ih pm')

variable {γ δ : Type} {ι : Type}

/-- The conditions of all bodies, each at the manager that the ones before it left. -/
def AllHold (effect : ι → PM → Outcome PM) (holds : ι → PM → Prop) : List ι → PM → Prop
  | [], _ => True
  | x :: xs, pm => holds x (SetupManager.startSubtrace F pm) ∧
      ∀ pm', effect x (SetupManager.startSubtrace F pm) = .ok pm' → AllHold effect holds xs pm'

/-- Each body in a subtrace of its own, as its effect on the manager says. -/
def recordEffects (effect : ι → PM → Outcome PM) (xs : List ι) (pm : PM) : Outcome PM :=
  xs.foldlM (fun pm x => effect x (SetupManager.startSubtrace F pm)) pm

theorem recordBodies_decides {body : ι → Program F D Unit} {effect : ι → PM → Outcome PM}
    {holds : ι → PM → Prop} {xs : List ι} {pm pm' : PM}
    (each : ∀ x ∈ xs, ∀ vars pm pm', effect x pm = .ok pm' →
      Decides vars ((body x).run pm) (holds x pm) fun _ r => r.2 = pm')
    (ran : recordEffects (F := F) effect xs pm = .ok pm') (vars : List (Variable F D)) :
    Decides vars (recordBodies (xs.map body) pm) (AllHold (F := F) effect holds xs pm)
      fun _ r => r = pm' := by
  induction xs generalizing pm vars with
  | nil =>
    cases ran
    exact .pure rfl
  | cons x xs ih =>
    obtain ⟨pm₁, first, rest⟩ := bind_eq_ok.mp ran
    have later := fun more => ih (fun y member => each y (List.mem_cons_of_mem x member)) rest
      (vars ++ more)
    have here := each x List.mem_cons_self vars _ pm₁ first
    have both : Decides vars (recordBodies ((x :: xs).map body) pm)
        (holds x (SetupManager.startSubtrace F pm) ∧ AllHold (F := F) effect holds xs pm₁)
        fun _ r => r = pm' := by
      apply here.bind
      rintro more ⟨_, pm₂⟩ rfl
      exact later more
    apply both.congr
    refine and_congr_right fun _ => ⟨fun all pm₂ again => ?_, fun all => all pm₁ first⟩
    cases first.symm.trans again
    exact all

end Bodies

section Calls
open Scripts
variable {PM : Type} [SetupManager F PM] {ι : Type}

/-- `for` over a list. -/
def forEach : List ι → (ι → Program F D Unit) → Program F D Unit
  | [], _ => pure ()
  | i :: l, body => do
      body i
      forEach l body

omit [Field F] [DecidableEq F] in
/-- What one call does to a manager. -/
def opEffect (pm : PM) : PortalOp F → Outcome PM
  | .get name => do
      let r ← SetupManager.getValue (F := F) pm name
      .ok r.2
  | .set name val => SetupManager.setValue pm name val

omit [Field F] [DecidableEq F] in
def opsEffect (ops : List (PortalOp F)) (pm : PM) : Outcome PM := ops.foldlM opEffect pm

variable [Manager F D PM]

/-- The body makes these calls in this order, and its constraints hold. -/
def Performs (PM : Type) [Manager F D PM] [SetupManager F PM] (program : Program F D α)
    (ops : List (PortalOp F)) : Prop :=
  ∀ (vars : List (Variable F D)) (pm pm' : PM), opsEffect ops pm = .ok pm' →
    Decides vars (program.run pm) True fun _ r => r.2 = pm'

namespace Performs
variable {program : Program F D α} {f : α → Program F D β} {ops ops' : List (PortalOp F)}

theorem bind (first : Performs PM program ops) (rest : ∀ a, Performs PM (f a) ops') :
    Performs PM (program >>= f) (ops ++ ops') := by
  intro vars pm pm' ran
  rw [opsEffect, List.foldlM_append] at ran
  obtain ⟨pm₁, early, late⟩ := bind_eq_ok.mp ran
  rw [run_bind]
  apply (first vars pm pm₁ early).bind_true
  rintro more ⟨a, _⟩ rfl
  exact rest a _ _ _ late

theorem done (a : α) : Performs PM (Program.done a : Program F D α) [] := by
  intro vars pm pm' ran
  cases ran
  exact .pure rfl

theorem lift {m : Synth F D α}
    (decides : ∀ vars, Decides vars m True fun _ _ => True) : Performs PM (Program.lift m) [] := by
  intro vars pm pm' ran
  cases ran
  exact (decides vars).bind_true fun _ _ _ => .pure rfl

/-- A gadget before the rest of the body. -/
theorem lift_bind {m : Synth F D α} {Q : List (Variable F D) → α → Prop}
    (decides : ∀ vars, Decides vars m True Q)
    (rest : ∀ vars a, Q vars a → ∀ pm pm' : PM, opsEffect ops pm = .ok pm' →
      Decides vars ((f a).run pm) True fun _ r => r.2 = pm') :
    Performs PM (Program.lift m >>= f) ops := by
  intro vars pm pm' ran
  exact (decides vars).bind_true fun more a ha => rest _ a ha pm pm' ran

variable [LawfulSetup F D PM]

theorem portalGet (name : String) :
    Performs PM (Program.portalGet (F := F) (D := D) name) [.get name] := by
  intro vars pm pm' ran
  obtain ⟨pm₁, first, rest⟩ := bind_eq_ok.mp ran
  obtain ⟨⟨value, pm₂⟩, got, same⟩ := bind_eq_ok.mp first
  cases same
  cases rest
  apply (LawfulSetup.get vars pm _ name value got).bind_true
  rintro more ⟨w, _⟩ ⟨_, rfl⟩
  exact .pure rfl

/-- A value that is witnessed and set. -/
theorem portalSet (name : String) (val : F) : Performs PM
    (Program.lift (D := D) (Synth.newWitness .field val) >>= Program.portalSet name)
    [.set name val] := by
  apply lift_bind fun vars => Decides.newVariable .witness .field val
  intro vars w hw pm pm' ran
  obtain ⟨pm₁, first, rest⟩ := bind_eq_ok.mp ran
  cases rest
  apply (LawfulSetup.set vars pm pm' name w val hw first).bind_true
  rintro more _ rfl
  exact .pure rfl

omit [LawfulSetup F D PM] in
theorem loop {l : List ι} {body : ι → Program F D Unit} {calls : ι → List (PortalOp F)}
    (each : ∀ i ∈ l, Performs PM (body i) (calls i)) :
    Performs PM (forEach l body) (l.flatMap calls) := by
  induction l with
  | nil => exact done ()
  | cons i l ih =>
    exact (each i List.mem_cons_self).bind fun _ =>
      ih fun j member => each j (List.mem_cons_of_mem i member)

/-- A script makes its own calls. -/
theorem ofScript (ops : List (PortalOp F)) : Performs PM (script (D := D) ops) ops := by
  induction ops with
  | nil => exact done ()
  | cons op ops ih =>
    cases op with
    | get name => exact (portalGet name).bind fun _ => ih
    | set name val =>
      apply lift_bind fun vars => Decides.newVariable .witness .field val
      intro vars w hw pm pm' ran
      obtain ⟨pm₁, first, rest⟩ := bind_eq_ok.mp ran
      apply (LawfulSetup.set vars pm pm₁ name w val hw first).bind_true
      rintro more _ rfl
      exact ih _ _ _ rest

end Performs

section Steps
variable {vars : List (Variable F D)} {pm pm' : PM} {f : α → Program F D β} {P : Prop}
variable {R : List (Variable F D) → β × PM → Prop}

omit [SetupManager F PM] in
/-- A gadget, then the rest of the body. -/
theorem decides_lift {m : Synth F D α} {Q : List (Variable F D) → α → Prop}
    (first : Decides vars m True Q)
    (rest : ∀ more a, Q (vars ++ more) a → Decides (vars ++ more) ((f a).run pm) P R) :
    Decides vars ((Program.lift m >>= f).run pm) P R := first.bind_true rest

omit [SetupManager F PM] in
theorem decides_call {o : Outcome α} {a : α} (ok : o = .ok a)
    (rest : Decides vars ((f a).run pm) P R) :
    Decides vars ((Program.lift (Synth.lift o) >>= f).run pm) P R := Decides.lift_bind ok rest

omit [SetupManager F PM] in
theorem refuses_lift {m : Synth F D α} {Q : List (Variable F D) → α → Prop}
    (first : Decides vars m True Q)
    (rest : ∀ more a, Q (vars ++ more) a → Refuses (vars ++ more) ((f a).run pm)) :
    Refuses vars ((Program.lift m >>= f).run pm) := first.bind_refuses rest

omit [SetupManager F PM] in
theorem refuses_call {o : Outcome α} {a : α} (ok : o = .ok a)
    (rest : ∀ more, Refuses (vars ++ more) ((f a).run pm)) :
    Refuses vars ((Program.lift (Synth.lift o) >>= f).run pm) :=
  refuses_lift (Decides.lift (Q := fun _ b => b = a) ok rfl) (by rintro more _ rfl; exact rest more)

variable [LawfulSetup F D PM]

theorem decides_get {f : Wire F D .field → Program F D β} {name : String} {value : F}
    (ok : SetupManager.getValue pm name = .ok (value, pm')) (rest : ∀ more w,
      Valued (vars ++ more) w value → Decides (vars ++ more) ((f w).run pm') P R) :
    Decides vars ((Program.portalGet name >>= f).run pm) P R := by
  apply (LawfulSetup.get vars pm pm' name value ok).bind_true
  rintro more ⟨w, _⟩ ⟨hw, rfl⟩
  exact rest more w hw

theorem decides_set {f : Unit → Program F D β} {name : String} {w : Wire F D .field} {value : F}
    (hw : Valued vars w value) (ok : SetupManager.setValue pm name value = .ok pm')
    (rest : ∀ more, Decides (vars ++ more) ((f ()).run pm') P R) :
    Decides vars ((Program.portalSet name w >>= f).run pm) P R := by
  apply (LawfulSetup.set vars pm pm' name w value hw ok).bind_true
  rintro more _ rfl
  exact rest more

/-- A set at the end of a body. -/
theorem decides_set_last {name : String} {w : Wire F D .field} {value : F}
    (hw : Valued vars w value) (ok : SetupManager.setValue pm name value = .ok pm') :
    Decides vars ((Program.portalSet name w).run pm) True fun _ r => r.2 = pm' := by
  apply (LawfulSetup.set vars pm pm' name w value hw ok).bind_true
  rintro more _ rfl
  exact .pure rfl

end Steps

/-- The calls of every body, each in a subtrace of its own. -/
theorem recordBodies_performs {body : ι → Program F D Unit} {calls : ι → List (PortalOp F)}
    {l : List ι} {pm pm' : PM} (each : ∀ i ∈ l, Performs PM (body i) (calls i))
    (ran : recordEffects (F := F) (fun i => opsEffect (calls i)) l pm = .ok pm')
    (vars : List (Variable F D)) :
    Decides vars (recordBodies (l.map body) pm) True fun _ r => r = pm' := by
  have all := recordBodies_decides
    (fun i member vars pm pm' ran => each i member vars pm pm' ran) ran vars
  apply all.congr
  apply iff_true_intro
  clear ran all each
  induction l generalizing pm with
  | nil => exact True.intro
  | cons i l ih => exact ⟨True.intro, fun _ _ => ih⟩

end Calls

section Ram
open Scripts

variable {pm : SetupRamPortalManager F}

omit [Field F] [DecidableEq F] in
theorem pushEntry_of_ne_nil {γ : Type} {subtraces : List (List γ)} (started : subtraces ≠ [])
    (e : γ) : ∃ subtraces', pushEntry subtraces e = .ok subtraces' ∧ subtraces' ≠ [] := by
  induction subtraces with
  | nil => exact absurd rfl started
  | cons first subtraces ih =>
    cases subtraces with
    | nil => exact ⟨_, rfl, List.cons_ne_nil _ _⟩
    | cons second subtraces =>
      obtain ⟨subtraces', pushed, _⟩ := ih (List.cons_ne_nil _ _)
      refine ⟨first :: subtraces', ?_, List.cons_ne_nil _ _⟩
      rw [pushEntry, pushed, ok_bind]
      exact fun empty => List.cons_ne_nil _ _ empty

omit [Field F] [DecidableEq F] in
/-- Calls of known names go through, and make the names they set known. -/
theorem opsEffect_ram {ops : List (PortalOp F)} (started : pm.subtraces ≠ [])
    (known : ∀ name, .get name ∈ ops → (pm.varMap name).isSome) :
    ∃ pm', opsEffect ops pm = .ok pm' ∧ pm'.subtraces ≠ [] ∧
      (∀ name, (pm.varMap name).isSome → (pm'.varMap name).isSome) ∧
      ∀ name val, .set name val ∈ ops → (pm'.varMap name).isSome := by
  induction ops generalizing pm with
  | nil => exact ⟨pm, rfl, started, fun _ h => h, fun _ _ h => absurd h List.not_mem_nil⟩
  | cons op ops ih =>
    have step : ∃ pm₁, opEffect pm op = .ok pm₁ ∧ pm₁.subtraces ≠ [] ∧
        (∀ name, (pm.varMap name).isSome → (pm₁.varMap name).isSome) ∧
        ∀ name val, op = .set name val → (pm₁.varMap name).isSome := by
      cases op with
      | get name =>
        obtain ⟨value, found⟩ := Option.isSome_iff_exists.mp (known name List.mem_cons_self)
        obtain ⟨subtraces, pushed, grown⟩ := pushEntry_of_ne_nil started
          (Entry.ram (F := F) ⟨(pm.address.nameToAddr name).1, value, pm.timeIndex, true⟩)
        refine ⟨⟨subtraces, (pm.address.nameToAddr name).2, pm.timeIndex.incrementInplace,
          pm.varMap⟩, ?_, grown, fun _ h => h, fun _ _ same => nomatch same⟩
        simp only [opEffect, SetupManager.getValue, found, expect_some, ok_bind, pushed]
      | set name val =>
        obtain ⟨subtraces, pushed, grown⟩ := pushEntry_of_ne_nil started
          (Entry.ram (F := F) ⟨(pm.address.nameToAddr name).1, val, pm.timeIndex, false⟩)
        refine ⟨⟨subtraces, (pm.address.nameToAddr name).2, pm.timeIndex.incrementInplace,
          Function.update pm.varMap name (some val)⟩, ?_, grown, fun other h => ?_,
          fun other _ same => ?_⟩
        · simp only [opEffect, SetupManager.setValue, pushed, ok_bind]
        · by_cases here : other = name
          · simp [here]
          · simpa [Function.update_of_ne here] using h
        · cases same
          simp only [Function.update_self, Option.isSome_some]
    obtain ⟨pm₁, first, grown, kept, written⟩ := step
    obtain ⟨pm₂, rest, grown', kept', written'⟩ := ih grown fun name member =>
      kept name (known name (List.mem_cons_of_mem op member))
    refine ⟨pm₂, ?_, grown', fun name h => kept' name (kept name h), fun name val member => ?_⟩
    · rw [opsEffect, List.foldlM_cons, first, ok_bind]
      exact rest
    · rcases List.mem_cons.mp member with same | member
      · exact kept' name (written name val same.symm)
      · exact written' name val member

end Ram
end HonestRuns
