import Hekaton.Synthesis

/-!
# Contracts of synthesis steps

Four statements about a step, each with its rule for a sequence. `Total`: it
succeeds, whatever was allocated before. `Forces`: an assignment that satisfies what
it adds gives its result the property. `Admits`: the values it allocates satisfy what
it adds. `Parallel`: two steps add the same rows and the same kinds of variables.
-/

namespace Contracts

open Outcomes Wires Synthesis

variable {F D α β γ δ : Type}

section Total

/-- `m` succeeds whatever was allocated before, with a result in `R`. -/
def Total (m : Synth F D α) (R : α → Prop) : Prop :=
  ∀ vars, ∃ a e, m vars = .ok (a, e) ∧ R a

namespace Total

theorem mono {m : Synth F D α} {R S : α → Prop} (h : Total m R) (sub : ∀ a, R a → S a) :
    Total m S := by
  intro vars
  obtain ⟨a, e, run, ha⟩ := h vars
  exact ⟨a, e, run, sub a ha⟩

end Total
end Total

variable [Field F] [DecidableEq F] [DecidableEq D] {z : Assignment F D}

section Forces

/-- Satisfying what `m` adds gives its result the property. -/
def Forces (z : Assignment F D) (m : Synth F D α) (Q : α → Prop) : Prop :=
  ∀ vars a e, m vars = .ok (a, e) → e.Satisfied z → Q a

namespace Forces

theorem mono {m : Synth F D α} {P Q : α → Prop} (h : Forces z m P) (sub : ∀ a, P a → Q a) :
    Forces z m Q :=
  fun vars a e run sat => sub a (h vars a e run sat)

theorem bind {m : Synth F D α} {f : α → Synth F D β} {P : α → Prop} {Q : β → Prop}
    (first : Forces z m P) (rest : ∀ a, P a → Forces z (f a) Q) : Forces z (m >>= f) Q := by
  intro vars b e run sat
  obtain ⟨a, e₁, b', e₂, run₁, run₂, eq⟩ := Synth.bind_eq_ok.mp run
  cases eq
  obtain ⟨sat₁, sat₂⟩ := Emission.satisfied_append.mp sat
  exact rest a (first vars a e₁ run₁ sat₁) _ b e₂ run₂ sat₂

theorem pure {a : α} {Q : α → Prop} (h : Q a) : Forces z (Pure.pure a) Q := by
  intro vars a' e run _
  cases run
  exact h

theorem trivial (m : Synth F D α) : Forces z m fun _ => True := fun _ _ _ _ _ => True.intro

theorem lift {o : Outcome α} {Q : α → Prop} (h : ∀ a, o = .ok a → Q a) :
    Forces z (Synth.lift o) Q := by
  intro vars a e run _
  obtain ⟨a', ho, eq⟩ := Synth.lift_eq_ok.mp run
  cases eq
  exact h a ho

theorem lift_bind {o : Outcome α} {f : α → Synth F D β} {Q : β → Prop}
    (rest : ∀ a, o = .ok a → Forces z (f a) Q) : Forces z (Synth.lift o >>= f) Q :=
  (lift fun _ h => h).bind rest

theorem define_bind {k : Kind} {w : Wire F D k} {f : Wire F D k → Synth F D β} {Q : β → Prop}
    (rest : Forces z (f w) Q) : Forces z (Synth.define w >>= f) Q := by
  refine bind (P := (· = w)) ?_ (by rintro _ rfl; exact rest)
  intro vars a e run _
  cases run
  rfl

theorem emit {c : Constraint F D} : Forces z (Synth.emit c) (fun _ => c.Holds z) := by
  intro vars a e run sat
  cases run
  exact sat c List.mem_cons_self

theorem emit_bind {c : Constraint F D} {f : Unit → Synth F D β} {Q : β → Prop}
    (rest : c.Holds z → Forces z (f ()) Q) : Forces z (Synth.emit c >>= f) Q :=
  emit.bind fun _ h => rest h

/-- A row in front is an assumption of what follows, and no more. -/
theorem emit_bind_iff {c : Constraint F D} {f : Unit → Synth F D β} {Q : β → Prop} :
    Forces z (Synth.emit c >>= f) Q ↔ (c.Holds z → Forces z (f ()) Q) := by
  constructor
  · intro forces holds vars b e run sat
    have rest : f () (vars ++ [] : List (Variable F D)) = .ok (b, e) := by rwa [List.append_nil]
    refine forces vars b (⟨[], [c]⟩ ++ e) (Synth.bind_of_ok rfl rest) ?_
    exact Emission.satisfied_append.mpr ⟨List.forall_mem_singleton.mpr holds, sat⟩
  · exact emit_bind

theorem emit_iff {c : Constraint F D} {Q : Prop} :
    Forces z (Synth.emit c) (fun _ => Q) ↔ (c.Holds z → Q) := by
  constructor
  · exact fun forces holds => forces [] () _ rfl (List.forall_mem_singleton.mpr holds)
  · exact fun implies => emit.mono fun _ => implies

theorem newVariable_bind {mode : AllocationMode} {k : Kind} {value : k.Val F D}
    {f : Wire F D k → Synth F D β} {Q : β → Prop} (rest : ∀ w, Forces z (f w) Q) :
    Forces z (Synth.newVariable mode k value >>= f) Q :=
  (trivial _).bind fun w _ => rest w

end Forces
end Forces

section Admits

/-- The values `m` allocates satisfy what it adds, and give its result the property. -/
def Admits (z : Assignment F D) (m : Synth F D α) (Q : α → Prop) : Prop :=
  ∀ vars a e, m vars = .ok (a, e) → Agrees z vars.length e.allocations →
    e.Satisfied z ∧ Q a

namespace Admits

theorem mono {m : Synth F D α} {P Q : α → Prop} (h : Admits z m P) (sub : ∀ a, P a → Q a) :
    Admits z m Q :=
  fun vars a e run honest => (h vars a e run honest).imp id (sub a)

theorem bind {m : Synth F D α} {f : α → Synth F D β} {P : α → Prop} {Q : β → Prop}
    (first : Admits z m P) (rest : ∀ a, P a → Admits z (f a) Q) : Admits z (m >>= f) Q := by
  intro vars b e run honest
  obtain ⟨a, e₁, b', e₂, run₁, run₂, eq⟩ := Synth.bind_eq_ok.mp run
  cases eq
  obtain ⟨honest₁, honest₂⟩ := agrees_append.mp honest
  obtain ⟨sat₁, ha⟩ := first vars a e₁ run₁ honest₁
  rw [← List.length_append] at honest₂
  obtain ⟨sat₂, hb⟩ := rest a ha _ b e₂ run₂ honest₂
  exact ⟨Emission.satisfied_append.mpr ⟨sat₁, sat₂⟩, hb⟩

theorem pure {a : α} {Q : α → Prop} (h : Q a) : Admits z (Pure.pure a) Q := by
  intro vars a' e run _
  cases run
  exact ⟨Emission.satisfied_empty, h⟩

theorem lift {o : Outcome α} {Q : α → Prop} (h : ∀ a, o = .ok a → Q a) :
    Admits z (Synth.lift o) Q := by
  intro vars a e run _
  obtain ⟨a', ho, eq⟩ := Synth.lift_eq_ok.mp run
  cases eq
  exact ⟨Emission.satisfied_empty, h a ho⟩

theorem lift_bind {o : Outcome α} {f : α → Synth F D β} {Q : β → Prop}
    (rest : ∀ a, o = .ok a → Admits z (f a) Q) : Admits z (Synth.lift o >>= f) Q :=
  (lift fun _ h => h).bind rest

theorem define_bind {k : Kind} {w : Wire F D k} {f : Wire F D k → Synth F D β} {Q : β → Prop}
    (rest : Admits z (f w) Q) : Admits z (Synth.define w >>= f) Q := by
  refine bind (P := (· = w)) ?_ (by rintro _ rfl; exact rest)
  intro vars a e run _
  cases run
  refine ⟨?_, rfl⟩
  intro c hc
  cases List.mem_singleton.mp hc
  exact True.intro

theorem emit {c : Constraint F D} (h : c.Holds z) :
    Admits z (Synth.emit c) (fun _ => True) := by
  intro vars a e run _
  cases run
  refine ⟨?_, True.intro⟩
  intro c' hc
  cases List.mem_singleton.mp hc
  exact h

theorem emit_bind {c : Constraint F D} {f : Unit → Synth F D β} {Q : β → Prop}
    (h : c.Holds z) (rest : Admits z (f ()) Q) : Admits z (Synth.emit c >>= f) Q :=
  (emit h).bind fun _ _ => rest

theorem newVariable {mode : AllocationMode} {k : Kind} {value : k.Val F D} :
    Admits z (Synth.newVariable mode k value) (fun w => w.eval z = value) := by
  intro vars a e run honest
  cases run
  refine ⟨fun c hc => absurd hc List.not_mem_nil, ?_⟩
  exact agrees_singleton.mp honest

theorem newVariable_bind {mode : AllocationMode} {k : Kind} {value : k.Val F D}
    {f : Wire F D k → Synth F D β} {Q : β → Prop}
    (rest : ∀ w : Wire F D k, w.eval z = value → Admits z (f w) Q) :
    Admits z (Synth.newVariable mode k value >>= f) Q :=
  newVariable.bind rest

end Admits
end Admits

section Parallel
omit [Field F] [DecidableEq F] [DecidableEq D]

/-- The modes and kinds of allocated variables, without their values. -/
def shape (vars : List (Variable F D)) : List (AllocationMode × Kind) :=
  vars.map fun v => (v.mode, v.kind)

@[simp] theorem shape_append (vars more : List (Variable F D)) :
    shape (vars ++ more) = shape vars ++ shape more := List.map_append

theorem length_of_shape {vars vars' : List (Variable F D)} (h : shape vars = shape vars') :
    vars.length = vars'.length := by
  have := congrArg List.length h
  simpa only [shape, List.length_map] using this

/-- Two emissions have the same variables, values aside, and the same constraints. -/
def SameRows (e e' : Emission F D) : Prop :=
  shape e.allocations = shape e'.allocations ∧ e.constraints = e'.constraints

theorem SameRows.append {e₁ e₂ e₁' e₂' : Emission F D} (first : SameRows e₁ e₁')
    (second : SameRows e₂ e₂') : SameRows (e₁ ++ e₂) (e₁' ++ e₂') := by
  refine ⟨?_, ?_⟩
  · simp only [Emission.append_allocations, shape_append, first.1, second.1]
  · simp only [Emission.append_constraints, first.2, second.2]

/-- Both steps succeed and add the same rows, from the same kinds of variables. -/
def Parallel (m : Synth F D α) (m' : Synth F D β) (R : α → β → Prop) : Prop :=
  ∀ vars vars', shape vars = shape vars' →
    ∃ a e b e', m vars = .ok (a, e) ∧ m' vars' = .ok (b, e') ∧ SameRows e e' ∧ R a b

namespace Parallel

theorem mono {m : Synth F D α} {m' : Synth F D β} {R S : α → β → Prop}
    (h : Parallel m m' R) (sub : ∀ a b, R a b → S a b) : Parallel m m' S := by
  intro vars vars' hv
  obtain ⟨a, e, b, e', run, run', rows, hab⟩ := h vars vars' hv
  exact ⟨a, e, b, e', run, run', rows, sub a b hab⟩

theorem bind {m : Synth F D α} {m' : Synth F D β} {f : α → Synth F D γ}
    {f' : β → Synth F D δ} {R : α → β → Prop} {S : γ → δ → Prop}
    (first : Parallel m m' R) (rest : ∀ a b, R a b → Parallel (f a) (f' b) S) :
    Parallel (m >>= f) (m' >>= f') S := by
  intro vars vars' hv
  obtain ⟨a, e, b, e', run, run', rows, hab⟩ := first vars vars' hv
  have grown : shape (vars ++ e.allocations) = shape (vars' ++ e'.allocations) := by
    rw [shape_append, shape_append, hv, rows.1]
  obtain ⟨c, e₂, d, e₂', run₂, run₂', rows₂, hcd⟩ := rest a b hab _ _ grown
  exact ⟨c, e ++ e₂, d, e' ++ e₂', Synth.bind_of_ok run run₂, Synth.bind_of_ok run' run₂',
    rows.append rows₂, hcd⟩

theorem pure {a : α} {b : β} {R : α → β → Prop} (h : R a b) :
    Parallel (Pure.pure a : Synth F D α) (Pure.pure b : Synth F D β) R :=
  fun _ _ _ => ⟨a, .empty, b, .empty, rfl, rfl, ⟨rfl, rfl⟩, h⟩

theorem lift {o : Outcome α} {o' : Outcome β} {a : α} {b : β} {R : α → β → Prop}
    (ho : o = .ok a) (ho' : o' = .ok b) (h : R a b) :
    Parallel (Synth.lift o : Synth F D α) (Synth.lift o') R := by
  subst ho ho'
  exact fun _ _ _ => ⟨a, .empty, b, .empty, rfl, rfl, ⟨rfl, rfl⟩, h⟩

/-- The values two allocations are given may differ; the variable is the same. -/
theorem newVariable {mode : AllocationMode} {k : Kind} {value value' : k.Val F D} :
    Parallel (Synth.newVariable mode k value) (Synth.newVariable mode k value') (· = ·) := by
  intro vars vars' hv
  refine ⟨_, _, _, _, rfl, rfl, ⟨rfl, rfl⟩, ?_⟩
  rw [length_of_shape hv]

theorem emit (c : Constraint F D) : Parallel (Synth.emit c) (Synth.emit c) (· = ·) :=
  fun _ _ _ => ⟨_, _, _, _, rfl, rfl, ⟨rfl, rfl⟩, rfl⟩

theorem define {k : Kind} (w : Wire F D k) :
    Parallel (Synth.define w) (Synth.define w) (· = ·) :=
  fun _ _ _ => ⟨_, _, _, _, rfl, rfl, ⟨rfl, rfl⟩, rfl⟩

theorem lift_bind {o : Outcome α} {a : α} {f : α → Synth F D γ} {f' : α → Synth F D δ}
    {S : γ → δ → Prop} (ho : o = .ok a) (rest : Parallel (f a) (f' a) S) :
    Parallel (Synth.lift o >>= f) (Synth.lift o >>= f') S :=
  (lift (R := fun x y => x = a ∧ y = a) ho ho ⟨rfl, rfl⟩).bind
    (by rintro _ _ ⟨rfl, rfl⟩; exact rest)

/-- The first of two parallel steps succeeds from anything. -/
theorem total {m : Synth F D α} {m' : Synth F D β} {R : α → β → Prop} (h : Parallel m m' R) :
    Total m (fun a => ∃ b, R a b) := by
  intro vars
  obtain ⟨a, e, b, _, run, _, _, hab⟩ := h vars vars rfl
  exact ⟨a, e, run, b, hab⟩

/-- A sequence whose first parts hand on equal results. -/
theorem bind_eq {m m' : Synth F D α} {f : α → Synth F D γ} {f' : α → Synth F D δ}
    {S : γ → δ → Prop} (first : Parallel m m' (· = ·))
    (rest : ∀ a, Parallel (f a) (f' a) S) : Parallel (m >>= f) (m' >>= f') S :=
  first.bind (by rintro a _ rfl; exact rest a)

end Parallel

/-- Both steps succeed from the same kinds of variables, and `m` adds more constraints. -/
def Outgrows (m : Synth F D α) (m' : Synth F D β) (R : α → β → Prop) : Prop :=
  ∀ vars vars', shape vars = shape vars' →
    ∃ a e b e', m vars = .ok (a, e) ∧ m' vars' = .ok (b, e') ∧
      shape e.allocations = shape e'.allocations ∧
      e'.constraints.length < e.constraints.length ∧ R a b

theorem Parallel.bind_outgrows {m : Synth F D α} {m' : Synth F D β} {f : α → Synth F D γ}
    {f' : β → Synth F D δ} {R : α → β → Prop} {S : γ → δ → Prop}
    (first : Parallel m m' R) (rest : ∀ a b, R a b → Outgrows (f a) (f' b) S) :
    Outgrows (m >>= f) (m' >>= f') S := by
  intro vars vars' hv
  obtain ⟨a, e, b, e', run, run', rows, hab⟩ := first vars vars' hv
  have grown : shape (vars ++ e.allocations) = shape (vars' ++ e'.allocations) := by
    rw [shape_append, shape_append, hv, rows.1]
  obtain ⟨c, e₂, d, e₂', run₂, run₂', kinds, more, hcd⟩ := rest a b hab _ _ grown
  refine ⟨c, e ++ e₂, d, e' ++ e₂', Synth.bind_of_ok run run₂, Synth.bind_of_ok run' run₂',
    ?_, ?_, hcd⟩
  · simp only [Emission.append_allocations, shape_append, rows.1, kinds]
  · simp only [Emission.append_constraints, List.length_append, rows.2]
    omega

theorem Outgrows.bind {m : Synth F D α} {m' : Synth F D β} {f : α → Synth F D γ}
    {f' : β → Synth F D δ} {R : α → β → Prop} {S : γ → δ → Prop}
    (first : Outgrows m m' R) (rest : ∀ a b, R a b → Parallel (f a) (f' b) S) :
    Outgrows (m >>= f) (m' >>= f') S := by
  intro vars vars' hv
  obtain ⟨a, e, b, e', run, run', kinds, more, hab⟩ := first vars vars' hv
  have grown : shape (vars ++ e.allocations) = shape (vars' ++ e'.allocations) := by
    rw [shape_append, shape_append, hv, kinds]
  obtain ⟨c, e₂, d, e₂', run₂, run₂', rows, hcd⟩ := rest a b hab _ _ grown
  refine ⟨c, e ++ e₂, d, e' ++ e₂', Synth.bind_of_ok run run₂, Synth.bind_of_ok run' run₂',
    ?_, ?_, hcd⟩
  · simp only [Emission.append_allocations, shape_append, rows.1, kinds]
  · simp only [Emission.append_constraints, List.length_append, rows.2]
    omega

/-- Steps that outgrow one another do not have the same rows. -/
theorem Outgrows.not_sameRows {m : Synth F D α} {m' : Synth F D β} {R : α → β → Prop}
    (h : Outgrows m m' R) {vars vars' : List (Variable F D)} (hv : shape vars = shape vars')
    {r : α × Emission F D} {r' : β × Emission F D} (run : m vars = .ok r)
    (run' : m' vars' = .ok r') : ¬ SameRows r.2 r'.2 := by
  obtain ⟨a, e, b, e', first, second, _, more, _⟩ := h vars vars' hv
  cases first.symm.trans run
  cases second.symm.trans run'
  rintro ⟨_, same⟩
  rw [same] at more
  exact Nat.lt_irrefl _ more

end Parallel

section OnlyWitnesses
omit [Field F] [DecidableEq F] [DecidableEq D]

/-- Every variable that `m` allocates is a witness. -/
def OnlyWitnesses (m : Synth F D α) : Prop :=
  ∀ vars a e, m vars = .ok (a, e) → ∀ v ∈ e.allocations, v.mode = .witness

namespace OnlyWitnesses

theorem bind {m : Synth F D α} {f : α → Synth F D β} (first : OnlyWitnesses m)
    (rest : ∀ a, OnlyWitnesses (f a)) : OnlyWitnesses (m >>= f) := by
  intro vars b e run v hv
  obtain ⟨a, e₁, b', e₂, run₁, run₂, eq⟩ := Synth.bind_eq_ok.mp run
  cases eq
  rcases List.mem_append.mp hv with hv | hv
  · exact first vars a e₁ run₁ v hv
  · exact rest a _ b e₂ run₂ v hv

theorem pure (a : α) : OnlyWitnesses (Pure.pure a : Synth F D α) := by
  intro vars a' e run v hv
  cases run
  cases hv

theorem lift (o : Outcome α) : OnlyWitnesses (Synth.lift o : Synth F D α) := by
  intro vars a e run v hv
  obtain ⟨a', _, eq⟩ := Synth.lift_eq_ok.mp run
  cases eq
  cases hv

theorem define {k : Kind} (w : Wire F D k) : OnlyWitnesses (Synth.define w) := by
  intro vars a e run v hv
  cases run
  cases hv

theorem emit (c : Constraint F D) : OnlyWitnesses (Synth.emit c) := by
  intro vars a e run v hv
  cases run
  cases hv

theorem newWitness (k : Kind) (value : k.Val F D) : OnlyWitnesses (Synth.newWitness k value) := by
  intro vars a e run v hv
  cases run
  rw [List.mem_singleton.mp hv]

end OnlyWitnesses
end OnlyWitnesses

section Computes

/-- `m` only defines gadget outputs and returns `a`, whatever was allocated before. -/
def Computes (m : Synth F D α) (a : α) : Prop :=
  ∃ rows : List (Constraint F D), (∀ c ∈ rows, ∃ (k : Kind) (w : Wire F D k), c = .define w) ∧
    ∀ vars, m vars = .ok (a, ⟨[], rows⟩)

namespace Computes
omit [Field F] [DecidableEq F] [DecidableEq D]

theorem pure (a : α) : Computes (Pure.pure a : Synth F D α) a :=
  ⟨[], fun _ h => absurd h List.not_mem_nil, fun _ => rfl⟩

theorem define {k : Kind} (w : Wire F D k) : Computes (Synth.define w) w :=
  ⟨[.define w], fun _ h => ⟨k, w, List.mem_singleton.mp h⟩, fun _ => rfl⟩

theorem lift {o : Outcome α} {a : α} (h : o = .ok a) :
    Computes (Synth.lift o : Synth F D α) a := by
  subst h
  exact pure a

theorem bind {m : Synth F D α} {f : α → Synth F D β} {a : α} {b : β} (first : Computes m a)
    (rest : Computes (f a) b) : Computes (m >>= f) b := by
  obtain ⟨rows, defines, run⟩ := first
  obtain ⟨rows', defines', run'⟩ := rest
  refine ⟨rows ++ rows', ?_, fun vars => Synth.bind_of_ok (run vars) (run' _)⟩
  intro c hc
  rcases List.mem_append.mp hc with hc | hc
  · exact defines c hc
  · exact defines' c hc

theorem total {m : Synth F D α} {a : α} (h : Computes m a) : Total m (· = a) := by
  obtain ⟨rows, _, run⟩ := h
  exact fun vars => ⟨a, _, run vars, rfl⟩

theorem onlyWitnesses {m : Synth F D α} {a : α} (h : Computes m a) : OnlyWitnesses m := by
  obtain ⟨rows, _, run⟩ := h
  intro vars b e runs v hv
  rw [run vars] at runs
  cases runs
  cases hv

theorem parallel {m : Synth F D α} {a : α} (h : Computes m a) :
    Parallel m m (fun x y => x = a ∧ y = a) := by
  obtain ⟨rows, _, run⟩ := h
  exact fun vars vars' _ => ⟨a, _, a, _, run vars, run vars', ⟨rfl, rfl⟩, rfl, rfl⟩

theorem parallel_bind {m : Synth F D α} {f : α → Synth F D γ} {f' : α → Synth F D δ}
    {a : α} {S : γ → δ → Prop} (h : Computes m a) (rest : Parallel (f a) (f' a) S) :
    Parallel (m >>= f) (m >>= f') S :=
  h.parallel.bind (by rintro _ _ ⟨rfl, rfl⟩; exact rest)

end Computes

theorem Computes.forces {m : Synth F D α} {a : α} (h : Computes m a) : Forces z m (· = a) := by
  obtain ⟨rows, _, run⟩ := h
  intro vars b e runs _
  rw [run vars] at runs
  cases runs
  rfl

theorem Computes.admits {m : Synth F D α} {a : α} (h : Computes m a) : Admits z m (· = a) := by
  obtain ⟨rows, defines, run⟩ := h
  intro vars b e runs _
  rw [run vars] at runs
  cases runs
  refine ⟨?_, rfl⟩
  intro c hc
  obtain ⟨k, w, rfl⟩ := defines c hc
  exact True.intro

theorem Computes.forces_bind {m : Synth F D α} {f : α → Synth F D β} {a : α} {Q : β → Prop}
    (h : Computes m a) (rest : Forces z (f a) Q) : Forces z (m >>= f) Q :=
  h.forces.bind (by rintro _ rfl; exact rest)

/-- Rows that only define outputs are satisfied by every assignment. -/
theorem Computes.forces_iff {m : Synth F D α} {a : α} (h : Computes m a) {Q : α → Prop} :
    Forces z m Q ↔ Q a := by
  constructor
  · intro forces
    obtain ⟨rows, defines, run⟩ := h
    refine forces [] a _ (run []) fun c hc => ?_
    obtain ⟨k, w, rfl⟩ := defines c hc
    exact True.intro
  · intro holds
    refine h.forces.mono ?_
    rintro _ rfl
    exact holds

theorem Computes.forces_bind_iff {m : Synth F D α} {f : α → Synth F D β} {a : α} {Q : β → Prop}
    (h : Computes m a) : Forces z (m >>= f) Q ↔ Forces z (f a) Q := by
  constructor
  · intro forces vars b e run sat
    obtain ⟨rows, defines, first⟩ := h
    have rest : f a (vars ++ [] : List (Variable F D)) = .ok (b, e) := by rwa [List.append_nil]
    refine forces vars b (⟨[], rows⟩ ++ e) (Synth.bind_of_ok (first vars) rest) ?_
    refine Emission.satisfied_append.mpr ⟨fun c hc => ?_, sat⟩
    obtain ⟨k, w, rfl⟩ := defines c hc
    exact True.intro
  · exact h.forces_bind

theorem Computes.admits_bind {m : Synth F D α} {f : α → Synth F D β} {a : α} {Q : β → Prop}
    (h : Computes m a) (rest : Admits z (f a) Q) : Admits z (m >>= f) Q :=
  h.admits.bind (by rintro _ rfl; exact rest)

end Computes
end Contracts
