import Mathlib.Data.List.Forall2
import Mathlib.Data.List.Induction

/-!
# Processes

A process is a fallible program over a state: what it has changed stays when it fails. One
process simulates another where related states lead to related states and both succeed with
one value or both fail. A schedule runs processes one after another, however each of them ends.
-/

namespace Processes

/-- A program over a state; what it changed stays where it fails. -/
def Process (ε σ α : Type) : Type := σ → Except ε α × σ

namespace Process
variable {ε ε' σ τ α β γ : Type}

instance instMonad : Monad (Process ε σ) where
  pure a := fun s => (.ok a, s)
  bind p next := fun s =>
    match p s with
    | (.ok a, s') => next a s'
    | (.error e, s') => (.error e, s')

/-- A step that does not touch the state. -/
def lift (o : Except ε α) : Process ε σ α := fun s => (o, s)

def reading (f : σ → Except ε α) : Process ε σ α := fun s => (f s, s)

/-- A change of the state that is made or refused. -/
def writing (f : σ → Except ε σ) : Process ε σ Unit := fun s =>
  match f s with
  | .ok s' => (.ok (), s')
  | .error e => (.error e, s)

def mapError (f : ε → ε') (p : Process ε σ α) : Process ε' σ α := fun s =>
  match p s with
  | (.ok a, s') => (.ok a, s')
  | (.error e, s') => (.error (f e), s')

/-- The state after the process, however it ends. -/
def after (p : Process ε σ α) (s : σ) : σ := (p s).2

variable {p : Process ε σ α} {next : α → Process ε σ β} {s s' : σ}

@[simp] theorem pure_run (a : α) (s : σ) : (pure a : Process ε σ α) s = (.ok a, s) := rfl

@[simp] theorem lift_run (o : Except ε α) (s : σ) : (lift o : Process ε σ α) s = (o, s) := rfl

theorem bind_of_ok {a : α} (ran : p s = (.ok a, s')) : (p >>= next) s = next a s' := by
  change (match p s with
    | (.ok a, s') => next a s'
    | (.error e, s') => (.error e, s')) = _
  rw [ran]

theorem bind_of_error {e : ε} (ran : p s = (.error e, s')) :
    (p >>= next) s = (.error e, s') := by
  change (match p s with
    | (.ok a, s') => next a s'
    | (.error e, s') => (.error e, s')) = _
  rw [ran]

theorem lift_eq_ok {o : Except ε α} {a : α} :
    (lift o : Process ε σ α) s = (.ok a, s') ↔ o = .ok a ∧ s' = s := by
  rw [lift_run, Prod.mk.injEq, eq_comm (a := s)]

theorem after_of_run {outcome : Except ε α} (ran : p s = (outcome, s')) : p.after s = s' := by
  rw [after, ran]

/-- A process that succeeds has succeeded at each step. -/
theorem bind_eq_ok {b : β} : (p >>= next) s = (.ok b, s') ↔
    ∃ a s₁, p s = (.ok a, s₁) ∧ next a s₁ = (.ok b, s') := by
  cases ran : p s with
  | mk outcome s₁ =>
    cases outcome with
    | error e =>
      rw [bind_of_error ran]
      constructor
      · intro h
        cases h
      · rintro ⟨a, _, h, _⟩
        cases h
    | ok a =>
      rw [bind_of_ok ran]
      constructor
      · intro h
        exact ⟨a, s₁, rfl, h⟩
      · rintro ⟨_, _, h, rest⟩
        cases h
        exact rest

@[simp] theorem lift_ok_bind (a : α) (next : α → Process ε σ β) :
    (lift (.ok a) : Process ε σ α) >>= next = next a := rfl

theorem id_map (p : Process ε σ α) : id <$> p = p := by
  funext s
  change (p >>= fun a => Pure.pure a) s = p s
  cases ran : p s with
  | mk outcome s' =>
    cases outcome with
    | error e => rw [bind_of_error ran]
    | ok a =>
      rw [bind_of_ok ran]
      rfl

theorem bind_assoc (p : Process ε σ α) (next : α → Process ε σ β) (last : β → Process ε σ γ) :
    p >>= next >>= last = p >>= fun a => next a >>= last := by
  funext s
  cases ran : p s with
  | mk outcome s' =>
    cases outcome with
    | error e => rw [bind_of_error (bind_of_error ran), bind_of_error ran]
    | ok a =>
      have same : (p >>= next) s = next a s' := bind_of_ok ran
      rw [bind_of_ok ran]
      cases ran' : next a s' with
      | mk outcome' s'' =>
        rw [ran'] at same
        cases outcome' with
        | error e => rw [bind_of_error same, bind_of_error ran']
        | ok b => rw [bind_of_ok same, bind_of_ok ran']

instance instLawfulMonad : LawfulMonad (Process ε σ) :=
  .mk' _ id_map (fun _ _ => rfl) bind_assoc

/-- A loop whose steps read one thing after another and leave the state. -/
theorem mapM_range_run {f : Nat → Process ε σ β} {results : List β} {n : Nat}
    (size : results.length = n) (each : ∀ i b, results[i]? = some b → f i s = (.ok b, s)) :
    (List.range n).mapM f s = (.ok results, s) := by
  have loop : ∀ {l : List Nat} {bs : List β}, List.Forall₂ (fun i b => f i s = (.ok b, s)) l bs →
      l.mapM f s = (.ok bs, s) := by
    intro l bs steps
    induction steps with
    | nil => rfl
    | cons first _ ih =>
      rw [List.mapM_cons, bind_of_ok first, bind_of_ok ih]
      rfl
  apply loop
  rw [List.forall₂_iff_get]
  refine ⟨by simp [size], fun i _ inside => ?_⟩
  simpa using each i results[i] (List.getElem?_eq_getElem inside)

/-- A loop that only reads, and succeeds, has read each thing in the same state. -/
theorem mapM_range_eq_ok {f : Nat → Process ε σ β} (reads : ∀ i s, (f i s).2 = s)
    {results : List β} {n : Nat} (ran : (List.range n).mapM f s = (.ok results, s')) :
    s' = s ∧ results.length = n ∧ ∀ i b, results[i]? = some b → f i s = (.ok b, s) := by
  have loop : ∀ (l : List Nat) (bs : List β) (s' : σ), l.mapM f s = (.ok bs, s') →
      s' = s ∧ List.Forall₂ (fun i b => f i s = (.ok b, s)) l bs := by
    intro l
    induction l with
    | nil =>
      intro bs s' ran
      cases ran
      exact ⟨rfl, .nil⟩
    | cons i l ih =>
      intro bs s' ran
      rw [List.mapM_cons] at ran
      obtain ⟨b, s₁, first, ran₁⟩ := bind_eq_ok.mp ran
      obtain ⟨rest, s₂, later, ran₂⟩ := bind_eq_ok.mp ran₁
      have same : s₁ = s := by
        rw [← reads i s, first]
      rw [same] at first later
      obtain ⟨kept, steps⟩ := ih rest s₂ later
      cases ran₂
      exact ⟨kept, .cons first steps⟩
  obtain ⟨same, steps⟩ := loop _ _ _ ran
  have size := steps.length_eq
  rw [List.length_range] at size
  refine ⟨same, size.symm, fun i b found => ?_⟩
  obtain ⟨inside, rfl⟩ := List.getElem?_eq_some_iff.mp found
  have here := steps.get (by rw [List.length_range]; omega) inside
  simpa using here

theorem toOption_eq {outcome : Except ε α} {found : Option α}
    (same : ∀ a, outcome = .ok a ↔ found = some a) : outcome.toOption = found := by
  cases outcome with
  | ok a => exact ((same a).mp rfl).symm
  | error e =>
    cases found with
    | none => rfl
    | some a => cases (same a).mpr rfl

/-- Related states lead to related states, and both succeed with one value or both fail. -/
def Simulates (R : σ → τ → Prop) (p : Process ε σ α) (q : Process ε' τ α) : Prop :=
  ∀ s t, R s t → R (p s).2 (q t).2 ∧ (p s).1.toOption = (q t).1.toOption

namespace Simulates
variable {R : σ → τ → Prop} {p : Process ε σ α} {q : Process ε' τ α}

theorem pure (R : σ → τ → Prop) (a : α) :
    Simulates R (Pure.pure a : Process ε σ α) (Pure.pure a : Process ε' τ α) :=
  fun _ _ related => ⟨related, rfl⟩

theorem lift (R : σ → τ → Prop) (o : Except ε α) :
    Simulates R (.lift o : Process ε σ α) (.lift o : Process ε τ α) :=
  fun _ _ related => ⟨related, rfl⟩

theorem bind {next : α → Process ε σ β} {next' : α → Process ε' τ β} (first : Simulates R p q)
    (rest : ∀ a, Simulates R (next a) (next' a)) : Simulates R (p >>= next) (q >>= next') := by
  intro s t related
  obtain ⟨after, same⟩ := first s t related
  cases ran : p s with
  | mk outcome s' =>
    cases ran' : q t with
    | mk outcome' t' =>
      rw [ran, ran'] at after same
      cases outcome with
      | error e =>
        cases outcome' with
        | error e' =>
          rw [bind_of_error ran, bind_of_error ran']
          exact ⟨after, rfl⟩
        | ok b => cases same
      | ok a =>
        cases outcome' with
        | error e' => cases same
        | ok b =>
          cases same
          rw [bind_of_ok ran, bind_of_ok ran']
          exact rest a s' t' after

theorem mapM {f : α → Process ε σ β} {f' : α → Process ε' τ β} (l : List α)
    (each : ∀ a ∈ l, Simulates R (f a) (f' a)) : Simulates R (l.mapM f) (l.mapM f') := by
  induction l with
  | nil => exact pure R []
  | cons a l ih =>
    obtain ⟨first, rest⟩ := List.forall_mem_cons.mp each
    rw [List.mapM_cons, List.mapM_cons]
    exact first.bind fun b => (ih rest).bind fun bs => pure R (b :: bs)

theorem forM {f : α → Process ε σ Unit} {f' : α → Process ε' τ Unit} (l : List α)
    (each : ∀ a ∈ l, Simulates R (f a) (f' a)) : Simulates R (l.forM f) (l.forM f') := by
  induction l with
  | nil => exact pure R ()
  | cons a l ih =>
    obtain ⟨first, rest⟩ := List.forall_mem_cons.mp each
    exact first.bind fun _ => ih rest

end Simulates

/-- One process after another, however each of them ends. -/
def runAll (schedule : List (Process ε σ Unit)) (s : σ) : σ :=
  schedule.foldl (fun s p => p.after s) s

@[simp] theorem runAll_nil (s : σ) : runAll ([] : List (Process ε σ Unit)) s = s := rfl

@[simp] theorem runAll_cons (p : Process ε σ Unit) (schedule : List (Process ε σ Unit)) (s : σ) :
    runAll (p :: schedule) s = runAll schedule (p.after s) := rfl

@[simp] theorem runAll_append (first rest : List (Process ε σ Unit)) (s : σ) :
    runAll (first ++ rest) s = runAll rest (runAll first s) :=
  List.foldl_append

/-- What every process of a schedule keeps is kept. -/
theorem runAll_keeps {P : σ → Prop} (schedule : List (Process ε σ Unit))
    (each : ∀ p ∈ schedule, ∀ s, P s → P (p.after s)) {s : σ} (holds : P s) :
    P (runAll schedule s) := by
  induction schedule generalizing s with
  | nil => exact holds
  | cons p schedule ih =>
    obtain ⟨first, rest⟩ := List.forall_mem_cons.mp each
    exact ih rest (first s holds)

/-- What the last of the picked elements makes is kept by the elements that are not picked. -/
theorem runAll_last {γ : Type*} {ρ : Type} (exec : γ → Process ε σ Unit) {pick : γ → Option ρ}
    (Inv Q : σ → Prop) {last : ρ} (schedule : List γ)
    (keeps : ∀ c ∈ schedule, ∀ s, Inv s → Inv ((exec c).after s))
    (makes : ∀ c ∈ schedule, pick c = some last → ∀ s, Inv s → Q ((exec c).after s))
    (leaves : ∀ c ∈ schedule, pick c = none → ∀ s, Inv s → Q s → Q ((exec c).after s))
    (picked : (schedule.filterMap pick).getLast? = some last) {s : σ} (holds : Inv s) :
    Q (runAll (schedule.map exec) s) := by
  induction schedule using List.reverseRecOn with
  | nil => cases picked
  | append_singleton schedule c ih =>
    have member : ∀ c' ∈ schedule, c' ∈ schedule ++ [c] := fun _ inside =>
      List.mem_append_left _ inside
    have here : c ∈ schedule ++ [c] := List.mem_append_right _ List.mem_cons_self
    have before : Inv (runAll (schedule.map exec) s) := by
      apply runAll_keeps _ _ holds
      intro p mapped
      obtain ⟨c', inside, rfl⟩ := List.mem_map.mp mapped
      exact keeps c' (member c' inside)
    rw [List.map_append, runAll_append]
    rw [List.filterMap_append] at picked
    cases found : pick c with
    | none =>
      simp only [List.filterMap_cons, found, List.filterMap_nil, List.append_nil] at picked
      exact leaves c here found _ before (ih (fun c' inside => keeps c' (member c' inside))
        (fun c' inside => makes c' (member c' inside))
        (fun c' inside => leaves c' (member c' inside)) picked)
    | some r =>
      simp only [List.filterMap_cons, found, List.filterMap_nil, List.getLast?_concat] at picked
      cases picked
      exact makes c here found _ before

theorem runAll_simulates {R : σ → τ → Prop} {schedule : List (Process ε σ Unit)}
    {schedule' : List (Process ε' τ Unit)} (each : List.Forall₂ (Simulates R) schedule schedule')
    {s : σ} {t : τ} (related : R s t) : R (runAll schedule s) (runAll schedule' t) := by
  induction each generalizing s t with
  | nil => exact related
  | cons first _ ih => exact ih (first s t related).1

end Process
end Processes
