import Mathlib.Data.List.Basic

/-!
# Outcomes of fallible code

A call returns a value, returns an error, or panics with its message. The lemmas
peel a sequence of calls apart, so that no later proof unfolds a bind.
-/

namespace Outcomes

/-- Ways a call fails: a panic with its text, or a returned error. -/
inductive Fault where
  | panic (message : String)
  | malformedVerifyingKey
  | unexpectedIdentity
  | assignmentMissing
  | polynomialDegreeTooLarge
  | serialization
  deriving DecidableEq, Repr

abbrev Outcome := Except Fault

def panicWith {α : Type*} (message : String) : Outcome α := .error (.panic message)

def unwrapNone : String := "called `Option::unwrap()` on a `None` value"

/-- `Option::expect`, and `unwrap` with the text above. -/
def expect {α : Type} (message : String) : Option α → Outcome α
  | some a => .ok a
  | none => panicWith message

variable {α β : Type}

theorem bind_eq_ok {m : Outcome α} {f : α → Outcome β} {b : β} :
    (m >>= f) = .ok b ↔ ∃ a, m = .ok a ∧ f a = .ok b := by
  cases m with
  | error e =>
    constructor
    · intro h
      cases h
    · rintro ⟨_, h, _⟩
      cases h
  | ok a => exact ⟨fun h => ⟨a, rfl, h⟩, fun ⟨_, h, hf⟩ => by cases h; exact hf⟩

@[simp] theorem ok_bind (a : α) (f : α → Outcome β) : ((.ok a : Outcome α) >>= f) = f a := rfl

@[simp] theorem error_bind (e : Fault) (f : α → Outcome β) :
    ((.error e : Outcome α) >>= f) = .error e := rfl

@[simp] theorem expect_eq_ok {message : String} {o : Option α} {a : α} :
    expect message o = .ok a ↔ o = some a := by
  cases o <;> simp [expect, panicWith]

theorem ok_of_toOption {o : Outcome α} {a : α} (ran : o.toOption = some a) : o = .ok a := by
  cases o with
  | error fault => cases ran
  | ok b =>
    cases ran
    rfl

@[simp] theorem expect_some (message : String) (a : α) : expect message (some a) = .ok a := rfl

/-- A loop whose every step succeeds succeeds, with the steps' results in order. -/
theorem mapM_eq_ok {f : α → Outcome β} {g : α → β} {l : List α}
    (h : ∀ a ∈ l, f a = .ok (g a)) : l.mapM f = .ok (l.map g) := by
  induction l with
  | nil => rfl
  | cons a l ih =>
    have ha := h a List.mem_cons_self
    have hl := ih (fun b hb => h b (List.mem_cons_of_mem a hb))
    simp only [List.mapM_cons, ha, hl, ok_bind, List.map_cons]
    rfl

/-- A loop of checks passes when every check does. -/
theorem forM_eq_ok {f : α → Outcome Unit} {l : List α} :
    l.forM f = .ok () ↔ ∀ a ∈ l, f a = .ok () := by
  induction l with
  | nil => exact iff_of_true rfl nofun
  | cons a l ih =>
    change (f a >>= fun _ => l.forM f) = .ok () ↔ _
    rw [bind_eq_ok, List.forall_mem_cons, ← ih]
    constructor
    · rintro ⟨_, first, rest⟩
      exact ⟨first, rest⟩
    · rintro ⟨first, rest⟩
      exact ⟨(), first, rest⟩

/-- The results of a loop that succeeds are those of its steps. -/
theorem forall₂_of_mapM {f : α → Outcome β} {l : List α} {results : List β}
    (ran : l.mapM f = .ok results) : List.Forall₂ (fun a b => f a = .ok b) l results := by
  induction l generalizing results with
  | nil =>
    cases ran
    exact .nil
  | cons a l ih =>
    rw [List.mapM_cons] at ran
    obtain ⟨b, first, rest⟩ := bind_eq_ok.mp ran
    obtain ⟨later, ranRest, same⟩ := bind_eq_ok.mp rest
    cases same
    exact .cons first (ih ranRest)

theorem mapM_of_forall₂ {f : α → Outcome β} {l : List α} {results : List β}
    (each : List.Forall₂ (fun a b => f a = .ok b) l results) : l.mapM f = .ok results := by
  induction each with
  | nil => rfl
  | cons first _ ih =>
    rw [List.mapM_cons, first, ok_bind, ih]
    rfl

/-- The result of a run that succeeds. -/
def result {α : Type} : (o : Outcome α) → o.isOk = true → α
  | .ok a, _ => a

theorem eq_ok_result {α : Type} {o : Outcome α} (ok : o.isOk = true) : o = .ok (result o ok) := by
  cases o with
  | error e => cases ok
  | ok a => rfl

end Outcomes
