import Hekaton.Processes
import Mathlib.Data.Set.Basic
import Mathlib.Logic.Function.Basic

/-!
# Documents

Slots hold documents of their own types. A store loads and saves them over some state, and a
program over a store is a process over that state. Over the documents themselves a load finds
what is read back of what was saved last; one store simulates another where their loads and
saves do. A frame names the slots that a process may write.
-/

namespace Documents

open Processes

/-- What is in each slot, if anything. -/
abbrev Docs {Slot : Type} (Content : Slot → Type) : Type := ∀ slot, Option (Content slot)

structure Store {Slot : Type} (ε σ : Type) (Content : Slot → Type) where
  load : ∀ slot, Process ε σ (Content slot)
  save : ∀ slot, Content slot → Process ε σ Unit

variable {Slot : Type} {Content : Slot → Type} {ε ε' σ τ α β : Type}

/-- On related states one store loads what the other loads, and so it saves to these slots. -/
structure Store.Simulates (R : σ → τ → Prop) (slots : Set Slot) (store : Store ε σ Content)
    (store' : Store ε' τ Content) : Prop where
  load : ∀ slot, Process.Simulates R (store.load slot) (store'.load slot)
  save : ∀ slot ∈ slots, ∀ content,
    Process.Simulates R (store.save slot content) (store'.save slot content)

variable [DecidableEq Slot]

def Docs.put (docs : Docs Content) (slot : Slot) (content : Option (Content slot)) :
    Docs Content :=
  Function.update docs slot content

/-- The store over the documents themselves, where they may be read back as others or not. -/
def inMemory (readBack : ∀ slot, Content slot → Option (Content slot)) (missing : ε) :
    Store ε (Docs Content) Content where
  load slot := .reading fun docs =>
    match docs slot with
    | some content => .ok content
    | none => .error missing
  save slot content := .writing fun docs => .ok (docs.put slot (readBack slot content))

variable {readBack : ∀ slot, Content slot → Option (Content slot)} {missing : ε}

section Runs
variable {docs : Docs Content}

@[simp] theorem put_self (docs : Docs Content) (slot : Slot) (content : Option (Content slot)) :
    docs.put slot content slot = content := by
  simp [Docs.put]

theorem put_of_ne (docs : Docs Content) {slot slot' : Slot} (content : Option (Content slot))
    (other : slot' ≠ slot) : docs.put slot content slot' = docs slot' := by
  simp [Docs.put, other]

theorem load_run {slot : Slot} {content : Content slot} (held : docs slot = some content) :
    (inMemory readBack missing).load slot docs = (.ok content, docs) := by
  simp [inMemory, Process.reading, held]

/-- What is loaded was there. -/
theorem load_eq_ok {slot : Slot} {content : Content slot} {docs' : Docs Content} :
    (inMemory readBack missing).load slot docs = (.ok content, docs') ↔
      docs slot = some content ∧ docs' = docs := by
  cases held : docs slot with
  | none => simp [inMemory, Process.reading, held]
  | some content' =>
    rw [load_run held, Prod.mk.injEq, Except.ok.injEq, Option.some.injEq]
    exact and_congr Iff.rfl eq_comm

theorem load_toOption (slot : Slot) :
    ((inMemory readBack missing).load slot docs).1.toOption = docs slot := by
  cases held : docs slot <;> simp [inMemory, Process.reading, held, Except.toOption]

theorem save_run {slot : Slot} {content : Content slot}
    (back : readBack slot content = some content) (docs : Docs Content) :
    (inMemory readBack missing).save slot content docs = (.ok (), docs.put slot (some content)) := by
  simp [inMemory, Process.writing, back]

theorem save_eq_ok {slot : Slot} {content : Content slot} {docs' : Docs Content}
    (ran : (inMemory readBack missing).save slot content docs = (.ok (), docs')) :
    docs' = docs.put slot (readBack slot content) :=
  (congrArg Prod.snd ran).symm

/-- Values that are saved at their positions; nothing else changes. -/
theorem saves_run {slot : Nat → Slot} (distinct : Function.Injective slot)
    (value : ∀ i, α → Content (slot i)) (l : List α) (start : Nat) (docs : Docs Content)
    (back : ∀ p ∈ l.zipIdx start, readBack (slot p.2) (value p.2 p.1) = some (value p.2 p.1)) :
    ∃ docs', ((l.zipIdx start).forM fun p =>
        (inMemory readBack missing).save (slot p.2) (value p.2 p.1)) docs = (.ok (), docs') ∧
      (∀ p ∈ l.zipIdx start, docs' (slot p.2) = some (value p.2 p.1)) ∧
      ∀ slot', (∀ p ∈ l.zipIdx start, slot' ≠ slot p.2) → docs' slot' = docs slot' := by
  induction l generalizing start docs with
  | nil => exact ⟨docs, rfl, by simp, fun _ _ => rfl⟩
  | cons a l ih =>
    rw [List.zipIdx_cons] at back
    obtain ⟨first, rest⟩ := List.forall_mem_cons.mp back
    obtain ⟨docs', ran, saved, kept⟩ :=
      ih (start + 1) (docs.put (slot start) (some (value start a))) rest
    have later : ∀ p ∈ l.zipIdx (start + 1), slot start ≠ slot p.2 := by
      rintro ⟨b, i⟩ inside same
      have above := List.le_snd_of_mem_zipIdx inside
      have := distinct same
      omega
    refine ⟨docs', (Process.bind_of_ok (save_run first docs)).trans ran, ?_, ?_⟩
    · rw [List.zipIdx_cons, List.forall_mem_cons]
      exact ⟨(kept _ later).trans (put_self _ _ _), saved⟩
    · intro slot' other
      rw [List.zipIdx_cons, List.forall_mem_cons] at other
      exact (kept slot' other.2).trans (put_of_ne _ _ other.1)

end Runs

/-- Only these slots are written, however the process ends. -/
def Writes (slots : Set Slot) (p : Process ε (Docs Content) α) : Prop :=
  ∀ docs slot, slot ∉ slots → (p docs).2 slot = docs slot

namespace Writes
variable {slots : Set Slot} {p : Process ε (Docs Content) α}

omit [DecidableEq Slot] in
theorem lift (slots : Set Slot) (o : Except ε α) :
    Writes slots (.lift o : Process ε (Docs Content) α) := fun _ _ _ => rfl

theorem load (slots : Set Slot) (slot : Slot) :
    Writes slots ((inMemory readBack missing).load slot) := fun _ _ _ => rfl

theorem save (slot : Slot) (member : slot ∈ slots) (content : Content slot) :
    Writes slots ((inMemory readBack missing).save slot content) := by
  intro docs slot' outside
  exact put_of_ne docs _ fun same => outside (same ▸ member)

omit [DecidableEq Slot] in
theorem bind {next : α → Process ε (Docs Content) β} (first : Writes slots p)
    (rest : ∀ a, Writes slots (next a)) : Writes slots (p >>= next) := by
  intro docs slot outside
  cases ran : p docs with
  | mk outcome docs' =>
    have before := first docs slot outside
    rw [ran] at before
    cases outcome with
    | error e =>
      rw [Process.bind_of_error ran]
      exact before
    | ok a =>
      rw [Process.bind_of_ok ran]
      exact (rest a docs' slot outside).trans before

omit [DecidableEq Slot] in
theorem mapM {f : α → Process ε (Docs Content) β} (l : List α)
    (each : ∀ a ∈ l, Writes slots (f a)) : Writes slots (l.mapM f) := by
  induction l with
  | nil => exact lift slots (.ok [])
  | cons a l ih =>
    obtain ⟨first, rest⟩ := List.forall_mem_cons.mp each
    rw [List.mapM_cons]
    exact first.bind fun b => (ih rest).bind fun bs => lift slots (.ok (b :: bs))

omit [DecidableEq Slot] in
theorem forM {f : α → Process ε (Docs Content) Unit} (l : List α)
    (each : ∀ a ∈ l, Writes slots (f a)) : Writes slots (l.forM f) := by
  induction l with
  | nil => exact lift slots (.ok ())
  | cons a l ih =>
    obtain ⟨first, rest⟩ := List.forall_mem_cons.mp each
    exact first.bind fun _ => ih rest

end Writes
end Documents
