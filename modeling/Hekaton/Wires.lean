import Mathlib.Algebra.Field.Defs
import Mathlib.Data.List.Basic

/-!
# Wires of a gadget-level constraint system

A wire is the expression a gadget hands back: a constant, an allocated variable,
or the output of another gadget. Wires are typed by the kind of value they carry,
so a Boolean wire cannot hold anything but a bit. `call` is the output of a gadget
for a function that the constraint library supplies, such as a hash.
-/

namespace Wires

/-- The kinds of value a wire carries. -/
inductive Kind where
  | field
  | bool
  | digest
  | fields
  deriving DecidableEq

/-- Values of a kind, over a field `F` and a type `D` of digests. -/
abbrev Kind.Val (F D : Type) : Kind → Type
  | .field => F
  | .bool => Bool
  | .digest => D
  | .fields => List F

instance (F D : Type) [DecidableEq F] [DecidableEq D] : (k : Kind) → DecidableEq (k.Val F D)
  | .field => inferInstanceAs (DecidableEq F)
  | .bool => inferInstanceAs (DecidableEq Bool)
  | .digest => inferInstanceAs (DecidableEq D)
  | .fields => inferInstanceAs (DecidableEq (List F))

instance (F D : Type) [Zero F] [Inhabited D] : (k : Kind) → Inhabited (k.Val F D)
  | .field => ⟨(0 : F)⟩
  | .bool => ⟨false⟩
  | .digest => inferInstanceAs (Inhabited D)
  | .fields => ⟨([] : List F)⟩

/-- A value for every variable of every kind. -/
abbrev Assignment (F D : Type) := (k : Kind) → Nat → k.Val F D

inductive Wire (F D : Type) : Kind → Type where
  | constant {k : Kind} (c : k.Val F D) : Wire F D k
  | var (k : Kind) (i : Nat) : Wire F D k
  | add (a b : Wire F D .field) : Wire F D .field
  | sub (a b : Wire F D .field) : Wire F D .field
  | mul (a b : Wire F D .field) : Wire F D .field
  | ofBool (b : Wire F D .bool) : Wire F D .field
  | isEq {k : Kind} (a b : Wire F D k) : Wire F D .bool
  | not (a : Wire F D .bool) : Wire F D .bool
  | and (a b : Wire F D .bool) : Wire F D .bool
  | or (a b : Wire F D .bool) : Wire F D .bool
  | xor (a b : Wire F D .bool) : Wire F D .bool
  | select {k : Kind} (c : Wire F D .bool) (a b : Wire F D k) : Wire F D k
  | nil : Wire F D .fields
  | cons (a : Wire F D .field) (as : Wire F D .fields) : Wire F D .fields
  | call {k l : Kind} (f : k.Val F D → l.Val F D) (a : Wire F D k) : Wire F D l
  | call₂ {k l m : Kind} (f : k.Val F D → l.Val F D → m.Val F D)
      (a : Wire F D k) (b : Wire F D l) : Wire F D m

namespace Wire
variable {F D : Type} [Field F] [DecidableEq F] [DecidableEq D]

/-- The value of a wire under an assignment of the allocated variables. -/
def eval (z : Assignment F D) : {k : Kind} → Wire F D k → k.Val F D
  | _, constant c => c
  | _, var k i => z k i
  | _, add a b => (a.eval z : F) + b.eval z
  | _, sub a b => (a.eval z : F) - b.eval z
  | _, mul a b => (a.eval z : F) * b.eval z
  | _, ofBool b => bif b.eval z then (1 : F) else 0
  | _, isEq a b => decide (a.eval z = b.eval z)
  | _, not a => Bool.not (a.eval z)
  | _, and a b => Bool.and (a.eval z) (b.eval z)
  | _, or a b => Bool.or (a.eval z) (b.eval z)
  | _, xor a b => Bool.xor (a.eval z) (b.eval z)
  | _, select c a b => bif c.eval z then a.eval z else b.eval z
  | _, nil => ([] : List F)
  | _, cons a as => (a.eval z : F) :: (as.eval z : List F)
  | _, call f a => f (a.eval z)
  | _, call₂ f a b => f (a.eval z) (b.eval z)

variable {z : Assignment F D} {k : Kind}

theorem eval_isEq {a b : Wire F D k} : (isEq a b).eval z = true ↔ a.eval z = b.eval z :=
  decide_eq_true_iff

theorem eval_or {a b : Wire F D .bool} :
    (or a b).eval z = true ↔ a.eval z = true ∨ b.eval z = true := Bool.or_eq_true_iff ..

theorem eval_and {a b : Wire F D .bool} :
    (and a b).eval z = true ↔ a.eval z = true ∧ b.eval z = true := Bool.and_eq_true_iff ..

end Wire
end Wires
