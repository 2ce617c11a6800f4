import Hekaton.PrimeFields
import Mathlib.Data.Nat.Size

/-!
# Prime fields of any size

What the circuits that are generic in their field use of it: the integers of its elements,
below the modulus. Elements are compared as these integers.
-/

namespace PrimeOrders

open Codecs PrimeFields

/-- A field of prime order with the integers of its elements. -/
class PrimeOrder (F : Type) [Field F] where
  modulus : Nat
  intoBigint : F → Nat
  intoBigint_lt : ∀ x, intoBigint x < modulus
  cast_intoBigint : ∀ x, (intoBigint x : F) = x
  intoBigint_natCast : ∀ n : Nat, n < modulus → intoBigint (n : F) = n

instance {F : Type} [Field F] [PrimeField F] : PrimeOrder F where
  modulus := PrimeField.modulus F
  intoBigint := PrimeField.intoBigint
  intoBigint_lt := PrimeField.intoBigint_lt
  cast_intoBigint := PrimeField.cast_intoBigint
  intoBigint_natCast := PrimeField.intoBigint_natCast

variable {F : Type} [Field F] [PrimeOrder F]

/-- `MODULUS_BIT_SIZE`. -/
def modulusBitSize (F : Type) [Field F] [PrimeOrder F] : Nat := (PrimeOrder.modulus F).size

/-- The order of elements. -/
def le (x y : F) : Bool := decide (PrimeOrder.intoBigint x ≤ PrimeOrder.intoBigint y)

def lt (x y : F) : Bool := decide (PrimeOrder.intoBigint x < PrimeOrder.intoBigint y)

theorem intoBigint_injective {x y : F}
    (same : PrimeOrder.intoBigint x = PrimeOrder.intoBigint y) : x = y := by
  rw [← PrimeOrder.cast_intoBigint x, same, PrimeOrder.cast_intoBigint]

theorem modulus_pos : 0 < PrimeOrder.modulus F :=
  Nat.lt_of_le_of_lt (Nat.zero_le _) (PrimeOrder.intoBigint_lt (0 : F))

theorem intoBigint_zero : PrimeOrder.intoBigint (0 : F) = 0 := by
  have cast := PrimeOrder.intoBigint_natCast (F := F) 0 modulus_pos
  rwa [Nat.cast_zero] at cast

/-- Only a multiple of the modulus below it is zero, and that is nought. -/
theorem natCast_modulus : (PrimeOrder.modulus F : F) = 0 := by
  have rest := PrimeOrder.intoBigint_lt (PrimeOrder.modulus F : F)
  have back := PrimeOrder.cast_intoBigint (PrimeOrder.modulus F : F)
  by_cases none : PrimeOrder.intoBigint (PrimeOrder.modulus F : F) = 0
  · rw [← back, none, Nat.cast_zero]
  · have zero : ((PrimeOrder.modulus F - PrimeOrder.intoBigint (PrimeOrder.modulus F : F) : Nat) :
        F) = 0 := by
      rw [Nat.cast_sub rest.le, back, sub_self]
    have same := PrimeOrder.intoBigint_natCast (F := F)
      (PrimeOrder.modulus F - PrimeOrder.intoBigint (PrimeOrder.modulus F : F)) (by omega)
    rw [zero, intoBigint_zero] at same
    omega

/-- One more, unless it is the modulus. -/
theorem intoBigint_add_one {x : F} (notLast : x + 1 ≠ 0) :
    PrimeOrder.intoBigint (x + 1) = PrimeOrder.intoBigint x + 1 := by
  have cast : ((PrimeOrder.intoBigint x + 1 : Nat) : F) = x + 1 := by
    rw [Nat.cast_add, PrimeOrder.cast_intoBigint, Nat.cast_one]
  have below := PrimeOrder.intoBigint_lt x
  have inside : PrimeOrder.intoBigint x + 1 < PrimeOrder.modulus F := by
    by_contra full
    have last : PrimeOrder.intoBigint x + 1 = PrimeOrder.modulus F := by omega
    rw [last, natCast_modulus] at cast
    exact notLast cast.symm
  rw [← cast, PrimeOrder.intoBigint_natCast _ inside]

end PrimeOrders
