import Hekaton.Codecs
import Mathlib.Algebra.Field.ZMod
import Mathlib.NumberTheory.LucasPrimality
import Mathlib.Tactic.NormNum.Prime

/-!
# Prime fields of 255 bits

The operations of the field library on a field whose modulus has 255 bits: the integer of
an element, its 32 bytes, and the element that bytes stand for modulo the order. Bytes of
numbers below the modulus are determined by their element.
-/

namespace PrimeFields

open Codecs

/-- A field of prime order with the integers of its elements. -/
class PrimeField (F : Type) [Field F] where
  modulus : Nat
  intoBigint : F → Nat
  intoBigint_lt : ∀ x, intoBigint x < modulus
  cast_intoBigint : ∀ x, (intoBigint x : F) = x
  intoBigint_natCast : ∀ n : Nat, n < modulus → intoBigint (n : F) = n
  large : 2 ^ 254 < modulus
  fits : modulus < 2 ^ 255

section Bytes
variable {F : Type} [Field F] [PrimeField F]

def fromLeBytesModOrder (bytes : List UInt8) : F := (fromLittleEndian bytes : F)

/-- `to_sponge_bytes_as_vec`. -/
def toSpongeBytes (x : F) : List UInt8 := littleEndian 32 (PrimeField.intoBigint x)

@[simp] theorem toSpongeBytes_length (x : F) : (toSpongeBytes x).length = 32 :=
  littleEndian_length 32 _

/-- Numbers below the modulus have different elements. -/
theorem natCast_injOn {m n : Nat} (hm : m < PrimeField.modulus F) (hn : n < PrimeField.modulus F)
    (same : (m : F) = n) : m = n := by
  rw [← PrimeField.intoBigint_natCast m hm, ← PrimeField.intoBigint_natCast n hn, same]

theorem fromLittleEndian_lt_modulus {bytes : List UInt8} (short : bytes.length ≤ 31) :
    fromLittleEndian bytes < PrimeField.modulus F := by
  have below := fromLittleEndian_lt bytes
  have width : 256 ^ bytes.length ≤ 256 ^ 31 := Nat.pow_le_pow_right (by decide) short
  have large : 2 ^ 254 < PrimeField.modulus F := PrimeField.large
  have small : 256 ^ 31 ≤ 2 ^ 254 := by decide
  omega

theorem intoBigint_fromLeBytesModOrder {bytes : List UInt8} (short : bytes.length ≤ 31) :
    PrimeField.intoBigint (fromLeBytesModOrder bytes : F) = fromLittleEndian bytes :=
  PrimeField.intoBigint_natCast _ (fromLittleEndian_lt_modulus short)

end Bytes

/-- Bytes of one length are determined by their number. -/
theorem fromLittleEndian_injective {bytes bytes' : List UInt8}
    (width : bytes.length = bytes'.length)
    (same : fromLittleEndian bytes = fromLittleEndian bytes') : bytes = bytes' := by
  induction bytes generalizing bytes' with
  | nil => exact (List.eq_nil_of_length_eq_zero width.symm).symm
  | cons byte bytes ih =>
    obtain _ | ⟨byte', bytes'⟩ := bytes'
    · cases width
    · have low := byte.toNat_lt
      have low' := byte'.toNat_lt
      rw [fromLittleEndian, fromLittleEndian] at same
      have tail : fromLittleEndian bytes = fromLittleEndian bytes' := by omega
      have head : byte = byte' := UInt8.toNat_inj.mp (by omega)
      rw [head, ih (Nat.succ.inj width) tail]

theorem littleEndian_take (k m n : Nat) :
    (littleEndian (k + m) n).take k = littleEndian k n := by
  induction k generalizing n with
  | zero => rw [List.take_zero, littleEndian]
  | succ k ih => rw [Nat.succ_add, littleEndian, littleEndian, List.take_succ_cons, ih]

theorem littleEndian_fromLittleEndian (bytes : List UInt8) :
    littleEndian bytes.length (fromLittleEndian bytes) = bytes := by
  apply fromLittleEndian_injective (littleEndian_length _ _)
  exact fromLittleEndian_littleEndian (fromLittleEndian_lt bytes)

section Bytes
variable {F : Type} [Field F] [PrimeField F]

/-- Up to 31 bytes are determined by their element. -/
theorem fromLeBytesModOrder_injective {bytes bytes' : List UInt8}
    (width : bytes.length = bytes'.length) (short : bytes.length ≤ 31)
    (same : (fromLeBytesModOrder bytes : F) = fromLeBytesModOrder bytes') : bytes = bytes' := by
  apply fromLittleEndian_injective width
  apply natCast_injOn (F := F) (fromLittleEndian_lt_modulus short) _ same
  exact fromLittleEndian_lt_modulus (width ▸ short)

end Bytes

/-- The order of the scalar field. -/
def blsModulus : Nat :=
  52435875175126190479447740508185965837690552500527637822603658699938581184513

/-- Square and multiply on the binary digits of the exponent, with `fuel` digits at most. -/
def powMod (m : Nat) : Nat → Nat → Nat → Nat
  | 0, _, _ => 1
  | fuel + 1, base, exponent =>
      let rest := powMod m fuel (base * base % m) (exponent / 2)
      if exponent % 2 = 1 then base * rest % m else rest

theorem powMod_cast {m fuel exponent : Nat} (base : Nat) (digits : exponent < 2 ^ fuel) :
    (powMod m fuel base exponent : ZMod m) = (base : ZMod m) ^ exponent := by
  induction fuel generalizing base exponent with
  | zero =>
    have none : exponent = 0 := by omega
    rw [none, powMod, Nat.cast_one, pow_zero]
  | succ fuel ih =>
    have half : exponent / 2 < 2 ^ fuel := by omega
    have square : ((base * base % m : Nat) : ZMod m) ^ (exponent / 2) =
        (base : ZMod m) ^ (2 * (exponent / 2)) := by
      rw [ZMod.natCast_mod, Nat.cast_mul, ← pow_two, ← pow_mul]
    rw [powMod]
    split
    · rename_i odd
      have exact : exponent = 2 * (exponent / 2) + 1 := by omega
      rw [ZMod.natCast_mod, Nat.cast_mul, ih _ half, square]
      conv_rhs => rw [exact, pow_succ']
    · have exact : exponent = 2 * (exponent / 2) := by omega
      rw [ih _ half, square, ← exact]

/-- The primes that divide the order less one. -/
def blsFactors : List Nat :=
  [2, 3, 11, 19, 10177, 125527, 859267, 906349, 2508409, 2529403, 52437899, 254760293]

theorem blsFactors_prime : ∀ q ∈ blsFactors, q.Prime := by
  intro q listed
  simp only [blsFactors, List.mem_cons, List.not_mem_nil, or_false] at listed
  rcases listed with rfl | rfl | rfl | rfl | rfl | rfl | rfl | rfl | rfl | rfl | rfl | rfl <;>
    norm_num

theorem blsModulus_pred : blsModulus - 1 =
    2 ^ 32 * 3 * 11 * 19 * 10177 * 125527 * 859267 * 906349 ^ 2 * 2508409 * 2529403 * 52437899 *
      254760293 ^ 2 := by
  decide +kernel

theorem mem_blsFactors {q : Nat} (prime : q.Prime) (divides : q ∣ blsModulus - 1) :
    q ∈ blsFactors := by
  have eq {p : Nat} (listed : p ∈ blsFactors) (below : q ∣ p) : q ∈ blsFactors := by
    rwa [(Nat.prime_dvd_prime_iff_eq prime (blsFactors_prime p listed)).mp below]
  rw [blsModulus_pred] at divides
  simp only [prime.dvd_mul] at divides
  rcases divides with
    ((((((((((two | h) | h) | h) | h) | h) | h) | square) | h) | h) | h) | square'
  · exact eq (by decide) (prime.dvd_of_dvd_pow two)
  all_goals first
    | exact eq (by decide) h
    | exact eq (by decide) (prime.dvd_of_dvd_pow square)
    | exact eq (by decide) (prime.dvd_of_dvd_pow square')

theorem blsModulus_prime : blsModulus.Prime := by
  have power (exponent : Nat) (digits : exponent < 2 ^ 256) :
      (powMod blsModulus 256 7 exponent : ZMod blsModulus) = 7 ^ exponent :=
    (powMod_cast 7 digits).trans (by rw [Nat.cast_ofNat])
  apply lucas_primality blsModulus 7
  · rw [← power _ (by decide), show powMod blsModulus 256 7 (blsModulus - 1) = 1 by decide +kernel,
      Nat.cast_one]
  · intro q prime divides one
    have residues : ∀ p ∈ blsFactors,
        powMod blsModulus 256 7 ((blsModulus - 1) / p) % blsModulus ≠ 1 := by
      decide +kernel
    have small : (blsModulus - 1) / q < 2 ^ 256 :=
      lt_of_le_of_lt (Nat.div_le_self _ _) (by decide)
    have same : (powMod blsModulus 256 7 ((blsModulus - 1) / q) : ZMod blsModulus) =
        (1 : Nat) := by
      rw [power _ small, one, Nat.cast_one]
    exact residues q (mem_blsFactors prime divides) ((ZMod.natCast_eq_natCast_iff' ..).mp same)

instance : Fact blsModulus.Prime := ⟨blsModulus_prime⟩

abbrev Bls12381Fr : Type := ZMod blsModulus

instance : PrimeField Bls12381Fr where
  modulus := blsModulus
  intoBigint := ZMod.val
  intoBigint_lt := ZMod.val_lt
  cast_intoBigint := ZMod.natCast_zmod_val
  intoBigint_natCast _ below := ZMod.val_cast_of_lt below
  large := by decide
  fits := by decide

end PrimeFields
