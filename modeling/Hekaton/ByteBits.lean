import Hekaton.Bits
import Hekaton.PrimeFields
import Mathlib.Data.Nat.Bitwise

/-!
# Bytes as bits

The lowest bits of a number, and the bits of bytes, least significant first. A number cut
into bytes and a number cut into bits are the same list of bits, and a list of bits is
determined by its number.
-/

namespace ByteBits

open Codecs

/-- The lowest `n` bits of a number. -/
def bitsOf (n m : Nat) : List Bool := (List.range n).map m.testBit

@[simp] theorem bitsOf_length (n m : Nat) : (bitsOf n m).length = n := by
  rw [bitsOf, List.length_map, List.length_range]

theorem bitsOf_succ (n m : Nat) : bitsOf (n + 1) m = m.testBit 0 :: bitsOf n (m / 2) := by
  rw [bitsOf, List.range_succ_eq_map, List.map_cons, List.map_map, bitsOf]
  apply congrArg
  apply List.map_congr_left
  intro i _
  exact Nat.testBit_succ m i

theorem toNat_bitsOf (n m : Nat) : Bits.toNat (bitsOf n m) = m % 2 ^ n := by
  induction n generalizing m with
  | zero => rw [pow_zero, Nat.mod_one]; rfl
  | succ n ih =>
    have split := Nat.mod_mul (a := 2) (b := 2 ^ n) (x := m)
    rw [bitsOf_succ, Bits.toNat_cons, ih, pow_succ', split, Nat.testBit_zero]
    rcases Nat.mod_two_eq_zero_or_one m with even | odd
    · simp [even]
    · simp [odd]

theorem bitsOf_toNat (bits : List Bool) : bitsOf bits.length (Bits.toNat bits) = bits := by
  apply Bits.toNat_injective (bitsOf_length _ _)
  rw [toNat_bitsOf, Nat.mod_eq_of_lt (Bits.toNat_lt bits)]

theorem bitsOf_add (n k m : Nat) : bitsOf (n + k) m = bitsOf n m ++ bitsOf k (m / 2 ^ n) := by
  rw [bitsOf, List.range_add, List.map_append, List.map_map, bitsOf, bitsOf]
  apply congrArg
  apply List.map_congr_left
  intro i _
  simp [Nat.testBit_div_two_pow, Nat.add_comm]

theorem bitsOf_take {n k : Nat} (below : n ≤ k) (m : Nat) :
    (bitsOf k m).take n = bitsOf n m := by
  obtain ⟨j, rfl⟩ := Nat.exists_eq_add_of_le below
  rw [bitsOf_add, List.take_left' (bitsOf_length _ _)]

theorem bitsOf_drop (n k m : Nat) : (bitsOf (n + k) m).drop n = bitsOf k (m / 2 ^ n) := by
  rw [bitsOf_add, List.drop_left' (bitsOf_length _ _)]

theorem bitsOf_mod {n k : Nat} (below : n ≤ k) (m : Nat) : bitsOf n (m % 2 ^ k) = bitsOf n m := by
  apply List.map_congr_left
  intro i inside
  have low : i < k := (List.mem_range.mp inside).trans_le below
  simp [Nat.testBit_mod_two_pow, low]

/-- Bits above the number are zero. -/
theorem bitsOf_pad {n k m : Nat} (small : m < 2 ^ n) :
    bitsOf (n + k) m = bitsOf n m ++ List.replicate k false := by
  have zeros : bitsOf k 0 = List.replicate k false := by
    apply Bits.toNat_injective
    · rw [bitsOf_length, List.length_replicate]
    · rw [toNat_bitsOf, Nat.zero_mod]
      induction k with
      | zero => rfl
      | succ k ih => rw [List.replicate_succ, Bits.toNat_cons, ← ih]; rfl
  rw [bitsOf_add, Nat.div_eq_of_lt small, zeros]

def byteBits (byte : UInt8) : List Bool := bitsOf 8 byte.toNat

def bytesBits (bytes : List UInt8) : List Bool := bytes.flatMap byteBits

/-- The byte that eight bits stand for. -/
def byteOf (bits : List Bool) : UInt8 := UInt8.ofNat (Bits.toNat bits)

@[simp] theorem byteBits_length (byte : UInt8) : (byteBits byte).length = 8 := bitsOf_length _ _

@[simp] theorem byteOf_byteBits (byte : UInt8) : byteOf (byteBits byte) = byte := by
  rw [byteOf, byteBits, toNat_bitsOf, Nat.mod_eq_of_lt byte.toNat_lt, UInt8.ofNat_toNat]

theorem byteBits_byteOf {bits : List Bool} (width : bits.length = 8) :
    byteBits (byteOf bits) = bits := by
  have small : Bits.toNat bits < 256 := by
    have below := Bits.toNat_lt bits
    rwa [width] at below
  have number : (byteOf bits).toNat = Bits.toNat bits := UInt8.toNat_ofNat_of_lt' small
  rw [byteBits, number, ← width, bitsOf_toNat]

@[simp] theorem bytesBits_cons (byte : UInt8) (bytes : List UInt8) :
    bytesBits (byte :: bytes) = byteBits byte ++ bytesBits bytes := rfl

theorem bytesBits_length (bytes : List UInt8) : (bytesBits bytes).length = 8 * bytes.length := by
  induction bytes with
  | nil => rfl
  | cons byte bytes ih =>
    rw [bytesBits_cons, List.length_append, byteBits_length, List.length_cons]
    omega

theorem toNat_bytesBits (bytes : List UInt8) :
    Bits.toNat (bytesBits bytes) = fromLittleEndian bytes := by
  induction bytes with
  | nil => rfl
  | cons byte bytes ih =>
    have head : Bits.toNat (byteBits byte) = byte.toNat := by
      rw [byteBits, toNat_bitsOf, Nat.mod_eq_of_lt byte.toNat_lt]
    rw [bytesBits_cons, Bits.toNat_append, byteBits_length, head, ih, fromLittleEndian,
      show 2 ^ 8 = 256 from rfl]

/-- Bytes are the bits of their number. -/
theorem bytesBits_eq (bytes : List UInt8) :
    bytesBits bytes = bitsOf (8 * bytes.length) (fromLittleEndian bytes) := by
  rw [← toNat_bytesBits, ← bytesBits_length, bitsOf_toNat]

theorem bytesBits_take (n : Nat) (bytes : List UInt8) :
    bytesBits (bytes.take n) = (bytesBits bytes).take (8 * n) := by
  induction bytes generalizing n with
  | nil => simp [bytesBits]
  | cons byte bytes ih =>
    cases n with
    | zero => rfl
    | succ n =>
      have width : 8 * (n + 1) = (byteBits byte).length + 8 * n := by
        rw [byteBits_length, Nat.mul_succ, Nat.add_comm]
      rw [List.take_succ_cons, bytesBits_cons, bytesBits_cons, width, List.take_length_add_append,
        ih]

theorem bytesBits_drop (n : Nat) (bytes : List UInt8) :
    bytesBits (bytes.drop n) = (bytesBits bytes).drop (8 * n) := by
  induction bytes generalizing n with
  | nil => simp [bytesBits]
  | cons byte bytes ih =>
    cases n with
    | zero => rfl
    | succ n =>
      have width : 8 * (n + 1) = (byteBits byte).length + 8 * n := by
        rw [byteBits_length, Nat.mul_succ, Nat.add_comm]
      rw [List.drop_succ_cons, bytesBits_cons, width, List.drop_length_add_append, ih]

theorem bytesBits_littleEndian (k n : Nat) : bytesBits (littleEndian k n) = bitsOf (8 * k) n := by
  have number : fromLittleEndian (littleEndian k n) = n % 2 ^ (8 * k) := by
    induction k generalizing n with
    | zero => rw [Nat.mul_zero, pow_zero, Nat.mod_one]; rfl
    | succ k ih =>
      have split := Nat.mod_mul (a := 256) (b := 2 ^ (8 * k)) (x := n)
      have width : 2 ^ (8 * (k + 1)) = 256 * 2 ^ (8 * k) := by
        rw [Nat.mul_succ, pow_add, Nat.mul_comm, show 2 ^ 8 = 256 from rfl]
      rw [littleEndian, fromLittleEndian, ih, width, split]
      simp
  rw [bytesBits_eq, littleEndian_length, number, bitsOf_mod le_rfl]

end ByteBits
