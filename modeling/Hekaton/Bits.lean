import Mathlib.Data.Nat.Digits.Lemmas

/-!
# Numbers as lists of bits

Least significant bit first. A clock of fixed width is incremented by flipping bits
until a zero is met, and two clocks of one width are compared from the most
significant bit down, at the first place where they differ.
-/

namespace Bits

/-- The number a list of bits stands for, least significant bit first. -/
def toNat (bits : List Bool) : Nat := Nat.ofDigits 2 (bits.map Bool.toNat)

@[simp] theorem toNat_nil : toNat [] = 0 := rfl

@[simp] theorem toNat_cons (b : Bool) (bits : List Bool) :
    toNat (b :: bits) = b.toNat + 2 * toNat bits := Nat.ofDigits_cons

theorem toNat_append (low high : List Bool) :
    toNat (low ++ high) = toNat low + 2 ^ low.length * toNat high := by
  simp only [toNat, List.map_append, Nat.ofDigits_append, List.length_map]

theorem toNat_lt (bits : List Bool) : toNat bits < 2 ^ bits.length := by
  have digits : ∀ d ∈ bits.map Bool.toNat, d < 2 := by
    intro d hd
    obtain ⟨b, _, rfl⟩ := List.mem_map.mp hd
    exact Bool.toNat_lt b
  have := Nat.ofDigits_lt_base_pow_length Nat.one_lt_two digits
  rwa [List.length_map] at this

/-- At one width, a list of bits is determined by its number. -/
theorem toNat_injective {bits bits' : List Bool} (width : bits.length = bits'.length)
    (h : toNat bits = toNat bits') : bits = bits' := by
  induction bits generalizing bits' with
  | nil => exact (List.eq_nil_of_length_eq_zero width.symm).symm
  | cons b bits ih =>
    obtain _ | ⟨b', bits'⟩ := bits'
    · cases width
    · rw [toNat_cons, toNat_cons] at h
      have hb := Bool.toNat_lt b
      have hb' := Bool.toNat_lt b'
      have tail : toNat bits = toNat bits' := by omega
      have head : b = b' := by
        cases b <;> cases b' <;> simp_all
      rw [head, ih (Nat.succ.inj width) tail]

/-- Add one, dropping the carry out of the last bit. -/
def increment : List Bool → List Bool
  | [] => []
  | false :: bits => true :: bits
  | true :: bits => false :: increment bits

@[simp] theorem length_increment (bits : List Bool) :
    (increment bits).length = bits.length := by
  induction bits with
  | nil => rfl
  | cons b bits ih =>
    cases b with
    | false => rfl
    | true => exact congrArg Nat.succ ih

theorem toNat_increment (bits : List Bool) :
    toNat (increment bits) = (toNat bits + 1) % 2 ^ bits.length := by
  induction bits with
  | nil => rfl
  | cons b bits ih =>
    have bound := toNat_lt bits
    cases b with
    | false =>
      simp only [increment, toNat_cons, Bool.toNat_true, Bool.toNat_false, List.length_cons,
        pow_succ]
      rw [Nat.mod_eq_of_lt (by omega)]
      omega
    | true =>
      simp only [increment, toNat_cons, Bool.toNat_true, Bool.toNat_false, List.length_cons,
        pow_succ, ih]
      rw [Nat.mul_comm (2 ^ bits.length) 2, show 1 + 2 * toNat bits + 1 = 2 * (toNat bits + 1) by
        omega, Nat.mul_mod_mul_left, Nat.zero_add]

/-- Compare from the most significant pair down: `greater` is the verdict so far and
`found` says whether a difference was met. -/
def greaterFrom (greater found : Bool) : List (Bool × Bool) → Bool
  | [] => greater
  | (a, b) :: rest =>
      let difference := !found && Bool.xor a b
      greaterFrom (bif difference then a && !b else greater) (found || difference) rest

theorem greaterFrom_found (greater : Bool) (pairs : List (Bool × Bool)) :
    greaterFrom greater true pairs = greater := by
  induction pairs with
  | nil => rfl
  | cons p pairs ih => exact ih

theorem toNat_reverse_cons (b : Bool) (bits : List Bool) :
    toNat (b :: bits).reverse = toNat bits.reverse + 2 ^ bits.length * b.toNat := by
  rw [List.reverse_cons, toNat_append, List.length_reverse, toNat_cons, toNat_nil, Nat.mul_zero,
    Nat.add_zero]

/-- The verdict is the comparison of the numbers. -/
theorem greaterFrom_eq {high high' : List Bool} (width : high.length = high'.length) :
    greaterFrom false false (high.zip high') =
      decide (toNat high'.reverse < toNat high.reverse) := by
  induction high generalizing high' with
  | nil =>
    rw [List.eq_nil_of_length_eq_zero width.symm]
    rfl
  | cons a high ih =>
    obtain _ | ⟨b, high'⟩ := high'
    · cases width
    · have same : high.length = high'.length := Nat.succ.inj width
      have bound := toNat_lt high.reverse
      have bound' := toNat_lt high'.reverse
      rw [List.length_reverse] at bound bound'
      rw [List.zip_cons_cons, greaterFrom, toNat_reverse_cons, toNat_reverse_cons, ← same]
      rw [← same] at bound'
      cases a <;> cases b
      · simpa using ih same
      · have below : ¬ toNat high'.reverse + 2 ^ high.length < toNat high.reverse := by omega
        simp [greaterFrom_found, below]
      · have above : toNat high'.reverse < toNat high.reverse + 2 ^ high.length := by omega
        simp [greaterFrom_found, above]
      · simpa using ih same

end Bits
