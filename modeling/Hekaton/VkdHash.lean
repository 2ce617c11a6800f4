import Hekaton.Packing
import Hekaton.PrimeFields
import Mathlib.Data.Vector.Basic

/-!
# Hashes of the key directory

Bytes are cut into chunks of 27, each chunk is a field element, and the elements are
absorbed by a sponge of rate 3 that is not padded. A leaf digest is what is squeezed, cut to
27 bytes. Up to three elements are added to the zero state, so a short input leaves the state
of the input with zeros after it.
-/

namespace VkdHash

open Packing PrimeFields Codecs

abbrev innerHashSize : Nat := 27

/-- `[u8; INNER_HASH_SIZE]`. -/
abbrev InnerHash := List.Vector UInt8 innerHashSize

/-- The Poseidon hash of two elements, and the permutation of the sponge of rate 3. -/
structure Poseidon (F : Type) where
  twoToOne : F → F → F
  permute : (Fin 4 → F) → Fin 4 → F

/-- The capacity element comes first. -/
structure PoseidonSponge (F : Type) where
  state : Fin 4 → F
  nextAbsorbIndex : Nat

section Model
variable {F : Type} [Field F]

namespace PoseidonSponge

def new : PoseidonSponge F := ⟨fun _ => 0, 0⟩

/-- Add an element at the place after the capacity element. -/
def addAt (state : Fin 4 → F) (i : Nat) (x : F) : Fin 4 → F := fun j =>
  if j.val = 1 + i then state j + x else state j

def absorb (p : Poseidon F) (sponge : PoseidonSponge F) (x : F) : PoseidonSponge F :=
  if sponge.nextAbsorbIndex = 3 then ⟨addAt (p.permute sponge.state) 0 x, 1⟩
  else ⟨addAt sponge.state sponge.nextAbsorbIndex x, sponge.nextAbsorbIndex + 1⟩

end PoseidonSponge

variable [PrimeField F]

/-- The element of each chunk. -/
def fieldVector (value : List UInt8) : List F :=
  (chunks innerHashSize value).map fromLeBytesModOrder

/-- The state that is permuted for the squeeze. -/
def absorbed (p : Poseidon F) (value : List UInt8) : Fin 4 → F :=
  ((fieldVector value).foldl (PoseidonSponge.absorb p) PoseidonSponge.new).state

def squeezed (p : Poseidon F) (state : Fin 4 → F) : F := p.permute state 1

def hash (p : Poseidon F) (value : List UInt8) : List UInt8 :=
  toSpongeBytes (squeezed p (absorbed p value))

/-- The first 27 bytes of an element. -/
def truncated (x : F) : InnerHash :=
  ⟨(toSpongeBytes x).take innerHashSize, by
    rw [List.length_take, toSpongeBytes_length]
    decide⟩

def hashLeaf (p : Poseidon F) (leaf : List UInt8) : InnerHash :=
  ⟨(hash p leaf).take innerHashSize, (truncated (squeezed p (absorbed p leaf))).2⟩

def innerHashToField (digest : InnerHash) : F := fromLeBytesModOrder digest.toList

def hashInnerNode (p : Poseidon F) (left right : InnerHash) : InnerHash :=
  truncated (p.twoToOne (innerHashToField left) (innerHashToField right))

end Model

section Blocks
variable {F : Type} [Field F] {p : Poseidon F}

/-- The state after at most three elements. -/
def block (a b c : F) : Fin 4 → F := ![0, a, b, c]

theorem absorbed_two {value : List UInt8} {a b : F} (elements : fieldVector value = [a, b]) :
    absorbed p value = block a b 0 := by
  funext i
  rw [absorbed, elements]
  fin_cases i <;> simp [PoseidonSponge.absorb, PoseidonSponge.addAt, PoseidonSponge.new, block]

theorem absorbed_three {value : List UInt8} {a b c : F} (elements : fieldVector value = [a, b, c]) :
    absorbed p value = block a b c := by
  funext i
  rw [absorbed, elements]
  fin_cases i <;> simp [PoseidonSponge.absorb, PoseidonSponge.addAt, PoseidonSponge.new, block]

theorem fieldVector_two {value : List UInt8} (low : 27 < value.length)
    (high : value.length ≤ 54) : fieldVector value =
      [(fromLeBytesModOrder (value.take 27) : F), fromLeBytesModOrder (value.drop 27)] := by
  have count : (value.length + innerHashSize - 1) / innerHashSize = 2 := by
    change (value.length + 27 - 1) / 27 = 2
    omega
  have last : (value.drop 27).take 27 = value.drop 27 := by
    apply List.take_of_length_le
    rw [List.length_drop]
    omega
  rw [fieldVector, chunks, count]
  simp [List.range_succ, innerHashSize, last]

theorem fieldVector_three {value : List UInt8} (low : 54 < value.length)
    (high : value.length ≤ 81) : fieldVector value =
      [(fromLeBytesModOrder (value.take 27) : F), fromLeBytesModOrder ((value.drop 27).take 27),
        fromLeBytesModOrder (value.drop 54)] := by
  have count : (value.length + innerHashSize - 1) / innerHashSize = 3 := by
    change (value.length + 27 - 1) / 27 = 3
    omega
  have last : (value.drop 54).take 27 = value.drop 54 := by
    apply List.take_of_length_le
    rw [List.length_drop]
    omega
  rw [fieldVector, chunks, count]
  simp [List.range_succ, innerHashSize, last]

end Blocks

section Facts
variable {F : Type} [Field F] [PrimeField F] {p : Poseidon F}

@[simp] theorem hash_length (value : List UInt8) : (hash p value).length = 32 :=
  toSpongeBytes_length _

/-- The digest that is cut from a state. -/
def stateDigest (p : Poseidon F) (state : Fin 4 → F) : InnerHash := truncated (squeezed p state)

/-- A digest is read back from its element. -/
@[simp] theorem truncated_innerHashToField (digest : InnerHash) :
    truncated (innerHashToField digest : F) = digest := by
  have short : digest.toList.length ≤ 31 := by
    rw [digest.toList_length]
    decide
  apply Subtype.ext
  change (littleEndian (27 + 5) _).take 27 = digest.toList
  rw [innerHashToField, intoBigint_fromLeBytesModOrder short, littleEndian_take]
  exact (congrArg (littleEndian · _) digest.toList_length.symm).trans
    (littleEndian_fromLittleEndian _)

theorem innerHashToField_injective : Function.Injective (innerHashToField (F := F)) := by
  intro left right same
  have width : left.toList.length = right.toList.length := by
    rw [left.toList_length, right.toList_length]
  have short : left.toList.length ≤ 31 := by
    rw [left.toList_length]
    decide
  exact Subtype.ext (fromLeBytesModOrder_injective width short same)

/-- Leaves of one length between 55 and 81 bytes leave different states. -/
theorem absorbed_injective {value value' : List UInt8} (low : 54 < value.length)
    (high : value.length ≤ 81) (width : value.length = value'.length)
    (same : absorbed p value = absorbed p value') : value = value' := by
  have low' : 54 < value'.length := width ▸ low
  have high' : value'.length ≤ 81 := width ▸ high
  rw [absorbed_three (fieldVector_three low high), absorbed_three (fieldVector_three low' high')]
    at same
  have first := congrFun same 1
  have second := congrFun same 2
  have third := congrFun same 3
  simp only [block, Fin.isValue, Matrix.cons_val] at first second third
  have takes (n : Nat) : (value.take n).length = (value'.take n).length := by
    rw [List.length_take, List.length_take, width]
  have h₁ := fromLeBytesModOrder_injective (takes 27) (by simp) first
  have h₂ := fromLeBytesModOrder_injective (by simp [width]) (by simp) second
  have h₃ := fromLeBytesModOrder_injective (by simp [width]) (by simp; omega) third
  have rebuilt (l : List UInt8) :
      l = l.take 27 ++ ((l.drop 27).take 27 ++ l.drop 54) := by
    have cut : (l.drop 27).take 27 ++ (l.drop 27).drop 27 = l.drop 27 :=
      List.take_append_drop 27 (l.drop 27)
    rw [List.drop_drop] at cut
    rw [cut, List.take_append_drop]
  rw [rebuilt value, rebuilt value', h₁, h₂, h₃]

end Facts
end VkdHash
