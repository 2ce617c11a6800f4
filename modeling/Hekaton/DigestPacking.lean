import Hekaton.PrimeOrders
import Hekaton.TreeHashCircuit

/-!
# Digests as field elements

A digest is packed into the element of its first 27 bytes and read back from the lowest bits
of an element. Both gadgets work over every prime field with enough bits for a digest, also
where the number of bits is no multiple of 8: the packed bits lie below the modulus, so
nothing is lost on the way to the element and back.
-/

namespace DigestPacking

open Outcomes Wires Synthesis Contracts Uint32 Packing PrimeFields Codecs ByteBits VkdHash HonestRuns
open FieldGadgets TreeHashCircuit PrimeOrders

section Model
variable {F D : Type} [Field F] [PrimeOrder F]

def bitWire (w : Wire F D .field) (i : Nat) : Wire F D .bool :=
  .call (k := .field) (l := .bool) (fun x : F => (PrimeOrder.intoBigint x).testBit i) w

def toBitsLe (w : Wire F D .field) : Synth F D (List (Wire F D .bool)) :=
  (List.range (modulusBitSize F)).mapM fun i => Synth.define (bitWire w i)

/-- The first 27 bytes of an element; where the last chunk is short, it is not among them. -/
def fpvarToDigest (w : Wire F D .field) : Synth F D (List (UInt8Var F D)) := do
  let bits ← toBitsLe w
  Synth.lift (((chunks 8 bits).take innerHashSize).mapM UInt8Var.fromBitsLe)

/-- `inner_hash_to_fpvar`. -/
def innerHashToFpvar (digest : InnerHash) (mode : AllocationMode) :
    Synth F D (Wire F D .field) :=
  Synth.newVariable mode .field (fromLeBytesModOrder digest.toList)

end Model

/-- For a modulus of 255 bits this is the gadget of the circuits. -/
theorem fpvarToDigest_eq {F D : Type} [Field F] [PrimeField F] (w : Wire F D .field) :
    fpvarToDigest w = FieldGadgets.fpvarToDigest w := by
  have size : modulusBitSize F = FieldGadgets.modulusBitSize := by
    apply le_antisymm
    · exact Nat.size_le.mpr PrimeField.fits
    · exact Nat.lt_size.mpr (Nat.le_of_lt (PrimeField.large (F := F)))
  rw [fpvarToDigest, toBitsLe, size]
  rfl

section Values
variable {F D : Type} [Field F] [PrimeOrder F] [DecidableEq F] [DecidableEq D]
variable {z : Assignment F D}

omit [DecidableEq F] [DecidableEq D] in
theorem toBitsLe_computes (w : Wire F D .field) :
    Computes (toBitsLe w) ((List.range (modulusBitSize F)).map (bitWire w)) :=
  computes_mapM fun _ _ => .define _

theorem values_bitWires (n : Nat) (w : Wire F D .field) :
    values z ((List.range n).map (bitWire w)) = bitsOf n (PrimeOrder.intoBigint (w.eval z : F)) := by
  rw [values, List.map_map]
  rfl

omit [DecidableEq F] in
theorem intoBigint_fromLeBytesModOrder {bytes : List UInt8}
    (below : fromLittleEndian bytes < PrimeOrder.modulus F) :
    PrimeOrder.intoBigint (fromLeBytesModOrder bytes : F) = fromLittleEndian bytes :=
  PrimeOrder.intoBigint_natCast _ below

variable (large : 2 ^ 216 < PrimeOrder.modulus F)
include large

omit [DecidableEq F] in
/-- The number of a digest lies below the modulus. -/
theorem digest_lt_modulus {bytes : List UInt8} (short : bytes.length ≤ innerHashSize) :
    fromLittleEndian bytes < PrimeOrder.modulus F := by
  have below := fromLittleEndian_lt bytes
  have width : 256 ^ bytes.length ≤ 256 ^ 27 := Nat.pow_le_pow_right (by decide) short
  have digest : 256 ^ 27 = 2 ^ 216 := by decide
  omega

theorem intoBigint_digestToFpvar (vs : List (UInt8Var F D)) :
    PrimeOrder.intoBigint ((digestToFpvar vs).eval z : F) =
      fromLittleEndian ((bytesValue z vs).take innerHashSize) := by
  rw [digestToFpvar_eval]
  apply intoBigint_fromLeBytesModOrder
  exact digest_lt_modulus large (List.length_take_le _ _)

/-- The bytes that are read back are the lowest 27 of the element's integer. -/
theorem fpvarToDigest_computes (w : Wire F D .field) :
    ∃ vs, Computes (fpvarToDigest w) vs ∧ vs.length = innerHashSize ∧
      ∀ z : Assignment F D, bytesValue z vs =
        littleEndian innerHashSize (PrimeOrder.intoBigint (w.eval z : F)) := by
  have width : ((List.range (modulusBitSize F)).map (bitWire w)).length = modulusBitSize F := by
    rw [List.length_map, List.length_range]
  have bits : 8 * innerHashSize ≤ modulusBitSize F :=
    Nat.le_of_lt (Nat.lt_size.mpr (Nat.le_of_lt large))
  have enough : 8 * innerHashSize ≤ ((List.range (modulusBitSize F)).map (bitWire w)).length := by
    rwa [width]
  obtain ⟨vs, run, count, same⟩ := mapM_fromBitsLe (k := innerHashSize)
    (by rw [List.length_take, Nat.min_eq_left enough])
  refine ⟨vs, (toBitsLe_computes w).bind (.lift ?_), count, fun z => ?_⟩
  · rw [chunks_take (by decide) enough, run]
  · apply bytesValue_of_values (by rw [count, littleEndian_length])
    have all := values_bitWires (z := z) (modulusBitSize F) w
    rw [values] at all
    rw [same, bytesBits_littleEndian, values, List.map_take, all, bitsOf_take bits]

/-- Bytes that are packed and read back. -/
theorem digest_roundTrip {digest : List (UInt8Var F D)} (long : innerHashSize ≤ digest.length) :
    ∃ back, Computes (fpvarToDigest (digestToFpvar digest)) back ∧
      ∀ z : Assignment F D, bytesValue z back = (bytesValue z digest).take innerHashSize := by
  obtain ⟨back, run, _, value⟩ := fpvarToDigest_computes large (digestToFpvar digest)
  refine ⟨back, run, fun z => ?_⟩
  have count : ((bytesValue z digest).take innerHashSize).length = innerHashSize := by
    rw [List.length_take, bytesValue_length, Nat.min_eq_left long]
  have whole := littleEndian_fromLittleEndian ((bytesValue z digest).take innerHashSize)
  rw [count] at whole
  rw [value, intoBigint_digestToFpvar large, whole]

/-- An element that is read as a digest and packed again keeps its lowest 216 bits. -/
theorem element_roundTrip (w : Wire F D .field) :
    ∃ digest, Computes (fpvarToDigest w) digest ∧ ∀ z : Assignment F D,
      PrimeOrder.intoBigint ((digestToFpvar digest).eval z : F) =
        PrimeOrder.intoBigint (w.eval z : F) % 2 ^ 216 := by
  obtain ⟨digest, run, count, value⟩ := fpvarToDigest_computes large w
  refine ⟨digest, run, fun z => ?_⟩
  rw [intoBigint_digestToFpvar large, value,
    List.take_of_length_le (le_of_eq (littleEndian_length _ _)), ← toNat_bytesBits,
    bytesBits_littleEndian, toNat_bitsOf, show 8 * innerHashSize = 216 from rfl]

/-- Digests of 27 bytes are determined by their element. -/
theorem digestToFpvar_injective {vs vs' : List (UInt8Var F D)} (size : vs.length = innerHashSize)
    (size' : vs'.length = innerHashSize)
    (same : ((digestToFpvar vs).eval z : F) = (digestToFpvar vs').eval z) :
    bytesValue z vs = bytesValue z vs' := by
  have number := congrArg PrimeOrder.intoBigint same
  rw [intoBigint_digestToFpvar large, intoBigint_digestToFpvar large,
    List.take_of_length_le (by rw [bytesValue_length, size]),
    List.take_of_length_le (by rw [bytesValue_length, size'])] at number
  apply fromLittleEndian_injective _ number
  rw [bytesValue_length, bytesValue_length, size, size']

end Values

section Codec
variable {F : Type} [Field F] [PrimeOrder F] [DecidableEq F]

/-- The wires of a digest and the native element of it. -/
structure NativeElement (D : Type) [Inhabited D] [DecidableEq D] (z : Assignment F D)
    (vs : List (UInt8Var F D)) (digest : InnerHash) : Prop where
  integer : PrimeOrder.intoBigint ((digestToFpvar vs).eval z : F) = fromLittleEndian digest.toList
  element : ((digestToFpvar vs).eval z : F) = fromLeBytesModOrder digest.toList
  innerHash : ∀ (vars : List (Variable F D)) (mode : AllocationMode),
    Decides vars (innerHashToFpvar digest mode) True
      fun now w => Valued now w ((digestToFpvar vs).eval z : F)
  input : ∀ vars : List (Variable F D), Decides vars (inputDigest digest) True
      fun now w => Valued now w ((digestToFpvar vs).eval z : F)

theorem nativeElement {D : Type} [Inhabited D] [DecidableEq D]
    (large : 2 ^ 216 < PrimeOrder.modulus F) {z : Assignment F D} {vs : List (UInt8Var F D)}
    {digest : InnerHash} (bytes : bytesValue z vs = digest.toList) :
    NativeElement D z vs digest := by
  have whole : digest.toList.take innerHashSize = digest.toList :=
    List.take_of_length_le (le_of_eq digest.toList_length)
  have element : ((digestToFpvar vs).eval z : F) = fromLeBytesModOrder digest.toList := by
    rw [digestToFpvar_eval, bytes, whole]
  constructor
  · rw [intoBigint_digestToFpvar large, bytes, whole]
  · exact element
  · intro vars mode
    rw [element]
    exact .newVariable mode .field _
  · intro vars
    rw [element]
    exact .newVariable .witness .field _

/-- Over a prime field above `2 ^ 216` digests are packed and read back without loss. -/
theorem packing_exact {D : Type} [Inhabited D] [DecidableEq D]
    (large : 2 ^ 216 < PrimeOrder.modulus F) :
    (∀ digest : List (UInt8Var F D), innerHashSize ≤ digest.length →
      ∃ back, Computes (fpvarToDigest (digestToFpvar digest)) back ∧
        ∀ z : Assignment F D, bytesValue z back = (bytesValue z digest).take innerHashSize) ∧
    (∀ w : Wire F D .field, ∃ digest, Computes (fpvarToDigest w) digest ∧
      ∀ z : Assignment F D, PrimeOrder.intoBigint ((digestToFpvar digest).eval z : F) =
        PrimeOrder.intoBigint (w.eval z : F) % 2 ^ 216) ∧
    (∀ (z : Assignment F D) (vs vs' : List (UInt8Var F D)), vs.length = innerHashSize →
      vs'.length = innerHashSize →
      ((digestToFpvar vs).eval z : F) = (digestToFpvar vs').eval z →
        bytesValue z vs = bytesValue z vs') ∧
    (∀ (z : Assignment F D) (vs : List (UInt8Var F D)) (digest : InnerHash),
      bytesValue z vs = digest.toList → NativeElement D z vs digest) := by
  refine ⟨fun digest long => digest_roundTrip large long, fun w => element_roundTrip large w, ?_, ?_⟩
  · intro z vs vs' size size' same
    exact digestToFpvar_injective large size size' same
  · exact fun z vs digest bytes => nativeElement large bytes

end Codec

def constantByte {F D : Type} (byte : UInt8) : UInt8Var F D :=
  ⟨(byteBits byte).map .constant, by rw [List.length_map, byteBits_length]⟩

/-- The bytes 0, 1, 2 and so on. -/
def countingBytes (n : Nat) : List UInt8 := (List.range n).map .ofNat

def countingDigest : InnerHash := ⟨countingBytes 27, rfl⟩

theorem bytesValue_constants {F D : Type} [Field F] [DecidableEq F] [DecidableEq D]
    (z : Assignment F D) (bytes : List UInt8) :
    bytesValue z (bytes.map (constantByte (F := F) (D := D))) = bytes := by
  have one : ∀ byte, (constantByte byte : UInt8Var F D).value z = byte := by
    intro byte
    have bits : values z (constantByte byte : UInt8Var F D).bits = byteBits byte := by
      simp [values, constantByte, Function.comp_def, Wire.eval]
    rw [UInt8Var.value, bits, byteOf_byteBits]
  rw [bytesValue, List.map_map]
  exact List.map_id'' one bytes

/-- Of 32 different bytes the first 27 come back, and 27 different bytes have the element of
their native digest. -/
theorem countingDigest_packed :
    (∃ back, Computes (fpvarToDigest (digestToFpvar (D := Unit)
      ((countingBytes 32).map constantByte) : Wire Bls12381Fr Unit .field)) back ∧
      ∀ z, bytesValue z back = countingBytes 27) ∧
    ∀ z : Assignment Bls12381Fr Unit,
      NativeElement Unit z ((countingBytes 27).map constantByte) countingDigest := by
  obtain ⟨packed, _, _, native⟩ := packing_exact (F := Bls12381Fr) (D := Unit) (by decide)
  obtain ⟨back, computed, same⟩ := packed ((countingBytes 32).map constantByte) (by decide)
  refine ⟨⟨back, computed, fun z => ?_⟩, fun z => native z _ _ (bytesValue_constants z _)⟩
  rw [same, bytesValue_constants]
  decide

end DigestPacking
