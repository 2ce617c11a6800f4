import Hekaton.ByteBits
import Hekaton.HonestRuns
import Hekaton.Packing
import Hekaton.VkdHash

/-!
# Bytes and bits of field variables

The gadgets between bytes, bits and field elements: bytes are eight Boolean wires each, the
bits of an element are those of its integer, and a digest is the element of its first 27
bytes. On the values of the wires each gadget is the function of the same name.
-/

namespace FieldGadgets

open Outcomes Wires Synthesis Contracts Uint32 Packing PrimeFields Codecs ByteBits VkdHash
open HonestRuns

section Chunks
variable {α : Type}

/-- The first chunk of a list that starts with a whole one. -/
theorem chunks_append {n : Nat} {block : List α} (positive : 0 < n) (size : block.length = n)
    (rest : List α) : chunks n (block ++ rest) = block :: chunks n rest := by
  have count : ((block ++ rest).length + n - 1) / n = (rest.length + n - 1) / n + 1 := by
    rw [List.length_append, size, show n + rest.length + n - 1 = rest.length + n - 1 + n by omega,
      Nat.add_div_right _ positive]
  rw [chunks, count, List.range_succ_eq_map, List.map_cons, List.map_map, Nat.mul_zero,
    List.drop_zero, ← size, List.take_left, chunks]
  apply congrArg
  apply List.map_congr_left
  intro i _
  simp only [Function.comp_apply, Nat.mul_succ]
  rw [Nat.add_comm, List.drop_length_add_append]

@[simp] theorem chunks_nil {n : Nat} (positive : 0 < n) : chunks n ([] : List α) = [] := by
  have none : (0 + n - 1) / n = 0 := Nat.div_eq_of_lt (by omega)
  rw [chunks, List.length_nil, none]
  rfl

/-- The first whole chunks do not depend on what follows. -/
theorem chunks_take {n k : Nat} {l : List α} (positive : 0 < n) (size : n * k ≤ l.length) :
    (chunks n l).take k = chunks n (l.take (n * k)) := by
  induction k generalizing l with
  | zero => rw [Nat.mul_zero, List.take_zero, List.take_zero, chunks_nil positive]
  | succ k ih =>
    rw [Nat.mul_succ] at size
    have block : (l.take n).length = n := by
      rw [List.length_take]
      omega
    have parts := chunks_append positive block (l.drop n)
    rw [List.take_append_drop] at parts
    have taken : l.take (n * (k + 1)) = l.take n ++ (l.drop n).take (n * k) := by
      rw [Nat.mul_succ, Nat.add_comm, List.take_add]
    rw [taken, chunks_append positive block, parts, List.take_succ_cons, ih]
    rw [List.length_drop]
    omega

end Chunks

/-- `UInt8<F>`, the least significant bit first. -/
structure UInt8Var (F D : Type) where
  bits : List (Wire F D .bool)
  width : bits.length = 8

def modulusBitSize : Nat := 255

section Model
variable {F D : Type}

/-- `to_bits_le` of a list of bytes. -/
def toBits (bytes : List (UInt8Var F D)) : List (Wire F D .bool) := bytes.flatMap UInt8Var.bits

def UInt8Var.fromBitsLe (bits : List (Wire F D .bool)) : Outcome (UInt8Var F D) :=
  if width : bits.length = 8 then .ok ⟨bits, width⟩
  else panicWith "assertion failed: `(left == right)`"

def newWitnessByte (byte : UInt8) : Synth F D (UInt8Var F D) := do
  let ws ← newBits .witness (byteBits byte)
  pure ⟨ws.1, ws.2.trans (byteBits_length byte)⟩

/-- `UInt8::new_witness_vec`. -/
def newWitnessVec (bytes : List UInt8) : Synth F D (List (UInt8Var F D)) :=
  bytes.mapM newWitnessByte

variable [Field F]

/-- The first 27 bytes as an element. -/
def digestToFpvar (digest : List (UInt8Var F D)) : Wire F D .field :=
  leBitsToFpVar 1 (toBits (digest.take innerHashSize))

variable [PrimeField F]

def bitAt (i : Nat) (x : F) : Bool := (PrimeField.intoBigint x).testBit i

/-- A wire for a bit of a field wire. -/
def bitWire (w : Wire F D .field) (i : Nat) : Wire F D .bool :=
  .call (k := .field) (l := .bool) (bitAt i) w

def toBitsLe (w : Wire F D .field) : Synth F D (List (Wire F D .bool)) :=
  (List.range modulusBitSize).mapM fun i => Synth.define (bitWire w i)

/-- `to_bytes`, with zeros above the bits of the modulus. -/
def toBytes (w : Wire F D .field) : Synth F D (List (UInt8Var F D)) := do
  let bits ← toBitsLe w
  let padded := bits ++ List.replicate (256 - bits.length) (.constant false)
  Synth.lift ((chunks 8 padded).mapM UInt8Var.fromBitsLe)

/-- The first 27 bytes of an element. -/
def fpvarToDigest (w : Wire F D .field) : Synth F D (List (UInt8Var F D)) := do
  let bits ← toBitsLe w
  Synth.lift (((chunks 8 bits).take innerHashSize).mapM UInt8Var.fromBitsLe)

end Model

section Values
variable {F D : Type} [Field F] [DecidableEq F] [DecidableEq D] {z : Assignment F D}

def UInt8Var.value (z : Assignment F D) (v : UInt8Var F D) : UInt8 := byteOf (values z v.bits)

def bytesValue (z : Assignment F D) (vs : List (UInt8Var F D)) : List UInt8 :=
  vs.map (UInt8Var.value z)

@[simp] theorem values_length (bits : List (Wire F D .bool)) :
    (values z bits).length = bits.length := List.length_map _

@[simp] theorem bytesValue_length (vs : List (UInt8Var F D)) :
    (bytesValue z vs).length = vs.length := List.length_map _

theorem byteBits_value (v : UInt8Var F D) : byteBits (v.value z) = values z v.bits :=
  byteBits_byteOf (by rw [values_length, v.width])

theorem values_toBits (vs : List (UInt8Var F D)) :
    values z (toBits vs) = bytesBits (bytesValue z vs) := by
  induction vs with
  | nil => rfl
  | cons v vs ih =>
    rw [bytesValue, List.map_cons, bytesBits_cons, byteBits_value, toBits, List.flatMap_cons, values,
      List.map_append]
    exact congrArg (values z v.bits ++ ·) ih

/-- Bytes are determined by the values of their bits. -/
theorem bytesValue_of_values {vs : List (UInt8Var F D)} {bytes : List UInt8}
    (size : vs.length = bytes.length) (same : values z (toBits vs) = bytesBits bytes) :
    bytesValue z vs = bytes := by
  rw [values_toBits] at same
  apply fromLittleEndian_injective (by rw [bytesValue_length, size])
  rw [← toNat_bytesBits, same, toNat_bytesBits]

/-- The element of bits that are those of some bytes. -/
theorem leBitsToFpVar_bytes {bits : List (Wire F D .bool)} {bytes : List UInt8}
    (same : values z bits = bytesBits bytes) :
    ((leBitsToFpVar 1 bits).eval z : F) = fromLeBytesModOrder bytes := by
  rw [leBitsToFpVar_eval, one_mul, same, toNat_bytesBits, fromLeBytesModOrder]

theorem digestToFpvar_eval (vs : List (UInt8Var F D)) :
    ((digestToFpvar vs).eval z : F) =
      fromLeBytesModOrder ((bytesValue z vs).take innerHashSize) := by
  apply leBitsToFpVar_bytes
  rw [values_toBits, bytesValue, List.map_take, bytesValue]

omit [Field F] [DecidableEq F] [DecidableEq D] in
theorem mapM_fromBitsLe {bits : List (Wire F D .bool)} {k : Nat} (size : bits.length = 8 * k) :
    ∃ vs, (chunks 8 bits).mapM UInt8Var.fromBitsLe = .ok vs ∧ vs.length = k ∧ toBits vs = bits := by
  induction k generalizing bits with
  | zero =>
    cases List.eq_nil_of_length_eq_zero size
    exact ⟨[], by rw [chunks_nil (by decide)]; rfl, rfl, rfl⟩
  | succ k ih =>
    have block : (bits.take 8).length = 8 := by
      rw [List.length_take]
      omega
    have rest : (bits.drop 8).length = 8 * k := by
      rw [List.length_drop]
      omega
    obtain ⟨vs, run, count, same⟩ := ih rest
    have parts := chunks_append (by decide) block (bits.drop 8)
    rw [List.take_append_drop] at parts
    have first : UInt8Var.fromBitsLe (bits.take 8) = .ok ⟨bits.take 8, block⟩ := dif_pos block
    refine ⟨⟨bits.take 8, block⟩ :: vs, ?_, congrArg Nat.succ count, ?_⟩
    · rw [parts, List.mapM_cons, first, ok_bind, run, ok_bind]
      rfl
    · rw [toBits, List.flatMap_cons]
      exact (congrArg (bits.take 8 ++ ·) same).trans (List.take_append_drop 8 bits)

variable [PrimeField F]

omit [DecidableEq F] [DecidableEq D] in
theorem toBitsLe_computes (w : Wire F D .field) :
    Computes (toBitsLe w) ((List.range modulusBitSize).map (bitWire w)) :=
  computes_mapM fun _ _ => .define _

theorem values_bitWires (n : Nat) (w : Wire F D .field) :
    values z ((List.range n).map (bitWire w)) = bitsOf n (PrimeField.intoBigint (w.eval z : F)) := by
  rw [values, List.map_map]
  rfl

omit [DecidableEq F] in
/-- The bytes of an element are those of its integer. -/
theorem bitsOf_toSpongeBytes (x : F) :
    bytesBits (toSpongeBytes x) = bitsOf 256 (PrimeField.intoBigint x) := bytesBits_littleEndian 32 _

theorem toBytes_computes (w : Wire F D .field) :
    ∃ vs, Computes (toBytes w) vs ∧ vs.length = 32 ∧
      ∀ z : Assignment F D, bytesValue z vs = toSpongeBytes (w.eval z : F) := by
  have width : ((List.range modulusBitSize).map (bitWire w)).length = 255 := by
    rw [List.length_map, List.length_range]
    rfl
  have size : ((List.range modulusBitSize).map (bitWire w) ++
      List.replicate (256 - ((List.range modulusBitSize).map (bitWire w)).length)
        (Wire.constant false)).length = 8 * 32 := by
    rw [List.length_append, width, List.length_replicate]
  obtain ⟨vs, run, count, same⟩ := mapM_fromBitsLe (k := 32) size
  refine ⟨vs, (toBitsLe_computes w).bind (.lift run), count, fun z => ?_⟩
  have small : PrimeField.intoBigint (w.eval z : F) < 2 ^ 255 :=
    (PrimeField.intoBigint_lt _).trans PrimeField.fits
  apply bytesValue_of_values (by rw [count, toSpongeBytes_length])
  rw [same, width, bitsOf_toSpongeBytes, show 256 = 255 + 1 from rfl, bitsOf_pad small, values,
    List.map_append]
  exact congrArg (· ++ [false]) (values_bitWires 255 w)

theorem fpvarToDigest_computes (w : Wire F D .field) :
    ∃ vs, Computes (fpvarToDigest w) vs ∧ vs.length = innerHashSize ∧
      ∀ z : Assignment F D, bytesValue z vs = (truncated (w.eval z : F)).toList := by
  have width : ((List.range modulusBitSize).map (bitWire w)).length = 255 := by
    rw [List.length_map, List.length_range]
    rfl
  have enough : 8 * innerHashSize ≤ ((List.range modulusBitSize).map (bitWire w)).length := by
    rw [width]
    decide
  obtain ⟨vs, run, count, same⟩ := mapM_fromBitsLe (k := innerHashSize)
   
    (by rw [List.length_take, Nat.min_eq_left enough])
  refine ⟨vs, (toBitsLe_computes w).bind (.lift ?_), count, fun z => ?_⟩
  · rw [chunks_take (by decide) enough, run]
  · apply bytesValue_of_values (by rw [count, (truncated _).toList_length])
    have bytes : (truncated (w.eval z : F)).toList = (toSpongeBytes (w.eval z : F)).take 27 := rfl
    rw [same, bytes, bytesBits_take, bitsOf_toSpongeBytes, values, List.map_take]
    have long := values_bitWires (z := z) 255 w
    rw [values] at long
    rw [modulusBitSize, long, bitsOf_take (by decide), bitsOf_take (by decide)]

end Values

section Bytes
variable {F D : Type}

theorem newWitnessByte_parallel (byte byte' : UInt8) :
    Parallel (newWitnessByte (F := F) (D := D) byte) (newWitnessByte byte') (· = ·) := by
  apply (newBits_parallel (by rw [byteBits_length, byteBits_length])).bind
  intro ws ws' same
  exact .pure (by simp only [same])

/-- The variables of equally many bytes are the same. -/
theorem newWitnessVec_parallel {bytes bytes' : List UInt8} (size : bytes.length = bytes'.length) :
    Parallel (newWitnessVec (F := F) (D := D) bytes) (newWitnessVec bytes')
      fun vs vs' => vs = vs' ∧ vs.length = bytes.length := by
  induction bytes generalizing bytes' with
  | nil =>
    cases List.eq_nil_of_length_eq_zero size.symm
    exact .pure ⟨rfl, rfl⟩
  | cons byte bytes ih =>
    obtain _ | ⟨byte', bytes'⟩ := bytes'
    · cases size
    · rw [newWitnessVec, newWitnessVec, List.mapM_cons, List.mapM_cons]
      apply (newWitnessByte_parallel byte byte').bind_eq
      intro v
      apply (ih (Nat.succ.inj size)).bind
      rintro vs _ ⟨rfl, count⟩
      exact .pure ⟨rfl, congrArg Nat.succ count⟩

variable [Field F] [DecidableEq F] [Inhabited D] [DecidableEq D] {vars : List (Variable F D)}

/-- The bytes keep these values, whatever is allocated later. -/
def BytesValued (vars : List (Variable F D)) (vs : List (UInt8Var F D)) (bytes : List UInt8) : Prop :=
  ∀ more, bytesValue (assignmentOf (vars ++ more)) vs = bytes

theorem BytesValued.mono {vs : List (UInt8Var F D)} {bytes : List UInt8}
    (h : BytesValued vars vs bytes) (more : List (Variable F D)) :
    BytesValued (vars ++ more) vs bytes := by
  intro rest
  rw [List.append_assoc]
  exact h (more ++ rest)

theorem BytesValued.length {vs : List (UInt8Var F D)} {bytes : List UInt8}
    (h : BytesValued vars vs bytes) : vs.length = bytes.length := by
  rw [← h [], bytesValue_length]

theorem newBits_decides (bits : List Bool) : Decides vars (newBits .witness bits) True
    fun now ws => ∀ more, values (assignmentOf (now ++ more)) ws.1 = bits := by
  induction bits generalizing vars with
  | nil => exact .pure fun _ => rfl
  | cons b bits ih =>
    rw [newBits]
    apply (Decides.newVariable .witness .bool b).bind_true
    intro more w hw
    apply ih.bind_true
    intro more' ws hws
    apply Decides.pure
    intro rest
    exact congrArg₂ List.cons (hw.mono more' rest) (hws rest)

theorem newWitnessByte_decides (byte : UInt8) : Decides vars (newWitnessByte byte) True
    fun now v => ∀ more, v.value (assignmentOf (now ++ more)) = byte := by
  apply (newBits_decides (byteBits byte)).bind_true
  intro more ws hws
  apply Decides.pure
  intro rest
  rw [UInt8Var.value, hws rest, byteOf_byteBits]

theorem newWitnessVec_decides (bytes : List UInt8) :
    Decides vars (newWitnessVec bytes) True fun now vs => BytesValued now vs bytes := by
  have each : Decides vars (bytes.mapM newWitnessByte) True _ := Decides.mapM
    (S := fun byte now v => ∀ more, v.value (assignmentOf (now ++ more)) = byte)
    (fun byte now more v hv rest => by rw [List.append_assoc]; exact hv (more ++ rest))
    (fun byte _ more => newWitnessByte_decides byte)
  apply each.mono
  intro more vs all rest
  rw [bytesValue]
  apply List.ext_getElem
  · rw [List.length_map, all.length_eq]
  · intro i hi hi'
    rw [List.getElem_map]
    exact all.get hi' (by rwa [List.length_map] at hi) rest

end Bytes
end FieldGadgets
