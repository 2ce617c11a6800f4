import Hekaton.HonestRuns
import Hekaton.TreeHashCircuit

/-!
# The SHA-256 of the hash library

The digest on bytes, block by block, and a gadget that defines the bits of the digest of its
byte variables. The results about the Merkle tree circuit hold for any gadget that computes
the digest in rows that do not depend on the values; this is one.
-/

namespace Sha256Digests

open Outcomes Wires Synthesis Contracts Packing Bits ByteBits VkdHash FieldGadgets HonestRuns
open Uint32 TreeHashCircuit

def roundConstants : List UInt32 :=
  [0x428a2f98, 0x71374491, 0xb5c0fbcf, 0xe9b5dba5, 0x3956c25b, 0x59f111f1, 0x923f82a4, 0xab1c5ed5,
   0xd807aa98, 0x12835b01, 0x243185be, 0x550c7dc3, 0x72be5d74, 0x80deb1fe, 0x9bdc06a7, 0xc19bf174,
   0xe49b69c1, 0xefbe4786, 0x0fc19dc6, 0x240ca1cc, 0x2de92c6f, 0x4a7484aa, 0x5cb0a9dc, 0x76f988da,
   0x983e5152, 0xa831c66d, 0xb00327c8, 0xbf597fc7, 0xc6e00bf3, 0xd5a79147, 0x06ca6351, 0x14292967,
   0x27b70a85, 0x2e1b2138, 0x4d2c6dfc, 0x53380d13, 0x650a7354, 0x766a0abb, 0x81c2c92e, 0x92722c85,
   0xa2bfe8a1, 0xa81a664b, 0xc24b8b70, 0xc76c51a3, 0xd192e819, 0xd6990624, 0xf40e3585, 0x106aa070,
   0x19a4c116, 0x1e376c08, 0x2748774c, 0x34b0bcb5, 0x391c0cb3, 0x4ed8aa4a, 0x5b9cca4f, 0x682e6ff3,
   0x748f82ee, 0x78a5636f, 0x84c87814, 0x8cc70208, 0x90befffa, 0xa4506ceb, 0xbef9a3f7, 0xc67178f2]

structure State where
  a : UInt32
  b : UInt32
  c : UInt32
  d : UInt32
  e : UInt32
  f : UInt32
  g : UInt32
  h : UInt32

def initialState : State :=
  ⟨0x6a09e667, 0xbb67ae85, 0x3c6ef372, 0xa54ff53a, 0x510e527f, 0x9b05688c, 0x1f83d9ab, 0x5be0cd19⟩

def rotateRight (n x : UInt32) : UInt32 := (x >>> n) ||| (x <<< (32 - n))

/-- The message schedule, with the newest word first. -/
def extend : Nat → List UInt32 → List UInt32
  | 0, words => words
  | n + 1, words =>
      let x := words.getD 14 0
      let y := words.getD 1 0
      let small₀ := rotateRight 7 x ^^^ rotateRight 18 x ^^^ (x >>> 3)
      let small₁ := rotateRight 17 y ^^^ rotateRight 19 y ^^^ (y >>> 10)
      extend n ((small₁ + words.getD 6 0 + small₀ + words.getD 15 0) :: words)

def round (s : State) (w : UInt32 × UInt32) : State :=
  let big₁ := rotateRight 6 s.e ^^^ rotateRight 11 s.e ^^^ rotateRight 25 s.e
  let choice := (s.e &&& s.f) ^^^ (~~~s.e &&& s.g)
  let big₀ := rotateRight 2 s.a ^^^ rotateRight 13 s.a ^^^ rotateRight 22 s.a
  let majority := (s.a &&& s.b) ^^^ (s.a &&& s.c) ^^^ (s.b &&& s.c)
  let first := s.h + big₁ + choice + w.1 + w.2
  ⟨first + (big₀ + majority), s.a, s.b, s.c, s.d + first, s.e, s.f, s.g⟩

def bigEndianWord (bytes : List UInt8) : UInt32 :=
  bytes.foldl (fun word byte => (word <<< 8) ||| byte.toUInt32) 0

def wordBytes (word : UInt32) : List UInt8 :=
  [(word >>> 24).toUInt8, (word >>> 16).toUInt8, (word >>> 8).toUInt8, word.toUInt8]

def compress (s : State) (block : List UInt8) : State :=
  let words := (extend 48 ((chunks 4 block).map bigEndianWord).reverse).reverse
  let t := (roundConstants.zip words).foldl round s
  ⟨s.a + t.a, s.b + t.b, s.c + t.c, s.d + t.d, s.e + t.e, s.f + t.f, s.g + t.g, s.h + t.h⟩

/-- The message, a one bit, zeros up to a whole block, and the length in bits. -/
def pad (message : List UInt8) : List UInt8 :=
  message ++ 0x80 :: List.replicate ((119 - message.length % 64) % 64) 0 ++
    (List.range 8).map fun i => UInt8.ofNat (8 * message.length / 2 ^ (8 * (7 - i)))

def digest (message : List UInt8) : List UInt8 :=
  let s := (chunks 64 (pad message)).foldl compress initialState
  [s.a, s.b, s.c, s.d, s.e, s.f, s.g, s.h].flatMap wordBytes

theorem digest_length (message : List UInt8) : (digest message).length = 32 := rfl
section Gadget
variable {F D : Type} [Field F] [DecidableEq F]

/-- The bytes with these bits, given as ones and zeros. -/
def bytesOfFields (fields : List F) : List UInt8 :=
  (chunks 8 (fields.map fun x => decide (x = 1))).map byteOf

/-- A bit of the digest of some bytes, by the bits of the bytes. -/
def digestBit (i : Nat) (fields : List F) : Bool :=
  (bytesBits (digest (bytesOfFields fields))).getD i false

def digestBitWire (vs : List (UInt8Var F D)) (i : Nat) : Wire F D .bool :=
  .call (k := .fields) (l := .bool) (digestBit i)
    (EvalTree.PathVar.fieldsWire ((toBits vs).map .ofBool))

def gadget (vs : List (UInt8Var F D)) : Synth F D (List (UInt8Var F D)) := do
  let bits ← (List.range 256).mapM fun i => Synth.define (digestBitWire vs i)
  Synth.lift ((chunks 8 bits).mapM UInt8Var.fromBitsLe)

/-- SHA-256 with this gadget. -/
def standard (F D : Type) [Field F] [DecidableEq F] : Sha256 F D := ⟨digest, gadget⟩

theorem chunks_bytesBits (bytes : List UInt8) : chunks 8 (bytesBits bytes) = bytes.map byteBits := by
  induction bytes with
  | nil => rfl
  | cons byte bytes ih =>
    rw [bytesBits_cons, chunks_append (by decide) (byteBits_length byte), ih, List.map_cons]

variable [DecidableEq D] {z : Assignment F D}

/-- The bits of bytes are read back from their ones and zeros. -/
theorem bytesOfFields_eval (vs : List (UInt8Var F D)) :
    bytesOfFields (((toBits vs).map Wire.ofBool).map fun w => (w.eval z : F)) =
      bytesValue z vs := by
  have bits : (((toBits vs).map Wire.ofBool).map fun w => (w.eval z : F)).map
      (fun x => decide (x = 1)) = values z (toBits vs) := by
    rw [List.map_map, List.map_map, values]
    apply List.map_congr_left
    intro b _
    change decide ((bif b.eval z then (1 : F) else 0) = 1) = b.eval z
    cases (b.eval z : Bool) with
    | true => exact decide_eq_true rfl
    | false => exact decide_eq_false zero_ne_one
  have back : byteOf ∘ byteBits = id := funext byteOf_byteBits
  rw [bytesOfFields, bits, values_toBits, chunks_bytesBits, List.map_map, back, List.map_id]

theorem digestBitWires_values (vs : List (UInt8Var F D)) :
    values z ((List.range 256).map (digestBitWire vs)) =
      bytesBits (digest (bytesValue z vs)) := by
  have bit (i : Nat) : (digestBitWire vs i).eval z =
      (bytesBits (digest (bytesValue z vs))).getD i false := by
    change digestBit i ((EvalTree.PathVar.fieldsWire ((toBits vs).map .ofBool)).eval z : List F) = _
    rw [EvalTree.fieldsWire_eval, digestBit, bytesOfFields_eval]
  have width : (bytesBits (digest (bytesValue z vs))).length = 256 := by
    rw [bytesBits_length, digest_length]
  rw [values, List.map_map]
  apply List.ext_getElem
  · rw [List.length_map, List.length_range, width]
  · intro i here there
    rw [List.getElem_map, List.getElem_range, Function.comp_apply, bit,
      List.getD_eq_getElem?_getD, List.getElem?_eq_getElem there, Option.getD_some]

/-- The gadget only defines outputs, which are the bytes of the digest. -/
theorem gadget_computes (vs : List (UInt8Var F D)) : ∃ out, Computes (gadget vs) out ∧
    ∀ z : Assignment F D, bytesValue z out = digest (bytesValue z vs) := by
  have wires : Computes ((List.range 256).mapM fun i => Synth.define (digestBitWire vs i))
      ((List.range 256).map (digestBitWire vs)) := computes_mapM fun _ _ => .define _
  have size : ((List.range 256).map (digestBitWire vs)).length = 8 * 32 := by
    rw [List.length_map, List.length_range]
  obtain ⟨out, run, count, same⟩ := mapM_fromBitsLe (k := 32) size
  refine ⟨out, wires.bind (.lift run), fun z => ?_⟩
  apply bytesValue_of_values
  · rw [count, digest_length]
  · rw [same, digestBitWires_values]

omit [DecidableEq D] in
theorem gadget_parallel (vs : List (UInt8Var F D)) : Parallel (gadget vs) (gadget vs) (· = ·) := by
  classical
  obtain ⟨out, computes, _⟩ := gadget_computes vs
  exact computes.parallel.mono fun _ _ both => both.1.trans both.2.symm

theorem gadget_decides [Inhabited D] (vars : List (Variable F D)) (vs : List (UInt8Var F D))
    (bytes : List UInt8) (valued : BytesValued vars vs bytes) :
    Decides vars (gadget vs) True fun now out => BytesValued now out (digest bytes) := by
  obtain ⟨out, computes, output⟩ := gadget_computes vs
  apply (Decides.computes computes).mono
  rintro more _ ⟨rfl, same⟩
  intro rest
  rw [same, output, valued]

end Gadget
end Sha256Digests
