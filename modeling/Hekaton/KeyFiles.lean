import Hekaton.CPGroth16
import Hekaton.SizedCodecs

/-!
# Key files

The proving keys of a coordinator are one record of the circuit's name, its parameters, a key
for each class of subcircuits and the classes. The codec of the record is derived, field by
field; the one of a reference to it is written by hand and has no field for the name, so what
it writes is shorter than any file that the record is read from.
-/

namespace KeyFiles

open Codecs SizedCodecs CPGroth16

variable {G₁ G₂ : Type}

structure ProvingKeys (G₁ G₂ : Type) where
  circuitId : String
  serializedCircParams : List UInt8
  minimalProvingKeys : BTreeMap (ProvingKey G₁ G₂)
  subcircuitRepresentativeMap : BTreeMap UInt64

section Model
variable (g₁ : Coding G₁) (g₂ : Coding G₂)

def verifyingKey : Coding (VerifyingKey G₁ G₂) where
  write mode vk := g₁.write mode vk.alphaG ++ g₂.write mode vk.betaH ++
    g₂.write mode vk.gammaH ++ g₂.write mode vk.lastDeltaH ++
    (Coding.vec g₁).write mode vk.gammaAbcG ++ (Coding.vec g₂).write mode vk.deltasH
  size mode vk := g₁.size mode vk.alphaG + g₂.size mode vk.betaH + g₂.size mode vk.gammaH +
    g₂.size mode vk.lastDeltaH + (Coding.vec g₁).size mode vk.gammaAbcG +
    (Coding.vec g₂).size mode vk.deltasH
  read mode validate := do
    let alphaG ← g₁.read mode validate
    let betaH ← g₂.read mode validate
    let gammaH ← g₂.read mode validate
    let lastDeltaH ← g₂.read mode validate
    let gammaAbcG ← (Coding.vec g₁).read mode validate
    let deltasH ← (Coding.vec g₂).read mode validate
    pure ⟨alphaG, betaH, gammaH, lastDeltaH, gammaAbcG, deltasH⟩

def committerKey : Coding (CommitterKey G₁) where
  write mode ck := g₁.write mode ck.lastDeltaG ++
    (Coding.vec (Coding.vec g₁)).write mode ck.deltasAbcG
  size mode ck := g₁.size mode ck.lastDeltaG + (Coding.vec (Coding.vec g₁)).size mode ck.deltasAbcG
  read mode validate := do
    let lastDeltaG ← g₁.read mode validate
    let deltasAbcG ← (Coding.vec (Coding.vec g₁)).read mode validate
    pure ⟨lastDeltaG, deltasAbcG⟩

def provingKey : Coding (ProvingKey G₁ G₂) where
  write mode pk := (verifyingKey g₁ g₂).write mode pk.vk ++ g₁.write mode pk.betaG ++
    (Coding.vec g₁).write mode pk.aG ++ (Coding.vec g₁).write mode pk.bG ++
    (Coding.vec g₂).write mode pk.bH ++ (Coding.vec g₁).write mode pk.hG ++
    (committerKey g₁).write mode pk.ck ++ (Coding.vec g₁).write mode pk.deltasG
  size mode pk := (verifyingKey g₁ g₂).size mode pk.vk + g₁.size mode pk.betaG +
    (Coding.vec g₁).size mode pk.aG + (Coding.vec g₁).size mode pk.bG +
    (Coding.vec g₂).size mode pk.bH + (Coding.vec g₁).size mode pk.hG +
    (committerKey g₁).size mode pk.ck + (Coding.vec g₁).size mode pk.deltasG
  read mode validate := do
    let vk ← (verifyingKey g₁ g₂).read mode validate
    let betaG ← g₁.read mode validate
    let aG ← (Coding.vec g₁).read mode validate
    let bG ← (Coding.vec g₁).read mode validate
    let bH ← (Coding.vec g₂).read mode validate
    let hG ← (Coding.vec g₁).read mode validate
    let ck ← (committerKey g₁).read mode validate
    let deltasG ← (Coding.vec g₁).read mode validate
    pure ⟨vk, betaG, aG, bG, bH, hG, ck, deltasG⟩

def provingKeys : Coding (ProvingKeys G₁ G₂) where
  write mode pk := Coding.string.write mode pk.circuitId ++
    (Coding.vec Coding.u8).write mode pk.serializedCircParams ++
    (Coding.map (provingKey g₁ g₂)).write mode pk.minimalProvingKeys ++
    (Coding.map Coding.u64).write mode pk.subcircuitRepresentativeMap
  size mode pk := Coding.string.size mode pk.circuitId +
    (Coding.vec Coding.u8).size mode pk.serializedCircParams +
    (Coding.map (provingKey g₁ g₂)).size mode pk.minimalProvingKeys +
    (Coding.map Coding.u64).size mode pk.subcircuitRepresentativeMap
  read mode validate := do
    let circuitId ← Coding.string.read mode validate
    let serializedCircParams ← (Coding.vec Coding.u8).read mode validate
    let minimalProvingKeys ← (Coding.map (provingKey g₁ g₂)).read mode validate
    let subcircuitRepresentativeMap ← (Coding.map Coding.u64).read mode validate
    pure ⟨circuitId, serializedCircParams, minimalProvingKeys, subcircuitRepresentativeMap⟩

/-- `serialize_with_mode` of `&ProvingKeys`. -/
def serializeRef (mode : Compress) (pk : ProvingKeys G₁ G₂) : List UInt8 :=
  (Coding.vec Coding.u8).write mode pk.serializedCircParams ++
    (Coding.map (provingKey g₁ g₂)).write mode pk.minimalProvingKeys ++
    (Coding.map Coding.u64).write mode pk.subcircuitRepresentativeMap

/-- `serialized_size` of `&ProvingKeys`. -/
def serializedSizeRef (mode : Compress) (pk : ProvingKeys G₁ G₂) : Nat :=
  (Coding.vec Coding.u8).size mode pk.serializedCircParams +
    (Coding.map (provingKey g₁ g₂)).size mode pk.minimalProvingKeys +
    (Coding.map Coding.u64).size mode pk.subcircuitRepresentativeMap

end Model

section Exact
variable {g₁ : Coding G₁} {g₂ : Coding G₂} (exact₁ : g₁.Exact) (exact₂ : g₂.Exact)
include exact₁

theorem committerKey_exact : (committerKey g₁).Exact where
  sized mode ck := by
    change (g₁.write mode _ ++ (Coding.vec (Coding.vec g₁)).write mode _).length = _ + _
    rw [List.length_append, exact₁.sized, (Coding.vec_exact (Coding.vec_exact exact₁)).sized]
  consumes mode validate := by
    apply (exact₁.consumes mode validate).bind
    intro lastDeltaG
    apply ((Coding.vec_exact (Coding.vec_exact exact₁)).consumes mode validate).bind_pure
    intro deltasAbcG
    exact Nat.le_of_eq (Nat.add_sub_cancel_left _ _)

include exact₂

theorem verifyingKey_exact : (verifyingKey g₁ g₂).Exact where
  sized mode vk := by
    simp only [verifyingKey, List.length_append, exact₁.sized, exact₂.sized,
      (Coding.vec_exact exact₁).sized, (Coding.vec_exact exact₂).sized]
  consumes mode validate := by
    apply (exact₁.consumes mode validate).bind
    intro alphaG
    apply (exact₂.consumes mode validate).bind
    intro betaH
    apply (exact₂.consumes mode validate).bind
    intro gammaH
    apply (exact₂.consumes mode validate).bind
    intro lastDeltaH
    apply ((Coding.vec_exact exact₁).consumes mode validate).bind
    intro gammaAbcG
    apply ((Coding.vec_exact exact₂).consumes mode validate).bind_pure
    intro deltasH
    simp only [verifyingKey]
    omega

theorem provingKey_exact : (provingKey g₁ g₂).Exact where
  sized mode pk := by
    simp only [provingKey, List.length_append, (verifyingKey_exact exact₁ exact₂).sized,
      (committerKey_exact exact₁).sized, exact₁.sized, (Coding.vec_exact exact₁).sized,
      (Coding.vec_exact exact₂).sized]
  consumes mode validate := by
    apply ((verifyingKey_exact exact₁ exact₂).consumes mode validate).bind
    intro vk
    apply (exact₁.consumes mode validate).bind
    intro betaG
    apply ((Coding.vec_exact exact₁).consumes mode validate).bind
    intro aG
    apply ((Coding.vec_exact exact₁).consumes mode validate).bind
    intro bG
    apply ((Coding.vec_exact exact₂).consumes mode validate).bind
    intro bH
    apply ((Coding.vec_exact exact₁).consumes mode validate).bind
    intro hG
    apply ((committerKey_exact exact₁).consumes mode validate).bind
    intro ck
    apply ((Coding.vec_exact exact₁).consumes mode validate).bind_pure
    intro deltasG
    simp only [provingKey]
    omega

theorem provingKeys_exact : (provingKeys g₁ g₂).Exact where
  sized mode pk := by
    simp only [provingKeys, List.length_append, Coding.string_exact.sized,
      (Coding.vec_exact Coding.u8_exact).sized, (Coding.map_exact Coding.u64_exact).sized,
      (Coding.map_exact (provingKey_exact exact₁ exact₂)).sized]
  consumes mode validate := by
    apply (Coding.string_exact.consumes mode validate).bind
    intro circuitId
    apply ((Coding.vec_exact Coding.u8_exact).consumes mode validate).bind
    intro params
    apply ((Coding.map_exact (provingKey_exact exact₁ exact₂)).consumes mode validate).bind
    intro keys
    apply ((Coding.map_exact Coding.u64_exact).consumes mode validate).bind_pure
    intro representatives
    simp only [provingKeys]
    omega

theorem serializeRef_length (mode : Compress) (pk : ProvingKeys G₁ G₂) :
    (serializeRef g₁ g₂ mode pk).length = serializedSizeRef g₁ g₂ mode pk := by
  simp only [serializeRef, serializedSizeRef, List.length_append,
    (Coding.vec_exact Coding.u8_exact).sized, (Coding.map_exact Coding.u64_exact).sized,
    (Coding.map_exact (provingKey_exact exact₁ exact₂)).sized]

omit exact₁ exact₂ in
/-- What the derived codec announces, and the reference's leaves out. -/
theorem size_eq (mode : Compress) (pk : ProvingKeys G₁ G₂) : (provingKeys g₁ g₂).size mode pk =
    8 + pk.circuitId.toUTF8.data.toList.length + serializedSizeRef g₁ g₂ mode pk := by
  have id : Coding.string.size mode pk.circuitId = 8 + pk.circuitId.toUTF8.data.toList.length := by
    simp [Coding.string, Coding.vec, Coding.u8]
  simp only [provingKeys, serializedSizeRef, id]
  omega

/-- The bytes of the reference are fewer than any from which the record is read. -/
theorem reference_unread (pk : ProvingKeys G₁ G₂) (mode : Compress) (validate : Validate)
    (rest : List UInt8) : ((provingKeys g₁ g₂).read mode validate).run
      (serializeRef g₁ g₂ mode pk) ≠ .ok (pk, rest) := by
  intro read
  have consumed := (provingKeys_exact exact₁ exact₂).consumes mode validate _ _ _ read
  have written := serializeRef_length exact₁ exact₂ mode pk
  have whole : (provingKeys g₁ g₂).size mode pk = _ := size_eq mode pk
  omega

/-- Every record, in every mode: the reference's codec writes as many bytes as it announces,
but the record is not read from them, and they are not those of the derived codec. -/
theorem reference_never_read (pk : ProvingKeys G₁ G₂) (mode : Compress) :
    (serializeRef g₁ g₂ mode pk).length = serializedSizeRef g₁ g₂ mode pk ∧
    (∀ validate pk' rest, ((provingKeys g₁ g₂).read mode validate).run
      (serializeRef g₁ g₂ mode pk) = .ok (pk', rest) → pk' ≠ pk) ∧
    serializeRef g₁ g₂ mode pk ≠ (provingKeys g₁ g₂).write mode pk := by
  have written := serializeRef_length exact₁ exact₂ mode pk
  have whole : (provingKeys g₁ g₂).size mode pk = _ := size_eq mode pk
  refine ⟨written, ?_, ?_⟩
  · rintro validate pk' rest read rfl
    exact reference_unread exact₁ exact₂ pk' mode validate rest read
  · intro same
    have sizes := congrArg List.length same
    rw [(provingKeys_exact exact₁ exact₂).sized] at sizes
    omega

end Exact

/-- The point at infinity, as BLS12-381 writes it: two flags, then zeros. -/
def infinityBytes (width : Nat) : Compress → List UInt8
  | .yes => 192 :: List.replicate (width - 1) 0
  | .no => 64 :: List.replicate (2 * width - 1) 0

def infinity (width : Nat) : Coding Unit where
  write mode _ := infinityBytes width mode
  size mode _ := (infinityBytes width mode).length
  read mode _ := do
    let bytes ← readExact (infinityBytes width mode).length
    if bytes = infinityBytes width mode then pure () else throw .invalidData

theorem infinity_exact (width : Nat) : (infinity width).Exact where
  sized _ _ := rfl
  consumes mode validate := by
    apply (readExact_consumes _).bind
    intro bytes
    split
    · exact .pure (Nat.sub_self _)
    · exact .throw

/-- One key for a tree of 128 leaves. -/
def treeKeys : ProvingKeys Unit Unit where
  circuitId := "BigMerkle circuit"
  serializedCircParams := writeU64 128 ++ writeU64 1 ++ writeU64 1
  minimalProvingKeys := .collect
    [(0, ⟨⟨(), (), (), (), [], [()]⟩, (), [], [], [], [], ⟨(), [[]]⟩, [()]⟩)]
  subcircuitRepresentativeMap := .collect [(0, 0)]

theorem treeKeys_never_read : serializeRef (infinity 48) (infinity 96) .no treeKeys ≠
    (provingKeys (infinity 48) (infinity 96)).write .no treeKeys :=
  (reference_never_read (infinity_exact 48) (infinity_exact 96) treeKeys .no).2.2

/-- The reference's bytes are too few for these keys. -/
theorem treeKeys_unread : ¬ ∃ validate rest,
    ((provingKeys (infinity 48) (infinity 96)).read .no validate).run
      (serializeRef (infinity 48) (infinity 96) .no treeKeys) = .ok (treeKeys, rest) := by
  rintro ⟨validate, rest, read⟩
  exact reference_unread (infinity_exact 48) (infinity_exact 96) treeKeys .no validate rest read

end KeyFiles
