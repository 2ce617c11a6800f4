import Hekaton.KeyFiles
import Hekaton.NodeFormats

/-!
# Key packages

The set-up of a circuit draws a key for each unique subcircuit and writes them, with the
circuit's name, its parameters and the representative of every index, into one file. Every rank
reads the file for itself. What was written is read back whole, so nodes that are started on
the file of a set-up end, in every order of their steps, with the proof of a single run in which
each subcircuit has the key of its representative.
-/

namespace KeyPackages

open LinearCombinations Outcomes CPGroth16 Transcript EvalTree SubcircuitCircuit Coordinator
open Aggregation Workers SubcircuitAggregation CommitmentConsistency ResponseOrder KeyFiles
open Codecs SizedCodecs Packing Networks Collectives Deployment Nodes NodeFormats

section ReadingBack
variable {G₁ G₂ : Type} {g₁ : Coding G₁} {g₂ : Coding G₂} {mode : Compress} {validate : Validate}

/-- Every vector of the key has a length of 64 bits. -/
structure Short (pk : ProvingKey G₁ G₂) : Prop where
  gammaAbcG : pk.vk.gammaAbcG.length < 2 ^ 64
  deltasH : pk.vk.deltasH.length < 2 ^ 64
  aG : pk.aG.length < 2 ^ 64
  bG : pk.bG.length < 2 ^ 64
  bH : pk.bH.length < 2 ^ 64
  hG : pk.hG.length < 2 ^ 64
  stages : pk.ck.deltasAbcG.length < 2 ^ 64
  deltasAbcG : ∀ stage ∈ pk.ck.deltasAbcG, stage.length < 2 ^ 64
  deltasG : pk.deltasG.length < 2 ^ 64

variable (back₁ : ∀ a, g₁.ReadsBack mode validate a) (back₂ : ∀ a, g₂.ReadsBack mode validate a)
include back₁ back₂

theorem provingKey_readsBack {pk : ProvingKey G₁ G₂} (short : Short pk) :
    (provingKey g₁ g₂).ReadsBack mode validate pk := by
  have points₁ : ∀ {l : List G₁}, l.length < 2 ^ 64 → (Coding.vec g₁).ReadsBack mode validate l :=
    fun bound => Coding.vec_readsBack bound fun a _ => back₁ a
  have points₂ : ∀ {l : List G₂}, l.length < 2 ^ 64 → (Coding.vec g₂).ReadsBack mode validate l :=
    fun bound => Coding.vec_readsBack bound fun a _ => back₂ a
  have vk : (verifyingKey g₁ g₂).ReadsBack mode validate pk.vk := by
    rw [Coding.ReadsBack]
    simp only [verifyingKey, List.append_assoc]
    exact (back₁ _).bind ((back₂ _).bind ((back₂ _).bind ((back₂ _).bind
      ((points₁ short.gammaAbcG).bind ((points₂ short.deltasH).bind_pure rfl)))))
  have ck : (committerKey g₁).ReadsBack mode validate pk.ck :=
    (back₁ _).bind ((Coding.vec_readsBack short.stages fun stage member =>
      points₁ (short.deltasAbcG stage member)).bind_pure rfl)
  rw [Coding.ReadsBack]
  simp only [provingKey, List.append_assoc]
  exact vk.bind ((back₁ _).bind ((points₁ short.aG).bind ((points₁ short.bG).bind
    ((points₂ short.bH).bind ((points₁ short.hG).bind (ck.bind
      ((points₁ short.deltasG).bind_pure rfl)))))))

/-- A record is read from its own bytes. -/
theorem provingKeys_readsBack {pks : KeyFiles.ProvingKeys G₁ G₂}
    (name : pks.circuitId.toUTF8.data.toList.length < 2 ^ 64)
    (params : pks.serializedCircParams.length < 2 ^ 64)
    (unique : pks.minimalProvingKeys.entries.length < 2 ^ 64)
    (short : ∀ e ∈ pks.minimalProvingKeys.entries, Short e.2)
    (count : pks.subcircuitRepresentativeMap.entries.length < 2 ^ 64) :
    (provingKeys g₁ g₂).ReadsBack mode validate pks := by
  rw [Coding.ReadsBack]
  simp only [provingKeys, List.append_assoc]
  exact (Coding.string_readsBack name).bind
    ((Coding.vec_readsBack params fun byte _ => Coding.u8_readsBack byte).bind
      ((Coding.map_readsBack unique fun e member =>
        provingKey_readsBack back₁ back₂ (short e member)).bind
          ((Coding.map_readsBack count fun e _ => Coding.u64_readsBack e.2).bind_pure rfl)))

end ReadingBack

section Lookups
variable {G₁ G₂ : Type}

/-- `ProvingKeys::get_pk`. -/
def getPk (pks : KeyFiles.ProvingKeys G₁ G₂) (subcircuitIdx : UInt64) :
    Outcome (ProvingKey G₁ G₂) := do
  let representativeIdx ← expect "subcircuit index out of range"
    (pks.subcircuitRepresentativeMap.entries.lookup subcircuitIdx)
  expect "missing proving key" (pks.minimalProvingKeys.entries.lookup representativeIdx)

/-- The keys as the nodes use them, where the indices are the first numbers. -/
def held (pks : KeyFiles.ProvingKeys G₁ G₂) : Workers.ProvingKeys G₁ G₂ where
  minimalProvingKeys i := pks.minimalProvingKeys.entries.lookup (.ofNat i)
  subcircuitRepresentativeMap := pks.subcircuitRepresentativeMap.entries.map fun e => e.2.toNat

/-- The entry of every index, in order. -/
def indexEntries (n : Nat) (f : Nat → Nat) : List (UInt64 × UInt64) :=
  (List.range n).map fun i => (.ofNat i, .ofNat (f i))

theorem indexEntries_sorted {n : Nat} (narrow : n ≤ 2 ^ 64) (f : Nat → Nat) :
    (indexEntries n f).Pairwise fun a b => a.1 < b.1 := by
  rw [indexEntries, List.pairwise_map]
  refine List.pairwise_lt_range.imp_of_mem fun inside inside' less => ?_
  rw [List.mem_range] at inside inside'
  rw [UInt64.lt_iff_toNat_lt, UInt64.toNat_ofNat_of_lt' (inside.trans_le narrow),
    UInt64.toNat_ofNat_of_lt' (inside'.trans_le narrow)]
  exact less

theorem collect_indexEntries {n : Nat} (narrow : n ≤ 2 ^ 64) (f : Nat → Nat) :
    (BTreeMap.collect (indexEntries n f)).entries = indexEntries n f :=
  congrArg BTreeMap.entries (BTreeMap.collect_entries ⟨_, indexEntries_sorted narrow f⟩)

theorem ofNat_inj {a b : Nat} (here : a < 2 ^ 64) (there : b < 2 ^ 64)
    (same : UInt64.ofNat a = UInt64.ofNat b) : a = b := by
  have equal := congrArg UInt64.toNat same
  rwa [UInt64.toNat_ofNat_of_lt' here, UInt64.toNat_ofNat_of_lt' there] at equal

theorem lookup_indexEntries {n i : Nat} (narrow : n ≤ 2 ^ 64) (f : Nat → Nat) (inside : i < n) :
    (indexEntries n f).lookup (.ofNat i) = some (.ofNat (f i)) := by
  rw [← collect_indexEntries narrow f]
  refine BTreeMap.lookup_collect (List.mem_map_of_mem (List.mem_range.mpr inside)) ?_
  intro e member key
  obtain ⟨j, below, rfl⟩ := List.mem_map.mp member
  rw [List.mem_range] at below
  rw [ofNat_inj (below.trans_le narrow) (inside.trans_le narrow) key]

/-- The nodes' view gives the keys that the record's lookups give. -/
theorem held_getPk {pks : KeyFiles.ProvingKeys G₁ G₂} {n i : Nat} {f : Nat → Nat}
    (narrow : n ≤ 2 ^ 64) (entries : pks.subcircuitRepresentativeMap.entries = indexEntries n f)
    (inside : i < n) : (held pks).getPk i = getPk pks (.ofNat i) := by
  have found : ((indexEntries n f).map fun e => e.2.toNat)[i]? =
      some (UInt64.ofNat (f i)).toNat := by
    simp [indexEntries, inside]
  rw [Workers.ProvingKeys.getPk, getPk, entries, lookup_indexEntries narrow f inside]
  simp only [held, entries, found, expect_some, ok_bind, UInt64.ofNat_toNat]

end Lookups

section Packages
variable {F D P G₁ G₂ GT Com K Pf : Type} {m : MemType} (g₁ : Coding G₁) (g₂ : Coding G₂)

/-- `ProvingKeys::new` of a circuit, with the key that is drawn for each unique subcircuit. -/
def newKeys (genPk : Nat → Outcome (ProvingKey G₁ G₂)) (circ : CircuitWithPortals F D m)
    (serializedCircParams : List UInt8) (idStr : String) :
    Outcome (KeyFiles.ProvingKeys G₁ G₂) := do
  let minimalProvingKeys ← circ.getUniqueSubcircuits.mapM fun i => do
    let pk ← genPk i
    .ok (UInt64.ofNat i, pk)
  let subcircuitRepresentativeMap ← (List.range circ.numSubcircuits).mapM fun i => do
    let representative ← circ.representativeSubcircuit i
    .ok (UInt64.ofNat i, UInt64.ofNat representative)
  .ok ⟨idStr, serializedCircParams, .collect minimalProvingKeys,
    .collect subcircuitRepresentativeMap⟩

/-- What a set-up writes into the key file. -/
def setUp (params : Codec P) (genPk : Nat → Outcome (ProvingKey G₁ G₂))
    (circ : CircuitWithPortals F D m) (circParams : P) (idStr : String) :
    Outcome (List UInt8) := do
  let pks ← newKeys genPk circ (params.serialize circParams) idStr
  .ok ((provingKeys g₁ g₂).write .no pks)

/-- `deserialize_uncompressed_unchecked(..).unwrap()` of a key file. -/
def readKeys (file : List UInt8) : Outcome (KeyFiles.ProvingKeys G₁ G₂) :=
  match ((provingKeys g₁ g₂).read .no .no).run file with
  | .ok (pks, _) => .ok pks
  | .error _ => panicWith "called `Result::unwrap()` on an `Err` value"

section Ranks
variable [Field F] [AddCommGroup G₁] [Module F G₁] [AddCommGroup G₂] [Module F G₂]
variable [AddCommGroup GT] [Module F GT] [AddCommGroup Com] [Module F Com]
variable [DecidableEq F] [Inhabited D] [DecidableEq GT]
variable (S : Setting F D P G₁ G₂ GT Com K Pf m) (wire : Wire S) (draws : NodeDraws S)
variable (launch : Launch) (idStr : String) (others : String → Nat → Node (Option Pf))

/-- A rank that is started on a key file; files of other names start other circuits. -/
def startWork (file : List UInt8) (rank : Nat) : Node (Option Pf) := do
  let provingKeys ← .lift (readKeys g₁ g₂ file)
  if provingKeys.circuitId = idStr then
    work S wire draws launch provingKeys.serializedCircParams (held provingKeys) rank
  else others provingKeys.circuitId rank

/-- All ranks, each on the same key file. -/
def startedWorld (file : List UInt8) : Network Nat Message Fault (Option Pf) :=
  star (startWork g₁ g₂ S wire draws launch idStr others file 0)
    (fun j => if j + 1 < launch.size then
      startWork g₁ g₂ S wire draws launch idStr others file (j + 1) else .halt (.ok none))
    (fun _ => []) fun _ => []

end Ranks

variable {g₁ g₂} {params : Codec P} {genPk : Nat → Outcome (ProvingKey G₁ G₂)}
variable {circ : CircuitWithPortals F D m} {circParams : P} {idStr : String}
variable {pkOf : Nat → ProvingKey G₁ G₂} {owner : Nat → Nat}

variable (g₁ g₂ params genPk circ circParams idStr pkOf owner) in
/-- Each representative is unique and has a key, and the file's lengths and indices have 64
bits. -/
structure Packaged : Prop where
  points₁ : ∀ a, g₁.ReadsBack .no .no a
  points₂ : ∀ a, g₂.ReadsBack .no .no a
  drawn : ∀ r ∈ circ.getUniqueSubcircuits, genPk r = .ok (pkOf r)
  short : ∀ r ∈ circ.getUniqueSubcircuits, Short (pkOf r)
  narrow : ∀ r ∈ circ.getUniqueSubcircuits, r < 2 ^ 64
  represented : ∀ i < circ.numSubcircuits,
    circ.representativeSubcircuit i = .ok (owner i) ∧ owner i ∈ circ.getUniqueSubcircuits
  unique : circ.getUniqueSubcircuits.length < 2 ^ 64
  count : circ.numSubcircuits < 2 ^ 64
  name : idStr.toUTF8.data.toList.length < 2 ^ 64
  serialized : (params.serialize circParams).length < 2 ^ 64

variable (params genPk circ circParams idStr pkOf owner) in
/-- The record of such a set-up. -/
def packagedKeys : KeyFiles.ProvingKeys G₁ G₂ where
  circuitId := idStr
  serializedCircParams := params.serialize circParams
  minimalProvingKeys := .collect (circ.getUniqueSubcircuits.map fun r => (.ofNat r, pkOf r))
  subcircuitRepresentativeMap := .collect (indexEntries circ.numSubcircuits owner)

theorem newKeys_eq (packaged : Packaged g₁ g₂ params genPk circ circParams idStr pkOf owner) :
    newKeys genPk circ (params.serialize circParams) idStr =
      .ok (packagedKeys params circ circParams idStr pkOf owner) := by
  have unique : (circ.getUniqueSubcircuits.mapM fun i => do
      let pk ← genPk i
      .ok (UInt64.ofNat i, pk)) =
      .ok (circ.getUniqueSubcircuits.map fun r => (UInt64.ofNat r, pkOf r)) :=
    mapM_eq_ok fun r member => by rw [packaged.drawn r member, ok_bind]
  have representatives : ((List.range circ.numSubcircuits).mapM fun i => do
      let representative ← circ.representativeSubcircuit i
      .ok (UInt64.ofNat i, UInt64.ofNat representative)) =
      .ok (indexEntries circ.numSubcircuits owner) :=
    mapM_eq_ok fun i member => by
      rw [(packaged.represented i (List.mem_range.mp member)).1, ok_bind]
  rw [newKeys, unique, ok_bind, representatives, ok_bind]
  rfl

/-- Every rank reads the record that was written. -/
theorem readKeys_eq (packaged : Packaged g₁ g₂ params genPk circ circParams idStr pkOf owner) :
    readKeys g₁ g₂ ((provingKeys g₁ g₂).write .no
      (packagedKeys params circ circParams idStr pkOf owner)) =
        .ok (packagedKeys params circ circParams idStr pkOf owner) := by
  have back : (provingKeys g₁ g₂).ReadsBack .no .no
      (packagedKeys params circ circParams idStr pkOf owner) := by
    refine provingKeys_readsBack packaged.points₁ packaged.points₂ packaged.name
      packaged.serialized ?_ ?_ ?_
    · have fewer := Coding.size_collect (fun _ => 1)
        (circ.getUniqueSubcircuits.map fun r => (UInt64.ofNat r, pkOf r))
      simp only [List.map_map, Function.comp_def, List.map_const', List.sum_replicate,
        smul_eq_mul, Nat.mul_one] at fewer
      exact fewer.trans_lt packaged.unique
    · intro e member
      obtain ⟨r, inside, rfl⟩ := List.mem_map.mp (BTreeMap.mem_collect member)
      exact packaged.short r inside
    · rw [packagedKeys, collect_indexEntries packaged.count.le]
      simpa [indexEntries] using packaged.count
  have read := back.run []
  rw [List.append_nil] at read
  rw [readKeys, read]

/-- Every index has the key of its representative. -/
theorem getPk_packagedKeys
    (packaged : Packaged g₁ g₂ params genPk circ circParams idStr pkOf owner) {i : Nat}
    (inside : i < circ.numSubcircuits) :
    getPk (packagedKeys params circ circParams idStr pkOf owner) (.ofNat i) =
      .ok (pkOf (owner i)) := by
  have entries : (packagedKeys params circ circParams idStr pkOf
      owner).subcircuitRepresentativeMap.entries = indexEntries circ.numSubcircuits owner :=
    collect_indexEntries packaged.count.le owner
  obtain ⟨_, member⟩ := packaged.represented i inside
  have found : (packagedKeys params circ circParams idStr pkOf
      owner).minimalProvingKeys.entries.lookup (.ofNat (owner i)) = some (pkOf (owner i)) := by
    refine BTreeMap.lookup_collect (List.mem_map_of_mem member) ?_
    intro e here same
    obtain ⟨r, unique, rfl⟩ := List.mem_map.mp here
    rw [ofNat_inj (packaged.narrow r unique) (packaged.narrow _ member) same]
  rw [getPk, entries, lookup_indexEntries packaged.count.le owner inside, expect_some, ok_bind,
    found, expect_some]

variable [Field F] [AddCommGroup G₁] [Module F G₁] [AddCommGroup G₂] [Module F G₂]
variable [AddCommGroup GT] [Module F GT] [AddCommGroup Com] [Module F Com]
variable [DecidableEq F] [Inhabited D] [DecidableEq GT]
variable {S : Setting F D P G₁ G₂ GT Com K Pf m} {draws : NodeDraws S} {launch : Launch}
variable {aggCk : K × AggProvingKey G₁ G₂ Com} {others : String → Nat → Node (Option Pf)}
variable {codecs : Transport.LeafCodecs F (MerklePath D) D P G₁ G₂}
variable {seeds : SeedBytes S.session.rng.Seed}

theorem startedWorld_eq
    (packaged : Packaged g₁ g₂ codecs.params genPk circ circParams idStr pkOf owner) :
    startedWorld g₁ g₂ S (wireOf codecs seeds) draws launch idStr others
      ((provingKeys g₁ g₂).write .no
        (packagedKeys codecs.params circ circParams idStr pkOf owner)) =
      world S (wireOf codecs seeds) draws launch (codecs.params.serialize circParams)
        (held (packagedKeys codecs.params circ circParams idStr pkOf owner)) := by
  have started : ∀ rank, startWork g₁ g₂ S (wireOf codecs seeds) draws launch idStr others
      ((provingKeys g₁ g₂).write .no
        (packagedKeys codecs.params circ circParams idStr pkOf owner)) rank =
      work S (wireOf codecs seeds) draws launch (codecs.params.serialize circParams)
        (held (packagedKeys codecs.params circ circParams idStr pkOf owner)) rank := by
    intro rank
    rw [startWork, readKeys_eq packaged]
    exact if_pos rfl
  simp only [startedWorld, world, started]

/-- Whatever file a set-up writes, it is read back whole, every subcircuit has the key of its
representative in it, and nodes that are started on it end, from every state that any order of
their steps reaches, with the proof of a single run with these keys. -/
theorem setUp_then_work
    {run : SingleRun S circParams (fun i => pkOf (owner i)) aggCk draws.rand draws.stages}
    (packaged : Packaged g₁ g₂ codecs.params genPk circ circParams idStr pkOf owner)
    (count : circ.numSubcircuits = S.numSubcircuits circParams)
    (readable : Reads codecs.params.deserialize (codecs.params.serialize circParams) circParams)
    (tipaSetup : draws.tipaSetup (S.numSubcircuits circParams) = aggCk.1)
    (supported : (S.backend aggCk.1).ipp.supportedSize = S.numSubcircuits circParams)
    (built : AggProvingKey.new (S.backend aggCk.1).ipp.toTIPPCommitment
      (fun i => pkOf (owner i)) = .ok aggCk.2)
    (positive : 0 < S.numSubcircuits circParams)
    (divides : S.numSubcircuits circParams / launch.numWorkers * launch.numWorkers =
      S.numSubcircuits circParams)
    (size : launch.size = launch.numWorkers + 1)
    (threads : ∀ rank, 1 ≤ launch.currentNumThreads rank)
    (spare : launch.parallel = true → ∀ rank, 2 ≤ launch.currentNumThreads rank)
    (formats : Formats codecs seeds run (S.numSubcircuits circParams / launch.numWorkers)) :
    ∃ file pks, setUp g₁ g₂ codecs.params genPk circ circParams idStr = .ok file ∧
      newKeys genPk circ (codecs.params.serialize circParams) idStr = .ok pks ∧
      readKeys g₁ g₂ file = .ok pks ∧
      (∀ i < circ.numSubcircuits, getPk pks (.ofNat i) = .ok (pkOf (owner i))) ∧
      ∃ schedule, ∀ taken net,
        runs Network.advance taken
          (startedWorld g₁ g₂ S (wireOf codecs seeds) draws launch idStr others file) = some net →
        ∃ rest, (taken ++ rest).Perm schedule ∧
          runs Network.advance rest net = some (finished run.proof) := by
  have written : setUp g₁ g₂ codecs.params genPk circ circParams idStr =
      .ok ((provingKeys g₁ g₂).write .no
        (packagedKeys codecs.params circ circParams idStr pkOf owner)) := by
    rw [setUp, newKeys_eq packaged, ok_bind]
  have keys : KeysOf (wireOf codecs seeds) draws circParams (fun i => pkOf (owner i)) aggCk
      (codecs.params.serialize circParams)
      (held (packagedKeys codecs.params circ circParams idStr pkOf owner)) := by
    refine ⟨⟨[], ?_⟩, ?_, fun i inside => ?_, tipaSetup, supported, built⟩
    · have read := readable.run []
      rwa [List.append_nil] at read
    · rw [← count, Workers.ProvingKeys.numSubcircuits, held, packagedKeys,
        collect_indexEntries packaged.count.le]
      simp [indexEntries]
    · rw [← count] at inside
      rw [held_getPk packaged.count.le (collect_indexEntries packaged.count.le owner) inside]
      exact getPk_packagedKeys packaged inside
  obtain ⟨schedule, ran⟩ := nodes_reach keys positive divides size threads spare formats
  refine ⟨_, _, written, newKeys_eq packaged, readKeys_eq packaged,
    fun i inside => getPk_packagedKeys packaged inside, schedule, fun taken net began => ?_⟩
  rw [startedWorld_eq packaged] at began
  exact completes Network.advance_commuting ran (finished_stuck run.proof) began

end Packages

/-- Scalars of three values, in a byte in every mode. -/
def digitCoding : Coding (ZMod 3) where
  write _ a := digitCodec.serialize a
  size _ _ := 1
  read _ _ := digitCodec.deserialize

/-- The key's vectors are short. -/
def shortKey : Outcome Unit := do
  let pk ← readingKey
  if pk.vk.gammaAbcG.length < 2 ^ 64 ∧ pk.vk.deltasH.length < 2 ^ 64 ∧ pk.aG.length < 2 ^ 64 ∧
      pk.bG.length < 2 ^ 64 ∧ pk.bH.length < 2 ^ 64 ∧ pk.hG.length < 2 ^ 64 ∧
      pk.ck.deltasAbcG.length < 2 ^ 64 ∧ (∀ stage ∈ pk.ck.deltasAbcG, stage.length < 2 ^ 64) ∧
      pk.deltasG.length < 2 ^ 64 then .ok ()
  else panicWith "assertion failed"

theorem shortKey_ok : shortKey = .ok () := by
  decide +kernel

theorem readingKey_short {pk : ProvingKey (ZMod 3) (ZMod 3)} (key : readingKey = .ok pk) :
    Short pk := by
  obtain ⟨pk', key', ran⟩ := bind_eq_ok.mp shortKey_ok
  cases key.symm.trans key'
  split at ran
  · rename_i bounds
    obtain ⟨gammaAbcG, deltasH, aG, bG, bH, hG, stages, deltasAbcG, deltasG⟩ := bounds
    exact ⟨gammaAbcG, deltasH, aG, bG, bH, hG, stages, deltasAbcG, deltasG⟩
  · cases ran

def merkleCircuitId : String := "BigMerkle circuit"

def unknownCircuit (_ : String) (_ : Nat) : Node (Option (Witness (ZMod 3) (ZMod 3))) :=
  .lift (panicWith "unknown circuit ID")

theorem reading_packaged {pk : ProvingKey (ZMod 3) (ZMod 3)} (key : readingKey = .ok pk) :
    Packaged digitCoding digitCoding paramsCodec (fun _ => readingKey) readingCircuit ⟨1, 1, 1⟩
      merkleCircuitId (fun _ => pk) (fun _ => 0) where
  points₁ := digitCodec_lawful
  points₂ := digitCodec_lawful
  drawn _ _ := key
  short _ _ := readingKey_short key
  narrow := by decide
  represented _ _ := ⟨rfl, List.mem_singleton_self 0⟩
  unique := by decide
  count := by decide
  name := by decide +kernel
  serialized := by decide +kernel

/-- A file for two subcircuits with one key, and two workers that read it. -/
theorem twoWorkers_readFile : ∃ (wire : Wire readingSetting) (file : List UInt8)
    (pks : KeyFiles.ProvingKeys (ZMod 3) (ZMod 3)) (proof : Witness (ZMod 3) (ZMod 3))
    (schedule : List Nat),
    setUp digitCoding digitCoding paramsCodec (fun _ => readingKey) readingCircuit ⟨1, 1, 1⟩
      merkleCircuitId = .ok file ∧
    readKeys digitCoding digitCoding file = .ok pks ∧
    (∀ i < 2, getPk pks (.ofNat i) = readingKey) ∧
    ∀ taken net, runs Network.advance taken (startedWorld digitCoding digitCoding readingSetting
        wire readingNodeDraws threeRanks merkleCircuitId unknownCircuit file) = some net →
      ∃ rest, (taken ++ rest).Perm schedule ∧
        runs Network.advance rest net = some (finished proof) := by
  obtain ⟨pk, agg, key, built, ⟨run⟩⟩ := readingRun_ok
  have packaged : Packaged digitCoding digitCoding (readingLeafCodecs run.finished).params
      (fun _ => readingKey) readingCircuit ⟨1, 1, 1⟩ merkleCircuitId (fun _ => pk) (fun _ => 0) :=
    reading_packaged key
  have count : readingCircuit.numSubcircuits = readingSetting.numSubcircuits ⟨1, 1, 1⟩ := rfl
  have readable : Reads paramsCodec.deserialize (paramsCodec.serialize ⟨1, 1, 1⟩) ⟨1, 1, 1⟩ :=
    paramsCodec_reads (by decide) (by decide) (by decide)
  have positive : 0 < readingSetting.numSubcircuits ⟨1, 1, 1⟩ := by decide
  have divides : readingSetting.numSubcircuits ⟨1, 1, 1⟩ / threeRanks.numWorkers *
      threeRanks.numWorkers = readingSetting.numSubcircuits ⟨1, 1, 1⟩ := by decide
  have size : threeRanks.size = threeRanks.numWorkers + 1 := rfl
  have drawn : readingNodeDraws.tipaSetup (readingSetting.numSubcircuits ⟨1, 1, 1⟩) =
      ((), agg).1 := rfl
  obtain ⟨file, pks, written, _, whole, represented, schedule, completed⟩ :=
    setUp_then_work packaged count readable drawn rfl built positive divides size
      (fun _ => one_le_two) (fun _ _ => Nat.le_refl 2) (reading_formats key run)
  exact ⟨readingWire run.finished, file, pks, run.proof, schedule, written, whole,
    fun i inside => (represented i inside).trans key.symm, completed⟩

end KeyPackages
