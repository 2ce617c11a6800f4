import Hekaton.Nodes

/-!
# What the nodes send

The requests and responses as they are written: indices and addresses in eight bytes, entries
tagged by their memory, and the values of other libraries by their own codecs. A proof of a
worker has one commitment, so all responses of a stage take as many bytes as the default one.
With these formats the nodes end with the proof of the single run in every order of steps.
-/

namespace NodeFormats

open LinearCombinations Outcomes CPGroth16 Transcript EvalTree SubcircuitCircuit Coordinator
open Aggregation Workers SubcircuitAggregation CommitmentConsistency ResponseOrder
open Codecs Packing Networks Collectives Deployment Nodes TreeHashCircuit

section Values
variable {F D P G₁ G₂ : Type} {m : MemType}

def entryRef : TranscriptEntry F m → Transport.TranscriptEntry F
  | .rom e => .rom (.ofNat e.addr) e.val
  | .ram e => .ram (.ofNat e.addr) e.val e.i.bits e.read

/-- An entry of this memory. -/
def entryOwned : (m : MemType) → Transport.TranscriptEntry F → Option (TranscriptEntry F m)
  | .rom, .rom addr val => some (.rom ⟨addr.toNat, val⟩)
  | .ram, .ram addr val bits read =>
    if width : bits.length = 32 then some (.ram ⟨addr.toNat, val, ⟨bits, width⟩, read⟩) else none
  | _, _ => none

def evalsRef : (m : MemType) → RunningEvaluation F m → Transport.RunningEvaluation F
  | .rom, evals => .rom evals.timeOrderedEval evals.addrOrderedEval
    (evals.challenges.map fun | .rom entryChal trChal => (entryChal, trChal))
  | .ram, evals => .ram evals.timeOrderedEval evals.addrOrderedEval
    (evals.challenges.map fun | .ram a b c trChal => (a, b, c, trChal))

def evalsOwned : (m : MemType) → Transport.RunningEvaluation F → Option (RunningEvaluation F m)
  | .rom, .rom time addr challenges => some ⟨time, addr, challenges.map fun c => .rom c.1 c.2⟩
  | .ram, .ram time addr challenges =>
    some ⟨time, addr, challenges.map fun c => .ram c.1 c.2.1 c.2.2.1 c.2.2.2⟩
  | _, _ => none

def stage0Ref (req : Stage0Request F m) : Transport.Stage0RequestRef F :=
  ⟨.ofNat req.subcircuitIdx, req.timeOrderedSubtrace.map entryRef,
    req.addrOrderedSubtrace.map entryRef⟩

def stage0Owned (req : Transport.Stage0Request F) : Option (Stage0Request F m) := do
  let time ← req.timeOrderedSubtrace.mapM (entryOwned m)
  let addr ← req.addrOrderedSubtrace.mapM (entryOwned m)
  some ⟨req.subcircuitIdx.toNat, time, addr⟩

def stage1Ref (req : CircuitRequest F D P m) : Transport.Stage1RequestRef F (MerklePath D) D P :=
  ⟨.ofNat req.subcircuitIdx, ⟨evalsRef m req.curLeaf.evals, entryRef req.curLeaf.lastSubtraceEntry⟩,
    req.nextLeafMembership, req.root, req.serializedWitnesses, req.circParams⟩

def stage1Owned (req : Transport.Stage1Request F (MerklePath D) D P) :
    Option (CircuitRequest F D P m) := do
  let evals ← evalsOwned m req.curLeaf.evals
  let entry ← entryOwned m req.curLeaf.lastSubtraceEntry
  some { subcircuitIdx := req.subcircuitIdx.toNat
         curLeaf := ⟨evals, entry⟩
         nextLeafMembership := req.nextLeafMembership
         root := req.root
         serializedWitnesses := req.serializedWitnesses
         circParams := req.circParams }

theorem entryOwned_entryRef {e : TranscriptEntry F m} (narrow : e.addr < 2 ^ 64) :
    entryOwned m (entryRef e) = some e := by
  cases e with
  | rom e =>
    have same : (UInt64.ofNat e.addr).toNat = e.addr := UInt64.toNat_ofNat_of_lt' narrow
    rw [entryRef, entryOwned, same]
  | ram e =>
    have same : (UInt64.ofNat e.addr).toNat = e.addr := UInt64.toNat_ofNat_of_lt' narrow
    rw [entryRef, entryOwned, dif_pos e.i.width, same]

theorem evalsOwned_evalsRef (evals : RunningEvaluation F m) :
    evalsOwned m (evalsRef m evals) = some evals := by
  obtain ⟨time, addr, challenges⟩ := evals
  cases m with
  | rom =>
    rcases challenges with _ | ⟨a, b⟩
    · rfl
    · rfl
  | ram =>
    rcases challenges with _ | ⟨a, b, c, d⟩
    · rfl
    · rfl

theorem subtraceOwned {subtrace : List (TranscriptEntry F m)}
    (narrow : ∀ e ∈ subtrace, e.addr < 2 ^ 64) :
    (subtrace.map entryRef).mapM (entryOwned m) = some subtrace := by
  induction subtrace with
  | nil => rfl
  | cons e subtrace ih =>
    obtain ⟨first, rest⟩ := List.forall_mem_cons.mp narrow
    simp [entryOwned_entryRef first, ih rest]

theorem stage0Owned_stage0Ref {req : Stage0Request F m} (index : req.subcircuitIdx < 2 ^ 64)
    (time : ∀ e ∈ req.timeOrderedSubtrace, e.addr < 2 ^ 64)
    (addr : ∀ e ∈ req.addrOrderedSubtrace, e.addr < 2 ^ 64) :
    stage0Owned (stage0Ref req).toOwned = some req := by
  simp [stage0Owned, stage0Ref, Transport.Stage0RequestRef.toOwned, subtraceOwned time,
    subtraceOwned addr, UInt64.toNat_ofNat_of_lt' index]

theorem stage1Owned_stage1Ref {req : CircuitRequest F D P m} (index : req.subcircuitIdx < 2 ^ 64)
    (entry : req.curLeaf.lastSubtraceEntry.addr < 2 ^ 64) :
    stage1Owned (stage1Ref req).toOwned = some req := by
  simp [stage1Owned, stage1Ref, Transport.Stage1RequestRef.toOwned, evalsOwned_evalsRef,
    entryOwned_entryRef entry, UInt64.toNat_ofNat_of_lt' index]

end Values

/-- Values that are written and read as those of other types. -/
def via {α β γ : Type} (write : β → List UInt8) (read : Reader γ) (ref : α → β)
    (owned : γ → Option α) : Codec α where
  serialize a := write (ref a)
  deserialize := do
    let c ← read
    match owned c with
    | some a => pure a
    | none => throw .invalidData

theorem via_reads {α β γ : Type} {write : β → List UInt8} {read : Reader γ} {ref : α → β}
    {owned : γ → Option α} {a : α} {c : γ} (reads : Reads read (write (ref a)) c)
    (back : owned c = some a) :
    Reads (via write read ref owned).deserialize ((via write read ref owned).serialize a) a := by
  refine reads.bind_pure ?_
  simp only [back]

/-- A seed as its bytes. -/
structure SeedBytes (Seed : Type) where
  toBytes : Seed → Vector UInt8 32
  ofBytes : Vector UInt8 32 → Seed

section Formats
variable {F D P G₁ G₂ GT Com K Pf : Type} [Field F] [AddCommGroup G₁] [Module F G₁]
variable [AddCommGroup G₂] [Module F G₂] [AddCommGroup GT] [Module F GT]
variable [AddCommGroup Com] [Module F Com] {m : MemType} {S : Setting F D P G₁ G₂ GT Com K Pf m}

/-- The formats of all that the nodes read and send. -/
def wireOf (codecs : Transport.LeafCodecs F (MerklePath D) D P G₁ G₂)
    (seeds : SeedBytes S.session.rng.Seed) : Wire S where
  params := codecs.params
  stage0Request := via (Transport.Stage0RequestRef.serialize codecs.scalar)
    (Transport.Stage0Request.deserialize codecs.scalar) stage0Ref stage0Owned
  stage0Response := via (Transport.Stage0Response.serialize codecs)
    (Transport.Stage0Response.deserialize codecs)
    (fun resp => ⟨.ofNat resp.subcircuitIdx, resp.com, seeds.toBytes resp.comSeed⟩)
    (fun resp => some ⟨resp.subcircuitIdx.toNat, resp.com, seeds.ofBytes resp.comSeed⟩)
  stage1Request := via (Transport.Stage1RequestRef.serialize codecs)
    (Transport.Stage1Request.deserialize codecs) stage1Ref stage1Owned
  stage1Response := via (Transport.Stage1Response.serialize codecs)
    (Transport.Stage1Response.deserialize codecs)
    (fun resp => ⟨.ofNat resp.subcircuitIdx, resp.proof⟩)
    (fun resp => some ⟨resp.subcircuitIdx.toNat, resp.proof⟩)
  defaultSeed := seeds.ofBytes (.replicate 32 0)

variable [DecidableEq F] [Inhabited D] [DecidableEq GT]
variable {params : P} {keys : Nat → ProvingKey G₁ G₂} {aggCk : K × AggProvingKey G₁ G₂ Com}
variable {draws : NodeDraws S} {codecs : Transport.LeafCodecs F (MerklePath D) D P G₁ G₂}
variable {seeds : SeedBytes S.session.rng.Seed}
variable {run : SingleRun S params keys aggCk draws.rand draws.stages} {perWorker : Nat}

variable (codecs seeds run perWorker) in
/-- The codecs of other libraries read back what the run sends, addresses and indices have 64
bits, and counts of 32 bits hold each transfer. -/
structure Formats : Prop where
  scalar : codecs.scalar.Lawful
  g1 : codecs.g1.Lawful
  g2 : codecs.g2.Lawful
  g1_sized : ∃ size, codecs.g1.Sized size
  g2_sized : ∃ size, codecs.g2.Sized size
  path : ∀ req ∈ run.finished.requests, Reads codecs.path.deserialize
    (codecs.path.serialize req.nextLeafMembership) req.nextLeafMembership
  root : ∀ req ∈ run.finished.requests, Reads codecs.root.deserialize
    (codecs.root.serialize req.root) req.root
  circParams : ∀ req ∈ run.finished.requests, Reads codecs.params.deserialize
    (codecs.params.serialize req.circParams) req.circParams
  seedBytes : ∀ seed, seeds.ofBytes (seeds.toBytes seed) = seed
  count : S.numSubcircuits params < 2 ^ 64
  time : ∀ done ∈ run.finished.committed,
    ∀ e ∈ done.request.timeOrderedSubtrace, e.addr < 2 ^ 64
  addr : ∀ done ∈ run.finished.committed,
    ∀ e ∈ done.request.addrOrderedSubtrace, e.addr < 2 ^ 64
  entry : ∀ req ∈ run.finished.requests, req.curLeaf.lastSubtraceEntry.addr < 2 ^ 64
  packets₀ : Transport.packets (wireOf codecs seeds).stage0Request.serialize
    (chunks perWorker (run.finished.committed.map Committed.request)) < 2 ^ 31
  packets₁ : Transport.packets (wireOf codecs seeds).stage1Request.serialize
    (chunks perWorker run.finished.requests) < 2 ^ 31
  bytes₀ : Transport.responseBytes (wireOf codecs seeds).stage0Response.serialize
    (chunks perWorker (run.finished.committed.map Committed.response)) < 2 ^ 31
  bytes₁ : Transport.responseBytes (wireOf codecs seeds).stage1Response.serialize
    (chunks perWorker run.finished.responses) < 2 ^ 31

omit [Field F] [AddCommGroup G₁] [Module F G₁] [AddCommGroup G₂] [Module F G₂]
  [DecidableEq F] [Inhabited D] in
theorem reads_stage1Request {req : Transport.Stage1RequestRef F (MerklePath D) D P}
    (scalar : codecs.scalar.Lawful)
    (path : Reads codecs.path.deserialize (codecs.path.serialize req.nextLeafMembership)
      req.nextLeafMembership)
    (root : Reads codecs.root.deserialize (codecs.root.serialize req.root) req.root)
    (circParams : Reads codecs.params.deserialize (codecs.params.serialize req.circParams)
      req.circParams) (short : (req.serialize codecs).length < 2 ^ 64) :
    Reads (Transport.Stage1Request.deserialize codecs) (req.serialize codecs) req.toOwned := by
  simp only [Transport.Stage1RequestRef.serialize, List.length_append] at short
  have leaf := Transport.reads_execTreeLeaf scalar req.curLeaf (by omega)
  have bytes : req.serializedWitnesses.length ≤
      (writeVec (fun byte : UInt8 => [byte]) req.serializedWitnesses).length :=
    length_le_writeVec fun _ _ => Nat.one_pos
  have witnesses := reads_vec (by omega) fun byte (_ : byte ∈ req.serializedWitnesses) =>
    reads_u8 byte
  exact (reads_u64 _).bind (leaf.bind (path.bind (root.bind
    (witnesses.bind (circParams.bind_pure rfl)))))

/-- What is scattered in few packets is short. -/
theorem short_of_packets {α : Type} {write : α → List UInt8} {l : List α} {w : Nat}
    (positive : 0 < perWorker) (count : l.length = perWorker * w)
    (small : Transport.packets write (chunks perWorker l) < 2 ^ 31) {a : α} (member : a ∈ l) :
    (write a).length < 2 ^ 64 := by
  rw [← flatten_chunks positive count] at member
  obtain ⟨chunk, inside, here⟩ := List.mem_flatten.mp member
  have one := List.single_le_sum (fun n _ => Nat.zero_le n) _
    (List.mem_map_of_mem (f := fun chunk => (packBytes (writeVec write chunk)).length) inside)
  have bytes : (write a).length ≤ (writeVec write chunk).length := length_write_le here
  rw [packBytes_length] at one
  rw [Transport.packets] at small
  omega

/-- The worker's responses have the index of its subcircuit, and its proof one commitment. -/
theorem responses_indexed (run : SingleRun S params keys aggCk draws.rand draws.stages) :
    (∀ done ∈ run.finished.committed, done.request.subcircuitIdx < S.numSubcircuits params ∧
      done.response.subcircuitIdx < S.numSubcircuits params) ∧
    (∀ req ∈ run.finished.requests, req.subcircuitIdx < S.numSubcircuits params) ∧
    ∀ resp ∈ run.finished.responses, resp.subcircuitIdx < S.numSubcircuits params ∧
      resp.proof.ds.length = 1 := by
  obtain ⟨size, size', size'', each⟩ := run.steps
  obtain ⟨_, requested⟩ := run.between
  have indices : ∀ i < S.numSubcircuits params, ∀ done req resp, run.StepsAt i done req resp →
      done.response.subcircuitIdx = i ∧ resp.subcircuitIdx = i ∧ resp.proof.ds.length = 1 := by
    intro i _ done req resp steps
    obtain ⟨⟨⟨_, cb⟩, _⟩, got, same⟩ := bind_eq_ok.mp steps.stage0
    have answered := (getCb_reported got).index
    obtain ⟨_, proved⟩ := SingleRun.stage1_proved steps.stage0 steps.stage1
    have named := congrArg Stage0Response.subcircuitIdx (Except.ok.inj same)
    exact ⟨named.symm.trans (answered.trans steps.index), proved.index.trans steps.index,
      congrArg List.length proved.reported⟩
  refine ⟨fun done member => ?_, fun req member => ?_, fun resp member => ?_⟩
  · obtain ⟨i, here, rfl⟩ := List.getElem_of_mem member
    have inside : i < S.numSubcircuits params := by omega
    obtain ⟨d, req, resp, steps⟩ := each i inside
    have same := Option.some.inj ((List.getElem?_eq_getElem here).symm.trans steps.committed)
    rw [same, steps.index, (indices i inside d req resp steps).1]
    exact ⟨inside, inside⟩
  · obtain ⟨i, here, rfl⟩ := List.getElem_of_mem member
    obtain ⟨inside, made⟩ := (getElem?_of_mapM requested).2 i _ (List.getElem?_eq_getElem here)
    obtain ⟨request, generated, rest⟩ := bind_eq_ok.mp made
    obtain ⟨witnesses, _, rest⟩ := bind_eq_ok.mp rest
    rw [← Except.ok.inj rest]
    exact (genRequest_index generated).trans_lt inside
  · obtain ⟨i, here, rfl⟩ := List.getElem_of_mem member
    have inside : i < S.numSubcircuits params := by omega
    obtain ⟨d, req, resp, steps⟩ := each i inside
    have same := Option.some.inj ((List.getElem?_eq_getElem here).symm.trans steps.answered)
    obtain ⟨_, index, single⟩ := indices i inside d req resp steps
    rw [same, index]
    exact ⟨inside, single⟩

/-- What the run sends is read back. -/
theorem Formats.carried {w : Nat} (formats : Formats codecs seeds run perWorker)
    (positive : 0 < perWorker) (total : S.numSubcircuits params = perWorker * w) :
    Carried (wireOf codecs seeds) run perWorker := by
  obtain ⟨count, count', _⟩ := run.steps
  obtain ⟨committed, requested, responded⟩ := responses_indexed run
  obtain ⟨size, sized⟩ := formats.g1_sized
  obtain ⟨size', sized'⟩ := formats.g2_sized
  have narrow : ∀ i < S.numSubcircuits params, i < 2 ^ 64 := fun i inside =>
    inside.trans formats.count
  refine ⟨fun done member => ?_, fun done member => ?_, fun req member => ?_,
    fun resp member => ?_, fun done member => ?_, fun resp member => ?_, ?_, ?_, formats.packets₀,
    formats.packets₁, formats.bytes₀, formats.bytes₁⟩
  · have short := short_of_packets positive (by rw [List.length_map, count, total])
      formats.packets₀ (List.mem_map_of_mem member)
    exact via_reads (Transport.reads_stage0Request formats.scalar short) (stage0Owned_stage0Ref
      (narrow _ (committed done member).1) (formats.time done member) (formats.addr done member))
  · have index : (UInt64.ofNat done.response.subcircuitIdx).toNat = done.response.subcircuitIdx :=
      UInt64.toNat_ofNat_of_lt' (narrow _ (committed done member).2)
    refine via_reads ((reads_u64 _).bind ((formats.g1 _).bind
      ((Transport.reads_seed _).bind_pure rfl))) ?_
    simp only [index, formats.seedBytes]
  · have short := short_of_packets positive (count'.trans total) formats.packets₁ member
    exact via_reads (reads_stage1Request formats.scalar (formats.path req member)
      (formats.root req member) (formats.circParams req member) short)
      (stage1Owned_stage1Ref (narrow _ (requested req member)) (formats.entry req member))
  · have index : (UInt64.ofNat resp.subcircuitIdx).toNat = resp.subcircuitIdx :=
      UInt64.toNat_ofNat_of_lt' (narrow _ (responded resp member).1)
    have single := (responded resp member).2
    have ds := reads_vec (by omega) fun d (_ : d ∈ resp.proof.ds) => formats.g1 d
    refine via_reads ((reads_u64 _).bind ((formats.g1 _).bind ((formats.g2 _).bind
      ((formats.g1 _).bind (ds.bind_pure rfl))))) ?_
    simp only [index]
  · exact (Transport.stage0Response_length sized _).trans
      (Transport.stage0Response_length sized _).symm
  · exact (Transport.stage1Response_length sized sized' (responded resp member).2).trans
      (Transport.stage1Response_length sized sized' rfl).symm
  · exact Nat.lt_of_lt_of_eq (by omega) (Transport.stage0Response_length sized _).symm
  · have single : (⟨0, ⟨0, 0, 0, [0]⟩⟩ : Transport.Stage1Response G₁ G₂).proof.ds.length = 1 := rfl
    exact Nat.lt_of_lt_of_eq (by omega)
      (Transport.stage1Response_length sized sized' single).symm

variable {launch : Launch} {serializedCircParams : List UInt8} {pks : ProvingKeys G₁ G₂}

/-- The nodes end with the proof of the single run in some order of their steps. -/
theorem nodes_reach
    (held : KeysOf (wireOf codecs seeds) draws params keys aggCk serializedCircParams pks)
    (positive : 0 < S.numSubcircuits params)
    (divides : S.numSubcircuits params / launch.numWorkers * launch.numWorkers =
      S.numSubcircuits params)
    (size : launch.size = launch.numWorkers + 1)
    (threads : ∀ rank, 1 ≤ launch.currentNumThreads rank)
    (spare : launch.parallel = true → ∀ rank, 2 ≤ launch.currentNumThreads rank)
    (formats : Formats codecs seeds run (S.numSubcircuits params / launch.numWorkers)) :
    ∃ schedule, runs Network.advance schedule
      (world S (wireOf codecs seeds) draws launch serializedCircParams pks) =
        some (finished run.proof) := by
  have perWorker : 0 < S.numSubcircuits params / launch.numWorkers := by
    rcases Nat.eq_zero_or_pos (S.numSubcircuits params / launch.numWorkers) with none | some
    · rw [none, Nat.zero_mul] at divides
      omega
    · exact some
  have launched : Launched (wireOf codecs seeds) launch serializedCircParams pks run
      (S.numSubcircuits params / launch.numWorkers) :=
    ⟨held, positive, divides.symm, size, threads, spare, formats.carried perWorker divides.symm⟩
  exact launched.world_reaches

/-- In whatever order the ranks take their steps, the steps that remain end with the proof of
the single run, all ranks done and no message left; no order of the steps is longer. -/
theorem nodes_in_any_order
    (held : KeysOf (wireOf codecs seeds) draws params keys aggCk serializedCircParams pks)
    (positive : 0 < S.numSubcircuits params)
    (divides : S.numSubcircuits params / launch.numWorkers * launch.numWorkers =
      S.numSubcircuits params)
    (size : launch.size = launch.numWorkers + 1)
    (threads : ∀ rank, 1 ≤ launch.currentNumThreads rank)
    (spare : launch.parallel = true → ∀ rank, 2 ≤ launch.currentNumThreads rank)
    (formats : Formats codecs seeds run (S.numSubcircuits params / launch.numWorkers)) :
    ∃ schedule, ∀ taken net,
      runs Network.advance taken
        (world S (wireOf codecs seeds) draws launch serializedCircParams pks) = some net →
      ∃ rest, (taken ++ rest).Perm schedule ∧
        runs Network.advance rest net = some (finished run.proof) := by
  obtain ⟨schedule, ran⟩ := nodes_reach held positive divides size threads spare formats
  exact ⟨schedule, fun taken net began =>
    completes Network.advance_commuting ran (finished_stuck run.proof) began⟩

end Formats
/-- Scalars of three values, in a byte. -/
def digitCodec : Codec (ZMod 3) where
  serialize a := [.ofNat a.val]
  deserialize := do
    let byte ← readU8
    pure byte.toNat

theorem digitCodec_lawful : digitCodec.Lawful := fun a =>
  (reads_u8 _).bind_pure (by fin_cases a <;> rfl)

def digitBytes : SeedBytes (ZMod 3) where
  toBytes a := .replicate 32 (.ofNat a.val)
  ofBytes bytes := bytes[0].toNat

theorem digitBytes_back (a : ZMod 3) : digitBytes.ofBytes (digitBytes.toBytes a) = a := by
  fin_cases a <;> rfl

/-- The three counts, in eight bytes each. -/
def paramsCodec : Codec MerkleTreeCircuitParams where
  serialize params := writeU64 (.ofNat params.numLeaves) ++
    (writeU64 (.ofNat params.numShaItersPerSubcircuit) ++
      writeU64 (.ofNat params.numPortalsPerSubcircuit))
  deserialize := do
    let numLeaves ← readU64
    let numShaIters ← readU64
    let numPortals ← readU64
    pure ⟨numLeaves.toNat, numShaIters.toNat, numPortals.toNat⟩

theorem paramsCodec_reads {params : MerkleTreeCircuitParams} (leaves : params.numLeaves < 2 ^ 64)
    (iters : params.numShaItersPerSubcircuit < 2 ^ 64)
    (portals : params.numPortalsPerSubcircuit < 2 ^ 64) :
    Reads paramsCodec.deserialize (paramsCodec.serialize params) params := by
  refine (reads_u64 _).bind ((reads_u64 _).bind ((reads_u64 _).bind_pure ?_))
  rw [UInt64.toNat_ofNat_of_lt' leaves, UInt64.toNat_ofNat_of_lt' iters,
    UInt64.toNat_ofNat_of_lt' portals]

abbrev ReadingFinished : Type := Finished (ZMod 3) (FreeDigest (ZMod 3)) MerkleTreeCircuitParams
  (ZMod 3) (ZMod 3) (ZMod 3) (ZMod 3) .rom

/-- Codecs that read back what the run sends. -/
def readingLeafCodecs (finished : ReadingFinished) : Transport.LeafCodecs (ZMod 3)
    (MerklePath (FreeDigest (ZMod 3))) (FreeDigest (ZMod 3)) MerkleTreeCircuitParams (ZMod 3)
    (ZMod 3) where
  scalar := digitCodec
  path := tableCodec (fun path => .ofNat path.leafIndex)
    (finished.requests.map fun req => req.nextLeafMembership)
  root := tableCodec (fun _ => 0) ((finished.requests.map fun req => req.root).take 1)
  params := paramsCodec
  g1 := digitCodec
  g2 := digitCodec

def readingWire (finished : ReadingFinished) : Wire readingSetting :=
  wireOf (readingLeafCodecs finished) digitBytes

/-- What is sent fits the formats. -/
def fits (finished : ReadingFinished) : Bool :=
  decide ((finished.requests.map fun req => UInt8.ofNat req.nextLeafMembership.leafIndex).Nodup) &&
  decide (∀ req ∈ finished.requests,
    req.root ∈ (finished.requests.map fun other => other.root).take 1 ∧
    req.circParams.numLeaves < 2 ^ 64 ∧ req.circParams.numShaItersPerSubcircuit < 2 ^ 64 ∧
    req.circParams.numPortalsPerSubcircuit < 2 ^ 64 ∧
    req.curLeaf.lastSubtraceEntry.addr < 2 ^ 64) &&
  decide (∀ done ∈ finished.committed,
    (∀ e ∈ done.request.timeOrderedSubtrace, e.addr < 2 ^ 64) ∧
    ∀ e ∈ done.request.addrOrderedSubtrace, e.addr < 2 ^ 64) &&
  decide (Transport.packets (readingWire finished).stage0Request.serialize
      (chunks 1 (finished.committed.map Committed.request)) < 2 ^ 31 ∧
    Transport.packets (readingWire finished).stage1Request.serialize
      (chunks 1 finished.requests) < 2 ^ 31 ∧
    Transport.responseBytes (readingWire finished).stage0Response.serialize
      (chunks 1 (finished.committed.map Committed.response)) < 2 ^ 31 ∧
    Transport.responseBytes (readingWire finished).stage1Response.serialize
      (chunks 1 finished.responses) < 2 ^ 31)

/-- The run in memory, for what it sends. -/
def sentRun : Outcome Unit := do
  let pk ← readingKey
  let state ← newStage0State readingCircuit (fun _ => []) (⟨1, 1, 1⟩ : MerkleTreeCircuitParams)
  let finished ← Driver.worker.work readingSetting.session (heldKeys (fun _ => pk) 2)
    readingSetting.gadget (treeDepth state) pairCommitment readingSetting.transcriptHash state
    twoSeeds
  if fits finished then .ok () else panicWith "assertion failed"

theorem sentRun_ok : sentRun = .ok () := by
  decide +kernel

def readingNodeDraws : NodeDraws readingSetting := ⟨fun _ => (), readingRand, twoSeeds⟩

/-- A coordinator and two workers, of two threads each. -/
def threeRanks : Launch := ⟨true, true, fun _ => 2, 3, 2⟩

variable {pk : ProvingKey (ZMod 3) (ZMod 3)} {agg : AggProvingKey (ZMod 3) (ZMod 3) (ZMod 3)}

theorem reading_fits (key : readingKey = .ok pk)
    (run : SingleRun readingSetting ⟨1, 1, 1⟩ (fun _ => pk) ((), agg) readingRand twoSeeds) :
    fits run.finished = true := by
  obtain ⟨pk', key', ran⟩ := bind_eq_ok.mp sentRun_ok
  cases key.symm.trans key'
  obtain ⟨state, began, ran⟩ := bind_eq_ok.mp ran
  cases run.began.symm.trans began
  obtain ⟨finished, worked, ran⟩ := bind_eq_ok.mp ran
  cases run.worked.symm.trans worked
  by_contra other
  rw [if_neg other] at ran
  cases ran

/-- All that the run sends has its formats. -/
theorem reading_formats (key : readingKey = .ok pk)
    (run : SingleRun readingSetting ⟨1, 1, 1⟩ (fun _ => pk) ((), agg) readingNodeDraws.rand
      readingNodeDraws.stages) :
    Formats (readingLeafCodecs run.finished) digitBytes run 1 := by
  have held := reading_fits key run
  simp only [fits, Bool.and_eq_true, decide_eq_true_eq] at held
  obtain ⟨⟨⟨paths, requests⟩, committed⟩, packets₀, packets₁, bytes₀, bytes₁⟩ := held
  have single : ∀ l : List (FreeDigest (ZMod 3)),
      ((l.take 1).map fun _ => (0 : UInt8)).Nodup := by
    intro l
    cases l <;> simp
  constructor
  case scalar => exact digitCodec_lawful
  case g1 => exact digitCodec_lawful
  case g2 => exact digitCodec_lawful
  case g1_sized => exact ⟨1, fun _ => rfl⟩
  case g2_sized => exact ⟨1, fun _ => rfl⟩
  case path =>
    intro req member
    exact tableCodec_reads (by simpa [List.map_map, Function.comp_def] using paths)
      (List.mem_map_of_mem member)
  case root =>
    intro req member
    exact tableCodec_reads (single _) (requests req member).1
  case circParams =>
    intro req member
    obtain ⟨_, leaves, iters, portals, _⟩ := requests req member
    exact paramsCodec_reads leaves iters portals
  case seedBytes => exact digitBytes_back
  case count => exact (by decide : 2 < 2 ^ 64)
  case time => exact fun done member => (committed done member).1
  case addr => exact fun done member => (committed done member).2
  case entry => exact fun req member => (requests req member).2.2.2.2
  case packets₀ => exact packets₀
  case packets₁ => exact packets₁
  case bytes₀ => exact bytes₀
  case bytes₁ => exact bytes₁

/-- Two workers with a subcircuit each, in any order of the ranks. -/
theorem twoWorkers_finish : ∃ (wire : Wire readingSetting) (pks : ProvingKeys (ZMod 3) (ZMod 3))
    (proof : Witness (ZMod 3) (ZMod 3)) (schedule : List Nat), ∀ taken net,
      runs Network.advance taken (world readingSetting wire readingNodeDraws threeRanks
        (paramsCodec.serialize ⟨1, 1, 1⟩) pks) = some net →
      ∃ rest, (taken ++ rest).Perm schedule ∧
        runs Network.advance rest net = some (finished proof) := by
  obtain ⟨pk, agg, key, built, ⟨run⟩⟩ := readingRun_ok
  have reads : Reads paramsCodec.deserialize (paramsCodec.serialize ⟨1, 1, 1⟩) ⟨1, 1, 1⟩ :=
    paramsCodec_reads (by decide) (by decide) (by decide)
  have stored := reads.run []
  rw [List.append_nil] at stored
  have held : KeysOf (readingWire run.finished) readingNodeDraws ⟨1, 1, 1⟩ (fun _ => pk) ((), agg)
      (paramsCodec.serialize ⟨1, 1, 1⟩) (heldKeys (fun _ => pk) 2) :=
    ⟨⟨[], stored⟩, rfl, fun _ inside => SingleRun.getPk_held inside, rfl, rfl, built⟩
  have size : threeRanks.size = threeRanks.numWorkers + 1 := rfl
  obtain ⟨schedule, completed⟩ := nodes_in_any_order held (by decide) (by decide) size
    (fun _ => one_le_two) (fun _ _ => Nat.le_refl 2) (reading_formats key run)
  exact ⟨readingWire run.finished, heldKeys (fun _ => pk) 2, run.proof, schedule, completed⟩

end NodeFormats
