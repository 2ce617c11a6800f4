import Hekaton.CliKeys
import Hekaton.Collectives
import Hekaton.Deployment

/-!
# The nodes

Rank 0 coordinates and each other rank works on as many subcircuits as every other. In both
stages the coordinator scatters the requests and gathers the responses; a worker keeps the
states of its subcircuits between the stages. The ranks run at the same time, in any order of
their sends and receives, and every order ends with the proof of a single run, with all ranks
finished and nothing left on the way.
-/

namespace Nodes

open LinearCombinations Outcomes CPGroth16 Transcript EvalTree SubcircuitCircuit Coordinator
open Aggregation Workers SubcircuitAggregation CommitmentConsistency ResponseOrder CliKeys
open Codecs Packing ParallelResponses Networks Collectives Deployment

section Model
variable {F D P G₁ G₂ GT Com K Pf : Type} [Field F] [AddCommGroup G₁] [Module F G₁]
variable [AddCommGroup G₂] [Module F G₂] [AddCommGroup GT] [Module F GT]
variable [AddCommGroup Com] [Module F Com] {m : MemType}

/-- The codecs of what is read from the key file and of what travels between the nodes. -/
structure Wire (S : Setting F D P G₁ G₂ GT Com K Pf m) where
  params : Codec P
  stage0Request : Codec (Stage0Request F m)
  stage0Response : Codec (Stage0Response G₁ S.session.rng.Seed)
  stage1Request : Codec (CircuitRequest F D P m)
  stage1Response : Codec (Stage1Response G₁ G₂)
  defaultSeed : S.session.rng.Seed

/-- What the nodes draw; the draws of the stages are those of the subcircuits in order. -/
structure NodeDraws (S : Setting F D P G₁ G₂ GT Com K Pf m) where
  tipaSetup : Nat → K
  rand : P → CircuitWithPortals F D m × (Nat → List UInt8)
  stages : Draws S.session.rng.State

/-- How the nodes are built and started: `size` ranks, with the threads of each. -/
structure Launch where
  overflowChecks : Bool
  parallel : Bool
  currentNumThreads : Nat → Nat
  size : Nat
  numWorkers : Nat

variable (S : Setting F D P G₁ G₂ GT Com K Pf m) (wire : Wire S) (draws : NodeDraws S)

structure CoordinatorState where
  g16Pks : ProvingKeys G₁ G₂
  aggPk : K × AggProvingKey G₁ G₂ Com
  circParams : P
  stage0State : Option (CoordinatorStage0State F P m)
  stage1State : Option (CommittedState F D P G₁ S.session.rng.Seed Com m)

def generateAggKey (g16Pks : ProvingKeys G₁ G₂) : Outcome (K × AggProvingKey G₁ G₂ Com) := do
  let tippPk := draws.tipaSetup g16Pks.numSubcircuits
  let ipp := (S.backend tippPk).ipp.toTIPPCommitment
  let pks ← (List.range ipp.supportedSize).mapM g16Pks.getPk
  let aggPk ← AggProvingKey.new ipp fun i => pks.getD i default
  .ok (tippPk, aggPk)

/-- `deserialize_uncompressed_unchecked(..).unwrap()`. -/
def deserializeParams (serializedCircParams : List UInt8) : Outcome P :=
  match wire.params.deserialize.run serializedCircParams with
  | .ok (circParams, _) => .ok circParams
  | .error _ => panicWith "called `Result::unwrap()` on an `Err` value"

namespace CoordinatorState

def new (serializedCircParams : List UInt8) (g16Pks : ProvingKeys G₁ G₂) :
    Outcome (CoordinatorState S) := do
  let circParams ← deserializeParams S wire serializedCircParams
  let aggPk ← generateAggKey S draws g16Pks
  .ok ⟨g16Pks, aggPk, circParams, none, none⟩

variable {S}

def stage0 (state : CoordinatorState S) : Outcome (List (Stage0Request F m) × CoordinatorState S) := do
  let (circ, getSerializedWitnesses) := draws.rand state.circParams
  let stage0State ← newStage0State circ getSerializedWitnesses state.circParams
  let requests ← (List.range state.g16Pks.numSubcircuits).mapM stage0State.genRequest
  .ok (requests, { state with stage0State := some stage0State })

variable [Inhabited D]

def stage1 (state : CoordinatorState S) (stage0Resps : List (Stage0Response G₁ S.session.rng.Seed)) :
    Outcome (List (CircuitRequest F D P m) × CoordinatorState S) := do
  let stage0State ← expect unwrapNone state.stage0State
  let stage1State ← stage0State.processStage0Responses S.gadget (treeDepth stage0State)
    (S.backend state.aggPk.1).ipp.toTIPPCommitment S.transcriptHash stage0Resps
  let requests ← (List.range state.g16Pks.numSubcircuits).mapM stage1State.circuitRequest
  .ok (requests, { state with stage0State := none, stage1State := some stage1State })

def aggregate [DecidableEq GT] (state : CoordinatorState S)
    (stage1Resps : List (Stage1Response G₁ G₂)) : Outcome (Pf × CoordinatorState S) := do
  let stage1State ← expect unwrapNone state.stage1State
  let finalAggState ← intoCommittedAggState S.digestFields stage1State
  let proof ← finalAggState.genAggProof (S.backend state.aggPk.1) state.aggPk.2 stage1Resps
  .ok (proof, { state with stage1State := none })

end CoordinatorState

section Ranks
variable [DecidableEq F] [Inhabited D] [DecidableEq GT] (launch : Launch)
variable (serializedCircParams : List UInt8) (pks : ProvingKeys G₁ G₂) (perWorker : Nat)

def defaultStage0Response : Stage0Response G₁ S.session.rng.Seed := ⟨0, 0, wire.defaultSeed⟩

/-- The default proof has one commitment. -/
def defaultStage1Response : Stage1Response G₁ G₂ := ⟨0, ⟨0, 0, 0, [0]⟩⟩

/-- The coordinator up to the requests of stage 0. -/
def coordinatorStage0 : Node (CoordinatorState S) := do
  let state ← .lift (CoordinatorState.new S wire draws serializedCircParams pks)
  let (requests, state) ← .lift (state.stage0 draws)
  let requestsChunked ← .lift (chunksOf perWorker requests)
  scatterRequests launch.overflowChecks launch.size wire.stage0Request.serialize requestsChunked
  pure state

/-- The coordinator from the responses of stage 0 to the requests of stage 1. -/
def coordinatorStage1 (state : CoordinatorState S) : Node (CoordinatorState S) := do
  let responsesChunked ← gatherResponses launch.overflowChecks wire.stage0Response.serialize
    wire.stage0Response.deserialize launch.size
    (List.replicate perWorker (defaultStage0Response S wire))
  let (requests, state) ← .lift (state.stage1 responsesChunked.flatten)
  let requestsChunked ← .lift (chunksOf perWorker requests)
  scatterRequests launch.overflowChecks launch.size wire.stage1Request.serialize requestsChunked
  pure state

/-- The coordinator from the responses of stage 1 on. -/
def coordinatorAggregate (state : CoordinatorState S) : Node (Option Pf) := do
  let responsesChunked ← gatherResponses launch.overflowChecks wire.stage1Response.serialize
    wire.stage1Response.deserialize launch.size
    (List.replicate perWorker defaultStage1Response)
  let (proof, _) ← .lift (state.aggregate responsesChunked.flatten)
  pure (some proof)

/-- The subcircuit that a rank works on at this place. -/
def drawIndex (perWorker rank k : Nat) : Nat := perWorker * (rank - 1) + k

/-- The responses of stage 0, and the states that they leave. -/
def answerStage0 (rank : Nat) (workerStates : List (WorkerState F G₁ G₂ m))
    (requests : List (Stage0Request F m)) :
    Outcome (List (Stage0Response G₁ S.session.rng.Seed) × List (WorkerState F G₁ G₂ m)) := do
  let threads ← workerResponses launch.parallel (launch.currentNumThreads rank) requests
    workerStates.zipIdx fun req p =>
      p.1.stage0 S.session (draws.stages.stage0 (drawIndex perWorker rank p.2)) req
  let answers ← threads.mapM unwrap
  .ok (answers.map fun answer => answer.1.1,
    (answers.map fun answer => answer.1.2) ++ workerStates.drop answers.length)

def answerStage1 (rank : Nat) (workerStates : List (WorkerState F G₁ G₂ m))
    (requests : List (CircuitRequest F D P m)) : Outcome (List (Stage1Response G₁ G₂)) := do
  let threads ← workerResponses launch.parallel (launch.currentNumThreads rank) requests
    workerStates.zipIdx fun req p =>
      p.1.stage1 S.session (draws.stages.stage1 (drawIndex perWorker rank p.2)) req
  threads.mapM unwrap

/-- A worker up to the responses of stage 0. -/
def workerStage0 (rank : Nat) : Node (List (WorkerState F G₁ G₂ m)) := do
  let workerStates := List.replicate perWorker (WorkerState.new m pks)
  let requests ← receiveRequests wire.stage0Request.deserialize
  let (responses, workerStates) ←
    .lift (answerStage0 S draws launch perWorker rank workerStates requests)
  sendResponses wire.stage0Response.serialize responses
  pure workerStates

/-- A worker from the requests of stage 1 on. -/
def workerStage1 (rank : Nat) (workerStates : List (WorkerState F G₁ G₂ m)) :
    Node (Option Pf) := do
  let requests ← receiveRequests wire.stage1Request.deserialize
  let responses ← .lift (answerStage1 S draws launch perWorker rank workerStates requests)
  sendResponses wire.stage1Response.serialize responses
  pure none

/-- What a rank runs; the coordinator's proof is its result. -/
def work (rank : Nat) : Node (Option Pf) := do
  let perWorker ← .lift (divide pks.numSubcircuits launch.numWorkers)
  .lift (assertEq (perWorker * launch.numWorkers) pks.numSubcircuits)
  if rank = 0 then do
    let state ← coordinatorStage0 S wire draws launch serializedCircParams pks perWorker
    let state ← coordinatorStage1 S wire launch perWorker state
    coordinatorAggregate S wire launch perWorker state
  else do
    let workerStates ← workerStage0 S wire draws launch pks perWorker rank
    workerStage1 S wire draws launch perWorker rank workerStates

/-- All ranks at their start. -/
def world : Network Nat Message Fault (Option Pf) :=
  star (work S wire draws launch serializedCircParams pks 0)
    (fun j => if j + 1 < launch.size then work S wire draws launch serializedCircParams pks (j + 1)
      else .halt (.ok none))
    (fun _ => []) fun _ => []

/-- The coordinator has a proof, the workers are done, and nothing is on the way. -/
def finished (proof : Pf) : Network Nat Message Fault (Option Pf) :=
  star (.halt (.ok (some proof))) (fun _ => .halt (.ok none)) (fun _ => []) fun _ => []

end Ranks

section Blocks
variable {α β : Type} {perWorker w : Nat}

/-- What a worker has for its subcircuits. -/
def block (perWorker j : Nat) (f : Nat → α) : List α :=
  (List.range perWorker).map fun k => f (perWorker * j + k)

theorem block_length (perWorker j : Nat) (f : Nat → α) : (block perWorker j f).length = perWorker := by
  simp [block]

theorem mem_block {j : Nat} (inside : j < w) {f : Nat → α} {a : α} (member : a ∈ block perWorker j f) :
    ∃ i < perWorker * w, f i = a := by
  obtain ⟨k, below, rfl⟩ := List.mem_map.mp member
  have bound := Nat.mul_le_mul_left perWorker (Nat.succ_le_of_lt inside)
  rw [List.mem_range] at below
  exact ⟨perWorker * j + k, by rw [Nat.mul_succ] at bound; omega, rfl⟩

theorem blocks_flatten (perWorker w : Nat) (f : Nat → α) :
    ((List.range w).map fun j => block perWorker j f).flatten = (List.range (perWorker * w)).map f := by
  induction w with
  | zero => rfl
  | succ w ih =>
    rw [List.range_succ, List.map_append, List.flatten_append, ih, Nat.mul_succ, List.range_add,
      List.map_append, List.map_map]
    simp [block, Function.comp_def]

theorem chunks_blocks (positive : 0 < perWorker) (f : Nat → α) :
    chunks perWorker ((List.range (perWorker * w)).map f) =
      (List.range w).map fun j => block perWorker j f := by
  rw [chunks_of_length positive (by rw [List.length_map, List.length_range])]
  refine List.map_congr_left fun j inside => ?_
  have bound := Nat.mul_le_mul_left perWorker (Nat.succ_le_of_lt (List.mem_range.mp inside))
  rw [Nat.mul_succ] at bound
  apply List.ext_getElem
  · simp only [List.length_take, List.length_drop, List.length_map, List.length_range, block]
    omega
  · intro k _ _
    simp [block]

theorem getD_blocks {j : Nat} (inside : j < w) (f : Nat → α) :
    ((List.range w).map fun j => block perWorker j f).getD j [] = block perWorker j f := by
  simp [inside]

/-- A list that is not empty, by its positions. -/
theorem eq_map_range {n : Nat} {l : List α} (size : l.length = n) (positive : 0 < n) :
    ∃ f : Nat → α, l = (List.range n).map f := by
  refine ⟨fun i => l.getD i (l.get ⟨0, by omega⟩), ?_⟩
  apply List.ext_getElem
  · simp [size]
  · intro i here _
    simp [here]

theorem flatten_chunks {l : List α} (positive : 0 < perWorker) (count : l.length = perWorker * w) :
    (chunks perWorker l).flatten = l := by
  rcases Nat.eq_zero_or_pos (perWorker * w) with none | some
  · rw [none, List.length_eq_zero_iff] at count
    rw [count, chunks_of_length (k := 0) (l := []) positive rfl]
    rfl
  · obtain ⟨f, same⟩ := eq_map_range count some
    rw [same, chunks_blocks positive, blocks_flatten]

end Blocks

variable {S wire draws}
variable [DecidableEq F] [Inhabited D] [DecidableEq GT]

omit [AddCommGroup GT] [Module F GT] [AddCommGroup Com] [Module F Com] [DecidableEq GT] in
/-- The worker that keeps its builder answers in stage 1 as the one that makes it again. -/
theorem stage0_keeps {session : Session F D P m} {pks : ProvingKeys G₁ G₂} {pk : ProvingKey G₁ G₂}
    {rng : session.rng.State} {req : Stage0Request F m} {resp : Stage0Response G₁ session.rng.Seed}
    (key : pks.getPk req.subcircuitIdx = .ok pk)
    (answered : session.processStage0Request rng pk req = .ok resp) :
    ∃ state rng', (WorkerState.new m pks).stage0 session rng req = .ok ((resp, state), rng') ∧
      ∀ rng₁ req₁, state.stage1 session rng₁ req₁ =
        session.processStage1Request rng₁ pk req resp req₁ := by
  obtain ⟨⟨⟨resp', cb⟩, rng'⟩, committed, same⟩ := bind_eq_ok.mp answered
  cases same
  refine ⟨_, rng', bind_eq_ok.mpr ⟨pk, key, bind_eq_ok.mpr ⟨_, committed, rfl⟩⟩, fun rng₁ req₁ => ?_⟩
  have reported := getCb_reported committed
  have again : session.commitWithSeed pk req resp'.comSeed = .ok (resp'.com, cb) := by
    rw [reported.seed]
    exact reported.committed
  rw [Session.processStage1Request, again]
  rfl

section Runs
variable {params : P} {keys : Nat → ProvingKey G₁ G₂} {aggCk : K × AggProvingKey G₁ G₂ Com}
variable {launch : Launch} {serializedCircParams : List UInt8} {pks : ProvingKeys G₁ G₂}

variable (wire draws params keys aggCk serializedCircParams pks) in
/-- The key file holds the parameters and keys of the run, and what is drawn for their
aggregation is the run's. -/
structure KeysOf : Prop where
  stored : ∃ rest, wire.params.deserialize.run serializedCircParams = .ok (params, rest)
  count : pks.numSubcircuits = S.numSubcircuits params
  key : ∀ i < S.numSubcircuits params, pks.getPk i = .ok (keys i)
  tipaSetup : draws.tipaSetup (S.numSubcircuits params) = aggCk.1
  size : (S.backend aggCk.1).ipp.supportedSize = S.numSubcircuits params
  built : AggProvingKey.new (S.backend aggCk.1).ipp.toTIPPCommitment keys = .ok aggCk.2

variable {run : SingleRun S params keys aggCk draws.rand draws.stages}

omit [DecidableEq F] [Inhabited D] [DecidableEq GT] in
/-- The coordinator starts with the run's keys. -/
theorem KeysOf.new_eq (held : KeysOf wire draws params keys aggCk serializedCircParams pks) :
    CoordinatorState.new S wire draws serializedCircParams pks =
      .ok ⟨pks, aggCk, params, none, none⟩ := by
  obtain ⟨rest, read⟩ := held.stored
  have fetched : (List.range (S.numSubcircuits params)).mapM pks.getPk =
      .ok ((List.range (S.numSubcircuits params)).map keys) :=
    mapM_eq_ok fun i member => held.key i (List.mem_range.mp member)
  have built : AggProvingKey.new (S.backend aggCk.1).ipp.toTIPPCommitment
      (fun i => ((List.range (S.numSubcircuits params)).map keys).getD i default) =
        .ok aggCk.2 := by
    rw [← held.built]
    apply new_congr
    intro i inside
    rw [held.size] at inside
    simp [inside]
  have agg : generateAggKey S draws pks = .ok aggCk := by
    simp only [generateAggKey, held.count, held.tipaSetup, held.size, fetched, ok_bind, built]
  have read' : deserializeParams S wire serializedCircParams = .ok params := by
    rw [deserializeParams, read]
  rw [CoordinatorState.new, read', ok_bind, agg, ok_bind]

theorem stage0_eq (count : pks.numSubcircuits = S.numSubcircuits params) :
    (⟨pks, aggCk, params, none, none⟩ : CoordinatorState S).stage0 draws =
      .ok (run.finished.committed.map Committed.request,
        ⟨pks, aggCk, params, some run.state, none⟩) := by
  rw [CoordinatorState.stage0]
  simp only [count, run.began, ok_bind, run.requests_eq]

variable (run) in
theorem stage1_eq (count : pks.numSubcircuits = S.numSubcircuits params) :
    (⟨pks, aggCk, params, some run.state, none⟩ : CoordinatorState S).stage1
      (run.finished.committed.map Committed.response) =
      .ok (run.finished.requests, ⟨pks, aggCk, params, none, some run.finished.state⟩) := by
  obtain ⟨processed, requested⟩ := run.between
  rw [CoordinatorState.stage1]
  simp only [expect_some, ok_bind, count, processed, requested]

variable (pks run) in
theorem aggregate_eq :
    (⟨pks, aggCk, params, none, some run.finished.state⟩ : CoordinatorState S).aggregate
      run.finished.responses = .ok (run.proof, ⟨pks, aggCk, params, none, none⟩) := by
  rw [CoordinatorState.aggregate]
  simp only [expect_some, ok_bind, run.aggregated, run.proved]

/-- The steps of the run, one subcircuit after another. -/
theorem stepsByIndex (run : SingleRun S params keys aggCk draws.rand draws.stages)
    (positive : 0 < S.numSubcircuits params) :
    ∃ (done : Nat → Committed F G₁ G₂ S.session.rng.Seed m) (req : Nat → CircuitRequest F D P m)
      (resp : Nat → Stage1Response G₁ G₂),
      run.finished.committed = (List.range (S.numSubcircuits params)).map done ∧
      run.finished.requests = (List.range (S.numSubcircuits params)).map req ∧
      run.finished.responses = (List.range (S.numSubcircuits params)).map resp ∧
      ∀ i < S.numSubcircuits params, run.StepsAt i (done i) (req i) (resp i) := by
  obtain ⟨size, size', size'', each⟩ := run.steps
  obtain ⟨done, sameDone⟩ := eq_map_range size positive
  obtain ⟨req, sameReq⟩ := eq_map_range size' positive
  obtain ⟨resp, sameResp⟩ := eq_map_range size'' positive
  refine ⟨done, req, resp, sameDone, sameReq, sameResp, fun i inside => ?_⟩
  obtain ⟨d, r, p, steps⟩ := each i inside
  have first := steps.committed
  have second := steps.requested
  have third := steps.answered
  rw [sameDone] at first
  rw [sameReq] at second
  rw [sameResp] at third
  simp only [List.getElem?_map, List.getElem?_range inside, Option.map_some,
    Option.some.injEq] at first second third
  rwa [first, second, third]

/-- What the run sends is read back, responses take the bytes of the default, and counts of
32 bits hold each transfer. -/
structure Carried (wire : Wire S) (run : SingleRun S params keys aggCk draws.rand draws.stages)
    (perWorker : Nat) : Prop where
  request₀ : ∀ done ∈ run.finished.committed, Reads wire.stage0Request.deserialize
    (wire.stage0Request.serialize done.request) done.request
  response₀ : ∀ done ∈ run.finished.committed, Reads wire.stage0Response.deserialize
    (wire.stage0Response.serialize done.response) done.response
  request₁ : ∀ req ∈ run.finished.requests, Reads wire.stage1Request.deserialize
    (wire.stage1Request.serialize req) req
  response₁ : ∀ resp ∈ run.finished.responses, Reads wire.stage1Response.deserialize
    (wire.stage1Response.serialize resp) resp
  size₀ : ∀ done ∈ run.finished.committed, (wire.stage0Response.serialize done.response).length =
    (wire.stage0Response.serialize (defaultStage0Response S wire)).length
  size₁ : ∀ resp ∈ run.finished.responses, (wire.stage1Response.serialize resp).length =
    (wire.stage1Response.serialize defaultStage1Response).length
  some₀ : 0 < (wire.stage0Response.serialize (defaultStage0Response S wire)).length
  some₁ : 0 < (wire.stage1Response.serialize defaultStage1Response).length
  packets₀ : Transport.packets wire.stage0Request.serialize
    (chunks perWorker (run.finished.committed.map Committed.request)) < 2 ^ 31
  packets₁ : Transport.packets wire.stage1Request.serialize
    (chunks perWorker run.finished.requests) < 2 ^ 31
  bytes₀ : Transport.responseBytes wire.stage0Response.serialize
    (chunks perWorker (run.finished.committed.map Committed.response)) < 2 ^ 31
  bytes₁ : Transport.responseBytes wire.stage1Response.serialize
    (chunks perWorker run.finished.responses) < 2 ^ 31

variable (wire launch serializedCircParams pks run) in
/-- The nodes are started for the run, each worker with as many subcircuits as the others, and
with a thread to spare where threads are used. -/
structure Launched (perWorker : Nat) : Prop where
  keys : KeysOf wire draws params keys aggCk serializedCircParams pks
  positive : 0 < S.numSubcircuits params
  total : S.numSubcircuits params = perWorker * launch.numWorkers
  size : launch.size = launch.numWorkers + 1
  threads : ∀ rank, 1 ≤ launch.currentNumThreads rank
  spare : launch.parallel = true → ∀ rank, 2 ≤ launch.currentNumThreads rank
  carried : Carried wire run perWorker

section Ranks
variable {perWorker : Nat} {α β W : Type}

/-- The threads of a worker answer its block. -/
theorem answers_block {parallel : Bool} {threads j : Nat} {requests : Nat → α}
    {states : Nat → W} {answer : Nat → β} {stageFn : α → W × Nat → Outcome β}
    (enough : parallel = true → 2 ≤ threads) (some : 1 ≤ threads) (positive : 0 < perWorker)
    (each : ∀ k < perWorker, stageFn (requests (perWorker * j + k)) (states (perWorker * j + k), k) =
      .ok (answer (perWorker * j + k))) :
    (do
      let answers ← workerResponses parallel threads (block perWorker j requests)
        (block perWorker j states).zipIdx stageFn
      answers.mapM unwrap : Outcome (List β)) = .ok (block perWorker j answer) := by
  have nonempty : block perWorker j requests ≠ [] := by
    intro none
    have size := block_length perWorker j requests
    rw [none] at size
    simp at size
    omega
  have size : (block perWorker j requests).length = (block perWorker j states).zipIdx.length := by
    rw [List.length_zipIdx, block_length, block_length]
  rw [(workerResponses_iff some nonempty size stageFn).mpr enough, ok_bind]
  apply mapM_of_forall₂
  rw [List.forall₂_iff_get]
  refine ⟨by simp [block_length], fun k inside _ => ?_⟩
  have below : k < perWorker := by
    simpa [block_length] using inside
  refine AggregationSoundness.unwrap_eq_ok.mpr ?_
  simpa [block] using each k below

section Messages
variable (wire : Wire S) (run : SingleRun S params keys aggCk draws.rand draws.stages)
variable (perWorker : Nat)

/-- What worker `j` is sent and sends in the run. -/
def requested₀ (j : Nat) : List Message := requestsTo wire.stage0Request.serialize perWorker
  (run.finished.committed.map Committed.request) j

def responded₀ (j : Nat) : Message := responseOf wire.stage0Response.serialize perWorker
  (run.finished.committed.map Committed.response) j

def requested₁ (j : Nat) : List Message :=
  requestsTo wire.stage1Request.serialize perWorker run.finished.requests j

def responded₁ (j : Nat) : Message :=
  responseOf wire.stage1Response.serialize perWorker run.finished.responses j

end Messages

namespace Launched
variable (launched : Launched wire launch serializedCircParams pks run perWorker)

include launched

theorem perWorker_pos : 0 < perWorker := by
  have total := launched.total
  have positive := launched.positive
  rcases Nat.eq_zero_or_pos perWorker with none | some
  · rw [none, Nat.zero_mul] at total
    omega
  · exact some

theorem share : S.numSubcircuits params / launch.numWorkers = perWorker := by
  have total := launched.total
  have positive := launched.positive
  rcases Nat.eq_zero_or_pos launch.numWorkers with none | some
  · rw [none, Nat.mul_zero] at total
    omega
  · rw [total, Nat.mul_div_cancel _ some]

/-- One chunk for each worker. -/
theorem chunks_count {l : List α} (count : l.length = S.numSubcircuits params) :
    (chunks perWorker l).length = launch.numWorkers := by
  rw [chunks_of_length launched.perWorker_pos (count.trans launched.total), List.length_map,
    List.length_range]

/-- The coordinator scatters the run's requests of stage 0. -/
theorem coordinatorStage0_solo : ∃ sent,
    Solo (coordinatorStage0 S wire draws launch serializedCircParams pks perWorker) []
      (toSpokes sent) (.halt (.ok ⟨pks, aggCk, params, some run.state, none⟩)) ∧
    ∀ j, exchangedWith j sent = if j < launch.numWorkers then
      requested₀ wire run perWorker j else [] := by
  obtain ⟨count, _⟩ := run.steps
  obtain ⟨sent, solo, exchanged⟩ := scatterRequests_solo launch.overflowChecks
    (launched.chunks_count (by rw [List.length_map, count])) launched.carried.packets₀
  refine ⟨sent, ?_, exchanged⟩
  rw [← launched.size] at solo
  exact .lift_bind launched.keys.new_eq (.lift_bind (stage0_eq launched.keys.count)
    (.lift_bind (chunksOf_of_pos launched.perWorker_pos _) (solo.bind_stop rfl)))

/-- The coordinator gathers what the run's workers respond. -/
theorem gathers {l : List α} {write : α → List UInt8} {read : Reader α} {default : α}
    (count : l.length = S.numSubcircuits params) (some : 0 < (write default).length)
    (sizes : ∀ a ∈ l, (write a).length = (write default).length)
    (each : ∀ a ∈ l, Reads read (write a) a)
    (small : Transport.responseBytes write (chunks perWorker l) < 2 ^ 31) :
    Solo (gatherResponses launch.overflowChecks write read launch.size
        (List.replicate perWorker default))
      (toSpokes ((List.range launch.numWorkers).map fun j =>
        (j, responseOf write perWorker l j))) []
      (.halt (.ok (chunks perWorker l))) := by
  have blocks := chunks_of_length launched.perWorker_pos (count.trans launched.total)
  have within : ∀ chunk ∈ chunks perWorker l, chunk.length = perWorker ∧ ∀ a ∈ chunk, a ∈ l := by
    intro chunk member
    rw [blocks] at member
    obtain ⟨j, inside, rfl⟩ := List.mem_map.mp member
    have bound := Nat.mul_le_mul_left perWorker (Nat.succ_le_of_lt (List.mem_range.mp inside))
    rw [Nat.mul_succ] at bound
    refine ⟨?_, fun a here => List.mem_of_mem_drop (List.mem_of_mem_take here)⟩
    rw [List.length_take, List.length_drop, count, launched.total]
    omega
  have gathered := Transport.gatherResponses_joins launch.overflowChecks some rfl
    (fun chunk member => (within chunk member).1)
    (fun chunk member a here => sizes a ((within chunk member).2 a here))
    (fun chunk member a here => each a ((within chunk member).2 a here)) small
  rw [launched.chunks_count count] at gathered
  rw [launched.size]
  exact gatherResponses_solo (launched.chunks_count count) gathered

theorem chunks_flatten {l : List α} (count : l.length = S.numSubcircuits params) :
    (chunks perWorker l).flatten = l :=
  flatten_chunks launched.perWorker_pos (count.trans launched.total)

/-- The coordinator gathers the responses of stage 0 and scatters the requests of stage 1. -/
theorem coordinatorStage1_solo : ∃ sent,
    Solo (coordinatorStage1 S wire launch perWorker ⟨pks, aggCk, params, some run.state, none⟩)
      (toSpokes ((List.range launch.numWorkers).map fun j => (j, responded₀ wire run perWorker j)))
      (toSpokes sent) (.halt (.ok ⟨pks, aggCk, params, none, some run.finished.state⟩)) ∧
    ∀ j, exchangedWith j sent = if j < launch.numWorkers then
      requested₁ wire run perWorker j else [] := by
  obtain ⟨count, count', _⟩ := run.steps
  have count'' : (run.finished.committed.map Committed.response).length =
      S.numSubcircuits params := by
    rw [List.length_map, count]
  have carried := launched.carried
  obtain ⟨sent, solo, exchanged⟩ := scatterRequests_solo launch.overflowChecks
    (launched.chunks_count count') carried.packets₁
  rw [← launched.size] at solo
  refine ⟨sent, ?_, exchanged⟩
  have gathered := launched.gathers count'' carried.some₀
    (fun resp member => by
      obtain ⟨done, here, rfl⟩ := List.mem_map.mp member
      exact carried.size₀ done here)
    (fun resp member => by
      obtain ⟨done, here, rfl⟩ := List.mem_map.mp member
      exact carried.response₀ done here) carried.bytes₀
  have processed := stage1_eq run launched.keys.count
  rw [← launched.chunks_flatten count''] at processed
  exact gathered.bind_sends (.lift_bind processed
    (.lift_bind (chunksOf_of_pos launched.perWorker_pos _) (solo.bind_stop rfl)))

/-- The coordinator gathers the responses of stage 1 and has the run's proof. -/
theorem coordinatorAggregate_solo :
    Solo (coordinatorAggregate S wire launch perWorker
        ⟨pks, aggCk, params, none, some run.finished.state⟩)
      (toSpokes ((List.range launch.numWorkers).map fun j => (j, responded₁ wire run perWorker j)))
      [] (.halt (.ok (some run.proof))) := by
  obtain ⟨_, _, count, _⟩ := run.steps
  have carried := launched.carried
  have gathered := launched.gathers count carried.some₁ carried.size₁ carried.response₁
    carried.bytes₁
  have aggregated := aggregate_eq pks run
  rw [← launched.chunks_flatten count] at aggregated
  exact gathered.bind_sends (.lift_bind aggregated (.stop _))

/-- What one worker has for its subcircuits. -/
theorem chunk_block {j : Nat} (inside : j < launch.numWorkers) (f : Nat → α) :
    (chunks perWorker ((List.range (S.numSubcircuits params)).map f)).getD j [] =
      block perWorker j f := by
  rw [launched.total, chunks_blocks launched.perWorker_pos, getD_blocks inside]

theorem perWorker_small : perWorker < 2 ^ 64 := by
  obtain ⟨_, _, count, _⟩ := run.steps
  have carried := launched.carried
  have positive := launched.positive
  obtain ⟨resp, same⟩ := eq_map_range count launched.positive
  have bytes := carried.bytes₁
  rw [same, launched.total, chunks_blocks launched.perWorker_pos, Transport.responseBytes,
    List.map_map] at bytes
  have workers : 0 < launch.numWorkers := by
    apply Nat.pos_of_ne_zero
    intro none
    rw [launched.total, none] at positive
    exact Nat.lt_irrefl 0 positive
  have one := List.single_le_sum (fun n _ => Nat.zero_le n) _
    (List.mem_map_of_mem (f := (fun chunk => (writeVec wire.stage1Response.serialize chunk).length) ∘
      fun j => block perWorker j resp) (List.mem_range.mpr workers))
  have elements := length_le_writeVec (l := block perWorker 0 resp)
    fun r member => by
      obtain ⟨i, below, rfl⟩ := mem_block workers member
      rw [carried.size₁ _ (by
        rw [same, launched.total]
        exact List.mem_map_of_mem (List.mem_range.mpr below))]
      exact carried.some₁
  rw [block_length] at elements
  have small := elements.trans (one.trans bytes.le)
  omega

theorem block_ne_nil (j : Nat) (f : Nat → α) : block perWorker j f ≠ [] := by
  rw [← List.length_pos_iff, block_length]
  exact launched.perWorker_pos

theorem receives_block {j : Nat} (inside : j < launch.numWorkers) {write : α → List UInt8}
    {read : Reader α} (f : Nat → α)
    (each : ∀ i < S.numSubcircuits params, Reads read (write (f i)) (f i)) :
    Solo (receiveRequests read) ((requestMessages write (block perWorker j f)).map ((0 : Nat), ·)) []
      (.halt (.ok (block perWorker j f))) := by
  have short : (block perWorker j f).length < 2 ^ 64 := by
    rw [block_length]
    exact launched.perWorker_small
  have reads : ∀ a ∈ block perWorker j f, Reads read (write a) (id a) := by
    intro a here
    obtain ⟨i, below, rfl⟩ := mem_block inside here
    exact each i (launched.total ▸ below)
  have received := receiveRequests_solo short reads
  rwa [List.map_id] at received

/-- A worker answers the requests of stage 0 that it is sent as in the run, and keeps what it
answers stage 1 as in the run with. -/
theorem workerStages_solo {j : Nat} (inside : j < launch.numWorkers) : ∃ states,
    Solo (workerStage0 S wire draws launch pks perWorker (j + 1))
      ((requested₀ wire run perWorker j).map ((0 : Nat), ·))
      ([responded₀ wire run perWorker j].map ((0 : Nat), ·))
      (.halt (.ok states)) ∧
    Solo (workerStage1 S wire draws launch perWorker (j + 1) states)
      ((requested₁ wire run perWorker j).map ((0 : Nat), ·))
      ([responded₁ wire run perWorker j].map ((0 : Nat), ·)) (.halt (.ok none)) := by
  obtain ⟨done, req, resp, sameDone, sameReq, sameResp, steps⟩ :=
    stepsByIndex run launched.positive
  have carried := launched.carried
  have below : ∀ k < perWorker, perWorker * j + k < S.numSubcircuits params := by
    intro k under
    have bound := Nat.mul_le_mul_left perWorker (Nat.succ_le_of_lt inside)
    rw [Nat.mul_succ] at bound
    rw [launched.total]
    omega
  have kept : ∀ i, ∃ state rng', i < S.numSubcircuits params →
      (WorkerState.new m pks).stage0 S.session (draws.stages.stage0 i) (done i).request =
        .ok (((done i).response, state), rng') ∧
      state.stage1 S.session (draws.stages.stage1 i) (req i) = .ok (resp i) := by
    intro i
    by_cases here : i < S.numSubcircuits params
    · have key : pks.getPk (done i).request.subcircuitIdx = .ok (keys i) := by
        rw [(steps i here).index]
        exact launched.keys.key i here
      obtain ⟨state, rng', answered, proves⟩ := stage0_keeps key (steps i here).stage0
      refine ⟨state, rng', fun _ => ⟨answered, ?_⟩⟩
      rw [proves]
      exact (steps i here).stage1
    · exact ⟨.new m pks, draws.stages.stage0 i, fun there => absurd there here⟩
  choose state rng' answers using kept
  rw [requested₀, requested₁, responded₀, responded₁, requestsTo, requestsTo, responseOf,
    responseOf, sameDone, sameReq, sameResp, List.map_map, List.map_map]
  simp only [launched.chunk_block inside]
  have states₀ : List.replicate perWorker (WorkerState.new m pks) =
      block perWorker j fun _ => (WorkerState.new m pks : WorkerState F G₁ G₂ m) := by
    simp [block]
  refine ⟨block perWorker j state, ?_, ?_⟩
  · have received := launched.receives_block inside (Committed.request ∘ done) fun i here =>
      carried.request₀ _ (by
        rw [sameDone]
        exact List.mem_map_of_mem (List.mem_range.mpr here))
    have answered : (do
        let answers ← workerResponses launch.parallel (launch.currentNumThreads (j + 1))
          (block perWorker j (Committed.request ∘ done))
          (block perWorker j fun _ => (WorkerState.new m pks : WorkerState F G₁ G₂ m)).zipIdx
          fun req p => p.1.stage0 S.session
            (draws.stages.stage0 (drawIndex perWorker (j + 1) p.2)) req
        answers.mapM unwrap) = .ok (block perWorker j fun i =>
          (((done i).response, state i), rng' i)) :=
      answers_block (fun parallel => launched.spare parallel (j + 1)) (launched.threads (j + 1))
        launched.perWorker_pos fun k under => (answers _ (below k under)).1
    obtain ⟨threads, ran, joined⟩ := bind_eq_ok.mp answered
    have answer : answerStage0 S draws launch perWorker (j + 1)
        (List.replicate perWorker (WorkerState.new m pks))
        (block perWorker j (Committed.request ∘ done)) =
          .ok (block perWorker j (Committed.response ∘ done), block perWorker j state) := by
      rw [answerStage0, states₀, ran, ok_bind, joined, ok_bind]
      simp [block, Function.comp_def]
    exact received.bind_sends (.lift_bind answer
      ((sendResponses_solo (launched.block_ne_nil j _)).bind_stop rfl))
  · have received := launched.receives_block inside req fun i here =>
      carried.request₁ _ (by
        rw [sameReq]
        exact List.mem_map_of_mem (List.mem_range.mpr here))
    have answer : answerStage1 S draws launch perWorker (j + 1) (block perWorker j state)
        (block perWorker j req) = .ok (block perWorker j resp) :=
      answers_block (fun parallel => launched.spare parallel (j + 1)) (launched.threads (j + 1))
        launched.perWorker_pos fun k under => (answers _ (below k under)).2
    exact received.bind_sends (.lift_bind answer
      ((sendResponses_solo (launched.block_ne_nil j _)).bind_stop rfl))

theorem work_eq (rank : Nat) : work S wire draws launch serializedCircParams pks rank =
    if rank = 0 then
      coordinatorStage0 S wire draws launch serializedCircParams pks perWorker >>= fun state =>
        coordinatorStage1 S wire launch perWorker state >>= fun state =>
          coordinatorAggregate S wire launch perWorker state
    else
      workerStage0 S wire draws launch pks perWorker rank >>= fun workerStates =>
        workerStage1 S wire draws launch perWorker rank workerStates := by
  have positive := launched.positive
  have some : launch.numWorkers ≠ 0 := by
    intro none
    rw [launched.total, none] at positive
    exact Nat.lt_irrefl 0 positive
  have divided : divide pks.numSubcircuits launch.numWorkers = .ok perWorker := by
    rw [divide, if_neg some, launched.keys.count, launched.share]
  have checked : assertEq (perWorker * launch.numWorkers) pks.numSubcircuits = .ok () := by
    rw [assertEq, if_pos (by rw [launched.keys.count, launched.total])]
  rw [work, divided]
  change (Program.lift (assertEq (perWorker * launch.numWorkers) pks.numSubcircuits) >>= _) = _
  rw [checked]
  rfl

/-- One order of the steps that ends with the run's proof. -/
theorem world_reaches : Reaches (world S wire draws launch serializedCircParams pks)
    (finished run.proof) := by
  obtain ⟨sent₀, hub₀, asked₀⟩ := launched.coordinatorStage0_solo
  obtain ⟨sent₁, hub₁, asked₁⟩ := launched.coordinatorStage1_solo
  have hub₂ := launched.coordinatorAggregate_solo
  have stages : ∀ j, ∃ states, j < launch.numWorkers → _ := fun j => by
    by_cases inside : j < launch.numWorkers
    · obtain ⟨states, both⟩ := launched.workerStages_solo inside
      exact ⟨states, fun _ => both⟩
    · exact ⟨[], fun here => absurd here inside⟩
  choose states spokes using stages
  let rank := fun j => if j + 1 < launch.size then
    work S wire draws launch serializedCircParams pks (j + 1) else .halt (.ok none)
  have within : ∀ j < launch.numWorkers, rank j =
      workerStage0 S wire draws launch pks perWorker (j + 1) >>= fun workerStates =>
        workerStage1 S wire draws launch perWorker (j + 1) workerStates := by
    intro j inside
    change (if j + 1 < launch.size then _ else _) = _
    rw [if_pos (by rw [launched.size]; omega), launched.work_eq, if_neg (Nat.succ_ne_zero j)]
  have outside : ∀ j, ¬ j < launch.numWorkers → rank j = .halt (.ok none) := by
    intro j outside
    change (if j + 1 < launch.size then _ else _) = _
    rw [if_neg (by rw [launched.size]; omega)]
  have begins : Solo (work S wire draws launch serializedCircParams pks 0) (toSpokes [])
      (toSpokes sent₀) (coordinatorStage1 S wire launch perWorker
        ⟨pks, aggCk, params, some run.state, none⟩ >>= fun state =>
          coordinatorAggregate S wire launch perWorker state) := by
    rw [launched.work_eq, if_pos rfl]
    exact hub₀.bind_stop rfl
  have commits : ∀ j < launch.numWorkers, Solo (rank j)
      ((requested₀ wire run perWorker j).map ((0 : Nat), ·))
      ([responded₀ wire run perWorker j].map ((0 : Nat), ·))
      (workerStage1 S wire draws launch perWorker (j + 1) (states j)) := by
    intro j inside
    rw [within j inside]
    exact (spokes j inside).1.bind_stop rfl
  have round₀ := star_round begins asked₀ commits
  have challenges : Solo (coordinatorStage1 S wire launch perWorker
        ⟨pks, aggCk, params, some run.state, none⟩ >>= fun state =>
          coordinatorAggregate S wire launch perWorker state) _ (toSpokes sent₁)
      (coordinatorAggregate S wire launch perWorker
        ⟨pks, aggCk, params, none, some run.finished.state⟩) := hub₁.bind_stop rfl
  have proves : ∀ j < launch.numWorkers, Solo (if j < launch.numWorkers then
      workerStage1 S wire draws launch perWorker (j + 1) (states j) else rank j)
      ((requested₁ wire run perWorker j).map ((0 : Nat), ·))
      ([responded₁ wire run perWorker j].map ((0 : Nat), ·)) (.halt (.ok none)) := by
    intro j inside
    rw [if_pos inside]
    exact (spokes j inside).2
  have round₁ := star_round challenges asked₁ proves
  have aggregates := @star_hub Message Fault (Option Pf) _ _ (fun j => if j < launch.numWorkers then
    .halt (.ok none) else if j < launch.numWorkers then
      workerStage1 S wire draws launch perWorker (j + 1) (states j) else rank j)
    (fun _ => []) (fun _ => []) _ [] hub₂
  simp only [exchangedWith_range, exchangedWith_nil, List.append_nil] at round₀ round₁ aggregates
  have done : (fun j => if j < launch.numWorkers then .halt (.ok none) else
      if j < launch.numWorkers then workerStage1 S wire draws launch perWorker (j + 1) (states j)
      else rank j) = fun _ => (.halt (.ok none) : Node (Option Pf)) := by
    funext j
    by_cases inside : j < launch.numWorkers
    · rw [if_pos inside]
    · rw [if_neg inside, if_neg inside, outside j inside]
  rw [done] at round₁ aggregates
  exact round₀.trans (round₁.trans aggregates)

end Launched

omit [DecidableEq F] [Inhabited D] [DecidableEq GT] in
theorem finished_stuck (proof : Pf) : Stuck Network.advance (finished proof) := by
  rintro (_ | j) <;> rfl

end Ranks

end Runs
end Model
end Nodes
