import Hekaton.Aggregation
import Hekaton.Coordinator

/-!
# Workers

A worker commits to the subtraces of its subcircuit in stage 0 and proves it in stage 1.
The commitment's randomness is drawn from a seed, so that a worker can keep its builder or
make it again. Three drivers run the two stages: one replays the seed of the response, one
keeps the builder, and one commits a second time under a seed drawn for stage 1.
-/

namespace Workers

open LinearCombinations Outcomes ConstraintSystems CPGroth16 Transcript EvalTree SubcircuitCircuit
open Coordinator Aggregation

/-- A generator with its seeds; `rand` draws a scalar. -/
structure SeedableRng (F : Type) where
  Seed : Type
  State : Type
  fromSeed : Seed → State
  gen : State → Seed × State
  rand : State → F × State

/-- What the stages are run with: the lowering of a prover to its two stages of rows, and
the circuit that `new` and `set_serialized_witnesses` make for one subcircuit. -/
structure Session (F D P : Type) (m : MemType) where
  rng : SeedableRng F
  qap : R1CSToQAP F
  debug : Bool
  synthesizer : SubcircuitWithPortalsProver F D m → MultiStageConstraintSynthesizer F
  rebuild : P → Nat → List UInt8 → CircuitWithPortals F D m

/-- The request of stage 1 with the witnesses and parameters of the circuit. -/
structure CircuitRequest (F D P : Type) (m : MemType) extends Stage1Request F D m where
  serializedWitnesses : List UInt8
  circParams : P

structure Stage0Response (G₁ Seed : Type) where
  subcircuitIdx : Nat
  com : G₁
  comSeed : Seed

structure Stage1Response (G₁ G₂ : Type) where
  subcircuitIdx : Nat
  proof : Proof G₁ G₂

/-- The builder after stage 0, with the request that its circuit was made from. -/
structure CommitterState (F G₁ G₂ : Type) (m : MemType) where
  request : Stage0Request F m
  builder : CommitmentBuilder F G₁ G₂

/-- The proving keys of the unique subcircuits, and the representative of each index. -/
structure ProvingKeys (G₁ G₂ : Type) where
  minimalProvingKeys : Nat → Option (ProvingKey G₁ G₂)
  subcircuitRepresentativeMap : List Nat

namespace ProvingKeys
variable {G₁ G₂ : Type}

def numSubcircuits (pks : ProvingKeys G₁ G₂) : Nat := pks.subcircuitRepresentativeMap.length

def getPk (pks : ProvingKeys G₁ G₂) (subcircuitIdx : Nat) : Outcome (ProvingKey G₁ G₂) := do
  let representative ← expect "subcircuit index out of range"
    pks.subcircuitRepresentativeMap[subcircuitIdx]?
  expect "missing proving key" (pks.minimalProvingKeys representative)

end ProvingKeys

/-- `Result::expect`. -/
def expectOk {α : Type} (message : String) : Outcome α → Outcome α
  | .ok a => .ok a
  | .error _ => panicWith message

section Stages
variable {F D P : Type} [Field F] [DecidableEq F] [Inhabited D] {m : MemType}
variable {G₁ G₂ : Type} [AddCommGroup G₁] [Module F G₁] [AddCommGroup G₂] [Module F G₂]

/-- The prover that stage 0 commits with. -/
def committingProver (D : Type) [Inhabited D] (req : Stage0Request F m) :
    SubcircuitWithPortalsProver F D m :=
  { SubcircuitWithPortalsProver.new 2 with
    subcircuitIdx := req.subcircuitIdx
    timeOrderedSubtrace := req.timeOrderedSubtrace
    addrOrderedSubtrace := req.addrOrderedSubtrace }

variable (session : Session F D P m)

namespace Session

/-- Commit to the subtraces with the first scalar drawn from the seed. -/
def commitWithSeed (pk : ProvingKey G₁ G₂) (req : Stage0Request F m)
    (comSeed : session.rng.Seed) : Outcome (G₁ × CommitterState F G₁ G₂ m) :=
  let builder : CommitmentBuilder F G₁ G₂ :=
    .new (session.synthesizer (committingProver D req)) pk
  let randomness := (session.rng.rand (session.rng.fromSeed comSeed)).1
  match builder.commit session.debug randomness with
  | .error fault => .error fault
  | .ok (com, builder) => .ok (com, ⟨req, builder⟩)

def processStage0RequestGetCb (rng : session.rng.State) (pk : ProvingKey G₁ G₂)
    (req : Stage0Request F m) :
    Outcome ((Stage0Response G₁ session.rng.Seed × CommitterState F G₁ G₂ m) ×
      session.rng.State) := do
  let (comSeed, rng) := session.rng.gen rng
  let (com, cb) ← expectOk "failed to commit to subtrace" (session.commitWithSeed pk req comSeed)
  .ok ((⟨req.subcircuitIdx, com, comSeed⟩, cb), rng)

def processStage0Request (rng : session.rng.State) (pk : ProvingKey G₁ G₂)
    (req : Stage0Request F m) : Outcome (Stage0Response G₁ session.rng.Seed) := do
  let r ← session.processStage0RequestGetCb rng pk req
  .ok r.1.1

/-- The rows of the prover filled in with both requests. -/
def filledIn (req₀ : Stage0Request F m) (req₁ : CircuitRequest F D P m) :
    Outcome (MultiStageConstraintSynthesizer F) :=
  let circ := session.rebuild req₁.circParams req₁.subcircuitIdx req₁.serializedWitnesses
  match requestedProver circ req₀ req₁.toStage1Request with
  | .error fault => .error fault
  | .ok prover => .ok (session.synthesizer prover)

def processStage1RequestWithCb (rng : session.rng.State) (cb : CommitterState F G₁ G₂ m)
    (com : G₁) (rand : F) (req : CircuitRequest F D P m) : Outcome (Stage1Response G₁ G₂) := do
  let circuit ← session.filledIn cb.request req
  assertEq cb.request.subcircuitIdx req.subcircuitIdx
  let (r, rng) := session.rng.rand rng
  let (s, _) := session.rng.rand rng
  let proof ← unwrap (({ cb.builder with circuit := circuit } : CommitmentBuilder F G₁ G₂).prove
    session.qap session.debug [com] [rand] r s)
  .ok ⟨req.subcircuitIdx, proof⟩

/-- Make the commitment again from the seed of the response, and prove with it. -/
def processStage1Request (rng : session.rng.State) (pk : ProvingKey G₁ G₂)
    (req₀ : Stage0Request F m) (resp₀ : Stage0Response G₁ session.rng.Seed)
    (req₁ : CircuitRequest F D P m) : Outcome (Stage1Response G₁ G₂) := do
  let (com, cb) ← unwrap (session.commitWithSeed pk req₀ resp₀.comSeed)
  let rand := (session.rng.rand (session.rng.fromSeed resp₀.comSeed)).1
  session.processStage1RequestWithCb rng cb com rand req₁

end Session

structure WorkerState (F G₁ G₂ : Type) (m : MemType) where
  g16Pks : ProvingKeys G₁ G₂
  cb : Option (CommitterState F G₁ G₂ m)
  com : G₁
  comRand : F

namespace WorkerState

def new (m : MemType) (g16Pks : ProvingKeys G₁ G₂) : WorkerState F G₁ G₂ m :=
  ⟨g16Pks, none, 0, 0⟩

/-- Keep the builder, and recover the randomness from the seed of the response. -/
def stage0 (state : WorkerState F G₁ G₂ m) (rng : session.rng.State) (req : Stage0Request F m) :
    Outcome ((Stage0Response G₁ session.rng.Seed × WorkerState F G₁ G₂ m) ×
      session.rng.State) := do
  let g16Pk ← state.g16Pks.getPk req.subcircuitIdx
  let ((resp, cb), rng) ← session.processStage0RequestGetCb rng g16Pk req
  let comRand := (session.rng.rand (session.rng.fromSeed resp.comSeed)).1
  .ok ((resp, { state with cb := some cb, com := resp.com, comRand := comRand }), rng)

def stage1 (state : WorkerState F G₁ G₂ m) (rng : session.rng.State)
    (req : CircuitRequest F D P m) : Outcome (Stage1Response G₁ G₂) := do
  let cb ← expect unwrapNone state.cb
  session.processStage1RequestWithCb rng cb state.com state.comRand req

end WorkerState
end Stages

section Coordination
variable {F D P : Type} [Field F] [Inhabited D] {m : MemType} {G₁ G₂ Com Seed : Type}
variable [AddCommGroup G₁] [Module F G₁] [AddCommGroup G₂] [Module F G₂]
variable [AddCommGroup Com] [Module F Com]

structure CoordinatorStage0State (F P : Type) (m : MemType) where
  timeOrderedSubtraces : List (List (TranscriptEntry F m))
  addrOrderedSubtraces : List (List (TranscriptEntry F m))
  allSerializedWitnesses : List (List UInt8)
  circParams : P

/-- The state of stage 1 with the commitments of stage 0. -/
structure CommittedState (F D P G₁ Seed Com : Type) (m : MemType)
    extends CoordinatorStage1State F D m where
  allSerializedWitnesses : List (List UInt8)
  circParams : P
  coms : List G₁
  seeds : List Seed
  superCom : Com

def indexLe (resp resp' : Stage0Response G₁ Seed) : Prop := resp.subcircuitIdx ≤ resp'.subcircuitIdx

instance : DecidableRel (indexLe : Stage0Response G₁ Seed → _ → Prop) := fun resp resp' =>
  inferInstanceAs (Decidable (resp.subcircuitIdx ≤ resp'.subcircuitIdx))

namespace CoordinatorStage0State

def genRequest (state : CoordinatorStage0State F P m) (subcircuitIdx : Nat) :
    Outcome (Stage0Request F m) := do
  let time ← expect unwrapNone state.timeOrderedSubtraces[subcircuitIdx]?
  let addr ← expect unwrapNone state.addrOrderedSubtraces[subcircuitIdx]?
  .ok ⟨subcircuitIdx, time, addr⟩

/-- Sort the responses, commit to their commitments and derive the challenges from that. -/
def processStage0Responses (gadget : TreeConfigGadget F D) (depth : Nat)
    (ipp : TIPPCommitment F G₁ G₂ Com) (transcriptHash : Com → String → F)
    (state : CoordinatorStage0State F P m) (responses : List (Stage0Response G₁ Seed)) :
    Outcome (CommittedState F D P G₁ Seed Com m) := do
  let buf := responses.insertionSort indexLe
  let coms := buf.map Stage0Response.com
  let superCom ← ipp.commitOnlyLeft coms
  let stage1 ← CoordinatorStage1State.new gadget depth (transcriptHash superCom)
    state.timeOrderedSubtraces state.addrOrderedSubtraces
  .ok { stage1 with
    allSerializedWitnesses := state.allSerializedWitnesses
    circParams := state.circParams
    coms := coms
    seeds := buf.map Stage0Response.comSeed
    superCom := superCom }

end CoordinatorStage0State

/-- The request of stage 1 for one subcircuit. -/
def CommittedState.circuitRequest (state : CommittedState F D P G₁ Seed Com m)
    (subcircuitIdx : Nat) : Outcome (CircuitRequest F D P m) := do
  let request ← state.genRequest subcircuitIdx
  let witnesses ← expect unwrapNone state.allSerializedWitnesses[subcircuitIdx]?
  .ok { request with serializedWitnesses := witnesses, circParams := state.circParams }

end Coordination

/-- `worker` is the pair of binaries of one machine, `mpi` the nodes, `allInOne` the binary
that runs both stages of every subcircuit by itself. -/
inductive Driver where
  | worker
  | mpi
  | allInOne
  deriving DecidableEq

/-- The generators that the stages of each subcircuit draw from. -/
structure Draws (State : Type) where
  stage0 : Nat → State
  stage1 : Nat → State

/-- One subcircuit after stage 0, with the worker's state where the driver keeps it. -/
structure Committed (F G₁ G₂ Seed : Type) (m : MemType) where
  request : Stage0Request F m
  response : Stage0Response G₁ Seed
  kept : Option (WorkerState F G₁ G₂ m)

/-- A whole run: the responses of both stages and the coordinator's state between them. -/
structure Finished (F D P G₁ G₂ Seed Com : Type) (m : MemType) where
  committed : List (Committed F G₁ G₂ Seed m)
  state : CommittedState F D P G₁ Seed Com m
  requests : List (CircuitRequest F D P m)
  responses : List (Stage1Response G₁ G₂)

section Drivers
variable {F D P : Type} [Field F] [DecidableEq F] [Inhabited D] {m : MemType}
variable {G₁ G₂ Com : Type} [AddCommGroup G₁] [Module F G₁] [AddCommGroup G₂] [Module F G₂]
variable [AddCommGroup Com] [Module F Com]
variable (session : Session F D P m)

namespace Driver

def stage0 (driver : Driver) (pks : ProvingKeys G₁ G₂) (rng : session.rng.State)
    (req : Stage0Request F m) : Outcome (Committed F G₁ G₂ session.rng.Seed m) :=
  match driver with
  | worker => do
    let pk ← pks.getPk req.subcircuitIdx
    let resp ← session.processStage0Request rng pk req
    .ok ⟨req, resp, none⟩
  | mpi => do
    let ((resp, state), _) ← (WorkerState.new m pks).stage0 session rng req
    .ok ⟨req, resp, some state⟩
  | allInOne => do
    let (seed, _) := session.rng.gen rng
    let ((resp, _), _) ← (WorkerState.new m pks).stage0 session (session.rng.fromSeed seed) req
    .ok ⟨req, resp, none⟩

def stage1 (driver : Driver) (pks : ProvingKeys G₁ G₂) (rng : session.rng.State)
    (done : Committed F G₁ G₂ session.rng.Seed m) (req : CircuitRequest F D P m) :
    Outcome (Stage1Response G₁ G₂) :=
  match driver with
  | worker => do
    let pk ← pks.getPk req.subcircuitIdx
    session.processStage1Request rng pk done.request done.response req
  | mpi => do
    let state ← expect unwrapNone done.kept
    state.stage1 session rng req
  | allInOne => do
    -- the seed of stage 0 is shadowed by one drawn here
    let (seed, _) := session.rng.gen rng
    let ((_, state), rng) ← (WorkerState.new m pks).stage0 session (session.rng.fromSeed seed)
      done.request
    state.stage1 session rng req

/-- Both stages of all subcircuits, with the coordinator between them. -/
def work (driver : Driver) (pks : ProvingKeys G₁ G₂) (gadget : TreeConfigGadget F D)
    (depth : Nat) (ipp : TIPPCommitment F G₁ G₂ Com) (transcriptHash : Com → String → F)
    (state₀ : CoordinatorStage0State F P m) (draws : Draws session.rng.State) :
    Outcome (Finished F D P G₁ G₂ session.rng.Seed Com m) := do
  let committed ← (List.range pks.numSubcircuits).mapM fun i => do
    let request ← state₀.genRequest i
    driver.stage0 session pks (draws.stage0 i) request
  let state ← state₀.processStage0Responses gadget depth ipp transcriptHash
    (committed.map Committed.response)
  let requests ← (List.range pks.numSubcircuits).mapM state.circuitRequest
  let responses ← ((committed.zip requests).zipIdx).mapM fun p =>
    driver.stage1 session pks (draws.stage1 p.2) p.1.1 p.1.2
  .ok ⟨committed, state, requests, responses⟩

end Driver
end Drivers
end Workers
