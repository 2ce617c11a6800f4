import Hekaton.CliFiles
import Hekaton.Documents
import Hekaton.ResponseOrder
import Hekaton.TreeHashCircuit

/-!
# The deployed protocol

The coordinator and the workers are started one command at a time and meet in documents: the
keys, the requests and responses of both stages, and the coordinator's states between them. A
command fails where a document that it needs is missing, and may be started again at any time.
Whatever is started before the responses of stage 0 are processed, and whatever but stage 0
afterwards, the proof is the one of a single run with the last draws of each subcircuit.
-/

namespace Deployment

open LinearCombinations Outcomes CPGroth16 Transcript EvalTree SubcircuitCircuit Coordinator
open Aggregation Workers SubcircuitAggregation CommitmentConsistency ResponseOrder
open Processes Documents CliFiles TreeHashCircuit Chaining AggregationSoundness

/-- What has a file of its own. -/
inductive Slot where
  | testCircParams
  | g16Pk (subcircuitIdx : Nat)
  | aggCk
  | stage0CoordState
  | finalAggState
  | finalProof
  | stage0Req (subcircuitIdx : Nat)
  | stage0Resp (subcircuitIdx : Nat)
  | stage1Req (subcircuitIdx : Nat)
  | stage1Resp (subcircuitIdx : Nat)
  deriving DecidableEq

/-- What the binaries are built with; a circuit's parameters tell its number of subcircuits. -/
structure Setting (F D P G₁ G₂ GT Com K Pf : Type) [Field F] [AddCommGroup G₁] [Module F G₁]
    [AddCommGroup G₂] [Module F G₂] [AddCommGroup GT] [Module F GT] [AddCommGroup Com]
    [Module F Com] (m : MemType) where
  session : Session F D P m
  gadget : TreeConfigGadget F D
  transcriptHash : Com → String → F
  digestFields : D → List F
  backend : K → Backend F G₁ G₂ GT Com Pf
  numSubcircuits : P → Nat

variable {F D P G₁ G₂ GT Com K Pf : Type} [Field F] [AddCommGroup G₁] [Module F G₁]
variable [AddCommGroup G₂] [Module F G₂] [AddCommGroup GT] [Module F GT]
variable [AddCommGroup Com] [Module F Com] {m : MemType}

def Setting.Content (S : Setting F D P G₁ G₂ GT Com K Pf m) : Slot → Type
  | .testCircParams => P
  | .g16Pk _ => ProvingKey G₁ G₂
  | .aggCk => K × AggProvingKey G₁ G₂ Com
  | .stage0CoordState => CoordinatorStage0State F P m
  | .finalAggState => CommittedAggState F Com
  | .finalProof => Pf
  | .stage0Req _ => Stage0Request F m
  | .stage0Resp _ => Stage0Response G₁ S.session.rng.Seed
  | .stage1Req _ => CircuitRequest F D P m
  | .stage1Resp _ => Stage1Response G₁ G₂

/-- `CoordinatorStage0State::new`. -/
def newStage0State (circ : CircuitWithPortals F D m)
    (getSerializedWitnesses : Nat → List UInt8) (circParams : P) :
    Outcome (CoordinatorStage0State F P m) := do
  let allSerializedWitnesses := (List.range circ.numSubcircuits).map getSerializedWitnesses
  let timeOrderedSubtraces ← circ.getPortalSubtraces
  let addrOrderedSubtraces ← sortSubtracesByAddr timeOrderedSubtraces
  .ok ⟨timeOrderedSubtraces, addrOrderedSubtraces, allSerializedWitnesses, circParams⟩

/-- The height of the execution tree. -/
def treeDepth (state : CoordinatorStage0State F P m) : Nat :=
  state.timeOrderedSubtraces.length.log2

variable [DecidableEq F] [Inhabited D] [DecidableEq GT]

section Commands
variable (S : Setting F D P G₁ G₂ GT Com K Pf m) {σ : Type} (store : Store Fault σ S.Content)

/-- Draw a circuit of the saved parameters and write the requests of stage 0. -/
def beginStage0 (rand : P → CircuitWithPortals F D m × (Nat → List UInt8)) :
    Process Fault σ Unit := do
  let circParams : P ← store.load .testCircParams
  let (circ, getSerializedWitnesses) := rand circParams
  let stage0State ← .lift (newStage0State circ getSerializedWitnesses circParams)
  let reqs ← .lift ((List.range (S.numSubcircuits circParams)).mapM stage0State.genRequest)
  reqs.zipIdx.forM fun p => store.save (.stage0Req p.2) p.1
  store.save .stage0CoordState stage0State

/-- Collect the responses of stage 0 and write the requests of stage 1. -/
def processStage0Resps : Process Fault σ Unit := do
  let circParams : P ← store.load .testCircParams
  let coordState : CoordinatorStage0State F P m ← store.load .stage0CoordState
  let aggCk : K × AggProvingKey G₁ G₂ Com ← store.load .aggCk
  let stage0Resps : List (Stage0Response G₁ S.session.rng.Seed) ←
    (List.range (S.numSubcircuits circParams)).mapM fun i => store.load (.stage0Resp i)
  let newCoordState ← .lift (coordState.processStage0Responses S.gadget (treeDepth coordState)
    (S.backend aggCk.1).ipp.toTIPPCommitment S.transcriptHash stage0Resps)
  let reqs ← .lift ((List.range (S.numSubcircuits circParams)).mapM newCoordState.circuitRequest)
  reqs.zipIdx.forM fun p => store.save (.stage1Req p.2) p.1
  let finalAggState ← .lift (intoCommittedAggState S.digestFields newCoordState)
  store.save .finalAggState finalAggState

/-- Collect the proofs and write their aggregate. -/
def processStage1Resps : Process Fault σ Unit := do
  let circParams : P ← store.load .testCircParams
  let finalAggState : CommittedAggState F Com ← store.load .finalAggState
  let aggCk : K × AggProvingKey G₁ G₂ Com ← store.load .aggCk
  let stage1Resps : List (Stage1Response G₁ G₂) ←
    (List.range (S.numSubcircuits circParams)).mapM fun i => store.load (.stage1Resp i)
  let aggProof ← .lift (finalAggState.genAggProof (S.backend aggCk.1) aggCk.2 stage1Resps)
  store.save .finalProof aggProof

/-- A worker's stage 0. -/
def processStage0Request (subcircuitIdx : Nat) (rng : S.session.rng.State) :
    Process Fault σ Unit := do
  let g16Pk : ProvingKey G₁ G₂ ← store.load (.g16Pk subcircuitIdx)
  let stage0Req : Stage0Request F m ← store.load (.stage0Req subcircuitIdx)
  .lift (assertEq stage0Req.subcircuitIdx subcircuitIdx)
  let stage0Resp ← .lift (S.session.processStage0Request rng g16Pk stage0Req)
  store.save (.stage0Resp subcircuitIdx) stage0Resp

/-- A worker's stage 1, over all that it was sent and has answered before. -/
def processStage1Request (subcircuitIdx : Nat) (rng : S.session.rng.State) :
    Process Fault σ Unit := do
  let g16Pk : ProvingKey G₁ G₂ ← store.load (.g16Pk subcircuitIdx)
  let stage0Req : Stage0Request F m ← store.load (.stage0Req subcircuitIdx)
  let stage0Resp : Stage0Response G₁ S.session.rng.Seed ← store.load (.stage0Resp subcircuitIdx)
  let stage1Req : CircuitRequest F D P m ← store.load (.stage1Req subcircuitIdx)
  let stage1Resp ← .lift (S.session.processStage1Request rng g16Pk stage0Req stage0Resp stage1Req)
  store.save (.stage1Resp subcircuitIdx) stage1Resp

/-- The subcommands of both binaries, with what they draw. -/
inductive Command : Type 1 where
  | startStage0 (rand : P → CircuitWithPortals F D m × (Nat → List UInt8))
  | startStage1
  | endProof
  | processStage0Request (subcircuitIndex : Nat) (rng : S.session.rng.State)
  | processStage1Request (subcircuitIndex : Nat) (rng : S.session.rng.State)

variable {S}

def Command.run : Command S → Process Fault σ Unit
  | .startStage0 rand => beginStage0 S store rand
  | .startStage1 => processStage0Resps S store
  | .endProof => processStage1Resps S store
  | .processStage0Request i rng => Deployment.processStage0Request S store i rng
  | .processStage1Request i rng => Deployment.processStage1Request S store i rng

end Commands

/-- The binaries but the key generator only read the keys. -/
def produced : Set Slot := {slot | ∀ i, slot ≠ .g16Pk i}

variable {S : Setting F D P G₁ G₂ GT Com K Pf m} {σ τ : Type}

/-- The documents themselves; a missing one panics. -/
def onDocuments (readBack : ∀ slot, S.Content slot → Option (S.Content slot)) :
    Store Fault (Docs S.Content) S.Content :=
  inMemory readBack (.panic "couldn't open file")

theorem Command.run_simulates {R : σ → τ → Prop} {store : Store Fault σ S.Content}
    {store' : Store Fault τ S.Content} (same : store.Simulates R produced store')
    (command : Command S) : Process.Simulates R (command.run store) (command.run store') := by
  have lift : ∀ {α : Type} (o : Outcome α), Process.Simulates R (.lift o) (.lift o) :=
    Process.Simulates.lift R
  cases command with
  | startStage0 rand =>
    refine (same.load .testCircParams).bind fun circParams => (lift _).bind fun state =>
      (lift _).bind fun reqs => .bind (.forM _ fun p _ => ?_) fun _ => ?_
    · exact same.save (.stage0Req p.2) (fun i => by simp) p.1
    · exact same.save .stage0CoordState (fun i => by simp) state
  | startStage1 =>
    refine (same.load .testCircParams).bind fun circParams =>
      (same.load .stage0CoordState).bind fun coordState => (same.load .aggCk).bind fun aggCk =>
      .bind (.mapM _ fun i _ => ?_) fun resps => (lift _).bind fun state =>
      (lift _).bind fun reqs => .bind (.forM _ fun p _ => ?_) fun _ => (lift _).bind fun final => ?_
    · exact same.load (.stage0Resp i)
    · exact same.save (.stage1Req p.2) (fun i => by simp) p.1
    · exact same.save .finalAggState (fun i => by simp) final
  | endProof =>
    refine (same.load .testCircParams).bind fun circParams =>
      (same.load .finalAggState).bind fun final => (same.load .aggCk).bind fun aggCk =>
      .bind (.mapM _ fun i _ => ?_) fun resps => (lift _).bind fun proof => ?_
    · exact same.load (.stage1Resp i)
    · exact same.save .finalProof (fun i => by simp) proof
  | processStage0Request i rng =>
    refine (same.load (.g16Pk i)).bind fun pk => (same.load (.stage0Req i)).bind fun req =>
      (lift _).bind fun _ => (lift _).bind fun resp => ?_
    exact same.save (.stage0Resp i) (fun i => by simp) resp
  | processStage1Request i rng =>
    refine (same.load (.g16Pk i)).bind fun pk => (same.load (.stage0Req i)).bind fun req₀ =>
      (same.load (.stage0Resp i)).bind fun resp₀ => (same.load (.stage1Req i)).bind fun req₁ =>
      (lift _).bind fun resp => ?_
    exact same.save (.stage1Resp i) (fun i => by simp) resp

def Command.writes : Command S → Set Slot
  | .startStage0 _ => {slot | slot = .stage0CoordState ∨ ∃ i, slot = .stage0Req i}
  | .startStage1 => {slot | slot = .finalAggState ∨ ∃ i, slot = .stage1Req i}
  | .endProof => {.finalProof}
  | .processStage0Request i _ => {.stage0Resp i}
  | .processStage1Request i _ => {.stage1Resp i}

/-- The keys and parameters come first, then the documents in the order of the protocol. -/
def Slot.phase : Slot → Nat
  | .testCircParams | .g16Pk _ | .aggCk => 0
  | .stage0CoordState | .stage0Req _ => 1
  | .stage0Resp _ => 2
  | .stage1Req _ | .finalAggState => 3
  | .stage1Resp _ => 4
  | .finalProof => 5

def Command.phase : Command S → Nat
  | .startStage0 _ => 1
  | .processStage0Request _ _ => 2
  | .startStage1 => 3
  | .processStage1Request _ _ => 4
  | .endProof => 5

omit [DecidableEq F] [Inhabited D] [DecidableEq GT] in
theorem Command.phase_of_writes {command : Command S} {slot : Slot}
    (written : slot ∈ command.writes) : slot.phase = command.phase := by
  cases command with
  | startStage0 rand => rcases written with rfl | ⟨i, rfl⟩ <;> rfl
  | startStage1 => rcases written with rfl | ⟨i, rfl⟩ <;> rfl
  | endProof =>
    cases written
    rfl
  | processStage0Request i rng =>
    cases written
    rfl
  | processStage1Request i rng =>
    cases written
    rfl

section Frames
variable {readBack : ∀ slot, S.Content slot → Option (S.Content slot)}

theorem Command.run_writes (command : Command S) :
    Writes command.writes (command.run (onDocuments readBack)) := by
  have lift : ∀ {α : Type} (o : Outcome α), Writes command.writes
      (.lift o : Process Fault (Docs S.Content) α) := Writes.lift _
  have load : ∀ slot, Writes command.writes ((onDocuments readBack).load slot) :=
    Writes.load _
  have save : ∀ (slot : Slot), slot ∈ command.writes → ∀ content : S.Content slot,
      Writes command.writes ((onDocuments readBack).save slot content) :=
    fun slot member => Writes.save slot member
  cases command with
  | startStage0 rand =>
    refine (load .testCircParams).bind fun circParams => (lift _).bind fun state =>
      (lift _).bind fun reqs => .bind (.forM _ fun p _ => ?_) fun _ => ?_
    · exact save (.stage0Req p.2) (Or.inr ⟨p.2, rfl⟩) p.1
    · exact save .stage0CoordState (Or.inl rfl) state
  | startStage1 =>
    refine (load .testCircParams).bind fun circParams => (load .stage0CoordState).bind
      fun coordState => (load .aggCk).bind fun aggCk => .bind (.mapM _ fun i _ => ?_) fun resps =>
      (lift _).bind fun state => (lift _).bind fun reqs => .bind (.forM _ fun p _ => ?_) fun _ =>
      (lift _).bind fun final => ?_
    · exact load (.stage0Resp i)
    · exact save (.stage1Req p.2) (Or.inr ⟨p.2, rfl⟩) p.1
    · exact save .finalAggState (Or.inl rfl) final
  | endProof =>
    refine (load .testCircParams).bind fun circParams => (load .finalAggState).bind
      fun final => (load .aggCk).bind fun aggCk => .bind (.mapM _ fun i _ => ?_) fun resps =>
      (lift _).bind fun proof => ?_
    · exact load (.stage1Resp i)
    · exact save .finalProof rfl proof
  | processStage0Request i rng =>
    refine (load (.g16Pk i)).bind fun pk => (load (.stage0Req i)).bind fun req =>
      (lift _).bind fun _ => (lift _).bind fun resp => ?_
    exact save (.stage0Resp i) rfl resp
  | processStage1Request i rng =>
    refine (load (.g16Pk i)).bind fun pk => (load (.stage0Req i)).bind fun req₀ =>
      (load (.stage0Resp i)).bind fun resp₀ => (load (.stage1Req i)).bind fun req₁ =>
      (lift _).bind fun resp => ?_
    exact save (.stage1Resp i) rfl resp

end Frames

/-- The keys as they are held in memory. -/
def heldKeys (keys : Nat → ProvingKey G₁ G₂) (numSubcircuits : Nat) : ProvingKeys G₁ G₂ :=
  ⟨fun i => some (keys i), List.range numSubcircuits⟩

/-- Both stages of all subcircuits and the aggregation, in one go. -/
structure SingleRun (S : Setting F D P G₁ G₂ GT Com K Pf m) (params : P)
    (keys : Nat → ProvingKey G₁ G₂) (aggCk : K × AggProvingKey G₁ G₂ Com)
    (rand : P → CircuitWithPortals F D m × (Nat → List UInt8))
    (draws : Draws S.session.rng.State) where
  state : CoordinatorStage0State F P m
  finished : Finished F D P G₁ G₂ S.session.rng.Seed Com m
  final : CommittedAggState F Com
  proof : Pf
  began : newStage0State (rand params).1 (rand params).2 params = .ok state
  worked : Driver.worker.work S.session (heldKeys keys (S.numSubcircuits params)) S.gadget
    (treeDepth state) (S.backend aggCk.1).ipp.toTIPPCommitment S.transcriptHash state draws =
      .ok finished
  aggregated : intoCommittedAggState S.digestFields finished.state = .ok final
  proved : final.genAggProof (S.backend aggCk.1) aggCk.2 finished.responses = .ok proof

namespace SingleRun
variable {params : P} {keys : Nat → ProvingKey G₁ G₂} {aggCk : K × AggProvingKey G₁ G₂ Com}
variable {rand : P → CircuitWithPortals F D m × (Nat → List UInt8)}
variable {draws : Draws S.session.rng.State}

/-- The documents that the run would leave. -/
def docs (run : SingleRun S params keys aggCk rand draws) : Docs S.Content
  | .testCircParams => some params
  | .g16Pk i => if i < S.numSubcircuits params then some (keys i) else none
  | .aggCk => some aggCk
  | .stage0CoordState => some run.state
  | .finalAggState => some run.final
  | .finalProof => some run.proof
  | .stage0Req i => run.finished.committed[i]?.map Committed.request
  | .stage0Resp i => run.finished.committed[i]?.map Committed.response
  | .stage1Req i => run.finished.requests[i]?
  | .stage1Resp i => run.finished.responses[i]?

/-- The steps of one subcircuit. -/
structure StepsAt (run : SingleRun S params keys aggCk rand draws) (i : Nat)
    (done : Committed F G₁ G₂ S.session.rng.Seed m) (req : CircuitRequest F D P m)
    (resp : Stage1Response G₁ G₂) : Prop where
  committed : run.finished.committed[i]? = some done
  requested : run.finished.requests[i]? = some req
  answered : run.finished.responses[i]? = some resp
  request : run.state.genRequest i = .ok done.request
  index : done.request.subcircuitIdx = i
  stage0 : S.session.processStage0Request (draws.stage0 i) (keys i) done.request =
    .ok done.response
  stage1 : S.session.processStage1Request (draws.stage1 i) (keys i) done.request done.response
    req = .ok resp

omit [AddCommGroup G₁] [AddCommGroup G₂] in
theorem getPk_held {n i : Nat} (inside : i < n) : (heldKeys keys n).getPk i = .ok (keys i) := by
  simp [ProvingKeys.getPk, heldKeys, inside]

omit [DecidableEq GT] in
/-- A proof is made under the commitment of the response that it is made from. -/
theorem stage1_proved {resp₀ : Stage0Response G₁ S.session.rng.Seed} {pk : ProvingKey G₁ G₂}
    {req : Stage0Request F m} {rng₀ rng₁ : S.session.rng.State} {req₁ : CircuitRequest F D P m}
    {resp : Stage1Response G₁ G₂} (committed : S.session.processStage0Request rng₀ pk req = .ok resp₀)
    (proved : S.session.processStage1Request rng₁ pk req resp₀ req₁ = .ok resp) :
    ∃ randomness, Proved S.session pk req resp₀.com randomness resp := by
  obtain ⟨⟨⟨_, cb⟩, _⟩, got, same⟩ := bind_eq_ok.mp committed
  cases same
  have reported := getCb_reported got
  obtain ⟨⟨com, cb'⟩, again, run⟩ := bind_eq_ok.mp proved
  rw [reported.seed, reported.committed] at again
  cases again
  obtain ⟨requested, key, made, _⟩ := commitWithSeed_shift reported.committed
  rw [← reported.seed] at made
  exact ⟨_, withCb_proved made key requested run⟩

/-- What the run did between the stages. -/
theorem between (run : SingleRun S params keys aggCk rand draws) :
    run.state.processStage0Responses S.gadget (treeDepth run.state)
      (S.backend aggCk.1).ipp.toTIPPCommitment S.transcriptHash
        (run.finished.committed.map Committed.response) = .ok run.finished.state ∧
    (List.range (S.numSubcircuits params)).mapM run.finished.state.circuitRequest =
      .ok run.finished.requests := by
  have held : (heldKeys keys (S.numSubcircuits params)).numSubcircuits =
      S.numSubcircuits params := List.length_range
  obtain ⟨committed, _, ran⟩ := bind_eq_ok.mp run.worked
  obtain ⟨state, processed, ran⟩ := bind_eq_ok.mp ran
  obtain ⟨requests, requested, ran⟩ := bind_eq_ok.mp ran
  obtain ⟨responses, _, ran⟩ := bind_eq_ok.mp ran
  have same := Except.ok.inj ran
  rw [held] at requested
  rw [← same]
  exact ⟨processed, requested⟩

theorem steps (run : SingleRun S params keys aggCk rand draws) :
    run.finished.committed.length = S.numSubcircuits params ∧
    run.finished.requests.length = S.numSubcircuits params ∧
    run.finished.responses.length = S.numSubcircuits params ∧
    ∀ i < S.numSubcircuits params, ∃ done req resp, StepsAt run i done req resp := by
  have held : (heldKeys keys (S.numSubcircuits params)).numSubcircuits =
      S.numSubcircuits params := List.length_range
  obtain ⟨committed, stage0, ran⟩ := bind_eq_ok.mp run.worked
  obtain ⟨state, processed, ran⟩ := bind_eq_ok.mp ran
  obtain ⟨requests, requested, ran⟩ := bind_eq_ok.mp ran
  obtain ⟨responses, stage1, ran⟩ := bind_eq_ok.mp ran
  have same := (Except.ok.inj ran).symm
  rw [held] at stage0 requested
  obtain ⟨size, ranStage0⟩ := getElem?_of_mapM stage0
  obtain ⟨size', ranRequest⟩ := getElem?_of_mapM requested
  have answered := forall₂_of_mapM stage1
  have pairs : ((committed.zip requests).zipIdx).length = S.numSubcircuits params := by
    rw [List.length_zipIdx, List.length_zip, size, size', Nat.min_self]
  have size'' : responses.length = S.numSubcircuits params := answered.length_eq.symm.trans pairs
  refine ⟨same ▸ size, same ▸ size', same ▸ size'', fun i inside => ?_⟩
  have here : i < committed.length := by omega
  have here' : i < requests.length := by omega
  have last : i < responses.length := by omega
  obtain ⟨request, generated, ranHere⟩ :=
    bind_eq_ok.mp (ranStage0 i _ (List.getElem?_eq_getElem here)).2
  obtain ⟨pk, key, ranHere⟩ := bind_eq_ok.mp ranHere
  obtain ⟨resp, ranHere, made⟩ := bind_eq_ok.mp ranHere
  have index : request.subcircuitIdx = i := by
    obtain ⟨time, _, generated⟩ := bind_eq_ok.mp generated
    obtain ⟨addr, _, generated⟩ := bind_eq_ok.mp generated
    exact (congrArg Stage0Request.subcircuitIdx (Except.ok.inj generated)).symm
  obtain ⟨request₁, generated₁, rest⟩ := bind_eq_ok.mp
    (ranRequest i _ (List.getElem?_eq_getElem here')).2
  obtain ⟨witnesses, _, rest⟩ := bind_eq_ok.mp rest
  have index₁ : requests[i].subcircuitIdx = i := by
    rw [← Except.ok.inj rest]
    exact genRequest_index generated₁
  have ranLast := answered.get (by rw [pairs]; exact inside) last
  simp only [List.get_eq_getElem, List.getElem_zipIdx, List.getElem_zip, Nat.zero_add] at ranLast
  obtain ⟨pk₁, key₁, ranLast⟩ := bind_eq_ok.mp ranLast
  rw [index₁, getPk_held inside] at key₁
  rw [index, getPk_held inside] at key
  cases key
  cases key₁
  have done := Except.ok.inj made
  refine ⟨committed[i], requests[i], responses[i], ?_, ?_, ?_, ?_, ?_, ?_, ranLast⟩
  · rw [same]
    exact List.getElem?_eq_getElem here
  · rw [same]
    exact List.getElem?_eq_getElem here'
  · rw [same]
    exact List.getElem?_eq_getElem last
  · rw [← done]
    exact generated
  · rw [← done]
    exact index
  · rw [← done]
    exact ranHere

/-- The documents of the first phases are those of the run. -/
def UpTo (run : SingleRun S params keys aggCk rand draws) (phase : Nat)
    (docs : Docs S.Content) : Prop :=
  ∀ slot, slot.phase ≤ phase → ∀ content, run.docs slot = some content → docs slot = some content

/-- What the run would leave can be read back. -/
def Readable (run : SingleRun S params keys aggCk rand draws)
    (readBack : ∀ slot, S.Content slot → Option (S.Content slot)) : Prop :=
  ∀ slot content, run.docs slot = some content → readBack slot content = some content

section OnDocuments
variable {run : SingleRun S params keys aggCk rand draws} {docs : Docs S.Content}
variable {readBack : ∀ slot, S.Content slot → Option (S.Content slot)}

variable (readBack) in
/-- Commands of later phases leave the documents of the earlier ones. -/
theorem UpTo.keeps {phase : Nat} (upTo : run.UpTo phase docs) (command : Command S)
    (later : phase < command.phase) :
    run.UpTo phase ((command.run (onDocuments readBack)).after docs) := by
  intro slot early content held
  rw [Process.after, command.run_writes docs slot]
  · exact upTo slot early content held
  · intro written
    have := command.phase_of_writes written
    omega

/-- One phase more. -/
theorem UpTo.succ {phase : Nat} (upTo : run.UpTo phase docs) (next : ∀ slot,
      slot.phase = phase + 1 → ∀ content, run.docs slot = some content → docs slot = some content) :
    run.UpTo (phase + 1) docs := by
  intro slot early content held
  rcases Nat.le_succ_iff.mp early with before | here
  · exact upTo slot before content held
  · exact next slot here content held

/-- The run's requests, in the order of the subcircuits. -/
theorem requests_eq (run : SingleRun S params keys aggCk rand draws) :
    (List.range (S.numSubcircuits params)).mapM run.state.genRequest =
      .ok (run.finished.committed.map Committed.request) := by
  obtain ⟨size, _, _, each⟩ := run.steps
  apply mapM_of_forall₂
  rw [List.forall₂_iff_get]
  refine ⟨by simp [size], fun i here there => ?_⟩
  rw [List.length_range] at here
  obtain ⟨done, req, resp, steps⟩ := each i here
  obtain ⟨inside, same⟩ := List.getElem?_eq_some_iff.mp steps.committed
  simp [same, steps.request]

/-- Stage 0 is started. -/
theorem begins (readable : run.Readable readBack) (upTo : run.UpTo 0 docs) :
    run.UpTo 1 (((Command.startStage0 rand).run (onDocuments readBack)).after docs) := by
  have kept := upTo.keeps readBack (.startStage0 rand) Nat.one_pos
  have requested : ∀ (i : Nat) (req : Stage0Request F m), run.docs (.stage0Req i) = some req ↔
      (req, i) ∈ (run.finished.committed.map Committed.request).zipIdx := by
    intro i req
    rw [List.mk_mem_zipIdx_iff_getElem?, List.getElem?_map]
    rfl
  have distinct : Function.Injective Slot.stage0Req := fun i j same => Slot.stage0Req.inj same
  obtain ⟨docs', saved, written, _⟩ := saves_run distinct
    (fun i (req : Stage0Request F m) => req) _ 0 docs
    fun p member => readable (.stage0Req p.2) p.1 ((requested p.2 p.1).mpr member)
  have ran : (Command.startStage0 rand).run (onDocuments readBack) docs =
      (.ok (), docs'.put .stage0CoordState (some run.state)) := by
    refine (Process.bind_of_ok (load_run (upTo .testCircParams (Nat.le_refl _) params rfl))).trans ?_
    refine (Process.bind_of_ok (congrArg (·, docs) run.began)).trans ?_
    refine (Process.bind_of_ok (congrArg (·, docs) run.requests_eq)).trans ?_
    refine (Process.bind_of_ok saved).trans ?_
    exact save_run (readable .stage0CoordState run.state rfl) docs'
  rw [Process.after_of_run ran] at kept ⊢
  refine kept.succ fun slot here content held => ?_
  cases slot with
  | stage0CoordState =>
    rw [put_self]
    exact held
  | stage0Req i =>
    rw [put_of_ne _ _ (by simp)]
    exact written (content, i) ((requested i content).mp held)
  | _ => cases here

/-- A worker with the run's draw answers in stage 0 as in the run. -/
theorem commits (readable : run.Readable readBack) (upTo : run.UpTo 1 docs) {i : Nat}
    (inside : i < S.numSubcircuits params) :
    ((Command.processStage0Request i (draws.stage0 i)).run (onDocuments readBack)).after docs
      (.stage0Resp i) = run.docs (.stage0Resp i) := by
  obtain ⟨_, _, _, each⟩ := run.steps
  obtain ⟨done, req, resp, steps⟩ := each i inside
  have key : run.docs (.g16Pk i) = some (keys i) := if_pos inside
  have request : run.docs (.stage0Req i) = some done.request :=
    congrArg (Option.map Committed.request) steps.committed
  have response : run.docs (.stage0Resp i) = some done.response :=
    congrArg (Option.map Committed.response) steps.committed
  have checked : assertEq done.request.subcircuitIdx i = .ok () := by
    rw [assertEq, if_pos steps.index]
  have ran : (Command.processStage0Request i (draws.stage0 i)).run (onDocuments readBack)
      docs = (.ok (), docs.put (.stage0Resp i) (some done.response)) := by
    refine (Process.bind_of_ok (load_run (upTo (.g16Pk i) (Nat.zero_le _) _ key))).trans ?_
    refine (Process.bind_of_ok (load_run (upTo (.stage0Req i) (Nat.le_refl _) _ request))).trans ?_
    refine (Process.bind_of_ok (congrArg (·, docs) checked)).trans ?_
    refine (Process.bind_of_ok (congrArg (·, docs) steps.stage0)).trans ?_
    exact save_run (readable (.stage0Resp i) done.response response) docs
  rw [Process.after_of_run ran, put_self]
  exact response.symm

/-- The responses of stage 0 are processed. -/
theorem challenges (readable : run.Readable readBack) (upTo : run.UpTo 2 docs) :
    run.UpTo 3 ((Command.startStage1.run (onDocuments readBack)).after docs) := by
  obtain ⟨size, _, _, each⟩ := run.steps
  obtain ⟨processed, generated⟩ := run.between
  have kept := upTo.keeps readBack .startStage1 (Nat.lt_succ_self 2)
  have requested : ∀ (i : Nat) (req : CircuitRequest F D P m), run.docs (.stage1Req i) = some req ↔
      (req, i) ∈ run.finished.requests.zipIdx := by
    intro i req
    rw [List.mk_mem_zipIdx_iff_getElem?]
    rfl
  have responses : ((List.range (S.numSubcircuits params)).mapM fun i =>
      ((onDocuments readBack).load (.stage0Resp i) :
        Process Fault (Docs S.Content) (Stage0Response G₁ S.session.rng.Seed))) docs =
      (.ok (run.finished.committed.map Committed.response), docs) := by
    refine Process.mapM_range_run (by simp [size]) fun i resp found => load_run ?_
    rw [List.getElem?_map] at found
    exact upTo (.stage0Resp i) (Nat.le_refl _) resp found
  have distinct : Function.Injective Slot.stage1Req := fun i j same => Slot.stage1Req.inj same
  obtain ⟨docs', saved, written, _⟩ := saves_run distinct
    (fun i (req : CircuitRequest F D P m) => req) run.finished.requests 0 docs
    fun p member => readable (.stage1Req p.2) p.1 ((requested p.2 p.1).mpr member)
  have ran : Command.startStage1.run (onDocuments readBack) docs =
      (.ok (), docs'.put .finalAggState (some run.final)) := by
    refine (Process.bind_of_ok (load_run (upTo .testCircParams (Nat.zero_le _) params rfl))).trans ?_
    refine (Process.bind_of_ok (load_run
      (upTo .stage0CoordState (Nat.le_succ _) run.state rfl))).trans ?_
    refine (Process.bind_of_ok (load_run (upTo .aggCk (Nat.zero_le _) aggCk rfl))).trans ?_
    refine (Process.bind_of_ok responses).trans ?_
    refine (Process.bind_of_ok (congrArg (·, docs) processed)).trans ?_
    refine (Process.bind_of_ok (congrArg (·, docs) generated)).trans ?_
    refine (Process.bind_of_ok saved).trans ?_
    refine (Process.bind_of_ok (congrArg (·, docs') run.aggregated)).trans ?_
    exact save_run (readable .finalAggState run.final rfl) docs'
  rw [Process.after_of_run ran] at kept ⊢
  refine kept.succ fun slot here content held => ?_
  cases slot with
  | finalAggState =>
    rw [put_self]
    exact held
  | stage1Req i =>
    rw [put_of_ne _ _ (by simp)]
    exact written (content, i) ((requested i content).mp held)
  | _ => cases here

/-- A worker with the run's draw proves its subcircuit as in the run. -/
theorem proves (readable : run.Readable readBack) (upTo : run.UpTo 3 docs) {i : Nat}
    (inside : i < S.numSubcircuits params) :
    ((Command.processStage1Request i (draws.stage1 i)).run (onDocuments readBack)).after docs
      (.stage1Resp i) = run.docs (.stage1Resp i) := by
  obtain ⟨_, _, _, each⟩ := run.steps
  obtain ⟨done, req, resp, steps⟩ := each i inside
  have key : run.docs (.g16Pk i) = some (keys i) := if_pos inside
  have request : run.docs (.stage0Req i) = some done.request :=
    congrArg (Option.map Committed.request) steps.committed
  have response : run.docs (.stage0Resp i) = some done.response :=
    congrArg (Option.map Committed.response) steps.committed
  have ran : (Command.processStage1Request i (draws.stage1 i)).run (onDocuments readBack)
      docs = (.ok (), docs.put (.stage1Resp i) (some resp)) := by
    refine (Process.bind_of_ok (load_run (upTo (.g16Pk i) (Nat.zero_le _) _ key))).trans ?_
    refine (Process.bind_of_ok
      (load_run (upTo (.stage0Req i) (show 1 ≤ 3 by decide) _ request))).trans ?_
    refine (Process.bind_of_ok
      (load_run (upTo (.stage0Resp i) (show 2 ≤ 3 by decide) _ response))).trans ?_
    refine (Process.bind_of_ok (load_run
      (upTo (.stage1Req i) (Nat.le_refl _) req steps.requested))).trans ?_
    refine (Process.bind_of_ok (congrArg (·, docs) steps.stage1)).trans ?_
    exact save_run (readable (.stage1Resp i) resp steps.answered) docs
  rw [Process.after_of_run ran, put_self]
  exact steps.answered.symm

/-- The proofs are aggregated. -/
theorem aggregates (readable : run.Readable readBack) (upTo : run.UpTo 4 docs) :
    run.UpTo 5 ((Command.endProof.run (onDocuments readBack)).after docs) := by
  obtain ⟨_, _, size, _⟩ := run.steps
  have kept := upTo.keeps readBack .endProof (Nat.lt_succ_self 4)
  have responses : ((List.range (S.numSubcircuits params)).mapM fun i =>
      ((onDocuments readBack).load (.stage1Resp i) :
        Process Fault (Docs S.Content) (Stage1Response G₁ G₂))) docs =
      (.ok run.finished.responses, docs) := Process.mapM_range_run size fun i resp found =>
        load_run (upTo (.stage1Resp i) (Nat.le_refl _) resp found)
  have ran : Command.endProof.run (onDocuments readBack) docs =
      (.ok (), docs.put .finalProof (some run.proof)) := by
    refine (Process.bind_of_ok (load_run (upTo .testCircParams (Nat.zero_le _) params rfl))).trans ?_
    refine (Process.bind_of_ok (load_run (upTo .finalAggState (by decide) run.final rfl))).trans ?_
    refine (Process.bind_of_ok (load_run (upTo .aggCk (Nat.zero_le _) aggCk rfl))).trans ?_
    refine (Process.bind_of_ok responses).trans ?_
    refine (Process.bind_of_ok (congrArg (·, docs) run.proved)).trans ?_
    exact save_run (readable .finalProof run.proof rfl) docs
  rw [Process.after_of_run ran] at kept ⊢
  refine kept.succ fun slot here content held => ?_
  cases slot with
  | finalProof =>
    rw [put_self]
    exact held
  | _ => cases here

end OnDocuments
end SingleRun

/-- What one subcircuit's stage 0 draws from, if the command is that. -/
def Command.stage0Draw (i : Nat) : Command S → Option S.session.rng.State
  | .processStage0Request j rng => if j = i then some rng else none
  | _ => none

def Command.stage1Draw (i : Nat) : Command S → Option S.session.rng.State
  | .processStage1Request j rng => if j = i then some rng else none
  | _ => none

/-- Stage 0 is not started again before its responses are processed, and no worker repeats it
afterwards. The last of each worker's commands has the draw of the run. -/
structure Scheduled (n : Nat) (draws : Draws S.session.rng.State)
    (before after : List (Command S)) : Prop where
  begun : ∀ command ∈ before, command.phase ≠ 1
  late : ∀ command ∈ after, 3 ≤ command.phase
  stage0 : ∀ i < n, (before.filterMap (Command.stage0Draw i)).getLast? = some (draws.stage0 i)
  stage1 : ∀ i < n, (after.filterMap (Command.stage1Draw i)).getLast? = some (draws.stage1 i)

/-- One proof, after whatever else. -/
def schedule (earlier : List (Command S))
    (rand : P → CircuitWithPortals F D m × (Nat → List UInt8)) (before after : List (Command S)) :
    List (Command S) :=
  earlier ++ .startStage0 rand :: (before ++ .startStage1 :: (after ++ [.endProof]))

namespace SingleRun
variable {params : P} {keys : Nat → ProvingKey G₁ G₂} {aggCk : K × AggProvingKey G₁ G₂ Com}
variable {rand : P → CircuitWithPortals F D m × (Nat → List UInt8)}
variable {draws : Draws S.session.rng.State} {run : SingleRun S params keys aggCk rand draws}
variable {docs : Docs S.Content} {before after : List (Command S)}
variable {readBack : ∀ slot, S.Content slot → Option (S.Content slot)}

theorem UpTo.keepsAll {phase : Nat} {commands : List (Command S)} (upTo : run.UpTo phase docs)
    (later : ∀ command ∈ commands, phase < command.phase) :
    run.UpTo phase
      (Process.runAll (commands.map (Command.run (onDocuments readBack))) docs) := by
  apply Process.runAll_keeps _ _ upTo
  intro p mapped docs' kept
  obtain ⟨command, member, rfl⟩ := List.mem_map.mp mapped
  exact kept.keeps readBack command (later command member)

/-- Before the responses are processed, each worker's last answer stands. -/
theorem commitsAll (readable : run.Readable readBack) (upTo : run.UpTo 1 docs)
    (scheduled : Scheduled (S.numSubcircuits params) draws before after) :
    run.UpTo 2
      (Process.runAll (before.map (Command.run (onDocuments readBack))) docs) := by
  have later : ∀ command ∈ before, 1 < command.phase := by
    intro command member
    have other := scheduled.begun command member
    cases command <;> simp [Command.phase] at other ⊢
  refine (upTo.keepsAll later).succ fun slot here content held => ?_
  cases slot with
  | stage0Resp i =>
    have inside : i < S.numSubcircuits params := by
      obtain ⟨size, _⟩ := run.steps
      obtain ⟨done, found, _⟩ := Option.map_eq_some_iff.mp held
      obtain ⟨below, _⟩ := List.getElem?_eq_some_iff.mp found
      omega
    rw [← held]
    refine Process.runAll_last (Command.run (onDocuments readBack)) (run.UpTo 1)
      (fun docs => docs (.stage0Resp i) = run.docs (.stage0Resp i)) before
      (fun command member _ kept => kept.keeps readBack command (later command member)) ?_ ?_
      (scheduled.stage0 i inside) upTo
    · intro command _ picked docs' kept
      cases command with
      | processStage0Request j rng =>
        by_cases same : j = i
        · subst same
          simp only [Command.stage0Draw, if_true, Option.some.injEq] at picked
          rw [picked]
          exact commits readable kept inside
        · simp [Command.stage0Draw, same] at picked
      | _ => cases picked
    · intro command _ other docs' _ kept
      refine (command.run_writes docs' _ fun written => ?_).trans kept
      cases command with
      | processStage0Request j rng =>
        cases written
        simp [Command.stage0Draw] at other
      | _ => cases Command.phase_of_writes written
  | _ => cases here

/-- After the requests of stage 1, each worker's last proof stands. -/
theorem provesAll (readable : run.Readable readBack) (upTo : run.UpTo 3 docs)
    (scheduled : Scheduled (S.numSubcircuits params) draws before after) :
    run.UpTo 4 (Process.runAll (after.map (Command.run (onDocuments readBack))) docs) := by
  have kept : ∀ command ∈ after, ∀ docs', run.UpTo 3 docs' →
      run.UpTo 3 ((command.run (onDocuments readBack)).after docs') := by
    intro command member docs' kept
    have late := scheduled.late command member
    rcases Nat.eq_or_lt_of_le late with again | later
    · cases command with
      | startStage1 => exact challenges readable fun slot early => kept slot (by omega)
      | _ => cases again
    · exact kept.keeps readBack command later
  have first : run.UpTo 3 (Process.runAll (after.map (Command.run (onDocuments readBack))) docs) := by
    apply Process.runAll_keeps _ _ upTo
    intro p mapped docs' held
    obtain ⟨command, member, rfl⟩ := List.mem_map.mp mapped
    exact kept command member docs' held
  refine first.succ fun slot here content held => ?_
  cases slot with
  | stage1Resp i =>
    have inside : i < S.numSubcircuits params := by
      obtain ⟨_, _, size, _⟩ := run.steps
      have below : i < run.finished.responses.length := (List.getElem?_eq_some_iff.mp held).1
      omega
    rw [← held]
    refine Process.runAll_last (Command.run (onDocuments readBack)) (run.UpTo 3)
      (fun docs => docs (.stage1Resp i) = run.docs (.stage1Resp i)) after kept ?_ ?_
      (scheduled.stage1 i inside) upTo
    · intro command _ picked docs' kept
      cases command with
      | processStage1Request j rng =>
        by_cases same : j = i
        · subst same
          simp only [Command.stage1Draw, if_true, Option.some.injEq] at picked
          rw [picked]
          exact proves readable kept inside
        · simp [Command.stage1Draw, same] at picked
      | _ => cases picked
    · intro command _ other docs' _ kept
      refine (command.run_writes docs' _ fun written => ?_).trans kept
      cases command with
      | processStage1Request j rng =>
        cases written
        simp [Command.stage1Draw] at other
      | _ => cases Command.phase_of_writes written
  | _ => cases here

/-- The documents after the schedule are those of the single run. -/
theorem deployed (readable : run.Readable readBack) (upTo : run.UpTo 0 docs)
    (earlier : List (Command S))
    (scheduled : Scheduled (S.numSubcircuits params) draws before after) :
    run.UpTo 5 (Process.runAll ((schedule earlier rand before after).map
      (Command.run (onDocuments readBack))) docs) := by
  have set : run.UpTo 0 (Process.runAll (earlier.map (Command.run (onDocuments readBack))) docs) :=
    upTo.keepsAll fun command _ => by cases command <;> simp [Command.phase]
  simp only [schedule, List.map_append, List.map_cons, List.map_nil, Process.runAll_append,
    Process.runAll_cons, Process.runAll_nil]
  exact aggregates readable (provesAll readable (challenges readable
    (commitsAll readable (begins readable set) scheduled)) scheduled)

end SingleRun
/-- Each of two subcircuits reads the same address. -/
def readingCircuit : CircuitWithPortals (ZMod 3) (FreeDigest (ZMod 3)) .rom where
  numSubcircuits := 2
  generateConstraints := idleCircuit.generateConstraints
  getPortalSubtraces := .ok [[.rom ⟨0, 1⟩], [.rom ⟨0, 1⟩]]
  getUniqueSubcircuits := [0]
  representativeSubcircuit _ := .ok 0

def readingSetting : Setting (ZMod 3) (FreeDigest (ZMod 3)) MerkleTreeCircuitParams (ZMod 3)
    (ZMod 3) (ZMod 3) (ZMod 3) Unit (Witness (ZMod 3) (ZMod 3)) .rom where
  session := ⟨countingRng, unconstrainedReduction, true,
    fun prover => (allocations prover).synthesizer, fun _ _ _ => readingCircuit⟩
  gadget := freeGadget (ZMod 3)
  transcriptHash _ _ := 1
  digestFields _ := [1]
  backend _ := { scalarBackend false with
    ipp := pairIpCommitment
    tipa := openArgument (CPGroth16.scalarPairing (ZMod 3)) pairIpCommitment }
  numSubcircuits := MerkleTreeCircuitParams.numSubcircuits

/-- The key of either subcircuit, for three public inputs. -/
def readingKey : Outcome (ProvingKey (ZMod 3) (ZMod 3)) := do
  let pk ← generateParameters unconstrainedReduction (readingSetting.session.synthesizer
    (committingProver (FreeDigest (ZMod 3))
      (⟨0, [.rom ⟨0, 1⟩], [.rom ⟨0, 1⟩]⟩ : Stage0Request (ZMod 3) .rom))) unitTrapdoor
  .ok { pk with vk := { pk.vk with gammaAbcG := [1, 1, 1, 1] } }

def readingRand (_ : MerkleTreeCircuitParams) :
    CircuitWithPortals (ZMod 3) (FreeDigest (ZMod 3)) .rom × (Nat → List UInt8) :=
  (readingCircuit, fun _ => [])

/-- The whole run in memory. -/
def readingRun : Outcome Unit := do
  let pk ← readingKey
  let agg ← AggProvingKey.new pairCommitment fun _ => pk
  let state ← newStage0State readingCircuit (fun _ => []) (⟨1, 1, 1⟩ : MerkleTreeCircuitParams)
  let finished ← Driver.worker.work readingSetting.session (heldKeys (fun _ => pk) 2)
    readingSetting.gadget (treeDepth state) pairCommitment readingSetting.transcriptHash state
    twoSeeds
  let final ← intoCommittedAggState readingSetting.digestFields finished.state
  let _ ← final.genAggProof (readingSetting.backend ()) agg finished.responses
  .ok ()

theorem readingRun_ok : ∃ pk agg, readingKey = .ok pk ∧
    AggProvingKey.new pairCommitment (fun _ => pk) = .ok agg ∧
    Nonempty (SingleRun readingSetting ⟨1, 1, 1⟩ (fun _ => pk) ((), agg) readingRand twoSeeds) := by
  have ran := eq_ok_result (o := readingRun) (by decide +kernel)
  obtain ⟨pk, key, ran⟩ := bind_eq_ok.mp ran
  obtain ⟨agg, built, ran⟩ := bind_eq_ok.mp ran
  obtain ⟨state, began, ran⟩ := bind_eq_ok.mp ran
  obtain ⟨finished, worked, ran⟩ := bind_eq_ok.mp ran
  obtain ⟨final, aggregated, ran⟩ := bind_eq_ok.mp ran
  obtain ⟨proof, proved, _⟩ := bind_eq_ok.mp ran
  exact ⟨pk, agg, key, built, ⟨state, finished, final, proof, began, worked, aggregated, proved⟩⟩

end Deployment
