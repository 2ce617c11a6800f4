import Hekaton.Chaining
import Hekaton.Workers
import Mathlib

/-!
# The commitment of stage 0 in the proof of stage 1

A proof carries the commitment it was made under and is unblinded with the randomness of
that commitment, whichever driver made it. The drivers that replay the seed or keep the
builder commit to the same point twice; the one that draws a seed for stage 1 does so only
when both draws blind the commitment alike.
-/

namespace CommitmentConsistency

open LinearCombinations Outcomes ConstraintSystems CPGroth16 Transcript EvalTree SubcircuitCircuit
open Coordinator Aggregation Workers Chaining Wires

variable {F D P : Type} [Field F] [DecidableEq F] [Inhabited D] {m : MemType}
variable {G₁ G₂ Com : Type} [AddCommGroup G₁] [Module F G₁] [AddCommGroup G₂] [Module F G₂]
variable [AddCommGroup Com] [Module F Com]

/-- The scalar that the commitment is blinded with under a seed. -/
def comRandomness (rng : SeedableRng F) (comSeed : rng.Seed) : F :=
  (rng.rand (rng.fromSeed comSeed)).1

/-- The seed that `work` draws for one subcircuit, expanded to the seed of its commitment. -/
def expanded (rng : SeedableRng F) (state : rng.State) : rng.Seed :=
  (rng.gen (rng.fromSeed (rng.gen state).1)).1

/-- A commitment to one request, and the proof made under it and unblinded with it. -/
structure Proved (session : Session F D P m) (pk : ProvingKey G₁ G₂) (request : Stage0Request F m)
    (com : G₁) (randomness : F) (response : Stage1Response G₁ G₂) : Prop where
  index : response.subcircuitIdx = request.subcircuitIdx
  reported : response.proof.ds = [com]
  opened : ∃ builder circuit r s last delta₀,
    (CommitmentBuilder.new (session.synthesizer (committingProver D request)) pk).commit
      session.debug randomness = .ok (com, builder) ∧
    proveLastStage session.qap session.debug builder.cs circuit pk r s = .ok last ∧
    pk.deltasG.head? = some delta₀ ∧ response.proof.c = last.c - randomness • delta₀

/-- The commitments are the reported ones, and the challenges come from the commitment to them. -/
def Derived (gadget : TreeConfigGadget F D) (depth : Nat) (ipp : TIPPCommitment F G₁ G₂ Com)
    (transcriptHash : Com → String → F) (state₀ : CoordinatorStage0State F P m) {Seed : Type}
    (finished : Finished F D P G₁ G₂ Seed Com m) : Prop :=
  finished.state.coms = finished.committed.map (fun done => done.response.com) ∧
  ipp.commitOnlyLeft finished.state.coms = .ok finished.state.superCom ∧
  CoordinatorStage1State.new gadget depth (transcriptHash finished.state.superCom)
    state₀.timeOrderedSubtraces state₀.addrOrderedSubtraces =
      .ok finished.state.toCoordinatorStage1State

/-- Each proof carries the commitment reported for its subcircuit and is unblinded with the
randomness inside it. -/
def Consistent (session : Session F D P m) (pks : ProvingKeys G₁ G₂)
    (finished : Finished F D P G₁ G₂ session.rng.Seed Com m) : Prop :=
  ∀ i done response, finished.committed[i]? = some done →
    finished.responses[i]? = some response →
    response.subcircuitIdx = i ∧ done.response.subcircuitIdx = i ∧
    response.proof.ds[0]? = some done.response.com ∧
    ∃ pk com randomness, pks.getPk i = .ok pk ∧
      Proved session pk done.request com randomness response

/-- The draws of both stages blind the commitments alike. -/
def SameBlinding (rng : SeedableRng F) (pks : ProvingKeys G₁ G₂) (draws : Draws rng.State) :
    Prop :=
  ∀ i < pks.numSubcircuits, ∀ pk, pks.getPk i = .ok pk →
    comRandomness rng (expanded rng (draws.stage1 i)) • pk.ck.lastDeltaG =
      comRandomness rng (expanded rng (draws.stage0 i)) • pk.ck.lastDeltaG

omit [AddCommGroup G₂] [Module F G₂] in
/-- The randomness only shifts the commitment. -/
theorem commit_shift {debug : Bool} {builder builder' : CommitmentBuilder F G₁ G₂} {randomness : F}
    {com : G₁} (run : builder.commit debug randomness = .ok (com, builder')) :
    builder'.pk = builder.pk ∧ ∃ base, ∀ other : F, builder.commit debug other =
      .ok (base + other • builder.pk.ck.lastDeltaG, builder') := by
  obtain ⟨cs, ranStage, run⟩ := bind_eq_ok.mp run
  obtain ⟨_, asserted, run⟩ := bind_eq_ok.mp run
  obtain ⟨witness, current, run⟩ := bind_eq_ok.mp run
  obtain ⟨ck, found, run⟩ := bind_eq_ok.mp run
  obtain ⟨_, sizes, run⟩ := bind_eq_ok.mp run
  obtain ⟨commitment, sum, run⟩ := bind_eq_ok.mp run
  cases run
  refine ⟨rfl, commitment, fun other => ?_⟩
  rw [CommitmentBuilder.commit, ranStage, ok_bind, asserted, ok_bind, current, ok_bind, found,
    ok_bind, sizes, ok_bind, sum, ok_bind]

variable {session : Session F D P m}

omit [AddCommGroup G₂] [Module F G₂] in
/-- Under any seed the commitment is the same but for its blinding. -/
theorem commitWithSeed_shift {pk : ProvingKey G₁ G₂} {request : Stage0Request F m}
    {comSeed : session.rng.Seed} {com : G₁} {cb : CommitterState F G₁ G₂ m}
    (run : session.commitWithSeed pk request comSeed = .ok (com, cb)) :
    cb.request = request ∧ cb.builder.pk = pk ∧
    (CommitmentBuilder.new (session.synthesizer (committingProver D request)) pk).commit
      session.debug (comRandomness session.rng comSeed) = .ok (com, cb.builder) ∧
    ∃ base, ∀ other, session.commitWithSeed pk request other =
      .ok (base + comRandomness session.rng other • pk.ck.lastDeltaG, cb) := by
  rw [Session.commitWithSeed] at run
  split at run
  · cases run
  · rename_i com' builder committed
    cases run
    obtain ⟨same, base, shifted⟩ := commit_shift committed
    refine ⟨rfl, same, committed, base, fun other => ?_⟩
    rw [Session.commitWithSeed, shifted]
    rfl

/-- A proof carries the commitment it is given and is unblinded with the given scalar. -/
theorem withCb_proved {pk : ProvingKey G₁ G₂} {request : Stage0Request F m} {com : G₁}
    {randomness : F} {cb : CommitterState F G₁ G₂ m} {rng : session.rng.State}
    {req : CircuitRequest F D P m} {response : Stage1Response G₁ G₂}
    (committed : (CommitmentBuilder.new (session.synthesizer (committingProver D request)) pk).commit
      session.debug randomness = .ok (com, cb.builder)) (key : cb.builder.pk = pk)
    (requested : cb.request = request)
    (run : session.processStage1RequestWithCb rng cb com randomness req = .ok response) :
    Proved session pk request com randomness response := by
  obtain ⟨circuit, _, run⟩ := bind_eq_ok.mp run
  obtain ⟨_, same, run⟩ := bind_eq_ok.mp run
  obtain ⟨proof, proved, run⟩ := bind_eq_ok.mp run
  cases run
  have index : req.subcircuitIdx = request.subcircuitIdx := by
    rw [assertEq] at same
    split at same
    · rename_i equal
      rw [← equal, requested]
    · cases same
  have unwrapped : ∀ o : Outcome (Proof G₁ G₂), unwrap o = .ok proof → o = .ok proof := by
    intro o h
    cases o with
    | error fault => cases h
    | ok other => exact h
  obtain ⟨last, ranLast, rest⟩ := bind_eq_ok.mp (unwrapped _ proved)
  obtain ⟨_, sizes, rest⟩ := bind_eq_ok.mp rest
  cases rest
  rw [key] at ranLast sizes
  obtain ⟨delta₀, deltas, split⟩ : ∃ delta₀ deltas, pk.deltasG = delta₀ :: deltas := by
    rw [assertEq] at sizes
    split at sizes
    · rename_i size
      exact List.exists_cons_of_length_eq_add_one size
    · cases sizes
  refine ⟨index, rfl, cb.builder, circuit, _, _, last, delta₀, committed, ranLast, ?_, ?_⟩
  · rw [split, List.head?_cons]
  · change last.c - msmUnchecked cb.builder.pk.deltasG [randomness] = _
    rw [key, split, msmUnchecked, dot_cons]
    simp

/-- What stage 0 leaves: the reported commitment, made under some seed. -/
structure Reported (session : Session F D P m) (pk : ProvingKey G₁ G₂) (request : Stage0Request F m)
    (comSeed : session.rng.Seed) (cb : CommitterState F G₁ G₂ m)
    (response : Stage0Response G₁ session.rng.Seed) : Prop where
  seed : response.comSeed = comSeed
  committed : session.commitWithSeed pk request comSeed = .ok (response.com, cb)
  index : response.subcircuitIdx = request.subcircuitIdx

omit [AddCommGroup G₂] [Module F G₂] in
theorem getCb_reported {pk : ProvingKey G₁ G₂} {request : Stage0Request F m}
    {rng rng' : session.rng.State} {response : Stage0Response G₁ session.rng.Seed}
    {cb : CommitterState F G₁ G₂ m}
    (run : session.processStage0RequestGetCb rng pk request = .ok ((response, cb), rng')) :
    Reported session pk request (session.rng.gen rng).1 cb response := by
  obtain ⟨⟨com, cb'⟩, committed, run⟩ := bind_eq_ok.mp run
  cases run
  refine ⟨rfl, ?_, rfl⟩
  cases made : session.commitWithSeed pk request (session.rng.gen rng).1 with
  | error fault =>
    rw [made] at committed
    cases committed
  | ok pair =>
    rw [made] at committed
    cases committed
    rfl

omit [AddCommGroup G₂] [Module F G₂] in
theorem workerStage0_reported {pks : ProvingKeys G₁ G₂} {request : Stage0Request F m}
    {rng rng' : session.rng.State} {response : Stage0Response G₁ session.rng.Seed}
    {state : WorkerState F G₁ G₂ m}
    (run : (WorkerState.new m pks).stage0 session rng request = .ok ((response, state), rng')) :
    ∃ pk cb, pks.getPk request.subcircuitIdx = .ok pk ∧
      Reported session pk request (session.rng.gen rng).1 cb response ∧
      state = ⟨pks, some cb, response.com, comRandomness session.rng (session.rng.gen rng).1⟩ := by
  obtain ⟨pk, key, run⟩ := bind_eq_ok.mp run
  obtain ⟨⟨⟨resp, cb⟩, rng''⟩, got, run⟩ := bind_eq_ok.mp run
  cases run
  have reported := getCb_reported got
  refine ⟨pk, cb, key, reported, ?_⟩
  rw [comRandomness, ← reported.seed]
  rfl

/-- The state of a worker proves under its own commitment. -/
theorem workerStage1_proved {pks : ProvingKeys G₁ G₂} {pk : ProvingKey G₁ G₂}
    {request : Stage0Request F m} {comSeed : session.rng.Seed} {rng : session.rng.State}
    {cb : CommitterState F G₁ G₂ m} {response₀ : Stage0Response G₁ session.rng.Seed}
    {req : CircuitRequest F D P m} {response : Stage1Response G₁ G₂}
    (reported : Reported session pk request comSeed cb response₀)
    (run : (⟨pks, some cb, response₀.com, comRandomness session.rng comSeed⟩ :
      WorkerState F G₁ G₂ m).stage1 session rng req = .ok response) :
    Proved session pk request response₀.com (comRandomness session.rng comSeed) response := by
  obtain ⟨requested, key, committed, _⟩ := commitWithSeed_shift reported.committed
  exact withCb_proved committed key requested run

/-- The seed of the commitment that stage 0 reports. -/
def reportedSeed (driver : Driver) (rng : SeedableRng F) (state : rng.State) : rng.Seed :=
  match driver with
  | .allInOne => expanded rng state
  | _ => (rng.gen state).1

omit [AddCommGroup G₂] [Module F G₂] in
theorem stage0_reported {driver : Driver} {pks : ProvingKeys G₁ G₂} {rng : session.rng.State}
    {request : Stage0Request F m} {done : Committed F G₁ G₂ session.rng.Seed m}
    (run : driver.stage0 session pks rng request = .ok done) :
    done.request = request ∧ ∃ pk cb, pks.getPk request.subcircuitIdx = .ok pk ∧
      Reported session pk request (reportedSeed driver session.rng rng) cb done.response ∧
      (driver = .mpi → done.kept = some ⟨pks, some cb, done.response.com,
        comRandomness session.rng (session.rng.gen rng).1⟩) := by
  cases driver with
  | worker =>
    obtain ⟨pk, key, run⟩ := bind_eq_ok.mp run
    obtain ⟨response, processed, run⟩ := bind_eq_ok.mp run
    cases run
    obtain ⟨⟨⟨resp, cb⟩, rng'⟩, got, same⟩ := bind_eq_ok.mp processed
    cases same
    exact ⟨rfl, pk, cb, key, getCb_reported got, fun other => nomatch other⟩
  | mpi =>
    obtain ⟨⟨⟨resp, state⟩, rng'⟩, ran, run⟩ := bind_eq_ok.mp run
    cases run
    obtain ⟨pk, cb, key, reported, rfl⟩ := workerStage0_reported ran
    exact ⟨rfl, pk, cb, key, reported, fun _ => rfl⟩
  | allInOne =>
    obtain ⟨⟨⟨resp, state⟩, rng'⟩, ran, run⟩ := bind_eq_ok.mp run
    cases run
    obtain ⟨pk, cb, key, reported, _⟩ := workerStage0_reported ran
    exact ⟨rfl, pk, cb, key, reported, fun other => nomatch other⟩

/-- The commitment in the proof is the reported one, unless the driver drew a new seed that
blinds it differently. -/
theorem stage1_proved {driver : Driver} {pks : ProvingKeys G₁ G₂} {rng₀ rng₁ : session.rng.State}
    {request : Stage0Request F m} {done : Committed F G₁ G₂ session.rng.Seed m}
    {req : CircuitRequest F D P m} {response : Stage1Response G₁ G₂}
    (before : driver.stage0 session pks rng₀ request = .ok done)
    (index : request.subcircuitIdx = req.subcircuitIdx)
    (run : driver.stage1 session pks rng₁ done req = .ok response) :
    ∃ pk com randomness, pks.getPk request.subcircuitIdx = .ok pk ∧
      Proved session pk done.request com randomness response ∧
      (com = done.response.com ↔ (driver = .allInOne →
        comRandomness session.rng (expanded session.rng rng₁) • pk.ck.lastDeltaG =
          comRandomness session.rng (expanded session.rng rng₀) • pk.ck.lastDeltaG)) := by
  obtain ⟨rfl, pk, cb, key, reported, kept⟩ := stage0_reported before
  have made := reported.committed
  cases driver with
  | worker =>
    obtain ⟨pk', key', run⟩ := bind_eq_ok.mp run
    rw [← index, key] at key'
    cases key'
    obtain ⟨⟨com, cb'⟩, again, run⟩ := bind_eq_ok.mp run
    rw [reported.seed, made] at again
    cases again
    obtain ⟨requested, builderKey, committed, _⟩ := commitWithSeed_shift made
    rw [← reported.seed] at committed
    refine ⟨pk, _, _, key, withCb_proved committed builderKey requested run, ?_⟩
    exact ⟨fun _ other => (nomatch other), fun _ => rfl⟩
  | mpi =>
    obtain ⟨state, found, run⟩ := bind_eq_ok.mp run
    rw [kept rfl] at found
    cases found
    refine ⟨pk, _, _, key, workerStage1_proved reported run, ?_⟩
    exact ⟨fun _ other => (nomatch other), fun _ => rfl⟩
  | allInOne =>
    obtain ⟨⟨⟨resp, state⟩, rng'⟩, ran, run⟩ := bind_eq_ok.mp run
    obtain ⟨pk', cb', key', again, rfl⟩ := workerStage0_reported ran
    rw [key] at key'
    cases key'
    refine ⟨pk, _, _, key, workerStage1_proved again run, ?_⟩
    obtain ⟨_, _, _, base, shifted⟩ := commitWithSeed_shift made
    have first := (shifted (expanded session.rng rng₀)).symm.trans made
    have second := (shifted (expanded session.rng rng₁)).symm.trans again.committed
    have blinded₀ := congrArg Prod.fst (Except.ok.inj first)
    have blinded₁ := congrArg Prod.fst (Except.ok.inj second)
    dsimp only at blinded₀ blinded₁
    rw [← blinded₀, ← blinded₁, add_right_inj]
    exact ⟨fun same _ => same, fun same => same rfl⟩

/-- Responses that come in the order of their subcircuits are sorted already. -/
theorem sorted_responses {G Seed : Type} {responses : List (Stage0Response G Seed)}
    (indexed : ∀ (i : Nat) response, responses[i]? = some response →
      response.subcircuitIdx = i) :
    responses.insertionSort indexLe = responses := by
  refine List.Pairwise.insertionSort_eq (List.pairwise_iff_getElem.mpr ?_)
  intro i j hi hj below
  have first := indexed i _ (List.getElem?_eq_getElem hi)
  have second := indexed j _ (List.getElem?_eq_getElem hj)
  rw [indexLe, first, second]
  exact Nat.le_of_lt below

/-- The results of a loop over the first numbers, position by position. -/
theorem getElem?_of_mapM {α : Type} {f : Nat → Outcome α} {n : Nat} {results : List α}
    (run : (List.range n).mapM f = .ok results) :
    results.length = n ∧ ∀ i a, results[i]? = some a → i < n ∧ f i = .ok a := by
  have all := forall₂_of_mapM run
  have size := all.length_eq
  rw [List.length_range] at size
  refine ⟨size.symm, fun i a found => ?_⟩
  obtain ⟨inside, rfl⟩ := List.getElem?_eq_some_iff.mp found
  have here := all.get (by rw [List.length_range]; omega) inside
  refine ⟨by omega, ?_⟩
  simpa using here

omit [DecidableEq F] [Inhabited D] in
/-- A request of stage 1 is for the subcircuit it is made for. -/
theorem genRequest_index {state : CoordinatorStage1State F D m} {i : Nat}
    {request : Stage1Request F D m} (run : state.genRequest i = .ok request) :
    request.subcircuitIdx = i := by
  have last : ∀ leaf, (expect Coordinator.outOfBounds state.execTreeLeafAuthPaths[i]?).bind
      (fun path => (.ok ⟨i, leaf, path, state.execTreeRoot⟩ : Outcome (Stage1Request F D m))) =
        .ok request → request.subcircuitIdx = i := by
    intro leaf ran
    obtain ⟨path, _, ran⟩ := bind_eq_ok.mp ran
    exact (congrArg Stage1Request.subcircuitIdx (Except.ok.inj ran)).symm
  rw [CoordinatorStage1State.genRequest] at run
  split at run
  · obtain ⟨leaf, _, run⟩ := bind_eq_ok.mp run
    exact last _ run
  · obtain ⟨first, _, run⟩ := bind_eq_ok.mp run
    exact last _ run

/-- What a finished run says about the subcircuit at one position. -/
structure RanAt (session : Session F D P m) (driver : Driver) (pks : ProvingKeys G₁ G₂)
    (draws : Draws session.rng.State) (finished : Finished F D P G₁ G₂ session.rng.Seed Com m)
    (i : Nat) (done : Committed F G₁ G₂ session.rng.Seed m) (response : Stage1Response G₁ G₂) :
    Prop where
  found : finished.committed[i]? = some done
  answered : finished.responses[i]? = some response
  index : done.request.subcircuitIdx = i
  index' : done.response.subcircuitIdx = i
  committed : driver.stage0 session pks (draws.stage0 i) done.request = .ok done
  proved : ∃ req, req.subcircuitIdx = i ∧
    driver.stage1 session pks (draws.stage1 i) done req = .ok response

variable {driver : Driver} {pks : ProvingKeys G₁ G₂} {gadget : TreeConfigGadget F D} {depth : Nat}
variable {ipp : TIPPCommitment F G₁ G₂ Com} {transcriptHash : Com → String → F}
variable {state₀ : CoordinatorStage0State F P m} {draws : Draws session.rng.State}
variable {finished : Finished F D P G₁ G₂ session.rng.Seed Com m}

omit [DecidableEq F] in
/-- Responses in the order of their subcircuits are processed in that order. -/
theorem derived_of_processed {Seed : Type} {committed : List (Committed F G₁ G₂ Seed m)}
    {state : CommittedState F D P G₁ Seed Com m}
    {requests : List (CircuitRequest F D P m)} {responses : List (Stage1Response G₁ G₂)}
    (processed : state₀.processStage0Responses gadget depth ipp transcriptHash
      (committed.map Committed.response) = .ok state)
    (indexed : ∀ (i : Nat) done, committed[i]? = some done → done.response.subcircuitIdx = i) :
    Derived gadget depth ipp transcriptHash state₀
      (⟨committed, state, requests, responses⟩ : Finished F D P G₁ G₂ Seed Com m) := by
  obtain ⟨superCom, combined, processed⟩ := bind_eq_ok.mp processed
  obtain ⟨inner, made, processed⟩ := bind_eq_ok.mp processed
  cases processed
  have ordered : (committed.map Committed.response).insertionSort indexLe =
      committed.map Committed.response := by
    refine sorted_responses fun i response found => ?_
    rw [List.getElem?_map, Option.map_eq_some_iff] at found
    obtain ⟨done, here, rfl⟩ := found
    exact indexed i done here
  refine ⟨?_, combined, made⟩
  dsimp only
  rw [ordered, List.map_map]
  rfl

theorem ranAt_of_work (ran : driver.work session pks gadget depth ipp transcriptHash state₀ draws =
      .ok finished) :
    Derived gadget depth ipp transcriptHash state₀ finished ∧
    (∀ i < pks.numSubcircuits, ∃ done response, RanAt session driver pks draws finished i done
      response) ∧ finished.committed.length = pks.numSubcircuits := by
  obtain ⟨committed, stage0, ran⟩ := bind_eq_ok.mp ran
  obtain ⟨state, processed, ran⟩ := bind_eq_ok.mp ran
  obtain ⟨requests, requested, ran⟩ := bind_eq_ok.mp ran
  obtain ⟨responses, stage1, ran⟩ := bind_eq_ok.mp ran
  cases ran
  obtain ⟨size, ranStage0⟩ := getElem?_of_mapM stage0
  obtain ⟨size', ranRequest⟩ := getElem?_of_mapM requested
  have answered := forall₂_of_mapM stage1
  have each : ∀ i done, committed[i]? = some done → done.request.subcircuitIdx = i ∧
      driver.stage0 session pks (draws.stage0 i) done.request = .ok done ∧
      done.response.subcircuitIdx = i := by
    intro i done found
    obtain ⟨request, generated, ranHere⟩ := bind_eq_ok.mp (ranStage0 i done found).2
    obtain ⟨rfl, pk, cb, _, reported, _⟩ := stage0_reported ranHere
    obtain ⟨time, _, generated⟩ := bind_eq_ok.mp generated
    obtain ⟨addr, _, generated⟩ := bind_eq_ok.mp generated
    have index : done.request.subcircuitIdx = i :=
      (congrArg Stage0Request.subcircuitIdx (Except.ok.inj generated)).symm
    exact ⟨index, ranHere, reported.index.trans index⟩
  have derived : Derived gadget depth ipp transcriptHash state₀
      (⟨committed, state, requests, responses⟩ : Finished F D P G₁ G₂ session.rng.Seed Com m) :=
    derived_of_processed processed fun i done found => (each i done found).2.2
  refine ⟨derived, fun i inside => ?_, size⟩
  have pairs : ((committed.zip requests).zipIdx).length = pks.numSubcircuits := by
    rw [List.length_zipIdx, List.length_zip, size, size', Nat.min_self]
  have here : i < committed.length := by omega
  have here' : i < requests.length := by omega
  have last : i < responses.length := by
    rw [← answered.length_eq, pairs]
    exact inside
  have ranHere := answered.get (by rw [pairs]; exact inside) last
  obtain ⟨index, ranFirst, index'⟩ := each i _ (List.getElem?_eq_getElem here)
  refine ⟨committed[i], responses[i], List.getElem?_eq_getElem here, List.getElem?_eq_getElem last,
    index, index', ranFirst, requests[i], ?_, ?_⟩
  · obtain ⟨request, generated, rest⟩ := bind_eq_ok.mp
      (ranRequest i _ (List.getElem?_eq_getElem here')).2
    obtain ⟨witnesses, _, rest⟩ := bind_eq_ok.mp rest
    rw [← Except.ok.inj rest]
    exact genRequest_index generated
  · simpa using ranHere

/-- In every driver the challenges are derived from the reported commitments. The proofs
carry them too but where a seed is drawn for stage 1, and there exactly when both draws blind
the commitments alike. -/
theorem consistent_iff (ran : driver.work session pks gadget depth ipp transcriptHash state₀ draws =
      .ok finished) :
    Derived gadget depth ipp transcriptHash state₀ finished ∧
    (Consistent session pks finished ↔
      (driver = .allInOne → SameBlinding session.rng pks draws)) := by
  obtain ⟨derived, each, size⟩ := ranAt_of_work ran
  refine ⟨derived, ?_, ?_⟩
  · rintro consistent rfl i inside pk key
    obtain ⟨done, response, here⟩ := each i inside
    obtain ⟨req, index, ranStage1⟩ := here.proved
    obtain ⟨pk', com, randomness, key', proved, same⟩ :=
      stage1_proved here.committed (here.index.trans index.symm) ranStage1
    obtain ⟨_, _, reported, _⟩ := consistent i done response here.found here.answered
    rw [here.index, key] at key'
    cases key'
    rw [proved.reported] at reported
    exact same.mp (Option.some.inj reported) rfl
  · intro blinding i done response found answered
    have inside : i < pks.numSubcircuits := by
      obtain ⟨below, _⟩ := List.getElem?_eq_some_iff.mp found
      omega
    obtain ⟨done', response', here⟩ := each i inside
    cases here.found.symm.trans found
    cases here.answered.symm.trans answered
    obtain ⟨req, index, ranStage1⟩ := here.proved
    obtain ⟨pk, com, randomness, key, proved, same⟩ :=
      stage1_proved here.committed (here.index.trans index.symm) ranStage1
    rw [here.index] at key
    have equal := same.mpr fun all => blinding all i inside pk key
    refine ⟨proved.index.trans here.index, here.index', ?_, pk, com, randomness, key, proved⟩
    rw [proved.reported, equal]
    rfl

/-- A generator that counts up from its seed. -/
def countingRng : SeedableRng (ZMod 3) where
  Seed := ZMod 3
  State := ZMod 3
  fromSeed seed := seed
  gen state := (state, state + 1)
  rand state := (state, state + 1)

/-- The libsnark reduction of a system with no inputs and no constraints. -/
def unconstrainedReduction : R1CSToQAP (ZMod 3) where
  newDomain size := if size ≤ 1 then some [1] else none
  instanceMapWithEvaluation cs t :=
    .ok ⟨1 :: List.replicate cs.numWitnessVariables 0, List.replicate (1 + cs.numWitnessVariables) 0,
      List.replicate (1 + cs.numWitnessVariables) 0, t - 1, cs.numWitnessVariables, 1⟩
  witnessMap _ := .ok [0]
  hQueryScalars maxPower t zt deltaInverse :=
    .ok ((List.range maxPower).map fun i => zt * deltaInverse * t ^ i)

theorem scopedSteps_newWitness {F : Type} (n m : Nat) (values : List F) :
    ScopedSteps n m (values.map .newWitness) := by
  induction values generalizing m with
  | nil => trivial
  | cons value values ih => exact ih (m + 1)

/-- Stage 0 allocates the values of both subtraces, stage 1 an evaluation of the leaf. -/
def allocations (prover : SubcircuitWithPortalsProver (ZMod 3) (FreeDigest (ZMod 3)) .rom) :
    StagedCircuit (ZMod 3) where
  stages := [(prover.timeOrderedSubtrace.map Entry.value ++
      prover.addrOrderedSubtrace.map Entry.value).map .newWitness,
    [prover.curLeaf.evals.timeOrderedEval].map .newWitness]
  inScope := by
    rw [List.flatten_cons, List.flatten_singleton, ← List.map_append]
    exact scopedSteps_newWitness 1 0 _

def countingSession : Session (ZMod 3) (FreeDigest (ZMod 3)) Unit .rom where
  rng := countingRng
  qap := unconstrainedReduction
  debug := true
  synthesizer prover := (allocations prover).synthesizer
  rebuild _ _ _ := idleCircuit

/-- One read of each of two subcircuits. -/
def oneRead : CoordinatorStage0State (ZMod 3) Unit .rom where
  timeOrderedSubtraces := [[.rom ⟨0, 1⟩], [.rom ⟨0, 1⟩]]
  addrOrderedSubtraces := [[.rom ⟨0, 1⟩], [.rom ⟨0, 1⟩]]
  allSerializedWitnesses := [[], []]
  circParams := ()

def unitTrapdoor : Trapdoor (ZMod 3) (ZMod 3) (ZMod 3) where
  alpha := 1
  beta := -1
  gamma := 1
  deltas i := if i = 0 then 1 else -1
  g1Generator := 1
  g2Generator := 1
  t := -1

/-- The keys of both subcircuits, which have one shape. -/
def oneReadKeys : Outcome (ProvingKeys (ZMod 3) (ZMod 3)) := do
  let request ← oneRead.genRequest 0
  let pk ← generateParameters unconstrainedReduction
    (countingSession.synthesizer (committingProver (FreeDigest (ZMod 3)) request)) unitTrapdoor
  .ok ⟨fun _ => some pk, [0, 0]⟩

/-- Stage 0 draws from the seed 0 in every subcircuit, stage 1 from the seed 1. -/
def twoSeeds : Draws (ZMod 3) := ⟨fun _ => 0, fun _ => 1⟩

def oneReadRun (driver : Driver) (pks : ProvingKeys (ZMod 3) (ZMod 3)) : Outcome (Finished (ZMod 3)
    (FreeDigest (ZMod 3)) Unit (ZMod 3) (ZMod 3) (ZMod 3) (ZMod 3) .rom) :=
  driver.work countingSession pks (freeGadget (ZMod 3)) 1 pairCommitment (fun _ _ => 1) oneRead
    twoSeeds

theorem oneRead_replayed : ∃ pks finished, oneReadKeys = .ok pks ∧
    oneReadRun .worker pks = .ok finished ∧ Consistent countingSession pks finished := by
  have keys := eq_ok_result (o := oneReadKeys) (by decide +kernel)
  have ran := eq_ok_result (o := oneReadRun .worker (result oneReadKeys (by decide +kernel)))
    (by decide +kernel)
  exact ⟨_, _, keys, ran, (consistent_iff ran).2.mpr fun other => nomatch other⟩

/-- The proof of subcircuit 0 carries a commitment that was not reported. -/
theorem oneRead_redrawn : ∃ pks finished, oneReadKeys = .ok pks ∧
    oneReadRun .allInOne pks = .ok finished ∧ ¬ Consistent countingSession pks finished := by
  have keys := eq_ok_result (o := oneReadKeys) (by decide +kernel)
  have ran := eq_ok_result (o := oneReadRun .allInOne (result oneReadKeys (by decide +kernel)))
    (by decide +kernel)
  refine ⟨_, _, keys, ran, fun consistent => ?_⟩
  have coms : (oneReadRun .allInOne (result oneReadKeys (by decide +kernel))).map (fun finished =>
      (finished.committed[0]?.map fun done => done.response.com,
        finished.responses[0]?.map fun response => response.proof.ds)) =
      .ok (some 0, some [2]) := by
    decide +kernel
  rw [ran, Except.map, Except.ok.injEq, Prod.mk.injEq, Option.map_eq_some_iff,
    Option.map_eq_some_iff] at coms
  obtain ⟨⟨done, found, com⟩, response, answered, ds⟩ := coms
  obtain ⟨_, _, reported, _⟩ := consistent 0 done response found answered
  rw [com, ds] at reported
  exact absurd reported (by decide)

end CommitmentConsistency
