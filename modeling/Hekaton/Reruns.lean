import Hekaton.Deployment

/-!
# Commands that are started again

A worker that repeats stage 0 draws another seed, and its response replaces the one that the
challenges may have been derived from already. Whatever the order of the commands, the proof
of a subcircuit carries the commitment of the response that it was made from, and that is the
one under the commitment to them all exactly when both draws blind it alike.
-/

namespace Reruns

open LinearCombinations Outcomes CPGroth16 Transcript EvalTree SubcircuitCircuit Coordinator
open Aggregation Workers SubcircuitAggregation CommitmentConsistency ResponseOrder
open Processes Documents Deployment TreeHashCircuit

/-- For each subcircuit the draw of its last stage 0, the one of the stage 0 that the challenges
were derived from last, and the one of the stage 0 that its last proof was made from. -/
structure Progress (State : Type) where
  committed : Nat → Option State
  challenged : Nat → Option State
  proved : Nat → Option State
  asked : Bool

variable {F D P G₁ G₂ GT Com K Pf : Type} [Field F] [AddCommGroup G₁] [Module F G₁]
variable [AddCommGroup G₂] [Module F G₂] [AddCommGroup GT] [Module F GT]
variable [AddCommGroup Com] [Module F Com] {m : MemType} {S : Setting F D P G₁ G₂ GT Com K Pf m}

def Progress.step (progress : Progress S.session.rng.State) :
    Command S → Progress S.session.rng.State
  | .processStage0Request i rng =>
    { progress with committed := Function.update progress.committed i (some rng) }
  | .startStage1 => { progress with challenged := progress.committed, asked := true }
  | .processStage1Request i _ =>
    { progress with proved := Function.update progress.proved i (progress.committed i) }
  | _ => progress

def Progress.none (State : Type) : Progress State :=
  ⟨fun _ => .none, fun _ => .none, fun _ => .none, false⟩

def progressOf (commands : List (Command S)) : Progress S.session.rng.State :=
  commands.foldl Progress.step (.none _)

/-- The scalar that a draw of stage 0 blinds the commitment with. -/
def blinding (rng : SeedableRng F) (state : rng.State) : F :=
  comRandomness rng (rng.gen state).1

variable [DecidableEq F] [Inhabited D] [DecidableEq GT]

/-- Commands over documents that are read back as they were saved. -/
def runExactly (command : Command S) : Process Fault (Docs S.Content) Unit :=
  command.run (onDocuments fun _ content => some content)

/-- What a worker answers in stage 0 from these keys and requests. -/
def Answers (docs : Docs S.Content) (i : Nat) (rng : S.session.rng.State)
    (resp : Stage0Response G₁ S.session.rng.Seed) : Prop :=
  ∃ pk req, docs (.g16Pk i) = some pk ∧ docs (.stage0Req i) = some req ∧
    Stage0Request.subcircuitIdx req = i ∧ S.session.processStage0Request rng pk req = .ok resp

variable {docs docs' start : Docs S.Content} {i : Nat} {rng : S.session.rng.State}

theorem stage0_eq_ok (succeeded : runExactly (.processStage0Request i rng) docs = (.ok (), docs')) :
    ∃ resp, Answers docs i rng resp ∧ docs' (.stage0Resp i) = some resp := by
  obtain ⟨pk, _, loaded, ran₁⟩ := Process.bind_eq_ok.mp succeeded
  obtain ⟨key, rfl⟩ := load_eq_ok.mp loaded
  obtain ⟨req, _, loaded, ran₂⟩ := Process.bind_eq_ok.mp ran₁
  obtain ⟨request, rfl⟩ := load_eq_ok.mp loaded
  obtain ⟨_, _, lifted, ran₃⟩ := Process.bind_eq_ok.mp ran₂
  obtain ⟨checked, rfl⟩ := Process.lift_eq_ok.mp lifted
  obtain ⟨resp, _, lifted, ran₄⟩ := Process.bind_eq_ok.mp ran₃
  obtain ⟨answered, rfl⟩ := Process.lift_eq_ok.mp lifted
  have index : Stage0Request.subcircuitIdx req = i := by
    rw [assertEq] at checked
    split at checked
    · assumption
    · cases checked
  refine ⟨resp, ⟨pk, req, key, request, index, answered⟩, ?_⟩
  exact (congrFun (save_eq_ok ran₄) _).trans (put_self _ _ _)

theorem stage1_eq_ok (succeeded : runExactly (.processStage1Request i rng) docs = (.ok (), docs')) :
    ∃ (pk : ProvingKey G₁ G₂) (req : Stage0Request F m)
      (resp₀ : Stage0Response G₁ S.session.rng.Seed) (req₁ : CircuitRequest F D P m)
      (resp : Stage1Response G₁ G₂), docs (.g16Pk i) = some pk ∧ docs (.stage0Req i) = some req ∧
      docs (.stage0Resp i) = some resp₀ ∧
      S.session.processStage1Request rng pk req resp₀ req₁ = .ok resp ∧
      docs' (.stage1Resp i) = some resp := by
  obtain ⟨pk, _, loaded, ran₁⟩ := Process.bind_eq_ok.mp succeeded
  obtain ⟨key, rfl⟩ := load_eq_ok.mp loaded
  obtain ⟨req, _, loaded, ran₂⟩ := Process.bind_eq_ok.mp ran₁
  obtain ⟨request, rfl⟩ := load_eq_ok.mp loaded
  obtain ⟨resp₀, _, loaded, ran₃⟩ := Process.bind_eq_ok.mp ran₂
  obtain ⟨response, rfl⟩ := load_eq_ok.mp loaded
  obtain ⟨req₁, _, loaded, ran₄⟩ := Process.bind_eq_ok.mp ran₃
  obtain ⟨_, rfl⟩ := load_eq_ok.mp loaded
  obtain ⟨resp, _, lifted, ran₅⟩ := Process.bind_eq_ok.mp ran₄
  obtain ⟨answered, rfl⟩ := Process.lift_eq_ok.mp lifted
  refine ⟨pk, req, resp₀, req₁, resp, key, request, response, answered, ?_⟩
  exact (congrFun (save_eq_ok ran₅) _).trans (put_self _ _ _)

/-- What the processing of the responses leaves. -/
structure Processed (docs docs' : Docs S.Content) (params : P)
    (aggCk : K × AggProvingKey G₁ G₂ Com) (resps : List (Stage0Response G₁ S.session.rng.Seed))
    (newState : CommittedState F D P G₁ S.session.rng.Seed Com m)
    (final : CommittedAggState F Com) : Prop where
  paramsHeld : docs .testCircParams = some params
  aggCkHeld : docs .aggCk = some aggCk
  size : resps.length = S.numSubcircuits params
  respsHeld : ∀ i resp, resps[i]? = some resp → docs (.stage0Resp i) = some resp
  processed : ∃ state : CoordinatorStage0State F P m,
    state.processStage0Responses S.gadget (treeDepth state)
      (S.backend aggCk.1).ipp.toTIPPCommitment S.transcriptHash resps = .ok newState
  finalHeld : docs' .finalAggState = some final
  superCom : final.superCom = newState.superCom

theorem startStage1_eq_ok (succeeded : runExactly .startStage1 docs = (.ok (), docs')) :
    ∃ params aggCk resps newState final,
      Processed docs docs' params aggCk resps newState final := by
  obtain ⟨params, _, loaded, ran₁⟩ := Process.bind_eq_ok.mp succeeded
  obtain ⟨params_held, rfl⟩ := load_eq_ok.mp loaded
  obtain ⟨state, _, loaded, ran₂⟩ := Process.bind_eq_ok.mp ran₁
  obtain ⟨_, rfl⟩ := load_eq_ok.mp loaded
  obtain ⟨aggCk, _, loaded, ran₃⟩ := Process.bind_eq_ok.mp ran₂
  obtain ⟨aggCk_held, rfl⟩ := load_eq_ok.mp loaded
  obtain ⟨resps, _, loaded, ran₄⟩ := Process.bind_eq_ok.mp ran₃
  obtain ⟨rfl, size, held⟩ := Process.mapM_range_eq_ok (fun _ _ => rfl) loaded
  obtain ⟨newState, _, lifted, ran₅⟩ := Process.bind_eq_ok.mp ran₄
  obtain ⟨processed, rfl⟩ := Process.lift_eq_ok.mp lifted
  obtain ⟨reqs, _, lifted, ran₆⟩ := Process.bind_eq_ok.mp ran₅
  obtain ⟨_, rfl⟩ := Process.lift_eq_ok.mp lifted
  obtain ⟨_, docs₁, _, ran₇⟩ := Process.bind_eq_ok.mp ran₆
  obtain ⟨final, _, lifted, ran₈⟩ := Process.bind_eq_ok.mp ran₇
  obtain ⟨made, rfl⟩ := Process.lift_eq_ok.mp lifted
  obtain ⟨inner, _, made⟩ := bind_eq_ok.mp made
  cases made
  refine ⟨params, aggCk, resps, newState, _, params_held, aggCk_held, size, fun i resp found => ?_,
    ⟨state, processed⟩, (congrFun (save_eq_ok ran₈) _).trans (put_self _ _ _), rfl⟩
  exact (load_eq_ok.mp (held i resp found)).1

omit [DecidableEq GT] in
/-- The commitments of two draws differ by what blinds them. -/
theorem coms_eq_iff {resp resp' : Stage0Response G₁ S.session.rng.Seed} {pk : ProvingKey G₁ G₂}
    {req : Stage0Request F m} {rng rng' : S.session.rng.State}
    (committed : S.session.processStage0Request rng pk req = .ok resp)
    (committed' : S.session.processStage0Request rng' pk req = .ok resp') :
    resp'.com = resp.com ↔ blinding S.session.rng rng' • pk.ck.lastDeltaG =
      blinding S.session.rng rng • pk.ck.lastDeltaG := by
  obtain ⟨⟨⟨_, cb⟩, _⟩, got, same⟩ := bind_eq_ok.mp committed
  cases same
  obtain ⟨⟨⟨_, cb'⟩, _⟩, got', same⟩ := bind_eq_ok.mp committed'
  cases same
  have made := (getCb_reported got).committed
  have made' := (getCb_reported got').committed
  obtain ⟨_, _, _, base, shifted⟩ := commitWithSeed_shift made
  have first := congrArg Prod.fst (Except.ok.inj ((shifted _).symm.trans made))
  have second := congrArg Prod.fst (Except.ok.inj ((shifted _).symm.trans made'))
  dsimp only at first second
  rw [← first, ← second, add_right_inj]
  rfl

/-- The commitments under the commitment to them all are those of these draws. -/
def Challenged (start docs : Docs S.Content) (draws : Nat → Option S.session.rng.State) : Prop :=
  ∃ (params : P) (aggCk : K × AggProvingKey G₁ G₂ Com) (final : CommittedAggState F Com)
    (coms : List G₁), start .testCircParams = some params ∧ start .aggCk = some aggCk ∧
    docs .finalAggState = some final ∧ final.superCom = (S.backend aggCk.1).ipp.left coms ∧
    coms.length = S.numSubcircuits params ∧ ∀ i < S.numSubcircuits params, ∃ rng resp,
      draws i = some rng ∧ Answers start i rng resp ∧ coms[i]? = some resp.com

/-- The documents after commands, by what the commands drew. -/
structure Tracks (start docs : Docs S.Content) (progress : Progress S.session.rng.State) :
    Prop where
  kept : ∀ slot, slot.phase ≤ 1 → docs slot = start slot
  unanswered : ∀ i, progress.committed i = none → docs (.stage0Resp i) = none
  committed : ∀ i rng, progress.committed i = some rng →
    ∃ resp, docs (.stage0Resp i) = some resp ∧ Answers start i rng resp
  challenged : progress.asked = true → Challenged start docs progress.challenged
  proved : ∀ i rng, progress.proved i = some rng → ∃ (resp₀ : _) (resp : Stage1Response G₁ G₂),
    Answers start i rng resp₀ ∧ docs (.stage1Resp i) = some resp ∧ resp.proof.ds = [resp₀.com]

theorem frame {command : Command S} (ran : runExactly command docs = (.ok (), docs')) {slot : Slot}
    (outside : slot ∉ command.writes) : docs' slot = docs slot := by
  have same : (runExactly command docs).2 slot = docs slot :=
    command.run_writes docs slot outside
  rwa [ran] at same

/-- Commands after the start of stage 0 leave its documents. -/
theorem kept_step {command : Command S} (begun : command.phase ≠ 1)
    (ran : runExactly command docs = (.ok (), docs')) {slot : Slot} (early : slot.phase ≤ 1) :
    docs' slot = docs slot := by
  refine frame ran fun written => ?_
  have same := Command.phase_of_writes written
  cases command <;> simp [Command.phase] at begun same <;> omega

omit [DecidableEq GT] in
theorem Answers.of_kept {resp : Stage0Response G₁ S.session.rng.Seed}
    (kept : ∀ slot, slot.phase ≤ 1 → docs slot = start slot) (answers : Answers docs i rng resp) :
    Answers start i rng resp := by
  obtain ⟨pk, req, key, request, index, answered⟩ := answers
  rw [kept (.g16Pk i) (Nat.zero_le _)] at key
  rw [kept (.stage0Req i) (Nat.le_refl _)] at request
  exact ⟨pk, req, key, request, index, answered⟩

omit [DecidableEq GT] in
theorem Answers.index {resp : Stage0Response G₁ S.session.rng.Seed}
    (answers : Answers docs i rng resp) : resp.subcircuitIdx = i := by
  obtain ⟨pk, req, _, _, index, answered⟩ := answers
  obtain ⟨⟨⟨_, cb⟩, _⟩, got, same⟩ := bind_eq_ok.mp answered
  cases same
  exact (getCb_reported got).index.trans index

variable {progress : Progress S.session.rng.State}

/-- The challenges are derived from the responses that stand. -/
theorem Tracks.challenges (tracks : Tracks start docs progress)
    (ran : runExactly .startStage1 docs = (.ok (), docs')) :
    Challenged start docs' progress.committed := by
  obtain ⟨params, aggCk, resps, newState, final, done⟩ := startStage1_eq_ok ran
  obtain ⟨state, processed⟩ := done.processed
  have each : ∀ i resp, resps[i]? = some resp → ∃ rng, progress.committed i = some rng ∧
      Answers start i rng resp := by
    intro i resp found
    have here := done.respsHeld i resp found
    cases drawn : progress.committed i with
    | none => cases here.symm.trans (tracks.unanswered i drawn)
    | some rng =>
      obtain ⟨resp', there, answers⟩ := tracks.committed i rng drawn
      cases here.symm.trans there
      exact ⟨rng, rfl, answers⟩
  have positions : resps.map Stage0Response.subcircuitIdx =
      List.range (S.numSubcircuits params) := by
    apply List.ext_getElem (by simp [done.size])
    intro i inside _
    rw [List.length_map] at inside
    obtain ⟨rng, _, answers⟩ := each i resps[i] (List.getElem?_eq_getElem inside)
    simpa using answers.index
  obtain ⟨superCom, size, _, aligned⟩ :=
    processStage0Responses_positions (List.Perm.of_eq positions) processed
  refine ⟨params, aggCk, final, newState.coms, ?_, ?_, done.finalHeld, ?_, size, ?_⟩
  · rw [← tracks.kept .testCircParams (Nat.zero_le _)]
    exact done.paramsHeld
  · rw [← tracks.kept .aggCk (Nat.zero_le _)]
    exact done.aggCkHeld
  · rw [done.superCom, superCom]
  · intro i inside
    have below : i < resps.length := done.size.symm ▸ inside
    obtain ⟨rng, drawn, answers⟩ := each i resps[i] (List.getElem?_eq_getElem below)
    obtain ⟨com, _⟩ := aligned resps[i] (List.getElem_mem below)
    rw [answers.index] at com
    exact ⟨rng, resps[i], drawn, answers, com⟩

theorem Tracks.step (tracks : Tracks start docs progress) {command : Command S}
    (begun : command.phase ≠ 1) (ran : runExactly command docs = (.ok (), docs')) :
    Tracks start docs' (progress.step command) := by
  have kept : ∀ slot, slot.phase ≤ 1 → docs' slot = start slot := fun slot early =>
    (kept_step begun ran early).trans (tracks.kept slot early)
  cases command with
  | startStage0 rand => exact absurd rfl begun
  | startStage1 =>
    have stands₀ : ∀ i, docs' (.stage0Resp i) = docs (.stage0Resp i) := fun i =>
      frame ran (by simp [Command.writes])
    have stands₁ : ∀ i, docs' (.stage1Resp i) = docs (.stage1Resp i) := fun i =>
      frame ran (by simp [Command.writes])
    refine ⟨kept, fun i drawn => ?_, fun i rng drawn => ?_, fun _ => tracks.challenges ran,
      fun i rng drawn => ?_⟩
    · rw [stands₀]
      exact tracks.unanswered i drawn
    · rw [stands₀]
      exact tracks.committed i rng drawn
    · rw [stands₁]
      exact tracks.proved i rng drawn
  | endProof =>
    have stands : ∀ slot, slot ≠ .finalProof → docs' slot = docs slot := fun slot other =>
      frame ran other
    refine ⟨kept, fun i drawn => ?_, fun i rng drawn => ?_, fun asked => ?_, fun i rng drawn => ?_⟩
    · rw [stands _ (by simp)]
      exact tracks.unanswered i drawn
    · rw [stands _ (by simp)]
      exact tracks.committed i rng drawn
    · obtain ⟨params, aggCk, final, coms, held⟩ := tracks.challenged asked
      rw [← stands _ (by simp)] at held
      exact ⟨params, aggCk, final, coms, held⟩
    · rw [stands _ (by simp)]
      exact tracks.proved i rng drawn
  | processStage0Request j rng₀ =>
    obtain ⟨resp, answers, here⟩ := stage0_eq_ok ran
    have stands : ∀ slot, slot ≠ .stage0Resp j → docs' slot = docs slot := fun slot other =>
      frame ran other
    refine ⟨kept, fun i drawn => ?_, fun i rng drawn => ?_, fun asked => ?_, fun i rng drawn => ?_⟩
    · by_cases same : i = j
      · subst same
        simp [Progress.step] at drawn
      · rw [stands _ (by simp [same])]
        simp only [Progress.step, Function.update_of_ne same] at drawn
        exact tracks.unanswered i drawn
    · by_cases same : i = j
      · subst same
        simp only [Progress.step, Function.update_self, Option.some.injEq] at drawn
        subst drawn
        exact ⟨resp, here, answers.of_kept tracks.kept⟩
      · rw [stands _ (by simp [same])]
        simp only [Progress.step, Function.update_of_ne same] at drawn
        exact tracks.committed i rng drawn
    · obtain ⟨params, aggCk, final, coms, held⟩ := tracks.challenged asked
      rw [← stands _ (by simp)] at held
      exact ⟨params, aggCk, final, coms, held⟩
    · rw [stands _ (by simp)]
      exact tracks.proved i rng drawn
  | processStage1Request j rng₁ =>
    obtain ⟨pk, req, resp₀, req₁, resp, key, request, response, proved, here⟩ := stage1_eq_ok ran
    have stands : ∀ slot, slot ≠ .stage1Resp j → docs' slot = docs slot := fun slot other =>
      frame ran other
    refine ⟨kept, fun i drawn => ?_, fun i rng drawn => ?_, fun asked => ?_, fun i rng drawn => ?_⟩
    · rw [stands _ (by simp)]
      exact tracks.unanswered i drawn
    · rw [stands _ (by simp)]
      exact tracks.committed i rng drawn
    · obtain ⟨params, aggCk, final, coms, held⟩ := tracks.challenged asked
      rw [← stands _ (by simp)] at held
      exact ⟨params, aggCk, final, coms, held⟩
    · by_cases same : i = j
      · subst same
        simp only [Progress.step, Function.update_self] at drawn
        obtain ⟨resp₀', there, answers⟩ := tracks.committed i rng drawn
        cases response.symm.trans there
        refine ⟨resp₀, resp, answers, here, ?_⟩
        obtain ⟨pk', req', key', request', _, committed⟩ := answers
        rw [← tracks.kept (.g16Pk i) (Nat.zero_le _), key] at key'
        rw [← tracks.kept (.stage0Req i) (Nat.le_refl _), request] at request'
        cases key'
        cases request'
        obtain ⟨_, made⟩ := SingleRun.stage1_proved committed proved
        exact made.reported
      · rw [stands _ (by simp [same])]
        simp only [Progress.step, Function.update_of_ne same] at drawn
        exact tracks.proved i rng drawn

/-- Whatever commands succeed one after another, the documents are told by their draws. -/
theorem tracks_of_run {commands : List (Command S)} (begun : ∀ command ∈ commands, command.phase ≠ 1)
    (tracks : Tracks start docs progress)
    (ran : (commands.forM runExactly) docs = (.ok (), docs')) :
    Tracks start docs' (commands.foldl Progress.step progress) := by
  induction commands generalizing docs progress with
  | nil =>
    cases ran
    exact tracks
  | cons command commands ih =>
    obtain ⟨first, rest⟩ := List.forall_mem_cons.mp begun
    obtain ⟨_, docs₁, here, later⟩ := Process.bind_eq_ok.mp ran
    exact ih rest (tracks.step first here) later

omit [DecidableEq F] [Inhabited D] [DecidableEq GT] in
theorem asked_of_member {commands : List (Command S)} (member : .startStage1 ∈ commands) :
    (commands.foldl Progress.step progress).asked = true := by
  have stays : ∀ (commands : List (Command S)) (progress : Progress S.session.rng.State),
      progress.asked = true → (commands.foldl Progress.step progress).asked = true := by
    intro commands
    induction commands with
    | nil => exact fun _ asked => asked
    | cons command commands ih =>
      intro progress asked
      apply ih
      cases command <;> first | rfl | exact asked
  induction commands generalizing progress with
  | nil => cases member
  | cons command commands ih =>
    rcases List.mem_cons.mp member with rfl | later
    · exact stays commands _ rfl
    · exact ih later

omit [DecidableEq GT] in
theorem tracks_none (fresh : ∀ i, start (.stage0Resp i) = none) :
    Tracks start start (.none S.session.rng.State) where
  kept _ _ := rfl
  unanswered i _ := fresh i
  committed _ _ drawn := by cases drawn
  challenged asked := by cases asked
  proved _ _ drawn := by cases drawn

/-- In every order of commands that succeed, each proof carries the commitment under the
commitment to them all exactly when the draw that it was made from blinds that commitment as
the draw that the challenges were derived from does. -/
theorem carried_iff {commands : List (Command S)} (begun : ∀ command ∈ commands, command.phase ≠ 1)
    (fresh : ∀ i, start (.stage0Resp i) = none) (member : .startStage1 ∈ commands)
    (ran : (commands.forM runExactly) start = (.ok (), docs)) :
    ∃ (params : P) (aggCk : K × AggProvingKey G₁ G₂ Com) (final : CommittedAggState F Com)
      (coms : List G₁), start .testCircParams = some params ∧ start .aggCk = some aggCk ∧
      docs .finalAggState = some final ∧ final.superCom = (S.backend aggCk.1).ipp.left coms ∧
      coms.length = S.numSubcircuits params ∧ ∀ i < S.numSubcircuits params, ∃ rng₀ com,
        (progressOf commands).challenged i = some rng₀ ∧ coms[i]? = some com ∧
        ∀ rng, (progressOf commands).proved i = some rng →
          ∃ (pk : ProvingKey G₁ G₂) (resp : Stage1Response G₁ G₂), start (.g16Pk i) = some pk ∧
          docs (.stage1Resp i) = some resp ∧ (resp.proof.ds = [com] ↔
            blinding S.session.rng rng • pk.ck.lastDeltaG =
              blinding S.session.rng rng₀ • pk.ck.lastDeltaG) := by
  have tracks := tracks_of_run begun (tracks_none fresh) ran
  obtain ⟨params, aggCk, final, coms, params_held, aggCk_held, final_held, superCom, size, each⟩ :=
    tracks.challenged (asked_of_member member)
  refine ⟨params, aggCk, final, coms, params_held, aggCk_held, final_held, superCom, size,
    fun i inside => ?_⟩
  obtain ⟨rng₀, resp₀, drawn, answers, com⟩ := each i inside
  refine ⟨rng₀, resp₀.com, drawn, com, fun rng proved => ?_⟩
  obtain ⟨resp', resp, answers', here, carried⟩ := tracks.proved i rng proved
  obtain ⟨pk, req, key, request, _, committed⟩ := answers
  obtain ⟨pk', req', key', request', _, committed'⟩ := answers'
  cases key.symm.trans key'
  cases request.symm.trans request'
  refine ⟨pk, resp, key, here, ?_⟩
  rw [carried, ← coms_eq_iff committed committed', List.cons_eq_cons]
  exact and_iff_left rfl

/-- Stage 0 is started, with one key for both subcircuits. -/
def startedDocs (pk : ProvingKey (ZMod 3) (ZMod 3)) : Docs readingSetting.Content
  | .testCircParams => some ⟨1, 1, 1⟩
  | .g16Pk _ => some pk
  | .aggCk => some ((), ofParts pairCommitment [])
  | .stage0CoordState => some ⟨[[.rom ⟨0, 1⟩], [.rom ⟨0, 1⟩]], [[.rom ⟨0, 1⟩], [.rom ⟨0, 1⟩]],
      [[], []], ⟨1, 1, 1⟩⟩
  | .stage0Req i => some ⟨i, [.rom ⟨0, 1⟩], [.rom ⟨0, 1⟩]⟩
  | _ => none

/-- The second worker repeats stage 0 after the challenges are derived. -/
def redrawing : List (Command readingSetting) :=
  [.processStage0Request 0 (0 : ZMod 3), .processStage0Request 1 (0 : ZMod 3), .startStage1,
    .processStage0Request 1 (1 : ZMod 3), .processStage1Request 0 (1 : ZMod 3),
    .processStage1Request 1 (1 : ZMod 3)]

/-- The run, with the element that blinds the commitments. -/
def redrawingRun : Outcome (ZMod 3) := do
  let pk ← readingKey
  ((redrawing.forM runExactly) (startedDocs pk)).1
  .ok pk.ck.lastDeltaG

theorem redrawing_runs : ∃ pk docs, readingKey = .ok pk ∧ pk.ck.lastDeltaG = 2 ∧
    (redrawing.forM runExactly) (startedDocs pk) = (.ok (), docs) := by
  have ran : redrawingRun = .ok 2 := by decide +kernel
  obtain ⟨pk, key, ran⟩ := bind_eq_ok.mp ran
  obtain ⟨_, ran, delta⟩ := bind_eq_ok.mp ran
  exact ⟨pk, _, key, Except.ok.inj delta, Prod.ext ran rfl⟩

/-- The first proof carries its commitment, the second one does not. -/
theorem redrawn_notCarried : ∃ (start docs : Docs readingSetting.Content)
    (final : CommittedAggState (ZMod 3) (ZMod 3)) (coms : List (ZMod 3)) (com com' : ZMod 3)
    (resp resp' : Stage1Response (ZMod 3) (ZMod 3)),
    (redrawing.forM runExactly) start = (.ok (), docs) ∧ docs .finalAggState = some final ∧
    final.superCom = pairCommitment.left coms ∧
    (coms[0]? = some com ∧ docs (.stage1Resp 0) = some resp ∧ resp.proof.ds = [com]) ∧
    coms[1]? = some com' ∧ docs (.stage1Resp 1) = some resp' ∧ resp'.proof.ds ≠ [com'] := by
  obtain ⟨pk, docs, _, delta, ran⟩ := redrawing_runs
  have begun : ∀ command ∈ redrawing, command.phase ≠ 1 := by
    intro command member
    simp only [redrawing, List.mem_cons, List.not_mem_nil, or_false] at member
    rcases member with rfl | rfl | rfl | rfl | rfl | rfl <;> simp [Command.phase]
  obtain ⟨params, aggCk, final, coms, held, _, final_held, superCom, _, each⟩ :=
    carried_iff begun (fun _ => rfl) (by simp [redrawing]) ran
  cases held
  obtain ⟨rng₀, com, drawn, here, carried⟩ := each 0 (by decide)
  obtain ⟨rng₀', com', drawn', here', carried'⟩ := each 1 (by decide)
  obtain ⟨pk₁, resp, key, found, iff₁⟩ := carried (0 : ZMod 3) rfl
  obtain ⟨pk₂, resp', key', found', iff₂⟩ := carried' (1 : ZMod 3) rfl
  cases drawn
  cases drawn'
  cases key'
  refine ⟨startedDocs pk, docs, final, coms, com, com', resp, resp', ran, final_held, superCom,
    ⟨here, found, iff₁.mpr rfl⟩, here', found', fun same => ?_⟩
  have equal := iff₂.mp same
  rw [delta] at equal
  revert equal
  decide

end Reruns
