import Hekaton.CliKeys
import Hekaton.Deployment

/-!
# The deployed protocol over files

Every command is a process of its own, with the directories as it was given them, and every
document is a file. What the files hold, read back by their codecs, is what the commands do to
the documents, since no two documents have one name and only keys are links. So after
`gen-keys` and any schedule of the commands the files are those of a single run.
-/

namespace DeployedFiles

open LinearCombinations Outcomes Codecs CPGroth16 Aggregation Workers SubcircuitCircuit
open SubcircuitAggregation ResponseOrder FileSystems Processes Documents CliFiles CliKeys
open CommitmentConsistency Deployment Transcript TreeHashCircuit AggregationSoundness
open Coordinator EvalTree

def filenamePrefix : Slot → String
  | .testCircParams => testCircParamFilenamePrefix
  | .g16Pk _ => g16PkFilenamePrefix
  | .aggCk => aggCkFilenamePrefix
  | .stage0CoordState => stage0CoordStateFilenamePrefix
  | .finalAggState => finalAggStateFilenamePrefix
  | .finalProof => finalProofPrefix
  | .stage0Req _ => stage0ReqFilenamePrefix
  | .stage0Resp _ => stage0RespFilenamePrefix
  | .stage1Req _ => stage1ReqFilenamePrefix
  | .stage1Resp _ => stage1RespFilenamePrefix

def fileIndex : Slot → Option Nat
  | .g16Pk i | .stage0Req i | .stage0Resp i | .stage1Req i | .stage1Resp i => some i
  | _ => none

/-- The file of a document. -/
def slotName (slot : Slot) : String := filename (filenamePrefix slot) (fileIndex slot)

/-- One of each kind of directory. -/
structure Places (δ : Type) where
  g16PkDir : δ
  coordStateDir : δ
  reqDir : δ
  stage0RespDir : δ
  stage1RespDir : δ

def Places.dirOf {δ : Type} (places : Places δ) : Slot → δ
  | .g16Pk _ => places.g16PkDir
  | .stage0Req _ | .stage1Req _ => places.reqDir
  | .stage0Resp _ => places.stage0RespDir
  | .stage1Resp _ => places.stage1RespDir
  | _ => places.coordStateDir

/-- Where a command runs, and the directories as it was given them. -/
structure WorkDirs extends Places DirectoryPath where
  here : Directory

theorem prefix_letter (slot : Slot) : EndsInLetter (filenamePrefix slot) := by
  cases slot with
  | testCircParams => exact params_letter
  | g16Pk i => exact pk_letter
  | aggCk => exact aggCk_letter
  | stage0CoordState => exact endsInLetter_of "stage0_coordinator_stat".toList 'e' (by decide) rfl
  | finalAggState => exact endsInLetter_of "final_aggregator_stat".toList 'e' (by decide) rfl
  | finalProof => exact endsInLetter_of "agg_proo".toList 'f' (by decide) rfl
  | stage0Req i =>
    exact endsInLetter_of "stage0_re".toList 'q'
      (show stage0ReqFilenamePrefix.toList = _ by decide) rfl
  | stage0Resp i =>
    exact endsInLetter_of "stage0_res".toList 'p'
      (show stage0RespFilenamePrefix.toList = _ by decide) rfl
  | stage1Req i =>
    exact endsInLetter_of "stage1_re".toList 'q'
      (show stage1ReqFilenamePrefix.toList = _ by decide) rfl
  | stage1Resp i =>
    exact endsInLetter_of "stage1_res".toList 'p'
      (show stage1RespFilenamePrefix.toList = _ by decide) rfl

/-- No two documents have one name. -/
theorem slotName_injective : Function.Injective slotName := by
  intro slot slot' same
  obtain ⟨prefixes, indices⟩ := filename_injective (prefix_letter slot) (prefix_letter slot') same
  cases slot <;> cases slot' <;>
    first
      | rfl
      | (simp [filenamePrefix, testCircParamFilenamePrefix, g16PkFilenamePrefix,
          aggCkFilenamePrefix, stage0CoordStateFilenamePrefix, finalAggStateFilenamePrefix,
          finalProofPrefix, stage0ReqFilenamePrefix, stage0RespFilenamePrefix,
          stage1ReqFilenamePrefix, stage1RespFilenamePrefix] at prefixes; done)
      | (cases indices; rfl)

/-- Only keys have the names of keys. -/
theorem slotName_not_mem {slot : Slot} (other : slot ∈ produced) : slotName slot ∉ allKeyNames := by
  rintro ⟨n, ⟨i, _, _, same⟩ | ⟨i, _, _, same⟩⟩
  · exact other i (slotName_injective same)
  · obtain ⟨prefixes, _⟩ := filename_injective (prefix_letter slot) ck_letter same
    cases slot <;>
      simp [filenamePrefix, testCircParamFilenamePrefix, g16PkFilenamePrefix, g16CkFilenamePrefix,
        aggCkFilenamePrefix, stage0CoordStateFilenamePrefix, finalAggStateFilenamePrefix,
        finalProofPrefix, stage0ReqFilenamePrefix, stage0RespFilenamePrefix,
        stage1ReqFilenamePrefix, stage1RespFilenamePrefix] at prefixes

section Files
variable {F D P G₁ G₂ GT Com K Pf : Type} [Field F] [AddCommGroup G₁] [Module F G₁]
variable [AddCommGroup G₂] [Module F G₂] [AddCommGroup GT] [Module F GT]
variable [AddCommGroup Com] [Module F Com] {m : MemType} {S : Setting F D P G₁ G₂ GT Com K Pf m}

/-- Every document is a file under its name, written and read by its codec. -/
def onDisk (codecs : ∀ slot, Codec (S.Content slot)) (dirs : WorkDirs) :
    Store Fault Disk S.Content where
  load slot := deserializeFromPath (codecs slot) dirs.here (dirs.dirOf slot)
    (filenamePrefix slot) (fileIndex slot)
  save slot content := unwrapIo (serializeToPath (codecs slot) content dirs.here
    (dirs.dirOf slot) (filenamePrefix slot) (fileIndex slot))

/-- What a codec reads in these bytes. -/
def decoded {α : Type} (c : Codec α) (buf : Bytes) : Option α :=
  (c.deserialize.run buf).toOption.map Prod.fst

def readBack (codecs : ∀ slot, Codec (S.Content slot)) (slot : Slot) (content : S.Content slot) :
    Option (S.Content slot) :=
  decoded (codecs slot) ((codecs slot).serialize content)

/-- The documents that the files hold. -/
def view (codecs : ∀ slot, Codec (S.Content slot)) (site : Places Directory) (fs : Disk) :
    Docs S.Content :=
  fun slot => (fs.content (site.dirOf slot) (slotName slot)).bind (decoded (codecs slot))

/-- The paths lead to the directories of the site. -/
def Located (fs : Disk) (site : Places Directory) (dirs : WorkDirs) : Prop :=
  ∀ slot, fs.walk dirs.here (dirs.dirOf slot) = some (site.dirOf slot)

/-- Files with the directories of the first ones, and the documents that they hold. -/
structure Viewed (codecs : ∀ slot, Codec (S.Content slot)) (site : Places Directory)
    (base fs : Disk) (docs : Docs S.Content) : Prop where
  directories : fs.isDirectory = base.isDirectory
  links : fs.LinksWithin allKeyNames
  docs_eq : docs = view codecs site fs

variable {codecs : ∀ slot, Codec (S.Content slot)} {site : Places Directory} {fs base : Disk}

theorem load_iff {slot : Slot} {here : Directory} {dir : DirectoryPath}
    (walked : fs.walk here dir = some (site.dirOf slot)) (content : S.Content slot) :
    (deserializeFromPath (codecs slot) here dir (filenamePrefix slot) (fileIndex slot) fs).1 =
      .ok content ↔ view codecs site fs slot = some content := by
  rw [deserializeFromPath_eq_ok _ walked, view, Option.bind_eq_some_iff]
  constructor
  · rintro ⟨buf, rest, held, ran⟩
    refine ⟨buf, held, ?_⟩
    rw [decoded, ran]
    rfl
  · rintro ⟨buf, held, read⟩
    obtain ⟨⟨value, rest⟩, ran, rfl⟩ := Option.map_eq_some_iff.mp read
    refine ⟨buf, rest, held, ?_⟩
    cases outcome : (codecs slot).deserialize.run buf with
    | error e =>
      rw [outcome] at ran
      cases ran
    | ok pair =>
      rw [outcome] at ran
      cases ran
      rfl

theorem onDisk_simulates {dirs : WorkDirs} (located : Located base site dirs) :
    (onDisk codecs dirs).Simulates (Viewed codecs site base) produced
      (onDocuments (readBack codecs)) where
  load slot fs docs viewed := by
    have walked := (FileSystem.walk_congr viewed.directories _ _).trans (located slot)
    refine ⟨viewed, ?_⟩
    refine (Process.toOption_eq (load_iff walked)).trans ?_
    rw [onDocuments, load_toOption, viewed.docs_eq]
  save slot member content fs docs viewed := by
    have walked := (FileSystem.walk_congr viewed.directories _ _).trans (located slot)
    have outside := slotName_not_mem member
    have ran := unwrapIo_of_ok (serializeToPath_run (codecs slot) content walked
      (viewed.links.plain outside (site.dirOf slot)))
    refine ⟨?_, congrArg (fun run => run.1.toOption) ran⟩
    rw [show (onDisk codecs dirs).save slot content fs = _ from ran]
    refine ⟨viewed.directories, viewed.links.put_file _ _ _, ?_⟩
    change docs.put slot (readBack codecs slot content) = view codecs site
      (fs.put (site.dirOf slot) (slotName slot) (.file ((codecs slot).serialize content)))
    funext slot'
    by_cases same : slot' = slot
    · subst same
      rw [put_self, view, FileSystem.content_put_self]
      rfl
    · have apart : slotName slot' ≠ slotName slot := fun equal => same (slotName_injective equal)
      rw [put_of_ne _ _ same, viewed.docs_eq, view, view]
      exact congrArg (Option.bind · _)
        (viewed.links.content_put outside _ _ _ (Or.inr apart)).symm

variable [DecidableEq F] [Inhabited D] [DecidableEq GT]

/-- A command with the directories that it is given. -/
structure Invocation (S : Setting F D P G₁ G₂ GT Com K Pf m) where
  dirs : WorkDirs
  command : Command S

/-- The process of one command. -/
def Invocation.run (codecs : ∀ slot, Codec (S.Content slot)) (invocation : Invocation S) :
    Process Fault Disk Unit :=
  invocation.command.run (onDisk codecs invocation.dirs)

variable (codecs) in
/-- The files after processes hold the documents after their commands. -/
theorem runAll_viewed {invocations : List (Invocation S)}
    (located : ∀ invocation ∈ invocations, Located base site invocation.dirs)
    (viewed : Viewed codecs site base fs (view codecs site fs)) :
    Viewed codecs site base (Process.runAll (invocations.map (Invocation.run codecs)) fs)
      (Process.runAll ((invocations.map Invocation.command).map
        (Command.run (onDocuments (readBack codecs)))) (view codecs site fs)) := by
  refine Process.runAll_simulates ?_ viewed
  rw [List.map_map, List.forall₂_map_left_iff, List.forall₂_map_right_iff, List.forall₂_same]
  intro invocation member
  exact invocation.command.run_simulates (onDisk_simulates (located invocation member))

variable {params : P} {keys : Nat → ProvingKey G₁ G₂} {aggCk : K × AggProvingKey G₁ G₂ Com}
variable {rand : P → CircuitWithPortals F D m × (Nat → List UInt8)}
variable {draws : Draws S.session.rng.State} {before after earlier : List (Command S)}

omit [DecidableEq F] [Inhabited D] [DecidableEq GT] in
theorem readBack_of_reads {slot : Slot} {content : S.Content slot}
    (reads : Reads (codecs slot).deserialize ((codecs slot).serialize content) content) :
    readBack codecs slot content = some content := by
  have read := reads.run []
  rw [List.append_nil] at read
  rw [readBack, decoded, read]
  rfl

/-- From files that hold the keys and parameters of a run, with whatever else there is, the
processes leave each document of the run in its file. -/
theorem files_deployed (run : SingleRun S params keys aggCk rand draws)
    (reads : ∀ slot content, run.docs slot = some content →
      Reads (codecs slot).deserialize ((codecs slot).serialize content) content)
    (links : fs.LinksWithin allKeyNames)
    (held : ∀ slot, slot.phase = 0 → ∀ content, run.docs slot = some content →
      view codecs site fs slot = some content) {invocations : List (Invocation S)}
    (located : ∀ invocation ∈ invocations, Located fs site invocation.dirs)
    (ordered : invocations.map Invocation.command = schedule earlier rand before after)
    (scheduled : Scheduled (S.numSubcircuits params) draws before after) {slot : Slot}
    {content : S.Content slot} (left : run.docs slot = some content) {there : Directory}
    {dir : DirectoryPath} (walked : fs.walk there dir = some (site.dirOf slot)) :
    (deserializeFromPath (codecs slot) there dir (filenamePrefix slot) (fileIndex slot)
      (Process.runAll (invocations.map (Invocation.run codecs)) fs)).1 = .ok content := by
  have viewed := runAll_viewed codecs located ⟨rfl, links, rfl⟩
  have readable : run.Readable (readBack codecs) := fun slot content left =>
    readBack_of_reads (reads slot content left)
  have upTo : run.UpTo 0 (view codecs site fs) := fun slot early content left =>
    held slot (Nat.le_zero.mp early) content left
  have documents := SingleRun.deployed readable upTo earlier scheduled
  rw [← ordered] at documents
  have last : slot.phase ≤ 5 := by cases slot <;> simp [Slot.phase]
  rw [load_iff ((FileSystem.walk_congr viewed.directories _ _).trans walked), ← viewed.docs_eq]
  exact documents slot last content left

end Files

section Whole
variable {F D G₁ G₂ GT Com K Pf : Type} [Field F] [AddCommGroup G₁] [Module F G₁]
variable [AddCommGroup G₂] [Module F G₂] [AddCommGroup GT] [Module F GT]
variable [AddCommGroup Com] [Module F Com] {m : MemType} [DecidableEq F] [Inhabited D]
variable [DecidableEq GT] {S : Setting F D MerkleTreeCircuitParams G₁ G₂ GT Com K Pf m}
variable {codecs : ∀ slot, Codec (S.Content slot)} {keyCodecs : KeyCodecs G₁ G₂ Com K}
variable {keyDraws : KeyDraws F G₁ G₂ Com K} {keyDirs : KeyDirs}

/-- All binaries are built with the same codecs and number of subcircuits. -/
structure BuiltAlike (codecs : ∀ slot, Codec (S.Content slot)) (keyCodecs : KeyCodecs G₁ G₂ Com K) :
    Prop where
  params : keyCodecs.params = codecs .testCircParams
  pk : ∀ i, keyCodecs.pk = codecs (.g16Pk i)
  aggCk : keyCodecs.aggCk = codecs .aggCk
  numSubcircuits : ∀ params, S.numSubcircuits params = params.numSubcircuits

variable {params : MerkleTreeCircuitParams} {k : Nat} {keys : Nat → ProvingKey G₁ G₂}
variable {agg : AggProvingKey G₁ G₂ Com} {site : Places Directory} {fs : Disk}
variable {rand : MerkleTreeCircuitParams → CircuitWithPortals F D m × (Nat → List UInt8)}
variable {draws : Draws S.session.rng.State} {before after earlier : List (Command S)}

/-- After `gen-keys` and any schedule of the commands every file holds what a single run with
the generated keys would leave there. -/
theorem deployment_eq_singleRun (alike : BuiltAlike codecs keyCodecs)
    (checked : Checked params k) (made : Drawn keyDraws params.numSubcircuits keys agg)
    (run : SingleRun S params (fun i => keys (keyOwner params.numSubcircuits i))
      (keyDraws.tipaSetup params.numSubcircuits, agg) rand draws)
    (reads : ∀ slot content, run.docs slot = some content →
      Reads (codecs slot).deserialize ((codecs slot).serialize content) content)
    (links : fs.LinksWithin allKeyNames) (fresh : KeysFresh fs site.g16PkDir 0 params.numSubcircuits)
    (walked : fs.walk keyDirs.here keyDirs.g16PkDir = some site.g16PkDir)
    (walkedState : fs.walk keyDirs.here keyDirs.coordStateDir = some site.coordStateDir)
    (back : params.numSubcircuits ≤ 4 ∨ LeadsBack fs site.g16PkDir keyDirs.g16PkDir)
    {invocations : List (Invocation S)}
    (located : ∀ invocation ∈ invocations, Located fs site invocation.dirs)
    (ordered : invocations.map Invocation.command = schedule earlier rand before after)
    (scheduled : Scheduled params.numSubcircuits draws before after) :
    ∃ fs₁, genKeys keyCodecs keyDraws keyDirs params.numSubcircuits
        params.numShaItersPerSubcircuit params.numPortalsPerSubcircuit fs = (.ok (), fs₁) ∧
      ∀ slot content, run.docs slot = some content → ∀ there dir,
        fs.walk there dir = some (site.dirOf slot) →
        (deserializeFromPath (codecs slot) there dir (filenamePrefix slot) (fileIndex slot)
          (Process.runAll (invocations.map (Invocation.run codecs)) fs₁)).1 = .ok content := by
  have plain : ∀ slot ∈ produced, fs.Plain site.coordStateDir (slotName slot) := fun slot member =>
    links.plain (slotName_not_mem member) _
  obtain ⟨fs₁, ran, saved⟩ := genKeys_run keyCodecs checked made walked walkedState fresh
    (plain .testCircParams fun i => by simp) (plain .aggCk fun i => by simp)
  have walks : ∀ here path, fs₁.walk here path = fs.walk here path :=
    FileSystem.walk_congr saved.directories
  have held : ∀ slot, slot.phase = 0 → ∀ content, run.docs slot = some content →
      view codecs site fs₁ slot = some content := by
    intro slot here content left
    have read := readBack_of_reads (reads slot content left)
    have heldBytes : ∀ buf, fs₁.content (site.dirOf slot) (slotName slot) = some buf →
        buf = (codecs slot).serialize content → view codecs site fs₁ slot = some content := by
      rintro buf found rfl
      rw [view, found]
      exact read
    cases slot with
    | testCircParams =>
      cases left
      refine heldBytes _ ?_ (congrArg (Codec.serialize · params) alike.params)
      simp [FileSystem.content, slotName, filenamePrefix, fileIndex, Places.dirOf, saved.paramsFile]
    | aggCk =>
      cases left
      refine heldBytes _ ?_ (congrArg (Codec.serialize · _) alike.aggCk)
      simp [FileSystem.content, slotName, filenamePrefix, fileIndex, Places.dirOf, saved.aggCkFile]
    | g16Pk i =>
      have inside : i < params.numSubcircuits := by
        by_contra outside
        rw [SingleRun.docs, alike.numSubcircuits, if_neg outside] at left
        cases left
      rw [SingleRun.docs, alike.numSubcircuits, if_pos inside] at left
      cases left
      exact heldBytes _ (saved.content_key back inside) (congrArg (Codec.serialize · _) (alike.pk i))
    | _ => cases here
  refine ⟨fs₁, ran, fun slot content left there dir found => ?_⟩
  refine files_deployed run reads (saved.links links) held ?_ ordered ?_ left ?_
  · intro invocation member slot
    exact (walks _ _).trans (located invocation member slot)
  · rw [alike.numSubcircuits]
    exact scheduled
  · exact (walks _ _).trans found

end Whole

/-- Each of eight subcircuits reads the same address. -/
def eightReaders : CircuitWithPortals (ZMod 3) (FreeDigest (ZMod 3)) .rom :=
  { readingCircuit with
    numSubcircuits := 8
    getPortalSubtraces := .ok (List.replicate 8 [.rom ⟨0, 1⟩]) }

def eightSum : IPCommitment (ZMod 3) (ZMod 3) (ZMod 3) (ZMod 3) :=
  weightedIp (List.replicate 8 1)

def eightSetting : Setting (ZMod 3) (FreeDigest (ZMod 3)) MerkleTreeCircuitParams (ZMod 3)
    (ZMod 3) (ZMod 3) (ZMod 3) Unit (Witness (ZMod 3) (ZMod 3)) .rom :=
  { readingSetting with
    session := { readingSetting.session with rebuild := fun _ _ _ => eightReaders }
    backend := fun _ => { scalarBackend false with
      ipp := eightSum
      tipa := openArgument (CPGroth16.scalarPairing (ZMod 3)) eightSum } }

def eightRand (_ : MerkleTreeCircuitParams) :
    CircuitWithPortals (ZMod 3) (FreeDigest (ZMod 3)) .rom × (Nat → List UInt8) :=
  (eightReaders, fun _ => [])

/-- Each subcircuit has its owner's key. -/
def ownersKey (pk : ProvingKey (ZMod 3) (ZMod 3)) (i : Nat) : ProvingKey (ZMod 3) (ZMod 3) :=
  numberedKey pk (keyOwner 8 i)

/-- The whole run in memory. -/
def eightRun : Outcome Unit := do
  let pk ← readingKey
  let agg ← AggProvingKey.new (sumCommitment 8) (ownersKey pk)
  let state ← newStage0State eightReaders (fun _ => []) (⟨4, 1, 1⟩ : MerkleTreeCircuitParams)
  let finished ← Driver.worker.work eightSetting.session (heldKeys (ownersKey pk) 8)
    eightSetting.gadget (treeDepth state) (sumCommitment 8) eightSetting.transcriptHash state
    twoSeeds
  let final ← intoCommittedAggState eightSetting.digestFields finished.state
  let _ ← final.genAggProof (eightSetting.backend ()) agg finished.responses
  .ok ()

theorem eightRun_ok : ∃ pk agg, readingKey = .ok pk ∧
    AggProvingKey.new (sumCommitment 8) (ownersKey pk) = .ok agg ∧
    Nonempty (SingleRun eightSetting ⟨4, 1, 1⟩ (ownersKey pk) ((), agg) eightRand twoSeeds) := by
  have ran := eq_ok_result (o := eightRun) (by decide +kernel)
  obtain ⟨pk, key, ran⟩ := bind_eq_ok.mp ran
  obtain ⟨agg, built, ran⟩ := bind_eq_ok.mp ran
  obtain ⟨state, began, ran⟩ := bind_eq_ok.mp ran
  obtain ⟨finished, worked, ran⟩ := bind_eq_ok.mp ran
  obtain ⟨final, aggregated, ran⟩ := bind_eq_ok.mp ran
  obtain ⟨proof, proved, _⟩ := bind_eq_ok.mp ran
  exact ⟨pk, agg, key, built, ⟨state, finished, final, proof, began, worked, aggregated, proved⟩⟩

def eightDraws : KeyDraws (ZMod 3) (ZMod 3) (ZMod 3) (ZMod 3) Unit where
  genPk i := do
    let pk ← readingKey
    .ok (numberedKey pk i)
  tipaSetup _ := ()
  ipp _ := sumCommitment 8

/-- The responses are asked for too early, a worker answers twice, and the others in reverse. -/
def committing : List (Command eightSetting) :=
  .processStage0Request 3 (1 : ZMod 3) :: .startStage1 ::
    (List.range 8).reverse.map fun i => .processStage0Request i (0 : ZMod 3)

/-- The proof is asked for too early, and the requests are written again. -/
def proving : List (Command eightSetting) :=
  .processStage1Request 5 (0 : ZMod 3) :: .endProof :: .startStage1 ::
    (List.range 8).map fun i => .processStage1Request i (1 : ZMod 3)

theorem eight_scheduled : Scheduled (S := eightSetting) 8 twoSeeds committing proving where
  begun := by simp [committing, Command.phase]
  late := by simp [proving, Command.phase]
  stage0 i inside := by interval_cases i <;> rfl
  stage1 i inside := by interval_cases i <;> rfl

/-- A codec that reads one value back, if there is one. -/
def oneValueCodec {α : Type} : Option α → Codec α
  | some a => .zeros a 8
  | none => ⟨fun _ => [], fun _ => .error .invalidData⟩

/-- The directories `/k`, `/s`, `/req`, `/resp` and `/resp`. -/
def fivePlaces : Places Directory := ⟨["k"], ["s"], ["req"], ["resp"], ["resp"]⟩

/-- Where the commands are given them, by a process in `/req`. -/
def fiveDirs : WorkDirs where
  g16PkDir := ⟨true, ["k"]⟩
  coordStateDir := ⟨true, ["s"]⟩
  reqDir := ⟨false, []⟩
  stage0RespDir := ⟨true, ["resp"]⟩
  stage1RespDir := ⟨true, ["resp"]⟩
  here := ["req"]

/-- Codecs that tell the keys apart and read back the one value of each other file. -/
def eightCodecs (pk : ProvingKey (ZMod 3) (ZMod 3)) (docs : Docs eightSetting.Content) :
    ∀ slot, Codec (eightSetting.Content slot)
  | .g16Pk _ => numberedCodec pk
  | slot => oneValueCodec (docs slot)

theorem oneValueCodec_reads {α : Type} {a : α} {o : Option α} (held : o = some a) :
    Reads (oneValueCodec o).deserialize ((oneValueCodec o).serialize a) a := by
  cases held
  exact (reads_exact List.length_replicate).bind_pure rfl

/-- Both stages of eight subcircuits in any order, over files, with five keys for all. -/
theorem eightReaders_deployed : ∃ (codecs : ∀ slot, Codec (eightSetting.Content slot))
    (keyCodecs : KeyCodecs (ZMod 3) (ZMod 3) (ZMod 3) Unit)
    (proof : Witness (ZMod 3) (ZMod 3)) (fs₁ : Disk),
    genKeys keyCodecs eightDraws (twoDirs true) 8 1 1 emptyDisk = (.ok (), fs₁) ∧
    (deserializeFromPath (codecs .finalProof) [] ⟨true, ["s"]⟩ finalProofPrefix none
      (Process.runAll ((schedule [] eightRand committing proving).map fun command =>
        Invocation.run codecs ⟨fiveDirs, command⟩) fs₁)).1 = .ok proof := by
  obtain ⟨pk, agg, key, built, ⟨run⟩⟩ := eightRun_ok
  have made : Drawn eightDraws 8 (numberedKey pk) agg :=
    ⟨fun i _ => bind_eq_ok.mpr ⟨pk, key, rfl⟩, rfl, built⟩
  have reads : ∀ slot content, run.docs slot = some content →
      Reads (eightCodecs pk run.docs slot).deserialize
        ((eightCodecs pk run.docs slot).serialize content) content := by
    intro slot content held
    cases slot with
    | g16Pk i =>
      simp only [SingleRun.docs] at held
      split at held
      · rename_i inside
        cases held
        exact numberedCodec_reads pk (keyOwner_lt inside)
      · cases held
    | _ => exact oneValueCodec_reads held
  have plain : emptyDisk.LinksWithin allKeyNames := by
    constructor <;>
      · intro d name target linked
        cases linked
  have walked : emptyDisk.walk (twoDirs true).here (twoDirs true).g16PkDir =
      some fivePlaces.g16PkDir := rfl
  have alike : BuiltAlike (eightCodecs pk run.docs)
      ⟨oneValueCodec (run.docs .testCircParams), numberedCodec pk, Codec.zeros pk.ck 8,
        oneValueCodec (run.docs .aggCk)⟩ := ⟨rfl, fun _ => rfl, rfl, fun _ => rfl⟩
  have checked : Checked ⟨4, 1, 1⟩ 2 := ⟨rfl, Nat.one_pos, Nat.one_pos⟩
  have back : LeadsBack emptyDisk fivePlaces.g16PkDir (twoDirs true).g16PkDir :=
    leadsBack_absolute (show emptyDisk.walk [] (twoDirs true).g16PkDir = _ from rfl) rfl
  have located : ∀ invocation ∈ (schedule [] eightRand committing proving).map
      fun command => (⟨fiveDirs, command⟩ : Invocation eightSetting),
      Located emptyDisk fivePlaces invocation.dirs := by
    intro invocation member slot
    obtain ⟨command, _, rfl⟩ := List.mem_map.mp member
    cases slot <;> rfl
  obtain ⟨fs₁, ran, found⟩ := deployment_eq_singleRun alike checked made run reads plain
    (fun _ _ => rfl) walked rfl (Or.inr back) located (List.map_map.trans (List.map_id _))
    eight_scheduled
  refine ⟨eightCodecs pk run.docs, _, run.proof, fs₁, ran, ?_⟩
  have last := found .finalProof run.proof rfl [] ⟨true, ["s"]⟩ rfl
  rw [List.map_map] at last
  exact last

end DeployedFiles
