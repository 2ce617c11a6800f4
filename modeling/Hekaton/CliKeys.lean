import Hekaton.CliFiles
import Hekaton.ResponseOrder
import Hekaton.TreeHashKeys

/-!
# Keys on disk

The coordinator generates a key for the first leaf, one for the other leaves, one for the
parents, one for the root and one for the padding, and saves each for all of its indices; up
to four subcircuits have a key each. The aggregation key is made of the keys in memory. The
workers find the same keys in the files, unless the directory is given by a path that leads
elsewhere from inside it.
-/

namespace CliKeys

open LinearCombinations Outcomes Codecs FileSystems Processes CliFiles CPGroth16 Aggregation
open ResponseOrder
open TreeHashCircuit TreeHashKeys

/-- Where a process runs, and the directories as it was given them. -/
structure KeyDirs where
  here : Directory
  g16PkDir : DirectoryPath
  coordStateDir : DirectoryPath

structure KeyCodecs (G₁ G₂ Com K : Type) where
  params : Codec MerkleTreeCircuitParams
  pk : Codec (ProvingKey G₁ G₂)
  ck : Codec (CommitterKey G₁)
  aggCk : Codec (K × AggProvingKey G₁ G₂ Com)

/-- What the generators of the keys and of the inner-product commitments draw. -/
structure KeyDraws (F G₁ G₂ Com K : Type) [Field F] [AddCommGroup G₁] [Module F G₁]
    [AddCommGroup G₂] [Module F G₂] [AddCommGroup Com] [Module F Com] where
  genPk : Nat → Outcome (ProvingKey G₁ G₂)
  tipaSetup : Nat → K
  ipp : K → TIPPCommitment F G₁ G₂ Com

/-- `is_power_of_two`. -/
def isPowerOfTwo (n : Nat) : Bool := n == 2 ^ n.log2

/-- Checks the test circuit parameters and puts them in a struct. -/
def genTestCircuitParams (numSubcircuits numShaIterations numPortalsPerSubcircuit : Nat) :
    Outcome MerkleTreeCircuitParams := do
  if !isPowerOfTwo numSubcircuits then panicWith "#subcircuits MUST be a power of 2"
  if !(1 < numSubcircuits : Bool) then panicWith "num. of subcircuits MUST be > 1"
  if !(0 < numShaIterations : Bool) then
    panicWith "num. of SHA256 iterations per subcircuit MUST be > 0"
  if !(0 < numPortalsPerSubcircuit : Bool) then
    panicWith "num. of portal ops per subcircuit MUST be > 0"
  .ok ⟨numSubcircuits / 2, numShaIterations, numPortalsPerSubcircuit⟩

section Generation
variable {F G₁ G₂ Com K : Type} [Field F] [AddCommGroup G₁] [Module F G₁]
variable [AddCommGroup G₂] [Module F G₂] [AddCommGroup Com] [Module F Com]

/-- What the fetcher gives for an index that is never asked for. -/
instance instInhabitedProvingKey : Inhabited (ProvingKey G₁ G₂) where
  default := ⟨⟨0, 0, 0, 0, [], []⟩, 0, [], [], [], [], ⟨0, []⟩, []⟩

/-- `AggProvingKey::new` over a fetcher that may panic, with the key of the commitments. -/
def newAggCk (draws : KeyDraws F G₁ G₂ Com K) (numSubcircuits : Nat)
    (pkFetcher : Nat → Outcome (ProvingKey G₁ G₂)) : Outcome (K × AggProvingKey G₁ G₂ Com) := do
  let tippPk := draws.tipaSetup numSubcircuits
  let pks ← (List.range (draws.ipp tippPk).supportedSize).mapM pkFetcher
  let aggCk ← AggProvingKey.new (draws.ipp tippPk) fun i => pks.getD i default
  .ok (tippPk, aggCk)

variable (codecs : KeyCodecs G₁ G₂ Com K) (draws : KeyDraws F G₁ G₂ Com K) (dirs : KeyDirs)

/-- The proving key and the committing key of one subcircuit. -/
def saveKey (pk : ProvingKey G₁ G₂) (subcircuitIdx : Nat) : Process Fault Disk Unit := do
  unwrapIo (serializeToPath codecs.pk pk dirs.here dirs.g16PkDir g16PkFilenamePrefix
    (some subcircuitIdx))
  unwrapIo (serializeToPath codecs.ck pk.ck dirs.here dirs.g16PkDir g16CkFilenamePrefix
    (some subcircuitIdx))

/-- The keys of a range of subcircuits. -/
def saveKeys (pk : ProvingKey G₁ G₂) (start stop : Nat) : Process Fault Disk Unit := do
  unwrapIo (serializeToPaths codecs.pk pk dirs.here dirs.g16PkDir g16PkFilenamePrefix start stop)
  unwrapIo (serializeToPaths codecs.ck pk.ck dirs.here dirs.g16PkDir g16CkFilenamePrefix start stop)

/-- The fetcher over the five keys. -/
def pkFetcher (numSubcircuits : Nat)
    (firstLeafPk secondLeafPk parentPk rootPk paddingPk : ProvingKey G₁ G₂) (subcircuitIdx : Nat) :
    Outcome (ProvingKey G₁ G₂) :=
  if subcircuitIdx = 0 then .ok firstLeafPk
  else if 1 ≤ subcircuitIdx ∧ subcircuitIdx < numSubcircuits / 2 then .ok secondLeafPk
  else if numSubcircuits / 2 ≤ subcircuitIdx ∧ subcircuitIdx < numSubcircuits - 2 then .ok parentPk
  else if subcircuitIdx = numSubcircuits - 2 then .ok rootPk
  else if subcircuitIdx = numSubcircuits - 1 then .ok paddingPk
  else panicWith ("unexpected subcircuit index " ++ toString subcircuitIdx)

/-- Generates all the Groth16 proving and committing keys that the workers will use. -/
def generateG16Pks (circParams : MerkleTreeCircuitParams) : Process Fault Disk Unit :=
  let numSubcircuits := circParams.numSubcircuits
  if numSubcircuits ≤ 4 then do
    let pks ← Process.lift ((List.range numSubcircuits).mapM draws.genPk)
    pks.zipIdx.forM fun p => saveKey codecs dirs p.1 p.2
    let aggCk ← Process.lift (newAggCk draws numSubcircuits fun i => indexed pks i)
    unwrapIo (serializeToPath codecs.aggCk aggCk dirs.here dirs.coordStateDir
      aggCkFilenamePrefix none)
  else do
    let firstLeafPk ← Process.lift (draws.genPk 0)
    let secondLeafPk ← Process.lift (draws.genPk 1)
    let paddingPk ← Process.lift (draws.genPk (numSubcircuits - 1))
    let rootPk ← Process.lift (draws.genPk (numSubcircuits - 2))
    let parentPk ← Process.lift (draws.genPk (numSubcircuits - 3))
    saveKey codecs dirs firstLeafPk 0
    saveKeys codecs dirs secondLeafPk 1 (numSubcircuits / 2)
    saveKeys codecs dirs parentPk (numSubcircuits / 2) (numSubcircuits - 2)
    saveKey codecs dirs rootPk (numSubcircuits - 2)
    saveKey codecs dirs paddingPk (numSubcircuits - 1)
    let aggCk ← Process.lift (newAggCk draws numSubcircuits
      (pkFetcher numSubcircuits firstLeafPk secondLeafPk parentPk rootPk paddingPk))
    unwrapIo (serializeToPath codecs.aggCk aggCk dirs.here dirs.coordStateDir
      aggCkFilenamePrefix none)

/-- The subcommand `gen-keys`. -/
def genKeys (numSubcircuits numShaIters numPortals : Nat) : Process Fault Disk Unit := do
  let circParams ← Process.lift (genTestCircuitParams numSubcircuits numShaIters numPortals)
  unwrapIo (serializeToPath codecs.params circParams dirs.here dirs.coordStateDir
    testCircParamFilenamePrefix none)
  generateG16Pks codecs draws dirs circParams

end Generation

section Saving
variable {G₁ G₂ Com K : Type}
variable {codecs : KeyCodecs G₁ G₂ Com K} {dirs : KeyDirs} {fs fs₁ : FileSystem Bytes}
variable {d : Directory} {pk : ProvingKey G₁ G₂} {start stop : Nat}

theorem pk_letter : EndsInLetter g16PkFilenamePrefix :=
  endsInLetter_of ['g', '1', '6', '_', 'p'] 'k' rfl rfl

theorem ck_letter : EndsInLetter g16CkFilenamePrefix :=
  endsInLetter_of ['g', '1', '6', '_', 'c'] 'k' rfl rfl

theorem pk_ne_ck (i j : Option Nat) :
    filename g16PkFilenamePrefix i ≠ filename g16CkFilenamePrefix j := by
  intro same
  obtain ⟨prefixes, _⟩ := filename_injective pk_letter ck_letter same
  revert prefixes
  decide

/-- The names of the keys of a range. -/
def keyNames (start stop : Nat) : Set String :=
  rangeNames g16PkFilenamePrefix start stop ∪ rangeNames g16CkFilenamePrefix start stop

theorem keyNames_mono {start' stop' : Nat} (low : start' ≤ start) (high : stop ≤ stop') :
    keyNames start stop ⊆ keyNames start' stop' := by
  rintro name (⟨i, below, above, rfl⟩ | ⟨i, below, above, rfl⟩)
  · exact Or.inl ⟨i, by omega, by omega, rfl⟩
  · exact Or.inr ⟨i, by omega, by omega, rfl⟩

theorem pkName_mem {i : Nat} :
    filename g16PkFilenamePrefix (some i) ∈ keyNames start stop ↔ start ≤ i ∧ i < stop := by
  constructor
  · rintro (⟨j, low, high, same⟩ | ⟨j, low, high, same⟩)
    · cases filename_index same
      exact ⟨low, high⟩
    · exact absurd same (pk_ne_ck _ _)
  · rintro ⟨low, high⟩
    exact Or.inl ⟨i, low, high, rfl⟩

/-- The names of all keys. -/
def allKeyNames : Set String := {name | ∃ n, name ∈ keyNames 0 n}

theorem keyNames_subset (start stop : Nat) : keyNames start stop ⊆ allKeyNames :=
  fun _ member => ⟨stop, keyNames_mono (Nat.zero_le _) (Nat.le_refl _) member⟩

/-- No key of these indices is there. -/
def KeysFresh (fs : FileSystem Bytes) (d : Directory) (start stop : Nat) : Prop :=
  ∀ name ∈ keyNames start stop, fs.node d name = none

/-- A process that saves one key for a range of indices. -/
def Saves (codecs : KeyCodecs G₁ G₂ Com K) (dirs : KeyDirs) (d : Directory)
    (save : Process Fault Disk Unit) (start stop : Nat) (pk : ProvingKey G₁ G₂) : Prop :=
  ∀ fs : FileSystem Bytes, fs.walk dirs.here dirs.g16PkDir = some d → KeysFresh fs d start stop →
    ∃ fs', save fs = (.ok (), fs') ∧ fs.Frame fs' d (keyNames start stop) ∧
      Shares fs' d dirs.g16PkDir g16PkFilenamePrefix start stop (codecs.pk.serialize pk) ∧
      (fs.LinksWithin allKeyNames → fs'.LinksWithin allKeyNames)

variable (codecs dirs d) in
theorem saveKeys_saves (nonempty : start < stop) (pk : ProvingKey G₁ G₂) :
    Saves codecs dirs d (saveKeys codecs dirs pk start stop) start stop pk := by
  intro fs walked fresh
  obtain ⟨fs₁, ran₁, frame₁, shares, keeps₁⟩ := serializeToPaths_run codecs.pk pk nonempty walked
    fun i low high => fresh _ (Or.inl ⟨i, low, high, rfl⟩)
  obtain ⟨fs₂, ran₂, frame₂, _, keeps₂⟩ := serializeToPaths_run codecs.ck pk.ck nonempty
    ((frame₁.walk_eq _ _).trans walked) (p := g16CkFilenamePrefix) fun i low high => by
      rw [frame₁.kept d _ (Or.inr _)]
      · exact fresh _ (Or.inr ⟨i, low, high, rfl⟩)
      · rintro ⟨j, _, _, same⟩
        exact pk_ne_ck _ _ same.symm
  have names := keyNames_subset start stop
  refine ⟨fs₂, ?_, frame₁.trans frame₂, shares.frame nonempty frame₂ ?_, fun within => ?_⟩
  · exact (Process.bind_of_ok (unwrapIo_of_ok ran₁)).trans (unwrapIo_of_ok ran₂)
  · rintro i _ _ ⟨j, _, _, same⟩
    exact pk_ne_ck _ _ same
  · apply keeps₂ _ (Set.subset_union_right.trans names)
    exact keeps₁ _ (Set.subset_union_left.trans names) within

variable (codecs dirs d) in
theorem saveKey_saves (i : Nat) (pk : ProvingKey G₁ G₂) :
    Saves codecs dirs d (saveKey codecs dirs pk i) i (i + 1) pk := by
  intro fs walked fresh
  have inside : ∀ p, filename p (some i) ∈ rangeNames p i (i + 1) :=
    fun p => ⟨i, Nat.le_refl _, Nat.lt_succ_self _, rfl⟩
  have ran₁ := serializeToPath_run (p := g16PkFilenamePrefix) codecs.pk pk walked
    fun target linked => by cases (fresh _ (Or.inl (inside _))).symm.trans linked
  have frame₁ : fs.Frame (fs.put d _ (.file (codecs.pk.serialize pk))) d
      (rangeNames g16PkFilenamePrefix i (i + 1)) := .put fs _ (inside _)
  have ckFresh : (fs.put d (filename g16PkFilenamePrefix (some i))
      (.file (codecs.pk.serialize pk))).node d (filename g16CkFilenamePrefix (some i)) = none := by
    rw [fs.put_node_of_ne _ (Or.inr (pk_ne_ck _ _).symm)]
    exact fresh _ (Or.inr (inside _))
  have ran₂ := serializeToPath_run (p := g16CkFilenamePrefix) codecs.ck pk.ck
    ((frame₁.walk_eq _ _).trans walked)
    fun target linked => by cases ckFresh.symm.trans linked
  have frame₂ := FileSystem.Frame.put (fs.put d (filename g16PkFilenamePrefix (some i))
    (.file (codecs.pk.serialize pk))) (d := d) (.file (codecs.ck.serialize pk.ck))
    (inside g16CkFilenamePrefix)
  refine ⟨_, (Process.bind_of_ok (unwrapIo_of_ok ran₁)).trans (unwrapIo_of_ok ran₂),
    frame₁.trans frame₂, ⟨?_, fun j low high => ?_⟩, fun within => ?_⟩
  · rw [FileSystem.put_node_of_ne _ _ (Or.inr (pk_ne_ck _ _)), fs.put_node_self]
  · omega
  · exact (within.put_file d _ _).put_file d _ _

/-- A key and the range that it is saved for. -/
structure Group (G₁ G₂ : Type) where
  start : Nat
  stop : Nat
  pk : ProvingKey G₁ G₂

/-- All keys below an index are saved, group by group. -/
structure SavedTo (codecs : KeyCodecs G₁ G₂ Com K) (dirs : KeyDirs) (fs fs' : FileSystem Bytes)
    (d : Directory) (groups : List (Group G₁ G₂)) (n : Nat) : Prop where
  frame : fs.Frame fs' d (keyNames 0 n)
  shares : ∀ g ∈ groups, g.start < g.stop ∧ g.stop ≤ n ∧
    Shares fs' d dirs.g16PkDir g16PkFilenamePrefix g.start g.stop (codecs.pk.serialize g.pk)
  links : fs.LinksWithin allKeyNames → fs'.LinksWithin allKeyNames

theorem SavedTo.none (codecs : KeyCodecs G₁ G₂ Com K) (dirs : KeyDirs) (fs : FileSystem Bytes)
    (d : Directory) : SavedTo codecs dirs fs fs d [] 0 :=
  ⟨.refl fs d _, by simp, id⟩

/-- One more group. -/
theorem SavedTo.step {groups : List (Group G₁ G₂)} {save : Process Fault Disk Unit}
    (saved : SavedTo codecs dirs fs fs₁ d groups start)
    (saves : Saves codecs dirs d save start stop pk) (nonempty : start < stop)
    (walked : fs.walk dirs.here dirs.g16PkDir = some d) (fresh : KeysFresh fs d 0 stop) :
    ∃ fs₂, save fs₁ = (.ok (), fs₂) ∧
      SavedTo codecs dirs fs fs₂ d (groups ++ [⟨start, stop, pk⟩]) stop := by
  have later : ∀ name ∈ keyNames start stop, name ∉ keyNames 0 start := by
    rintro name (⟨i, low, _, rfl⟩ | ⟨i, low, _, rfl⟩) (⟨j, _, high, same⟩ | ⟨j, _, high, same⟩)
    · cases filename_index same
      omega
    · exact pk_ne_ck _ _ same
    · exact pk_ne_ck _ _ same.symm
    · cases filename_index same
      omega
  obtain ⟨fs₂, ran, frame, shares, keeps⟩ := saves fs₁ ((saved.frame.walk_eq _ _).trans walked)
    fun name member => by
      rw [saved.frame.kept d name (Or.inr (later name member))]
      exact fresh name (keyNames_mono (Nat.zero_le _) (Nat.le_refl _) member)
  refine ⟨fs₂, ran, (saved.frame.trans frame).mono (Set.union_subset
    (keyNames_mono (Nat.le_refl _) nonempty.le) (keyNames_mono (Nat.zero_le _) (Nat.le_refl _))),
    fun g member => ?_, keeps ∘ saved.links⟩
  rcases List.mem_append.mp member with earlier | last
  · obtain ⟨some_, below, held⟩ := saved.shares g earlier
    refine ⟨some_, by omega, held.frame some_ frame fun i low high inside => ?_⟩
    have := (pkName_mem.mp inside).1
    omega
  · cases List.mem_singleton.mp last
    exact ⟨nonempty, Nat.le_refl _, shares⟩

theorem saveEach_run {groups : List (Group G₁ G₂)} {pks : List (ProvingKey G₁ G₂)}
    (saved : SavedTo codecs dirs fs fs₁ d groups start)
    (walked : fs.walk dirs.here dirs.g16PkDir = some d)
    (fresh : KeysFresh fs d 0 (start + pks.length)) :
    ∃ fs₂, ((pks.zipIdx start).forM fun p => saveKey codecs dirs p.1 p.2) fs₁ = (.ok (), fs₂) ∧
      SavedTo codecs dirs fs fs₂ d
        (groups ++ (pks.zipIdx start).map fun p => ⟨p.2, p.2 + 1, p.1⟩) (start + pks.length) := by
  induction pks generalizing fs₁ groups start with
  | nil => exact ⟨fs₁, rfl, by simpa using saved⟩
  | cons pk pks ih =>
    rw [List.length_cons] at fresh
    have earlier : KeysFresh fs d 0 (start + 1) := fun name member =>
      fresh name (keyNames_mono (Nat.le_refl _) (by omega) member)
    obtain ⟨fs₂, ran, saved⟩ := saved.step (saveKey_saves codecs dirs d start pk)
      (Nat.lt_succ_self _) walked earlier
    obtain ⟨fs₃, ranRest, saved⟩ := ih saved (by
      rw [show start + 1 + pks.length = start + (pks.length + 1) by omega]
      exact fresh)
    refine ⟨fs₃, (Process.bind_of_ok ran).trans ranRest, ?_⟩
    rw [List.append_assoc, show start + 1 + pks.length = start + (pks.length + 1) by omega] at saved
    exact saved

/-- The subcircuit that the key of a subcircuit is generated for. -/
def keyOwner (n i : Nat) : Nat :=
  if n ≤ 4 then i
  else if i = 0 then 0
  else if i < n / 2 then 1
  else if i < n - 2 then n - 3
  else i

theorem keyOwner_many {n i : Nat} (many : 4 < n) : keyOwner n i =
    if i = 0 then 0 else if i < n / 2 then 1 else if i < n - 2 then n - 3 else i := by
  rw [keyOwner, if_neg (by omega)]

theorem keyOwner_lt {n i : Nat} (inside : i < n) : keyOwner n i < n := by
  rw [keyOwner]
  split
  · exact inside
  split
  · omega
  split
  · omega
  split
  · omega
  · exact inside

/-- Each index has its key among the groups, and shares it exactly where there are many. -/
structure Covered (keys : Nat → ProvingKey G₁ G₂) (groups : List (Group G₁ G₂)) (n : Nat) :
    Prop where
  holds : ∀ i < n, ∃ start stop, ⟨start, stop, keys (keyOwner n i)⟩ ∈ groups ∧
    start ≤ i ∧ i < stop ∧ (n ≤ 4 → i = start)
  several : 4 < n → ∃ g ∈ groups, g.start + 1 < g.stop

variable {keys : Nat → ProvingKey G₁ G₂} {n : Nat}

theorem covered_few (few : n ≤ 4) :
    Covered keys (((List.range n).map keys).zipIdx.map fun p => ⟨p.2, p.2 + 1, p.1⟩) n where
  holds i inside := by
    refine ⟨i, i + 1, ?_, Nat.le_refl _, Nat.lt_succ_self _, fun _ => rfl⟩
    refine List.mem_map.mpr ⟨(keys i, i), ?_, ?_⟩
    · rw [List.mem_zipIdx_iff_getElem?]
      simp [inside]
    · rw [keyOwner, if_pos few]
  several many := by omega

theorem covered_many (many : 8 ≤ n) :
    Covered keys [⟨0, 1, keys 0⟩, ⟨1, n / 2, keys 1⟩, ⟨n / 2, n - 2, keys (n - 3)⟩,
      ⟨n - 2, n - 1, keys (n - 2)⟩, ⟨n - 1, n, keys (n - 1)⟩] n where
  holds i inside := by
    rw [keyOwner_many (by omega)]
    by_cases first : i = 0
    · rw [if_pos first]
      exact ⟨0, 1, by simp, by omega, by omega, by omega⟩
    rw [if_neg first]
    by_cases leaf : i < n / 2
    · rw [if_pos leaf]
      exact ⟨1, n / 2, by simp, by omega, leaf, by omega⟩
    rw [if_neg leaf]
    by_cases parent : i < n - 2
    · rw [if_pos parent]
      exact ⟨n / 2, n - 2, by simp, by omega, parent, by omega⟩
    rw [if_neg parent]
    by_cases root : i = n - 2
    · subst root
      exact ⟨n - 2, n - 1, by simp, by omega, by omega, by omega⟩
    · have last : i = n - 1 := by omega
      subst last
      exact ⟨n - 1, n, by simp, by omega, by omega, by omega⟩
  several _ := ⟨⟨1, n / 2, keys 1⟩, by simp, show 1 + 1 < n / 2 by omega⟩

end Saving

section Whole
variable {F G₁ G₂ Com K : Type} [Field F] [AddCommGroup G₁] [Module F G₁]
variable [AddCommGroup G₂] [Module F G₂] [AddCommGroup Com] [Module F Com]
variable {codecs : KeyCodecs G₁ G₂ Com K} {draws : KeyDraws F G₁ G₂ Com K} {dirs : KeyDirs}
variable {fs fs₁ : FileSystem Bytes} {d dState : Directory} {keys : Nat → ProvingKey G₁ G₂}
variable {n : Nat} {agg : AggProvingKey G₁ G₂ Com}

/-- The keys are drawn, and the aggregation key is made of the owners'. -/
structure Drawn (draws : KeyDraws F G₁ G₂ Com K) (n : Nat) (keys : Nat → ProvingKey G₁ G₂)
    (agg : AggProvingKey G₁ G₂ Com) : Prop where
  drawn : ∀ i < n, draws.genPk i = .ok (keys i)
  size : (draws.ipp (draws.tipaSetup n)).supportedSize = n
  built : AggProvingKey.new (draws.ipp (draws.tipaSetup n)) (fun i => keys (keyOwner n i)) = .ok agg

theorem new_congr {ipp : TIPPCommitment F G₁ G₂ Com} {f g : Nat → ProvingKey G₁ G₂}
    (same : ∀ i < ipp.supportedSize, f i = g i) :
    AggProvingKey.new ipp f = AggProvingKey.new ipp g := by
  have loops : ∀ l : List Nat, (∀ i ∈ l, i < ipp.supportedSize) →
      (l.mapM fun i => keyParts (f i)) = l.mapM fun i => keyParts (g i) := by
    intro l inside
    induction l with
    | nil => rfl
    | cons i l ih =>
      obtain ⟨here, rest⟩ := List.forall_mem_cons.mp inside
      rw [List.mapM_cons, List.mapM_cons, same i here, ih rest]
  rw [AggProvingKey.new, AggProvingKey.new, loops _ fun i member => List.mem_range.mp member]

/-- A fetcher that gives the owners' keys makes the aggregation key. -/
theorem newAggCk_eq (made : Drawn draws n keys agg) {fetcher : Nat → Outcome (ProvingKey G₁ G₂)}
    (fetches : ∀ i < n, fetcher i = .ok (keys (keyOwner n i))) :
    newAggCk draws n fetcher = .ok (draws.tipaSetup n, agg) := by
  have all : (List.range n).mapM fetcher = .ok ((List.range n).map fun i => keys (keyOwner n i)) :=
    mapM_eq_ok fun i member => fetches i (List.mem_range.mp member)
  have built : AggProvingKey.new (draws.ipp (draws.tipaSetup n))
      (fun i => ((List.range n).map fun i => keys (keyOwner n i)).getD i default) = .ok agg := by
    rw [← made.built]
    apply new_congr
    intro i inside
    rw [made.size] at inside
    simp [inside]
  simp only [newAggCk, made.size, all, ok_bind, built]

omit [AddCommGroup G₁] [AddCommGroup G₂] in
theorem pkFetcher_eq (many : 4 < n) {i : Nat} (inside : i < n) :
    pkFetcher n (keys 0) (keys 1) (keys (n - 3)) (keys (n - 2)) (keys (n - 1)) i =
      .ok (keys (keyOwner n i)) := by
  rw [keyOwner_many many, pkFetcher]
  by_cases first : i = 0
  · rw [if_pos first, if_pos first]
  rw [if_neg first, if_neg first]
  by_cases leaf : i < n / 2
  · rw [if_pos (by omega), if_pos leaf]
  rw [if_neg (by omega), if_neg leaf]
  by_cases parent : i < n - 2
  · rw [if_pos (by omega), if_pos parent]
  rw [if_neg (by omega), if_neg parent]
  by_cases root : i = n - 2
  · rw [if_pos root, root]
  · have last : i = n - 1 := by omega
    rw [if_neg root, if_pos last, last]

theorem stateName_not_mem {p : String} (letter : EndsInLetter p) :
    filename p none ∉ allKeyNames := by
  rintro ⟨n, ⟨i, _, _, same⟩ | ⟨i, _, _, same⟩⟩
  · cases (filename_injective letter pk_letter same).2
  · cases (filename_injective letter ck_letter same).2

theorem aggCk_letter : EndsInLetter aggCkFilenamePrefix :=
  endsInLetter_of ['a', 'g', 'g', '_', 'c'] 'k' rfl rfl

theorem params_letter : EndsInLetter testCircParamFilenamePrefix :=
  endsInLetter_of "test_circ_param".toList 's' rfl rfl

theorem params_ne_aggCk :
    filename testCircParamFilenamePrefix none ≠ filename aggCkFilenamePrefix none := by
  decide

variable (fs) in
/-- The keys are written, and then the aggregation key. -/
theorem generateG16Pks_run {circParams : MerkleTreeCircuitParams} {k : Nat}
    (power : circParams.numLeaves = 2 ^ k) (made : Drawn draws circParams.numSubcircuits keys agg)
    (walked : fs.walk dirs.here dirs.g16PkDir = some d)
    (walkedState : fs.walk dirs.here dirs.coordStateDir = some dState)
    (fresh : KeysFresh fs d 0 circParams.numSubcircuits)
    (plain : fs.Plain dState (filename aggCkFilenamePrefix none)) :
    ∃ fs₁ groups, SavedTo codecs dirs fs fs₁ d groups circParams.numSubcircuits ∧
      Covered keys groups circParams.numSubcircuits ∧
      generateG16Pks codecs draws dirs circParams fs =
        (.ok (), fs₁.put dState (filename aggCkFilenamePrefix none) (.file (codecs.aggCk.serialize
          (draws.tipaSetup circParams.numSubcircuits, agg)))) := by
  have whole := MerkleTreeCircuitParams.numSubcircuits_eq power
  dsimp only [generateG16Pks]
  generalize circParams.numSubcircuits = n at *
  have finish : ∀ fs₁ groups, SavedTo codecs dirs fs fs₁ d groups n →
      unwrapIo (serializeToPath codecs.aggCk (draws.tipaSetup n, agg) dirs.here dirs.coordStateDir
        aggCkFilenamePrefix none) fs₁ = (.ok (), fs₁.put dState
          (filename aggCkFilenamePrefix none)
          (.file (codecs.aggCk.serialize (draws.tipaSetup n, agg)))) := by
    intro fs₁ groups saved
    apply unwrapIo_of_ok
    apply serializeToPath_run _ _ ((saved.frame.walk_eq _ _).trans walkedState)
    intro target
    rw [saved.frame.kept dState _ (Or.inr fun inside =>
      stateName_not_mem aggCk_letter (keyNames_subset 0 n inside))]
    exact plain target
  by_cases few : n ≤ 4
  · have all : (List.range n).mapM draws.genPk = .ok ((List.range n).map keys) :=
      mapM_eq_ok fun i member => made.drawn i (List.mem_range.mp member)
    have size : ((List.range n).map keys).length = n := by simp
    have within : KeysFresh fs d 0 (0 + ((List.range n).map keys).length) := by simpa using fresh
    obtain ⟨fs₁, ran, saved⟩ := saveEach_run (SavedTo.none codecs dirs fs d) walked within
    rw [Nat.zero_add, size, List.nil_append] at saved
    have fetched : ∀ i < n, indexed ((List.range n).map keys) i = .ok (keys (keyOwner n i)) := by
      intro i inside
      simp [indexed, keyOwner, few, inside]
    have built := newAggCk_eq made fetched
    refine ⟨fs₁, _, saved, covered_few few, ?_⟩
    rw [if_pos few, all, Process.lift_ok_bind, built]
    exact (Process.bind_of_ok ran).trans (finish fs₁ _ saved)
  · have many : 8 ≤ n := by
      obtain _ | _ | k := k
      · omega
      · omega
      · have double : 2 ^ (k + 2 + 1) = 8 * 2 ^ k := by ring
        have := Nat.two_pow_pos k
        omega
    have names : ∀ m ≤ n, KeysFresh fs d 0 m := fun m below name member =>
      fresh name (keyNames_mono (Nat.le_refl _) below member)
    have save₁ := saveKey_saves codecs dirs d 0 (keys 0)
    have save₂ := saveKeys_saves codecs dirs d
      (show 1 < n / 2 by omega) (keys 1)
    have save₃ := saveKeys_saves codecs dirs d
      (show n / 2 < n - 2 by omega) (keys (n - 3))
    have save₄ := saveKey_saves codecs dirs d (n - 2) (keys (n - 2))
    have save₅ := saveKey_saves codecs dirs d (n - 1) (keys (n - 1))
    rw [show n - 2 + 1 = n - 1 by omega] at save₄
    rw [show n - 1 + 1 = n by omega] at save₅
    obtain ⟨fs₁, ran₁, saved⟩ := (SavedTo.none codecs dirs fs d).step save₁ (by omega) walked
      (names 1 (by omega))
    obtain ⟨fs₂, ran₂, saved⟩ := saved.step save₂ (by omega) walked (names _ (by omega))
    obtain ⟨fs₃, ran₃, saved⟩ := saved.step save₃ (by omega) walked (names _ (by omega))
    obtain ⟨fs₄, ran₄, saved⟩ := saved.step save₄ (by omega) walked (names _ (by omega))
    obtain ⟨fs₅, ran₅, saved⟩ := saved.step save₅ (by omega) walked (names _ (by omega))
    have built := newAggCk_eq made fun i inside => pkFetcher_eq (by omega) inside
    refine ⟨fs₅, _, saved, covered_many many, ?_⟩
    rw [if_neg few, made.drawn 0 (by omega), made.drawn 1 (by omega),
      made.drawn (n - 1) (by omega), made.drawn (n - 2) (by omega), made.drawn (n - 3) (by omega)]
    simp only [Process.lift_ok_bind, built]
    exact (Process.bind_of_ok ran₁).trans ((Process.bind_of_ok ran₂).trans
      ((Process.bind_of_ok ran₃).trans ((Process.bind_of_ok ran₄).trans
        ((Process.bind_of_ok ran₅).trans (finish fs₅ _ saved)))))

/-- What `gen-keys` leaves. -/
structure KeysSaved (codecs : KeyCodecs G₁ G₂ Com K) (dirs : KeyDirs) (fs fs' : FileSystem Bytes)
    (d dState : Directory) (params : MerkleTreeCircuitParams) (keys : Nat → ProvingKey G₁ G₂)
    (aggCk : K × AggProvingKey G₁ G₂ Com) : Prop where
  directories : fs'.isDirectory = fs.isDirectory
  links : fs.LinksWithin allKeyNames → fs'.LinksWithin allKeyNames
  kept : ∀ d' name, name ∉ keyNames 0 params.numSubcircuits →
    name ≠ filename testCircParamFilenamePrefix none → name ≠ filename aggCkFilenamePrefix none →
    fs'.node d' name = fs.node d' name
  elsewhere : ∀ d' name, d' ≠ d → name ∈ keyNames 0 params.numSubcircuits →
    fs'.node d' name = fs.node d' name
  paramsFile : fs'.node dState (filename testCircParamFilenamePrefix none) =
    some (.file (codecs.params.serialize params))
  aggCkFile : fs'.node dState (filename aggCkFilenamePrefix none) =
    some (.file (codecs.aggCk.serialize aggCk))
  groups : ∃ groups, Covered keys groups params.numSubcircuits ∧
    ∀ g ∈ groups, g.start < g.stop ∧ g.stop ≤ params.numSubcircuits ∧
      Shares fs' d dirs.g16PkDir g16PkFilenamePrefix g.start g.stop (codecs.pk.serialize g.pk)

/-- Parameters that pass the checks of the subcommand. -/
structure Checked (params : MerkleTreeCircuitParams) (k : Nat) : Prop where
  power : params.numLeaves = 2 ^ k
  iterations : 0 < params.numShaItersPerSubcircuit
  portals : 0 < params.numPortalsPerSubcircuit

variable {params : MerkleTreeCircuitParams} {k : Nat}

theorem genTestCircuitParams_eq (checked : Checked params k) :
    genTestCircuitParams params.numSubcircuits params.numShaItersPerSubcircuit
      params.numPortalsPerSubcircuit = .ok params := by
  have whole := MerkleTreeCircuitParams.numSubcircuits_eq checked.power
  have power : isPowerOfTwo (2 ^ (k + 1)) = true := by simp [isPowerOfTwo]
  have several : 1 < 2 ^ (k + 1) := Nat.one_lt_two_pow (Nat.succ_ne_zero k)
  have half : params.numSubcircuits / 2 = params.numLeaves := by
    rw [MerkleTreeCircuitParams.numSubcircuits]
    omega
  rw [whole] at half
  simp [genTestCircuitParams, half, whole, power, several, checked.iterations, checked.portals]

variable (codecs) in
theorem genKeys_run (checked : Checked params k) (made : Drawn draws params.numSubcircuits keys agg)
    (walked : fs.walk dirs.here dirs.g16PkDir = some d)
    (walkedState : fs.walk dirs.here dirs.coordStateDir = some dState)
    (fresh : KeysFresh fs d 0 params.numSubcircuits)
    (plain : fs.Plain dState (filename testCircParamFilenamePrefix none))
    (plain' : fs.Plain dState (filename aggCkFilenamePrefix none)) :
    ∃ fs', genKeys codecs draws dirs params.numSubcircuits params.numShaItersPerSubcircuit
        params.numPortalsPerSubcircuit fs = (.ok (), fs') ∧
      KeysSaved codecs dirs fs fs' d dState params keys
        (draws.tipaSetup params.numSubcircuits, agg) := by
  have outside : ∀ p, EndsInLetter p → ∀ name ∈ keyNames 0 params.numSubcircuits,
      name ≠ filename p none := by
    rintro p letter name member rfl
    exact stateName_not_mem letter (keyNames_subset _ _ member)
  have written := unwrapIo_of_ok (serializeToPath_run codecs.params params walkedState plain)
  obtain ⟨fs₁, groups, saved, covered, ran⟩ := generateG16Pks_run
    (fs.put dState (filename testCircParamFilenamePrefix none)
      (.file (codecs.params.serialize params))) checked.power made walked walkedState
    (fun name member => by
      rw [fs.put_node_of_ne _ (Or.inr (outside _ params_letter name member))]
      exact fresh name member)
    (fun target => by
      rw [fs.put_node_of_ne _ (Or.inr params_ne_aggCk.symm)]
      exact plain' target)
  refine ⟨fs₁.put dState (filename aggCkFilenamePrefix none) (.file (codecs.aggCk.serialize
    (draws.tipaSetup params.numSubcircuits, agg))), ?_, ?_⟩
  · rw [genKeys, genTestCircuitParams_eq checked]
    exact (Process.bind_of_ok written).trans ran
  constructor
  · exact saved.frame.directories
  · intro within
    exact (saved.links (within.put_file _ _ _)).put_file _ _ _
  · intro d' name other noParams noAggCk
    rw [FileSystem.put_node_of_ne _ _ (Or.inr noAggCk), saved.frame.kept d' name (Or.inr other),
      fs.put_node_of_ne _ (Or.inr noParams)]
  · intro d' name other member
    rw [FileSystem.put_node_of_ne _ _ (Or.inr (outside _ aggCk_letter name member)),
      saved.frame.kept d' name (Or.inl other),
      fs.put_node_of_ne _ (Or.inr (outside _ params_letter name member))]
  · rw [FileSystem.put_node_of_ne _ _ (Or.inr params_ne_aggCk),
      saved.frame.kept dState _ (Or.inr fun member => outside _ params_letter _ member rfl),
      fs.put_node_self]
  · rw [FileSystem.put_node_self]
  · refine ⟨groups, covered, fun g member => ?_⟩
    obtain ⟨nonempty, below, shares⟩ := saved.shares g member
    have last : fs₁.Frame (fs₁.put dState (filename aggCkFilenamePrefix none) (.file
        (codecs.aggCk.serialize (draws.tipaSetup params.numSubcircuits, agg)))) dState
        {filename aggCkFilenamePrefix none} := .put fs₁ _ rfl
    refine ⟨nonempty, below, shares.frame nonempty last fun i low high inside => ?_⟩
    exact outside _ aggCk_letter _ (pkName_mem.mpr ⟨Nat.zero_le _, by omega⟩) inside

section Found
variable {fs' : FileSystem Bytes} {aggCk : K × AggProvingKey G₁ G₂ Com}

omit [AddCommGroup G₁] [AddCommGroup G₂] [AddCommGroup Com] in
theorem KeysSaved.walk_eq (saved : KeysSaved codecs dirs fs fs' d dState params keys aggCk)
    (here : Directory) (path : DirectoryPath) : fs'.walk here path = fs.walk here path :=
  FileSystem.walk_congr saved.directories here path

omit [AddCommGroup G₁] [AddCommGroup G₂] [AddCommGroup Com] in
/-- Where the path leads back, each index has its owner's key. -/
theorem KeysSaved.content_key (saved : KeysSaved codecs dirs fs fs' d dState params keys aggCk)
    (back : params.numSubcircuits ≤ 4 ∨ LeadsBack fs d dirs.g16PkDir) {i : Nat}
    (inside : i < params.numSubcircuits) :
    fs'.content d (filename g16PkFilenamePrefix (some i)) =
      some (codecs.pk.serialize (keys (keyOwner params.numSubcircuits i))) := by
  obtain ⟨groups, covered, shares⟩ := saved.groups
  obtain ⟨start, stop, member, low, high, own⟩ := covered.holds i inside
  obtain ⟨_, _, held⟩ := shares _ member
  rcases back with few | back
  · cases own few
    exact held.content_first
  · apply held.content_back _ low high
    rw [LeadsBack, saved.walk_eq]
    exact back

omit [AddCommGroup G₁] [AddCommGroup G₂] [AddCommGroup Com] in
/-- Otherwise some index has none. -/
theorem KeysSaved.content_lost (saved : KeysSaved codecs dirs fs fs' d dState params keys aggCk)
    (elsewhere : ∀ d', d' ≠ d → KeysFresh fs d' 0 params.numSubcircuits)
    (many : 4 < params.numSubcircuits) (lost : ¬ LeadsBack fs d dirs.g16PkDir) :
    ∃ i < params.numSubcircuits,
      fs'.content d (filename g16PkFilenamePrefix (some i)) = none := by
  obtain ⟨groups, covered, shares⟩ := saved.groups
  obtain ⟨g, member, several⟩ := covered.several many
  obtain ⟨_, below, held⟩ := shares g member
  refine ⟨g.start + 1, by omega, held.content_lost (fun d' other => ?_) ?_ (by omega) several⟩
  · have name := pkName_mem.mpr ⟨Nat.zero_le g.start, show g.start < params.numSubcircuits by omega⟩
    rw [saved.elsewhere d' _ other name]
    exact elsewhere d' other _ name
  · rw [LeadsBack, saved.walk_eq]
    exact lost

end Found
end Whole

section Rows
open PrimeFields KeyReuse SubcircuitCircuit SubcircuitShapes EvalTree Transcript TreeHashRuns
  TreeHashTraces TreeIndexing

variable {F D : Type} [Field F] [PrimeField F] [DecidableEq F] [Inhabited D] [DecidableEq D]
variable {overflowChecks : Bool} {sha : Sha256 F D} {params : MerkleTreeCircuitParams}

theorem keyOwner_role {i : Nat} (inside : i < params.numSubcircuits) :
    SameRole params i (keyOwner params.numSubcircuits i) := by
  have double : params.numSubcircuits = 2 * params.numLeaves := rfl
  have half : params.numSubcircuits / 2 = params.numLeaves := by omega
  have below := keyOwner_lt inside
  by_cases few : params.numSubcircuits ≤ 4
  · rw [keyOwner, if_pos few] at *
    exact ⟨inside, Iff.rfl, Iff.rfl, Iff.rfl, Iff.rfl⟩
  rw [keyOwner_many (by omega), half] at *
  by_cases first : i = 0
  · rw [if_pos first] at *
    exact ⟨below, by omega, by omega, by omega, by omega⟩
  rw [if_neg first] at *
  by_cases leaf : i < params.numLeaves
  · rw [if_pos leaf] at *
    exact ⟨below, by omega, by omega, by omega, by omega⟩
  rw [if_neg leaf] at *
  by_cases parent : i < params.numSubcircuits - 2
  · rw [if_pos parent] at *
    exact ⟨below, by omega, by omega, by omega, by omega⟩
  · rw [if_neg parent] at *
    exact ⟨below, Iff.rfl, Iff.rfl, Iff.rfl, Iff.rfl⟩

/-- The prover of a subcircuit has the rows of the prover that its key is generated for, for
any trees of these parameters. -/
theorem owner_sharesRows {gadget : TreeConfigGadget F D} (lawful : gadget.Lawful)
    (uniform : Uniform sha) {k : Nat} (checked : Checked params k) {i : Nat}
    (inside : i < params.numSubcircuits) (c c₀ c' c₀' : MerkleTreeCircuit params)
    {traces traces' : List (List (TranscriptEntry F .rom))}
    {p p' : SubcircuitWithPortalsProver F D .rom}
    (recorded : getPortalSubtraces overflowChecks sha c₀ = .ok traces)
    (recorded' : getPortalSubtraces overflowChecks sha c₀' = .ok traces')
    (assigned : Assigned (circuit overflowChecks sha c) traces i p)
    (assigned' : Assigned (circuit overflowChecks sha c') traces'
      (keyOwner params.numSubcircuits i) p') : SameStages gadget p p' := by
  have role := keyOwner_role inside
  have double : params.numSubcircuits = 2 * params.numLeaves := rfl
  have whole := MerkleTreeCircuitParams.numSubcircuits_eq checked.power
  obtain ⟨lengths, found⟩ := recorded_lengths (by omega) checked.portals recorded
  obtain ⟨lengths', _⟩ := recorded_lengths (by omega) checked.portals recorded'
  have height : k < 32 := by
    obtain ⟨node, root⟩ := found (params.numSubcircuits - 2) (by omega)
    rw [whole, checked.power] at root
    exact (height_of_root root).1
  have length := length_of_recorded lengths assigned.time
  have length' := length_of_recorded lengths' assigned'.time
  rw [← role.callCount_eq inside] at length'
  have same := comparable assigned assigned' rfl length length'
    (generateConstraints_alike uniform checked.power height checked.portals found inside role)
  apply same_of_alike lawful assigned assigned' same role.first
  have padding := role.padding
  have below := role.inside
  change i = params.numSubcircuits - 1 ↔ keyOwner params.numSubcircuits i =
    params.numSubcircuits - 1
  omega

end Rows

section Eight
open PrimeFields KeyReuse SubcircuitShapes EvalTree Sha256Digests TreeHashRuns

/-- The key of subcircuit 4 is generated for subcircuit 5. -/
theorem parents_shareRows : ∃ traces first second,
    fourLeavesCircuit.getPortalSubtraces = .ok traces ∧ traces[4]? = some first ∧
    traces[5]? = some second ∧ keyOwner 8 4 = 5 ∧
    SameStages (freeGadget Bls12381Fr) (proverOf fourLeavesCircuit 4 first)
      (proverOf fourLeavesCircuit 5 second) := by
  have fit : Fitting true (standard Bls12381Fr (FreeDigest Bls12381Fr)) ⟨4, 1, 1⟩ 2 :=
    ⟨digest_length, by decide, by decide, rfl, by decide, by decide⟩
  obtain ⟨traces, recorded, found⟩ := recorded_found (c := fourLeaves) fit
  obtain ⟨first, here⟩ := found 4 (by decide)
  obtain ⟨second, there⟩ := found 5 (by decide)
  have checked : Checked ⟨4, 1, 1⟩ 2 := ⟨rfl, Nat.one_pos, Nat.one_pos⟩
  have inside : 4 < MerkleTreeCircuitParams.numSubcircuits ⟨4, 1, 1⟩ := by decide
  exact ⟨traces, first, second, recorded, here, there, rfl, owner_sharesRows
    (pathGadget_lawful _ _) (standard_uniform (F := Bls12381Fr) (D := FreeDigest Bls12381Fr))
    checked inside fourLeaves fourLeaves fourLeaves fourLeaves recorded recorded
    (proverOf_assigned here) (proverOf_assigned there)⟩

end Eight

/-- Vectors of this length are summed up. -/
def sumCommitment (n : Nat) : TIPPCommitment (ZMod 3) (ZMod 3) (ZMod 3) (ZMod 3) :=
  weighted (List.replicate n 1)

/-- A key with its number in two elements. -/
def numberedKey (pk : ProvingKey (ZMod 3) (ZMod 3)) (i : Nat) : ProvingKey (ZMod 3) (ZMod 3) :=
  { pk with vk := { pk.vk with alphaG := (i : ZMod 3), betaH := ((i / 3 : Nat) : ZMod 3) } }

def keyNumber (pk : ProvingKey (ZMod 3) (ZMod 3)) : UInt8 :=
  .ofNat (pk.vk.alphaG.val + 3 * pk.vk.betaH.val)

/-- Eight keys, told apart by their numbers. -/
def numberedCodec (pk : ProvingKey (ZMod 3) (ZMod 3)) : Codec (ProvingKey (ZMod 3) (ZMod 3)) :=
  tableCodec keyNumber ((List.range 8).map (numberedKey pk))

theorem numberedCodec_reads (pk : ProvingKey (ZMod 3) (ZMod 3)) {i : Nat} (inside : i < 8) :
    Reads (numberedCodec pk).deserialize ((numberedCodec pk).serialize (numberedKey pk i))
      (numberedKey pk i) := by
  refine tableCodec_reads ?_ (List.mem_map_of_mem (List.mem_range.mpr inside))
  rw [List.map_map]
  change ((List.range 8).map fun i : Nat => UInt8.ofNat
    ((i : ZMod 3).val + 3 * ((i / 3 : Nat) : ZMod 3).val)).Nodup
  decide

/-- The directories `/k` and `/s`, the first one given as a path from the root or not. -/
def twoDirs (absolute : Bool) : KeyDirs := ⟨[], ⟨absolute, ["k"]⟩, ⟨true, ["s"]⟩⟩

def emptyDisk : FileSystem Bytes := ⟨fun _ => true, fun _ _ => none⟩

end CliKeys
