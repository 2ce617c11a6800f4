import Hekaton.MirroredRuns
import Hekaton.Recordings
import Hekaton.TreeHashCircuit

/-!
# Traces of the Merkle tree circuit

The native trace is a computation on the values of the portal wires. Each subcircuit adds a
subtrace of its own: a leaf has one entry for its hash, a parent three, the first leaf one
more for the placeholder, and all of them the same number of reads of it.
-/

namespace TreeHashTraces

open Outcomes Wires Synthesis Contracts Transcript PortalManager PrimeFields Codecs
open VkdHash FieldGadgets HonestRuns MirroredRuns TreeIndexing TreeHashCircuit

section Growth
variable {F : Type} {pm pm' pm'' : SetupRomPortalManager F} {name : String} {value : F} {n n' : Nat}

/-- These entries were added to the last subtrace. -/
def Pushes (made : List (TranscriptEntry F .rom)) (pm pm' : SetupRomPortalManager F) : Prop :=
  ∀ before subtrace, pm.subtraces = before ++ [subtrace] →
    pm'.subtraces = before ++ [subtrace ++ made]

theorem Pushes.refl (pm : SetupRomPortalManager F) : Pushes [] pm pm := by
  intro before subtrace last
  rw [last, List.append_nil]

theorem Pushes.trans {made made' : List (TranscriptEntry F .rom)} (first : Pushes made pm pm')
    (rest : Pushes made' pm' pm'') : Pushes (made ++ made') pm pm'' := by
  intro before subtrace last
  rw [rest before _ (first before subtrace last), List.append_assoc]

theorem Pushes.of_push {e : TranscriptEntry F .rom}
    (pushed : pushEntry pm.subtraces e = .ok pm'.subtraces) : Pushes [e] pm pm' := by
  intro before subtrace last
  rw [last, Scripts.pushEntry_last] at pushed
  exact (Except.ok.inj pushed).symm

theorem Pushes.of_get (got : SetupManager.getValue pm name = .ok (value, pm')) :
    ∃ entry, Pushes [.rom entry] pm pm' := by
  obtain ⟨entry, _, rest⟩ := bind_eq_ok.mp got
  obtain ⟨subtraces, pushed, same⟩ := bind_eq_ok.mp rest
  cases same
  exact ⟨entry, .of_push pushed⟩

theorem Pushes.of_set (set : SetupManager.setValue pm name value = .ok pm') :
    Pushes [.rom ⟨pm.nextVarAddr, value⟩] pm pm' := by
  obtain ⟨_, subtraces, pushed, rfl⟩ := of_setValue set
  exact .of_push pushed

/-- So many entries were added to the last subtrace. -/
def Grows (n : Nat) (pm pm' : SetupRomPortalManager F) : Prop :=
  ∃ made, made.length = n ∧ Pushes made pm pm'

theorem Grows.trans (first : Grows n pm pm') (rest : Grows n' pm' pm'') :
    Grows (n + n') pm pm'' := by
  obtain ⟨made, count, pushes⟩ := first
  obtain ⟨made', count', pushes'⟩ := rest
  exact ⟨made ++ made', by rw [List.length_append, count, count'], pushes.trans pushes'⟩

theorem Grows.of_get (got : SetupManager.getValue pm name = .ok (value, pm')) : Grows 1 pm pm' := by
  obtain ⟨entry, pushes⟩ := Pushes.of_get got
  exact ⟨_, rfl, pushes⟩

theorem Grows.of_set (set : SetupManager.setValue pm name value = .ok pm') : Grows 1 pm pm' :=
  ⟨_, rfl, .of_set set⟩

/-- A subtrace of so many entries was added. -/
def Adds (n : Nat) (pm pm' : SetupRomPortalManager F) : Prop :=
  ∃ made, made.length = n ∧ pm'.subtraces = pm.subtraces ++ [made]

theorem Grows.adds (grows : Grows n pm.startSubtrace pm') : Adds n pm pm' := by
  obtain ⟨made, count, pushes⟩ := grows
  exact ⟨made, count, pushes pm.subtraces [] rfl⟩

end Growth

section Effects
variable {F D : Type} [Field F] [PrimeField F] (overflowChecks : Bool) (sha : Sha256 F D)
variable (params : MerkleTreeCircuitParams)

omit [PrimeField F] in
/-- The element of a digest of 32 bytes. -/
def digestElement (digest : List UInt8) : F := fromLeBytesModOrder (digest.take innerHashSize)

omit [Field F] [PrimeField F] in
def dummyEffect (pm : SetupRomPortalManager F) : Outcome (SetupRomPortalManager F) := do
  let count ← subBits overflowChecks 64 params.numPortalsPerSubcircuit 1
  (List.range count).foldlM (fun pm _ => do
    let got ← SetupManager.getValue (F := F) pm placeholder
    .ok got.2) pm

omit [PrimeField F] in
def placeholderEffect (pm : SetupRomPortalManager F) (subcircuitIdx : Nat) :
    Outcome (SetupRomPortalManager F) :=
  if subcircuitIdx = 0 then SetupManager.setValue pm placeholder (0 : F) else .ok pm

omit [PrimeField F] in
def leafEffect (pm : SetupRomPortalManager F) (subcircuitIdx : Nat) (leaf : TestLeaf) :
    Outcome (SetupRomPortalManager F) := do
  let leafHash ← wholeDigest sha params leaf.toList
  let nodeIdx ← subcircuitIdxToNodeIdx overflowChecks subcircuitIdx params.numLeaves
  SetupManager.setValue pm (nodeName nodeIdx) (digestElement leafHash : F)

/-- What a parent hashes: the first bytes of its children's hashes. -/
def siblingBytes (left right : F) : List UInt8 := (truncated left).toList ++ (truncated right).toList

def parentEffect (pm : SetupRomPortalManager F) (subcircuitIdx : Nat) :
    Outcome (SetupRomPortalManager F) := do
  let nodeIdx ← subcircuitIdxToNodeIdx overflowChecks subcircuitIdx params.numLeaves
  let left ← leftChild nodeIdx
  let right ← rightChild nodeIdx
  let leftGot ← SetupManager.getValue (F := F) pm (nodeName left)
  let rightGot ← SetupManager.getValue (F := F) leftGot.2 (nodeName right)
  let parent ← wholeDigest sha params (siblingBytes leftGot.1 rightGot.1)
  SetupManager.setValue rightGot.2 (nodeName nodeIdx) (digestElement parent : F)

variable {params}

omit [Field F] [PrimeField F] in
def leafAt (c : MerkleTreeCircuit params) (i : Nat) : TestLeaf := c.leaves.toList.getD i emptyLeaf

/-- A subcircuit's own calls. -/
def treeEffect (c : MerkleTreeCircuit params) (pm : SetupRomPortalManager F) (subcircuitIdx : Nat) :
    Outcome (SetupRomPortalManager F) :=
  if subcircuitIdx < params.numLeaves then
    leafEffect overflowChecks sha params pm subcircuitIdx (leafAt c subcircuitIdx)
  else if subcircuitIdx + 1 < params.numSubcircuits then
    parentEffect overflowChecks sha params pm subcircuitIdx
  else .ok pm

def subcircuitEffect (c : MerkleTreeCircuit params) (pm : SetupRomPortalManager F)
    (subcircuitIdx : Nat) : Outcome (SetupRomPortalManager F) := do
  let pm ← treeEffect overflowChecks sha c pm subcircuitIdx
  let pm ← placeholderEffect pm subcircuitIdx
  dummyEffect overflowChecks params pm

def traceEffect (c : MerkleTreeCircuit params) : Outcome (SetupRomPortalManager F) :=
  recordEffects (F := F) (fun idx pm => subcircuitEffect overflowChecks sha c pm idx)
    (List.range params.numSubcircuits) SetupRomPortalManager.new

end Effects

section Mirrored
variable {F D : Type} [Field F] [PrimeField F] [DecidableEq F] [Inhabited D] [DecidableEq D]
variable {overflowChecks : Bool} {sha : Sha256 F D} {params : MerkleTreeCircuitParams}
variable {vars : List (Variable F D)}

omit [PrimeField F] in
theorem digestToFpvar_element {vs : List (UInt8Var F D)} {digest : List UInt8}
    (bytes : BytesValued vars vs digest) :
    Valued vars (digestToFpvar vs) (digestElement digest) := by
  intro more
  rw [digestToFpvar_eval, bytes more, digestElement]

/-- The bytes of a portal wire, as a parent reads them. -/
theorem fpvarToDigest_bytes {w : Wire F D .field} {value : F} (hw : Valued vars w value) :
    ∃ vs, Computes (fpvarToDigest w) vs ∧ BytesValued vars vs (truncated value).toList := by
  obtain ⟨vs, computes, _, bytes⟩ := fpvarToDigest_computes w
  refine ⟨vs, computes, fun more => ?_⟩
  rw [bytes, hw more]

omit [PrimeField F] in
theorem BytesValued.append {vs vs' : List (UInt8Var F D)} {bytes bytes' : List UInt8}
    (first : BytesValued vars vs bytes) (rest : BytesValued vars vs' bytes') :
    BytesValued vars (vs ++ vs') (bytes ++ bytes') := by
  intro more
  rw [bytesValue, List.map_append]
  exact congrArg₂ (· ++ ·) (first more) (rest more)

omit [PrimeField F] in
theorem readBytes_decides {vs : List (UInt8Var F D)} {bytes : List UInt8}
    (valued : BytesValued vars vs bytes) :
    Decides vars (readBytes vs) True fun now read => read = bytes ∧ now = vars := by
  refine ⟨_, .empty, rfl, fun _ => iff_true_intro Emission.satisfied_empty, ?_, List.append_nil _⟩
  have now := valued []
  rwa [List.append_nil] at now

omit [PrimeField F] in
theorem setNode_mirrors (pm : SetupRomPortalManager F) (nodeIdx : Nat) (digest : List UInt8) :
    Mirrors vars (setNode (D := D) pm nodeIdx digest)
      (SetupManager.setValue pm (nodeName nodeIdx) (digestElement digest : F)) fun _ a b => a = b := by
  apply Mirrors.decides_bind (newWitnessVec_decides digest)
  intro more vs bytes
  exact romSet_mirrors (digestToFpvar_element bytes)

omit [PrimeField F] in
theorem nativePlaceholder_mirrors (pm : SetupRomPortalManager F) (idx : Nat) :
    Mirrors vars (nativePlaceholder (D := D) pm idx) (placeholderEffect pm idx)
      fun _ a b => a = b := by
  rw [nativePlaceholder, placeholderEffect]
  by_cases first : idx = 0
  · rw [if_pos first, if_pos first]
    apply Mirrors.decides_bind (Decides.newVariable .witness .field (0 : F))
    exact fun more w hw => romSet_mirrors hw
  · rw [if_neg first, if_neg first]
    exact .pure rfl

omit [PrimeField F] in
theorem doDummyOps_mirrors (pm : SetupRomPortalManager F) :
    Mirrors vars (doDummyOps (D := D) overflowChecks params pm)
      (dummyEffect overflowChecks params pm) fun _ a b => a = b := by
  apply Mirrors.lift_bind
  intro more count
  apply Mirrors.foldlM _ rfl
  rintro _ _ more' pm _ rfl
  apply romGet_mirrors.bind
  rintro more'' r r' ⟨_, same⟩
  exact .pure same

theorem nativeLeaf_mirrors {c : MerkleTreeCircuit params} (pm : SetupRomPortalManager F) {idx : Nat}
    (leaf : idx < params.numLeaves) :
    Mirrors vars (nativeLeaf overflowChecks sha params pm idx (leafAt c idx))
      (subcircuitEffect overflowChecks sha c pm.startSubtrace idx) fun _ a b => a = b := by
  have own : Mirrors vars (do
      let leafHash ← Synth.lift (wholeDigest sha params (leafAt c idx).toList)
      let nodeIdx ← Synth.lift (subcircuitIdxToNodeIdx overflowChecks idx params.numLeaves)
      setNode (D := D) pm.startSubtrace nodeIdx leafHash)
      (treeEffect overflowChecks sha c pm.startSubtrace idx) fun _ a b => a = b := by
    rw [treeEffect, if_pos leaf]
    apply Mirrors.lift_bind
    intro _ leafHash
    apply Mirrors.lift_bind
    intro _ nodeIdx
    exact setNode_mirrors _ nodeIdx leafHash
  have all := own.bind (f := fun pm => nativePlaceholder pm idx >>= doDummyOps overflowChecks params)
    (g := fun pm => placeholderEffect pm idx >>= dummyEffect overflowChecks params)
    (R := fun _ a b => a = b) (by
      rintro _ pm₁ _ rfl
      apply (nativePlaceholder_mirrors pm₁ idx).bind
      rintro _ pm₂ _ rfl
      exact doDummyOps_mirrors pm₂)
  rw [nativeLeaf, subcircuitEffect]
  simpa only [bind_assoc] using all

theorem nativeParent_mirrors {c : MerkleTreeCircuit params} (pm : SetupRomPortalManager F) {idx : Nat}
    (later : idx ≠ 0) (parent : ¬ idx < params.numLeaves) (inner : idx + 1 < params.numSubcircuits) :
    Mirrors vars (nativeParent overflowChecks sha params pm idx)
      (subcircuitEffect overflowChecks sha c pm.startSubtrace idx) fun _ a b => a = b := by
  rw [subcircuitEffect, treeEffect, if_neg parent, if_pos inner, parentEffect]
  simp only [bind_assoc]
  apply Mirrors.lift_bind
  intro _ nodeIdx
  apply Mirrors.lift_bind
  intro _ left
  apply Mirrors.lift_bind
  intro _ right
  apply romGet_mirrors.bind
  rintro _ ⟨leftVar, pm₁⟩ ⟨leftValue, _⟩ ⟨leftValued, rfl⟩
  apply romGet_mirrors.bind
  rintro more ⟨rightVar, pm₂⟩ ⟨rightValue, _⟩ ⟨rightValued, rfl⟩
  obtain ⟨leftVs, leftRun, leftBytes⟩ := fpvarToDigest_bytes (leftValued.mono more)
  obtain ⟨rightVs, rightRun, rightBytes⟩ := fpvarToDigest_bytes rightValued
  apply Mirrors.decides_bind (Decides.computes leftRun)
  rintro more₁ _ ⟨rfl, same₁⟩
  rw [same₁]
  apply Mirrors.decides_bind (Decides.computes rightRun)
  rintro more₂ _ ⟨rfl, same₂⟩
  rw [same₂]
  apply Mirrors.decides_bind (readBytes_decides leftBytes)
  rintro more₃ _ ⟨rfl, same₃⟩
  rw [same₃]
  apply Mirrors.decides_bind (readBytes_decides rightBytes)
  rintro more₄ _ ⟨rfl, same₄⟩
  have cut (digest : InnerHash) : digest.toList.take innerHashSize = digest.toList :=
    List.take_of_length_le (le_of_eq digest.toList_length)
  rw [same₄, cut, cut]
  apply Mirrors.lift_bind
  intro _ parentHash
  apply (setNode_mirrors pm₂ nodeIdx parentHash).bind
  rintro _ pm₃ _ rfl
  rw [placeholderEffect, if_neg later]
  exact doDummyOps_mirrors pm₃

omit [Field F] [PrimeField F] [DecidableEq F] [Inhabited D] [DecidableEq D] in
/-- The leaves, the parents and the padding. -/
theorem range_split (leaves : 1 ≤ params.numLeaves) : List.range params.numSubcircuits =
    List.range params.numLeaves ++
      (List.range' params.numLeaves (params.numSubcircuits - 1 - params.numLeaves) ++
        [params.numSubcircuits - 1]) := by
  have double : params.numSubcircuits = 2 * params.numLeaves := rfl
  have parents := List.range'_append_1 (s := 0) (m := params.numLeaves)
    (n := params.numSubcircuits - 1 - params.numLeaves)
  have last := List.range'_append_1 (s := 0) (m := params.numSubcircuits - 1) (n := 1)
  rw [Nat.zero_add, show params.numLeaves + (params.numSubcircuits - 1 - params.numLeaves) =
    params.numSubcircuits - 1 by omega] at parents
  rw [Nat.zero_add, Nat.sub_add_cancel (by omega)] at last
  rw [List.range_eq_range', List.range_eq_range', ← List.append_assoc, parents, ← last]
  rfl

theorem zipIdx_leafAt (c : MerkleTreeCircuit params) :
    c.leaves.toList.zipIdx = (List.range params.numLeaves).map fun i => (leafAt c i, i) := by
  apply List.ext_getElem
  · simp
  · intro i here there
    have inside : i < c.leaves.toList.length := by simpa using here
    simp [leafAt, List.getD_eq_getElem?_getD, List.getElem?_eq_getElem inside]

/-- The native trace goes through exactly where its effect on the values does. -/
theorem nativeTrace_mirrors (leaves : 1 ≤ params.numLeaves) (c : MerkleTreeCircuit params) :
    Mirrors vars (nativeTrace overflowChecks sha c) (traceEffect overflowChecks sha c)
      fun _ a b => a = b := by
  have double : params.numSubcircuits = 2 * params.numLeaves := rfl
  have early : Mirrors vars _ _ _ := Mirrors.foldlM (l := List.range params.numLeaves)
    (Q := fun a b : SetupRomPortalManager F => a = b)
    (f := fun pm i => nativeLeaf overflowChecks sha params pm i (leafAt c i))
    (g := fun pm i => subcircuitEffect overflowChecks sha c pm.startSubtrace i)
    (by
      rintro i member more pm _ rfl
      exact nativeLeaf_mirrors pm (List.mem_range.mp member))
    (a := SetupRomPortalManager.new) rfl
  rw [traceEffect, recordEffects, range_split leaves, List.foldlM_append, nativeTrace, zipIdx_leafAt,
    List.foldlM_map]
  apply early.bind
  rintro _ pm _ rfl
  rw [List.foldlM_append, subBits_eq (by omega)]
  apply Mirrors.decides_bind (Decides.lift (Q := fun _ n => n = params.numSubcircuits - 1) rfl rfl)
  rintro _ _ rfl
  apply (Mirrors.foldlM (Q := fun a b : SetupRomPortalManager F => a = b) _ rfl).bind
  · rintro _ pm₁ _ rfl
    rw [List.foldlM_cons, subcircuitEffect, treeEffect, if_neg (by omega), if_neg (by omega), ok_bind,
      placeholderEffect, if_neg (by omega), ok_bind]
    simp only [List.foldlM_nil, bind_pure]
    exact doDummyOps_mirrors _
  · rintro idx member more pm _ rfl
    obtain ⟨late, inside⟩ := List.mem_range'_1.mp member
    exact nativeParent_mirrors pm (by omega) (by omega) (by omega)

end Mirrored

section Lengths
variable {F D : Type} [Field F] [PrimeField F]
variable {overflowChecks : Bool} {sha : Sha256 F D} {params : MerkleTreeCircuitParams}
variable {pm pm' : SetupRomPortalManager F} {idx : Nat}

/-- The reads of the placeholder. -/
def dummyCount (params : MerkleTreeCircuitParams) : Nat := params.numPortalsPerSubcircuit - 1

omit [Field F] [PrimeField F] in
theorem dummyEffect_grows (portals : 1 ≤ params.numPortalsPerSubcircuit)
    (ran : dummyEffect overflowChecks params pm = .ok pm') : Grows (dummyCount params) pm pm' := by
  rw [dummyEffect, subBits_eq portals, ok_bind] at ran
  have loop : ∀ (l : List Nat) (pm pm' : SetupRomPortalManager F), l.foldlM (fun pm _ => do
      let got ← SetupManager.getValue (F := F) pm placeholder
      .ok got.2) pm = (Except.ok pm' : Outcome (SetupRomPortalManager F)) → Grows l.length pm pm' := by
    intro l
    induction l with
    | nil =>
      intro pm pm' ran
      cases ran
      exact ⟨[], rfl, .refl pm⟩
    | cons i l ih =>
      intro pm pm' ran
      obtain ⟨pm₁, first, rest⟩ := bind_eq_ok.mp ran
      obtain ⟨⟨value, pm₂⟩, got, same⟩ := bind_eq_ok.mp first
      cases same
      rw [List.length_cons, Nat.add_comm]
      exact (Grows.of_get got).trans (ih _ _ rest)
  have grows := loop _ pm pm' ran
  rwa [List.length_range] at grows

omit [PrimeField F] in
theorem placeholderEffect_grows (ran : placeholderEffect pm idx = .ok pm') :
    Grows (if idx = 0 then 1 else 0) pm pm' := by
  rw [placeholderEffect] at ran
  by_cases first : idx = 0
  · rw [if_pos first] at ran ⊢
    exact .of_set ran
  · rw [if_neg first] at ran ⊢
    cases ran
    exact ⟨[], rfl, .refl pm⟩

/-- The calls of a subcircuit's own: of a leaf, a parent or the padding. -/
def ownCount (params : MerkleTreeCircuitParams) (idx : Nat) : Nat :=
  if idx < params.numLeaves then 1 else if idx + 1 < params.numSubcircuits then 3 else 0

theorem ownCount_node (inner : idx + 1 < params.numSubcircuits) :
    ownCount params idx = if idx < params.numLeaves then 1 else 3 := by
  rw [ownCount, if_pos inner]

theorem ownCount_padding (last : idx + 1 = params.numSubcircuits) (leaves : 1 ≤ params.numLeaves) :
    ownCount params idx = 0 := by
  have double : params.numSubcircuits = 2 * params.numLeaves := rfl
  rw [ownCount, if_neg (by omega), if_neg (by omega)]

def callCount (params : MerkleTreeCircuitParams) (idx : Nat) : Nat :=
  ownCount params idx + ((if idx = 0 then 1 else 0) + dummyCount params)

theorem treeEffect_grows {c : MerkleTreeCircuit params}
    (ran : treeEffect overflowChecks sha c pm idx = .ok pm') :
    Grows (ownCount params idx) pm pm' ∧ (idx < params.numLeaves ∨
      idx + 1 < params.numSubcircuits →
        ∃ node, subcircuitIdxToNodeIdx overflowChecks idx params.numLeaves = .ok node) := by
  rw [treeEffect] at ran
  rw [ownCount]
  by_cases leaf : idx < params.numLeaves
  · rw [if_pos leaf] at ran ⊢
    obtain ⟨leafHash, _, ran⟩ := bind_eq_ok.mp ran
    obtain ⟨node, found, ran⟩ := bind_eq_ok.mp ran
    exact ⟨.of_set ran, fun _ => ⟨node, found⟩⟩
  · rw [if_neg leaf] at ran ⊢
    by_cases inner : idx + 1 < params.numSubcircuits
    · rw [if_pos inner] at ran ⊢
      obtain ⟨node, found, ran⟩ := bind_eq_ok.mp ran
      obtain ⟨left, _, ran⟩ := bind_eq_ok.mp ran
      obtain ⟨right, _, ran⟩ := bind_eq_ok.mp ran
      obtain ⟨⟨_, pm₁⟩, leftGot, ran⟩ := bind_eq_ok.mp ran
      obtain ⟨⟨_, pm₂⟩, rightGot, ran⟩ := bind_eq_ok.mp ran
      obtain ⟨parent, _, ran⟩ := bind_eq_ok.mp ran
      have gets := (Grows.of_get leftGot).trans (.of_get rightGot)
      exact ⟨gets.trans (.of_set ran), fun _ => ⟨node, found⟩⟩
    · rw [if_neg inner] at ran ⊢
      cases ran
      exact ⟨⟨[], rfl, .refl _⟩, fun either => absurd either (by omega)⟩

theorem subcircuitEffect_adds (portals : 1 ≤ params.numPortalsPerSubcircuit)
    {c : MerkleTreeCircuit params}
    (ran : subcircuitEffect overflowChecks sha c pm.startSubtrace idx = .ok pm') :
    Adds (callCount params idx) pm pm' ∧ (idx < params.numLeaves ∨
      idx + 1 < params.numSubcircuits →
        ∃ node, subcircuitIdxToNodeIdx overflowChecks idx params.numLeaves = .ok node) := by
  obtain ⟨pm₁, own, ran⟩ := bind_eq_ok.mp ran
  obtain ⟨pm₂, placed, dummies⟩ := bind_eq_ok.mp ran
  obtain ⟨grows, found⟩ := treeEffect_grows own
  have rest := (placeholderEffect_grows placed).trans (dummyEffect_grows portals dummies)
  exact ⟨(grows.trans rest).adds, found⟩

omit [Field F] [PrimeField F] in
/-- A loop over subcircuits adds a subtrace for each. -/
theorem foldlM_adds {ι : Type} {n : ι → Nat} {effect : SetupRomPortalManager F → ι →
    Outcome (SetupRomPortalManager F)} {found : ι → Prop} {l : List ι}
    (each : ∀ i ∈ l, ∀ pm pm', effect pm i = .ok pm' → Adds (n i) pm pm' ∧ found i)
    (ran : l.foldlM effect pm = .ok pm') :
    (∃ made, made.map List.length = l.map n ∧ pm'.subtraces = pm.subtraces ++ made) ∧
      ∀ i ∈ l, found i := by
  induction l generalizing pm with
  | nil =>
    cases ran
    exact ⟨⟨[], rfl, (List.append_nil _).symm⟩, fun _ member => absurd member List.not_mem_nil⟩
  | cons i l ih =>
    obtain ⟨pm₁, first, rest⟩ := bind_eq_ok.mp ran
    obtain ⟨⟨entries, count, start⟩, here⟩ := each i List.mem_cons_self _ _ first
    obtain ⟨⟨made, counts, all⟩, there⟩ :=
      ih (fun j member => each j (List.mem_cons_of_mem i member)) rest
    refine ⟨⟨entries :: made, ?_, ?_⟩, List.forall_mem_cons.mpr ⟨here, there⟩⟩
    · rw [List.map_cons, List.map_cons, count, counts]
    · rw [all, start, List.append_assoc, List.singleton_append]

end Lengths

section Recorded
variable {F D : Type} [Field F] [PrimeField F] [DecidableEq F] [Inhabited D] [DecidableEq D]
variable {overflowChecks : Bool} {sha : Sha256 F D} {params : MerkleTreeCircuitParams}
variable {c : MerkleTreeCircuit params} {traces : List (List (TranscriptEntry F .rom))}

theorem getPortalSubtraces_eq_ok (leaves : 1 ≤ params.numLeaves) :
    getPortalSubtraces overflowChecks sha c = .ok traces ↔
      ∃ pm, traceEffect overflowChecks sha c = .ok pm ∧ traces = pm.subtraces := by
  have mirrored : Mirrors [] (nativeTrace overflowChecks sha c) (traceEffect overflowChecks sha c)
      fun _ a b => a = b := nativeTrace_mirrors leaves c
  constructor
  · intro recorded
    obtain ⟨r, run, same⟩ := bind_eq_ok.mp recorded
    cases same
    obtain ⟨pm, ran, same⟩ := mirrored.result run
    exact ⟨pm, ran, congrArg _ same⟩
  · rintro ⟨pm, ran, rfl⟩
    obtain ⟨pm', e, run, _, same⟩ := (mirrored.runs pm ran).run
    subst same
    rw [getPortalSubtraces, run]
    rfl

/-- A recorded trace has these lengths, and every node was found. -/
theorem recorded_lengths (leaves : 1 ≤ params.numLeaves)
    (portals : 1 ≤ params.numPortalsPerSubcircuit)
    (recorded : getPortalSubtraces overflowChecks sha c = .ok traces) :
    traces.map List.length = (List.range params.numSubcircuits).map (callCount params) ∧
      ∀ idx, idx + 1 < params.numSubcircuits →
        ∃ node, subcircuitIdxToNodeIdx overflowChecks idx params.numLeaves = .ok node := by
  obtain ⟨pm, ran, rfl⟩ := (getPortalSubtraces_eq_ok leaves).mp recorded
  obtain ⟨⟨made, counts, all⟩, found⟩ := foldlM_adds
    (fun idx _ pm pm' ran => subcircuitEffect_adds portals ran) ran
  constructor
  · rw [all]
    exact counts
  · intro idx inside
    exact found idx (List.mem_range.mpr (by omega)) (Or.inr inside)

end Recorded
end TreeHashTraces
