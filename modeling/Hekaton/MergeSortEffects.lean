import Hekaton.MergeSortCircuit

/-!
# What a layer of the merge sort sets

Both copies of a layer read the segments of a pair, merge them and set the merged indices.
They differ in the merge alone: the native trace takes the left one of two equal keys first,
the constraints the right one. A layer is thus one effect on the portal manager with the
merge as a parameter, and the two copies mirror it.
-/

namespace MergeSortCircuit

open Outcomes Wires Synthesis Contracts Transcript PortalManager HonestRuns MirroredRuns
open PrimeOrders Comparisons Merging Scripts ZkDbSqlCircuit

section Effects
variable {F : Type} [Field F]

/-- The order of the entries is that of the integers of their keys. -/
def entryKey [PrimeOrder F] (entry : F × Nat) : Nat := PrimeOrder.intoBigint entry.1

def entryIndex (entry : F × Nat) : F := entry.2

/-- The calls that set the merged indices of a pair. -/
def pairSets (pairIdx : Nat) (indices : List F) : List (PortalOp F) :=
  indices.zipIdx.map fun idx => .set (mergedName pairIdx idx.2) idx.1

variable {PM : Type} [SetupManager F PM]

def pairEffect (merge : List (F × Nat) → List (F × Nat) → List (F × Nat)) (c : ZkDbSqlCircuit F)
    (segmentSize : Nat) (pm : PM) (pairIdx : Nat) : Outcome PM := do
  let both ← c.segments segmentSize pairIdx
  opsEffect (pairSets pairIdx ((merge both.1 both.2).map entryIndex)) pm

def layerEffect (merge : List (F × Nat) → List (F × Nat) → List (F × Nat))
    (overflowChecks : Bool) (c : ZkDbSqlCircuit F) (pm : PM) (layerIdx : Nat) : Outcome PM := do
  let segmentSize ← c.segmentSize overflowChecks layerIdx
  let numPairs ← c.numPairs segmentSize
  (List.range numPairs).foldlM (pairEffect merge c segmentSize) pm

/-- The segments are read one after the other. -/
theorem pairEffect_eq (merge : List (F × Nat) → List (F × Nat) → List (F × Nat))
    (c : ZkDbSqlCircuit F) (segmentSize : Nat) (pm : PM) (pairIdx : Nat) :
    pairEffect merge c segmentSize pm pairIdx = (do
      let left ← (c.leftPositions segmentSize pairIdx).mapM c.entryAt
      let right ← (c.rightPositions segmentSize pairIdx).mapM c.entryAt
      opsEffect (pairSets pairIdx ((merge left right).map entryIndex)) pm) := by
  rw [pairEffect, segments, bind_assoc]
  simp only [bind_assoc, ok_bind]

end Effects

variable {F D : Type} [Field F] [PrimeOrder F] [DecidableEq F] [Inhabited D] [DecidableEq D]
variable {vars : List (Variable F D)} {c : ZkDbSqlCircuit F} {overflowChecks : Bool}

/-- A manager whose sets mirror its function of values. -/
def MirrorsSets (F D PM : Type) [Field F] [DecidableEq F] [Inhabited D] [DecidableEq D]
    [Manager F D PM] [SetupManager F PM] : Prop :=
  ∀ (vars : List (Variable F D)) (pm : PM) (name : String) (w : Wire F D .field) (value : F),
    Valued vars w value → Mirrors vars (Manager.set pm name w)
      (SetupManager.setValue pm name value) fun _ r r' => r = r'

variable {PM : Type} [Manager F D PM] [SetupManager F PM] {segmentSize pairIdx : Nat}

omit [PrimeOrder F] in
theorem setEntries_mirrors (sets : MirrorsSets F D PM) (merged : List (F × Nat)) (pm : PM) :
    Mirrors vars (merged.zipIdx.foldlM (fun pm entry => do
        let idxVar ← Synth.newWitness .field (entry.1.2 : F)
        Manager.set pm (mergedName pairIdx entry.2) idxVar) pm)
      (opsEffect (pairSets pairIdx (merged.map entryIndex)) pm) fun _ r r' => r = r' := by
  rw [pairSets, List.zipIdx_map, List.map_map, opsEffect, List.foldlM_map]
  apply Mirrors.foldlM _ rfl
  rintro entry _ more pm' _ rfl
  apply Mirrors.decides_bind (Decides.newVariable .witness .field (entry.1.2 : F))
  intro more' idxVar valued
  exact sets _ pm' _ idxVar _ valued

theorem nativePair_mirrors (sets : MirrorsSets F D PM) (pm : PM) :
    Mirrors vars (nativePair (D := D) c segmentSize pm pairIdx)
      (pairEffect (mergeLe entryKey) c segmentSize pm pairIdx) fun _ r r' => r = r' := by
  rw [pairEffect_eq, nativePair]
  apply Mirrors.lift_bind
  intro more left
  apply Mirrors.lift_bind
  intro more' right
  exact setEntries_mirrors sets _ pm

theorem nativeLayer_mirrors (sets : MirrorsSets F D PM) (pm : PM) (layerIdx : Nat) :
    Mirrors vars (nativeLayer (D := D) overflowChecks c pm layerIdx)
      (layerEffect (mergeLe entryKey) overflowChecks c (SetupManager.startSubtrace F pm) layerIdx)
      fun _ r r' => r = r' := by
  rw [nativeLayer, layerEffect]
  apply Mirrors.lift_bind
  intro more segmentSize
  apply Mirrors.lift_bind
  intro more' numPairs
  apply Mirrors.foldlM _ rfl
  rintro pairIdx _ more'' pm' _ rfl
  exact nativePair_mirrors sets pm'

/-- A witnessed entry, whose key the comparison accepts. -/
structure KeyedEntry (vars : List (Variable F D)) (v : EntryVar F D) (entry : F × Nat) : Prop where
  key : Valued vars v.1 entry.1
  index : Valued vars v.2 (entryIndex entry)
  inHalf : InHalf entry.1

theorem KeyedEntry.mono {v : EntryVar F D} {entry : F × Nat} (keyed : KeyedEntry vars v entry)
    (more : List (Variable F D)) : KeyedEntry (vars ++ more) v entry :=
  ⟨keyed.key.mono more, keyed.index.mono more, keyed.inHalf⟩

/-- All values of the table are at most `(p - 1) / 2`. -/
def ZkDbSqlCircuit.TableInHalf (c : ZkDbSqlCircuit F) : Prop :=
  ∀ row ∈ c.tableData, ∀ x ∈ row, InHalf x

omit [DecidableEq F] in
theorem entryAt_inHalf (half : c.TableInHalf) {position : Nat} {entry : F × Nat}
    (found : c.entryAt position = .ok entry) : InHalf entry.1 := by
  obtain ⟨idx, _, rest⟩ := bind_eq_ok.mp found
  obtain ⟨row, listed, rest⟩ := bind_eq_ok.mp rest
  obtain ⟨sortKey, column, same⟩ := bind_eq_ok.mp rest
  cases same
  exact half row (List.mem_of_getElem? (expect_eq_ok.mp listed)) sortKey
    (List.mem_of_getElem? (expect_eq_ok.mp column))

theorem witnessEntry_mirrors (half : c.TableInHalf) (position : Nat) :
    Mirrors vars (witnessEntry (D := D) c position) (c.entryAt position) KeyedEntry := by
  constructor
  · intro entry found
    apply Decides.lift_bind found
    apply (Decides.newVariable .witness .field entry.1).bind_true
    intro more keyVar key
    apply (Decides.newVariable .witness .field (entry.2 : F)).bind_true
    intro more' idxVar index
    exact .pure ⟨key.mono more', index, entryAt_inHalf half found⟩
  · intro fault failed r run
    obtain ⟨entry, _, _, _, lifted, _⟩ := Synth.bind_eq_ok.mp run
    obtain ⟨_, found, _⟩ := Synth.lift_eq_ok.mp lifted
    cases failed.symm.trans found

theorem segment_mirrors (half : c.TableInHalf) (positions : List Nat) :
    Mirrors vars (positions.mapM (witnessEntry (D := D) c)) (positions.mapM c.entryAt)
      fun now vs entries => List.Forall₂ (KeyedEntry now) vs entries :=
  Mirrors.mapM (fun _ more _ _ keyed => keyed.mono more)
    fun position _ _ => witnessEntry_mirrors half position

theorem keyed_mono {vs : List (EntryVar F D)} {entries : List (F × Nat)}
    (keyed : List.Forall₂ (KeyedEntry vars) vs entries) (more : List (Variable F D)) :
    List.Forall₂ (KeyedEntry (vars ++ more)) vs entries :=
  keyed.imp fun _ _ entry => entry.mono more

/-- The rest of a segment, when the other one is used up. -/
theorem valued_rest {vs : List (EntryVar F D)} {entries : List (F × Nat)}
    (keyed : List.Forall₂ (KeyedEntry vars) vs entries) :
    List.Forall₂ (Valued vars) (vs.map Prod.snd) (entries.map entryIndex) := by
  rw [List.forall₂_map_left_iff, List.forall₂_map_right_iff]
  exact keyed.imp fun _ _ entry => entry.index

/-- The merge of the constraints has the wires of the merge that takes the right one of two
equal keys. -/
theorem mergeVars_decides {cmp : CmpGadget F D} (lawful : cmp.Lawful)
    {leftVars rightVars : List (EntryVar F D)} {left right : List (F × Nat)}
    (leftKeyed : List.Forall₂ (KeyedEntry vars) leftVars left)
    (rightKeyed : List.Forall₂ (KeyedEntry vars) rightVars right) :
    Decides vars (mergeVars cmp leftVars rightVars) True fun now ws =>
      List.Forall₂ (Valued now) ws ((mergeLt entryKey left right).map entryIndex) := by
  induction size : left.length + right.length using Nat.strong_induction_on
    generalizing vars leftVars rightVars left right with
  | _ size ih =>
    cases leftKeyed with
    | nil =>
      rw [mergeVars, mergeLt, List.nil_merge]
      exact .pure (valued_rest rightKeyed)
    | cons l leftRest =>
      cases rightKeyed with
      | nil =>
        rw [mergeVars, mergeLt, List.merge_right]
        exact .pure (valued_rest (.cons l leftRest))
      | cons r rightRest =>
        rename_i lVar lEntry lefts leftEntries rVar rEntry rights rightEntries
        rw [List.length_cons, List.length_cons] at size
        have compared := lawful.decides vars lVar.1 rVar.1 _ _ .lt false (by decide) l.key r.key
          ⟨l.inHalf, r.inHalf⟩
        rw [mergeVars]
        apply compared.bind_true
        intro more isLess hv
        apply (Decides.define _).bind_true
        rintro more' _ rfl
        apply (Decides.value (hv.mono more')).bind_true
        rintro more'' _ rfl
        have chosen := (((hv.mono more').select ((l.index.mono more).mono more')
          ((r.index.mono more).mono more')).mono more'')
        have order : compares .lt false lEntry.1 rEntry.1 =
          decide (entryKey lEntry < entryKey rEntry) := rfl
        rw [order] at chosen ⊢
        rw [mergeLt_cons]
        cases smaller : decide (entryKey lEntry < entryKey rEntry) with
        | true =>
          rw [smaller] at chosen
          rw [if_pos (of_decide_eq_true smaller)]
          have rest := ih _ (by rw [List.length_cons]; omega)
            (keyed_mono (keyed_mono (keyed_mono leftRest more) more') more'')
            (keyed_mono (keyed_mono (keyed_mono (.cons r rightRest) more) more') more'') rfl
          apply rest.bind_true
          intro more₃ ws valued
          exact .pure (.cons (chosen.mono more₃) valued)
        | false =>
          rw [smaller] at chosen
          rw [if_neg (of_decide_eq_false smaller)]
          have rest := ih _ (by rw [List.length_cons]; omega)
            (keyed_mono (keyed_mono (keyed_mono (.cons l leftRest) more) more') more'')
            (keyed_mono (keyed_mono (keyed_mono rightRest more) more') more'') rfl
          apply rest.bind_true
          intro more₃ ws valued
          exact .pure (.cons (chosen.mono more₃) valued)

omit [PrimeOrder F] in
theorem portalSet_mirrors (sets : MirrorsSets F D PM) {w : Wire F D .field} {value : F}
    (valued : Valued vars w value) (name : String) (pm : PM) :
    Mirrors vars ((Program.portalSet name w).run pm) (SetupManager.setValue pm name value)
      fun _ r pm' => r.2 = pm' := by
  have set := sets vars pm name w value valued
  have done : Mirrors vars (Manager.set pm name w >>= fun pm' => pure ((), pm'))
      (SetupManager.setValue pm name value >>= fun pm' => .ok pm') fun _ r pm' => r.2 = pm' := by
    apply set.bind
    rintro more pm' _ rfl
    exact .pure rfl
  rwa [show (fun pm' : PM => (.ok pm' : Outcome PM)) = pure from rfl, bind_pure] at done

omit [PrimeOrder F] in
/-- The sets of wires with these values. -/
theorem setWires_mirrors (sets : MirrorsSets F D PM) {ws : List (Wire F D .field)}
    {values : List F} (valued : List.Forall₂ (Valued vars) ws values) (start : Nat) (pm : PM) :
    Mirrors vars
      ((forEach (ws.zipIdx start) fun idx => Program.portalSet (mergedName pairIdx idx.2) idx.1).run
        pm)
      (opsEffect ((values.zipIdx start).map fun idx => .set (mergedName pairIdx idx.2) idx.1) pm)
      fun _ r pm' => r.2 = pm' := by
  induction ws generalizing vars values start pm with
  | nil =>
    cases valued
    exact .pure rfl
  | cons w ws ih =>
    obtain _ | ⟨here, rest⟩ := valued
    rw [List.zipIdx_cons, List.zipIdx_cons, forEach, run_bind, List.map_cons, opsEffect,
      List.foldlM_cons]
    apply (portalSet_mirrors sets here _ pm).bind
    rintro more ⟨_, pm'⟩ _ rfl
    exact ih (rest.imp fun _ _ wire => wire.mono more) (start + 1) pm'

theorem generatePair_mirrors (sets : MirrorsSets F D PM) {cmp : CmpGadget F D}
    (lawful : cmp.Lawful) (half : c.TableInHalf) (pm : PM) :
    Mirrors vars ((generatePair cmp c segmentSize pairIdx).run pm)
      (pairEffect (mergeLt entryKey) c segmentSize pm pairIdx) fun _ r pm' => r.2 = pm' := by
  rw [pairEffect_eq, generatePair]
  apply (segment_mirrors half _).bind
  intro more leftVars left leftKeyed
  apply (segment_mirrors half _).bind
  intro more' rightVars right rightKeyed
  apply Mirrors.decides_bind (mergeVars_decides lawful (keyed_mono leftKeyed more') rightKeyed)
  intro more'' ws valued
  exact setWires_mirrors sets valued 0 pm

theorem generateConstraints_mirrors (sets : MirrorsSets F D PM) {cmp : CmpGadget F D}
    (lawful : cmp.Lawful) (half : c.TableInHalf) (pm : PM) (subcircuitIdx : Nat) :
    Mirrors vars ((generateConstraints overflowChecks cmp c subcircuitIdx).run pm)
      (layerEffect (mergeLt entryKey) overflowChecks c pm subcircuitIdx)
      fun _ r pm' => r.2 = pm' := by
  rw [generateConstraints, layerEffect]
  apply Mirrors.lift_bind
  intro more segmentSize
  apply Mirrors.lift_bind
  intro more' numPairs
  apply Mirrors.forEach
  intro pairIdx _ more'' pm'
  exact generatePair_mirrors sets lawful half pm'

end MergeSortCircuit
