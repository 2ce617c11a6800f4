import Hekaton.MergeSortEffects

/-!
# Traces of the merge sort

The native trace sets the same names in every layer, and the ROM manager refuses a name that
was set. So the trace of a table with more than two rows stops in its second layer. A table
of two rows has one layer, and its trace holds the indices in the order of their keys.
-/

namespace MergeSortCircuit

open Outcomes Wires Synthesis Contracts Transcript PortalManager HonestRuns MirroredRuns
open PrimeFields PrimeOrders Comparisons Merging Scripts EvalTree ZkDbSqlCircuit

section Manager
variable {F : Type} {pm pm' : SetupRomPortalManager F}

theorem opsEffect_extends {ops : List (PortalOp F)} (ran : opsEffect ops pm = .ok pm') :
    Extends pm pm' := by
  induction ops generalizing pm with
  | nil =>
    cases ran
    exact fun _ _ known => known
  | cons op ops ih =>
    obtain ⟨pm₁, first, rest⟩ := bind_eq_ok.mp ran
    refine Extends.trans ?_ (ih rest)
    cases op with
    | get name =>
      obtain ⟨⟨value, pm₂⟩, got, same⟩ := bind_eq_ok.mp first
      cases same
      exact .of_get got
    | set name val => exact .of_set first

/-- The index of a merged row can be told from its name. -/
theorem mergedName_injective {pairIdx i j : Nat}
    (same : mergedName pairIdx i = mergedName pairIdx j) : i = j := by
  rw [mergedName, mergedName, String.append_right_inj] at same
  exact decimal_injective same

/-- The sets of a pair whose names are free are recorded in their order. -/
theorem opsEffect_records {pairIdx start : Nat} {indices : List F}
    {before : List (List (TranscriptEntry F .rom))} {subtrace : List (TranscriptEntry F .rom)}
    (last : pm.subtraces = before ++ [subtrace])
    (free : ∀ i, start ≤ i → valueOf pm (mergedName pairIdx i) = none) :
    ∃ pm' made, opsEffect ((indices.zipIdx start).map fun idx =>
        .set (mergedName pairIdx idx.2) idx.1) pm = .ok pm' ∧
      pm'.subtraces = before ++ [subtrace ++ made] ∧ made.map Entry.value = indices := by
  induction indices generalizing pm start subtrace with
  | nil => exact ⟨pm, [], rfl, by rw [last, List.append_nil], rfl⟩
  | cons index indices ih =>
    have here : pm.varMap (mergedName pairIdx start) = none :=
      valueOf_eq_none.mp (free start (Nat.le_refl start))
    have set : SetupManager.setValue pm (mergedName pairIdx start) index =
        .ok ⟨before ++ [subtrace ++ [.rom ⟨pm.nextVarAddr, index⟩]], pm.nextVarAddr + 1,
          Function.update pm.varMap (mergedName pairIdx start)
            (some ⟨pm.nextVarAddr, index⟩)⟩ := by
      simp only [SetupManager.setValue, here, Option.isSome_none, Bool.false_eq_true, if_false]
      rw [last, pushEntry_last]
      rfl
    obtain ⟨pm', made, ran, subtraces, values⟩ := ih rfl
      fun i later => by
        rw [valueOf_set set, if_neg]
        · exact free i (Nat.le_of_succ_le later)
        · intro same
          exact absurd (mergedName_injective same) (Nat.ne_of_gt later)
    refine ⟨pm', .rom ⟨pm.nextVarAddr, index⟩ :: made, ?_, ?_, ?_⟩
    · rw [List.zipIdx_cons, List.map_cons, opsEffect, List.foldlM_cons, opEffect, set, ok_bind]
      exact ran
    · rw [subtraces, List.append_assoc, List.singleton_append]
    · rw [List.map_cons, values]
      rfl

end Manager

section Layers
variable {F : Type} [Field F] [PrimeOrder F] {c : ZkDbSqlCircuit F} {overflowChecks : Bool}
variable {segmentSize layerIdx : Nat} {pm pm' : SetupRomPortalManager F}

omit [PrimeOrder F] in
theorem pairs_extends {merge : List (F × Nat) → List (F × Nat) → List (F × Nat)}
    {pairs : List Nat} (ran : pairs.foldlM (pairEffect merge c segmentSize) pm = .ok pm') :
    Extends pm pm' := by
  induction pairs generalizing pm with
  | nil =>
    cases ran
    exact fun _ _ known => known
  | cons p pairs ih =>
    rw [List.foldlM_cons] at ran
    obtain ⟨pm₁, first, rest⟩ := bind_eq_ok.mp ran
    obtain ⟨both, _, set⟩ := bind_eq_ok.mp first
    exact (opsEffect_extends set).trans (ih rest)

omit [Field F] [PrimeOrder F] in
/-- The left segment of the first pair has a row. -/
theorem first_segment_ne_nil {both : List (F × Nat) × List (F × Nat)} (positive : 0 < segmentSize)
    (rows : 0 < c.params.numRows) (read : c.segments segmentSize 0 = .ok both) : both.1 ≠ [] := by
  obtain ⟨left, found, rest⟩ := bind_eq_ok.mp read
  obtain ⟨right, _, same⟩ := bind_eq_ok.mp rest
  cases same
  have listed : 0 ∈ c.leftPositions segmentSize 0 := by
    rw [leftPositions, positions, List.mem_filter]
    refine ⟨List.mem_map.mpr ⟨0, List.mem_range.mpr positive, ?_⟩, decide_eq_true rows⟩
    rw [leftStart, Nat.zero_mul]
  rintro rfl
  have none := (forall₂_of_mapM found).length_eq
  rw [List.length_nil] at none
  rw [List.length_eq_zero_iff.mp none] at listed
  exact absurd listed List.not_mem_nil

/-- Every layer sets the first index of the first pair, whose name must be free. -/
theorem layer_sets_first (inside : layerIdx < c.numSubcircuits)
    (ran : layerEffect (mergeLe entryKey) overflowChecks c pm layerIdx = .ok pm') :
    valueOf pm (mergedName 0 0) = none ∧ ∃ value, valueOf pm' (mergedName 0 0) = some value := by
  obtain ⟨segmentSize, size, rest⟩ := bind_eq_ok.mp ran
  obtain ⟨numPairs, number, pairs⟩ := bind_eq_ok.mp rest
  have small := segmentSize_lt inside size
  obtain ⟨n, rfl⟩ := Nat.exists_eq_succ_of_ne_zero (numPairs_pos number small).ne'
  rw [Nat.succ_eq_add_one, List.range_succ_eq_map, List.foldlM_cons] at pairs
  obtain ⟨pm₁, first, later⟩ := bind_eq_ok.mp pairs
  obtain ⟨both, read, set⟩ := bind_eq_ok.mp first
  have some := first_segment_ne_nil (numPairs_eq_ok.mp number).1 (by omega) read
  have merged : (mergeLe entryKey both.1 both.2).map (entryIndex (F := F)) ≠ [] := by
    intro empty
    have perm : (mergeLe entryKey both.1 both.2).Perm _ := mergeLe_perm both.1 both.2
    rw [List.map_eq_nil_iff.mp empty] at perm
    exact some (List.append_eq_nil_iff.mp perm.nil_eq.symm).1
  obtain ⟨value, values, same⟩ := List.exists_cons_of_ne_nil merged
  rw [same, pairSets, List.zipIdx_cons, List.map_cons] at set
  obtain ⟨pm₂, setFirst, rest⟩ := bind_eq_ok.mp set
  refine ⟨valueOf_eq_none.mpr (setValue_eq_ok setFirst).1, value, ?_⟩
  have now : valueOf pm₂ (mergedName 0 0) = Option.some value := by
    rw [valueOf_set setFirst, if_pos rfl]
  exact pairs_extends later _ _ (opsEffect_extends rest _ _ now)

/-- No layer comes after one. -/
theorem layers_stop {layers : List Nat} {value : F} (inside : ∀ i ∈ layers, i < c.numSubcircuits)
    (known : valueOf pm (mergedName 0 0) = some value)
    (ran : layers.foldlM (fun pm i => layerEffect (mergeLe entryKey) overflowChecks c
      (SetupManager.startSubtrace F pm) i) pm = .ok pm') : layers = [] := by
  cases layers with
  | nil => rfl
  | cons i layers =>
    rw [List.foldlM_cons] at ran
    obtain ⟨pm₁, first, _⟩ := bind_eq_ok.mp ran
    have free := (layer_sets_first (inside i List.mem_cons_self) first).1
    cases known.symm.trans free

/-- The layers go through for one layer at most. -/
theorem layers_le_one (ran : (List.range c.numSubcircuits).foldlM (fun pm i =>
      layerEffect (mergeLe entryKey) overflowChecks c (SetupManager.startSubtrace F pm) i) pm =
        .ok pm') : c.numSubcircuits ≤ 1 := by
  cases count : c.numSubcircuits with
  | zero => exact Nat.zero_le 1
  | succ n =>
    rw [count, List.range_succ_eq_map, List.foldlM_cons] at ran
    obtain ⟨pm₁, first, rest⟩ := bind_eq_ok.mp ran
    obtain ⟨_, value, known⟩ := layer_sets_first (by omega) first
    have none : (List.range n).map Nat.succ = [] := by
      refine layers_stop (fun i member => ?_) known rest
      obtain ⟨j, below, rfl⟩ := List.mem_map.mp member
      have := List.mem_range.mp below
      omega
    rw [List.map_eq_nil_iff, List.range_eq_nil] at none
    omega

end Layers

section Sorting
variable {F D : Type} [Field F] [PrimeOrder F] [DecidableEq F] [Inhabited D] [DecidableEq D]
variable {c : ZkDbSqlCircuit F} {overflowChecks : Bool}

/-- A table as `new` builds it, with any values, and its rows in some order. -/
structure ZkDbSqlCircuit.Shaped {F : Type} (c : ZkDbSqlCircuit F) : Prop where
  rows : c.tableData.length = c.params.numRows
  columns : ∀ row ∈ c.tableData, c.params.sortColumnIdx < row.length
  indices : c.sortedIndices.Perm (List.range c.params.numRows)

/-- The value of a row in the sort column. -/
def sortKey (c : ZkDbSqlCircuit F) (idx : Nat) : Option F :=
  c.tableData[idx]? >>= (·[c.params.sortColumnIdx]?)

def KeysLe (c : ZkDbSqlCircuit F) (i j : Nat) : Prop :=
  ∀ x y, sortKey c i = some x → sortKey c j = some y → le x y = true

/-- The native trace runs, and the indices of its last subtrace are all rows in the order of
their keys. -/
def Sorts (D : Type) [Inhabited D] [DecidableEq D] (overflowChecks : Bool)
    (c : ZkDbSqlCircuit F) : Prop :=
  ∃ subtraces last, getPortalSubtraces D overflowChecks c = .ok subtraces ∧
    subtraces.getLast? = some last ∧ ∃ indices : List Nat,
      last.map Entry.value = indices.map (Nat.cast : Nat → F) ∧
      indices.Perm (List.range c.params.numRows) ∧ indices.Pairwise (KeysLe c)

omit [PrimeOrder F] in
theorem romManager_mirrorsSets : MirrorsSets F D (SetupRomPortalManager F) :=
  fun _ _ _ _ _ valued => romSet_mirrors valued

/-- The trace is that of the effects of the layers. -/
theorem getPortalSubtraces_eq_ok {subtraces : List (List (TranscriptEntry F .rom))} :
    getPortalSubtraces D overflowChecks c = .ok subtraces ↔
      ∃ pm, (List.range c.numSubcircuits).foldlM (fun pm i => layerEffect (mergeLe entryKey)
        overflowChecks c (SetupManager.startSubtrace F pm) i) (.new : SetupRomPortalManager F) =
          .ok pm ∧ pm.subtraces = subtraces := by
  have mirrors : Mirrors [] ((List.range c.numSubcircuits).foldlM
      (nativeLayer (D := D) overflowChecks c) (.new : SetupRomPortalManager F))
      ((List.range c.numSubcircuits).foldlM (fun pm i => layerEffect (mergeLe entryKey)
        overflowChecks c (SetupManager.startSubtrace F pm) i) (.new : SetupRomPortalManager F))
      fun _ pm pm' => pm = pm' := by
    apply Mirrors.foldlM _ rfl
    rintro i _ more pm _ rfl
    exact nativeLayer_mirrors romManager_mirrorsSets pm i
  constructor
  · intro ran
    obtain ⟨⟨pm, e⟩, run, same⟩ := bind_eq_ok.mp ran
    cases same
    obtain ⟨pm', ok, rfl⟩ := mirrors.result run
    exact ⟨pm, ok, rfl⟩
  · rintro ⟨pm, ok, rfl⟩
    obtain ⟨pm', e, run, _, rfl⟩ := mirrors.runs pm ok
    rw [getPortalSubtraces, run]
    rfl

/-- With more than two rows the second layer sets a name again. -/
theorem two_of_trace {subtraces : List (List (TranscriptEntry F .rom))}
    (ran : getPortalSubtraces D overflowChecks c = .ok subtraces) : c.params.numRows ≤ 2 := by
  obtain ⟨pm, layers, _⟩ := getPortalSubtraces_eq_ok.mp ran
  have one := layers_le_one layers
  rw [numSubcircuits_eq_clog] at one
  exact (Nat.clog_le_iff_le_pow (by decide)).mp one

omit [Field F] [PrimeOrder F] [DecidableEq F] in
/-- The rows of the table are read with their keys. -/
theorem entryAt_ok (shaped : c.Shaped) {position idx : Nat}
    (here : c.sortedIndices[position]? = some idx) :
    ∃ key, sortKey c idx = some key ∧ c.entryAt position = .ok (key, idx) := by
  have below := List.mem_range.mp (shaped.indices.subset (List.mem_of_getElem? here))
  have listed : idx < c.tableData.length := by rwa [shaped.rows]
  have row := List.getElem?_eq_getElem listed
  have wide := shaped.columns _ (List.getElem_mem listed)
  have column := List.getElem?_eq_getElem wide
  refine ⟨c.tableData[idx][c.params.sortColumnIdx], ?_, ?_⟩
  · rw [sortKey, row]
    exact column
  · rw [entryAt, here, expect_some, ok_bind, row, expect_some, ok_bind, column]
    rfl

omit [Field F] [PrimeOrder F] [DecidableEq F] in
/-- The segments of two rows. -/
theorem segments_of_two (two : c.params.numRows = 2) {first second : F × Nat}
    (left : c.entryAt 0 = .ok first) (right : c.entryAt 1 = .ok second) :
    c.segments 1 0 = .ok ([first], [second]) := by
  have leftPositions : c.leftPositions 1 0 = [0] := by
    rw [ZkDbSqlCircuit.leftPositions, positions, two]
    rfl
  have rightPositions : c.rightPositions 1 0 = [1] := by
    rw [ZkDbSqlCircuit.rightPositions, positions, rightLen, rightEnd, two]
    rfl
  have single {position : Nat} {entry : F × Nat} (read : c.entryAt position = .ok entry) :
      [position].mapM c.entryAt = .ok [entry] := by
    rw [List.mapM_cons, read]
    rfl
  rw [segments, leftPositions, rightPositions, single left, ok_bind, single right, ok_bind]

/-- The trace of two rows is sorted. -/
theorem sorts_two (shaped : c.Shaped) (two : c.params.numRows = 2) :
    Sorts D overflowChecks c := by
  obtain ⟨one, size, number⟩ := shape_of_two two
  have count : c.sortedIndices.length = 2 := by
    rw [shaped.indices.length_eq, List.length_range, two]
  obtain ⟨i, j, order⟩ := List.length_eq_two.mp count
  have atFirst : c.sortedIndices[0]? = some i := by
    rw [order]
    rfl
  have atSecond : c.sortedIndices[1]? = some j := by
    rw [order]
    rfl
  obtain ⟨x, keyX, left⟩ := entryAt_ok shaped atFirst
  obtain ⟨y, keyY, right⟩ := entryAt_ok shaped atSecond
  have read := segments_of_two two left right
  obtain ⟨pm, made, ran, subtraces, values⟩ : ∃ pm made,
      opsEffect (pairSets 0 ((mergeLe entryKey [(x, i)] [(y, j)]).map entryIndex))
        (SetupRomPortalManager.new : SetupRomPortalManager F).startSubtrace = .ok pm ∧
      pm.subtraces = [] ++ [[] ++ made] ∧
      made.map Entry.value = (mergeLe entryKey [(x, i)] [(y, j)]).map entryIndex :=
    opsEffect_records rfl fun _ _ => rfl
  have layer : layerEffect (mergeLe entryKey) overflowChecks c
      (SetupRomPortalManager.new : SetupRomPortalManager F).startSubtrace 0 = .ok pm := by
    rw [layerEffect, size, ok_bind, number, ok_bind, List.range_one, List.foldlM_cons, pairEffect,
      read, ok_bind, ran]
    rfl
  have trace : getPortalSubtraces D overflowChecks c = .ok pm.subtraces := by
    refine getPortalSubtraces_eq_ok.mpr ⟨pm, ?_, rfl⟩
    rw [one, List.range_one, List.foldlM_cons]
    change layerEffect _ _ _ (SetupRomPortalManager.startSubtrace _) 0 >>= _ = _
    rw [layer]
    rfl
  refine ⟨pm.subtraces, made, trace, by rw [subtraces]; rfl,
    (mergeLe entryKey [(x, i)] [(y, j)]).map Prod.snd, ?_, ?_, ?_⟩
  · rw [values, List.map_map]
    rfl
  · have perm : (mergeLe entryKey [(x, i)] [(y, j)]).Perm _ := mergeLe_perm _ _
    exact (perm.map Prod.snd).trans (by simpa [order] using shaped.indices)
  · rw [List.pairwise_map]
    have sorted : (mergeLe entryKey [(x, i)] [(y, j)]).Pairwise fun a b => entryKey a ≤ entryKey b :=
      mergeLe_sorted (List.pairwise_singleton _ _) (List.pairwise_singleton _ _)
    apply sorted.imp_of_mem
    have keyed : ∀ e ∈ mergeLe entryKey [(x, i)] [(y, j)], sortKey c e.2 = some e.1 := by
      intro e member
      have either := (mergeLe_perm [(x, i)] [(y, j)]).subset member
      rw [List.singleton_append, List.mem_pair] at either
      rcases either with rfl | rfl
      · exact keyX
      · exact keyY
    intro e e' member member' below x' y' here here'
    cases (keyed e member).symm.trans here
    cases (keyed e' member').symm.trans here'
    exact decide_eq_true below

/-- Of the tables with at least two rows, those with exactly two are sorted. -/
theorem sorts_iff_two (shaped : c.Shaped) (many : 2 ≤ c.params.numRows) :
    Sorts D overflowChecks c ↔ c.params.numRows = 2 := by
  constructor
  · rintro ⟨subtraces, _, ran, _⟩
    exact le_antisymm (two_of_trace ran) many
  · exact sorts_two shaped

end Sorting

theorem shaped_new {F : Type} [NatCast F] {params : ZkDbSqlCircuitParams}
    (column : params.sortColumnIdx < 7) : (ZkDbSqlCircuit.new params : ZkDbSqlCircuit F).Shaped where
  rows := List.length_replicate
  columns row listed := by
    rw [List.eq_of_mem_replicate listed, List.length_replicate]
    exact column
  indices := .refl _

/-- Two rows, the greater one first. -/
def swappedTable : ZkDbSqlCircuit Bls12381Fr := ⟨[[1 + 1, 0], [1, -1]], [0, 1], ⟨2, 0⟩⟩

theorem swappedTable_shaped : swappedTable.Shaped where
  rows := rfl
  columns := by
    intro row listed
    rw [swappedTable, List.mem_pair] at listed
    rcases listed with rfl | rfl
    · exact Nat.two_pos
    · exact Nat.two_pos
  indices := .refl _

theorem swappedTable_sorts : Sorts (FreeDigest Bls12381Fr) true swappedTable :=
  (sorts_iff_two swappedTable_shaped (Nat.le_refl 2)).mpr rfl

/-- Three rows have a second layer. -/
theorem threeRows_stop : ¬ Sorts (FreeDigest Bls12381Fr) true
    (.new ⟨3, 0⟩ : ZkDbSqlCircuit Bls12381Fr) := by
  rintro ⟨subtraces, _, ran, _⟩
  exact absurd (two_of_trace ran) (by decide)

end MergeSortCircuit
