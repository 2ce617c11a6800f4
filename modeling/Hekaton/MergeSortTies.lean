import Hekaton.MergeSortEffects

/-!
# Ties of the merge sort

A manager that only lists the calls it is handed shows what the two copies of a layer set.
They set the same values in the same order exactly when the ties that the merges meet
commute: where a left and a right key are equal, the copies set the left and the right
indices up to that key in opposite orders.
-/

namespace MergeSortCircuit

open Outcomes Wires Synthesis Contracts Transcript PortalManager HonestRuns MirroredRuns
open PrimeFields PrimeOrders Comparisons Merging Scripts EvalTree ZkDbSqlCircuit

/-- The calls of a body, in their order. -/
structure CallLog (F : Type) where
  calls : List (PortalOp F)

section Log
variable {F D : Type} [Field F] [DecidableEq F] [Inhabited D] [DecidableEq D]

instance callLogManager : Manager F D (CallLog F) where
  get log name := pure (.constant (k := .field) (0 : F), ⟨log.calls ++ [.get name]⟩)
  set log name val := do
    let value ← Synth.value val
    pure ⟨log.calls ++ [.set name value]⟩

omit [DecidableEq F] in
instance callLogSetup : SetupManager F (CallLog F) where
  startSubtrace log := log
  getValue log name := .ok (0, ⟨log.calls ++ [.get name]⟩)
  setValue log name value := .ok ⟨log.calls ++ [.set name value]⟩

theorem callLog_mirrorsSets : MirrorsSets F D (CallLog F) := by
  intro vars log name w value valued
  apply Mirrors.decides_bind (Decides.value valued)
  rintro more _ rfl
  exact .pure rfl

omit [DecidableEq F] in
theorem opsEffect_callLog (ops : List (PortalOp F)) (log : CallLog F) :
    opsEffect ops log = .ok ⟨log.calls ++ ops⟩ := by
  induction ops generalizing log with
  | nil =>
    rw [List.append_nil]
    rfl
  | cons op ops ih =>
    have here : opEffect log op = .ok (⟨log.calls ++ [op]⟩ : CallLog F) := by
      cases op with
      | get name => rfl
      | set name val => rfl
    have rest := ih ⟨log.calls ++ [op]⟩
    rw [List.append_assoc, List.singleton_append] at rest
    rw [opsEffect, List.foldlM_cons, here, ok_bind]
    exact rest

end Log

section Calls
variable {F : Type} [Field F] {c : ZkDbSqlCircuit F} {segmentSize pairIdx : Nat}
variable {merge : List (F × Nat) → List (F × Nat) → List (F × Nat)}

/-- The value that a call sets. -/
def written : PortalOp F → Option F
  | .get _ => none
  | .set _ val => some val

omit [Field F] in
theorem pairSets_written (pairIdx : Nat) (indices : List F) :
    (pairSets pairIdx indices).map written = indices.map some := by
  have values : (written ∘ fun idx : F × Nat => PortalOp.set (mergedName pairIdx idx.2) idx.1) =
      some ∘ Prod.fst := rfl
  rw [pairSets, List.map_map, values, ← List.map_map, List.zipIdx_map_fst]

omit [Field F] in
theorem pairSets_inj {indices indices' : List F} :
    pairSets pairIdx indices = pairSets pairIdx indices' ↔ indices = indices' := by
  constructor
  · intro same
    have values := congrArg (List.map written) same
    rw [pairSets_written, pairSets_written] at values
    exact List.map_injective_iff.mpr (Option.some_injective F) values
  · rintro rfl
    rfl

omit [Field F] in
theorem pairSets_length (pairIdx : Nat) (indices : List F) :
    (pairSets pairIdx indices).length = indices.length := by
  rw [pairSets, List.length_map, List.length_zipIdx]

/-- Loops whose rounds have the same lengths agree when all rounds do. -/
theorem flatMap_inj {ι γ : Type} {f g : ι → List γ} {l : List ι}
    (lengths : ∀ i, (f i).length = (g i).length) :
    l.flatMap f = l.flatMap g ↔ ∀ i ∈ l, f i = g i := by
  induction l with
  | nil => exact iff_of_true rfl fun _ member => absurd member List.not_mem_nil
  | cons i l ih =>
    rw [List.flatMap_cons, List.flatMap_cons, List.forall_mem_cons, ← ih]
    constructor
    · exact fun same => List.append_inj same (lengths i)
    · rintro ⟨first, rest⟩
      rw [first, rest]

/-- The pairs of a layer whose rows are all there. -/
theorem pairs_callLog {entries : Nat → List (F × Nat) × List (F × Nat)} {pairs : List Nat}
    (readable : ∀ p ∈ pairs, c.segments segmentSize p = .ok (entries p)) (log : CallLog F) :
    pairs.foldlM (pairEffect merge c segmentSize) log = .ok ⟨log.calls ++ pairs.flatMap fun p =>
      pairSets p ((merge (entries p).1 (entries p).2).map entryIndex)⟩ := by
  induction pairs generalizing log with
  | nil =>
    rw [List.flatMap_nil, List.append_nil]
    rfl
  | cons p pairs ih =>
    rw [List.foldlM_cons, pairEffect, readable p List.mem_cons_self, ok_bind, opsEffect_callLog,
      ok_bind, ih fun q member => readable q (List.mem_cons_of_mem p member), List.flatMap_cons,
      List.append_assoc]

/-- A missing row. -/
theorem pairs_unreadable {pairs : List Nat} {fault : Fault} (listed : pairIdx ∈ pairs)
    (missing : c.segments segmentSize pairIdx = .error fault) (log log' : CallLog F) :
    pairs.foldlM (pairEffect merge c segmentSize) log ≠ .ok log' := by
  induction pairs generalizing log with
  | nil => exact absurd listed List.not_mem_nil
  | cons p pairs ih =>
    intro ran
    rw [List.foldlM_cons] at ran
    obtain ⟨log₁, first, rest⟩ := bind_eq_ok.mp ran
    rcases List.mem_cons.mp listed with rfl | later
    · obtain ⟨both, found, _⟩ := bind_eq_ok.mp first
      cases missing.symm.trans found
    · exact ih later log₁ rest

end Calls

section Agreement
variable {F D : Type} [Field F] [PrimeOrder F] [DecidableEq F] [Inhabited D] [DecidableEq D]

/-- The calls of the native trace for a layer. -/
def nativeSets (D : Type) [Inhabited D] [DecidableEq D] (overflowChecks : Bool)
    (c : ZkDbSqlCircuit F) (layerIdx : Nat) : Outcome (List (PortalOp F)) := do
  let recorded ← (nativeLayer overflowChecks c (⟨[]⟩ : CallLog F) layerIdx : Synth F D _) []
  .ok recorded.1.calls

/-- The calls of the constraints of a subcircuit. -/
def constraintSets (overflowChecks : Bool) (cmp : CmpGadget F D) (c : ZkDbSqlCircuit F)
    (subcircuitIdx : Nat) : Outcome (List (PortalOp F)) := do
  let recorded ← (generateConstraints overflowChecks cmp c subcircuitIdx).run
    (⟨[]⟩ : CallLog F) []
  .ok recorded.1.2.calls

/-- The native trace and the constraints make the same calls, or both panic. -/
def SameSets (overflowChecks : Bool) (cmp : CmpGadget F D) (c : ZkDbSqlCircuit F)
    (subcircuitIdx : Nat) : Prop :=
  ∀ calls, nativeSets D overflowChecks c subcircuitIdx = .ok calls ↔
    constraintSets overflowChecks cmp c subcircuitIdx = .ok calls

/-- In each pair of segments the ties commute, unless a row of the layer is missing. -/
def LayerCommutes (overflowChecks : Bool) (c : ZkDbSqlCircuit F) (layerIdx : Nat) : Prop :=
  ∀ segmentSize numPairs, c.segmentSize overflowChecks layerIdx = .ok segmentSize →
    c.numPairs segmentSize = .ok numPairs →
    (∃ p < numPairs, ∃ fault, c.segments segmentSize p = .error fault) ∨
      ∀ p < numPairs, ∀ left right, c.segments segmentSize p = .ok (left, right) →
        TiesCommute entryKey entryIndex left right

variable {c : ZkDbSqlCircuit F} {cmp : CmpGadget F D} {overflowChecks : Bool}
variable {layerIdx segmentSize numPairs : Nat} {calls : List (PortalOp F)}

theorem nativeSets_eq_ok : nativeSets D overflowChecks c layerIdx = .ok calls ↔
    layerEffect (mergeLe entryKey) overflowChecks c (⟨[]⟩ : CallLog F) layerIdx =
      .ok ⟨calls⟩ := by
  have mirrors : Mirrors [] (nativeLayer (D := D) overflowChecks c (⟨[]⟩ : CallLog F) layerIdx) _ _ :=
    nativeLayer_mirrors callLog_mirrorsSets ⟨[]⟩ layerIdx
  constructor
  · intro ran
    obtain ⟨⟨log, e⟩, run, same⟩ := bind_eq_ok.mp ran
    cases same
    obtain ⟨log', ok, rfl⟩ := mirrors.result run
    exact ok
  · intro ok
    obtain ⟨log, e, run, _, rfl⟩ := mirrors.runs _ ok
    rw [nativeSets, run]
    rfl

theorem constraintSets_eq_ok (lawful : cmp.Lawful) (half : c.TableInHalf) :
    constraintSets overflowChecks cmp c layerIdx = .ok calls ↔
      layerEffect (mergeLt entryKey) overflowChecks c (⟨[]⟩ : CallLog F) layerIdx =
        .ok ⟨calls⟩ := by
  have mirrors : Mirrors []
      ((generateConstraints overflowChecks cmp c layerIdx).run (⟨[]⟩ : CallLog F)) _ _ :=
    generateConstraints_mirrors callLog_mirrorsSets lawful half ⟨[]⟩ layerIdx
  constructor
  · intro ran
    obtain ⟨⟨⟨_, log⟩, e⟩, run, same⟩ := bind_eq_ok.mp ran
    cases same
    obtain ⟨log', ok, rfl⟩ := mirrors.result run
    exact ok
  · intro ok
    obtain ⟨⟨_, log⟩, e, run, _, rfl⟩ := mirrors.runs _ ok
    rw [constraintSets, run]
    rfl

omit [Inhabited D] [DecidableEq D] [DecidableEq F] in
theorem indices_length (left right : List (F × Nat)) :
    ((mergeLe entryKey left right).map (entryIndex (F := F))).length =
      ((mergeLt entryKey left right).map (entryIndex (F := F))).length := by
  rw [List.length_map, List.length_map, (mergeLe_perm left right).length_eq,
    (mergeLt_perm left right).length_eq]

omit [DecidableEq F] in
/-- The pairs of a layer make the same calls with either merge exactly when the ties commute
in all of them, or a row is missing. -/
theorem pairs_agree (c : ZkDbSqlCircuit F) (segmentSize : Nat) (pairs : List Nat) :
    (∀ calls, pairs.foldlM (pairEffect (mergeLe entryKey) c segmentSize) (⟨[]⟩ : CallLog F) =
        .ok ⟨calls⟩ ↔
      pairs.foldlM (pairEffect (mergeLt entryKey) c segmentSize) (⟨[]⟩ : CallLog F) =
        .ok ⟨calls⟩) ↔
      (∃ p ∈ pairs, ∃ fault, c.segments segmentSize p = .error fault) ∨
        ∀ p ∈ pairs, ∀ left right, c.segments segmentSize p = .ok (left, right) →
          TiesCommute entryKey entryIndex left right := by
  by_cases missing : ∃ p ∈ pairs, ∃ fault, c.segments segmentSize p = .error fault
  · obtain ⟨p, listed, fault, failed⟩ := missing
    refine iff_of_true (fun calls => ?_) (.inl ⟨p, listed, fault, failed⟩)
    exact iff_of_false (pairs_unreadable listed failed _ _) (pairs_unreadable listed failed _ _)
  · have readable : ∀ p ∈ pairs, ∃ both, c.segments segmentSize p = .ok both := by
      intro p listed
      cases found : c.segments segmentSize p with
      | error fault => exact absurd ⟨p, listed, fault, found⟩ missing
      | ok both => exact ⟨both, rfl⟩
    choose! entries found using readable
    have same := flatMap_inj (l := pairs)
      (f := fun p => pairSets p ((mergeLe entryKey (entries p).1 (entries p).2).map entryIndex))
      (g := fun p => pairSets p ((mergeLt entryKey (entries p).1 (entries p).2).map entryIndex))
      fun p => by rw [pairSets_length, pairSets_length, indices_length]
    simp only [pairSets_inj, merges_agree_iff] at same
    simp only [pairs_callLog found, List.nil_append, Except.ok.injEq, CallLog.mk.injEq]
    constructor
    · intro agree
      refine .inr fun p listed left right here => ?_
      have both : entries p = (left, right) := Except.ok.inj ((found p listed).symm.trans here)
      have commute := same.mp ((agree _).mp rfl).symm p listed
      rwa [both] at commute
    · rintro (some | all) calls
      · exact absurd some missing
      · rw [same.mpr fun p listed => all p listed _ _ (found p listed)]

omit [DecidableEq F] in
theorem layers_agree (overflowChecks : Bool) (c : ZkDbSqlCircuit F) (layerIdx : Nat) :
    (∀ calls, layerEffect (mergeLe entryKey) overflowChecks c (⟨[]⟩ : CallLog F) layerIdx =
        .ok ⟨calls⟩ ↔
      layerEffect (mergeLt entryKey) overflowChecks c (⟨[]⟩ : CallLog F) layerIdx =
        .ok ⟨calls⟩) ↔ LayerCommutes overflowChecks c layerIdx := by
  rw [LayerCommutes, layerEffect, layerEffect]
  cases size : c.segmentSize overflowChecks layerIdx with
  | error fault =>
    refine iff_of_true (fun _ => Iff.rfl) fun _ _ sized => ?_
    cases sized
  | ok segmentSize =>
    rw [ok_bind, ok_bind]
    cases number : c.numPairs segmentSize with
    | error fault =>
      refine iff_of_true (fun _ => Iff.rfl) fun _ _ sized pairs => ?_
      cases sized
      cases number.symm.trans pairs
    | ok numPairs =>
      have pairs := pairs_agree c segmentSize (List.range numPairs)
      simp only [List.mem_range] at pairs
      rw [ok_bind, ok_bind]
      apply pairs.trans
      constructor
      · rintro commute _ _ ⟨⟩ pairs
        cases number.symm.trans pairs
        exact commute
      · exact fun commute => commute segmentSize numPairs rfl number

theorem sameSets_iff_layers (lawful : cmp.Lawful) (half : c.TableInHalf) :
    SameSets overflowChecks cmp c layerIdx ↔ ∀ calls,
      layerEffect (mergeLe entryKey) overflowChecks c (⟨[]⟩ : CallLog F) layerIdx = .ok ⟨calls⟩ ↔
        layerEffect (mergeLt entryKey) overflowChecks c (⟨[]⟩ : CallLog F) layerIdx =
          .ok ⟨calls⟩ :=
  forall_congr' fun _ => iff_congr nativeSets_eq_ok (constraintSets_eq_ok lawful half)

/-- The native trace and the constraints of a layer make the same calls exactly when the ties
commute in every pair of its segments, where no row is missing. -/
theorem sameSets_iff_commutes (lawful : cmp.Lawful) (half : c.TableInHalf) (layerIdx : Nat) :
    SameSets overflowChecks cmp c layerIdx ↔ LayerCommutes overflowChecks c layerIdx :=
  (sameSets_iff_layers lawful half).trans (layers_agree overflowChecks c layerIdx)

end Agreement

section TwoRows
variable {F : Type} [Field F] [PrimeOrder F]

/-- A table of one column with two rows. -/
def twoRows (x y : F) : ZkDbSqlCircuit F := ⟨[[x], [y]], [0, 1], ⟨2, 0⟩⟩

omit [Field F] [PrimeOrder F] in
theorem twoRows_segments (x y : F) : (twoRows x y).segments 1 0 = .ok ([(x, 0)], [(y, 1)]) := rfl

/-- The one layer of two rows: a tie of different indices never commutes. -/
theorem twoRows_commutes {x y : F} (overflowChecks : Bool) :
    LayerCommutes overflowChecks (twoRows x y) 0 ↔ x ≠ y := by
  obtain ⟨_, size, number⟩ := shape_of_two (c := twoRows x y) rfl
  constructor
  · rintro commutes rfl
    rcases commutes 1 1 size number with
      ⟨p, below, fault, failed⟩ | commute
    · obtain rfl : p = 0 := by omega
      cases failed
    · cases commute 0 Nat.one_pos _ _ (twoRows_segments x x) with
      | less below _ => exact absurd below (lt_irrefl _)
      | greater above _ => exact absurd above (lt_irrefl _)
      | tie _ swap _ =>
        simp [upTo, entryKey, entryIndex] at swap
  · intro different segmentSize numPairs sized pairs
    cases size.symm.trans sized
    cases number.symm.trans pairs
    refine .inr fun p below left right found => ?_
    obtain rfl : p = 0 := by omega
    cases (twoRows_segments x y).symm.trans found
    apply TiesCommute.of_distinct
    intro a ha b hb same
    cases List.mem_singleton.mp ha
    cases List.mem_singleton.mp hb
    exact different (intoBigint_injective same)

theorem twoRows_inHalf {x y : F} (hx : InHalf x) (hy : InHalf y) :
    (twoRows x y).TableInHalf := by
  intro row listed z column
  simp only [twoRows, List.mem_cons, List.not_mem_nil, or_false] at listed
  rcases listed with rfl | rfl
  · rwa [List.mem_singleton.mp column]
  · rwa [List.mem_singleton.mp column]

end TwoRows

/-- Different keys give the same sets. -/
theorem differentKeys_sameSets :
    SameSets true (directCmp Bls12381Fr (FreeDigest Bls12381Fr)) (twoRows 0 1) 0 :=
  (sameSets_iff_commutes directCmp_lawful
    (twoRows_inHalf (by decide +kernel) (by decide +kernel)) 0).mpr
    ((twoRows_commutes true).mpr zero_ne_one)

/-- Two equal keys: the native trace sets the indices 0 and 1, the constraints 1 and 0. -/
theorem equalKeys_differ :
    ¬ SameSets true (directCmp Bls12381Fr (FreeDigest Bls12381Fr)) (twoRows 0 0) 0 := by
  intro same
  have half := twoRows_inHalf (x := (0 : Bls12381Fr)) (y := 0) (by decide +kernel) (by decide +kernel)
  rw [sameSets_iff_layers directCmp_lawful half, layers_agree] at same
  exact (twoRows_commutes true).mp same rfl

end MergeSortCircuit
