import Hekaton.LibsnarkReduction
import Mathlib

/-!
# Honest proofs are accepted

Key generation succeeds with an explicit key, every commitment and the proof are explicit
multiples of the generators, and their exponents satisfy the verifier's equation. The
stages' ranges are consecutive, so their shares of the assignment add up, and the
randomness of the commitments cancels.
-/

namespace ProofAcceptance

open LinearCombinations Outcomes ConstraintSystems CPGroth16 LibsnarkReduction

variable {F G₁ G₂ GT : Type} [Field F] [DecidableEq F] [AddCommGroup G₁] [Module F G₁]
variable [AddCommGroup G₂] [Module F G₂] [AddCommGroup GT] [Module F GT]

omit [DecidableEq F] in
theorem combined_length (alpha beta scale : F) {a b c : List F} (left : a.length = b.length)
    (right : b.length = c.length) : (combined alpha beta scale a b c).length = c.length := by
  rw [combined, List.length_zipWith, List.length_zip, left, right, Nat.min_self, Nat.min_self]

omit [DecidableEq F] in
/-- Weighting the combined polynomials weights each of the three. -/
theorem dot_combined (alpha beta scale : F) (scalars : List F) {a b c : List F}
    (left : a.length = b.length) (right : b.length = c.length) :
    dot scalars (combined alpha beta scale a b c) =
      (beta * dot scalars a + alpha * dot scalars b + dot scalars c) * scale := by
  induction scalars generalizing a b c with
  | nil => simp
  | cons s scalars ih =>
    match a, b, c with
    | [], [], [] => simp [combined]
    | x :: a, y :: b, w :: c =>
      have rest := ih (Nat.succ.inj left) (Nat.succ.inj right)
      simp only [combined, List.zip_cons_cons, List.zipWith_cons_cons, dot_cons,
        smul_eq_mul] at rest ⊢
      rw [rest]
      ring

variable (trapdoor : Trapdoor F G₁ G₂) (q : QapEvaluation F)

def shifted (offset : Nat) (range : Nat × Nat) : Nat × Nat :=
  (range.1 + offset, range.2 + offset)

/-- The polynomials of one range, over its delta. -/
def rangeAbc (delta : F) (range : Nat × Nat) : List F :=
  combined trapdoor.alpha trapdoor.beta delta⁻¹
    (slice q.a range.1 range.2) (slice q.b range.1 range.2) (slice q.c range.1 range.2)

/-- The key of one range. -/
def rangeKey (delta : F) (range : Nat × Nat) : List G₁ :=
  (rangeAbc trapdoor q delta range).map (· • trapdoor.g1Generator)

/-- The key that is generated for `stages` after the first one. -/
def keyOf (n : Nat) (stages : Nat) (ranges : List (Nat × Nat)) : ProvingKey G₁ G₂ where
  vk := {
    alphaG := trapdoor.alpha • trapdoor.g1Generator
    betaH := trapdoor.beta • trapdoor.g2Generator
    gammaH := trapdoor.gamma • trapdoor.g2Generator
    lastDeltaH := trapdoor.deltas stages • trapdoor.g2Generator
    gammaAbcG := rangeKey trapdoor q trapdoor.gamma (0, n)
    deltasH := ((List.range (stages + 1)).map trapdoor.deltas).map (· • trapdoor.g2Generator) }
  betaG := trapdoor.beta • trapdoor.g1Generator
  aG := q.a.map (· • trapdoor.g1Generator)
  bG := q.b.map (· • trapdoor.g1Generator)
  bH := q.b.map (· • trapdoor.g2Generator)
  hG := ((List.range (q.mRaw - 1)).map fun i =>
    q.zt * (trapdoor.deltas stages)⁻¹ * trapdoor.t ^ i).map (· • trapdoor.g1Generator)
  ck := ⟨trapdoor.deltas stages • trapdoor.g1Generator,
    (((List.range (stages + 1)).map trapdoor.deltas).zip ranges).map fun stage =>
      rangeKey trapdoor q stage.1 (shifted n stage.2)⟩
  deltasG := ((List.range (stages + 1)).map trapdoor.deltas).map (· • trapdoor.g1Generator)

theorem sliced_eq {α : Type} {l : List α} {range : Nat × Nat} (ordered : range.1 ≤ range.2)
    (inside : range.2 ≤ l.length) :
    MultiStageConstraintSystem.sliced l range = .ok (slice l range.1 range.2) := by
  rw [MultiStageConstraintSystem.sliced, if_neg (Nat.not_lt.mpr ordered),
    if_neg (Nat.not_lt.mpr inside)]

omit [DecidableEq F] in
theorem foldlM_runStage (circuit : StagedCircuit F) (setupMode : Bool) {j : Nat}
    (inside : j ≤ circuit.stages.length) :
    (List.range j).foldlM circuit.synthesizer.runStage (afterStages setupMode []) =
      .ok (afterStages setupMode (circuit.stages.take j)) := by
  induction j with
  | zero => rfl
  | succ j ih =>
    have split : circuit.stages =
        circuit.stages.take j ++ circuit.stages[j] :: circuit.stages.drop (j + 1) := by
      rw [List.getElem_cons_drop, List.take_append_drop]
    have next := runStage_eq split setupMode
    rw [List.length_take, Nat.min_eq_left (Nat.le_of_succ_le inside)] at next
    rw [List.range_succ, List.foldlM_append, ih (Nat.le_of_succ_le inside)]
    rw [List.take_add_one, List.getElem?_eq_getElem inside]
    simp only [ok_bind, List.foldlM_cons, next, List.foldlM_nil]
    rfl

theorem inverseOf_eq {message : String} {x : F} (nonzero : x ≠ 0) :
    inverseOf message x = .ok x⁻¹ := by
  rw [inverseOf, if_neg nonzero]

/-- What every range of the generated key needs of the evaluated columns. -/
structure Columns (q : QapEvaluation F) (total : Nat) : Prop where
  a : q.a.length = total
  b : q.b.length = total
  c : q.c.length = total

omit [AddCommGroup G₁] [Module F G₁] [AddCommGroup G₂] [Module F G₂] in
theorem deltaAbc_eq {total : Nat} (columns : Columns q total) {n : Nat} {stage : F × Nat × Nat}
    (nonzero : stage.1 ≠ 0) (ordered : stage.2.1 ≤ stage.2.2) (inside : stage.2.2 + n ≤ total) :
    deltaAbc trapdoor q n stage = .ok (rangeAbc trapdoor q stage.1 (shifted n stage.2)) := by
  have order : (stage.2.1 + n, stage.2.2 + n).1 ≤ (stage.2.1 + n, stage.2.2 + n).2 :=
    Nat.add_le_add_right ordered n
  rw [deltaAbc]
  simp only [inverseOf_eq nonzero, ok_bind, sliced_eq order (columns.a.symm ▸ inside),
    sliced_eq order (columns.b.symm ▸ inside), sliced_eq order (columns.c.symm ▸ inside)]
  rfl

omit [Field F] [DecidableEq F] in
theorem getLast?_drawn (deltas : Nat → F) (last : Nat) :
    ((List.range (last + 1)).map deltas).getLast? = some (deltas last) := by
  simp [List.range_succ]

omit [DecidableEq F] in
theorem getLast?_powers {G : Type} [AddCommGroup G] [Module F G] (deltas : Nat → F) (last : Nat)
    (g : G) : (((List.range (last + 1)).map deltas).map (· • g)).getLast? =
      some (deltas last • g) := by
  rw [List.getLast?_map, getLast?_drawn, Option.map_some]

/-- Key generation succeeds when the domain exists and no inverse is missing. -/
theorem generateParameters_eq {qap : R1CSToQAP F} (lawful : qap.Lawful)
    (circuit : StagedCircuit F) {last : Nat} (count : circuit.stages.length = last + 1)
    (domain : (qap.newDomain ((ofSteps true circuit.stages.flatten).numConstraints +
      (ofSteps true circuit.stages.flatten).numInstanceVariables)).isSome)
    (gamma : trapdoor.gamma ≠ 0) (deltas : ∀ i ≤ last, trapdoor.deltas i ≠ 0) :
    ∃ q, Evaluates qap (ofSteps true circuit.stages.flatten) trapdoor.t q ∧
      generateParameters qap circuit.synthesizer trapdoor =
        .ok (keyOf trapdoor q (1 + (inputs circuit.stages.flatten).length) last
          (rangesFrom 0 circuit.stages)) := by
  obtain ⟨q, mapped, evaluates⟩ := lawful.instanceMap (ofSteps true circuit.stages.flatten)
    trapdoor.t (ofSteps_scoped circuit.inScope true) domain
  refine ⟨q, evaluates, ?_⟩
  have columns : Columns q (1 + (inputs circuit.stages.flatten).length +
      (witnesses circuit.stages.flatten).length) :=
    ⟨evaluates.a_length, evaluates.b_length, evaluates.c_length⟩
  have ran := foldlM_runStage circuit true (Nat.le_refl _)
  rw [List.take_length, count] at ran
  have start : (⟨ConstraintSystem.new.setMode true, []⟩ : MultiStageConstraintSystem F) =
      afterStages true [] := rfl
  have total : circuit.synthesizer.totalNumStages = last + 1 := count
  have keys : (((List.range (last + 1)).map trapdoor.deltas).zip
      (rangesFrom 0 circuit.stages)).mapM
        (deltaAbc trapdoor q (1 + (inputs circuit.stages.flatten).length)) =
      .ok ((((List.range (last + 1)).map trapdoor.deltas).zip (rangesFrom 0 circuit.stages)).map
        fun stage => rangeAbc trapdoor q stage.1
          (shifted (1 + (inputs circuit.stages.flatten).length) stage.2)) := by
    refine mapM_eq_ok fun ⟨delta, range⟩ member => ?_
    obtain ⟨drawn, ranged⟩ := List.of_mem_zip member
    obtain ⟨i, inside, same⟩ := List.mem_map.mp drawn
    have bounds := (rangesFrom_consecutive 0 circuit.stages).inside ranged
    refine deltaAbc_eq trapdoor q columns ?_ bounds.1 ?_
    · change delta ≠ 0
      rw [← same]
      exact deltas i (Nat.le_of_lt_succ (List.mem_range.mp inside))
    · have stop := bounds.2
      change range.2 + _ ≤ _
      omega
  have whole : ∀ {l : List F}, l.length = 1 + (inputs circuit.stages.flatten).length +
      (witnesses circuit.stages.flatten).length →
      MultiStageConstraintSystem.sliced l (0, 1 + (inputs circuit.stages.flatten).length) =
        .ok (slice l 0 (1 + (inputs circuit.stages.flatten).length)) := by
    intro l size
    exact sliced_eq (Nat.zero_le _) (size ▸ Nat.le_add_right _ _)
  rw [generateParameters, total, start, ran]
  simp only [ok_bind, afterStages, fixedBaseMsm]
  rw [if_neg (by simpa [Option.isSome_iff_ne_none] using domain), mapped]
  have size : (ofSteps true circuit.stages.flatten).numInstanceVariables =
    1 + (inputs circuit.stages.flatten).length := rfl
  simp only [ok_bind, size, keys, if_neg gamma, whole columns.a, whole columns.b, whole columns.c,
    getLast?_drawn, getLast?_powers, expect_some, inverseOf_eq (deltas last (Nat.le_refl _)), lawful.hQuery]
  exact congrArg (fun keys => Except.ok { keyOf trapdoor q
    (1 + (inputs circuit.stages.flatten).length) last (rangesFrom 0 circuit.stages) with
    ck := ⟨trapdoor.deltas last • trapdoor.g1Generator, keys⟩ }) List.map_map

section Run
variable {trapdoor q}

/-- `commit` for one stage after the other. -/
def commitAll (debug : Bool) : CommitmentBuilder F G₁ G₂ → List F →
    Outcome (List G₁ × CommitmentBuilder F G₁ G₂)
  | builder, [] => .ok ([], builder)
  | builder, randomness :: rest => do
    let committed ← builder.commit debug randomness
    let later ← commitAll debug committed.2 rest
    .ok (committed.1 :: later.1, later.2)

/-- The builder that has been through these stages. -/
def builderAt (circuit : StagedCircuit F) (pk : ProvingKey G₁ G₂)
    (stages : List (List (Step F))) : CommitmentBuilder F G₁ G₂ :=
  ⟨afterStages false stages, circuit.synthesizer, stages.length, pk⟩

/-- The commitments to the witnesses of some stages under their keys. -/
def commitments (lastDelta : G₁) : List (List F) → List (List G₁) → List F → List G₁
  | stage :: stages, key :: keys, randomness :: rest =>
    (dot stage key + randomness • lastDelta) :: commitments lastDelta stages keys rest
  | _, _, _ => []

/-- Each stage has a committer key of its own length. -/
def KeysMatch (circuit : StagedCircuit F) (pk : ProvingKey G₁ G₂) : Prop :=
  List.Forall₂ (fun steps key => key.length = (witnesses steps).length) circuit.stages
    pk.ck.deltasAbcG

theorem assertSatisfied_eq (debug : Bool) : assertSatisfied debug (.ok true) = .ok () := by
  cases debug <;> rfl

theorem satisfied_before {circuit : StagedCircuit F} {before after : List (List (Step F))}
    (split : circuit.stages = before ++ after)
    (satisfied : (ofSteps false circuit.stages.flatten).isSatisfied = .ok true) :
    (ofSteps false before.flatten).isSatisfied = .ok true := by
  have inScope := circuit.inScope
  rw [split, List.flatten_append] at inScope satisfied
  exact isSatisfied_of_append inScope satisfied

omit [AddCommGroup G₂] [Module F G₂] in
theorem commit_eq {circuit : StagedCircuit F} {pk : ProvingKey G₁ G₂}
    (keys : KeysMatch circuit pk) (satisfied : (ofSteps false circuit.stages.flatten).isSatisfied =
      .ok true) {before after : List (List (Step F))} {steps : List (Step F)}
    (split : circuit.stages = before ++ steps :: after) (debug : Bool) (randomness : F) :
    ∃ key, pk.ck.deltasAbcG[before.length]? = some key ∧
      (builderAt circuit pk before).commit debug randomness =
        .ok (dot (witnesses steps) key + randomness • pk.ck.lastDeltaG,
          builderAt circuit pk (before ++ [steps])) := by
  have here : before.length < circuit.stages.length := by
    rw [split, List.length_append, List.length_cons]
    omega
  have here' : before.length < pk.ck.deltasAbcG.length := keys.length_eq ▸ here
  have found : circuit.stages.get ⟨before.length, here⟩ = steps := by
    simp [split]
  have size : pk.ck.deltasAbcG[before.length].length = (witnesses steps).length :=
    found ▸ keys.get here here'
  refine ⟨_, List.getElem?_eq_getElem here', ?_⟩
  have holds : (afterStages false (before ++ [steps])).cs.isSatisfied = .ok true := by
    have cut : circuit.stages = (before ++ [steps]) ++ after := by
      rw [split, List.append_assoc, List.singleton_append]
    exact satisfied_before cut satisfied
  rw [CommitmentBuilder.commit]
  simp only [builderAt, runStage_eq split, ok_bind, holds, unwrap, assertSatisfied_eq,
    currentStageWitnessAssignment_eq, List.getElem?_eq_getElem here', expect_some, assertEq, msm]
  rw [if_pos size.symm, if_pos size]
  simp only [ok_bind, expect_some, List.length_append, List.length_singleton]

omit [AddCommGroup G₂] [Module F G₂] in
/-- All commitments of the first stages, and the builder they leave. -/
theorem commitAll_eq {circuit : StagedCircuit F} {pk : ProvingKey G₁ G₂}
    (keys : KeysMatch circuit pk) (satisfied : (ofSteps false circuit.stages.flatten).isSatisfied =
      .ok true) (debug : Bool) {before middle after : List (List (Step F))} {randomness : List F}
    (split : circuit.stages = before ++ (middle ++ after))
    (size : randomness.length = middle.length) :
    commitAll debug (builderAt circuit pk before) randomness =
      .ok (commitments pk.ck.lastDeltaG (middle.map witnesses)
        (pk.ck.deltasAbcG.drop before.length) randomness,
        builderAt circuit pk (before ++ middle)) := by
  induction middle generalizing before randomness with
  | nil =>
    cases List.eq_nil_of_length_eq_zero size
    rw [commitAll, List.append_nil]
    rfl
  | cons steps middle ih =>
    obtain _ | ⟨first, rest⟩ := randomness
    · cases size
    obtain ⟨key, found, committed⟩ := commit_eq keys satisfied split debug first
    have split' : circuit.stages = (before ++ [steps]) ++ (middle ++ after) := by
      rw [split, List.append_assoc, List.singleton_append, List.cons_append]
    have later := ih split' (Nat.succ.inj size)
    obtain ⟨inside, rfl⟩ := List.getElem?_eq_some_iff.mp found
    rw [commitAll, committed, ok_bind, later, ok_bind, List.drop_eq_getElem_cons inside,
      List.map_cons, commitments, List.append_assoc, List.singleton_append]
    simp only [List.length_append, List.length_singleton]

omit [DecidableEq F] in
/-- Over multiples of one generator, the coefficient is a multiple of it. -/
theorem calculateCoeff_eq {G : Type} [AddCommGroup G] [Module F G] (g : G) (initial param : F)
    {values : List F} (nonempty : 0 < values.length) (rest : List F) :
    calculateCoeff (initial • g) (values.map (· • g)) (param • g) rest =
      .ok ((param + dot (1 :: rest) values + initial) • g) := by
  obtain _ | ⟨value, values⟩ := values
  · cases nonempty
  rw [List.map_cons, calculateCoeff, msmUnchecked, dot_map_smul, dot_cons, one_smul]
  simp only [add_smul]
  congr 1
  abel

/-- The share of a range in the combined polynomials. -/
def share (trapdoor : Trapdoor F G₁ G₂) (q : QapEvaluation F) (z : List F) (range : Nat × Nat) : F :=
  trapdoor.beta * dot (slice z range.1 range.2) (slice q.a range.1 range.2) +
    trapdoor.alpha * dot (slice z range.1 range.2) (slice q.b range.1 range.2) +
    dot (slice z range.1 range.2) (slice q.c range.1 range.2)

omit [Field F] [DecidableEq F] in
theorem slice_lengths {total : Nat} (columns : Columns q total) (range : Nat × Nat) :
    (slice q.a range.1 range.2).length = (slice q.b range.1 range.2).length ∧
    (slice q.b range.1 range.2).length = (slice q.c range.1 range.2).length := by
  simp only [length_slice, columns.a, columns.b, columns.c, and_self]

variable (trapdoor) in
omit [DecidableEq F] [AddCommGroup G₂] [Module F G₂] in
theorem length_rangeKey {total : Nat} (columns : Columns q total) (delta : F)
    (range : Nat × Nat) :
    (rangeKey trapdoor q delta range).length = min range.2 total - range.1 := by
  obtain ⟨left, right⟩ := slice_lengths columns range
  rw [rangeKey, List.length_map, rangeAbc, combined_length _ _ _ left right, length_slice,
    columns.c]

variable (trapdoor) in
omit [DecidableEq F] [AddCommGroup G₂] [Module F G₂] in
/-- Under the key of a range, its part of the assignment weighs its share. -/
theorem dot_rangeKey {total : Nat} (columns : Columns q total) (delta : F) (z : List F)
    (range : Nat × Nat) :
    dot (slice z range.1 range.2) (rangeKey trapdoor q delta range) =
      (share trapdoor q z range * delta⁻¹) • trapdoor.g1Generator := by
  obtain ⟨left, right⟩ := slice_lengths columns range
  rw [rangeKey, dot_map_smul, rangeAbc, dot_combined _ _ _ _ left right, share]

variable (trapdoor) in
omit [DecidableEq F] [AddCommGroup G₁] [Module F G₁] [AddCommGroup G₂] [Module F G₂] in
/-- The shares of consecutive ranges add up. -/
theorem sum_share {total : Nat} (columns : Columns q total) {z : List F} (size : z.length = total)
    {start stop : Nat} {ranges : List (Nat × Nat)} (consecutive : Consecutive start ranges stop) :
    (ranges.map (share trapdoor q z)).sum = share trapdoor q z (start, stop) := by
  have a := sum_dot_slices consecutive (size.trans columns.a.symm)
  have b := sum_dot_slices consecutive (size.trans columns.b.symm)
  have c := sum_dot_slices consecutive (size.trans columns.c.symm)
  rw [share, ← a, ← b, ← c]
  clear a b c consecutive
  induction ranges with
  | nil => simp
  | cons range ranges ih =>
    simp only [List.map_cons, List.sum_cons, ih]
    rw [share]
    ring

omit [DecidableEq F] [AddCommGroup G₂] [Module F G₂] in
/-- The generated keys have the lengths of the stages. -/
theorem keysMatch {total n : Nat} (columns : Columns q total) {stages : List (List (Step F))}
    {deltas : List F} (count : deltas.length = stages.length) {start : Nat}
    (inside : start + n + (witnesses stages.flatten).length ≤ total) :
    List.Forall₂ (fun steps (key : List G₁) => key.length = (witnesses steps).length) stages
      ((deltas.zip (rangesFrom start stages)).map fun stage =>
        rangeKey trapdoor q stage.1 (shifted n stage.2)) := by
  induction stages generalizing deltas start with
  | nil =>
    cases List.eq_nil_of_length_eq_zero count
    exact .nil
  | cons steps stages ih =>
    obtain _ | ⟨delta, deltas⟩ := deltas
    · cases count
    rw [List.flatten_cons, witnesses_append, List.length_append] at inside
    rw [rangesFrom, List.zip_cons_cons, List.map_cons]
    refine .cons ?_ (ih (Nat.succ.inj count) (by omega))
    rw [length_rangeKey trapdoor columns]
    simp only [shifted]
    omega

omit [Field F] [DecidableEq F] in
/-- The witnesses of the stages are the slices at their ranges. -/
theorem slices_eq (before : List F) (stages : List (List (Step F))) (after : List F) :
    (rangesFrom before.length stages).map (fun range =>
      slice (before ++ witnesses stages.flatten ++ after) range.1 range.2) =
        stages.map witnesses := by
  induction stages generalizing before with
  | nil => rfl
  | cons steps stages ih =>
    have later := ih (before ++ witnesses steps)
    have here : slice (before ++ witnesses (steps :: stages).flatten ++ after) before.length
        (before.length + (witnesses steps).length) = witnesses steps := by
      rw [List.flatten_cons, witnesses_append, slice, List.append_assoc, List.take_length_add_append,
        List.drop_left, List.append_assoc, List.take_left]
    rw [List.length_append] at later
    rw [rangesFrom, List.map_cons, List.map_cons, here, ← later, List.flatten_cons,
      witnesses_append]
    simp only [List.append_assoc]

omit [Field F] [DecidableEq F] in
theorem rangesFrom_shifted (n start : Nat) (stages : List (List (Step F))) :
    rangesFrom (start + n) stages = (rangesFrom start stages).map (shifted n) := by
  induction stages generalizing start with
  | nil => rfl
  | cons steps stages ih =>
    rw [rangesFrom, rangesFrom, List.map_cons, ← ih, Nat.add_right_comm]
    rfl

/-- A run of the circuit: its full assignment, and columns of that size. -/
structure Assigned (circuit : StagedCircuit F) (q : QapEvaluation F) (z : List F) (n : Nat) :
    Prop where
  assignment : z = 1 :: inputs circuit.stages.flatten ++ witnesses circuit.stages.flatten
  instances : n = 1 + (inputs circuit.stages.flatten).length
  columns : Columns q z.length

omit [DecidableEq F] in
theorem Assigned.slices {circuit : StagedCircuit F} {z : List F} {n : Nat}
    (assigned : Assigned circuit q z n) :
    ((rangesFrom 0 circuit.stages).map (shifted n)).map (fun range => slice z range.1 range.2) =
      circuit.stages.map witnesses := by
  have all := slices_eq (1 :: inputs circuit.stages.flatten) circuit.stages []
  rw [List.append_nil, ← assigned.assignment, List.length_cons, Nat.add_comm,
    ← assigned.instances, ← Nat.zero_add n, rangesFrom_shifted] at all
  simpa only [Nat.zero_add] using all

omit [Field F] [DecidableEq F] in
theorem length_rangesFrom (start : Nat) (stages : List (List (Step F))) :
    (rangesFrom start stages).length = stages.length := by
  induction stages generalizing start with
  | nil => rfl
  | cons steps stages ih => rw [rangesFrom, List.length_cons, ih, List.length_cons]

omit [DecidableEq F] in
/-- The last range, and the slices at it and at the ranges before it. -/
theorem Assigned.last {circuit : StagedCircuit F} {z : List F} {n : Nat}
    (assigned : Assigned circuit q z n) {middle : List (List (Step F))} {steps : List (Step F)}
    (split : circuit.stages = middle ++ [steps]) :
    ∃ range, rangesFrom 0 circuit.stages = rangesFrom 0 middle ++ [range] ∧
      witnesses steps = slice z (shifted n range).1 (shifted n range).2 ∧
      middle.map witnesses = ((rangesFrom 0 middle).map (shifted n)).map
        (fun range => slice z range.1 range.2) := by
  have found : rangesFrom 0 circuit.stages = rangesFrom 0 middle ++
      [((witnesses middle.flatten).length,
        (witnesses middle.flatten).length + (witnesses steps).length)] := by
    rw [split, rangesFrom_append, Nat.zero_add]
    rfl
  have all := assigned.slices
  rw [found, split, List.map_append, List.map_append, List.map_append] at all
  obtain ⟨before, last⟩ := List.append_inj' all rfl
  exact ⟨_, found, (List.cons.inj last).1.symm, before.symm⟩

omit [DecidableEq F] [AddCommGroup G₂] [Module F G₂] in
/-- The committer keys, the last one apart. -/
theorem zip_drawn (n : Nat) (middle : List (List (Step F))) (range : Nat × Nat) :
    (((List.range (middle.length + 1)).map trapdoor.deltas).zip
      (rangesFrom 0 middle ++ [range])).map (fun stage =>
        rangeKey trapdoor q stage.1 (shifted n stage.2)) =
      ((((List.range middle.length).map trapdoor.deltas).zip (rangesFrom 0 middle)).map fun stage =>
        rangeKey trapdoor q stage.1 (shifted n stage.2)) ++
      [rangeKey trapdoor q (trapdoor.deltas middle.length) (shifted n range)] := by
  rw [List.range_succ, List.map_append, List.zip_append, List.map_append]
  · rfl
  · rw [List.length_map, List.length_range, length_rangesFrom]

omit [DecidableEq F] in
theorem keyOf_lastDeltaG (n last : Nat) (ranges : List (Nat × Nat)) :
    (keyOf trapdoor q n last ranges).lastDeltaG =
      .ok (trapdoor.deltas last • trapdoor.g1Generator) := by
  rw [ProvingKey.lastDeltaG, keyOf, getLast?_powers, expect_some]

omit [DecidableEq F] in
theorem keyOf_lastDeltaH (n last : Nat) (ranges : List (Nat × Nat)) :
    (keyOf trapdoor q n last ranges).lastDeltaH =
      .ok (trapdoor.deltas last • trapdoor.g2Generator) := by
  rw [ProvingKey.lastDeltaH, keyOf, getLast?_powers, expect_some]

omit [DecidableEq F] in
theorem keyOf_lastCk (n : Nat) (middle : List (List (Step F))) (range : Nat × Nat) :
    (keyOf trapdoor q n middle.length (rangesFrom 0 middle ++ [range])).lastCk =
      .ok (rangeKey trapdoor q (trapdoor.deltas middle.length) (shifted n range)) := by
  rw [ProvingKey.lastCk, keyOf, zip_drawn, List.getLast?_append, List.getLast?_singleton,
    Option.some_or, expect_some]

variable (trapdoor) in
/-- The last stage is proved under the generated key. -/
theorem proveLastStage_eq {circuit : StagedCircuit F} {middle : List (List (Step F))}
    {steps : List (Step F)} (split : circuit.stages = middle ++ [steps])
    (satisfied : (ofSteps false circuit.stages.flatten).isSatisfied = .ok true) {z : List F}
    {n : Nat} (assigned : Assigned circuit q z n) {range : Nat × Nat}
    (found : rangesFrom 0 circuit.stages = rangesFrom 0 middle ++ [range])
    (lastWitness : witnesses steps = slice z (shifted n range).1 (shifted n range).2)
    {qap : R1CSToQAP F} {h : List F}
    (mapped : qap.witnessMap (ofSteps false circuit.stages.flatten) = .ok h)
    (size : h.length = q.mRaw) (nonempty : 0 < q.mRaw) (debug : Bool) (r s : F) :
    proveLastStage qap debug (afterStages false middle) circuit.synthesizer
      (keyOf trapdoor q n middle.length (rangesFrom 0 circuit.stages)) r s =
    .ok ⟨(trapdoor.alpha + dot z q.a + r * trapdoor.deltas middle.length) • trapdoor.g1Generator,
      (trapdoor.beta + dot z q.b + s * trapdoor.deltas middle.length) • trapdoor.g2Generator,
      (s * (trapdoor.alpha + dot z q.a + r * trapdoor.deltas middle.length) +
        r * (trapdoor.beta + dot z q.b + s * trapdoor.deltas middle.length) -
        r * s * trapdoor.deltas middle.length +
        share trapdoor q z (shifted n range) * (trapdoor.deltas middle.length)⁻¹ +
        dot (h.take (q.mRaw - 1)) ((List.range (q.mRaw - 1)).map fun i =>
          q.zt * (trapdoor.deltas middle.length)⁻¹ * trapdoor.t ^ i)) •
        trapdoor.g1Generator⟩ := by
  have built := runStage_eq split false
  have stage : circuit.synthesizer.lastStage = middle.length := by
    change circuit.stages.length - 1 = middle.length
    rw [split, List.length_append, List.length_singleton, Nat.add_sub_cancel]
  have whole : z = 1 :: (inputs circuit.stages.flatten ++ witnesses circuit.stages.flatten) :=
    assigned.assignment
  have rest : (ofSteps false circuit.stages.flatten).fullAssignment.drop 1 =
      inputs circuit.stages.flatten ++ witnesses circuit.stages.flatten := rfl
  have positive : 0 < z.length := by
    rw [whole, List.length_cons]
    omega
  have aNonempty : 0 < q.a.length := assigned.columns.a ▸ positive
  have bNonempty : 0 < q.b.length := assigned.columns.b ▸ positive
  have final : (afterStages false (middle ++ [steps])).cs =
      ofSteps false circuit.stages.flatten := by
    rw [← split]
    rfl
  have lastKey : (keyOf trapdoor q n middle.length (rangesFrom 0 circuit.stages)).lastCk =
      .ok (rangeKey trapdoor q (trapdoor.deltas middle.length) (shifted n range)) := by
    rw [found, keyOf_lastCk]
  have keyLength : (rangeKey trapdoor q (trapdoor.deltas middle.length)
      (shifted n range)).length = (witnesses steps).length := by
    rw [length_rangeKey trapdoor assigned.columns, lastWitness, length_slice]
  have aux : (msm (rangeKey trapdoor q (trapdoor.deltas middle.length) (shifted n range))
      (witnesses steps)).getD 0 = (share trapdoor q z (shifted n range) *
        (trapdoor.deltas middle.length)⁻¹) • trapdoor.g1Generator := by
    rw [msm, if_pos keyLength, Option.getD_some, lastWitness, dot_rangeKey trapdoor assigned.columns]
  have hLength : (keyOf trapdoor q n middle.length (rangesFrom 0 circuit.stages)).hG.length =
      q.mRaw - 1 := by
    rw [keyOf, List.length_map, List.length_map, List.length_range]
  have quotient : msm (keyOf trapdoor q n middle.length (rangesFrom 0 circuit.stages)).hG
      (h.take (q.mRaw - 1)) = some (dot (h.take (q.mRaw - 1)) ((List.range (q.mRaw - 1)).map
        fun i => q.zt * (trapdoor.deltas middle.length)⁻¹ * trapdoor.t ^ i) •
          trapdoor.g1Generator) := by
    rw [msm, if_pos, keyOf, dot_map_smul]
    rw [hLength, List.length_take, size]
    omega
  have coeffA := calculateCoeff_eq trapdoor.g1Generator (r * trapdoor.deltas middle.length)
    trapdoor.alpha aNonempty (inputs circuit.stages.flatten ++ witnesses circuit.stages.flatten)
  have coeffB := calculateCoeff_eq trapdoor.g1Generator (s * trapdoor.deltas middle.length)
    trapdoor.beta bNonempty (inputs circuit.stages.flatten ++ witnesses circuit.stages.flatten)
  have coeffH := calculateCoeff_eq trapdoor.g2Generator (s * trapdoor.deltas middle.length)
    trapdoor.beta bNonempty (inputs circuit.stages.flatten ++ witnesses circuit.stages.flatten)
  rw [← whole] at coeffA coeffB coeffH
  rw [proveLastStage, stage, built]
  simp only [ok_bind, final, satisfied, assertSatisfied_eq, rest, keyOf_lastDeltaG,
    keyOf_lastDeltaH, lastKey, currentStageWitnessAssignment_eq, mapped, hLength, assertEq, quotient, aux, expect_some]
  rw [if_pos (show h.length = q.mRaw - 1 + 1 by omega)]
  simp only [keyOf, smul_smul, coeffA, coeffB, coeffH, ok_bind]
  by_cases zero : r = 0
  · subst zero
    rw [if_pos rfl]
    simp only [zero_mul, zero_smul, add_smul, sub_smul, smul_zero]
  · rw [if_neg zero]
    simp only [add_smul, sub_smul]

end Run

section Verification
variable {trapdoor q}

omit [DecidableEq F] in
/-- The verifier's equation in the exponents. -/
theorem exponents {alpha beta gamma delta a b c r s first before last k h zt : F}
    (gammaNonzero : gamma ≠ 0) (deltaNonzero : delta ≠ 0)
    (shares : first + (before + last) = beta * a + alpha * b + c) (divides : a * b - c = h * zt) :
    (alpha + a + r * delta) * (beta + b + s * delta) - first * gamma⁻¹ * gamma -
      (before + delta * k) - (s * (alpha + a + r * delta) + r * (beta + b + s * delta) -
        r * s * delta + last * delta⁻¹ + zt * delta⁻¹ * h - k) * delta = alpha * beta := by
  have gammaInv : gamma⁻¹ * gamma = 1 := inv_mul_cancel₀ gammaNonzero
  have deltaInv : delta⁻¹ * delta = 1 := inv_mul_cancel₀ deltaNonzero
  linear_combination divides - shares - first * gammaInv - (last + zt * h) * deltaInv

omit [DecidableEq F] in
theorem length_commitments (lastDelta : G₁) {stages : List (List F)} {keys : List (List G₁)}
    {randomness : List F} (enough : stages.length ≤ keys.length)
    (size : randomness.length = stages.length) :
    (commitments lastDelta stages keys randomness).length = stages.length := by
  induction stages generalizing keys randomness with
  | nil => rfl
  | cons stage stages ih =>
    obtain _ | ⟨key, keys⟩ := keys
    · cases enough
    obtain _ | ⟨first, rest⟩ := randomness
    · cases size
    rw [commitments, List.length_cons, List.length_cons,
      ih (Nat.le_of_succ_le_succ enough) (Nat.succ.inj size)]

variable (trapdoor) in
omit [DecidableEq F] in
/-- Against their deltas, the commitments leave the shares and the blinding. -/
theorem sum_commitments (E : Pairing F G₁ G₂ GT) {total : Nat} (columns : Columns q total)
    (z : List F) (n : Nat) (lastDelta : F) (more : List (List G₁)) {deltas : List F}
    {ranges : List (Nat × Nat)} {randomness : List F} (count : deltas.length = ranges.length)
    (size : randomness.length = ranges.length) (nonzero : ∀ delta ∈ deltas, delta ≠ 0) :
    (List.zipWith (fun g h => E.pairing g h)
      (commitments (lastDelta • trapdoor.g1Generator)
        ((ranges.map (shifted n)).map fun range => slice z range.1 range.2)
        (((deltas.zip ranges).map fun stage =>
          rangeKey trapdoor q stage.1 (shifted n stage.2)) ++ more) randomness)
      ((deltas.map (· • trapdoor.g2Generator)).map (- ·))).sum =
    (-(((ranges.map (shifted n)).map (share trapdoor q z)).sum + lastDelta * dot randomness deltas)) •
      E.pairing trapdoor.g1Generator trapdoor.g2Generator := by
  induction ranges generalizing deltas randomness with
  | nil =>
    cases List.eq_nil_of_length_eq_zero count
    simp [commitments]
  | cons range ranges ih =>
    obtain _ | ⟨delta, deltas⟩ := deltas
    · cases count
    obtain _ | ⟨first, rest⟩ := randomness
    · cases size
    have later := ih (Nat.succ.inj count) (Nat.succ.inj size)
      fun delta member => nonzero delta (List.mem_cons_of_mem _ member)
    have cancel : delta⁻¹ * delta = 1 := inv_mul_cancel₀ (nonzero delta List.mem_cons_self)
    have here : E.pairing (dot (slice z (shifted n range).1 (shifted n range).2)
        (rangeKey trapdoor q delta (shifted n range)) +
          first • lastDelta • trapdoor.g1Generator) (-(delta • trapdoor.g2Generator)) =
        (-(share trapdoor q z (shifted n range) + lastDelta * (first * delta))) •
          E.pairing trapdoor.g1Generator trapdoor.g2Generator := by
      rw [dot_rangeKey trapdoor columns, smul_smul, ← add_smul, map_neg, map_smul, map_smul,
        LinearMap.smul_apply, smul_smul, ← neg_smul]
      congr 1
      linear_combination -(share trapdoor q z (shifted n range)) * cancel
    simp only [List.map_cons, List.zip_cons_cons, List.cons_append, commitments,
      List.zipWith_cons_cons, List.sum_cons, here, later, dot_cons, smul_eq_mul]
    rw [← add_smul]
    congr 1
    ring

omit [DecidableEq F] [AddCommGroup G₂] [Module F G₂] [AddCommGroup GT] [Module F GT] in
/-- The prepared inputs are the share of the instance. -/
theorem prepareInputs_eq {circuit : StagedCircuit F} {z : List F} {n : Nat}
    (assigned : Assigned circuit q z n) {pvk : PreparedVerifyingKey G₁ G₂ GT}
    (key : pvk.vk.gammaAbcG = rangeKey trapdoor q trapdoor.gamma (0, n)) :
    prepareInputs pvk (inputs circuit.stages.flatten) =
      .ok ((share trapdoor q z (0, n) * trapdoor.gamma⁻¹) • trapdoor.g1Generator) := by
  have instances : slice z 0 n = 1 :: inputs circuit.stages.flatten := by
    rw [assigned.assignment, assigned.instances, slice, List.drop_zero, Nat.add_comm,
      List.cons_append, List.take_succ_cons, List.take_left]
  have inside : n ≤ z.length := by
    rw [assigned.assignment, assigned.instances, List.length_append, List.length_cons]
    omega
  have size : (rangeKey trapdoor q trapdoor.gamma (0, n)).length = n :=
    (length_rangeKey trapdoor assigned.columns _ _).trans (Nat.min_eq_left inside)
  have weighed := dot_rangeKey trapdoor assigned.columns trapdoor.gamma z (0, n)
  rw [instances] at weighed
  rw [prepareInputs, key, size, assigned.instances, if_neg (by omega), ← assigned.instances]
  split
  · rename_i empty
    rw [empty, assigned.instances] at size
    simp only [List.length_nil] at size
    omega
  · rename_i base bases found
    rw [found, dot_cons, one_smul] at weighed
    rw [foldl_dot, weighed]

omit [DecidableEq F] in
/-- The verifier's product, pair by pair. -/
theorem multiPairing_pairs (E : Pairing F G₁ G₂ GT) (a prepared c : G₁) (b gamma delta : G₂)
    {ds : List G₁} {deltas : List G₂} (size : ds.length = deltas.length) :
    E.multiPairing ([a] ++ [prepared] ++ ds ++ [c]) ([b] ++ [gamma] ++ (deltas ++ [delta])) =
      .ok (E.pairing a b + E.pairing prepared gamma +
        (List.zipWith (fun g h => E.pairing g h) ds deltas).sum + E.pairing c delta) := by
  rw [E.multiPairing_eq]
  · congr 1
    rw [← List.append_assoc, List.zipWith_append (by simpa using size),
      List.zipWith_append (by rfl), List.sum_append, List.sum_append]
    simp
  · simp [size]

omit [DecidableEq F] in
theorem keyOf_negDeltasH (E : Pairing F G₁ G₂ GT) (n last : Nat) (ranges : List (Nat × Nat)) :
    (prepareVerifyingKey E (keyOf trapdoor q n last ranges).vk).negDeltasH =
      (((List.range last).map trapdoor.deltas).map (· • trapdoor.g2Generator)).map (- ·) ++
        [-(trapdoor.deltas last • trapdoor.g2Generator)] := by
  change ((((List.range (last + 1)).map trapdoor.deltas).map
    (· • trapdoor.g2Generator)).map (- ·)) = _
  rw [List.range_succ, List.map_append, List.map_append, List.map_append]
  rfl

omit [DecidableEq F] in
/-- The instance and the stages cover the assignment. -/
theorem Assigned.consecutive {circuit : StagedCircuit F} {z : List F} {n : Nat}
    (assigned : Assigned circuit q z n) :
    Consecutive 0 ((0, n) :: (rangesFrom 0 circuit.stages).map (shifted n)) z.length := by
  have later := rangesFrom_consecutive n circuit.stages
  rw [← Nat.zero_add n, rangesFrom_shifted, Nat.zero_add] at later
  refine ⟨rfl, Nat.zero_le n, ?_⟩
  rw [assigned.assignment, List.length_append, List.length_cons, Nat.add_comm (List.length _) 1,
    ← assigned.instances]
  exact later

omit [DecidableEq F] [AddCommGroup G₁] [Module F G₁] [AddCommGroup G₂] [Module F G₂] in
/-- Of the whole assignment, the share is the right side of the equation. -/
theorem share_all {z : List F} (columns : Columns q z.length) :
    share trapdoor q z (0, z.length) =
      trapdoor.beta * dot z q.a + trapdoor.alpha * dot z q.b + dot z q.c := by
  rw [share, slice_all (Nat.le_refl _), slice_all (Nat.le_of_eq columns.a),
    slice_all (Nat.le_of_eq columns.b), slice_all (Nat.le_of_eq columns.c)]

omit [DecidableEq F] in
/-- The verifier accepts what its equation says. -/
theorem verifyProof_eq [DecidableEq GT] (E : Pairing F G₁ G₂ GT) {circuit : StagedCircuit F}
    {middle : List (List (Step F))} {z : List F} {n : Nat} (assigned : Assigned circuit q z n)
    {range : Nat × Nat} (found : rangesFrom 0 circuit.stages = rangesFrom 0 middle ++ [range])
    (gamma : trapdoor.gamma ≠ 0) (deltas : ∀ i ≤ middle.length, trapdoor.deltas i ≠ 0)
    {h : List F} (quotient : Quotient q trapdoor.t z h) {kappas : List F}
    (number : kappas.length = middle.length) (r s : F) :
    verifyProof E (prepareVerifyingKey E
      (keyOf trapdoor q n middle.length (rangesFrom 0 circuit.stages)).vk)
      ⟨(trapdoor.alpha + dot z q.a + r * trapdoor.deltas middle.length) • trapdoor.g1Generator,
        (trapdoor.beta + dot z q.b + s * trapdoor.deltas middle.length) • trapdoor.g2Generator,
        (s * (trapdoor.alpha + dot z q.a + r * trapdoor.deltas middle.length) +
          r * (trapdoor.beta + dot z q.b + s * trapdoor.deltas middle.length) -
          r * s * trapdoor.deltas middle.length +
          share trapdoor q z (shifted n range) * (trapdoor.deltas middle.length)⁻¹ +
          dot (h.take (q.mRaw - 1)) ((List.range (q.mRaw - 1)).map fun i =>
            q.zt * (trapdoor.deltas middle.length)⁻¹ * trapdoor.t ^ i) -
          dot kappas ((List.range middle.length).map trapdoor.deltas)) • trapdoor.g1Generator,
        commitments (trapdoor.deltas middle.length • trapdoor.g1Generator)
          (((rangesFrom 0 middle).map (shifted n)).map fun range => slice z range.1 range.2)
          (keyOf trapdoor q n middle.length (rangesFrom 0 circuit.stages)).ck.deltasAbcG kappas⟩
      (inputs circuit.stages.flatten) = .ok true := by
  have key : (prepareVerifyingKey E (keyOf trapdoor q n middle.length
      (rangesFrom 0 circuit.stages)).vk).vk.gammaAbcG =
        rangeKey trapdoor q trapdoor.gamma (0, n) := rfl
  have keys : (keyOf trapdoor q n middle.length (rangesFrom 0 circuit.stages)).ck.deltasAbcG =
      ((((List.range middle.length).map trapdoor.deltas).zip (rangesFrom 0 middle)).map
        fun stage => rangeKey trapdoor q stage.1 (shifted n stage.2)) ++
        [rangeKey trapdoor q (trapdoor.deltas middle.length) (shifted n range)] := by
    rw [keyOf, found, zip_drawn]
  have drawn : ((List.range middle.length).map trapdoor.deltas).length =
      (rangesFrom 0 middle).length := by
    rw [List.length_map, List.length_range, length_rangesFrom]
  have number' : kappas.length = (rangesFrom 0 middle).length := by
    rw [number, length_rangesFrom]
  have committed := sum_commitments trapdoor E assigned.columns z n
    (trapdoor.deltas middle.length)
    [rangeKey trapdoor q (trapdoor.deltas middle.length) (shifted n range)] drawn number' (by
      intro delta member
      obtain ⟨i, inside, rfl⟩ := List.mem_map.mp member
      exact deltas i (Nat.le_of_lt (List.mem_range.mp inside)))
  have size : (commitments (trapdoor.deltas middle.length • trapdoor.g1Generator)
      (((rangesFrom 0 middle).map (shifted n)).map fun range => slice z range.1 range.2)
      (keyOf trapdoor q n middle.length (rangesFrom 0 circuit.stages)).ck.deltasAbcG
      kappas).length = ((((List.range middle.length).map trapdoor.deltas).map
        (· • trapdoor.g2Generator)).map (- ·)).length := by
    rw [length_commitments]
    · simp [length_rangesFrom]
    · simp [keys, length_rangesFrom]
    · simp [number, length_rangesFrom]
  have shares := sum_share trapdoor assigned.columns rfl assigned.consecutive
  rw [found, List.map_append, List.map_cons, List.map_append, List.sum_cons, List.sum_append,
    List.map_singleton, List.map_singleton, List.sum_singleton] at shares
  rw [verifyProof, prepareInputs_eq assigned key, ok_bind, verifyProofWithPreparedInputs]
  simp only []
  rw [keyOf_negDeltasH, multiPairing_pairs E _ _ _ _ _ _ size, ok_bind, keys, committed]
  refine congrArg Except.ok (decide_eq_true ?_)
  have equation := exponents (r := r) (s := s) (k := dot kappas
    ((List.range middle.length).map trapdoor.deltas)) gamma (deltas middle.length (Nat.le_refl _))
    (shares.trans (share_all assigned.columns)) quotient.divides
  have powers : dot (h.take (q.mRaw - 1)) ((List.range (q.mRaw - 1)).map fun i =>
      q.zt * (trapdoor.deltas middle.length)⁻¹ * trapdoor.t ^ i) = q.zt *
        (trapdoor.deltas middle.length)⁻¹ * dot (h.take (q.mRaw - 1))
          ((List.range (q.mRaw - 1)).map (trapdoor.t ^ ·)) := by
    rw [← dot_map_mul, List.map_map]
    rfl
  rw [powers]
  change _ + E.pairing _ (-(trapdoor.gamma • trapdoor.g2Generator)) + _ + _ =
    E.pairing (trapdoor.alpha • trapdoor.g1Generator) (trapdoor.beta • trapdoor.g2Generator)
  simp only [map_smul, LinearMap.smul_apply, smul_smul, ← neg_smul, ← add_smul]
  rw [mul_comm trapdoor.beta trapdoor.alpha, ← equation]
  congr 1
  ring

/-- Honest commitments and an honest proof under a generated key are accepted. -/
theorem proof_accepted [DecidableEq GT] (E : Pairing F G₁ G₂ GT) {qap : R1CSToQAP F}
    (lawful : qap.Lawful) (setup circuit : StagedCircuit F)
    (shape : List.Forall₂ (List.Forall₂ SameStep) setup.stages circuit.stages) {last : Nat}
    (count : setup.stages.length = last + 1)
    (domain : (qap.newDomain
      (setup.assigned.numConstraints + setup.assigned.numInstanceVariables)).isSome)
    (satisfied : circuit.assigned.isSatisfied = .ok true) (trapdoor : Trapdoor F G₁ G₂)
    (gamma : trapdoor.gamma ≠ 0) (deltas : ∀ i ≤ last, trapdoor.deltas i ≠ 0) (debug : Bool)
    (kappas : List F) (number : kappas.length = last) (r s : F) :
    ∃ pk comms builder proof, generateParameters qap setup.synthesizer trapdoor = .ok pk ∧
      commitAll debug (.new circuit.synthesizer pk) kappas = .ok (comms, builder) ∧
      builder.prove qap debug comms kappas r s = .ok proof ∧
      verifyProof E (prepareVerifyingKey E pk.vk) proof (inputs circuit.stages.flatten) =
        .ok true := by
  have count' : circuit.stages.length = last + 1 := shape.length_eq ▸ count
  have nonempty : circuit.stages ≠ [] := by
    intro empty
    rw [empty] at count'
    cases count'
  obtain ⟨middle, steps, split⟩ : ∃ middle steps, circuit.stages = middle ++ [steps] :=
    ⟨_, _, (List.dropLast_append_getLast nonempty).symm⟩
  have size : middle.length = last := by
    rw [split, List.length_append, List.length_singleton] at count'
    exact Nat.succ.inj count'
  subst size
  rw [assigned_eq] at domain satisfied
  obtain ⟨q, evaluates, generated⟩ := generateParameters_eq trapdoor lawful setup count domain
    gamma deltas
  have same := same_flatten shape
  rw [same_inputs same, same_ranges shape] at generated
  obtain ⟨h, mapped, quotient⟩ := evaluates.quotient _ (ofSteps_sameShape same true false)
    (ofSteps_complete _) satisfied
  have total : (ofSteps false circuit.stages.flatten).fullAssignment.length =
      1 + (inputs setup.stages.flatten).length + (witnesses setup.stages.flatten).length := by
    rw [same_inputs same, same_witnesses same]
    simp [ofSteps, ConstraintSystem.fullAssignment]
    omega
  have assigned : Assigned circuit q (ofSteps false circuit.stages.flatten).fullAssignment
      (1 + (inputs circuit.stages.flatten).length) :=
    ⟨rfl, rfl, evaluates.a_length.trans total.symm, evaluates.b_length.trans total.symm,
      evaluates.c_length.trans total.symm⟩
  obtain ⟨range, found, lastWitness, before⟩ := assigned.last split
  have keys : KeysMatch circuit (keyOf trapdoor q (1 + (inputs circuit.stages.flatten).length)
      middle.length (rangesFrom 0 circuit.stages)) := by
    refine keysMatch assigned.columns ?_ ?_
    · rw [List.length_map, List.length_range, count']
    · rw [assigned.assignment, List.length_append, List.length_cons]
      omega
  have committed := commitAll_eq keys satisfied debug
    (show circuit.stages = [] ++ (middle ++ [steps]) from split) number
  have proved := proveLastStage_eq trapdoor split satisfied assigned found lastWitness mapped
    quotient.length evaluates.nonempty debug r s
  have accepted := verifyProof_eq E assigned found gamma deltas quotient number r s
  have blinding : dot kappas (((List.range (middle.length + 1)).map trapdoor.deltas).map
      (· • trapdoor.g1Generator)) =
        dot kappas ((List.range middle.length).map trapdoor.deltas) • trapdoor.g1Generator := by
    have cut : dot (kappas ++ []) ((List.range middle.length).map trapdoor.deltas ++
        [trapdoor.deltas middle.length]) = dot kappas ((List.range middle.length).map
          trapdoor.deltas) + dot ([] : List F) [trapdoor.deltas middle.length] := by
      refine dot_append ?_
      rw [number, List.length_map, List.length_range]
    rw [List.append_nil, dot_nil_left, add_zero] at cut
    rw [dot_map_smul, List.range_succ, List.map_append, List.map_singleton, cut]
  have deltasG : (keyOf trapdoor q (1 + (inputs circuit.stages.flatten).length) middle.length
      (rangesFrom 0 circuit.stages)).deltasG.length = kappas.length + 1 := by
    rw [keyOf, List.length_map, List.length_map, List.length_range, number]
  rw [← before] at accepted
  refine ⟨_, _, _, _, generated, committed, ?_, accepted⟩
  rw [CommitmentBuilder.prove]
  simp only [builderAt, List.nil_append, proved, ok_bind, assertEq, deltasG]
  rw [if_pos trivial, ok_bind, sub_smul, msmUnchecked, keyOf, blinding]
  rfl

end Verification

/-- The first stage commits to a number, the second one shows its square. -/
def squareStages (number square : ZMod 5) : List (List (Step (ZMod 5))) :=
  [[.newWitness number], [.newInput square, .enforce ⟨[(1, .witness 0)], [(1, .witness 0)],
    [(1, .input 1)]⟩]]

def squareCircuit (number square : ZMod 5) : StagedCircuit (ZMod 5) where
  stages := squareStages number square
  inScope := by simp [squareStages, ScopedSteps, Column.Allocated]

instance five_prime : Fact (Nat.Prime 5) := ⟨by decide⟩

theorem two_primitive : IsPrimitiveRoot (2 : ZMod 5) (2 ^ 2) := by
  refine .mk_of_lt 2 (by decide) (by decide) fun l positive below => ?_
  interval_cases l <;> decide

def squareTrapdoor : Trapdoor (ZMod 5) (ZMod 5) (ZMod 5) where
  alpha := 2
  beta := 3
  gamma := 4
  deltas i := if i = 0 then 2 else 3
  g1Generator := 1
  g2Generator := 2
  t := 3

theorem squareCircuit_accepted : ∃ pk comms builder proof,
    generateParameters (libsnarkReduction (radix2Domain two_primitive))
      (squareCircuit 0 0).synthesizer squareTrapdoor = .ok pk ∧
    commitAll true (.new (squareCircuit 2 4).synthesizer pk) [3] = .ok (comms, builder) ∧
    builder.prove (libsnarkReduction (radix2Domain two_primitive)) true comms [3] 0 1 = .ok proof ∧
    verifyProof (scalarPairing (ZMod 5)) (prepareVerifyingKey (scalarPairing (ZMod 5)) pk.vk) proof
      [4] = .ok true := by
  refine proof_accepted (scalarPairing (ZMod 5)) (libsnarkReduction_lawful _) (squareCircuit 0 0)
    (squareCircuit 2 4) ?_ rfl ?_ ?_ squareTrapdoor ?_ ?_ true [3] rfl 0 1
  · exact .cons (.cons .newWitness .nil) (.cons (.cons .newInput (.cons .enforce .nil)) .nil)
  · decide
  · decide
  · decide
  · decide

end ProofAcceptance
