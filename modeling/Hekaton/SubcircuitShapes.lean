import Hekaton.SubcircuitCircuit

/-!
# Which subcircuits have the same rows

The rows of both stages depend on the subtraces only through their lengths, and on the
index only through the checks of the first and of the last subcircuit. Two provers with
equal lengths and bodies of equal rows have the same rows when they agree on both
special cases, and one outgrows the other when it alone is the first or the last.
-/

namespace SubcircuitShapes

open Outcomes Wires Synthesis Contracts Transcript PortalManager PortalChecks EvalTree
open SubcircuitCircuit

variable {F D : Type} [Field F] {m : MemType} {gadget : TreeConfigGadget F D}

/-- Both stages of `p` and `p'` run and allocate and constrain alike. -/
def SameStages (gadget : TreeConfigGadget F D) (p p' : SubcircuitWithPortalsProver F D m) :
    Prop :=
  ∃ vars e₀ vars' e₀' r e₁ r' e₁', p.stage0 [] = .ok (vars, e₀) ∧ p'.stage0 [] = .ok (vars', e₀') ∧
    (p.withVars vars).stage1 gadget e₀.allocations = .ok (r, e₁) ∧
    (p'.withVars vars').stage1 gadget e₀'.allocations = .ok (r', e₁') ∧
    SameRows e₀ e₀' ∧ SameRows e₁ e₁'

/-- A manager that a body of `p` can be run with. -/
structure Prepared (p : SubcircuitWithPortalsProver F D m) (pm : ProverPortalManager F D m) :
    Prop where
  set : ∃ c, pm.runningEvals.challenges = some c
  fresh : pm.nextEntryIdx = 0
  time : pm.timeOrderedSubtrace.length = p.timeOrderedSubtrace.length
  addr : pm.addrOrderedSubtrace.length = p.addrOrderedSubtrace.length + 1

/-- What is witnessed has the same lengths, and the bodies have the same rows. -/
structure Comparable (p p' : SubcircuitWithPortalsProver F D m) : Prop where
  time : p.timeOrderedSubtrace.length = p'.timeOrderedSubtrace.length
  addr : p.addrOrderedSubtrace.length = p'.addrOrderedSubtrace.length
  path : p.nextLeafMembership.authPath.length = p'.nextLeafMembership.authPath.length
  challenges : p.challenges.length = Challenges.count m
  challenges' : p'.challenges.length = Challenges.count m
  body : ∀ pm, Prepared p pm → Parallel (p.runBody pm) (p'.runBody pm) (· = ·)

theorem Comparable.withVars {p p' : SubcircuitWithPortalsProver F D m} (same : Comparable p p')
    (vars : SubtraceVars F D m) : Comparable (p.withVars vars) (p'.withVars vars) :=
  ⟨same.time, same.addr, same.path, same.challenges, same.challenges',
    fun pm ready => same.body pm ⟨ready.set, ready.fresh, ready.time, ready.addr⟩⟩

/-- This prover makes the checks of the last subcircuit. -/
def IsLast (p : SubcircuitWithPortalsProver F D m) : Prop :=
  ∃ circ, p.circ = some circ ∧ p.subcircuitIdx = circ.numSubcircuits - 1

theorem newEntries_parallel {mode : AllocationMode} {entries entries' : List (TranscriptEntry F m)}
    (size : entries.length = entries'.length) :
    Parallel (newEntries (D := D) mode entries) (newEntries mode entries')
      (fun vars vars' => vars = vars' ∧ vars.length = entries.length) := by
  induction entries generalizing entries' with
  | nil =>
    cases List.eq_nil_of_length_eq_zero size.symm
    exact .pure ⟨rfl, rfl⟩
  | cons e entries ih =>
    obtain _ | ⟨e', entries'⟩ := entries'
    · cases size
    · refine .bind_eq newVariable_parallel fun v => (ih (Nat.succ.inj size)).bind ?_
      rintro vars _ ⟨rfl, length⟩
      exact .pure ⟨rfl, congrArg Nat.succ length⟩

theorem stage0_parallel {p p' : SubcircuitWithPortalsProver F D m} (same : Comparable p p') :
    Parallel p.stage0 p'.stage0 (fun vars vars' => vars = vars' ∧
      vars.time.length = p.timeOrderedSubtrace.length ∧
      vars.addr.length = p.addrOrderedSubtrace.length) := by
  refine (newEntries_parallel same.time).bind ?_
  rintro time _ ⟨rfl, timeLength⟩
  refine (newEntries_parallel same.addr).bind ?_
  rintro addr _ ⟨rfl, addrLength⟩
  exact .pure ⟨rfl, timeLength, addrLength⟩

variable [DecidableEq F] [DecidableEq D]

theorem openLeaf_parallel (lawful : gadget.Lawful) {p p' : SubcircuitWithPortalsProver F D m}
    (same : Comparable p p') : Parallel (p.openLeaf gadget) (p'.openLeaf gadget)
      (fun v v' => v = v' ∧ v.challenges.length = Challenges.count m) := by
  refine .bind_eq ExecTreeLeafVar.newVariable_parallel fun curLeaf => ?_
  refine (lawful.newWitness_parallel _ _ same.path).bind ?_
  rintro path _ ⟨rfl, _⟩
  refine (newList_parallel (same.challenges.trans same.challenges'.symm)).bind ?_
  rintro challenges _ ⟨rfl, count⟩
  exact .bind_eq .newVariable fun root => .pure ⟨rfl, count.trans same.challenges⟩

theorem exists_ofList {T : Type} {l : List T} (count : l.length = Challenges.count m) :
    ∃ c, Challenges.ofList m l = .ok c := by
  cases m with
  | rom =>
    obtain ⟨a, b, rfl⟩ := List.length_eq_two.mp count
    exact ⟨_, rfl⟩
  | ram =>
    obtain _ | ⟨a, _ | ⟨b, _ | ⟨c, _ | ⟨d, _ | ⟨e, l⟩⟩⟩⟩⟩ := l <;> cases count
    exact ⟨_, rfl⟩

theorem handOver_parallel (lawful : gadget.Lawful) {p p' : SubcircuitWithPortalsProver F D m}
    (same : Comparable p p') {vars : SubtraceVars F D m}
    (time : vars.time.length = p.timeOrderedSubtrace.length)
    (addr : vars.addr.length = p.addrOrderedSubtrace.length) {v : LeafVars F D m gadget}
    (count : v.challenges.length = Challenges.count m) :
    Parallel ((p.withVars vars).handOver gadget v) ((p'.withVars vars).handOver gadget v)
      (· = ·) := by
  obtain ⟨c, hc⟩ := exists_ofList count
  have set : v.curLeaf.evals.setChallenges v.challenges =
      .ok { v.curLeaf.evals with challenges := some c } := by
    rw [RunningEvaluationVar.setChallenges, hc, ok_bind]
  refine .lift_bind set (.bind_eq (same.body _ ⟨⟨c, rfl⟩, rfl, time, ?_⟩) fun pm => ?_)
  · exact congrArg Nat.succ addr
  · exact .bind_eq (lawful.verify_parallel _ _ _) fun b => .bind_eq (.emit _) fun _ => .pure rfl

theorem firstLeafChecks_computes (p : SubcircuitWithPortalsProver F D m)
    (curLeaf : ExecTreeLeafVar F D m) : ∃ rows, (p.subcircuitIdx = 0 → rows ≠ []) ∧
      (p.subcircuitIdx ≠ 0 → rows = []) ∧
      ∀ vars, p.firstLeafChecks curLeaf vars = .ok ((), ⟨[], rows⟩) := by
  obtain ⟨w, ⟨rows, _, run⟩, _⟩ := isPadding_computes curLeaf.lastSubtraceEntry
  rw [SubcircuitWithPortalsProver.firstLeafChecks]
  split
  · rename_i first
    let time : Constraint F D := .enforceEqual curLeaf.evals.timeOrderedEval (.constant (1 : F))
    let addr : Constraint F D := .enforceEqual curLeaf.evals.addrOrderedEval (.constant (1 : F))
    let padding : Constraint F D := .enforceEqual w (.constant true)
    refine ⟨time :: addr :: (rows ++ [padding]), fun _ => List.cons_ne_nil _ _,
      fun later => absurd first later, fun vars => ?_⟩
    refine Synth.bind_eq_ok.mpr ⟨(), _, (), ⟨[], addr :: (rows ++ [padding])⟩, rfl, ?_, rfl⟩
    refine Synth.bind_eq_ok.mpr ⟨(), _, (), ⟨[], rows ++ [padding]⟩, rfl, ?_, rfl⟩
    exact Synth.bind_eq_ok.mpr ⟨w, _, (), _, run _, rfl, rfl⟩
  · rename_i later
    exact ⟨[], fun first => absurd first later, fun _ => rfl, fun vars => rfl⟩

theorem firstLeafChecks_parallel {p p' : SubcircuitWithPortalsProver F D m}
    (first : p.subcircuitIdx = 0 ↔ p'.subcircuitIdx = 0) (curLeaf : ExecTreeLeafVar F D m) :
    Parallel (p.firstLeafChecks curLeaf) (p'.firstLeafChecks curLeaf) (fun _ _ => True) := by
  have same : p.firstLeafChecks curLeaf = p'.firstLeafChecks curLeaf := by
    rw [SubcircuitWithPortalsProver.firstLeafChecks, SubcircuitWithPortalsProver.firstLeafChecks]
    simp only [first]
  obtain ⟨rows, _, _, run⟩ := firstLeafChecks_computes p curLeaf
  rw [← same]
  exact fun vars vars' _ => ⟨(), _, (), _, run vars, run vars', ⟨rfl, rfl⟩, trivial⟩

theorem firstLeafChecks_outgrows {p p' : SubcircuitWithPortalsProver F D m}
    (first : p.subcircuitIdx = 0) (later : p'.subcircuitIdx ≠ 0)
    (curLeaf : ExecTreeLeafVar F D m) :
    Outgrows (p.firstLeafChecks curLeaf) (p'.firstLeafChecks curLeaf) (fun _ _ => True) := by
  obtain ⟨rows, some, _, run⟩ := firstLeafChecks_computes p curLeaf
  obtain ⟨rows', _, none, run'⟩ := firstLeafChecks_computes p' curLeaf
  refine fun vars vars' _ => ⟨(), _, (), _, run vars, run' vars', rfl, ?_, trivial⟩
  rw [none later]
  exact List.length_pos_iff.mpr (some first)

omit [Field F] [DecidableEq F] [DecidableEq D] in
theorem lastLeafCheck_parallel {p p' : SubcircuitWithPortalsProver F D m}
    (given : p.circ.isSome) (given' : p'.circ.isSome) (last : IsLast p ↔ IsLast p')
    (nextLeaf : ExecTreeLeafVar F D m) :
    Parallel (p.lastLeafCheck nextLeaf) (p'.lastLeafCheck nextLeaf) (fun _ _ => True) := by
  obtain ⟨circ, hcirc⟩ := Option.isSome_iff_exists.mp given
  obtain ⟨circ', hcirc'⟩ := Option.isSome_iff_exists.mp given'
  simp only [IsLast, hcirc, hcirc', Option.some.injEq, exists_eq_left'] at last
  simp only [SubcircuitWithPortalsProver.lastLeafCheck, hcirc, hcirc', last]
  split
  · exact (Parallel.emit _).mono fun _ _ _ => trivial
  · exact .pure trivial

omit [Field F] [DecidableEq F] [DecidableEq D] in
theorem lastLeafCheck_outgrows {p p' : SubcircuitWithPortalsProver F D m} (last : IsLast p)
    (given' : p'.circ.isSome) (inner : ¬ IsLast p') (nextLeaf : ExecTreeLeafVar F D m) :
    Outgrows (p.lastLeafCheck nextLeaf) (p'.lastLeafCheck nextLeaf) (fun _ _ => True) := by
  obtain ⟨circ, hcirc, index⟩ := last
  obtain ⟨circ', hcirc'⟩ := Option.isSome_iff_exists.mp given'
  have index' : p'.subcircuitIdx ≠ circ'.numSubcircuits - 1 := fun h => inner ⟨circ', hcirc', h⟩
  simp only [SubcircuitWithPortalsProver.lastLeafCheck, hcirc, hcirc', if_pos index,
    if_neg index']
  exact fun vars vars' _ => ⟨(), _, (), _, rfl, rfl, rfl, Nat.one_pos, trivial⟩

/-- Equal rows from equal lengths, bodies and special cases. -/
theorem sameStages (lawful : gadget.Lawful) {p p' : SubcircuitWithPortalsProver F D m}
    (same : Comparable p p') (first : p.subcircuitIdx = 0 ↔ p'.subcircuitIdx = 0)
    (given : p.circ.isSome) (given' : p'.circ.isSome) (last : IsLast p ↔ IsLast p') :
    SameStages gadget p p' := by
  obtain ⟨vars, e₀, _, e₀', run₀, run₀', rows₀, rfl, time, addr⟩ := stage0_parallel same [] [] rfl
  have stage1 : Parallel ((p.withVars vars).stage1 gadget) ((p'.withVars vars).stage1 gadget)
      (· = ·) := by
    refine (openLeaf_parallel lawful (same.withVars vars)).bind ?_
    rintro v _ ⟨rfl, count⟩
    refine (firstLeafChecks_parallel first v.curLeaf).bind fun _ _ _ => ?_
    refine .bind_eq (handOver_parallel lawful same time addr count) fun handover => ?_
    exact (lastLeafCheck_parallel given given' last handover.nextLeaf).bind fun _ _ _ => .pure rfl
  obtain ⟨r, e₁, r', e₁', run₁, run₁', rows₁, _⟩ := stage1 _ _ rows₀.1
  exact ⟨vars, e₀, vars, e₀', r, e₁, r', e₁', run₀, run₀', run₁, run₁', rows₀, rows₁⟩

omit [DecidableEq F] [DecidableEq D] in
/-- Where the second stage of one of them has more rows than the other's. -/
theorem not_sameStages_of_outgrows {p p' : SubcircuitWithPortalsProver F D m}
    (same : Comparable p p') (outgrows : ∀ vars : SubtraceVars F D m,
      vars.time.length = p.timeOrderedSubtrace.length →
      vars.addr.length = p.addrOrderedSubtrace.length →
      Outgrows ((p.withVars vars).stage1 gadget) ((p'.withVars vars).stage1 gadget) (· = ·)) :
    ¬ SameStages gadget p p' := by
  rintro ⟨vars, e₀, vars', e₀', r, e₁, r', e₁', run₀, run₀', run₁, run₁', rows₀, rows₁⟩
  obtain ⟨_, _, _, _, again, again', _, rfl, time, addr⟩ := stage0_parallel same [] [] rfl
  cases again.symm.trans run₀
  cases again'.symm.trans run₀'
  exact (outgrows vars time addr).not_sameRows rows₀.1 run₁ run₁' rows₁

/-- The checks of the last subcircuit are rows that no inner subcircuit has. -/
theorem not_sameStages_of_last (lawful : gadget.Lawful)
    {p p' : SubcircuitWithPortalsProver F D m} (same : Comparable p p')
    (first : p.subcircuitIdx = 0 ↔ p'.subcircuitIdx = 0) (last : IsLast p)
    (given' : p'.circ.isSome) (inner : ¬ IsLast p') : ¬ SameStages gadget p p' := by
  apply not_sameStages_of_outgrows same
  intro vars time addr
  refine (openLeaf_parallel lawful (same.withVars vars)).bind_outgrows ?_
  rintro v _ ⟨rfl, count⟩
  refine (firstLeafChecks_parallel first v.curLeaf).bind_outgrows fun _ _ _ => ?_
  refine (handOver_parallel lawful same time addr count).bind_outgrows ?_
  rintro handover _ rfl
  exact (lastLeafCheck_outgrows last given' inner handover.nextLeaf).bind fun _ _ _ => .pure rfl

/-- The checks of subcircuit 0 are rows that no later subcircuit has. -/
theorem not_sameStages_of_first (lawful : gadget.Lawful)
    {p p' : SubcircuitWithPortalsProver F D m} (same : Comparable p p')
    (first : p.subcircuitIdx = 0) (later : p'.subcircuitIdx ≠ 0) (given : p.circ.isSome)
    (given' : p'.circ.isSome) (last : IsLast p ↔ IsLast p') : ¬ SameStages gadget p p' := by
  apply not_sameStages_of_outgrows same
  intro vars time addr
  refine (openLeaf_parallel lawful (same.withVars vars)).bind_outgrows ?_
  rintro v _ ⟨rfl, count⟩
  refine (firstLeafChecks_outgrows first later v.curLeaf).bind fun _ _ _ => ?_
  refine .bind_eq (handOver_parallel lawful same time addr count) fun handover => ?_
  exact (lastLeafCheck_parallel given given' last handover.nextLeaf).bind fun _ _ _ => .pure rfl

end SubcircuitShapes
