import Hekaton.Coordinator
import Hekaton.SubcircuitCircuit
import Mathlib

/-!
# Chaining of subcircuits through the execution tree

A family of satisfied subcircuits shares its challenges and root, and the root is the
root of a list of leaves. Each subcircuit's outgoing leaf is then in the tree, at the
position that its own path witness spells; nothing ties that position to the index,
nor the incoming leaf of a later subcircuit to the tree, nor the portal calls of a body to
the number of its entries. The hand-over therefore holds exactly when the witnesses are the
ones the coordinator's requests supply, and the last evaluations are the products over all
entries exactly when those that no call used do not count.
-/

namespace Chaining

open Outcomes Wires Synthesis Contracts Transcript PortalManager PortalChecks EvalTree
open MerkleTrees SubcircuitCircuit Coordinator

variable {F D : Type} [Field F] [DecidableEq F] [DecidableEq D] {m : MemType}
variable {gadget : TreeConfigGadget F D}

/-- A subcircuit with an assignment that satisfies both of its stages. -/
structure Satisfied (gadget : TreeConfigGadget F D) (m : MemType) where
  prover : SubcircuitWithPortalsProver F D m
  circ : CircuitWithPortals F D m
  circ_eq : prover.circ = some circ
  vars : SubtraceVars F D m
  handover : HandoverVars F D m gadget
  emission : Emission F D
  run : prover.synthesize gadget [] = .ok ((vars, handover), emission)
  z : Assignment F D
  sat : emission.Satisfied z

namespace Satisfied

/-- A run with its honest assignment. -/
def ofRun [Inhabited D] (prover : SubcircuitWithPortalsProver F D m)
    (circ : CircuitWithPortals F D m) (circ_eq : prover.circ = some circ)
    {r : (SubtraceVars F D m × HandoverVars F D m gadget) × Emission F D}
    (run : prover.synthesize gadget [] = .ok r)
    (sat : r.2.Satisfied (assignmentOf r.2.allocations)) : Satisfied gadget m :=
  ⟨prover, circ, circ_eq, r.1.1, r.1.2, r.2, run, assignmentOf r.2.allocations, sat⟩

/-- The public inputs the assignment gives, challenges first. -/
def challenges (s : Satisfied gadget m) : List F :=
  s.handover.challenges.map fun w => w.eval s.z

def root (s : Satisfied gadget m) : D := s.handover.root.eval s.z

def inputLeaf (s : Satisfied gadget m) : AssignedLeaf F m := s.handover.curLeaf.value s.z

def outputLeaf (s : Satisfied gadget m) : AssignedLeaf F m := s.handover.nextLeaf.value s.z

/-- The leaf position that the witnessed path spells. -/
def position (s : Satisfied gadget m) : Nat :=
  MerkleTrees.position (gadget.levels s.z s.handover.path)

def times (s : Satisfied gadget m) : List (Entry F F m) :=
  s.vars.time.map (TranscriptEntryVar.value s.z)

def addrs (s : Satisfied gadget m) : List (Entry F F m) :=
  s.vars.addr.map (TranscriptEntryVar.value s.z)

/-- The values that the assignment gives to the witnesses of `cur_leaf`. -/
def witnessedLeaf (s : Satisfied gadget m) : List F :=
  s.handover.curLeaf.toConstraintField.map fun w => w.eval s.z

/-- The time-ordered entries that a portal call used. -/
def usedTimes (s : Satisfied gadget m) : List (Entry F F m) :=
  s.times.take s.handover.pm.nextEntryIdx

def usedAddrs (s : Satisfied gadget m) : List (Entry F F m) :=
  s.addrs.take s.handover.pm.nextEntryIdx

/-- The time-ordered entries that are left over after the body. -/
def surplusTimes (s : Satisfied gadget m) : List (Entry F F m) :=
  s.times.drop s.handover.pm.nextEntryIdx

def surplusAddrs (s : Satisfied gadget m) : List (Entry F F m) :=
  s.addrs.drop s.handover.pm.nextEntryIdx

/-- The body made one portal call for every entry of its subtraces. -/
def UsesAll (s : Satisfied gadget m) : Prop :=
  s.handover.pm.nextEntryIdx = s.vars.time.length ∧ s.vars.addr.length = s.vars.time.length

theorem surplus_of_all (s : Satisfied gadget m) (all : s.UsesAll) :
    s.surplusTimes = [] ∧ s.surplusAddrs = [] := by
  constructor
  · rw [surplusTimes, all.1]
    exact List.drop_eq_nil_of_le (by rw [times, List.length_map])
  · rw [surplusAddrs, all.1, ← all.2]
    exact List.drop_eq_nil_of_le (by rw [addrs, List.length_map])

theorem witnessedLeaf_eq (s : Satisfied gadget m) : s.witnessedLeaf = s.inputLeaf.fields :=
  s.handover.curLeaf.toConstraintField_eval

theorem handedOver (lawful : gadget.Lawful) (s : Satisfied gadget m) :
    HandedOver s.z s.prover s.vars s.handover := by
  obtain ⟨vars, e₁, handover, e₂, run₁, run₂, same⟩ := Synth.bind_eq_ok.mp s.run
  obtain ⟨h, e₃, r, e₄, run₃, run₄, same'⟩ := Synth.bind_eq_ok.mp run₂
  cases run₄
  cases same'
  have sat := s.sat
  obtain ⟨hresult, hemission⟩ := Prod.mk.inj same
  obtain ⟨hvars, hhandover⟩ := Prod.mk.inj hresult
  rw [hemission, Emission.append_empty] at sat
  rw [hvars, hhandover]
  exact stage1_forces lawful s.prover vars _ _ _ run₃ (Emission.satisfied_append.mp sat).2

/-- Each evaluation is multiplied by the entries that the portal calls used. -/
theorem evals_eq (lawful : gadget.Lawful) (s : Satisfied gadget m) {chal : Challenges F m}
    (inputs : s.challenges = chal.toList) :
    s.outputLeaf.timeEval = s.inputLeaf.timeEval * (s.usedTimes.map chal.factor).prod ∧
    s.outputLeaf.addrEval = s.inputLeaf.addrEval * (s.usedAddrs.map chal.factor).prod := by
  obtain ⟨_, _, ⟨c, made, hc, ran⟩, evals, _, _, _⟩ := s.handedOver lawful
  have hchal : c.value s.z = chal := by
    have lists : (c.value s.z).toList = chal.toList := by
      rw [← inputs, challenges, hc, Challenges.value, Challenges.toList_map]
    have same := congrArg (Challenges.ofList m) lists
    rwa [Challenges.ofList_toList, Challenges.ofList_toList, Except.ok.injEq] at same
  have count : made.length = s.handover.pm.nextEntryIdx := by
    have next := ran.advances.next
    simpa [preparedManager, ProverPortalManager.new] using next.symm
  have time := ran.timeEval
  have addr := ran.addrEval
  rw [hchal, count] at time addr
  simp only [preparedManager, ProverPortalManager.new, PortalChecks.times, PortalChecks.addrs,
    List.map_cons, List.drop_zero, List.drop_succ_cons, Nat.zero_add] at time addr
  simp only [outputLeaf, ExecTreeLeafVar.value, evals]
  exact ⟨time, addr⟩

end Satisfied

/-- Satisfied subcircuits `0 .. 2^k - 1` of one statement: the same challenges and root. -/
structure Family (gadget : TreeConfigGadget F D) (m : MemType) (k : Nat)
    (challenges : Challenges F m) (root : D) where
  member : Nat → Satisfied gadget m
  index : ∀ i < 2 ^ k, (member i).prover.subcircuitIdx = i
  count : ∀ i < 2 ^ k, (member i).circ.numSubcircuits = 2 ^ k
  pathLength : ∀ i < 2 ^ k,
    (member i).prover.nextLeafMembership.authPath.length = (2 ^ k).log2 - 1
  challenges_eq : ∀ i < 2 ^ k, (member i).challenges = challenges.toList
  root_eq : ∀ i < 2 ^ k, (member i).root = root

namespace Family
variable {k : Nat} {challenges : Challenges F m} {root : D}

/-- Every subcircuit hands on leaf `i`, and takes leaf `i - 1` from the one before. -/
def Chained (family : Family gadget m k challenges root) (leaf : Nat → ExecTreeLeaf F m) : Prop :=
  (∀ i < 2 ^ k, (family.member i).outputLeaf.fields = (leaf i).toFieldElements) ∧
  ∀ i < 2 ^ k, 0 < i → (family.member i).inputLeaf.fields = (leaf (i - 1)).toFieldElements

/-- The evaluations after the last subcircuit are the products over all entries. -/
def ProductsOfAll (family : Family gadget m k challenges root) : Prop :=
  (family.member (2 ^ k - 1)).outputLeaf.timeEval = (((List.range (2 ^ k)).flatMap fun j =>
    (family.member j).times).map challenges.factor).prod ∧
  (family.member (2 ^ k - 1)).outputLeaf.addrEval = (((List.range (2 ^ k)).flatMap fun j =>
    (family.member j).addrs).map challenges.factor).prod

/-- The witnesses are those of the coordinator's requests: a path to leaf `i`, or to an
equal leaf, and from index 1 on the requested leaf for the variables of `cur_leaf`. -/
def AsRequested (family : Family gadget m k challenges root)
    (leaf : Nat → ExecTreeLeaf F m) : Prop :=
  (∀ i < 2 ^ k, (leaf (family.member i).position).toFieldElements = (leaf i).toFieldElements) ∧
  ∀ i < 2 ^ k, 0 < i →
    (family.member i).witnessedLeaf = (requestedLeaf leaf i).toFieldElements

/-- In either order the factors of the entries that no portal call used multiply to one, or a
used entry has the factor zero. -/
def SurplusNeutral (family : Family gadget m k challenges root) : Prop :=
  ((((List.range (2 ^ k)).flatMap fun j => (family.member j).usedTimes).map
      challenges.factor).prod = 0 ∨
    (((List.range (2 ^ k)).flatMap fun j => (family.member j).surplusTimes).map
      challenges.factor).prod = 1) ∧
  ((((List.range (2 ^ k)).flatMap fun j => (family.member j).usedAddrs).map
      challenges.factor).prod = 0 ∨
    (((List.range (2 ^ k)).flatMap fun j => (family.member j).surplusAddrs).map
      challenges.factor).prod = 1)

theorem surplusNeutral_of_usesAll (family : Family gadget m k challenges root)
    (all : ∀ i < 2 ^ k, (family.member i).UsesAll) : family.SurplusNeutral := by
  have surplus (i : Nat) (member : i ∈ List.range (2 ^ k)) :=
    (family.member i).surplus_of_all (all i (List.mem_range.mp member))
  constructor
  · right
    rw [List.flatMap_eq_nil_iff.mpr fun i member => (surplus i member).1]
    rfl
  · right
    rw [List.flatMap_eq_nil_iff.mpr fun i member => (surplus i member).2]
    rfl

omit [DecidableEq F] in
/-- The front parts of lists have the product of the whole lists where the rest does not count. -/
theorem prod_take_iff {ι α : Type*} (l : List ι) (whole : ι → List α) (cut : ι → Nat)
    (factor : α → F) : ((l.flatMap fun j => (whole j).take (cut j)).map factor).prod =
      ((l.flatMap whole).map factor).prod ↔
        ((l.flatMap fun j => (whole j).take (cut j)).map factor).prod = 0 ∨
          ((l.flatMap fun j => (whole j).drop (cut j)).map factor).prod = 1 := by
  have parted := List.flatMap_append_perm l (fun j => (whole j).take (cut j))
    fun j => (whole j).drop (cut j)
  simp only [List.take_append_drop] at parted
  have product := (parted.map factor).prod_eq
  rw [List.map_append, List.prod_append] at product
  rw [← product]
  by_cases zero : ((l.flatMap fun j => (whole j).take (cut j)).map factor).prod = 0
  · simp only [zero, zero_mul, true_or]
  · rw [left_eq_mul₀ zero, or_iff_right zero]

/-- The path that a subcircuit witnesses leads from its outgoing leaf to the root. -/
theorem path_climbs (lawful : gadget.Lawful) (level : 0 < k)
    (family : Family gadget m k challenges root) {leaf : Nat → ExecTreeLeaf F m}
    (tree : root = treeRoot gadget k fun i => (leaf i).toFieldElements) {i : Nat}
    (inside : i < 2 ^ k) : climb gadget.twoToOneHash
      (gadget.levels (family.member i).z (family.member i).handover.path)
      (gadget.leafHash (family.member i).outputLeaf.fields) =
      MerkleTrees.root gadget.twoToOneHash
        (gadget.levels (family.member i).z (family.member i).handover.path).length
        (fun j => gadget.leafHash (leaf j).toFieldElements) := by
  have handed := (family.member i).handedOver lawful
  have depth : (gadget.levels (family.member i).z (family.member i).handover.path).length = k := by
    rw [handed.pathLength, family.pathLength i inside, Nat.log2_two_pow]
    omega
  have rooted : (family.member i).handover.root.eval (family.member i).z = root :=
    family.root_eq i inside
  rw [depth]
  exact (handed.member.trans rooted).trans tree

/-- Membership only: the outgoing leaf is the one at the position of the path. -/
theorem outputLeaf_eq (lawful : gadget.Lawful) (leafInjective : Function.Injective gadget.leafHash)
    (injective : Function.Injective2 gadget.twoToOneHash) (level : 0 < k)
    (family : Family gadget m k challenges root) {leaf : Nat → ExecTreeLeaf F m}
    (tree : root = treeRoot gadget k fun i => (leaf i).toFieldElements) {i : Nat}
    (inside : i < 2 ^ k) : (family.member i).outputLeaf.fields =
      (leaf (family.member i).position).toFieldElements :=
  leafInjective (leaf_of_climb injective (family.path_climbs lawful level tree inside))

theorem position_lt (lawful : gadget.Lawful) (level : 0 < k)
    (family : Family gadget m k challenges root) {i : Nat} (inside : i < 2 ^ k) :
    (family.member i).position < 2 ^ k := by
  have depth := ((family.member i).handedOver lawful).pathLength
  rw [family.pathLength i inside, Nat.log2_two_pow, Nat.sub_add_cancel level] at depth
  have bound := MerkleTrees.position_lt
    (gadget.levels (family.member i).z (family.member i).handover.path)
  rwa [depth] at bound

/-- Once the leaves are handed on, evaluation `i` is the product over the entries used by
subcircuits `0 .. i`. -/
theorem evals_prod (lawful : gadget.Lawful) (family : Family gadget m k challenges root)
    {leaf : Nat → ExecTreeLeaf F m} (chained : family.Chained leaf) {i : Nat}
    (inside : i < 2 ^ k) :
    (family.member i).outputLeaf.timeEval = (((List.range (i + 1)).flatMap fun j =>
      (family.member j).usedTimes).map challenges.factor).prod ∧
    (family.member i).outputLeaf.addrEval = (((List.range (i + 1)).flatMap fun j =>
      (family.member j).usedAddrs).map challenges.factor).prod := by
  induction i with
  | zero =>
    obtain ⟨time, addr⟩ := (family.member 0).evals_eq lawful (family.challenges_eq 0 inside)
    obtain ⟨timeOne, addrOne, _⟩ := ((family.member 0).handedOver lawful).first
      (family.index 0 inside)
    rw [time, addr]
    simp only [Satisfied.inputLeaf, timeOne, addrOne, one_mul]
    simp
  | succ i ih =>
    have before : i < 2 ^ k := Nat.lt_of_succ_lt inside
    obtain ⟨time, addr⟩ := (family.member (i + 1)).evals_eq lawful
      (family.challenges_eq _ inside)
    obtain ⟨ihTime, ihAddr⟩ := ih before
    have handed : (family.member (i + 1)).inputLeaf.fields = (family.member i).outputLeaf.fields := by
      rw [chained.2 _ inside (Nat.succ_pos i), chained.1 i before, Nat.add_sub_cancel]
    obtain ⟨timeEq, rest⟩ := List.cons.inj handed
    have addrEq := (List.cons.inj rest).1
    rw [List.range_succ, List.flatMap_append, List.flatMap_append, List.map_append, List.map_append,
      List.prod_append, List.prod_append, ← ihTime, ← ihAddr, List.flatMap_singleton,
      List.flatMap_singleton, ← timeEq, ← addrEq]
    exact ⟨time, addr⟩

/-- The last evaluations of a chained family are the products over all entries exactly when
those that no call used do not count. -/
theorem productsOfAll_iff (lawful : gadget.Lawful) (family : Family gadget m k challenges root)
    {leaf : Nat → ExecTreeLeaf F m} (chained : family.Chained leaf) :
    family.ProductsOfAll ↔ family.SurplusNeutral := by
  have last : 2 ^ k - 1 < 2 ^ k := Nat.sub_lt (Nat.two_pow_pos k) Nat.one_pos
  obtain ⟨time, addr⟩ := family.evals_prod lawful chained last
  rw [Nat.sub_add_cancel (Nat.two_pow_pos k)] at time addr
  rw [ProductsOfAll, time, addr]
  exact and_congr (prod_take_iff ..) (prod_take_iff ..)

/-- The witness of a later incoming leaf is the requested one when the leaf used is. -/
theorem witnessed_iff (s : Satisfied gadget m) (leaf : Nat → ExecTreeLeaf F m) {i : Nat}
    (later : 0 < i) : s.witnessedLeaf = (requestedLeaf leaf i).toFieldElements ↔
      s.inputLeaf.fields = (leaf (i - 1)).toFieldElements := by
  obtain ⟨i, rfl⟩ := Nat.exists_eq_add_of_le' later
  rw [s.witnessedLeaf_eq]
  rfl

/-- The leaves are handed on and the last evaluations are the products over all entries
exactly when the witnesses are as requested and no entry is left over that counts. None is
left over where every body makes one portal call for every entry. -/
theorem chained_iff_asRequested (lawful : gadget.Lawful)
    (leafInjective : Function.Injective gadget.leafHash)
    (injective : Function.Injective2 gadget.twoToOneHash) (level : 0 < k)
    (family : Family gadget m k challenges root) (leaf : Nat → ExecTreeLeaf F m)
    (tree : root = treeRoot gadget k fun i => (leaf i).toFieldElements) :
    (family.Chained leaf ∧ family.ProductsOfAll ↔
      family.AsRequested leaf ∧ family.SurplusNeutral) ∧
    (family.Chained leaf ↔ family.AsRequested leaf) ∧
    ((∀ i < 2 ^ k, (family.member i).UsesAll) → family.SurplusNeutral) := by
  have output : ∀ i < 2 ^ k, (family.member i).outputLeaf.fields =
      (leaf (family.member i).position).toFieldElements :=
    fun i inside => family.outputLeaf_eq lawful leafInjective injective level tree inside
  have iff : family.Chained leaf ↔ family.AsRequested leaf := by
    constructor
    · rintro ⟨outputs, inputs⟩
      exact ⟨fun i inside => (output i inside).symm.trans (outputs i inside),
        fun i inside later => (witnessed_iff _ leaf later).mpr (inputs i inside later)⟩
    · rintro ⟨positions, inputs⟩
      exact ⟨fun i inside => (output i inside).trans (positions i inside),
        fun i inside later => (witnessed_iff _ leaf later).mp (inputs i inside later)⟩
  refine ⟨?_, iff, family.surplusNeutral_of_usesAll⟩
  rw [← iff]
  exact and_congr_right fun chained => family.productsOfAll_iff lawful chained

end Family

def idleCircuit : CircuitWithPortals (ZMod 3) (FreeDigest (ZMod 3)) .rom where
  numSubcircuits := 2
  generateConstraints := fun _ => .done ()
  getPortalSubtraces := .ok [[], []]
  getUniqueSubcircuits := [0, 1]
  representativeSubcircuit := .ok

/-- Subcircuit `i` proves leaf `i` of the tree over `leaf`, from the given leaf. -/
def idleProver (leaf : Nat → ExecTreeLeaf (ZMod 3) .rom) (curLeaf : ExecTreeLeaf (ZMod 3) .rom)
    (i : Nat) : SubcircuitWithPortalsProver (ZMod 3) (FreeDigest (ZMod 3)) .rom :=
  { SubcircuitWithPortalsProver.new 2 with
    subcircuitIdx := i
    circ := some idleCircuit
    curLeaf := curLeaf
    nextLeafMembership :=
      generateProof (freeGadget (ZMod 3)) 1 (fun j => (leaf j).toFieldElements) i
    root := treeRoot (freeGadget (ZMod 3)) 1 fun j => (leaf j).toFieldElements }

/-- The leaf both idle subcircuits should hand on. -/
def idleLeaf : ExecTreeLeaf (ZMod 3) .rom := .padding _ _

/-- A tree whose leaf 1 does not continue leaf 0. -/
def forgedLeaf : Nat → ExecTreeLeaf (ZMod 3) .rom
  | 0 => idleLeaf
  | _ => ⟨⟨-1, -1, none⟩, .padding _⟩

def idleMember : Nat → Satisfied (freeGadget (ZMod 3)) .rom
  | 0 => .ofRun (idleProver (fun _ => idleLeaf) idleLeaf 0) idleCircuit rfl rfl (by decide +kernel)
  | _ => .ofRun (idleProver (fun _ => idleLeaf) idleLeaf 1) idleCircuit rfl rfl (by decide +kernel)

/-- Subcircuit 1 takes its own outgoing leaf as the incoming one. -/
def forgedMember : Nat → Satisfied (freeGadget (ZMod 3)) .rom
  | 0 => .ofRun (idleProver forgedLeaf idleLeaf 0) idleCircuit rfl rfl (by decide +kernel)
  | _ => .ofRun (idleProver forgedLeaf (forgedLeaf 1) 1) idleCircuit rfl rfl (by decide +kernel)

def idleFamily : Family (freeGadget (ZMod 3)) .rom 1 (.rom 0 0)
    (treeRoot (freeGadget (ZMod 3)) 1 fun _ => idleLeaf.toFieldElements) where
  member := idleMember
  index i inside := match i with | 0 => rfl | 1 => rfl
  count i inside := match i with | 0 => rfl | 1 => rfl
  pathLength i inside := match i with | 0 => by decide +kernel | 1 => by decide +kernel
  challenges_eq i inside := match i with | 0 => by decide +kernel | 1 => by decide +kernel
  root_eq i inside := match i with | 0 => by decide +kernel | 1 => by decide +kernel

def forgedFamily : Family (freeGadget (ZMod 3)) .rom 1 (.rom 0 0)
    (treeRoot (freeGadget (ZMod 3)) 1 fun j => (forgedLeaf j).toFieldElements) where
  member := forgedMember
  index i inside := match i with | 0 => rfl | 1 => rfl
  count i inside := match i with | 0 => rfl | 1 => rfl
  pathLength i inside := match i with | 0 => by decide +kernel | 1 => by decide +kernel
  challenges_eq i inside := match i with | 0 => by decide +kernel | 1 => by decide +kernel
  root_eq i inside := match i with | 0 => by decide +kernel | 1 => by decide +kernel

theorem idleFamily_chained : (idleFamily.Chained fun _ => idleLeaf) ∧ idleFamily.ProductsOfAll := by
  have settled := Family.chained_iff_asRequested (pathGadget_lawful _ _) (freeLeaf_injective _)
    (freeNode_injective _) Nat.one_pos idleFamily (fun _ => idleLeaf) rfl
  refine settled.1.mpr ⟨⟨fun _ _ => rfl, ?_⟩, settled.2.2 ?_⟩
  · intro i inside later
    obtain rfl : i = 1 := by omega
    decide +kernel
  · intro i inside
    obtain rfl | rfl : i = 0 ∨ i = 1 := by omega
    · exact ⟨rfl, rfl⟩
    · exact ⟨rfl, rfl⟩

/-- Every constraint of both subcircuits holds, and leaf 0 is never handed over. -/
theorem forgedFamily_not_chained : Function.Injective (freeGadget (ZMod 3)).leafHash ∧
    Function.Injective2 (freeGadget (ZMod 3)).twoToOneHash ∧ ¬ forgedFamily.Chained forgedLeaf := by
  refine ⟨freeLeaf_injective _, freeNode_injective _, fun chained => ?_⟩
  have handed := chained.2 1 (by decide) Nat.one_pos
  revert handed
  decide +kernel

end Chaining
