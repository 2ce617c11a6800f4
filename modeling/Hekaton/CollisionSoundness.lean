import Hekaton.Chaining
import Hekaton.HashCollisions
import Hekaton.MemoryTraces
import Hekaton.ProductAgreements
import Hekaton.SubcircuitChains
import Mathlib

/-!
# What accepted subcircuits prove under any hash

The hashes of the execution tree compress, so they are not injective. For a family of
satisfied subcircuits with the coordinator's witnesses either a collision of one of the
hashes is read off the paths, or the leaves are handed on and the two products over all
subtraces agree. The traces are committed to before the challenges are drawn: but for few
challenges the read-only memory the family shares then has one value an address.
-/

namespace CollisionSoundness

open Outcomes Wires Synthesis Contracts Transcript PortalManager PortalChecks EvalTree
open MerkleTrees MemoryTraces SubcircuitCircuit Chaining HashCollisions ProductAgreements

variable {F D : Type} [Field F] [DecidableEq F] [DecidableEq D] {m : MemType}
variable {gadget : TreeConfigGadget F D} {k : Nat} {root : D}

section Search
variable {challenges : Challenges F m} (family : Family gadget m k challenges root)
variable (leaf : Nat → ExecTreeLeaf F m)

/-- The leaf that subcircuit `i` hands on against the tree's at the path's position. -/
def leafCollision (i : Nat) : Option (Collision gadget.leafHash) :=
  collide gadget.leafHash (family.member i).outputLeaf.fields
    (leaf (family.member i).position).toFieldElements

/-- The path that subcircuit `i` witnesses against the tree's nodes. -/
def pathCollision (i : Nat) : Option (Collision (Function.uncurry gadget.twoToOneHash)) :=
  onPath gadget.twoToOneHash (gadget.levels (family.member i).z (family.member i).handover.path)
    (gadget.leafHash (family.member i).outputLeaf.fields)
    fun j => gadget.leafHash (leaf j).toFieldElements

/-- Some subcircuit's leaf or path shows a collision. -/
def Collides : Prop :=
  ∃ i < 2 ^ k, (leafCollision family leaf i).isSome ∨ (pathCollision family leaf i).isSome

instance : Decidable (Collides family leaf) :=
  inferInstanceAs (Decidable (∃ i < 2 ^ k, _))

variable {family leaf}

theorem not_injective_of_collides (collides : Collides family leaf) :
    ¬ Function.Injective gadget.leafHash ∨
    ¬ Function.Injective (Function.uncurry gadget.twoToOneHash) := by
  obtain ⟨i, _, inLeaf | inPath⟩ := collides
  · exact .inl ((leafCollision family leaf i).get inLeaf).not_injective
  · exact .inr ((pathCollision family leaf i).get inPath).not_injective

theorem leafCollision_none (clear : ¬ Collides family leaf) {i : Nat} (inside : i < 2 ^ k) :
    leafCollision family leaf i = none := by
  by_contra found
  exact clear ⟨i, inside, .inl (Option.isSome_iff_ne_none.mpr found)⟩

theorem pathCollision_none (clear : ¬ Collides family leaf) {i : Nat} (inside : i < 2 ^ k) :
    pathCollision family leaf i = none := by
  by_contra found
  exact clear ⟨i, inside, .inr (Option.isSome_iff_ne_none.mpr found)⟩

/-- Where nothing collides the outgoing leaf is the one at the position of the path. -/
theorem outputLeaf_of_clear (lawful : gadget.Lawful) (level : 0 < k)
    (tree : root = treeRoot gadget k fun i => (leaf i).toFieldElements)
    (clear : ¬ Collides family leaf) {i : Nat} (inside : i < 2 ^ k) :
    (family.member i).outputLeaf.fields = (leaf (family.member i).position).toFieldElements := by
  have alike : gadget.leafHash (family.member i).outputLeaf.fields =
      gadget.leafHash (leaf (family.member i).position).toFieldElements :=
    leaf_of_onPath_none (pathCollision_none clear inside)
      (family.path_climbs lawful level tree inside)
  exact eq_of_collide_none (leafCollision_none clear inside) alike

theorem chained_of_clear (lawful : gadget.Lawful) (level : 0 < k)
    (tree : root = treeRoot gadget k fun i => (leaf i).toFieldElements)
    (clear : ¬ Collides family leaf) (requested : family.AsRequested leaf) :
    family.Chained leaf := by
  refine ⟨fun i inside => ?_, fun i inside later => ?_⟩
  · exact (outputLeaf_of_clear lawful level tree clear inside).trans (requested.1 i inside)
  · exact (Family.witnessed_iff _ leaf later).mp (requested.2 i inside later)

end Search

section Traces
variable {challenges : Challenges F m}

/-- The time-ordered entries of all subcircuits. -/
def timeTrace (family : Family gadget m k challenges root) : List (Entry F F m) :=
  (List.range (2 ^ k)).flatMap fun i => (family.member i).times

/-- The address-ordered entries of all subcircuits. -/
def addrTrace (family : Family gadget m k challenges root) : List (Entry F F m) :=
  (List.range (2 ^ k)).flatMap fun i => (family.member i).addrs

variable {family : Family gadget m k challenges root} {leaf : Nat → ExecTreeLeaf F m}

/-- The last subcircuit compares the products over the two traces. -/
theorem products_agree (lawful : gadget.Lawful) (chained : family.Chained leaf)
    (all : ∀ i < 2 ^ k, (family.member i).UsesAll) :
    ((timeTrace family).map challenges.factor).prod =
      ((addrTrace family).map challenges.factor).prod := by
  have inside : 2 ^ k - 1 < 2 ^ k := Nat.sub_lt (Nat.two_pow_pos k) Nat.one_pos
  obtain ⟨time, addr⟩ := (family.productsOfAll_iff lawful chained).mpr
    (family.surplusNeutral_of_usesAll all)
  have last := ((family.member (2 ^ k - 1)).handedOver lawful).last _
    (family.member (2 ^ k - 1)).circ_eq
  rw [family.index _ inside, family.count _ inside] at last
  exact time.symm.trans ((last rfl).trans addr)

end Traces

section ReadOnly
variable {challenges : Challenges F .rom}
variable {family : Family gadget .rom k challenges root} {leaf : Nat → ExecTreeLeaf F .rom}

omit [DecidableEq F] in
theorem romFields_injective : Function.Injective (AssignedLeaf.fields (F := F) (m := .rom)) := by
  rintro ⟨time, addr, ⟨⟨a, v⟩⟩⟩ ⟨time', addr', ⟨⟨a', v'⟩⟩⟩ same
  simp only [AssignedLeaf.fields, Entry.fields, List.cons_append, List.nil_append,
    List.cons.injEq, and_true] at same
  obtain ⟨rfl, rfl, rfl, rfl⟩ := same
  rfl

/-- A subcircuit's address-ordered entries continue the entry it was handed. -/
theorem member_isChain (lawful : gadget.Lawful) (s : Satisfied gadget .rom) (all : s.UsesAll) :
    (s.inputLeaf.lastEntry :: s.addrs).IsChain Follows := by
  obtain ⟨_, _, ⟨c, made, _, ran⟩, _, _, _, _⟩ := s.handedOver lawful
  refine List.isChain_iff_getElem.mpr fun j inside => ?_
  have small : j < s.handover.pm.nextEntryIdx := by
    rw [List.length_cons, Satisfied.addrs, List.length_map] at inside
    rw [all.1, ← all.2]
    omega
  exact (ran.checked j (Nat.zero_le j) small).follows _ _
    (List.getElem?_eq_getElem (Nat.lt_of_succ_lt inside)) (List.getElem?_eq_getElem inside)

theorem members_linked (lawful : gadget.Lawful) (chained : family.Chained leaf) :
    Linked (fun i => (family.member i).inputLeaf.lastEntry) (fun i => (family.member i).addrs)
      (List.range (2 ^ k)) := by
  refine (List.isChain_range _ _).mpr fun i before => ?_
  have inside : i + 1 < 2 ^ k := by omega
  have handed : (family.member (i + 1)).inputLeaf = (family.member i).outputLeaf := by
    apply romFields_injective
    rw [chained.2 _ inside (Nat.succ_pos i), chained.1 i (by omega), Nat.add_sub_cancel]
  have lastEntry := ((family.member i).handedOver lawful).lastEntry
  calc (family.member (i + 1)).inputLeaf.lastEntry
    _ = (family.member i).outputLeaf.lastEntry := congrArg AssignedLeaf.lastEntry handed
    _ = (TranscriptEntryVar.value (family.member i).z
          (((family.member i).handover.curLeaf.lastSubtraceEntry ::
            (family.member i).vars.addr).getLast (List.cons_ne_nil _ _))) :=
        congrArg (TranscriptEntryVar.value (family.member i).z) lastEntry
    _ = ((family.member i).inputLeaf.lastEntry :: (family.member i).addrs).getLast
          (List.cons_ne_nil _ _) := (List.getLast_map (f := TranscriptEntryVar.value _)
        (l := _ :: (family.member i).vars.addr) (List.cons_ne_nil _ _)).symm

/-- Entries at one address have one value, wherever they lie in the trace. -/
theorem addrTrace_agrees {p : Nat} [CharP F p] (lawful : gadget.Lawful)
    (chained : family.Chained leaf) (all : ∀ i < 2 ^ k, (family.member i).UsesAll)
    (small : (addrTrace family).length < p) :
    ∀ e ∈ addrTrace family, ∀ e' ∈ addrTrace family, e.addr = e'.addr → e.value = e'.value := by
  have atHead : 0 ∈ (List.range (2 ^ k)).head? := by
    rw [List.head?_range, if_neg (Nat.two_pow_pos k).ne']
    rfl
  exact SubcircuitChains.values_agree (isChain_of_linked (members_linked lawful chained)
    (fun i member => member_isChain lawful _ (all i (List.mem_range.mp member))) 0 atHead) small

end ReadOnly

section Drawn

/-- The challenges under which two traces that differ have equal products. -/
def badChallenges (time addr : List (Entry F F .rom)) (S : Finset F) : Finset (F × F) :=
  if time.Perm addr then ∅ else agreements Entry.value Entry.addr time addr S

omit [DecidableEq F] in
theorem prod_factor (entryChal trChal : F) (l : List (Entry F F .rom)) :
    (l.map (Challenges.rom entryChal trChal).factor).prod =
      productAt Entry.value Entry.addr l entryChal trChal := by
  refine congrArg List.prod (List.map_congr_left fun e _ => ?_)
  cases e
  rfl

theorem card_badChallenges_le (time addr : List (Entry F F .rom)) (S : Finset F) :
    (badChallenges time addr S).card ≤ max time.length addr.length * S.card := by
  rw [badChallenges]
  split
  · exact Nat.zero_le _
  · rename_i different
    refine card_agreements_le ?_ different S
    rintro ⟨⟨a, v⟩⟩ ⟨⟨a', v'⟩⟩ same
    obtain ⟨rfl, rfl⟩ := Prod.mk.inj same
    rfl

theorem perm_of_not_bad {time addr : List (Entry F F .rom)} {S : Finset F} {entryChal trChal : F}
    (first : entryChal ∈ S) (second : trChal ∈ S)
    (good : (entryChal, trChal) ∉ badChallenges time addr S)
    (agree : (time.map (Challenges.rom entryChal trChal).factor).prod =
      (addr.map (Challenges.rom entryChal trChal).factor).prod) : time.Perm addr := by
  by_contra different
  rw [badChallenges, if_neg different] at good
  apply good
  refine Finset.mem_filter.mpr ⟨Finset.mem_product.mpr ⟨first, second⟩, ?_⟩
  rwa [prod_factor, prod_factor] at agree

/-- Read-only memory under any hash: of the challenges all but few leave an accepted family
over the committed traces no choice but to agree on every address or to exhibit a collision. -/
theorem rom_agrees_or_collides {p : Nat} [CharP F p] (lawful : gadget.Lawful) (level : 0 < k)
    (time addr : List (Entry F F .rom)) (small : addr.length < p) (S : Finset F) :
    (badChallenges time addr S).card ≤ max time.length addr.length * S.card ∧
    ∀ entryChal ∈ S, ∀ trChal ∈ S, (entryChal, trChal) ∉ badChallenges time addr S →
      ∀ (family : Family gadget .rom k (.rom entryChal trChal) root)
        (leaf : Nat → ExecTreeLeaf F .rom),
        (root = treeRoot gadget k fun i => (leaf i).toFieldElements) →
        family.AsRequested leaf → (∀ i < 2 ^ k, (family.member i).UsesAll) →
        timeTrace family = time → addrTrace family = addr →
        Collides family leaf ∨
          ∀ e ∈ time, ∀ e' ∈ time, e.addr = e'.addr → e.value = e'.value := by
  refine ⟨card_badChallenges_le time addr S, ?_⟩
  rintro entryChal first trChal second good family leaf tree requested all rfl rfl
  by_cases collides : Collides family leaf
  · exact .inl collides
  · have chained := chained_of_clear lawful level tree collides requested
    have perm := perm_of_not_bad first second good (products_agree lawful chained all)
    have agrees := addrTrace_agrees lawful chained all small
    exact .inr fun e he e' he' => agrees e (perm.mem_iff.mp he) e' (perm.mem_iff.mp he')

end Drawn

def relayCircuit : CircuitWithPortals (ZMod 3) (FreeDigest (ZMod 3)) .rom where
  numSubcircuits := 2
  generateConstraints := fun
    | 0 => Program.portalSet "a" (.constant (-1))
    | _ => do let _ ← Program.portalGet "a"
  getPortalSubtraces := .ok [[.rom ⟨1, -1⟩], [.rom ⟨1, -1⟩]]
  getUniqueSubcircuits := [0, 1]
  representativeSubcircuit := .ok

/-- Each subcircuit multiplies both evaluations by minus one. -/
def relayLeaf : Nat → ExecTreeLeaf (ZMod 3) .rom
  | 0 => ⟨⟨-1, -1, none⟩, .rom ⟨1, -1⟩⟩
  | _ => ⟨⟨1, 1, none⟩, .rom ⟨1, -1⟩⟩

def relayProver (curLeaf : ExecTreeLeaf (ZMod 3) .rom) (i : Nat) :
    SubcircuitWithPortalsProver (ZMod 3) (FreeDigest (ZMod 3)) .rom :=
  { SubcircuitWithPortalsProver.new 2 with
    subcircuitIdx := i
    circ := some relayCircuit
    timeOrderedSubtrace := [.rom ⟨1, -1⟩]
    addrOrderedSubtrace := [.rom ⟨1, -1⟩]
    curLeaf := curLeaf
    nextLeafMembership :=
      generateProof (freeGadget (ZMod 3)) 1 (fun j => (relayLeaf j).toFieldElements) i
    challenges := [1, -1]
    root := treeRoot (freeGadget (ZMod 3)) 1 fun j => (relayLeaf j).toFieldElements }

/-- The relay's subcircuit with the variables and the assignment of its own run. -/
def relaySatisfied (curLeaf : ExecTreeLeaf (ZMod 3) .rom) (i : Nat)
    (ran : ((relayProver curLeaf i).synthesize (freeGadget (ZMod 3)) []).isOk = true)
    (sat : (result _ ran).2.Satisfied (assignmentOf (result _ ran).2.allocations)) :
    Satisfied (freeGadget (ZMod 3)) .rom :=
  .ofRun (relayProver curLeaf i) relayCircuit rfl (eq_ok_result ran) sat

def relayMember : Nat → Satisfied (freeGadget (ZMod 3)) .rom
  | 0 => relaySatisfied (.padding _ _) 0 (by decide +kernel) (by decide +kernel)
  | _ => relaySatisfied (relayLeaf 0) 1 (by decide +kernel) (by decide +kernel)

theorem relayMember_index : ∀ i < 2 ^ 1, (relayMember i).prover.subcircuitIdx = i := by
  decide +kernel

theorem relayMember_count : ∀ i < 2 ^ 1, (relayMember i).circ.numSubcircuits = 2 ^ 1 := by
  decide +kernel

theorem relayMember_pathLength : ∀ i < 2 ^ 1,
    (relayMember i).prover.nextLeafMembership.authPath.length = (2 ^ 1).log2 - 1 := by
  decide +kernel

theorem relayMember_challenges : ∀ i < 2 ^ 1,
    (relayMember i).challenges = (Challenges.rom 1 (-1)).toList := by
  decide +kernel

theorem relayMember_root : ∀ i < 2 ^ 1, (relayMember i).root =
    treeRoot (freeGadget (ZMod 3)) 1 fun j => (relayLeaf j).toFieldElements := by
  decide +kernel

def relayFamily : Family (freeGadget (ZMod 3)) .rom 1 (.rom 1 (-1))
    (treeRoot (freeGadget (ZMod 3)) 1 fun j => (relayLeaf j).toFieldElements) where
  member := relayMember
  index := relayMember_index
  count := relayMember_count
  pathLength := relayMember_pathLength
  challenges_eq := relayMember_challenges
  root_eq := relayMember_root

theorem relayFamily_requested : relayFamily.AsRequested relayLeaf := by
  constructor
  · intro i inside
    obtain rfl | rfl : i = 0 ∨ i = 1 := by omega
    · decide +kernel
    · decide +kernel
  · intro i inside later
    obtain rfl : i = 1 := by omega
    decide +kernel

theorem relayFamily_usesAll : ∀ i < 2 ^ 1, (relayFamily.member i).UsesAll := by
  intro i inside
  obtain rfl | rfl : i = 0 ∨ i = 1 := by omega
  · exact ⟨by decide +kernel, by decide +kernel⟩
  · exact ⟨by decide +kernel, by decide +kernel⟩

theorem relayFamily_agrees : (timeTrace relayFamily).length = 2 ∧
    ∀ e ∈ timeTrace relayFamily, ∀ e' ∈ timeTrace relayFamily,
      e.addr = e'.addr → e.value = e'.value := by
  refine ⟨by decide +kernel, ?_⟩
  have good : ((1 : ZMod 3), (-1 : ZMod 3)) ∉
      badChallenges (timeTrace relayFamily) (addrTrace relayFamily) Finset.univ := by
    decide +kernel
  have settled := (rom_agrees_or_collides (p := 3) (pathGadget_lawful _ _) Nat.one_pos
    (timeTrace relayFamily) (addrTrace relayFamily) (by decide +kernel) Finset.univ).2
    1 (Finset.mem_univ _) (-1) (Finset.mem_univ _) good relayFamily relayLeaf rfl
    relayFamily_requested relayFamily_usesAll rfl rfl
  rcases settled with collides | agrees
  · rcases not_injective_of_collides collides with leafCollides | nodeCollides
    · exact absurd (freeLeaf_injective _) leafCollides
    · exact absurd (freeNode_injective _).uncurry nodeCollides
  · exact agrees

end CollisionSoundness
