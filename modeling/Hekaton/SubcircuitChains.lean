import Hekaton.MemoryTraces
import Hekaton.PrimeFields
import Hekaton.SubcircuitCircuit
import Mathlib

/-!
# Chains of subcircuits and ROM soundness

A segment is one subcircuit's body run over its prover manager, with an assignment that
satisfies the rows of its portal calls. In a chain each segment's incoming leaf is the
outgoing leaf of the one before. No row asks whether the body used all its entries. If it
did, the checks of all calls make the concatenated address-ordered ROM trace a chain from
the padding entry on, across every boundary, so equal addresses lie together and have equal
values.
-/

namespace SubcircuitChains

open Outcomes Wires Synthesis Contracts Transcript PortalManager PortalChecks EvalTree
open MemoryTraces SubcircuitCircuit PrimeFields

/-- One subcircuit's portal calls over its entries of either trace. -/
structure Segment (F D : Type) [Field F] [DecidableEq F] [DecidableEq D] (m : MemType) where
  body : Program F D Unit
  vars : SubtraceVars F D m
  curLeaf : ExecTreeLeafVar F D m
  challenges : Challenges (Wire F D .field) m
  allocated : List (Variable F D)
  log : Logged F D (ProverPortalManager F D m)
  emission : Emission F D
  run : body.run (Logged.start (preparedManager vars curLeaf challenges)) allocated =
    .ok (((), log), emission)
  z : Assignment F D
  sat : ∀ row ∈ log.rows, row.Holds z

/-- A portal call as the program made it, with the entry the manager took for it. -/
structure PortalAccess (F : Type) (m : MemType) where
  name : String
  val : F
  read : Bool
  entry : Entry F F m

variable {F D : Type} [Field F] [DecidableEq F] [DecidableEq D] {m : MemType}

/-- The access of a call: a get returned the value, a set was passed it. -/
def accessOf (z : Assignment F D) : Call F D → Entry F F m → PortalAccess F m
  | .get name value, e => ⟨name, value.eval z, true, e⟩
  | .set name value, e => ⟨name, value.eval z, false, e⟩

@[simp] theorem accessOf_entry (z : Assignment F D) (call : Call F D) (e : Entry F F m) :
    (accessOf z call e).entry = e := by
  cases call <;> rfl

@[simp] theorem accessOf_val (z : Assignment F D) (call : Call F D) (e : Entry F F m) :
    (accessOf z call e).val = call.value.eval z := by
  cases call <;> rfl

namespace Segment

def times (s : Segment F D m) : List (Entry F F m) :=
  s.vars.time.map (TranscriptEntryVar.value s.z)

def addrs (s : Segment F D m) : List (Entry F F m) :=
  s.vars.addr.map (TranscriptEntryVar.value s.z)

def inputLeaf (s : Segment F D m) : AssignedLeaf F m := s.curLeaf.value s.z

/-- The evaluations after the body, with the last address-ordered entry so far. -/
def outputLeaf (s : Segment F D m) : AssignedLeaf F m :=
  ⟨s.log.manager.runningEvals.timeOrderedEval.eval s.z,
    s.log.manager.runningEvals.addrOrderedEval.eval s.z,
    (s.inputLeaf.lastEntry :: s.addrs).getLast (List.cons_ne_nil _ _)⟩

def accesses (s : Segment F D m) : List (PortalAccess F m) :=
  List.zipWith (accessOf s.z) s.log.calls s.times

/-- The body made a portal call for every address-ordered entry. -/
def AddrsUsed (s : Segment F D m) : Prop := s.addrs.length = s.log.calls.length

instance (s : Segment F D m) : Decidable s.AddrsUsed := inferInstanceAs (Decidable (_ = _))

theorem ran (s : Segment F D m) : Ran MayTick s.z s.challenges s.log.calls
    (preparedManager s.vars s.curLeaf s.challenges) s.log.manager := by
  obtain ⟨made, log, ran⟩ := run_ran s.body _ rfl s.run s.sat
  rw [Logged.start, List.nil_append] at log
  rw [log]
  exact ran

/-- Every position of the traces passed its checks. -/
theorem checked (s : Segment F D m) {k : Nat} (inside : k < s.log.calls.length) :
    Checked MayTick s.times (s.inputLeaf.lastEntry :: s.addrs) k := by
  have next := s.ran.advances.next
  have start : (preparedManager s.vars s.curLeaf s.challenges).nextEntryIdx = 0 := rfl
  exact s.ran.checked k (Nat.zero_le k) (by omega)

/-- A call takes a time-ordered entry. -/
theorem calls_le_times (s : Segment F D m) : s.log.calls.length ≤ s.times.length := by
  by_contra more
  have last : s.times.length < s.log.calls.length := by omega
  obtain ⟨t, found, _⟩ := s.ran.values s.times.length _ (List.getElem?_eq_getElem last)
  obtain ⟨inside, _⟩ := List.getElem?_eq_some_iff.mp found
  change 0 + s.times.length < s.times.length at inside
  omega

/-- The entries of the calls are the first time-ordered ones. -/
theorem accesses_entry (s : Segment F D m) :
    s.accesses.map PortalAccess.entry = s.times.take s.log.calls.length := by
  have enough := s.calls_le_times
  refine List.ext_getElem ?_ fun j hj hj' => ?_
  · rw [List.length_map, accesses, List.length_zipWith, List.length_take]
  · simp only [accesses, List.getElem_map, List.getElem_zipWith, accessOf_entry,
      List.getElem_take]

/-- Every call returned, or was passed, the value of its time-ordered entry. -/
theorem accesses_val (s : Segment F D m) : ∀ a ∈ s.accesses, a.val = a.entry.value := by
  intro a ha
  obtain ⟨j, hj, rfl⟩ := List.getElem_of_mem ha
  have inside : j < s.log.calls.length := by
    rw [accesses, List.length_zipWith] at hj
    omega
  obtain ⟨t, ht, value⟩ := s.ran.values j _ (List.getElem?_eq_getElem inside)
  have found : s.times[j]? = some t := by
    rwa [show (preparedManager s.vars s.curLeaf s.challenges).nextEntryIdx + j = j from
      Nat.zero_add j] at ht
  obtain ⟨_, rfl⟩ := List.getElem?_eq_some_iff.mp found
  simp only [accesses, List.getElem_zipWith, accessOf_val, accessOf_entry]
  exact value

/-- A ROM segment's trace is a chain from the entry handed to it. -/
theorem rom_isChain (s : Segment F D .rom) (used : s.AddrsUsed) :
    (s.inputLeaf.lastEntry :: s.addrs).IsChain Follows := by
  refine List.isChain_iff_getElem.mpr fun k hk => ?_
  rw [List.length_cons, used] at hk
  exact (s.checked (Nat.lt_of_succ_lt_succ hk)).follows _ _
    (List.getElem?_eq_getElem _) (List.getElem?_eq_getElem _)

/-- A RAM segment's own trace is a chain; the entry handed to it is not compared. -/
theorem ram_isChain (s : Segment F D .ram) (used : s.AddrsUsed) : s.addrs.IsChain Follows := by
  refine List.isChain_iff_getElem.mpr fun k hk => ?_
  have inside : k < s.log.calls.length := by
    rw [← used]
    exact Nat.lt_of_succ_lt hk
  refine (s.checked inside).follows s.addrs[k] s.addrs[k + 1] ?_ ?_
  · exact List.getElem?_eq_getElem (l := s.addrs) (Nat.lt_of_succ_lt hk)
  · exact List.getElem?_eq_getElem (l := s.addrs) hk

end Segment

/-- Numbers with the sum of their lower bounds are these bounds. -/
theorem eq_of_sum_eq {σ : Type*} {f g : σ → Nat} {l : List σ} (bound : ∀ s ∈ l, g s ≤ f s)
    (total : (l.map f).sum = (l.map g).sum) : ∀ s ∈ l, f s = g s := by
  induction l with
  | nil => exact fun s hs => nomatch hs
  | cons s l ih =>
    have here := bound s List.mem_cons_self
    have rest : ∀ t ∈ l, g t ≤ f t := fun t ht => bound t (List.mem_cons_of_mem s ht)
    have later : (l.map g).sum ≤ (l.map f).sum := List.sum_le_sum rest
    rw [List.map_cons, List.map_cons, List.sum_cons, List.sum_cons] at total
    intro t ht
    rcases List.mem_cons.mp ht with rfl | ht
    · omega
    · exact ih rest (by omega) t ht

omit [DecidableEq F] in
/-- In a chain too short to come back round to an address, an address has one value. -/
theorem values_agree {p : Nat} [CharP F p] {start : Entry F F .rom} {l : List (Entry F F .rom)}
    (trace : (start :: l).IsChain Follows) (small : l.length < p) :
    ∀ e ∈ l, ∀ e' ∈ l, e.addr = e'.addr → e.value = e'.value := by
  have transitive : IsTrans (Entry F F .rom) fun e next => e.value = next.value :=
    ⟨fun _ _ _ h h' => h.trans h'⟩
  have pairs := pairwise_of_chain (S := fun e next : Entry F F .rom => e.value = next.value)
    (Nat.succ_le_of_lt small) (trace.imp fun e next h => ⟨h.step, h.value_eq⟩)
  have symmetric : Std.Symm fun e next : Entry F F .rom =>
      e.addr = next.addr → e.value = next.value :=
    ⟨fun _ _ h same => (h same.symm).symm⟩
  have later := (List.pairwise_cons.mp pairs).2
  exact fun e he e' he' => later.forall_of_forall (fun e _ _ => rfl) he he'

/-- Segments that hand their leaves on, from a leaf that passes the checks of index 0. -/
structure SubcircuitChain (F D : Type) [Field F] [DecidableEq F] [DecidableEq D]
    (m : MemType) where
  segments : List (Segment F D m)
  first : ∀ s ∈ segments.head?, s.inputLeaf.timeEval = 1 ∧ s.inputLeaf.addrEval = 1 ∧
    checkedAsPadding s.inputLeaf.lastEntry = true
  handedOn : segments.IsChain fun s next => next.inputLeaf = s.outputLeaf

namespace SubcircuitChain

def timeTrace (chain : SubcircuitChain F D m) : List (Entry F F m) :=
  chain.segments.flatMap Segment.times

def addrTrace (chain : SubcircuitChain F D m) : List (Entry F F m) :=
  chain.segments.flatMap Segment.addrs

def accesses (chain : SubcircuitChain F D m) : List (PortalAccess F m) :=
  chain.segments.flatMap Segment.accesses

theorem linked (chain : SubcircuitChain F D m) :
    Linked (fun s : Segment F D m => s.inputLeaf.lastEntry) Segment.addrs chain.segments :=
  chain.handedOn.imp fun _ _ handed => congrArg AssignedLeaf.lastEntry handed

/-- Every body made a portal call for every address-ordered entry of its segment. -/
def AddrsUsed (chain : SubcircuitChain F D m) : Prop := ∀ s ∈ chain.segments, s.AddrsUsed

instance (chain : SubcircuitChain F D m) : Decidable chain.AddrsUsed :=
  inferInstanceAs (Decidable (∀ s ∈ _, _))

/-- The entries of the calls are entries of the time-ordered trace. -/
theorem accesses_entry_mem (chain : SubcircuitChain F D m) :
    ∀ a ∈ chain.accesses, a.entry ∈ chain.timeTrace := by
  intro a ha
  obtain ⟨s, hs, ha⟩ := List.mem_flatMap.mp ha
  have member : a.entry ∈ s.times.take s.log.calls.length := by
    rw [← s.accesses_entry]
    exact List.mem_map_of_mem ha
  exact List.mem_flatMap.mpr ⟨s, hs, List.mem_of_mem_take member⟩

/-- With the same entries in both traces, no time-ordered entry is left over either. -/
theorem times_used (chain : SubcircuitChain F D m) (used : chain.AddrsUsed)
    (perm : chain.addrTrace.Perm chain.timeTrace) :
    ∀ s ∈ chain.segments, s.times.length = s.log.calls.length := by
  have total : (chain.segments.map fun s => s.times.length).sum =
      (chain.segments.map fun s => s.log.calls.length).sum := by
    have lengths := perm.length_eq
    rw [addrTrace, timeTrace, List.length_flatMap, List.length_flatMap] at lengths
    rw [← lengths]
    exact congrArg List.sum (List.map_congr_left used)
  exact eq_of_sum_eq (fun s _ => s.calls_le_times) total

theorem accesses_entry (chain : SubcircuitChain F D m) (used : chain.AddrsUsed)
    (perm : chain.addrTrace.Perm chain.timeTrace) :
    chain.accesses.map PortalAccess.entry = chain.timeTrace := by
  rw [accesses, timeTrace, List.map_flatMap]
  refine List.flatMap_congr fun s hs => ?_
  rw [s.accesses_entry, ← chain.times_used used perm s hs, List.take_length]

theorem accesses_val (chain : SubcircuitChain F D m) :
    ∀ a ∈ chain.accesses, a.val = a.entry.value := by
  intro a ha
  obtain ⟨s, _, ha⟩ := List.mem_flatMap.mp ha
  exact s.accesses_val a ha

/-- The whole ROM trace is a chain from an entry at address 0. -/
theorem rom_isChain (chain : SubcircuitChain F D .rom) (used : chain.AddrsUsed) :
    chain.addrTrace = [] ∨
      ∃ e : Entry F F .rom, e.addr = 0 ∧ (e :: chain.addrTrace).IsChain Follows := by
  cases hsegments : chain.segments with
  | nil =>
    rw [addrTrace, hsegments]
    exact Or.inl rfl
  | cons s l =>
    have atHead : s ∈ chain.segments.head? := by rw [hsegments]; rfl
    obtain ⟨_, _, padding⟩ := chain.first s atHead
    refine Or.inr ⟨s.inputLeaf.lastEntry, ?_, ?_⟩
    · cases hentry : s.inputLeaf.lastEntry with
      | rom e =>
        rw [hentry] at padding
        exact of_decide_eq_true padding
    · exact isChain_of_linked chain.linked (fun t ht => t.rom_isChain (used t ht)) s atHead

/-- Entries at one address have one value, wherever they lie in the trace. -/
theorem rom_value_unique {p : Nat} [CharP F p] (chain : SubcircuitChain F D .rom)
    (used : chain.AddrsUsed) (small : chain.addrTrace.length < p) :
    ∀ e ∈ chain.addrTrace, ∀ e' ∈ chain.addrTrace, e.addr = e'.addr → e.value = e'.value := by
  rcases chain.rom_isChain used with empty | ⟨start, _, trace⟩
  · rw [empty]
    exact fun e he => absurd he List.not_mem_nil
  · exact values_agree trace small

/-- Any two calls whose entries have one address have one value. -/
theorem rom_accesses_agree {p : Nat} [CharP F p] (chain : SubcircuitChain F D .rom)
    (used : chain.AddrsUsed) (small : chain.addrTrace.length < p)
    (perm : chain.addrTrace.Perm chain.timeTrace) :
    ∀ a ∈ chain.accesses, ∀ a' ∈ chain.accesses,
      a.entry.addr = a'.entry.addr → a.val = a'.val := by
  have inTrace : ∀ b ∈ chain.accesses, b.entry ∈ chain.addrTrace := fun b hb =>
    perm.mem_iff.mpr (chain.accesses_entry_mem b hb)
  intro a ha a' ha' same
  rw [chain.accesses_val a ha, chain.accesses_val a' ha']
  exact chain.rom_value_unique used small _ (inTrace a ha) _ (inTrace a' ha') same

/-- ROM soundness of bodies that use their entries: the address-ordered trace steps by
nought or one from the padding entry, groups equal addresses with equal values, and so do
any two portal calls. -/
theorem rom_sound {p : Nat} [CharP F p] (chain : SubcircuitChain F D .rom)
    (used : chain.AddrsUsed) (small : chain.addrTrace.length < p) :
    (∀ e ∈ chain.addrTrace.head?, e.addr = 0 ∨ e.addr = 1) ∧
    (chain.addrTrace.IsChain fun e next => next.addr = e.addr ∨ next.addr = e.addr + 1) ∧
    (∀ e ∈ chain.addrTrace, ∀ e' ∈ chain.addrTrace, e.addr = e'.addr → e.value = e'.value) ∧
    (chain.addrTrace.Perm chain.timeTrace → ∀ a ∈ chain.accesses, ∀ a' ∈ chain.accesses,
      a.entry.addr = a'.entry.addr → a.val = a'.val) := by
  refine ⟨?_, ?_, chain.rom_value_unique used small, chain.rom_accesses_agree used small⟩
  · rcases chain.rom_isChain used with empty | ⟨start, zero, trace⟩
    · rw [empty]
      exact fun e he => nomatch he
    · intro e he
      have step := ((List.isChain_cons.mp trace).1 e he).step
      rwa [zero, zero_add] at step
  · rcases chain.rom_isChain used with empty | ⟨start, _, trace⟩
    · rw [empty]
      exact .nil
    · exact (List.isChain_cons.mp trace).2.imp fun e next h => h.step

end SubcircuitChain

/-- The variables of a subcircuit before its body runs. -/
structure OpeningVars (F D : Type) (m : MemType) where
  subtraces : SubtraceVars F D m
  curLeaf : ExecTreeLeafVar F D m
  challenges : Challenges (Wire F D .field) m

def allocate (time addr : List (TranscriptEntry F m)) (leaf : ExecTreeLeaf F m)
    (challenges : Challenges F m) : Synth F D (OpeningVars F D m) := do
  let time ← newEntries .witness time
  let addr ← newEntries .witness addr
  let curLeaf ← ExecTreeLeafVar.newVariable .witness leaf
  let challenges ← newList .input .field challenges.toList
  let challenges ← Synth.lift (Challenges.ofList m challenges)
  pure ⟨⟨time, addr⟩, curLeaf, challenges⟩

namespace Segment
variable [Inhabited D]

def runFrom (body : Program F D Unit) (opening : OpeningVars F D m × Emission F D) :
    Outcome ((Unit × Logged F D (ProverPortalManager F D m)) × Emission F D) :=
  let vars := opening.1
  body.run (Logged.start (preparedManager vars.subtraces vars.curLeaf vars.challenges))
    opening.2.allocations

/-- The allocated values satisfy the rows of the calls. -/
def Honest (opening : OpeningVars F D m × Emission F D)
    (ran : (Unit × Logged F D (ProverPortalManager F D m)) × Emission F D) : Prop :=
  ∀ row ∈ ran.1.2.rows, row.Holds (assignmentOf (opening.2.allocations ++ ran.2.allocations))

instance (opening : OpeningVars F D m × Emission F D)
    (ran : (Unit × Logged F D (ProverPortalManager F D m)) × Emission F D) :
    Decidable (Honest opening ran) :=
  inferInstanceAs (Decidable (∀ row ∈ _, _))

def ofRun (body : Program F D Unit) (time addr : List (TranscriptEntry F m))
    (leaf : ExecTreeLeaf F m) (challenges : Challenges F m)
    (allocated : (allocate (D := D) time addr leaf challenges []).isOk = true)
    (ran : (runFrom body (result _ allocated)).isOk = true)
    (honest : Honest (result _ allocated) (result _ ran)) : Segment F D m :=
  ⟨body, _, _, _, _, _, _, eq_ok_result ran, _, honest⟩

end Segment

/-- Set a wire in one subcircuit and read it in the next. -/
def relaySegments : List (Segment (ZMod 3) (FreeDigest (ZMod 3)) .rom) :=
  [.ofRun (Program.portalSet "a" (.constant (-1))) [.rom ⟨1, -1⟩] [.rom ⟨1, -1⟩]
      (.padding _ _) (.rom 1 (-1)) (by decide +kernel) (by decide +kernel) (by decide +kernel),
    .ofRun (do let _ ← Program.portalGet "a") [.rom ⟨1, -1⟩] [.rom ⟨1, -1⟩]
      ⟨⟨-1, -1, none⟩, .rom ⟨1, -1⟩⟩ (.rom 1 (-1)) (by decide +kernel) (by decide +kernel)
      (by decide +kernel)]

def relayChain : SubcircuitChain (ZMod 3) (FreeDigest (ZMod 3)) .rom where
  segments := relaySegments
  first s hs := by
    cases hs
    decide +kernel
  handedOn := by
    refine .cons_cons ?_ (.singleton _)
    decide +kernel

theorem relayChain_used : relayChain.AddrsUsed := by decide +kernel

theorem relayChain_sound : relayChain.addrTrace.length < 3 ∧
    relayChain.addrTrace.Perm relayChain.timeTrace ∧
    ∀ a ∈ relayChain.accesses, ∀ a' ∈ relayChain.accesses,
      a.entry.addr = a'.entry.addr → a.val = a'.val := by
  have small : relayChain.addrTrace.length < 3 := by decide +kernel
  have perm : relayChain.addrTrace.Perm relayChain.timeTrace := by decide +kernel
  exact ⟨small, perm, (relayChain.rom_sound relayChain_used small).2.2.2 perm⟩

/-- Two gets over four entries: both calls check padding entries, and take others. -/
def surplusSegment : Segment Bls12381Fr (FreeDigest Bls12381Fr) .rom :=
  .ofRun (do let _ ← Program.portalGet "a"; let _ ← Program.portalGet "a")
    [.rom ⟨1, 0⟩, .rom ⟨1, 1⟩, .rom ⟨0, 0⟩, .rom ⟨0, 0⟩]
    [.rom ⟨0, 0⟩, .rom ⟨0, 0⟩, .rom ⟨1, 0⟩, .rom ⟨1, 1⟩]
    (.padding _ _) (.rom 1 (-1)) (by decide +kernel) (by decide +kernel) (by decide +kernel)

def surplusChain : SubcircuitChain Bls12381Fr (FreeDigest Bls12381Fr) .rom where
  segments := [surplusSegment]
  first s hs := by
    cases hs
    decide +kernel
  handedOn := .singleton _

/-- Every row of the calls holds, and the two gets at address 1 return 0 and 1. -/
theorem surplusChain_disagrees : surplusChain.addrTrace.length < PrimeField.modulus Bls12381Fr ∧
    surplusChain.addrTrace.Perm surplusChain.timeTrace ∧
    ¬ ∀ a ∈ surplusChain.accesses, ∀ a' ∈ surplusChain.accesses,
      a.entry.addr = a'.entry.addr → a.val = a'.val := by
  exact ⟨by decide +kernel, by decide +kernel, by decide +kernel⟩

end SubcircuitChains
