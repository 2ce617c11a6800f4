import Hekaton.VkdAgreement
import Hekaton.VkdNames

/-!
# Stores of the key directory's wires

A store maps the addresses of nodes to digests and the pieces of users' indices to numbers.
Every primitive reads and writes it, and fails where it reads what was not written or writes
twice. The native trace goes through exactly where the primitives do on a store, and its
memories and wires then hold what the store holds.
-/

namespace VkdWires

open Outcomes HonestRuns FieldGadgets VkdGadgets MirroredRuns PortalManager PrimeFields VkdHash SparseTree VkdCircuits
open KeyDirectory VkdSubcircuits VkdNames VkdTraces VkdAgreement MerkleTrees Function Transcript

structure Store where
  node : NodeAddress → Option InnerHash
  piece : UInt64 × List UInt8 → Option Nat

namespace Store

def empty : Store := ⟨fun _ => none, fun _ => none⟩

/-- An address is written once. -/
def setNode (s : Store) (a : NodeAddress) (digest : InnerHash) : Option Store :=
  if (s.node a).isSome then none else some { s with node := update s.node a (some digest) }

def setPiece (s : Store) (key : UInt64 × List UInt8) (n : Nat) : Option Store :=
  if (s.piece key).isSome then none else some { s with piece := update s.piece key (some n) }

def compare (s : Store) (a b : NodeAddress) : Option Store := do
  let _ ← s.node a
  let _ ← s.node b
  some s

section Steps
variable {F : Type} [Field F] [PrimeField F] (p : Poseidon F)

def setPieces (s : Store) (leaf : Leaf) : Option Store :=
  (List.range splitFactor).foldlM
    (fun s i => s.setPiece (UInt64.ofNat i, userOf leaf) (indexPiece p leaf i)) s

/-- Climb one piece of a path, along one piece of an index. -/
def climbPiece (s : Store) (start target : NodeAddress) (index : IndexAddress)
    (path : MerkleTreePath) : Option Store := do
  let n ← s.piece (index.indicator, userOf index.leaf)
  let digest ← s.node start
  if path.path.length ≤ 32 then
    s.setNode target (climb (hashInnerNode p) (levelsOf n path.path) digest)
  else none

def writePublicParameter (s : Store) (c : VerifiableKeyDirectoryCircuit) : Option Store := do
  let s ← s.setNode .initialRoot c.initialRoot
  let s ← s.setNode .finalRoot c.finalRoot
  s.setNode .nullLeaf c.params.nullLeaf

/-- What a primitive does to a store. -/
def step (c : VerifiableKeyDirectoryCircuit) (s : Store) : PrimitiveSubcircuit → Option Store
  | .writePublicParameterPrimitive => s.writePublicParameter c
  | .equalityPrimitive eq => do
      let addr1 ← (NodeAddressBytes.bytesToNodeAddress eq.addr1).toOption
      let addr2 ← (NodeAddressBytes.bytesToNodeAddress eq.addr2).toOption
      s.compare addr1 addr2
  | .getIndexPrimitive ind => s.setPieces p ind.leaf
  | .computePathPrimitive path => do
      let start ← (NodeAddressBytes.bytesToNodeAddress path.initialValueAddr).toOption
      let target ← (NodeAddressBytes.bytesToNodeAddress path.finalValueAddr).toOption
      s.climbPiece p start target path.indexAddr path.path
  | .hashLeafPrimitive h => s.setNode (.leafHash ⟨h.leaf⟩) (hashLeaf p h.leaf.toList)
  | .paddingPrimitive => some s

/-- The primitives of all subcircuits, one after the other. -/
def run (c : VerifiableKeyDirectoryCircuit) (s : Store) (subcircuits : List SubCircuit) :
    Option Store := (subcircuits.flatMap SubCircuit.compoundPrimitiveVec).foldlM (step p c) s

end Steps
end Store

/-- An outcome is a result exactly where an option is, with related values. -/
structure Matches {α β : Type} (o : Outcome α) (r : Option β) (R : α → β → Prop) : Prop where
  runs : ∀ b, r = some b → ∃ a, o = .ok a ∧ R a b
  fails : r = none → ∀ a, o ≠ .ok a

namespace Matches
variable {α β γ δ : Type} {o : Outcome α} {r : Option β} {R : α → β → Prop}
variable {f : α → Outcome γ} {g : β → Option δ} {S : γ → δ → Prop}

theorem bind (first : Matches o r R) (rest : ∀ a b, R a b → Matches (f a) (g b) S) :
    Matches (o >>= f) (r >>= g) S := by
  cases r with
  | none =>
    refine ⟨fun _ some => (nomatch some), fun _ c run => ?_⟩
    obtain ⟨a, early, _⟩ := bind_eq_ok.mp run
    exact first.fails rfl a early
  | some b =>
    obtain ⟨a, rfl, related⟩ := first.runs b rfl
    exact rest a b related

theorem done {a : α} {b : β} (related : R a b) : Matches (.ok a) (some b) R :=
  ⟨fun _ same => ⟨a, rfl, Option.some.inj same ▸ related⟩, fun none => nomatch none⟩

theorem fail (never : ∀ a, o ≠ .ok a) : Matches o (none : Option β) R :=
  ⟨fun _ some => (nomatch some), fun _ => never⟩

/-- A call whose result the option keeps. -/
theorem call (o : Outcome α) {g : α → Option δ} (rest : ∀ a, Matches (f a) (g a) S) :
    Matches (o >>= f) (o.toOption >>= g) S := by
  cases o with
  | error fault => exact fail fun _ run => nomatch run
  | ok a => exact rest a

theorem expect {message : String} {found : Option α} {g : β → Option δ} (related : ∀ a,
    found = some a → ∃ b, r = some b ∧ Matches (f a) (g b) S) (missing : found = none → r = none) :
    Matches (Outcomes.expect message found >>= f) (r >>= g) S := by
  cases found with
  | none =>
    rw [missing rfl]
    exact fail fun _ run => nomatch run
  | some a =>
    obtain ⟨b, rfl, rest⟩ := related a rfl
    exact rest

theorem foldlM {ι : Type} {f : α → ι → Outcome α} {g : β → ι → Option β} {l : List ι}
    (each : ∀ i ∈ l, ∀ a b, R a b → Matches (f a i) (g b i) R) {a : α} {b : β} (start : R a b) :
    Matches (l.foldlM f a) (l.foldlM g b) R := by
  induction l generalizing a b with
  | nil => exact done start
  | cons i l ih =>
    rw [List.foldlM_cons, List.foldlM_cons]
    apply (each i List.mem_cons_self a b start).bind
    intro a' b' related
    exact ih (fun j member => each j (List.mem_cons_of_mem i member)) related

end Matches

section Simulation
variable {F : Type} [Field F] [PrimeField F]
variable {p : Poseidon F} {c : VerifiableKeyDirectoryCircuit} {state : NativeState F} {s : Store}

/-- The memories and the wires hold what the store holds. -/
structure Reads (state : NativeState F) (s : Store) : Prop where
  started : state.pm.subtraces ≠ []
  agrees : Agrees state
  nodes : ∀ a : NodeAddress, state.innerNodeMemory a.toName = s.node a
  pieces : ∀ x : IndexAddress, state.indexMemory x.toName =
    (s.piece (x.indicator, userOf x.leaf)).map (evenBits 32)
  freeNode : ∀ a, s.node a = none → valueOf state.pm a.toName = none
  freePiece : ∀ x : IndexAddress, s.piece (x.indicator, userOf x.leaf) = none →
    valueOf state.pm x.toName = none

omit [PrimeField F] in
/-- Only what the wires hold matters of a manager. -/
theorem Reads.withPm (reads : Reads state s) {pm : SetupRomPortalManager F}
    (started : pm.subtraces ≠ []) (same : ∀ name, valueOf pm name = valueOf state.pm name) :
    Reads { state with pm := pm } s where
  started := started
  agrees := reads.agrees.extend fun name _ known => (same name).trans known
  nodes := reads.nodes
  pieces := reads.pieces
  freeNode a free := (same _).trans (reads.freeNode a free)
  freePiece x free := (same _).trans (reads.freePiece x free)

omit [Field F] [PrimeField F] in
theorem valueOf_of_get {pm pm' : SetupRomPortalManager F} {name : String} {value : F}
    (got : SetupManager.getValue pm name = .ok (value, pm')) (other : String) :
    valueOf pm' other = valueOf pm other := by
  rw [valueOf, valueOf, (getValue_eq_ok got).2]

omit [PrimeField F] in
theorem startSubtrace_reads (reads : Reads state s) :
    Reads { state with pm := state.pm.startSubtrace } s :=
  reads.withPm (by simp [SetupRomPortalManager.startSubtrace]) fun _ => rfl

omit [PrimeField F] in
theorem nodeEffect_matches (reads : Reads state s) (a : NodeAddress) (digest : InnerHash) :
    Matches (nodeEffect state a.toName digest) (s.setNode a digest) Reads := by
  rw [Store.setNode]
  by_cases known : (s.node a).isSome = true
  · rw [if_pos known]
    apply Matches.fail
    intro state' ran
    obtain ⟨pm, set, _⟩ := bind_eq_ok.mp ran
    obtain ⟨digest', found⟩ := Option.isSome_iff_exists.mp known
    have value := reads.agrees.nodes _ _ ((reads.nodes a).trans found)
    rw [valueOf_eq_none.mpr (setValue_eq_ok set).1] at value
    cases value
  · rw [if_neg known]
    have free := reads.freeNode a (Option.not_isSome_iff_eq_none.mp known)
    obtain ⟨pm, set, started⟩ := setValue_ok reads.started free (innerHashToField (F := F) digest)
    have ran : nodeEffect state a.toName digest = .ok { state with
        innerNodeMemory := update state.innerNodeMemory a.toName (some digest), pm := pm } := by
      rw [nodeEffect, set, ok_bind]
    have values := valueOf_set set
    rw [ran]
    refine .done ⟨started, (nodeEffect_eq_ok ran reads.agrees).2.1, ?_, reads.pieces, ?_, ?_⟩
    · intro b
      by_cases same : b = a
      · subst same
        change update state.innerNodeMemory b.toName (some digest) b.toName =
          update s.node b (some digest) b
        rw [update_self, update_self]
      · have names : b.toName ≠ a.toName := fun equal => same (node_toName_injective equal)
        exact (update_of_ne names ..).trans ((reads.nodes b).trans (update_of_ne same ..).symm)
    · intro b unwritten
      by_cases same : b = a
      · subst same
        change update s.node b (some digest) b = none at unwritten
        rw [update_self] at unwritten
        cases unwritten
      · have names : b.toName ≠ a.toName := fun equal => same (node_toName_injective equal)
        rw [values, if_neg names]
        exact reads.freeNode b ((update_of_ne same ..).symm.trans unwritten)
    · intro x unwritten
      rw [values, if_neg (node_ne_index a x).symm]
      exact reads.freePiece x unwritten

theorem indexEffect_matches (reads : Reads state s) (leaf : Leaf) (i : Nat) :
    Matches (indexEffect p leaf state i)
      (s.setPiece (UInt64.ofNat i, userOf leaf) (indexPiece p leaf i)) Reads := by
  obtain ⟨x, address⟩ : ∃ x : IndexAddress, x = ⟨UInt64.ofNat i, leaf⟩ := ⟨_, rfl⟩
  have key : (UInt64.ofNat i, userOf leaf) = (x.indicator, userOf x.leaf) := by rw [address]
  rw [Store.setPiece, key]
  by_cases known : (s.piece (x.indicator, userOf x.leaf)).isSome = true
  · rw [if_pos known]
    apply Matches.fail
    intro state' ran
    obtain ⟨pm, set, _⟩ := bind_eq_ok.mp ran
    obtain ⟨n, found⟩ := Option.isSome_iff_exists.mp known
    have held := reads.pieces x
    rw [found] at held
    obtain ⟨_, _, _, value⟩ := reads.agrees.indices _ _ held
    rw [← address] at set
    rw [valueOf_eq_none.mpr (setValue_eq_ok set).1] at value
    cases value
  · rw [if_neg known]
    have free := reads.freePiece x (Option.not_isSome_iff_eq_none.mp known)
    obtain ⟨pm, set, started⟩ := setValue_ok reads.started free (indexPiece p leaf i : F)
    have ran : indexEffect p leaf state i = .ok { state with
        indexMemory := update state.indexMemory x.toName (some (evenBits 32 (indexPiece p leaf i)))
        pm := pm } := by
      rw [indexEffect, ← address, set, ok_bind]
    have values := valueOf_set set
    rw [ran]
    refine .done ⟨started, (indexEffect_eq_ok ran reads.agrees).2.1, reads.nodes, ?_, ?_, ?_⟩
    · intro y
      by_cases same : y.toName = x.toName
      · obtain ⟨indicator, user⟩ := index_toName_inj.mp same
        change update state.indexMemory x.toName _ y.toName =
          (update s.piece (x.indicator, userOf x.leaf) _ (y.indicator, userOf y.leaf)).map _
        rw [same, indicator, user, update_self, update_self]
        rfl
      · have keys : (y.indicator, userOf y.leaf) ≠ (x.indicator, userOf x.leaf) := by
          intro equal
          exact same (index_toName_inj.mpr (Prod.mk.inj equal))
        exact (update_of_ne same ..).trans
          ((reads.pieces y).trans (congrArg _ (update_of_ne keys ..).symm))
    · intro a unwritten
      rw [values, if_neg (node_ne_index a x)]
      exact reads.freeNode a unwritten
    · intro y unwritten
      by_cases same : y.toName = x.toName
      · obtain ⟨indicator, user⟩ := index_toName_inj.mp same
        change update s.piece (x.indicator, userOf x.leaf) _ (y.indicator, userOf y.leaf) = _
          at unwritten
        rw [indicator, user, update_self] at unwritten
        cases unwritten
      · have keys : (y.indicator, userOf y.leaf) ≠ (x.indicator, userOf x.leaf) := by
          intro equal
          exact same (index_toName_inj.mpr (Prod.mk.inj equal))
        rw [values, if_neg same]
        exact reads.freePiece y ((update_of_ne keys ..).symm.trans unwritten)

omit [PrimeField F] in
/-- A known node can be read. -/
theorem getNode (reads : Reads state s) {a : NodeAddress} {digest : InnerHash}
    (known : s.node a = some digest) : ∃ pm, SetupManager.getValue state.pm a.toName =
      .ok ((innerHashToField digest : F), pm) ∧ Reads { state with pm := pm } s := by
  have value := reads.agrees.nodes _ _ ((reads.nodes a).trans known)
  obtain ⟨pm, got, started⟩ := getValue_ok reads.started value
  exact ⟨pm, got, reads.withPm started (valueOf_of_get got)⟩

omit [PrimeField F] in
/-- A node that is not known cannot be read. -/
theorem getNode_fails (reads : Reads state s) {a : NodeAddress} (unknown : s.node a = none)
    (r : F × SetupRomPortalManager F) : SetupManager.getValue state.pm a.toName ≠ .ok r := by
  intro got
  obtain ⟨value, pm⟩ := r
  have value := (getValue_eq_ok got).1
  rw [reads.freeNode a unknown] at value
  cases value

omit [PrimeField F] in
theorem equalityEffect_matches (reads : Reads state s) (eq : EqualityPrimitive) :
    Matches (equalityEffect state eq) (do
      let addr1 ← (NodeAddressBytes.bytesToNodeAddress eq.addr1).toOption
      let addr2 ← (NodeAddressBytes.bytesToNodeAddress eq.addr2).toOption
      s.compare addr1 addr2) Reads := by
  apply Matches.call
  intro addr1
  apply Matches.call
  intro addr2
  rw [Store.compare]
  have get : ∀ {state : NativeState F}, Reads state s → ∀ a : NodeAddress,
      Matches (SetupManager.getValue (F := F) state.pm a.toName) (s.node a)
        fun r _ => Reads { state with pm := r.2 } s := by
    intro state reads a
    cases known : s.node a with
    | none => exact .fail (getNode_fails reads known)
    | some digest =>
      obtain ⟨pm, got, reads'⟩ := getNode reads known
      rw [got]
      exact .done reads'
  apply (get reads addr1).bind
  intro r _ reads'
  apply (get reads' addr2).bind
  intro r' _ reads''
  exact .done reads''

theorem pathEffect_matches (reads : Reads state s) (path : ComputePathPrimitive) :
    Matches (pathEffect p state path) (do
      let start ← (NodeAddressBytes.bytesToNodeAddress path.initialValueAddr).toOption
      let target ← (NodeAddressBytes.bytesToNodeAddress path.finalValueAddr).toOption
      s.climbPiece p start target path.indexAddr path.path) Reads := by
  apply Matches.call
  intro start
  cases target : NodeAddressBytes.bytesToNodeAddress path.finalValueAddr with
  | error fault =>
    apply Matches.fail
    intro state' ran
    obtain ⟨_, _, rest⟩ := bind_eq_ok.mp ran
    obtain ⟨_, _, rest⟩ := bind_eq_ok.mp rest
    obtain ⟨_, _, rest⟩ := bind_eq_ok.mp rest
    obtain ⟨_, _, rest⟩ := bind_eq_ok.mp rest
    obtain ⟨_, _, rest⟩ := bind_eq_ok.mp rest
    obtain ⟨_, read, _⟩ := bind_eq_ok.mp rest
    cases read
  | ok target' =>
  change Matches _ (s.climbPiece p start target' path.indexAddr path.path) _
  rw [Store.climbPiece]
  apply Matches.expect
  · intro bits found
    obtain ⟨n, known, rfl⟩ := Option.map_eq_some_iff.mp ((reads.pieces path.indexAddr).symm.trans found)
    refine ⟨n, known, ?_⟩
    apply Matches.expect
    · intro digest held
      have knownNode := (reads.nodes start).symm.trans held
      refine ⟨digest, knownNode, ?_⟩
      obtain ⟨pm₁, got₁, reads₁⟩ := getNode reads knownNode
      obtain ⟨n', small, same, value⟩ := reads₁.agrees.indices _ _ found
      obtain ⟨pm₂, got₂, started⟩ := getValue_ok reads₁.started value
      have reads₂ := reads₁.withPm started (valueOf_of_get got₂)
      change Matches (SetupManager.getValue (F := F) state.pm start.toName >>= _) _ _
      rw [got₁, ok_bind]
      change Matches (SetupManager.getValue (F := F) pm₁ path.indexAddr.toName >>= _) _ _
      rw [got₂, ok_bind, ← toBitVector_eq, computeRoot_eq (nodeDigest_internal digest)]
      by_cases short : path.path.path.length ≤ 32
      · rw [if_pos short, if_pos short, ok_bind, ok_bind]
        exact nodeEffect_matches reads₂ target' _
      · rw [if_neg short, if_neg short]
        exact Matches.fail fun _ run => nomatch run
    · intro missing
      rw [← reads.nodes start, missing]
  · intro missing
    have none := (reads.pieces path.indexAddr).symm.trans missing
    rw [Option.map_eq_none_iff.mp none]

theorem primitiveEffect_matches (reads : Reads state s) (primitive : PrimitiveSubcircuit) :
    Matches (primitiveEffect p c state primitive) (s.step p c primitive) Reads := by
  cases primitive with
  | writePublicParameterPrimitive =>
    apply (nodeEffect_matches reads .initialRoot c.initialRoot).bind
    intro state₁ s₁ reads₁
    apply (nodeEffect_matches reads₁ .finalRoot c.finalRoot).bind
    intro state₂ s₂ reads₂
    exact nodeEffect_matches reads₂ .nullLeaf c.params.nullLeaf
  | equalityPrimitive eq => exact equalityEffect_matches reads eq
  | getIndexPrimitive ind =>
    change Matches ((List.range splitFactor).foldlM (indexEffect p ind.leaf) state)
      (s.setPieces p ind.leaf) _
    apply Matches.foldlM _ reads
    exact fun i _ _ _ reads => indexEffect_matches reads ind.leaf i
  | computePathPrimitive path => exact pathEffect_matches reads path
  | hashLeafPrimitive h => exact nodeEffect_matches reads (.leafHash ⟨h.leaf⟩) _
  | paddingPrimitive => exact .done reads

/-- Between two subcircuits: what the store holds, the next subtrace will read. -/
def Rests (state : NativeState F) (s : Store) : Prop :=
  Reads { state with pm := state.pm.startSubtrace } s

omit [PrimeField F] in
theorem rests_new : Rests (NativeState.new : NativeState F) .empty where
  started := List.cons_ne_nil _ _
  agrees := agrees_new.extend fun _ _ known => known
  nodes _ := rfl
  pieces _ := rfl
  freeNode _ _ := rfl
  freePiece _ _ := rfl

theorem subcircuitEffect_matches (rests : Rests state s) (subcircuit : SubCircuit) :
    Matches (subcircuitEffect p c state subcircuit)
      (subcircuit.compoundPrimitiveVec.foldlM (Store.step p c) s) Reads :=
  Matches.foldlM (fun primitive _ _ _ reads => primitiveEffect_matches reads primitive) rests

/-- All subcircuits in order go through exactly where their primitives do on the store. -/
theorem subcircuits_match (subcircuits : List SubCircuit) (rests : Rests state s) :
    Matches (subcircuits.foldlM (subcircuitEffect p c) state) (s.run p c subcircuits) Rests := by
  induction subcircuits generalizing state s with
  | nil => exact .done rests
  | cons subcircuit subcircuits ih =>
    rw [List.foldlM_cons, Store.run, List.flatMap_cons, List.foldlM_append]
    apply (subcircuitEffect_matches rests subcircuit).bind
    intro state' s' reads
    exact ih (startSubtrace_reads reads)

omit [PrimeField F] in
/-- A wire holds the element of the digest in the store. -/
theorem Rests.valueOf_eq (rests : Rests state s) (a : NodeAddress) :
    valueOf state.pm a.toName = (s.node a).map innerHashToField := by
  cases known : s.node a with
  | none => exact rests.freeNode a known
  | some digest => exact rests.agrees.nodes _ _ ((rests.nodes a).trans known)

/-- A comparison holds where the store holds one digest at both addresses. -/
theorem holds_iff (rests : Rests state s) (updateIdx : UInt64) (a b : NodeAddress) :
    Holds state.pm (equalityOp updateIdx a b) ↔ s.node a = s.node b := by
  have wires : valueOf state.pm a.toName = valueOf state.pm b.toName ↔ s.node a = s.node b := by
    rw [rests.valueOf_eq, rests.valueOf_eq]
    exact (Option.map_injective innerHashToField_injective).eq_iff
  rw [← wires, equalityOp, Holds]
  constructor
  · intro holds
    exact holds a b (NodeAddressBytes.bytesToNodeAddress_nodeAddressToBytes a)
      (NodeAddressBytes.bytesToNodeAddress_nodeAddressToBytes b)
  · intro same a' b' read read'
    rw [NodeAddressBytes.bytesToNodeAddress_nodeAddressToBytes] at read read'
    cases read
    cases read'
    exact same

section Traces
variable {D : Type} [DecidableEq F] [Inhabited D] [DecidableEq D] {checks : Bool}

/-- The native trace is recorded exactly where the primitives go through on an empty store. -/
theorem traced_iff : (∃ traces, getPortalSubtraces p checks D c = .ok traces) ↔
    ∃ subcircuits s, vkdUpdateToSubcircuit checks c.update = .ok subcircuits ∧
      Store.empty.run p c subcircuits = some s := by
  simp only [getPortalSubtraces_eq_ok]
  constructor
  · rintro ⟨_, subcircuits, state, laid, ran, _⟩
    have matched := subcircuits_match (p := p) (c := c) subcircuits (rests_new (F := F))
    cases run : Store.empty.run p c subcircuits with
    | none => exact absurd ran (matched.fails run state)
    | some s => exact ⟨subcircuits, s, laid, run⟩
  · rintro ⟨subcircuits, s, laid, run⟩
    have matched := subcircuits_match (p := p) (c := c) subcircuits (rests_new (F := F))
    obtain ⟨state, ran, _⟩ := matched.runs s run
    exact ⟨_, subcircuits, state, laid, ran, rfl⟩

end Traces
end Simulation
end VkdWires
