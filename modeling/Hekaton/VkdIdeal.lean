import Hekaton.VkdBatches

/-!
# The key directory over ideal gadgets

An ideal portal hands back the wire that was set under a name, and an ideal gadget for an inner
node computes the native digest of what its wires hold. Over both the only variables left are
the bytes of leaves, users and roots, and the siblings. Where an assignment gives them the
values of a list of updates, whatever values they were allocated with, the wires hold the
digests of that list. A name is set once only, so no leaf is hashed twice.
-/

namespace VkdIdeal

open Outcomes Wires Synthesis Contracts Uint32 PortalManager PrimeFields ByteBits VkdHash
open SparseTree VkdCircuits KeyDirectory FieldGadgets VkdGadgets VkdSubcircuits VkdNames HonestRuns
open VkdTraces VkdAgreement VkdBatches MerkleTrees Function

/-- A portal whose reads are the wires that were set. -/
structure IdealPortal (F D : Type) where
  wires : String → Option (Wire F D .field)

namespace IdealPortal
variable {F D : Type}

def new : IdealPortal F D := ⟨fun _ => none⟩

def get (portal : IdealPortal F D) (name : String) :
    Synth F D (Wire F D .field × IdealPortal F D) := do
  let w ← Synth.lift (expect (unknownWire name) (portal.wires name))
  pure (w, portal)

def set (portal : IdealPortal F D) (name : String) (val : Wire F D .field) :
    Synth F D (IdealPortal F D) :=
  if (portal.wires name).isSome then
    Synth.lift (panicWith ("cannot set portal wire more than once; wire '" ++ name ++ "'"))
  else pure ⟨update portal.wires name (some val)⟩

instance manager : Manager F D (IdealPortal F D) where
  get := get
  set := set

end IdealPortal

section Model
variable {F D : Type} [Field F] [PrimeField F] (p : Poseidon F)

/-- The native digest of two elements, as an element. -/
def innerDigest (l r : F) : F := innerHashToField (truncated (p.twoToOne l r))

def idealInnerNodeVar (left right : Wire F D .field) : Synth F D (Wire F D .field) :=
  Synth.define (.call₂ (k := .field) (l := .field) (m := .field) (innerDigest p) left right)

/-- The constraints of all subcircuits in order, over one ideal portal. -/
def synthesize (c : VerifiableKeyDirectoryCircuit) : Synth F D (IdealPortal F D) :=
  (List.range c.subcircuits.length).foldlM (fun portal i => do
    let r ← (generateConstraintsWith p (idealInnerNodeVar p) c i).run portal
    pure r.2) .new

def byteWitnesses (bytes : List UInt8) : List (Variable F D) :=
  bytes.flatMap fun byte => (byteBits byte).map fun bit => ⟨.witness, .bool, bit⟩

def pathWitnesses (path : MerkleTreePath) : List (Variable F D) :=
  path.path.map fun digest => ⟨.witness, .field, innerHashToField digest⟩

def primitiveWitnesses (c : VerifiableKeyDirectoryCircuit) :
    PrimitiveSubcircuit → List (Variable F D)
  | .equalityPrimitive _ => []
  | .getIndexPrimitive ind => byteWitnesses (ind.leaf.toList.take 32)
  | .computePathPrimitive path => pathWitnesses path.path
  | .hashLeafPrimitive h => byteWitnesses h.leaf.toList
  | .writePublicParameterPrimitive => byteWitnesses c.initialRoot.toList ++
      (byteWitnesses c.finalRoot.toList ++ byteWitnesses c.params.nullLeaf.toList)
  | .paddingPrimitive => []

def subcircuitWitnesses (c : VerifiableKeyDirectoryCircuit) (subcircuit : SubCircuit) :
    List (Variable F D) := subcircuit.compoundPrimitiveVec.flatMap (primitiveWitnesses c)

/-- The variables of all subcircuits, with the values that the prover gives them. -/
def witnesses (c : VerifiableKeyDirectoryCircuit) : List (Variable F D) :=
  c.subcircuits.flatMap (subcircuitWitnesses c)

end Model

section Given
variable {F D α β γ ι κ : Type} [Field F] [DecidableEq F] [DecidableEq D] {z : Assignment F D}

/-- `m` allocates as many variables, and under an assignment that gives them these values what it
adds holds exactly where `C` does, and its result has the property. -/
def Given (z : Assignment F D) (values : List (Variable F D)) (m : Synth F D α) (C : Prop)
    (Q : α → Prop) : Prop :=
  ∀ vars a e, m vars = .ok (a, e) → Agrees z vars.length values →
    e.allocations.length = values.length ∧ (e.Satisfied z ↔ C) ∧ Q a

namespace Given
variable {values values' : List (Variable F D)} {m : Synth F D α} {f : α → Synth F D β}
variable {C C' : Prop} {P : α → Prop} {Q : β → Prop}

theorem mono {P' : α → Prop} (h : Given z values m C P) (sub : ∀ a, P a → P' a) :
    Given z values m C P' :=
  fun vars a e run agrees => (h vars a e run agrees).imp id (.imp id (sub a))

theorem congr (h : Given z values m C P) (same : C ↔ C') : Given z values m C' P := by
  intro vars a e run agrees
  obtain ⟨allocated, satisfied, ha⟩ := h vars a e run agrees
  exact ⟨allocated, satisfied.trans same, ha⟩

theorem bind (first : Given z values m C P) (rest : ∀ a, P a → Given z values' (f a) C' Q) :
    Given z (values ++ values') (m >>= f) (C ∧ C') Q := by
  intro vars b e run agrees
  obtain ⟨a, e₁, b', e₂, run₁, run₂, same⟩ := Synth.bind_eq_ok.mp run
  cases same
  obtain ⟨here, later⟩ := agrees_append.mp agrees
  obtain ⟨allocated₁, satisfied₁, ha⟩ := first vars a e₁ run₁ here
  rw [← allocated₁, ← List.length_append] at later
  obtain ⟨allocated₂, satisfied₂, hb⟩ := rest a ha _ b e₂ run₂ later
  refine ⟨?_, Emission.satisfied_append.trans (and_congr satisfied₁ satisfied₂), hb⟩
  rw [Emission.append_allocations, List.length_append, List.length_append, allocated₁, allocated₂]

/-- A first step whose constraints always hold. -/
theorem bind_true (first : Given z values m True P)
    (rest : ∀ a, P a → Given z values' (f a) C Q) : Given z (values ++ values') (m >>= f) C Q := by
  exact (first.bind rest).congr (iff_of_eq (true_and C))

theorem pure {a : α} (h : P a) : Given z [] (Pure.pure a) True P := by
  intro vars a' e run _
  cases run
  exact ⟨rfl, iff_true_intro Emission.satisfied_empty, h⟩

/-- A result handed on in another shape. -/
theorem bind_pure {g : α → β} (first : Given z values m C P) (rest : ∀ a, P a → Q (g a)) :
    Given z values (m >>= fun a => Pure.pure (g a)) C Q := by
  have both := first.bind (f := fun a => Pure.pure (g a)) fun a ha => pure (rest a ha)
  rwa [List.append_nil, and_true] at both

theorem lift_bind {o : Outcome α} (rest : ∀ a, o = .ok a → Given z values (f a) C Q) :
    Given z values (Synth.lift o >>= f) C Q := by
  have first : Given z [] (Synth.lift o : Synth F D α) True fun a => o = .ok a := by
    intro vars a e run _
    obtain ⟨a', ok, same⟩ := Synth.lift_eq_ok.mp run
    cases same
    exact ⟨rfl, iff_true_intro Emission.satisfied_empty, ok⟩
  exact first.bind_true rest

theorem computes_bind {a : α} (h : Computes m a) (rest : Given z values (f a) C Q) :
    Given z values (m >>= f) C Q := by
  have first : Given z [] m True (· = a) := by
    intro vars a' e run _
    obtain ⟨rows, defined, runs⟩ := h
    rw [runs vars] at run
    cases run
    refine ⟨rfl, iff_true_intro fun row member => ?_, rfl⟩
    obtain ⟨k, w, rfl⟩ := defined row member
    trivial
  exact first.bind_true (by rintro _ rfl; exact rest)

/-- The variable has the given value, whatever it was allocated with. -/
theorem newVariable (mode : AllocationMode) (k : Kind) (value value' : k.Val F D) :
    Given z [⟨mode, k, value'⟩] (Synth.newVariable mode k value) True fun w =>
      w.eval z = value' := by
  intro vars w e run agrees
  cases run
  exact ⟨rfl, iff_true_intro fun row member => absurd member List.not_mem_nil,
    agrees_singleton.mp agrees⟩

theorem emit (c : Constraint F D) : Given z [] (Synth.emit c) (c.Holds z) fun _ => True := by
  intro vars a e run _
  cases run
  exact ⟨rfl, List.forall_mem_singleton, trivial⟩

theorem mapM {l : List ι} {l' : List κ} {g : ι → Synth F D β} {values : κ → List (Variable F D)}
    {S : κ → β → Prop} (size : l.length = l'.length)
    (each : ∀ i j, Given z (values j) (g i) True (S j)) :
    Given z (l'.flatMap values) (l.mapM g) True fun ws => List.Forall₂ S l' ws := by
  induction l generalizing l' with
  | nil =>
    cases List.eq_nil_of_length_eq_zero size.symm
    exact pure .nil
  | cons i l ih =>
    obtain ⟨j, l', rfl⟩ := List.exists_cons_of_length_eq_add_one size.symm
    rw [List.mapM_cons, List.flatMap_cons]
    apply (each i j).bind_true
    intro w here
    exact (ih (Nat.succ.inj size)).bind_pure fun ws later => .cons here later

/-- A loop over one list, given what another is witnessed with. -/
theorem foldlM {l : List ι} {l' : List κ} {f : α → ι → Synth F D α}
    {values : κ → List (Variable F D)} {R : α → Prop} {S : ι → Prop} {T : ι → κ → Prop}
    (paired : List.Forall₂ T l l')
    (each : ∀ i j, T i j → ∀ a, R a → Given z (values j) (f a i) (S i) R) {a : α}
    (start : R a) : Given z (l'.flatMap values) (l.foldlM f a) (∀ i ∈ l, S i) R := by
  induction paired generalizing a with
  | nil => exact (pure start).congr (iff_of_true trivial fun i member => nomatch member)
  | cons here _ ih =>
    rw [List.foldlM_cons, List.flatMap_cons, List.forall_mem_cons]
    apply (each _ _ here a start).bind
    intro a' related
    exact ih related

end Given

section Steps
variable {values values' : List (Variable F D)} {portal : IdealPortal F D} {C : Prop}
variable {f : α → Program F D β} {Q : β × IdealPortal F D → Prop}

theorem given_lift {m : Synth F D α} {P : α → Prop} (first : Given z values m True P)
    (rest : ∀ a, P a → Given z values' ((f a).run portal) C Q) :
    Given z (values ++ values') ((Program.lift m >>= f).run portal) C Q := first.bind_true rest

theorem given_call {o : Outcome α}
    (rest : ∀ a, o = .ok a → Given z values ((f a).run portal) C Q) :
    Given z values ((call o >>= f).run portal) C Q := Given.lift_bind rest

theorem given_computes {m : Synth F D α} {a : α} (h : Computes m a)
    (rest : Given z values ((f a).run portal) C Q) :
    Given z values ((Program.lift m >>= f).run portal) C Q := Given.computes_bind h rest

theorem given_get {f : Wire F D .field → Program F D β} {name : String}
    (rest : ∀ w, portal.wires name = some w → Given z values ((f w).run portal) C Q) :
    Given z values ((Program.portalGet name >>= f).run portal) C Q := by
  have first : Given z [] (IdealPortal.get portal name) True fun r =>
      portal.wires name = some r.1 ∧ r.2 = portal := by
    apply Given.lift_bind
    intro w found
    exact .pure ⟨expect_eq_ok.mp found, rfl⟩
  apply first.bind_true
  rintro ⟨w, _⟩ ⟨found, rfl⟩
  exact rest w found

theorem given_set {f : Unit → Program F D β} {name : String} {w : Wire F D .field}
    (rest : Given z values ((f ()).run ⟨update portal.wires name (some w)⟩) C Q) :
    Given z values ((Program.portalSet name w >>= f).run portal) C Q := by
  have first : Given z [] (IdealPortal.set portal name w) True fun portal' =>
      portal' = ⟨update portal.wires name (some w)⟩ := by
    rw [IdealPortal.set]
    by_cases known : (portal.wires name).isSome = true
    · rw [if_pos known]
      intro vars a e run _
      cases run
    · rw [if_neg known]
      exact .pure rfl
  apply first.bind_true
  rintro _ rfl
  exact rest

theorem given_lift_last {m : Synth F D α} {P : α → Prop} (first : Given z values m True P)
    (rest : ∀ a, P a → Given z [] ((f a).run portal) C Q) :
    Given z values ((Program.lift m >>= f).run portal) C Q := by
  have both := given_lift first rest
  rwa [List.append_nil] at both

theorem given_set_last {Q : Unit × IdealPortal F D → Prop} {name : String}
    {w : Wire F D .field} (last : Q ((), ⟨update portal.wires name (some w)⟩)) :
    Given z [] ((Program.portalSet name w).run portal) True Q := by
  change Given z [] ((Program.portalSet name w >>= fun _ => pure ()).run portal) True Q
  exact given_set (.pure last)

omit [Field F] [DecidableEq F] [DecidableEq D] in
/-- A loop of a body is a loop on the portal. -/
theorem run_forEach (l : List ι) (body : ι → Program F D Unit) :
    (forEach l body).run portal = l.foldlM (fun portal i => do
      let r ← (body i).run portal
      pure r.2) portal >>= fun portal => pure ((), portal) := by
  induction l generalizing portal with
  | nil => rfl
  | cons i l ih =>
    rw [forEach, run_bind, List.foldlM_cons, bind_assoc, bind_assoc]
    apply congrArg
    funext r
    rw [pure_bind]
    exact ih

end Steps
end Given

section Gadgets
variable {F D : Type} [Field F] [PrimeField F] [DecidableEq F] [DecidableEq D]
variable {p : Poseidon F} {z : Assignment F D}

omit [PrimeField F] in
theorem newBits_given {bits bits' : List Bool} (size : bits.length = bits'.length) :
    Given z (bits'.map fun bit => ⟨.witness, .bool, bit⟩) (newBits .witness bits) True fun ws =>
      values z ws.1 = bits' := by
  induction bits generalizing bits' with
  | nil =>
    cases List.eq_nil_of_length_eq_zero size.symm
    exact .pure rfl
  | cons bit bits ih =>
    obtain ⟨bit', bits', rfl⟩ := List.exists_cons_of_length_eq_add_one size.symm
    rw [newBits]
    apply (Given.newVariable .witness .bool bit bit').bind_true
    intro w hw
    exact (ih (Nat.succ.inj size)).bind_pure fun ws hws => congrArg₂ List.cons hw hws

omit [PrimeField F] in
theorem newWitnessVec_given {bytes bytes' : List UInt8} (size : bytes.length = bytes'.length) :
    Given z (byteWitnesses bytes') (newWitnessVec bytes) True fun vs =>
      bytesValue z vs = bytes' := by
  have each (byte byte' : UInt8) : Given z
      ((byteBits byte').map fun bit => ⟨.witness, .bool, bit⟩)
      (newWitnessByte (F := F) (D := D) byte) True fun v => v.value z = byte' := by
    have bits : (byteBits byte).length = (byteBits byte').length := by
      rw [byteBits_length, byteBits_length]
    apply (newBits_given bits).bind_pure
    intro ws hws
    rw [UInt8Var.value, hws, byteOf_byteBits]
  apply (Given.mapM size each).mono
  intro vs all
  clear each size
  induction all with
  | nil => rfl
  | cons here _ ih => exact congrArg₂ List.cons here ih

omit [PrimeField F] in
theorem newPath_given {path path' : MerkleTreePath}
    (size : path.path.length = path'.path.length) : Given z (pathWitnesses path')
      (MerkleTreePathVar.newVariable .witness path) True fun v =>
        List.Forall₂ (fun digest w => w.eval z = (innerHashToField digest : F))
          path'.path v.path := by
  have all := Given.mapM (z := z) size fun digest digest' =>
    Given.newVariable .witness .field (innerHashToField digest : F) (innerHashToField digest')
  rw [← List.map_eq_flatMap] at all
  exact all.bind_pure fun ws each => each

/-- The lowest bits of an index wire are the sides of a path, from some level on. -/
theorem bitWires_eval {w : Wire F D .field} {n : Nat} (hw : (w.eval z : F) = n)
    (small : n < PrimeField.modulus F) (path : List InnerHash) (k : Nat) :
    List.Forall₂ (fun (b : Wire F D .bool) level => b.eval z = level.1)
      ((List.range' k path.length).map (bitWire w)) (levelsOf (n / 2 ^ k) path) := by
  induction path generalizing k with
  | nil => exact .nil
  | cons sibling path ih =>
    have half : n / 2 ^ k / 2 = n / 2 ^ (k + 1) := by
      rw [Nat.pow_succ, Nat.div_div_eq_div_mul]
    rw [List.length_cons, List.range'_succ, List.map_cons, levelsOf, half]
    refine .cons ?_ (ih (k + 1))
    rw [bitWire, Wire.eval, hw, bitAt, PrimeField.intoBigint_natCast n small,
      Nat.testBit_eq_decide_div_mod_eq]

/-- Over ideal inner nodes the gadget computes what the native function does. -/
theorem climbVar_computes {index : List (Wire F D .bool)} {path : List (Wire F D .field)}
    {levels : List (Bool × InnerHash)} {current : Wire F D .field} {digest : InnerHash}
    (bits : List.Forall₂ (fun (b : Wire F D .bool) level => b.eval z = level.1) index levels)
    (siblings : List.Forall₂ (fun (w : Wire F D .field) level =>
      w.eval z = (innerHashToField level.2 : F)) path levels)
    (start : current.eval z = (innerHashToField digest : F)) :
    ∃ w, Computes (MerkleTreePathVar.climbVar (idealInnerNodeVar p) index path current) w ∧
      w.eval z = (innerHashToField (climb (hashInnerNode p) levels digest) : F) := by
  induction levels generalizing index path current digest with
  | nil =>
    cases bits
    exact ⟨current, .pure current, start⟩
  | cons level levels ih =>
    obtain ⟨right, sibling⟩ := level
    obtain _ | ⟨hb, bits⟩ := bits
    obtain _ | ⟨hs, siblings⟩ := siblings
    rename_i b index s path
    have value : (Wire.call₂ (k := .field) (l := .field) (m := .field) (innerDigest p)
        (.select b s current) (.select b current s)).eval z = (innerHashToField
          (bif right then hashInnerNode p sibling digest else hashInnerNode p digest sibling) : F) := by
      simp only [Wire.eval, hb, hs, start]
      cases right <;> rfl
    obtain ⟨w, computes, root⟩ := ih bits siblings value
    refine ⟨w, ?_, ?_⟩
    · rw [MerkleTreePathVar.climbVar]
      exact (Computes.define _).bind ((Computes.define _).bind ((Computes.define _).bind computes))
    · rw [root]
      cases right <;> rfl

end Gadgets

section Nodes
variable {F D : Type} [Field F] [PrimeField F] [DecidableEq F] [DecidableEq D]
variable {p : Poseidon F} {c c' : VerifiableKeyDirectoryCircuit} {z : Assignment F D}
variable {portal : IdealPortal F D} {digestAt : NodeAddress → InnerHash}

/-- The wires hold the digests of their nodes and the pieces of their users' indices. -/
structure Carried (p : Poseidon F) (z : Assignment F D) (digestAt : NodeAddress → InnerHash)
    (portal : IdealPortal F D) : Prop where
  nodes : ∀ (a : NodeAddress) w, portal.wires a.toName = some w →
    w.eval z = (innerHashToField (digestAt a) : F)
  pieces : ∀ (x : IndexAddress) w, portal.wires x.toName = some w →
    w.eval z = (userPiece p (userOf x.leaf) x.indicator.toNat : F)

theorem carried_new : Carried p z digestAt .new where
  nodes _ _ found := nomatch found
  pieces _ _ found := nomatch found

omit [Field F] [PrimeField F] [DecidableEq F] [DecidableEq D] in
/-- A wire after a set is the one that was set, or was there before. -/
theorem wires_update {name other : String} {w w' : Wire F D .field}
    (found : update portal.wires name (some w) other = some w') :
    other = name ∧ w' = w ∨ other ≠ name ∧ portal.wires other = some w' := by
  by_cases same : other = name
  · subst same
    rw [update_self] at found
    cases found
    exact .inl ⟨rfl, rfl⟩
  · rw [update_of_ne same] at found
    exact .inr ⟨same, found⟩

theorem Carried.setNode (carried : Carried p z digestAt portal) {a : NodeAddress}
    {w : Wire F D .field} (value : w.eval z = (innerHashToField (digestAt a) : F)) :
    Carried p z digestAt ⟨update portal.wires a.toName (some w)⟩ := by
  constructor
  · intro b w' found
    rcases wires_update found with ⟨same, rfl⟩ | ⟨_, before⟩
    · rw [node_toName_injective same]
      exact value
    · exact carried.nodes b w' before
  · intro x w' found
    rcases wires_update found with ⟨same, _⟩ | ⟨_, before⟩
    · exact absurd same.symm (node_ne_index a x)
    · exact carried.pieces x w' before

theorem Carried.setPiece (carried : Carried p z digestAt portal) {x : IndexAddress}
    {w : Wire F D .field}
    (value : w.eval z = (userPiece p (userOf x.leaf) x.indicator.toNat : F)) :
    Carried p z digestAt ⟨update portal.wires x.toName (some w)⟩ := by
  constructor
  · intro a w' found
    rcases wires_update found with ⟨same, _⟩ | ⟨_, before⟩
    · exact absurd same (node_ne_index a x)
    · exact carried.nodes a w' before
  · intro y w' found
    rcases wires_update found with ⟨same, rfl⟩ | ⟨_, before⟩
    · obtain ⟨indicator, user⟩ := index_toName_inj.mp same
      rw [indicator, user]
      exact value
    · exact carried.pieces y w' before

/-- What a comparison says of the digests. -/
def Compared (digestAt : NodeAddress → InnerHash) : PrimitiveSubcircuit → Prop
  | .equalityPrimitive eq => ∀ a b, NodeAddressBytes.bytesToNodeAddress eq.addr1 = .ok a →
      NodeAddressBytes.bytesToNodeAddress eq.addr2 = .ok b → digestAt a = digestAt b
  | _ => True

/-- Run with the witnesses of another primitive, of a circuit with these roots, a primitive
writes the digests of its nodes. -/
inductive Meets (p : Poseidon F) (c : VerifiableKeyDirectoryCircuit)
    (digestAt : NodeAddress → InnerHash) : PrimitiveSubcircuit → PrimitiveSubcircuit → Prop where
  | equality (eq eq' : EqualityPrimitive) :
      Meets p c digestAt (.equalityPrimitive eq) (.equalityPrimitive eq')
  | getIndex {ind ind' : GetIndexPrimitive} (same : userOf ind.leaf = userOf ind'.leaf) :
      Meets p c digestAt (.getIndexPrimitive ind) (.getIndexPrimitive ind')
  | computePath {path path' : ComputePathPrimitive}
      (size : path.path.path.length = path'.path.path.length)
      (short : path'.path.path.length ≤ 32)
      (climbed : ∀ start target,
        NodeAddressBytes.bytesToNodeAddress path.initialValueAddr = .ok start →
        NodeAddressBytes.bytesToNodeAddress path.finalValueAddr = .ok target →
        digestAt target = climb (hashInnerNode p) (levelsOf (userPiece p
          (userOf path.indexAddr.leaf) path.indexAddr.indicator.toNat) path'.path.path)
            (digestAt start)) :
      Meets p c digestAt (.computePathPrimitive path) (.computePathPrimitive path')
  | hashLeaf {h h' : HashLeafPrimitive}
      (digest : digestAt (.leafHash ⟨h.leaf⟩) = VkdHash.hashLeaf p h'.leaf.toList) :
      Meets p c digestAt (.hashLeafPrimitive h) (.hashLeafPrimitive h')
  | writePublicParameter (initial : digestAt .initialRoot = c.initialRoot)
      (final : digestAt .finalRoot = c.finalRoot) (null : digestAt .nullLeaf = c.params.nullLeaf) :
      Meets p c digestAt .writePublicParameterPrimitive .writePublicParameterPrimitive
  | padding : Meets p c digestAt .paddingPrimitive .paddingPrimitive

theorem setRoot_given (carried : Carried p z digestAt portal) {a : NodeAddress}
    {digest : InnerHash} (known : digestAt a = digest) (old : InnerHash) :
    Given z (byteWitnesses digest.toList) ((setRoot a.toName old).run portal) True fun r =>
      Carried p z digestAt r.2 := by
  have size : old.toList.length = digest.toList.length := by
    rw [old.toList_length, digest.toList_length]
  apply given_lift_last (newWitnessVec_given size)
  intro vs bytes
  apply given_set_last
  apply carried.setNode
  rw [digestToFpvar_eval, bytes, List.take_of_length_le (le_of_eq digest.toList_length), known]
  rfl

theorem writePublicParameter_given (carried : Carried p z digestAt portal)
    (initial : digestAt .initialRoot = c'.initialRoot)
    (final : digestAt .finalRoot = c'.finalRoot) (null : digestAt .nullLeaf = c'.params.nullLeaf) :
    Given z (primitiveWitnesses c' .writePublicParameterPrimitive)
      ((writePublicParameterConstraints c).run portal) True fun r => Carried p z digestAt r.2 := by
  rw [writePublicParameterConstraints, run_bind]
  apply (setRoot_given carried initial c.initialRoot).bind_true
  rintro ⟨_, portal₁⟩ carried₁
  rw [run_bind]
  apply (setRoot_given carried₁ final c.finalRoot).bind_true
  rintro ⟨_, portal₂⟩ carried₂
  exact setRoot_given carried₂ null c.params.nullLeaf

theorem equality_given (carried : Carried p z digestAt portal) (eq : EqualityPrimitive) :
    Given z [] ((equalityConstraints eq).run portal) (Compared digestAt (.equalityPrimitive eq))
      fun r => Carried p z digestAt r.2 := by
  apply given_call
  intro addr1 read1
  apply given_call
  intro addr2 read2
  apply given_get
  intro w₁ found₁
  apply given_get
  intro w₂ found₂
  have equal : Constraint.Holds z (.enforceEqual w₁ w₂) ↔
      Compared digestAt (.equalityPrimitive eq) := by
    change (w₁.eval z : F) = w₂.eval z ↔ _
    rw [carried.nodes addr1 w₁ found₁, carried.nodes addr2 w₂ found₂]
    constructor
    · intro same a b first second
      cases read1.symm.trans first
      cases read2.symm.trans second
      exact innerHashToField_injective same
    · intro said
      exact congrArg innerHashToField (said addr1 addr2 read1 read2)
  exact ((Given.emit (z := z) (.enforceEqual w₁ w₂)).bind_pure
    (g := fun u : Unit => (u, portal)) fun _ _ => carried).congr equal

/-- One piece of an index is cut from the hash and set. -/
theorem piece_given (carried : Carried p z digestAt portal) {leaf : Leaf}
    {digest : List (UInt8Var F D)} (value : bytesValue z digest = VkdHash.hash p (userOf leaf))
    {i : Nat} (below : i < splitFactor) : Given z [] ((call (expect Coordinator.outOfBounds
        ((List.range splitFactor).map (piece ((toBits digest).take DEPTH)))[i]?) >>= fun bits =>
      Program.portalSet (IndexAddress.toName ⟨UInt64.ofNat i, leaf⟩)
        (leBitsToFpVar 1 bits)).run portal) True fun r => Carried p z digestAt r.2 := by
  apply given_call
  intro bits found
  rw [List.getElem?_map, List.getElem?_range below] at found
  cases found
  apply given_set_last
  apply carried.setPiece (x := ⟨UInt64.ofNat i, leaf⟩)
  have small : i < 2 ^ 64 := Nat.lt_trans below (by decide)
  have number := values_piece value (VkdHash.hash_length ..) below
  rw [leBitsToFpVar_eval, one_mul, number, toNat_bitsOf, Nat.mod_mod, UInt64.toNat_ofNat_of_lt' small,
    userPiece]

theorem getIndex_given (carried : Carried p z digestAt portal) (ind : GetIndexPrimitive) :
    Given z (byteWitnesses (userOf ind.leaf)) ((getIndexConstraints p ind).run portal) True fun r =>
      Carried p z digestAt r.2 := by
  apply given_lift_last (newWitnessVec_given rfl)
  intro leafVar bytes
  have nonempty : leafVar ≠ [] := by
    rintro rfl
    have count := congrArg List.length bytes
    rw [userOf, List.length_take, ind.leaf.toList_length] at count
    cases count
  obtain ⟨digest, computes, count, value⟩ := hashVar_computes (p := p) nonempty
  apply given_computes computes
  have low : ((toBits digest).take DEPTH).length = 128 := by
    rw [List.length_take, toBits_length, count]
    rfl
  apply given_call
  intro parts cut
  cases (split_pieces low).symm.trans cut
  apply given_call
  intro boolVec unwrapped
  cases unwrapped
  rw [run_forEach]
  have hashed := (value z).trans (congrArg (VkdHash.hash p) bytes)
  have same : List.Forall₂ (fun i j : Nat => i = j ∧ i < splitFactor) (List.range splitFactor)
      (List.range splitFactor) :=
    List.forall₂_same.mpr fun i inside => ⟨rfl, List.mem_range.mp inside⟩
  have rounds := Given.foldlM (z := z) (R := Carried p z digestAt)
    (S := fun _ => True) same (fun i _ both portal carried =>
      (piece_given carried hashed both.2).bind_pure (g := Prod.snd) fun _ done => done) carried
  have none : (List.range splitFactor).flatMap (fun _ => ([] : List (Variable F D))) = [] := by simp
  rw [none] at rounds
  have hold := rounds.congr (iff_true_intro fun _ _ => trivial)
  exact hold.bind_pure fun _ done => done

theorem computePath_given (carried : Carried p z digestAt portal)
    {path path' : ComputePathPrimitive} (size : path.path.path.length = path'.path.path.length)
    (short : path'.path.path.length ≤ 32) (climbed : ∀ start target,
      NodeAddressBytes.bytesToNodeAddress path.initialValueAddr = .ok start →
      NodeAddressBytes.bytesToNodeAddress path.finalValueAddr = .ok target →
      digestAt target = climb (hashInnerNode p) (levelsOf (userPiece p
        (userOf path.indexAddr.leaf) path.indexAddr.indicator.toNat) path'.path.path)
          (digestAt start)) :
    Given z (pathWitnesses path'.path)
      ((computePathConstraints (idealInnerNodeVar p) path).run portal) True fun r =>
        Carried p z digestAt r.2 := by
  apply given_call
  intro start read
  apply given_get
  intro w₁ found₁
  apply given_get
  intro w₂ found₂
  have value := carried.nodes start w₁ found₁
  have number := carried.pieces path.indexAddr w₂ found₂
  apply given_computes (fpvarToBooleanIndex_computes w₂)
  apply given_lift_last (newPath_given size)
  intro pathVar siblings
  have below : userPiece p (userOf path.indexAddr.leaf) path.indexAddr.indicator.toNat <
      PrimeField.modulus F := by
    have piece : userPiece p (userOf path.indexAddr.leaf) path.indexAddr.indicator.toNat < 2 ^ 32 :=
      Nat.mod_lt _ (by decide)
    have large : 2 ^ 254 < PrimeField.modulus F := PrimeField.large
    have power : 2 ^ 32 < 2 ^ 254 := by decide
    omega
  have bits := bitWires_eval number below path'.path.path 0
  rw [pow_zero, Nat.div_one, ← List.range_eq_range'] at bits
  obtain ⟨root, computes, reached⟩ := climbVar_computes (p := p) bits
    (forall₂_levelsOf siblings.flip _) value
  have fewer : ((List.range pathLength).map (bitWire w₂)).take pathVar.path.length =
      (List.range path'.path.path.length).map (bitWire w₂) := by
    rw [← List.map_take, List.take_range, ← siblings.length_eq, Nat.min_eq_left short]
  rw [MerkleTreePathVar.computeRootVarFromInternalNode, climbVar_take, fewer]
  apply given_computes computes
  apply given_call
  intro target read'
  apply given_set_last
  apply carried.setNode
  rw [reached, climbed start target read read']

theorem hashLeaf_given (carried : Carried p z digestAt portal) {h h' : HashLeafPrimitive}
    (digest : digestAt (.leafHash ⟨h.leaf⟩) = VkdHash.hashLeaf p h'.leaf.toList) :
    Given z (byteWitnesses h'.leaf.toList) ((hashLeafConstraints p h).run portal) True fun r =>
      Carried p z digestAt r.2 := by
  have size : h.leaf.toList.length = h'.leaf.toList.length := by
    rw [h.leaf.toList_length, h'.leaf.toList_length]
  apply given_lift_last (newWitnessVec_given size)
  intro leafVar bytes
  have nonempty : leafVar ≠ [] := by
    rintro rfl
    have count := congrArg List.length bytes
    rw [h'.leaf.toList_length] at count
    cases count
  obtain ⟨w, computes, value⟩ := hashLeafVar_computes (p := p) nonempty
  apply given_computes computes
  apply given_set_last
  apply carried.setNode (a := .leafHash ⟨h.leaf⟩)
  rw [value z, bytes, digest]

/-- Given the other's witnesses, a primitive writes the digests of its nodes, and its rows say
what it compares. -/
theorem primitive_given (carried : Carried p z digestAt portal)
    {primitive primitive' : PrimitiveSubcircuit} (meets : Meets p c' digestAt primitive primitive') :
    Given z (primitiveWitnesses c' primitive')
      ((primitiveConstraints p (idealInnerNodeVar p) c primitive).run portal)
      (Compared digestAt primitive) fun r => Carried p z digestAt r.2 := by
  cases meets with
  | equality eq _ => exact equality_given carried eq
  | getIndex same =>
    rename_i ind ind'
    have given := getIndex_given carried ind
    rw [same] at given
    exact given
  | computePath size short climbed => exact computePath_given carried size short climbed
  | hashLeaf digest => exact hashLeaf_given carried digest
  | writePublicParameter initial final null =>
    exact writePublicParameter_given carried initial final null
  | padding => exact .pure carried

theorem subcircuit_given (carried : Carried p z digestAt portal) {subcircuit subcircuit' : SubCircuit}
    (paired : List.Forall₂ (Meets p c' digestAt) subcircuit.compoundPrimitiveVec
      subcircuit'.compoundPrimitiveVec) :
    Given z (subcircuitWitnesses c' subcircuit')
      ((subcircuitConstraints p (idealInnerNodeVar p) c subcircuit).run portal)
      (∀ primitive ∈ subcircuit.compoundPrimitiveVec, Compared digestAt primitive) fun r =>
        Carried p z digestAt r.2 := by
  rw [subcircuitConstraints, run_forEach]
  have rounds := Given.foldlM (z := z) (R := Carried p z digestAt) (S := Compared digestAt) paired
    (fun _ _ meets portal carried => (primitive_given (c := c) carried meets).bind_pure
      (g := Prod.snd) fun _ done => done) carried
  exact rounds.bind_pure fun _ done => done

/-- A loop over the positions of a list is a loop over the list. -/
theorem foldlM_range {α σ : Type} {m : Type → Type} [Monad m] [LawfulMonad m] {l : List α}
    {f : σ → Nat → m σ} {g : σ → α → m σ} (same : ∀ i s a, l[i]? = some a → f s i = g s a)
    (s : σ) : (List.range l.length).foldlM f s = l.foldlM g s := by
  induction l using List.reverseRecOn generalizing s with
  | nil => rfl
  | append_singleton l a ih =>
    rw [List.length_append, List.length_singleton, List.range_succ, List.foldlM_append,
      List.foldlM_append, ih]
    · have last : (l ++ [a])[l.length]? = some a := List.getElem?_concat_length
      simp only [List.foldlM_cons, List.foldlM_nil, same _ _ _ last]
    · intro i s b found
      have inside := (List.getElem?_eq_some_iff.mp found).1
      exact same i s b (by rwa [List.getElem?_append_left inside])

omit [DecidableEq F] [DecidableEq D] in
theorem synthesize_eq : synthesize (D := D) p c = c.subcircuits.foldlM (fun portal subcircuit => do
    let r ← (subcircuitConstraints p (idealInnerNodeVar p) c subcircuit).run portal
    pure r.2) .new := by
  apply foldlM_range
  intro i portal subcircuit found
  funext vars
  have whole : (generateConstraintsWith p (idealInnerNodeVar (D := D) p) c i).run portal vars =
      (subcircuitConstraints p (idealInnerNodeVar p) c subcircuit).run portal vars := by
    rw [generateConstraintsWith, found]
    exact Synth.bind_of_ok_empty rfl
  change Synth.bind _ _ vars = Synth.bind _ _ vars
  rw [Synth.bind, Synth.bind, whole]

/-- Given the witnesses of another circuit, the wires end with the digests of their nodes, and
the rows hold exactly where what is compared is equal. -/
theorem synthesize_given (paired : List.Forall₂ (fun s s' : SubCircuit =>
      List.Forall₂ (Meets p c' digestAt) s.compoundPrimitiveVec s'.compoundPrimitiveVec)
      c.subcircuits c'.subcircuits) :
    Given z (witnesses c') (synthesize p c)
      (∀ subcircuit ∈ c.subcircuits, ∀ primitive ∈ subcircuit.compoundPrimitiveVec,
        Compared digestAt primitive) fun portal => Carried p z digestAt portal := by
  rw [synthesize_eq]
  refine Given.foldlM (R := Carried p z digestAt) (S := fun subcircuit : SubCircuit =>
    ∀ primitive ∈ subcircuit.compoundPrimitiveVec, Compared digestAt primitive) paired
    (fun subcircuit subcircuit' meets portal carried => ?_) carried_new
  exact (subcircuit_given carried meets).bind_pure fun _ done => done

end Nodes

section Names
variable {F D α β ι : Type} {m : Program F D α} {f : α → Program F D β}
variable {names names' : List String}

/-- Where a body runs, it sets these names, each once and none of them set before, and it keeps
the names that were set. -/
def Sets (m : Program F D α) (names : List String) : Prop :=
  ∀ (portal : IdealPortal F D) vars r e, m.run portal vars = .ok (r, e) →
    (∀ name, (portal.wires name).isSome → (r.2.wires name).isSome) ∧ names.Nodup ∧
      ∀ name ∈ names, portal.wires name = none ∧ (r.2.wires name).isSome

namespace Sets

theorem mono (h : Sets m names) (fewer : names'.Sublist names) : Sets m names' := by
  intro portal vars r e run
  obtain ⟨kept, once, set⟩ := h portal vars r e run
  exact ⟨kept, once.sublist fewer, fun name member => set name (fewer.subset member)⟩

theorem pure (a : α) : Sets (Pure.pure a : Program F D α) [] := by
  intro portal vars r e run
  cases run
  exact ⟨fun _ known => known, .nil, fun name member => absurd member List.not_mem_nil⟩

theorem bind (first : Sets m names) (rest : ∀ a, Sets (f a) names') :
    Sets (m >>= f) (names ++ names') := by
  intro portal vars r e run
  rw [run_bind] at run
  obtain ⟨⟨a, portal₁⟩, e₁, r', e₂, run₁, run₂, same⟩ := Synth.bind_eq_ok.mp run
  cases same
  obtain ⟨kept₁, once₁, set₁⟩ := first portal vars _ e₁ run₁
  obtain ⟨kept₂, once₂, set₂⟩ := rest a portal₁ _ _ e₂ run₂
  refine ⟨fun name known => kept₂ name (kept₁ name known), ?_, fun name member => ?_⟩
  · refine List.nodup_append.mpr ⟨once₁, once₂, ?_⟩
    rintro name early _ late rfl
    have known := (set₁ name early).2
    rw [(set₂ name late).1] at known
    cases known
  · rcases List.mem_append.mp member with early | late
    · exact ⟨(set₁ name early).1, kept₂ name (set₁ name early).2⟩
    · obtain ⟨free, known⟩ := set₂ name late
      refine ⟨?_, known⟩
      by_contra other
      have still := kept₁ name (Option.isSome_iff_ne_none.mpr other)
      rw [free] at still
      cases still

theorem lift (m : Synth F D α) : Sets (Program.lift m) [] := by
  intro portal vars r e run
  obtain ⟨a, e₁, r', e₂, _, run₂, same⟩ := Synth.bind_eq_ok.mp run
  cases same
  cases run₂
  exact ⟨fun _ known => known, .nil, fun name member => absurd member List.not_mem_nil⟩

theorem get (name : String) : Sets (F := F) (D := D) (Program.portalGet name) [] := by
  intro portal vars r e run
  obtain ⟨⟨w, portal₁⟩, e₁, r', e₂, run₁, run₂, same⟩ := Synth.bind_eq_ok.mp run
  change IdealPortal.get portal name vars = _ at run₁
  obtain ⟨w', e₃, r'', e₄, _, run₄, same'⟩ := Synth.bind_eq_ok.mp run₁
  cases run₂
  cases run₄
  cases same
  cases same'
  exact ⟨fun _ known => known, .nil, fun name member => absurd member List.not_mem_nil⟩

theorem set (name : String) (w : Wire F D .field) : Sets (Program.portalSet name w) [name] := by
  intro portal vars r e run
  obtain ⟨portal₁, e₁, r', e₂, run₁, run₂, same⟩ := Synth.bind_eq_ok.mp run
  cases same
  cases run₂
  change IdealPortal.set portal name w vars = _ at run₁
  rw [IdealPortal.set] at run₁
  by_cases known : (portal.wires name).isSome = true
  · rw [if_pos known] at run₁
    cases run₁
  · rw [if_neg known] at run₁
    cases run₁
    refine ⟨fun other before => ?_, List.nodup_singleton name, fun other member => ?_⟩
    · change (update portal.wires name (some w) other).isSome = true
      by_cases same : other = name
      · rw [same, update_self]
        rfl
      · rwa [update_of_ne same]
    · obtain rfl := List.mem_singleton.mp member
      refine ⟨Option.not_isSome_iff_eq_none.mp known, ?_⟩
      change (update portal.wires other (some w) other).isSome = true
      rw [update_self]
      rfl

theorem each {l : List ι} {body : ι → Program F D Unit} {names : ι → List String}
    (one : ∀ i, Sets (body i) (names i)) : Sets (forEach l body) (l.flatMap names) := by
  induction l with
  | nil => exact pure ()
  | cons i l ih => exact (one i).bind fun _ => ih

end Sets

variable [Field F] [PrimeField F] {p : Poseidon F} {c : VerifiableKeyDirectoryCircuit}

/-- The names of leaves and public parameters that a primitive sets. -/
def primitiveNames : PrimitiveSubcircuit → List String
  | .hashLeafPrimitive h => [LeafHashAddress.toName ⟨h.leaf⟩]
  | .writePublicParameterPrimitive =>
      [NodeAddress.initialRoot.toName, NodeAddress.finalRoot.toName, NodeAddress.nullLeaf.toName]
  | _ => []

def subcircuitNames (subcircuit : SubCircuit) : List String :=
  subcircuit.compoundPrimitiveVec.flatMap primitiveNames

omit [PrimeField F] in
theorem setRoot_sets (name : String) (digest : InnerHash) :
    Sets (F := F) (D := D) (setRoot name digest) [name] :=
  (Sets.lift _).bind fun _ => .set name _

theorem primitive_sets (primitive : PrimitiveSubcircuit) :
    Sets (D := D) (primitiveConstraints p (idealInnerNodeVar p) c primitive)
      (primitiveNames primitive) := by
  cases primitive with
  | equalityPrimitive eq =>
    exact (Sets.lift _).bind fun _ => (Sets.lift _).bind fun _ => (Sets.get _).bind fun _ =>
      (Sets.get _).bind fun _ => .lift _
  | getIndexPrimitive ind =>
    exact (Sets.lift _).bind fun _ => (Sets.lift _).bind fun _ => (Sets.lift _).bind fun _ =>
      (Sets.lift _).bind fun _ => (Sets.each fun i => (Sets.lift _).bind fun _ =>
        .set (IndexAddress.toName ⟨UInt64.ofNat i, ind.leaf⟩) _).mono (List.nil_sublist _)
  | computePathPrimitive path =>
    exact (Sets.lift _).bind fun _ => (Sets.get _).bind fun _ => (Sets.get _).bind fun _ =>
      (Sets.lift _).bind fun _ => (Sets.lift _).bind fun _ => (Sets.lift _).bind fun _ =>
        (Sets.lift _).bind fun target => (Sets.set target.toName _).mono (List.nil_sublist _)
  | hashLeafPrimitive h =>
    exact (Sets.lift _).bind fun _ => (Sets.lift _).bind fun _ => .set _ _
  | writePublicParameterPrimitive =>
    exact (setRoot_sets _ _).bind fun _ => (setRoot_sets _ _).bind fun _ => setRoot_sets _ _
  | paddingPrimitive => exact .pure ()

/-- What the subcircuits set is set in the end, and no name of theirs was set twice. -/
theorem names_of_synthesize {portal : IdealPortal F D} {e : Emission F D}
    (run : synthesize p c [] = .ok (portal, e)) : (c.subcircuits.flatMap subcircuitNames).Nodup ∧
      ∀ name ∈ c.subcircuits.flatMap subcircuitNames, (portal.wires name).isSome := by
  have all : Sets (forEach c.subcircuits (subcircuitConstraints p (idealInnerNodeVar (D := D) p) c))
      (c.subcircuits.flatMap subcircuitNames) :=
    Sets.each fun subcircuit => Sets.each primitive_sets
  have ran : (forEach c.subcircuits
      (subcircuitConstraints p (idealInnerNodeVar (D := D) p) c)).run .new [] =
        .ok (((), portal), e) := by
    rw [run_forEach, ← synthesize_eq]
    refine Synth.bind_eq_ok.mpr ⟨portal, e, ((), portal), .empty, run, rfl, ?_⟩
    rw [Emission.append_empty]
  obtain ⟨_, once, set⟩ := all _ _ _ _ ran
  exact ⟨once, fun name member => (set name member).2⟩

end Names

end VkdIdeal
