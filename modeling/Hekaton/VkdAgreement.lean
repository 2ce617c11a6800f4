import Hekaton.VkdTraces

/-!
# The two traces of the key directory agree

Where the native trace goes through, its memories hold what the portal wires hold: a node's
digest stands for the wire's element, the bits of an index piece for its number. Each
primitive's constraints then take the same values from the manager and leave the same
manager behind; an equality adds the condition that its two wires hold one value.
-/

namespace VkdAgreement

open Outcomes Wires Synthesis Contracts Transcript PortalManager Uint32 PrimeFields Codecs ByteBits
open VkdHash SparseTree VkdCircuits KeyDirectory FieldGadgets VkdGadgets VkdSubcircuits HonestRuns
open MirroredRuns MerkleTrees Packing Function VkdTraces

section Pieces
variable {F D : Type} [Field F] [DecidableEq F] [DecidableEq D] {z : Assignment F D}

omit [Field F] [DecidableEq F] [DecidableEq D] in
theorem toBits_length (vs : List (UInt8Var F D)) : (toBits vs).length = 8 * vs.length := by
  induction vs with
  | nil => rfl
  | cons v vs ih =>
    rw [toBits, List.flatMap_cons, List.length_append, v.width, List.length_cons]
    change 8 + (toBits vs).length = _
    rw [ih]
    omega

/-- The bits of a piece of the lowest 128 bits of a hash. -/
theorem values_piece {vs : List (UInt8Var F D)} {bytes : List UInt8}
    (value : bytesValue z vs = bytes) (size : bytes.length = 32) {i : Nat}
    (inside : i < splitFactor) : values z (piece ((toBits vs).take DEPTH) i) =
      bitsOf 32 (fromLittleEndian (bytes.take 16) / 2 ^ (32 * i) % 2 ^ 32) := by
  have cut : (values z (toBits vs)).take 128 = bitsOf 128 (fromLittleEndian (bytes.take 16)) := by
    have width : 8 * (bytes.take 16).length = 128 := by
      rw [List.length_take, size]
      rfl
    rw [values_toBits, value, ← bytesBits_take 16, bytesBits_eq, width]
  rw [← bitsOf_piece inside, ← cut, piece, piece, values, values, List.map_take, List.map_drop,
    List.map_take]

end Pieces

section Followed
variable {F D : Type} [Field F] [PrimeField F] [DecidableEq F] [Inhabited D] [DecidableEq D]
variable {p : Poseidon F} {c : VerifiableKeyDirectoryCircuit} {state state' : NativeState F}

/-- The wires hold what the memories hold. -/
structure Agrees (state : NativeState F) : Prop where
  nodes : ∀ name digest, state.innerNodeMemory name = some digest →
    valueOf state.pm name = some (innerHashToField digest)
  indices : ∀ name bits, state.indexMemory name = some bits → ∃ n : Nat, n < 2 ^ 32 ∧
    bits = evenBits 32 n ∧ valueOf state.pm name = some (n : F)

omit [PrimeField F] [DecidableEq F] in
theorem Agrees.extend {pm : SetupRomPortalManager F} (agrees : Agrees state)
    (extend : Extends state.pm pm) : Agrees { state with pm := pm } where
  nodes name digest known := extend _ _ (agrees.nodes name digest known)
  indices name bits known := by
    obtain ⟨n, small, same, value⟩ := agrees.indices name bits known
    exact ⟨n, small, same, extend _ _ value⟩

omit [PrimeField F] [DecidableEq F] in
/-- A node that is inserted: the manager that the set leaves, and the memories. -/
theorem nodeEffect_eq_ok {name : String} {digest : InnerHash}
    (ran : nodeEffect state name digest = .ok state') (agrees : Agrees state) :
    SetupManager.setValue state.pm name (innerHashToField (F := F) digest) = .ok state'.pm ∧
      Agrees state' ∧ Extends state.pm state'.pm := by
  obtain ⟨pm, set, same⟩ := Outcomes.bind_eq_ok.mp ran
  cases same
  have extend := Extends.of_set set
  refine ⟨set, ⟨fun other other' known => ?_, (agrees.extend extend).indices⟩, extend⟩
  rw [valueOf_set set]
  by_cases here : other = name
  · subst here
    change update _ _ _ _ = _ at known
    rw [update_self] at known
    cases known
    rw [if_pos rfl]
  · change update _ _ _ _ = _ at known
    rw [update_of_ne here] at known
    rw [if_neg here]
    exact agrees.nodes other other' known

omit [DecidableEq F] in
theorem indexPiece_lt (leaf : Leaf) (i : Nat) : indexPiece p leaf i < 2 ^ 32 :=
  Nat.mod_lt _ (Nat.two_pow_pos 32)

omit [DecidableEq F] in
theorem indexEffect_eq_ok {leaf : Leaf} {i : Nat}
    (ran : indexEffect p leaf state i = .ok state') (agrees : Agrees state) :
    SetupManager.setValue state.pm (IndexAddress.toName ⟨UInt64.ofNat i, leaf⟩)
      (indexPiece p leaf i : F) = .ok state'.pm ∧ Agrees state' ∧ Extends state.pm state'.pm := by
  obtain ⟨pm, set, same⟩ := Outcomes.bind_eq_ok.mp ran
  cases same
  have extend := Extends.of_set set
  refine ⟨set, ⟨(agrees.extend extend).nodes, fun other bits known => ?_⟩, extend⟩
  by_cases here : other = IndexAddress.toName ⟨UInt64.ofNat i, leaf⟩
  · subst here
    change update _ _ _ _ = _ at known
    rw [update_self] at known
    cases known
    exact ⟨indexPiece p leaf i, indexPiece_lt leaf i, rfl, by rw [valueOf_set set, if_pos rfl]⟩
  · change update _ _ _ _ = _ at known
    rw [update_of_ne here] at known
    exact (agrees.extend extend).indices other bits known

/-- What a primitive checks, once all wires are set. -/
def Holds (final : SetupRomPortalManager F) : PrimitiveSubcircuit → Prop
  | .equalityPrimitive eq => ∀ addr1 addr2,
      NodeAddressBytes.bytesToNodeAddress eq.addr1 = .ok addr1 →
      NodeAddressBytes.bytesToNodeAddress eq.addr2 = .ok addr2 →
      valueOf final addr1.toName = valueOf final addr2.toName
  | _ => True

/-- The body follows the effect: the manager ends alike, and its constraints hold where the
final values pass the checks. -/
structure Follows (vars : List (Variable F D)) (body : Program F D Unit)
    (checks : SetupRomPortalManager F → Prop) (state state' : NativeState F) : Prop where
  agrees : Agrees state'
  grows : Extends state.pm state'.pm
  decides : ∀ final, Extends state'.pm final → ∀ more,
    Decides (vars ++ more) (body.run state.pm) (checks final) fun _ r => r.2 = state'.pm

variable {vars : List (Variable F D)}

omit [PrimeField F] in
/-- The constraints at the place where the body starts. -/
theorem Follows.now {body : Program F D Unit} {checks : SetupRomPortalManager F → Prop}
    (follows : Follows vars body checks state state') {final : SetupRomPortalManager F}
    (later : Extends state'.pm final) :
    Decides vars (body.run state.pm) (checks final) fun _ r => r.2 = state'.pm := by
  have here := follows.decides final later []
  rwa [List.append_nil] at here

omit [PrimeField F] in
/-- Two bodies, one after the other. -/
theorem Follows.seq {body body' : Program F D Unit} {checks checks' : SetupRomPortalManager F → Prop}
    {state₁ : NativeState F} (first : Follows vars body checks state state₁)
    (rest : Follows vars body' checks' state₁ state') :
    Follows vars (body >>= fun _ => body') (fun final => checks final ∧ checks' final)
      state state' where
  agrees := rest.agrees
  grows := first.grows.trans rest.grows
  decides final later more := by
    rw [run_bind]
    apply (first.decides final (rest.grows.trans later) more).bind
    rintro more' ⟨_, pm⟩ rfl
    rw [List.append_assoc]
    exact rest.decides final later (more ++ more')

omit [PrimeField F] in
theorem Follows.congr {body : Program F D Unit} {checks checks' : SetupRomPortalManager F → Prop}
    (follows : Follows vars body checks state state') (same : ∀ final, checks final ↔ checks' final) :
    Follows vars body checks' state state' where
  agrees := follows.agrees
  grows := follows.grows
  decides final later more := (follows.decides final later more).congr (same final)

omit [PrimeField F] in
theorem Follows.skip (agrees : Agrees state) :
    Follows vars (pure () : Program F D Unit) (fun _ => True) state state :=
  ⟨agrees, fun _ _ known => known, fun _ _ _ => .pure rfl⟩

section Loops
variable {ι : Type} {effect : NativeState F → ι → Outcome (NativeState F)} {l : List ι}

omit [PrimeField F] [DecidableEq F] in
/-- Rounds that keep the memories and the wires alike. -/
theorem foldlM_agrees (each : ∀ i ∈ l, ∀ state state', effect state i = .ok state' →
      Agrees state → Agrees state' ∧ Extends state.pm state'.pm)
    (ran : l.foldlM effect state = .ok state') (agrees : Agrees state) :
    Agrees state' ∧ Extends state.pm state'.pm := by
  induction l generalizing state with
  | nil =>
    cases ran
    exact ⟨agrees, fun _ _ known => known⟩
  | cons i l ih =>
    obtain ⟨state₁, first, rest⟩ := Outcomes.bind_eq_ok.mp ran
    obtain ⟨agrees₁, grows₁⟩ := each i List.mem_cons_self state state₁ first agrees
    have later := ih (fun j member => each j (List.mem_cons_of_mem i member)) rest agrees₁
    exact ⟨later.1, grows₁.trans later.2⟩

omit [PrimeField F] in
/-- A loop whose every round follows its effect. -/
theorem forEach_follows {body : ι → Program F D Unit} {checks : SetupRomPortalManager F → ι → Prop}
    (each : ∀ i ∈ l, ∀ state state', effect state i = .ok state' → Agrees state →
      Follows vars (body i) (fun final => checks final i) state state')
    (ran : l.foldlM effect state = .ok state') (agrees : Agrees state) :
    Follows vars (forEach l body) (fun final => ∀ i ∈ l, checks final i) state state' := by
  induction l generalizing state with
  | nil =>
    cases ran
    apply (Follows.skip agrees).congr
    exact fun final => iff_of_true trivial fun i member => absurd member List.not_mem_nil
  | cons i l ih =>
    obtain ⟨state₁, first, rest⟩ := Outcomes.bind_eq_ok.mp ran
    have here := each i List.mem_cons_self state state₁ first agrees
    have later := ih (fun j member => each j (List.mem_cons_of_mem i member)) rest here.agrees
    exact (here.seq later).congr fun final => List.forall_mem_cons.symm

end Loops

omit [PrimeField F] in
theorem setRoot_follows {name : String} {digest : InnerHash}
    (ran : nodeEffect state name digest = .ok state') (agrees : Agrees state) :
    Follows vars (setRoot name digest) (fun _ => True) state state' := by
  obtain ⟨set, agrees', grows⟩ := nodeEffect_eq_ok ran agrees
  refine ⟨agrees', grows, fun _ _ more => ?_⟩
  apply decides_lift (newWitnessVec_decides digest.toList)
  intro more vs bytes
  exact decides_set_last (digestToFpvar_valued bytes) set

theorem hashLeaf_follows {h : HashLeafPrimitive}
    (ran : primitiveEffect p c state (.hashLeafPrimitive h) = .ok state') (agrees : Agrees state) :
    Follows vars (hashLeafConstraints p h) (fun _ => True) state state' := by
  obtain ⟨set, agrees', grows⟩ := nodeEffect_eq_ok ran agrees
  refine ⟨agrees', grows, fun _ _ more => ?_⟩
  apply decides_lift (newWitnessVec_decides h.leaf.toList)
  intro more vs bytes
  have nonempty : vs ≠ [] := by
    intro empty
    have count := bytes.length
    rw [empty, h.leaf.toList_length] at count
    cases count
  obtain ⟨w, run, value⟩ := hashLeafVar_computes (p := p) nonempty
  apply decides_lift (Decides.computes run)
  rintro more' _ ⟨rfl, same⟩
  rw [same]
  refine decides_set_last (fun rest => ?_) set
  rw [value, bytes rest]

omit [PrimeField F] in
theorem equality_follows {eq : EqualityPrimitive}
    (ran : equalityEffect state eq = .ok state') (agrees : Agrees state) :
    Follows vars (equalityConstraints eq) (fun final => Holds final (.equalityPrimitive eq))
      state state' := by
  obtain ⟨addr1, read1, rest⟩ := Outcomes.bind_eq_ok.mp ran
  obtain ⟨addr2, read2, rest⟩ := Outcomes.bind_eq_ok.mp rest
  obtain ⟨⟨v₁, pm₁⟩, got₁, rest⟩ := Outcomes.bind_eq_ok.mp rest
  obtain ⟨⟨v₂, pm₂⟩, got₂, same⟩ := Outcomes.bind_eq_ok.mp rest
  cases same
  have grows := (Extends.of_get got₁).trans (Extends.of_get got₂)
  refine ⟨agrees.extend grows, grows, fun final later more => ?_⟩
  have known₁ := later _ _ (grows _ _ (getValue_eq_ok got₁).1)
  have known₂ := later _ _ ((Extends.of_get got₂) _ _ (getValue_eq_ok got₂).1)
  have checks : v₁ = v₂ ↔ Holds final (.equalityPrimitive eq) := by
    constructor
    · rintro rfl a b first second
      cases read1.symm.trans first
      cases read2.symm.trans second
      rw [known₁, known₂]
    · intro holds
      have equal := holds addr1 addr2 read1 read2
      rw [known₁, known₂] at equal
      exact Option.some.inj equal
  apply decides_call read1
  apply decides_call read2
  apply decides_get got₁
  intro more₁ w₁ hw₁
  apply decides_get got₂
  intro more₂ w₂ hw₂
  have last := Decides.enforceEqual (hw₁.mono more₂) hw₂
  have whole : Decides (vars ++ more ++ more₁ ++ more₂)
      ((Program.lift (Synth.enforceEqual w₁ w₂)).run pm₂) (v₁ = v₂ ∧ True)
      fun _ r => r.2 = pm₂ := last.bind fun _ _ _ => .pure rfl
  exact whole.congr (by rw [and_true]; exact checks)

/-- The pieces of the index, cut from the bits of the hash. -/
theorem getIndex_follows {ind : GetIndexPrimitive}
    (ran : primitiveEffect p c state (.getIndexPrimitive ind) = .ok state')
    (agrees : Agrees state) :
    Follows vars (getIndexConstraints p ind) (fun _ => True) state state' := by
  have each : ∀ i ∈ List.range splitFactor, ∀ state state',
      indexEffect p ind.leaf state i = .ok state' → Agrees state →
        Agrees state' ∧ Extends state.pm state'.pm :=
    fun i _ state state' step known => (indexEffect_eq_ok step known).2
  obtain ⟨agrees', grows⟩ := foldlM_agrees each ran agrees
  refine ⟨agrees', grows, fun final later more => ?_⟩
  apply decides_lift (newWitnessVec_decides (ind.leaf.toList.take 32))
  intro more₁ leafVar bytes
  have nonempty : leafVar ≠ [] := by
    intro empty
    have count := bytes.length
    rw [empty, List.length_take, ind.leaf.toList_length] at count
    cases count
  obtain ⟨digest, run, count, value⟩ := hashVar_computes (p := p) nonempty
  apply decides_lift (Decides.computes run)
  rintro more₂ vs ⟨here, same⟩
  rw [here, same]
  have low : ((toBits digest).take DEPTH).length = 128 := by
    rw [List.length_take, toBits_length, count]
    rfl
  apply decides_call (split_pieces low)
  apply decides_call rfl
  have round : ∀ i ∈ List.range splitFactor, ∀ state state',
      indexEffect p ind.leaf state i = .ok state' → Agrees state →
        Follows (vars ++ more ++ more₁)
          (call (expect Coordinator.outOfBounds
              ((List.range splitFactor).map (piece ((toBits digest).take DEPTH)))[i]?) >>= fun bits =>
            Program.portalSet (IndexAddress.toName ⟨UInt64.ofNat i, ind.leaf⟩)
              (leBitsToFpVar 1 bits)) (fun _ => True) state state' := by
    intro i inside state state' step known
    have below : i < splitFactor := List.mem_range.mp inside
    obtain ⟨set, agrees', grows⟩ := indexEffect_eq_ok step known
    refine ⟨agrees', grows, fun _ _ rest => ?_⟩
    apply decides_call (a := piece ((toBits digest).take DEPTH) i)
    · rw [List.getElem?_map, List.getElem?_range below]
      rfl
    · refine decides_set_last (fun rest' => ?_) set
      have known := (bytes.mono rest) rest'
      have number := values_piece ((value _).trans (congrArg _ known)) (VkdHash.hash_length ..) below
      rw [leBitsToFpVar_eval, one_mul, number, toNat_bitsOf, Nat.mod_mod, indexPiece]
  have loop := (forEach_follows round ran agrees).now later
  exact loop.congr (iff_of_true (fun _ _ => trivial) trivial)

/-- The lowest bits of an index wire are the sides of a path, from some level on. -/
theorem bitWires_valued {w : Wire F D .field} {n : Nat} (hw : Valued vars w (n : F))
    (small : n < PrimeField.modulus F) (path : List InnerHash) (k : Nat) :
    List.Forall₂ (fun w level => Valued vars w level.1)
      ((List.range' k path.length).map (bitWire w)) (levelsOf (n / 2 ^ k) path) := by
  induction path generalizing k with
  | nil => exact .nil
  | cons sibling path ih =>
    have half : n / 2 ^ k / 2 = n / 2 ^ (k + 1) := by
      rw [Nat.pow_succ, Nat.div_div_eq_div_mul]
    rw [List.length_cons, List.range'_succ, List.map_cons, levelsOf, half]
    apply List.Forall₂.cons _ (ih (k + 1))
    have bit := hw.call (l := .bool) (bitAt k)
    rw [bitAt, PrimeField.intoBigint_natCast n small, Nat.testBit_eq_decide_div_mod_eq] at bit
    exact bit

omit [Field F] [PrimeField F] [DecidableEq F] [Inhabited D] [DecidableEq D] in
theorem forall₂_levelsOf {α : Type} {R : α → InnerHash → Prop} {ws : List α}
    {siblings : List InnerHash} (all : List.Forall₂ R ws siblings) (n : Nat) :
    List.Forall₂ (fun w level => R w level.2) ws (levelsOf n siblings) := by
  induction all generalizing n with
  | nil => exact .nil
  | cons first _ ih => exact .cons first (ih (n / 2))

/-- A piece of a path, along the bits of its index wire. -/
theorem computePath_follows {path : ComputePathPrimitive}
    (ran : pathEffect p state path = .ok state') (agrees : Agrees state) :
    Follows vars (computePathConstraints (hashInnerNodeVar p) path) (fun _ => True)
      state state' := by
  obtain ⟨start, read, rest⟩ := Outcomes.bind_eq_ok.mp ran
  obtain ⟨index, foundIndex, rest⟩ := Outcomes.bind_eq_ok.mp rest
  obtain ⟨initialValue, foundNode, rest⟩ := Outcomes.bind_eq_ok.mp rest
  obtain ⟨⟨v₁, pm₁⟩, got₁, rest⟩ := Outcomes.bind_eq_ok.mp rest
  obtain ⟨⟨v₂, pm₂⟩, got₂, rest⟩ := Outcomes.bind_eq_ok.mp rest
  obtain ⟨root, climbs, rest⟩ := Outcomes.bind_eq_ok.mp rest
  obtain ⟨target, read', inserted⟩ := Outcomes.bind_eq_ok.mp rest
  rw [expect_eq_ok] at foundIndex foundNode
  have grows₂ := (Extends.of_get got₁).trans (Extends.of_get got₂)
  obtain ⟨set, agrees', grows⟩ := nodeEffect_eq_ok inserted (agrees.extend grows₂)
  refine ⟨agrees', grows₂.trans grows, fun _ _ more => ?_⟩
  obtain ⟨n, small, rfl, number⟩ := agrees.indices _ _ foundIndex
  have value₁ : v₁ = innerHashToField initialValue :=
    Option.some.inj ((getValue_eq_ok got₁).1.symm.trans (agrees.nodes _ _ foundNode))
  have value₂ : v₂ = (n : F) := by
    have known := Extends.of_get got₁ _ _ number
    exact Option.some.inj ((getValue_eq_ok got₂).1.symm.trans known)
  rw [← toBitVector_eq, computeRoot_eq (nodeDigest_internal initialValue)] at climbs
  by_cases short : path.path.path.length ≤ 32
  · rw [if_pos short] at climbs
    have below : n < PrimeField.modulus F := by
      have large : 2 ^ 254 < PrimeField.modulus F := PrimeField.large
      have power : 2 ^ 32 < 2 ^ 254 := by decide
      omega
    apply decides_call read
    apply decides_get got₁
    intro more₁ w₁ hw₁
    apply decides_get got₂
    intro more₂ w₂ hw₂
    apply decides_lift (Decides.computes (fpvarToBooleanIndex_computes w₂))
    rintro more₃ _ ⟨rfl, same⟩
    rw [same]
    apply decides_lift (newPath_decides path.path)
    intro more₄ pathVar siblings
    rw [value₁] at hw₁
    rw [value₂] at hw₂
    have bits := bitWires_valued (hw₂.mono more₄) below path.path.path 0
    have count := siblings.length_eq
    rw [pow_zero, Nat.div_one, ← List.range_eq_range'] at bits
    have climb := climbVar_decides (p := p) bits (forall₂_levelsOf siblings n)
      ((hw₁.mono more₂).mono more₄)
    have fewer : ((List.range pathLength).map (bitWire w₂)).take pathVar.path.length =
        (List.range path.path.path.length).map (bitWire w₂) := by
      rw [← List.map_take, List.take_range, count, Nat.min_eq_left short]
    rw [MerkleTreePathVar.computeRootVarFromInternalNode, climbVar_take, fewer]
    apply decides_lift climb
    intro more₅ w hw
    apply decides_call read'
    rw [← hashing_inner, Except.ok.inj climbs] at hw
    exact decides_set_last hw set
  · rw [if_neg short] at climbs
    cases climbs

theorem writePublicParameter_follows
    (ran : primitiveEffect p c state .writePublicParameterPrimitive = .ok state')
    (agrees : Agrees state) :
    Follows vars (writePublicParameterConstraints c) (fun _ => True) state state' := by
  obtain ⟨state₁, first, rest⟩ := Outcomes.bind_eq_ok.mp ran
  obtain ⟨state₂, second, third⟩ := Outcomes.bind_eq_ok.mp rest
  have initial : Follows vars _ _ _ _ := setRoot_follows first agrees
  have final : Follows vars _ _ _ _ := setRoot_follows second initial.agrees
  have null : Follows vars _ _ _ _ := setRoot_follows third final.agrees
  exact (initial.seq (final.seq null)).congr fun _ => by simp only [and_true]

theorem primitive_follows {primitive : PrimitiveSubcircuit}
    (ran : primitiveEffect p c state primitive = .ok state') (agrees : Agrees state) :
    Follows vars (primitiveConstraints p (hashInnerNodeVar p) c primitive)
      (fun final => Holds final primitive) state state' := by
  cases primitive with
  | equalityPrimitive eq => exact equality_follows ran agrees
  | getIndexPrimitive ind => exact getIndex_follows ran agrees
  | computePathPrimitive path => exact computePath_follows ran agrees
  | hashLeafPrimitive h => exact hashLeaf_follows ran agrees
  | writePublicParameterPrimitive => exact writePublicParameter_follows ran agrees
  | paddingPrimitive =>
    cases ran
    exact Follows.skip agrees

theorem subcircuit_follows {subcircuit : SubCircuit}
    (ran : subcircuitEffect p c state subcircuit = .ok state') (agrees : Agrees state) :
    Follows vars (subcircuitConstraints p (hashInnerNodeVar p) c subcircuit)
      (fun final => ∀ primitive ∈ subcircuit.compoundPrimitiveVec, Holds final primitive)
      { state with pm := state.pm.startSubtrace } state' :=
  forEach_follows (fun _ _ _ _ step known => primitive_follows step known) ran
    (agrees.extend fun _ _ known => known)

/-- All subcircuits in order: the setup manager ends as the native one, and the constraints
hold where every equality compares wires of one value. -/
theorem recordBodies_follows {bodies : List (Program F D Unit)} {subcircuits : List SubCircuit}
    (runs : List.Forall₂ (fun body subcircuit => ∀ pm : SetupRomPortalManager F, body.run pm =
      (subcircuitConstraints p (hashInnerNodeVar p) c subcircuit).run pm) bodies subcircuits)
    (ran : subcircuits.foldlM (subcircuitEffect p c) state = .ok state') (agrees : Agrees state) :
    Agrees state' ∧ Extends state.pm state'.pm ∧
      ∀ final, Extends state'.pm final → ∀ vars, Decides vars (recordBodies bodies state.pm)
        (∀ subcircuit ∈ subcircuits, ∀ primitive ∈ subcircuit.compoundPrimitiveVec,
          Holds final primitive) fun _ r => r = state'.pm := by
  induction runs generalizing state with
  | nil =>
    cases ran
    refine ⟨agrees, fun _ _ known => known, fun final _ vars => ?_⟩
    have nothing : Decides vars (recordBodies ([] : List (Program F D Unit)) state'.pm) True
        fun _ r => r = state'.pm := .pure rfl
    exact nothing.congr (iff_of_true trivial fun i member => absurd member List.not_mem_nil)
  | @cons body subcircuit bodies subcircuits same _ ih =>
    obtain ⟨state₁, first, rest⟩ := Outcomes.bind_eq_ok.mp ran
    have here : Follows ([] : List (Variable F D)) _ _ _ _ := subcircuit_follows first agrees
    obtain ⟨agrees', grows, decides⟩ := ih rest here.agrees
    refine ⟨agrees', here.grows.trans grows, fun final later vars => ?_⟩
    have both : Decides vars (recordBodies (body :: bodies) state.pm)
        ((∀ primitive ∈ subcircuit.compoundPrimitiveVec, Holds final primitive) ∧
          ∀ subcircuit ∈ subcircuits, ∀ primitive ∈ subcircuit.compoundPrimitiveVec,
            Holds final primitive) fun _ r => r = state'.pm := by
      rw [recordBodies, same]
      apply (here.decides final (grows.trans later) vars).bind
      rintro more ⟨_, pm⟩ rfl
      exact decides final later _
    exact both.congr (by rw [List.forall_mem_cons])

omit [PrimeField F] [DecidableEq F] in
theorem agrees_new : Agrees (NativeState.new : NativeState F) :=
  ⟨fun _ _ known => (nomatch known), fun _ _ known => (nomatch known)⟩

/-- The native trace goes through exactly where its effects do. -/
theorem getPortalSubtraces_eq_ok {checks : Bool}
    {traces : List (List (TranscriptEntry F .rom))} :
    getPortalSubtraces p checks D c = .ok traces ↔ ∃ subcircuits state,
      vkdUpdateToSubcircuit checks c.update = .ok subcircuits ∧
      subcircuits.foldlM (subcircuitEffect p c) .new = .ok state ∧
      state.pm.subtraces = traces := by
  rw [getPortalSubtraces, Outcomes.bind_eq_ok]
  constructor
  · rintro ⟨subcircuits, laid, rest⟩
    obtain ⟨r, run, same⟩ := Outcomes.bind_eq_ok.mp rest
    cases same
    obtain ⟨state, ran, rfl⟩ := (native_mirrors (D := D) c subcircuits .new).result run
    exact ⟨subcircuits, r.1, laid, ran, rfl⟩
  · rintro ⟨subcircuits, state, laid, ran, rfl⟩
    obtain ⟨a, e, run, _, rfl⟩ :=
      (native_mirrors (D := D) c subcircuits .new).runs state ran
    exact ⟨subcircuits, laid, Outcomes.bind_eq_ok.mpr ⟨_, run, rfl⟩⟩

theorem generateConstraints_runs (c : VerifiableKeyDirectoryCircuit) :
    List.Forall₂ (fun body subcircuit => ∀ pm : SetupRomPortalManager F, body.run pm =
        (subcircuitConstraints (D := D) p (hashInnerNodeVar p) c subcircuit).run pm)
      ((List.range c.subcircuits.length).map (generateConstraints p c)) c.subcircuits := by
  rw [List.forall₂_iff_get]
  refine ⟨by rw [List.length_map, List.length_range], fun i inside inside' pm => ?_⟩
  simp only [List.get_eq_getElem, List.getElem_map, List.getElem_range]
  rw [generateConstraints, generateConstraintsWith, List.getElem?_eq_getElem inside', expect_some]
  exact pure_bind _ _

/-- What the setup manager records in order, where the native effects go through. -/
theorem constraints_follow
    (ran : c.subcircuits.foldlM (subcircuitEffect p c) .new = .ok state') :
    Agrees state' ∧ Decides [] (recordBodies (D := D)
      ((List.range c.subcircuits.length).map (generateConstraints p c)) SetupRomPortalManager.new)
        (∀ subcircuit ∈ c.subcircuits, ∀ primitive ∈ subcircuit.compoundPrimitiveVec,
          Holds state'.pm primitive) fun _ r => r = state'.pm := by
  obtain ⟨agrees, _, decides⟩ :=
    recordBodies_follows (generateConstraints_runs (D := D) (p := p) c) ran agrees_new
  exact ⟨agrees, decides state'.pm (fun _ _ known => known) []⟩

/-- Cut into pieces as bytes or as bits, an index gives the same elements, and the bits of a
piece's wire are the sides that the native bits are not. -/
def SplitsAgree (F D : Type) [Field F] [PrimeField F] [DecidableEq F] [DecidableEq D] : Prop :=
  ∀ (z : Assignment F D) (vs : List (UInt8Var F D)) (bytes : List UInt8),
    bytesValue z vs = bytes → bytes.length = 32 → ∀ i < splitFactor, ∀ w : Wire F D .field,
      w.eval z = (leBitsToFpVar 1 (piece ((toBits vs).take DEPTH) i)).eval z →
      w.eval z = fromLeBytesModOrder (((bytes.take (DEPTH / 8)).drop (4 * i)).take 4) ∧
      values z ((List.range pathLength).map (bitWire w)) =
        (piece (MerkleIndex.toBitVector ⟨fromLittleEndian (bytes.take (DEPTH / 8)), DEPTH⟩) i).map
          (! ·)

omit [Inhabited D] in
theorem splitsAgree : SplitsAgree F D := by
  intro z vs bytes value size i inside w same
  have number := values_piece value size inside
  have low : (bytes.take 16).length = 16 := by
    rw [List.length_take, size]
    rfl
  have small : fromLittleEndian (bytes.take 16) / 2 ^ (32 * i) % 2 ^ 32 < PrimeField.modulus F := by
    have large : 2 ^ 254 < PrimeField.modulus F := PrimeField.large
    have below := Nat.mod_lt (fromLittleEndian (bytes.take 16) / 2 ^ (32 * i)) (Nat.two_pow_pos 32)
    have power : 2 ^ 32 < 2 ^ 254 := by decide
    omega
  rw [leBitsToFpVar_eval, one_mul, number, toNat_bitsOf, Nat.mod_mod] at same
  constructor
  · rw [same, fromLeBytesModOrder]
    exact congrArg Nat.cast (bytes_piece low inside).symm
  · rw [values_bitWires, same, PrimeField.intoBigint_natCast _ small, toBitVector_eq,
      evenBits_piece inside, evenBits, List.map_map]
    have twice : ((! ·) ∘ (! ·) : Bool → Bool) = id := funext Bool.not_not
    rw [twice, List.map_id]
    rfl

/-- The native trace is the trace that the constraints record. -/
theorem constraintSubtraces_of_native {checks : Bool}
    {traces : List (List (TranscriptEntry F .rom))}
    (subcircuits : vkdUpdateToSubcircuit checks c.update = .ok c.subcircuits)
    (native : getPortalSubtraces p checks D c = .ok traces) :
    constraintSubtraces p D c = .ok traces ∧ SplitsAgree F D := by
  obtain ⟨laid, state, same, ran, rfl⟩ := getPortalSubtraces_eq_ok.mp native
  cases subcircuits.symm.trans same
  obtain ⟨_, decides⟩ := constraints_follow (D := D) ran
  obtain ⟨a, e, run, _, rfl⟩ := decides
  refine ⟨?_, splitsAgree⟩
  rw [constraintSubtraces, run]
  rfl

end Followed

/-- One user appended along a path of zeros. -/
def oneAppend : VerifiableKeyDirectoryCircuit :=
  let us := [Update.append ⟨byteArray 32 1, byteArray 32 2, ⟨.replicate DEPTH (byteArray 27 0)⟩⟩]
  ⟨byteArray 27 0, ⟨4, byteArray 27 0⟩, byteArray 27 0, us, layout us⟩

theorem oneAppend_traced : ∃ traces, constraintSubtraces linearPoseidon Unit oneAppend = .ok traces ∧
    SplitsAgree Bls12381Fr Unit := by
  have fits : ∀ u ∈ oneAppend.update, u.CounterFits true := by
    intro u listed
    cases List.mem_singleton.mp listed
    exact trivial
  have laid : vkdUpdateToSubcircuit true oneAppend.update = .ok oneAppend.subcircuits :=
    vkdUpdateToSubcircuit_eq_ok.mpr ⟨fits, fun _ => List.cons_ne_nil _ _, rfl⟩
  have native := eq_ok_result (o := getPortalSubtraces linearPoseidon true Unit oneAppend)
    (by decide +kernel)
  exact ⟨_, constraintSubtraces_of_native laid native⟩

end VkdAgreement
