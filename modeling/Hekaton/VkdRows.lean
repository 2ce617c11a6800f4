import Hekaton.KeyReuse
import Hekaton.TreeHashTraces
import Hekaton.VkdAgreement
import Mathlib

/-!
# Rows of the key directory's primitives

Two primitives of one kind emit the same rows, whatever their leaves, keys, addresses and
siblings are: pieces of paths count by their lengths only. Each makes as many portal calls
as the native trace adds entries for it.
-/

namespace VkdRows

open Outcomes Wires Synthesis Contracts Transcript PortalManager Uint32 PrimeFields FieldGadgets
open HonestRuns SparseTree KeyDirectory VkdCircuits VkdGadgets VkdSubcircuits VkdTraces
open VkdAgreement KeyReuse
open VkdHash (InnerHash Poseidon)
open TreeHashTraces (Pushes Grows Adds)

/-- Primitives of one kind, with addresses that are read back and pieces of one length. -/
inductive SameKind : PrimitiveSubcircuit → PrimitiveSubcircuit → Prop
  | equality (k k' : UInt64) (a b a' b' : NodeAddress) :
      SameKind (equalityOp k a b) (equalityOp k' a' b')
  | getIndex (ind ind' : GetIndexPrimitive) :
      SameKind (.getIndexPrimitive ind) (.getIndexPrimitive ind')
  | computePath {op op' : ComputePathPrimitive} {a b a' b' : NodeAddress}
      (start : op.initialValueAddr = .nodeAddressToBytes a)
      (target : op.finalValueAddr = .nodeAddressToBytes b)
      (start' : op'.initialValueAddr = .nodeAddressToBytes a')
      (target' : op'.finalValueAddr = .nodeAddressToBytes b')
      (size : op.path.path.length = op'.path.path.length) :
      SameKind (.computePathPrimitive op) (.computePathPrimitive op')
  | hashLeaf (h h' : HashLeafPrimitive) : SameKind (.hashLeafPrimitive h) (.hashLeafPrimitive h')
  | padding : SameKind .paddingPrimitive .paddingPrimitive
  | publicParameter : SameKind .writePublicParameterPrimitive .writePublicParameterPrimitive

/-- The portal calls of a primitive. -/
def callCount : PrimitiveSubcircuit → Nat
  | .equalityPrimitive _ => 2
  | .getIndexPrimitive _ => splitFactor
  | .computePathPrimitive _ => 3
  | .hashLeafPrimitive _ => 1
  | .paddingPrimitive => 0
  | .writePublicParameterPrimitive => 3

def callsOf (subcircuit : SubCircuit) : Nat :=
  (subcircuit.compoundPrimitiveVec.map callCount).sum

theorem SameKind.symm {primitive primitive' : PrimitiveSubcircuit}
    (same : SameKind primitive primitive') : SameKind primitive' primitive := by
  cases same with
  | equality k k' a b a' b' => exact .equality k' k a' b' a b
  | getIndex ind ind' => exact .getIndex ind' ind
  | computePath start target start' target' size =>
    exact .computePath start' target' start target size.symm
  | hashLeaf h h' => exact .hashLeaf h' h
  | padding => exact .padding
  | publicParameter => exact .publicParameter

theorem SameKind.callCount_eq {primitive primitive' : PrimitiveSubcircuit}
    (same : SameKind primitive primitive') : callCount primitive = callCount primitive' := by
  cases same <;> rfl

theorem callsOf_eq {s s' : SubCircuit}
    (same : List.Forall₂ SameKind s.compoundPrimitiveVec s'.compoundPrimitiveVec) :
    callsOf s = callsOf s' := by
  have counts : List.Forall₂ (· = ·) (s.compoundPrimitiveVec.map callCount)
      (s'.compoundPrimitiveVec.map callCount) := by
    rw [List.forall₂_map_left_iff, List.forall₂_map_right_iff]
    exact same.imp fun _ _ => SameKind.callCount_eq
  rw [List.forall₂_eq_eq_eq] at counts
  rw [callsOf, callsOf, counts]

section Rows
variable {F D : Type} [Field F] [PrimeField F] [DecidableEq F] [Inhabited D] [DecidableEq D]
variable {p : Poseidon F} {c c' : VerifiableKeyDirectoryCircuit}

omit [PrimeField F] [DecidableEq F] [Inhabited D] [DecidableEq D] in
/-- A call that returns goes on with its result. -/
theorem call_bind {α β γ δ : Type} {o : Outcome α} {o' : Outcome β} {a : α} {b : β} {n : Nat}
    {f : α → Program F D γ} {f' : β → Program F D δ} {S : γ → δ → Prop} (here : o = .ok a)
    (there : o' = .ok b) (rest : Alike .rom n (f a) (f' b) S) :
    Alike .rom n (call o >>= f) (call o' >>= f') S := by
  apply Alike.lift_bind (Parallel.lift (R := fun x y => x = a ∧ y = b) here there ⟨rfl, rfl⟩)
  rintro _ _ ⟨rfl, rfl⟩
  exact rest

omit [PrimeField F] [DecidableEq F] [Inhabited D] [DecidableEq D] in
/-- A loop over two lists whose bodies are alike item by item. -/
theorem forEach_alike {ι : Type} {l l' : List ι} {body body' : ι → Program F D Unit}
    {count : ι → Nat} (each : List.Forall₂ (fun i j => Alike .rom (count i) (body i) (body' j)
      fun _ _ => True) l l') :
    Alike .rom (l.map count).sum (forEach l body) (forEach l' body') fun _ _ => True := by
  induction each with
  | nil => exact .done trivial
  | cons first _ ih =>
    rw [List.map_cons, List.sum_cons]
    exact first.bind fun _ _ _ => ih

omit [PrimeField F] [Inhabited D] in
theorem setRoot_alike (name : String) (digest digest' : InnerHash) :
    Alike .rom 1 (setRoot (F := F) (D := D) name digest) (setRoot name digest')
      fun _ _ => True := by
  apply Alike.lift_bind (newWitnessVec_parallel
    (digest.toList_length.trans digest'.toList_length.symm))
  rintro vs _ ⟨rfl, _⟩
  exact Alike.set _ _ _

omit [Inhabited D] in
theorem hashLeaf_alike (h h' : HashLeafPrimitive) :
    Alike .rom 1 (hashLeafConstraints (D := D) p h) (hashLeafConstraints p h')
      fun _ _ => True := by
  apply Alike.lift_bind (newWitnessVec_parallel
    (h.leaf.toList_length.trans h'.leaf.toList_length.symm))
  rintro vs _ ⟨rfl, size⟩
  have nonempty : vs ≠ [] := by
    rintro rfl
    rw [h.leaf.toList_length] at size
    cases size
  obtain ⟨w, computes, _⟩ := hashLeafVar_computes (p := p) nonempty
  apply Alike.lift_bind computes.parallel
  rintro _ _ ⟨rfl, rfl⟩
  exact Alike.set _ _ _

theorem equality_alike (k k' : UInt64) (a b a' b' : NodeAddress) :
    Alike .rom 2 (primitiveConstraints (D := D) p (hashInnerNodeVar p) c (equalityOp k a b))
      (primitiveConstraints p (hashInnerNodeVar p) c' (equalityOp k' a' b'))
      fun _ _ => True := by
  apply call_bind (NodeAddressBytes.bytesToNodeAddress_nodeAddressToBytes a)
    (NodeAddressBytes.bytesToNodeAddress_nodeAddressToBytes a')
  apply call_bind (NodeAddressBytes.bytesToNodeAddress_nodeAddressToBytes b)
    (NodeAddressBytes.bytesToNodeAddress_nodeAddressToBytes b')
  change Alike .rom (1 + (1 + 0)) _ _ _
  apply (Alike.get (m := .rom) a.toName a'.toName).bind
  rintro value1 _ rfl
  apply (Alike.get (m := .rom) b.toName b'.toName).bind
  rintro value2 _ rfl
  exact (Alike.lift (Parallel.emit _)).mono fun _ _ _ => trivial

omit [Inhabited D] in
theorem getIndex_alike (ind ind' : GetIndexPrimitive) :
    Alike .rom splitFactor (getIndexConstraints (D := D) p ind) (getIndexConstraints p ind')
      fun _ _ => True := by
  have user (leaf : Leaf) : (leaf.toList.take 32).length = 32 := by
    rw [List.length_take, leaf.toList_length]
    rfl
  apply Alike.lift_bind (newWitnessVec_parallel ((user ind.leaf).trans (user ind'.leaf).symm))
  rintro vs _ ⟨rfl, size⟩
  have nonempty : vs ≠ [] := by
    rintro rfl
    rw [user] at size
    cases size
  obtain ⟨_, computes, _, _⟩ := hashVar_computes (p := p) nonempty
  apply Alike.lift_bind computes.parallel
  rintro _ hashed ⟨rfl, rfl⟩
  apply call_bind (split_four _) (split_four _)
  apply call_bind rfl rfl
  have each : ∀ i ∈ List.range splitFactor, Alike .rom 1
      (call (F := F) (D := D) (expect Coordinator.outOfBounds
        (quarters ((toBits hashed).take DEPTH))[i]?) >>= fun bits =>
          Program.portalSet (IndexAddress.toName ⟨UInt64.ofNat i, ind.leaf⟩)
            (leBitsToFpVar 1 bits))
      (call (expect Coordinator.outOfBounds (quarters ((toBits hashed).take DEPTH))[i]?) >>=
        fun bits => Program.portalSet (IndexAddress.toName ⟨UInt64.ofNat i, ind'.leaf⟩)
          (leBitsToFpVar 1 bits)) fun _ _ => True := by
    intro i inside
    have below : i < (quarters ((toBits hashed).take DEPTH)).length := List.mem_range.mp inside
    apply call_bind (by rw [List.getElem?_eq_getElem below, expect_some])
      (by rw [List.getElem?_eq_getElem below, expect_some])
    exact Alike.set _ _ _
  have loop : Alike .rom ((List.range splitFactor).map fun _ => 1).sum _ _ _ :=
    forEach_alike (List.forall₂_same.mpr each)
  exact loop

theorem computePath_alike {op op' : ComputePathPrimitive} {a b a' b' : NodeAddress}
    (start : op.initialValueAddr = .nodeAddressToBytes a)
    (target : op.finalValueAddr = .nodeAddressToBytes b)
    (start' : op'.initialValueAddr = .nodeAddressToBytes a')
    (target' : op'.finalValueAddr = .nodeAddressToBytes b')
    (size : op.path.path.length = op'.path.path.length) :
    Alike .rom 3 (computePathConstraints (D := D) (hashInnerNodeVar p) op)
      (computePathConstraints (hashInnerNodeVar p) op') fun _ _ => True := by
  rw [computePathConstraints, computePathConstraints, start, target, start', target']
  apply call_bind (NodeAddressBytes.bytesToNodeAddress_nodeAddressToBytes a)
    (NodeAddressBytes.bytesToNodeAddress_nodeAddressToBytes a')
  change Alike .rom (1 + (1 + 1)) _ _ _
  apply (Alike.get (m := .rom) a.toName a'.toName).bind
  rintro initialNode _ rfl
  apply (Alike.get (m := .rom) op.indexAddr.toName op'.indexAddr.toName).bind
  rintro indexFpvar _ rfl
  apply Alike.lift_bind (fpvarToBooleanIndex_computes indexFpvar).parallel
  rintro _ _ ⟨rfl, rfl⟩
  apply Alike.lift_bind (newPath_parallel size)
  rintro pathVar _ rfl
  apply Alike.lift_bind (climbVar_parallel hashInnerNodeVar_parallel _ _ _)
  rintro root _ rfl
  apply call_bind (NodeAddressBytes.bytesToNodeAddress_nodeAddressToBytes b)
    (NodeAddressBytes.bytesToNodeAddress_nodeAddressToBytes b')
  exact Alike.set _ _ _

/-- Primitives of one kind have the same rows and calls. -/
theorem primitive_alike {primitive primitive' : PrimitiveSubcircuit}
    (same : SameKind primitive primitive') : Alike .rom (callCount primitive)
      (primitiveConstraints (D := D) p (hashInnerNodeVar p) c primitive)
      (primitiveConstraints p (hashInnerNodeVar p) c' primitive') fun _ _ => True := by
  cases same with
  | equality k k' a b a' b' => exact equality_alike k k' a b a' b'
  | getIndex ind ind' => exact getIndex_alike ind ind'
  | computePath start target start' target' size =>
    exact computePath_alike start target start' target' size
  | hashLeaf h h' => exact hashLeaf_alike h h'
  | padding => exact .done trivial
  | publicParameter =>
    change Alike .rom (1 + (1 + 1)) _ _ _
    apply (setRoot_alike _ _ _).bind
    intro _ _ _
    apply (setRoot_alike _ _ _).bind
    intro _ _ _
    exact setRoot_alike _ _ _

theorem subcircuit_alike {s s' : SubCircuit}
    (same : List.Forall₂ SameKind s.compoundPrimitiveVec s'.compoundPrimitiveVec) :
    Alike .rom (callsOf s) (subcircuitConstraints (D := D) p (hashInnerNodeVar p) c s)
      (subcircuitConstraints p (hashInnerNodeVar p) c' s') fun _ _ => True :=
  forEach_alike (same.imp fun _ _ => primitive_alike)

theorem generateConstraints_alike {i r : Nat} {s s' : SubCircuit}
    (here : c.subcircuits[i]? = some s) (there : c'.subcircuits[r]? = some s')
    (same : List.Forall₂ SameKind s.compoundPrimitiveVec s'.compoundPrimitiveVec) :
    Alike .rom (callsOf s) (generateConstraints (D := D) p c i) (generateConstraints p c' r)
      fun _ _ => True := by
  have found : expect Coordinator.outOfBounds c.subcircuits[i]? = .ok s := by
    rw [here, expect_some]
  have found' : expect Coordinator.outOfBounds c'.subcircuits[r]? = .ok s' := by
    rw [there, expect_some]
  exact call_bind found found' (subcircuit_alike same)

end Rows

section Lengths
variable {F D : Type} [Field F] [PrimeField F] [DecidableEq F] [Inhabited D] [DecidableEq D]
variable {p : Poseidon F} {c : VerifiableKeyDirectoryCircuit} {state state' : NativeState F}

omit [PrimeField F] [DecidableEq F] in
theorem nodeEffect_grows {name : String} {digest : InnerHash}
    (ran : nodeEffect state name digest = .ok state') : Grows 1 state.pm state'.pm := by
  obtain ⟨pm, set, same⟩ := bind_eq_ok.mp ran
  cases same
  exact .of_set set

omit [DecidableEq F] in
theorem indexEffects_grow {leaf : Leaf} {l : List Nat}
    (ran : l.foldlM (indexEffect p leaf) state = .ok state') :
    Grows l.length state.pm state'.pm := by
  induction l generalizing state with
  | nil =>
    cases ran
    exact ⟨[], rfl, .refl _⟩
  | cons i l ih =>
    obtain ⟨state₁, first, rest⟩ := bind_eq_ok.mp ran
    obtain ⟨pm, set, same⟩ := bind_eq_ok.mp first
    cases same
    rw [List.length_cons, Nat.add_comm]
    exact (Grows.of_set set).trans (ih rest)

omit [DecidableEq F] in
theorem pathEffect_grows {path : ComputePathPrimitive}
    (ran : pathEffect p state path = .ok state') : Grows 3 state.pm state'.pm := by
  obtain ⟨start, _, ran⟩ := bind_eq_ok.mp ran
  obtain ⟨index, _, ran⟩ := bind_eq_ok.mp ran
  obtain ⟨value, _, ran⟩ := bind_eq_ok.mp ran
  obtain ⟨⟨_, pm₁⟩, got, ran⟩ := bind_eq_ok.mp ran
  obtain ⟨⟨_, pm₂⟩, got', ran⟩ := bind_eq_ok.mp ran
  obtain ⟨root, _, ran⟩ := bind_eq_ok.mp ran
  obtain ⟨target, _, ran⟩ := bind_eq_ok.mp ran
  have gets := (Grows.of_get got).trans (.of_get got')
  exact gets.trans (nodeEffect_grows ran)

omit [DecidableEq F] in
/-- A primitive adds an entry for each of its calls. -/
theorem primitiveEffect_grows {primitive : PrimitiveSubcircuit}
    (ran : primitiveEffect p c state primitive = .ok state') :
    Grows (callCount primitive) state.pm state'.pm := by
  cases primitive with
  | equalityPrimitive eq =>
    obtain ⟨addr1, _, ran⟩ := bind_eq_ok.mp ran
    obtain ⟨addr2, _, ran⟩ := bind_eq_ok.mp ran
    obtain ⟨⟨_, pm₁⟩, got, ran⟩ := bind_eq_ok.mp ran
    obtain ⟨⟨_, pm₂⟩, got', same⟩ := bind_eq_ok.mp ran
    cases same
    exact (Grows.of_get got).trans (.of_get got')
  | getIndexPrimitive ind =>
    have sets := indexEffects_grow ran
    rwa [List.length_range] at sets
  | computePathPrimitive path => exact pathEffect_grows ran
  | hashLeafPrimitive h => exact nodeEffect_grows ran
  | paddingPrimitive =>
    cases ran
    exact ⟨[], rfl, .refl _⟩
  | writePublicParameterPrimitive =>
    obtain ⟨state₁, initial, ran⟩ := bind_eq_ok.mp ran
    obtain ⟨state₂, final, null⟩ := bind_eq_ok.mp ran
    have roots := (nodeEffect_grows initial).trans (nodeEffect_grows final)
    exact roots.trans (nodeEffect_grows null)

omit [DecidableEq F] in
theorem primitiveEffects_grow {primitives : List PrimitiveSubcircuit}
    (ran : primitives.foldlM (primitiveEffect p c) state = .ok state') :
    Grows (primitives.map callCount).sum state.pm state'.pm := by
  induction primitives generalizing state with
  | nil =>
    cases ran
    exact ⟨[], rfl, .refl _⟩
  | cons primitive primitives ih =>
    obtain ⟨state₁, first, rest⟩ := bind_eq_ok.mp ran
    rw [List.map_cons, List.sum_cons]
    exact (primitiveEffect_grows first).trans (ih rest)

omit [DecidableEq F] in
/-- The subcircuits add their subtraces, of as many entries as each makes calls. -/
theorem subcircuitEffects_add {subcircuits : List SubCircuit}
    (ran : subcircuits.foldlM (subcircuitEffect p c) state = .ok state') :
    ∃ made, made.map List.length = subcircuits.map callsOf ∧
      state'.pm.subtraces = state.pm.subtraces ++ made := by
  induction subcircuits generalizing state with
  | nil =>
    cases ran
    exact ⟨[], rfl, (List.append_nil _).symm⟩
  | cons s subcircuits ih =>
    obtain ⟨state₁, first, rest⟩ := bind_eq_ok.mp ran
    obtain ⟨entries, count, start⟩ := (primitiveEffects_grow first).adds
    obtain ⟨made, counts, all⟩ := ih rest
    refine ⟨entries :: made, ?_, ?_⟩
    · rw [List.map_cons, List.map_cons, count, counts, callsOf]
    · rw [all, start, List.append_assoc, List.singleton_append]

/-- The lengths of what is recorded natively. -/
theorem recorded_lengths {checks : Bool} {traces : List (List (TranscriptEntry F .rom))}
    (laid : vkdUpdateToSubcircuit checks c.update = .ok c.subcircuits)
    (recorded : getPortalSubtraces p checks D c = .ok traces) :
    traces.map List.length = c.subcircuits.map callsOf := by
  obtain ⟨subcircuits, state, laid', ran, rfl⟩ := getPortalSubtraces_eq_ok.mp recorded
  cases laid.symm.trans laid'
  obtain ⟨made, counts, all⟩ := subcircuitEffects_add ran
  rw [all]
  exact counts

end Lengths
end VkdRows
