import Hekaton.VkdNames
import Hekaton.VkdTraces

/-!
# Addresses of the key directory's wires

The ROM setup manager gives every name that is set an address of its own, whatever the bodies
do that it runs. The names of the key directory tell its wires apart, so two wires that share
an address are the same node, or the same piece of the same user's index.
-/

namespace VkdAddresses

open Outcomes Wires Synthesis Transcript PortalManager PrimeFields VkdHash VkdCircuits KeyDirectory
open HonestRuns MirroredRuns VkdNames VkdTraces

section Names
variable {F D α : Type}

/-- Every name that is set has an address of its own, below the next free one. -/
structure Placed (pm : SetupRomPortalManager F) : Prop where
  below : ∀ name entry, pm.varMap name = some entry → entry.addr < pm.nextVarAddr
  apart : ∀ name name' entry entry', pm.varMap name = some entry →
    pm.varMap name' = some entry' → entry.addr = entry'.addr → name = name'

theorem placed_new : Placed (SetupRomPortalManager.new : SetupRomPortalManager F) := by
  constructor
  · intro name entry known
    cases known
  · intro name name' entry entry' known
    cases known

variable {pm pm' : SetupRomPortalManager F} {name : String} {value : F}

theorem placed_start (placed : Placed pm) : Placed pm.startSubtrace := ⟨placed.below, placed.apart⟩

theorem placed_getValue (placed : Placed pm)
    (got : SetupManager.getValue pm name = .ok (value, pm')) : Placed pm' := by
  obtain ⟨entry, found, rest⟩ := bind_eq_ok.mp got
  obtain ⟨subtraces, pushed, same⟩ := bind_eq_ok.mp rest
  cases same
  exact ⟨placed.below, placed.apart⟩

theorem placed_setValue (placed : Placed pm)
    (set : SetupManager.setValue pm name value = .ok pm') : Placed pm' := by
  change (if (pm.varMap name).isSome = true then _ else _) = _ at set
  split at set
  · cases set
  · obtain ⟨subtraces, pushed, same⟩ := bind_eq_ok.mp set
    cases same
    constructor
    · intro other entry known
      simp only [Function.update_apply] at known
      split at known
      · cases known
        exact Nat.lt_succ_self _
      · exact Nat.lt_succ_of_lt (placed.below other entry known)
    · intro one other entry entry' known known' same
      simp only [Function.update_apply] at known known'
      split at known <;> split at known'
      · rename_i here there
        exact here.trans there.symm
      · cases known
        exact absurd same.symm (Nat.ne_of_lt (placed.below other entry' known'))
      · cases known'
        exact absurd same (Nat.ne_of_lt (placed.below one entry known))
      · exact placed.apart one other entry entry' known known' same

variable [Field F] [DecidableEq F] [Inhabited D] [DecidableEq D]
variable {vars : List (Variable F D)} {e : Emission F D}

theorem placed_get {w : Wire F D .field} (placed : Placed pm)
    (run : Manager.get pm name vars = .ok ((w, pm'), e)) : Placed pm' := by
  obtain ⟨⟨value, pm₁⟩, got, _, same⟩ := romGet_mirrors.result run
  cases same
  exact placed_getValue placed got

theorem placed_set {w : Wire F D .field} (placed : Placed pm)
    (run : Manager.set pm name w vars = .ok (pm', e)) : Placed pm' := by
  have set : SetupManager.setValue pm name (w.eval (assignmentOf vars)) = .ok pm' := by
    change SetupRomPortalManager.set pm name w vars = _ at run
    change (if (pm.varMap name).isSome = true then _ else _) = _
    rw [SetupRomPortalManager.set] at run
    split at run
    · cases run
    · rename_i free
      obtain ⟨value, e₁, r, e₂, first, rest, same⟩ := Synth.bind_eq_ok.mp run
      cases first
      obtain ⟨subtraces, pushed, rest⟩ := Synth.lift_bind_eq_ok.mp rest
      cases rest
      cases same
      rw [if_neg free, pushed]
      rfl
  exact placed_setValue placed set

/-- No body makes two names share an address. -/
theorem placed_run {program : Program F D α} {a : α} (placed : Placed pm)
    (run : program.run pm vars = .ok ((a, pm'), e)) : Placed pm' := by
  induction program generalizing pm vars e with
  | done b =>
    cases run
    exact placed
  | gadget m rest ih =>
    obtain ⟨b, e₁, r, e₂, _, later, same⟩ := Synth.bind_eq_ok.mp run
    cases same
    exact ih b placed later
  | get name rest ih =>
    obtain ⟨⟨w, pm₁⟩, e₁, r, e₂, first, later, same⟩ := Synth.bind_eq_ok.mp run
    cases same
    exact ih w (placed_get placed first) later
  | set name val rest ih =>
    obtain ⟨pm₁, e₁, r, e₂, first, later, same⟩ := Synth.bind_eq_ok.mp run
    cases same
    exact ih (placed_set placed first) later

theorem placed_recordBodies {bodies : List (Program F D Unit)} (placed : Placed pm)
    (run : recordBodies bodies pm vars = .ok (pm', e)) : Placed pm' := by
  induction bodies generalizing pm vars e with
  | nil =>
    cases run
    exact placed
  | cons body bodies ih =>
    obtain ⟨⟨_, pm₁⟩, e₁, r, e₂, first, later, same⟩ := Synth.bind_eq_ok.mp run
    cases same
    exact ih (placed_run (placed_start placed) first) later

end Names

section Native
variable {F : Type} [Field F] [PrimeField F]
variable {p : Poseidon F} {c : VerifiableKeyDirectoryCircuit} {state state' : NativeState F}

omit [PrimeField F] in
theorem placed_nodeEffect {name : String} {digest : InnerHash} (placed : Placed state.pm)
    (ran : nodeEffect state name digest = .ok state') : Placed state'.pm := by
  obtain ⟨pm, set, same⟩ := bind_eq_ok.mp ran
  cases same
  exact placed_setValue placed set

theorem placed_indexEffect {leaf : Leaf} {i : Nat} (placed : Placed state.pm)
    (ran : indexEffect p leaf state i = .ok state') : Placed state'.pm := by
  obtain ⟨pm, set, same⟩ := bind_eq_ok.mp ran
  cases same
  exact placed_setValue placed set

omit [Field F] [PrimeField F] in
/-- Effects one after the other. -/
theorem placed_foldlM {ι : Type} {effect : NativeState F → ι → Outcome (NativeState F)}
    {l : List ι} (each : ∀ i ∈ l, ∀ state state', effect state i = .ok state' →
      Placed state.pm → Placed state'.pm) (placed : Placed state.pm)
    (ran : l.foldlM effect state = .ok state') : Placed state'.pm := by
  induction l generalizing state with
  | nil =>
    cases ran
    exact placed
  | cons i l ih =>
    obtain ⟨state₁, first, rest⟩ := bind_eq_ok.mp ran
    have here := each i List.mem_cons_self state state₁ first placed
    exact ih (fun j member => each j (List.mem_cons_of_mem i member)) here rest

theorem placed_primitiveEffect {primitive : PrimitiveSubcircuit} (placed : Placed state.pm)
    (ran : primitiveEffect p c state primitive = .ok state') : Placed state'.pm := by
  cases primitive with
  | equalityPrimitive eq =>
    obtain ⟨addr1, _, rest⟩ := bind_eq_ok.mp ran
    obtain ⟨addr2, _, rest⟩ := bind_eq_ok.mp rest
    obtain ⟨got, first, rest⟩ := bind_eq_ok.mp rest
    obtain ⟨got', second, same⟩ := bind_eq_ok.mp rest
    cases same
    exact placed_getValue (placed_getValue placed first) second
  | getIndexPrimitive ind =>
    exact placed_foldlM (fun i _ state state' step placed => placed_indexEffect placed step)
      placed ran
  | computePathPrimitive path =>
    obtain ⟨start, _, rest⟩ := bind_eq_ok.mp ran
    obtain ⟨index, _, rest⟩ := bind_eq_ok.mp rest
    obtain ⟨initialValue, _, rest⟩ := bind_eq_ok.mp rest
    obtain ⟨got, first, rest⟩ := bind_eq_ok.mp rest
    obtain ⟨got', second, rest⟩ := bind_eq_ok.mp rest
    obtain ⟨root, _, rest⟩ := bind_eq_ok.mp rest
    obtain ⟨target, _, inserted⟩ := bind_eq_ok.mp rest
    exact placed_nodeEffect (placed_getValue (placed_getValue placed first) second) inserted
  | hashLeafPrimitive h => exact placed_nodeEffect placed ran
  | writePublicParameterPrimitive =>
    obtain ⟨state₁, first, rest⟩ := bind_eq_ok.mp ran
    obtain ⟨state₂, second, third⟩ := bind_eq_ok.mp rest
    exact placed_nodeEffect (placed_nodeEffect (placed_nodeEffect placed first) second) third
  | paddingPrimitive =>
    cases ran
    exact placed

variable {D : Type} [DecidableEq F] [Inhabited D] [DecidableEq D]
variable {vars : List (Variable F D)} {e : Emission F D}

theorem placed_native {subcircuits : List SubCircuit} (placed : Placed state.pm)
    (run : subcircuits.foldlM (nativeSubcircuit p c) state vars = .ok (state', e)) :
    Placed state'.pm := by
  obtain ⟨state₁, ran, rfl⟩ := (native_mirrors c subcircuits state).result run
  apply placed_foldlM _ placed ran
  intro subcircuit _ state state' step placed
  apply placed_foldlM _ _ step
  · intro primitive _ state state' step placed
    exact placed_primitiveEffect placed step
  · exact placed_start placed

end Native

/-- The wires of a node and of a piece of an index. -/
abbrev WireAddress := NodeAddress ⊕ IndexAddress

def WireAddress.toName : WireAddress → String
  | .inl a => a.toName
  | .inr x => x.toName

/-- The same node, or the same piece of the same user's index. -/
def SameWire : WireAddress → WireAddress → Prop
  | .inl a, .inl b => a = b
  | .inr x, .inr y => x.indicator = y.indicator ∧ userOf x.leaf = userOf y.leaf
  | .inl _, .inr _ => False
  | .inr _, .inl _ => False

theorem toName_eq_iff (u v : WireAddress) : u.toName = v.toName ↔ SameWire u v := by
  rcases u with a | x <;> rcases v with b | y
  · exact ⟨node_toName_injective, congrArg NodeAddress.toName⟩
  · exact iff_of_false (node_ne_index a y) not_false
  · exact iff_of_false (fun same => node_ne_index b x same.symm) not_false
  · exact index_toName_inj

/-- Two wires that are set have one address exactly when they are one wire. -/
def AddressesApart {F : Type} (pm : SetupRomPortalManager F) : Prop :=
  ∀ (u v : WireAddress) (entry entry' : RomEntry Nat F), pm.varMap u.toName = some entry →
    pm.varMap v.toName = some entry' → (entry.addr = entry'.addr ↔ SameWire u v)

theorem Placed.addressesApart {F : Type} {pm : SetupRomPortalManager F} (placed : Placed pm) :
    AddressesApart pm := by
  intro u v entry entry' known known'
  rw [← toName_eq_iff]
  constructor
  · exact placed.apart _ _ _ _ known known'
  · intro same
    rw [same, known'] at known
    cases known
    rfl

/-- The names of the key directory's wires tell them apart, so in every recording, of the
constraints of any subcircuits and of the native trace, different wires have different
addresses. -/
theorem wires_apart {F D : Type} [Field F] [PrimeField F] [DecidableEq F] [Inhabited D]
    [DecidableEq D] (p : Poseidon F) (c : VerifiableKeyDirectoryCircuit) :
    (∀ a b : NodeAddress, a.toName = b.toName ↔ a = b) ∧
    (∀ x y : IndexAddress, x.toName = y.toName ↔
      x.indicator = y.indicator ∧ userOf x.leaf = userOf y.leaf) ∧
    (∀ (a : NodeAddress) (x : IndexAddress), a.toName ≠ x.toName) ∧
    (∀ (idxs : List Nat) (pm : SetupRomPortalManager F) (e : Emission F D),
      recordBodies (idxs.map (generateConstraints p c)) .new [] = .ok (pm, e) →
        AddressesApart pm) ∧
    (∀ (subcircuits : List SubCircuit) (state : NativeState F) (e : Emission F D),
      subcircuits.foldlM (nativeSubcircuit p c) .new [] = .ok (state, e) →
        AddressesApart state.pm) := by
  refine ⟨fun a b => toName_eq_iff (.inl a) (.inl b), fun x y => toName_eq_iff (.inr x) (.inr y),
    node_ne_index, ?_, ?_⟩
  · intro idxs pm e run
    exact (placed_recordBodies placed_new run).addressesApart
  · intro subcircuits state e run
    exact (placed_native placed_new run).addressesApart

end VkdAddresses
