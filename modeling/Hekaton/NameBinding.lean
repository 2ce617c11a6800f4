import Hekaton.RamSoundness
import Mathlib

/-!
# Names of portal wires

The prover managers ignore the name of a call and take the next witnessed entry, so a
name means whatever address the witness gives its calls. Every get returns what was set
under its name when the bodies use their entries, the witnessed addresses follow the names
and, for RAM, the read flags follow the calls and the boundaries hold.
-/

namespace NameBinding

open Outcomes Wires Synthesis Contracts Uint32 Transcript PortalManager PortalChecks EvalTree
open MemoryTraces SubcircuitCircuit SubcircuitChains RamSoundness

section Named
variable {F : Type} {m : MemType}

/-- A call in the program's terms: the address is the name. -/
def named (a : PortalAccess F m) : Access String F := ⟨a.name, a.val, 0, a.read⟩

/-- The programs ROM accepts: every name is set once, and before it is read. -/
structure RomProgram (l : List (Access String F)) : Prop where
  once : ((l.filter fun a => !a.read).map Access.addr).Nodup
  before : ∀ before e after, l = before ++ e :: after → e.read = true →
    ∃ s ∈ before, s.addr = e.addr ∧ s.read = false

end Named

variable {F D : Type} [Field F] [DecidableEq F] [DecidableEq D]

/-- The witnessed address of a get is the one witnessed for the set of its name. -/
def RomNamesAddressed (chain : SubcircuitChain F D .rom) : Prop :=
  ∀ a ∈ chain.accesses, a.read = true → ∀ s ∈ chain.accesses, s.read = false →
    s.name = a.name → s.entry.addr = a.entry.addr

/-- Witnessed addresses follow the names, and witnessed read flags the calls. -/
structure RamNamesAddressed (chain : SubcircuitChain F D .ram) : Prop where
  flags : ∀ a ∈ chain.accesses, (memoryAccess a.entry).read = a.read
  addresses : ∀ a ∈ chain.accesses, ∀ b ∈ chain.accesses,
    a.entry.addr = b.entry.addr ↔ a.name = b.name

theorem rom_coherent {p : Nat} [CharP F p] {chain : SubcircuitChain F D .rom}
    (used : chain.AddrsUsed) (small : chain.addrTrace.length < p)
    (perm : chain.addrTrace.Perm chain.timeTrace)
    (program : RomProgram (chain.accesses.map named)) (addressed : RomNamesAddressed chain) :
    Coherent (chain.accesses.map named) := by
  intro before e after split read
  have earlier : ∀ x ∈ before, x ∈ chain.accesses.map named := by
    intro x hx
    rw [split]
    exact List.mem_append_left _ hx
  have here : e ∈ chain.accesses.map named := by
    rw [split]
    exact List.mem_append_right _ List.mem_cons_self
  refine lastWrite_of_agree (program.before before e after split read) fun x hx same write => ?_
  obtain ⟨get, hget, rfl⟩ := List.mem_map.mp here
  obtain ⟨set, hset, rfl⟩ := List.mem_map.mp (earlier x hx)
  have address := addressed get hget read set hset write same
  exact chain.rom_accesses_agree used small perm set hset get hget address

theorem ram_coherent {p : Nat} [CharP F p] {chain : SubcircuitChain F D .ram}
    (used : chain.AddrsUsed) (small : chain.addrTrace.length ≤ p)
    (perm : chain.addrTrace.Perm chain.timeTrace)
    (hold : BoundariesHold chain) (addressed : RamNamesAddressed chain) :
    Coherent (chain.accesses.map named) := by
  have memory := timeTrace_coherent used hold small perm
  rw [← chain.accesses_entry used perm, List.map_map] at memory
  refine coherent_rename (f := memoryAccess ∘ PortalAccess.entry) ?_ ?_ memory
  · intro a ha
    refine ⟨?_, addressed.flags a ha⟩
    rw [Function.comp_apply, memoryAccess_val]
    exact (chain.accesses_val a ha).symm
  · intro a ha b hb
    rw [Function.comp_apply, Function.comp_apply, memoryAccess_addr, memoryAccess_addr]
    exact addressed.addresses a ha b hb

/-- Every get returns what was last set under its name, in both modes, when the bodies use
their entries and the witnessed addresses follow the names. -/
theorem names_bound {p : Nat} [CharP F p] :
    (∀ chain : SubcircuitChain F D .rom, chain.AddrsUsed → chain.addrTrace.length < p →
      chain.addrTrace.Perm chain.timeTrace → RomProgram (chain.accesses.map named) →
      RomNamesAddressed chain → Coherent (chain.accesses.map named)) ∧
    (∀ chain : SubcircuitChain F D .ram, chain.AddrsUsed → chain.addrTrace.length ≤ p →
      chain.addrTrace.Perm chain.timeTrace → BoundariesHold chain → RamNamesAddressed chain →
      Coherent (chain.accesses.map named)) :=
  ⟨fun _ used small perm program addressed => rom_coherent used small perm program addressed,
    fun _ used small perm hold addressed => ram_coherent used small perm hold addressed⟩

theorem relayChain_program : RomProgram (SubcircuitChains.relayChain.accesses.map named) where
  once := by decide +kernel
  before := by
    have program : SubcircuitChains.relayChain.accesses.map named =
        [⟨"a", 2, 0, false⟩, ⟨"a", 2, 0, true⟩] := by decide +kernel
    rw [program]
    intro before e after split read
    rcases before with _ | ⟨s, _ | ⟨g, before⟩⟩
    · cases split
      cases read
    · cases split
      exact ⟨_, List.mem_cons_self, rfl, rfl⟩
    · cases before <;> cases split

theorem relayChain_addressed : RomNamesAddressed SubcircuitChains.relayChain := by
  unfold RomNamesAddressed
  decide +kernel

theorem ramRelay_addressed : RamNamesAddressed RamSoundness.relayChain where
  flags := by decide +kernel
  addresses := by decide +kernel

theorem relays_bound : Coherent (SubcircuitChains.relayChain.accesses.map named) ∧
    Coherent (RamSoundness.relayChain.accesses.map named) :=
  ⟨(names_bound (p := 3)).1 _ SubcircuitChains.relayChain_used (by decide +kernel)
      (by decide +kernel) relayChain_program relayChain_addressed,
    (names_bound (p := mersenne 89)).2 _ RamSoundness.relayChain_used (by decide +kernel)
      (by decide +kernel) relayChain_boundaries ramRelay_addressed⟩

/-- Set `a` and `b`, then read `a`. -/
def crossedBody : Program Wide (FreeDigest Wide) Unit := do
  Program.portalSet "a" (.constant 1)
  Program.portalSet "b" (.constant (-1))
  let _ ← Program.portalGet "a"

/-- The entry witnessed for the get is the one of `b`. -/
def crossedTrace : List (TranscriptEntry Wide .rom) := [.rom ⟨1, 1⟩, .rom ⟨2, -1⟩, .rom ⟨2, -1⟩]

def crossedChain : SubcircuitChain Wide (FreeDigest Wide) .rom where
  segments := [.ofRun crossedBody crossedTrace crossedTrace (.padding _ _) (.rom 1 (-1))
    (by decide +kernel) (by decide +kernel) (by decide +kernel)]
  first s hs := by
    cases hs
    decide +kernel
  handedOn := .singleton _

theorem crossedChain_program : crossedChain.accesses.map named =
    [⟨"a", 1, 0, false⟩, ⟨"b", -1, 0, false⟩, ⟨"a", -1, 0, true⟩] := by decide +kernel

/-- Every row of the calls holds, and the get of `a` returns what was set for `b`. -/
theorem crossedChain_not_bound : crossedChain.addrTrace.Perm crossedChain.timeTrace ∧
    RomProgram (crossedChain.accesses.map named) ∧
    ¬ Coherent (crossedChain.accesses.map named) := by
  rw [crossedChain_program]
  refine ⟨by decide +kernel, ⟨by decide +kernel, ?_⟩, fun coherent => ?_⟩
  · intro before e after split read
    rcases before with _ | ⟨s, _ | ⟨t, _ | ⟨g, before⟩⟩⟩
    · cases split
      cases read
    · cases split
      cases read
    · cases split
      exact ⟨_, List.mem_cons_self, rfl, rfl⟩
    · cases before <;> cases split
  · have found := coherent [⟨"a", 1, 0, false⟩, ⟨"b", -1, 0, false⟩] _ [] rfl rfl
    revert found
    decide +kernel

end NameBinding
