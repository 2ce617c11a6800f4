import Hekaton.SubcircuitChains
import Mathlib

/-!
# RAM soundness

The RAM manager compares the address-ordered entries of one subcircuit with each other,
and its timestamps with each other. It never compares the entry handed over with the
first entry of a subcircuit, nor timestamps of different subcircuits, and its 32-bit
clock may stand still or wrap. Where those pairs are as they should be, every read of
the time-ordered trace returns the latest earlier write to its address.
-/

namespace RamSoundness

open Outcomes Wires Synthesis Contracts Uint32 Transcript PortalManager PortalChecks EvalTree
open MemoryTraces SubcircuitCircuit SubcircuitChains

variable {F D : Type} [Field F] [DecidableEq F] [DecidableEq D]

/-- What a coherent memory needs of a chain and the managers leave open: the first
access is a write, entries continue the entry handed over, and the clock never falls. -/
structure BoundariesHold (chain : SubcircuitChain F D .ram) : Prop where
  opens : ∀ e ∈ chain.addrTrace.head?, (memoryAccess e).read = false
  boundaries : ∀ before s after, chain.segments = before ++ s :: after →
    before.flatMap Segment.addrs ≠ [] → ∀ e ∈ s.addrs.head?, Follows s.inputLeaf.lastEntry e
  clock : chain.timeTrace.IsChain fun e next => e.timestamp ≤ next.timestamp

variable {chain : SubcircuitChain F D .ram}

theorem addrTrace_isChain (used : chain.AddrsUsed) (hold : BoundariesHold chain) :
    chain.addrTrace.IsChain Follows :=
  isChain_of_boundaries chain.linked (fun s hs => s.ram_isChain (used s hs)) hold.boundaries

theorem addrTrace_coherent (used : chain.AddrsUsed) (hold : BoundariesHold chain) :
    Coherent (chain.addrTrace.map memoryAccess) := by
  have chained : (chain.addrTrace.map memoryAccess).IsChain Continues := by
    rw [List.isChain_map]
    exact (addrTrace_isChain used hold).imp fun e next h => h.continues
  refine (coherent_of_chain chained fun a ha => ?_).1
  rw [List.head?_map] at ha
  obtain ⟨e, he, rfl⟩ := Option.mem_map.mp ha
  exact hold.opens e he

/-- Entries at one address lie in the order of their timestamps. -/
theorem addrTrace_grouped {p : Nat} [CharP F p] (used : chain.AddrsUsed)
    (hold : BoundariesHold chain) (small : chain.addrTrace.length ≤ p) :
    chain.addrTrace.Pairwise fun e next => e.addr = next.addr → e.timestamp < next.timestamp := by
  have transitive : IsTrans (Entry F F .ram) fun e next => e.timestamp < next.timestamp :=
    ⟨fun _ _ _ h h' => h.trans h'⟩
  exact pairwise_of_chain (S := fun e next : Entry F F .ram => e.timestamp < next.timestamp)
    small ((addrTrace_isChain used hold).imp fun e next h => ⟨h.step, h.timestamp_lt⟩)

/-- Coherence of the whole memory, from the checks of all calls and of the boundaries. -/
theorem timeTrace_coherent {p : Nat} [CharP F p] (used : chain.AddrsUsed)
    (hold : BoundariesHold chain) (small : chain.addrTrace.length ≤ p) (perm : chain.addrTrace.Perm chain.timeTrace) :
    Coherent (chain.timeTrace.map memoryAccess) := by
  refine coherent_of_perm (perm.map memoryAccess) ?_ ?_ (addrTrace_coherent used hold)
  · rw [List.pairwise_map]
    simpa only [memoryAccess_addr, memoryAccess_time] using addrTrace_grouped used hold small
  · rw [List.pairwise_map]
    have sorted := List.isChain_iff_pairwise.mp hold.clock
    refine sorted.imp fun later _ => ?_
    simpa only [memoryAccess_time] using later

/-- RAM soundness: every read returns the latest earlier write to its address, and there
is one, in every chain of bodies that use their entries and whose boundaries hold. -/
theorem ram_sound {p : Nat} [CharP F p] (used : chain.AddrsUsed)
    (hold : BoundariesHold chain) (small : chain.addrTrace.length ≤ p) (perm : chain.addrTrace.Perm chain.timeTrace)
    {before after : List (Entry F F .ram)} {e : Entry F F .ram}
    (split : chain.timeTrace = before ++ e :: after) (read : (memoryAccess e).read = true) :
    lastWrite e.addr (before.map memoryAccess) = some e.value := by
  have memory := timeTrace_coherent used hold small perm
  rw [split, List.map_append, List.map_cons] at memory
  have found := memory _ _ _ rfl read
  rwa [memoryAccess_addr, memoryAccess_val] at found

/-- A field of characteristic above `2 ^ 64`. -/
abbrev Wide : Type := ZMod (mersenne 89)

instance mersenne_prime : Fact (Nat.Prime (mersenne 89)) :=
  ⟨lucas_lehmer_sufficiency 89 (by norm_num) (by norm_num)⟩

def relayWrite : TranscriptEntry Wide .ram := .ram ⟨1, 5, Unsigned32.default, false⟩

def relayRead : TranscriptEntry Wide .ram :=
  .ram ⟨1, 5, Unsigned32.default.incrementInplace, true⟩

def relaySegments : List (Segment Wide (FreeDigest Wide) .ram) :=
  [.ofRun (Program.portalSet "a" (.constant 5)) [relayWrite] [relayWrite] (.padding _ _)
      (.ram 1 0 1 0) (by decide +kernel) (by decide +kernel) (by decide +kernel),
    .ofRun (do let _ ← Program.portalGet "a") [relayRead] [relayRead]
      ⟨⟨-6, -6, none⟩, relayWrite⟩ (.ram 1 0 1 0) (by decide +kernel) (by decide +kernel)
      (by decide +kernel)]

def relayChain : SubcircuitChain Wide (FreeDigest Wide) .ram where
  segments := relaySegments
  first s hs := by
    cases hs
    decide +kernel
  handedOn := by
    refine .cons_cons ?_ (.singleton _)
    decide +kernel

theorem relayChain_boundaries : BoundariesHold relayChain where
  opens := by decide +kernel
  boundaries before s after split nonempty := by
    rcases before with _ | ⟨s₀, _ | ⟨s₁, before⟩⟩
    · exact absurd rfl nonempty
    · cases split
      decide +kernel
    · cases before <;> cases split
  clock := by decide +kernel

theorem relayChain_used : relayChain.AddrsUsed := by decide +kernel

theorem relayChain_read : relayChain.addrTrace.length ≤ mersenne 89 ∧
    relayChain.timeTrace = [relayWrite.assigned] ++ relayRead.assigned :: [] ∧
    lastWrite 1 ([relayWrite.assigned].map memoryAccess) = some 5 := by
  have small : relayChain.addrTrace.length ≤ mersenne 89 := by decide +kernel
  have split : relayChain.timeTrace = [relayWrite.assigned] ++ relayRead.assigned :: [] := by
    decide +kernel
  have perm : relayChain.addrTrace.Perm relayChain.timeTrace := by decide +kernel
  refine ⟨small, split, ?_⟩
  have found := ram_sound relayChain_used relayChain_boundaries small perm split rfl
  simpa [relayRead, Entry.assigned, Entry.addr, Entry.value] using found

/-- One subcircuit that reads a wire nobody has set. -/
def unsetSegment : Segment Wide (FreeDigest Wide) .ram :=
  .ofRun (do let _ ← Program.portalGet "a") [.ram ⟨1, 5, Unsigned32.default, true⟩]
    [.ram ⟨1, 5, Unsigned32.default, true⟩] (.padding _ _) (.ram 1 0 1 0)
    (by decide +kernel) (by decide +kernel) (by decide +kernel)

def unsetChain : SubcircuitChain Wide (FreeDigest Wide) .ram where
  segments := [unsetSegment]
  first s hs := by
    cases hs
    decide +kernel
  handedOn := .singleton _

/-- Every row of the call holds, and it reads an address that was never written. -/
theorem unsetChain_not_coherent : 2 ^ 64 < mersenne 89 ∧
    unsetChain.addrTrace.Perm unsetChain.timeTrace ∧
    ¬ Coherent (unsetChain.timeTrace.map memoryAccess) := by
  refine ⟨by decide +kernel, by decide +kernel, fun coherent => ?_⟩
  have trace : unsetChain.timeTrace.map memoryAccess = [⟨1, 5, 0, true⟩] := by decide +kernel
  rw [trace] at coherent
  cases coherent [] _ [] rfl rfl

end RamSoundness
