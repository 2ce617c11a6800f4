import Hekaton.Coordinator
import Hekaton.Scripts

/-!
# Honest traces

What the setup managers record and the coordinator sorts passes the checks of the
provers' managers. Both managers number the addresses from 1 without gaps, so sorted
addresses step by nought or one from the padding entry on. ROM never changes an entry;
RAM reads the last write and stamps every entry with the next tick of its clock.
-/

namespace Recordings

open Outcomes Wires Synthesis Contracts Uint32 Transcript PortalManager PortalChecks MemoryTraces
open Coordinator Scripts

variable {F D : Type} {m : MemType}

/-- Subtraces of both orders whose entries pass every check of the provers' managers. -/
structure HonestTraces [Field F] (times addrs : List (List (TranscriptEntry F m))) : Prop where
  sorted : SortedByAddr times addrs
  follows : ((Entry.padding m :: addrs.flatten).map Entry.assigned).IsChain
    (Follows (F := F) (m := m))
  ticks : (times.flatten.map Entry.assigned).IsChain (Ticks (F := F) (m := m))

section Addresses

theorem pushEntry_flatten {subtraces subtraces' : List (List (TranscriptEntry F m))}
    {e : TranscriptEntry F m} (h : pushEntry subtraces e = .ok subtraces') :
    subtraces'.flatten = subtraces.flatten ++ [e] := by
  rcases List.eq_nil_or_concat' subtraces with rfl | ⟨before, last, rfl⟩
  · cases h
  · rw [pushEntry_last] at h
    cases h
    simp

/-- The addresses of a trace are the numbers from 1 up to `next`. -/
structure Numbered (next : Nat) (trace : List (TranscriptEntry F m)) : Prop where
  positive : 0 < next
  bounded : ∀ e ∈ trace, 0 < e.addr ∧ e.addr < next
  dense : ∀ a, 0 < a → a < next → ∃ e ∈ trace, e.addr = a

namespace Numbered
variable {next : Nat} {trace : List (TranscriptEntry F m)}

theorem nil : Numbered 1 ([] : List (TranscriptEntry F m)) where
  positive := Nat.one_pos
  bounded := fun _ he => absurd he List.not_mem_nil
  dense := fun _ low high => absurd high (Nat.not_lt_of_le low)

theorem again (h : Numbered next trace) {e : TranscriptEntry F m} (low : 0 < e.addr)
    (high : e.addr < next) : Numbered next (trace ++ [e]) where
  positive := h.positive
  bounded x hx := by
    rcases List.mem_append.mp hx with hx | hx
    · exact h.bounded x hx
    · rw [List.mem_singleton.mp hx]
      exact ⟨low, high⟩
  dense a ha below := by
    obtain ⟨x, hx, same⟩ := h.dense a ha below
    exact ⟨x, List.mem_append_left _ hx, same⟩

theorem fresh (h : Numbered next trace) {e : TranscriptEntry F m} (new : e.addr = next) :
    Numbered (next + 1) (trace ++ [e]) where
  positive := Nat.succ_pos next
  bounded x hx := by
    rcases List.mem_append.mp hx with hx | hx
    · obtain ⟨low, high⟩ := h.bounded x hx
      exact ⟨low, Nat.lt_succ_of_lt high⟩
    · rw [List.mem_singleton.mp hx, new]
      exact ⟨h.positive, Nat.lt_succ_self next⟩
  dense a ha below := by
    rcases Nat.lt_succ_iff_lt_or_eq.mp below with below | rfl
    · obtain ⟨x, hx, same⟩ := h.dense a ha below
      exact ⟨x, List.mem_append_left _ hx, same⟩
    · exact ⟨e, List.mem_append_right trace List.mem_cons_self, new⟩

/-- Sorted, the addresses step by nought or one from nought. -/
theorem isChain (h : Numbered next trace) {sorted : List (TranscriptEntry F m)}
    (perm : sorted.Perm trace) (pairs : sorted.Pairwise KeyLe) :
    (0 :: sorted.map Entry.addr).IsChain fun x y => y = x ∨ y = x + 1 := by
  refine isChain_of_dense (List.pairwise_map.mpr (pairs.imp keyLe_addr)) ?_
  intro a ha b low high
  obtain ⟨e, he, rfl⟩ := List.mem_map.mp ha
  have below : b < next := high.trans (h.bounded e (perm.mem_iff.mp he)).2
  obtain ⟨x, hx, same⟩ := h.dense b low below
  exact List.mem_map.mpr ⟨x, perm.mem_iff.mpr hx, same⟩

end Numbered
end Addresses

section Rom

/-- What the ROM setup manager keeps: numbered addresses, and one entry for each. -/
structure RomInv (pm : SetupRomPortalManager F) : Prop where
  numbered : Numbered pm.nextVarAddr pm.subtraces.flatten
  known : ∀ name entry, pm.varMap name = some entry → Entry.rom entry ∈ pm.subtraces.flatten
  unique : ∀ e ∈ pm.subtraces.flatten, ∀ e' ∈ pm.subtraces.flatten, e.addr = e'.addr → e = e'

theorem romInv_new : RomInv (SetupRomPortalManager.new : SetupRomPortalManager F) where
  numbered := .nil
  known := fun _ _ h => nomatch h
  unique := fun _ he => absurd he List.not_mem_nil

theorem romInv_start {pm : SetupRomPortalManager F} (h : RomInv pm) : RomInv pm.startSubtrace := by
  have same : pm.startSubtrace.subtraces.flatten = pm.subtraces.flatten := by
    simp [SetupRomPortalManager.startSubtrace]
  refine ⟨?_, ?_, ?_⟩
  · rw [same]
    exact h.numbered
  · rw [same]
    exact h.known
  · rw [same]
    exact h.unique

theorem romInv_get {pm pm' : SetupRomPortalManager F} {name : String} {entry : RomEntry Nat F}
    (h : RomInv pm) (found : pm.varMap name = some entry)
    (pushed : pushEntry pm.subtraces (.rom entry) = .ok pm'.subtraces)
    (next : pm'.nextVarAddr = pm.nextVarAddr) (names : pm'.varMap = pm.varMap) : RomInv pm' := by
  have trace := pushEntry_flatten pushed
  have inside := h.known name entry found
  have old : ∀ e ∈ pm'.subtraces.flatten, e ∈ pm.subtraces.flatten := by
    intro e he
    rw [trace] at he
    rcases List.mem_append.mp he with he | he
    · exact he
    · rw [List.mem_singleton.mp he]
      exact inside
  obtain ⟨low, high⟩ := h.numbered.bounded _ inside
  refine ⟨?_, ?_, fun e he e' he' => h.unique e (old e he) e' (old e' he')⟩
  · rw [trace, next]
    exact h.numbered.again low high
  · intro name' entry' found'
    rw [names] at found'
    rw [trace]
    exact List.mem_append_left _ (h.known name' entry' found')

theorem romInv_set {pm pm' : SetupRomPortalManager F} {name : String} {value : F}
    (h : RomInv pm)
    (pushed : pushEntry pm.subtraces (.rom ⟨pm.nextVarAddr, value⟩) = .ok pm'.subtraces)
    (next : pm'.nextVarAddr = pm.nextVarAddr + 1)
    (names : pm'.varMap = Function.update pm.varMap name (some ⟨pm.nextVarAddr, value⟩)) :
    RomInv pm' := by
  have trace := pushEntry_flatten pushed
  refine ⟨?_, ?_, ?_⟩
  · rw [trace, next]
    exact h.numbered.fresh rfl
  · intro name' entry' found'
    rw [trace]
    rw [names, Function.update_apply] at found'
    split at found'
    · cases found'
      exact List.mem_append_right _ List.mem_cons_self
    · exact List.mem_append_left _ (h.known name' entry' found')
  · rw [trace]
    intro e he e' he' same
    rcases List.mem_append.mp he with he | he <;> rcases List.mem_append.mp he' with he' | he'
    · exact h.unique e he e' he' same
    · rw [List.mem_singleton.mp he'] at same
      exact absurd same (Nat.ne_of_lt (h.numbered.bounded e he).2)
    · rw [List.mem_singleton.mp he] at same
      exact absurd same.symm (Nat.ne_of_lt (h.numbered.bounded e' he').2)
    · rw [List.mem_singleton.mp he, List.mem_singleton.mp he']

variable [Field F] [DecidableEq F] [Inhabited D] [DecidableEq D]

/-- The ROM setup manager records, and keeps its invariant. -/
theorem romRecords : Records D (F := F) SetupRomPortalManager.subtraces RomInv
    SetupRomPortalManager.startSubtrace where
  start pm h := ⟨romInv_start h, rfl⟩
  get pm name vars w pm' e h run := by
    change SetupRomPortalManager.get pm name vars = _ at run
    obtain ⟨entry, found, run⟩ := Synth.lift_bind_eq_ok.mp run
    obtain ⟨w', e₁, r, e₂, _, rest, same⟩ := Synth.bind_eq_ok.mp run
    obtain ⟨subtraces, pushed, rest⟩ := Synth.lift_bind_eq_ok.mp rest
    cases rest
    cases same
    rw [expect_eq_ok] at found
    exact ⟨romInv_get h found pushed rfl rfl, _, pushed⟩
  set pm name w vars pm' e h run := by
    change SetupRomPortalManager.set pm name w vars = _ at run
    rw [SetupRomPortalManager.set] at run
    split at run
    · cases run
    · obtain ⟨value, e₁, r, e₂, first, rest, same⟩ := Synth.bind_eq_ok.mp run
      cases first
      obtain ⟨subtraces, pushed, rest⟩ := Synth.lift_bind_eq_ok.mp rest
      cases rest
      cases same
      exact ⟨romInv_set h pushed rfl rfl, _, pushed, rfl⟩

omit [DecidableEq F] in
theorem rom_follows {e next : TranscriptEntry F .rom}
    (step : next = e ∨ next.addr = e.addr + 1) : Follows e.assigned next.assigned := by
  rcases step with rfl | up
  · cases next
    exact ⟨Or.inl rfl, fun _ => rfl⟩
  · cases e with | rom e =>
    cases next with | rom next =>
    have cast : (next.addr : F) = e.addr + 1 := by
      rw [show next.addr = e.addr + 1 from up, Nat.cast_succ]
    refine ⟨Or.inr cast, fun same => ?_⟩
    exact absurd (cast.symm.trans same) (by simp)

omit [DecidableEq F] in
/-- A recorded and sorted ROM trace passes every check. -/
theorem rom_honest {pm : SetupRomPortalManager F} (h : RomInv pm)
    {times addrs : List (List (TranscriptEntry F .rom))} (recorded : pm.subtraces = times)
    (sorted : SortedByAddr times addrs) : HonestTraces times addrs := by
  subst recorded
  refine ⟨sorted, ?_, ?_⟩
  · have steps := h.numbered.isChain sorted.perm sorted.sorted
    rw [List.isChain_map]
    have chain := (List.isChain_map (l := Entry.padding .rom :: addrs.flatten) Entry.addr).mp steps
    refine chain.imp_of_mem_tail_imp fun e next he hnext step => rom_follows ?_
    have inTrace : ∀ x ∈ addrs.flatten, x ∈ pm.subtraces.flatten :=
      fun x hx => sorted.perm.mem_iff.mp hx
    rcases List.mem_cons.mp he with rfl | he
    · refine Or.inr (step.resolve_left fun zero => ?_)
      exact absurd zero (Nat.ne_of_gt (h.numbered.bounded next (inTrace next hnext)).1)
    · exact step.imp (fun same => h.unique _ (inTrace next hnext) _ (inTrace e he) same) id
  · rw [List.isChain_map]
    refine List.isChain_iff_getElem.mpr fun i hi => ?_
    cases pm.subtraces.flatten[i]
    cases pm.subtraces.flatten[i + 1]
    trivial

end Rom

section Ram

/-- The clock after `n` ticks. -/
def tick : Nat → Unsigned32
  | 0 => Unsigned32.default
  | n + 1 => (tick n).incrementInplace

theorem representation_tick (n : Nat) : (tick n).representation = n % 2 ^ 32 := by
  induction n with
  | zero => exact Unsigned32.representation_default
  | succ n ih => rw [tick, Unsigned32.representation_increment, ih, Nat.mod_add_mod]

/-- Names have addresses of their own, below the next free one. -/
structure AddressInv (am : AddressManager) : Prop where
  positive : 0 < am.currentAddress
  named : ∀ name a, am.addresses name = some a → 0 < a ∧ a < am.currentAddress
  distinct : ∀ name name' a, am.addresses name = some a → am.addresses name' = some a →
    name = name'

/-- What looking up a name does to the numbering. -/
structure Named (am : AddressManager) (name : String) (r : Nat × AddressManager) : Prop where
  inv : AddressInv r.2
  found : r.2.addresses name = some r.1
  others : ∀ other, other ≠ name → r.2.addresses other = am.addresses other
  numbered : ∀ (trace : List (TranscriptEntry F m)) e, Numbered am.currentAddress trace →
    e.addr = r.1 → Numbered r.2.currentAddress (trace ++ [e])

theorem nameToAddr_named {am : AddressManager} (h : AddressInv am) (name : String) :
    Named (F := F) (m := m) am name (am.nameToAddr name) := by
  rw [AddressManager.nameToAddr]
  split
  · rename_i address found
    obtain ⟨low, high⟩ := h.named name address found
    refine ⟨h, found, fun _ _ => rfl, fun trace e numbered same => ?_⟩
    exact numbered.again (by rwa [same]) (by rwa [same])
  · rename_i missing
    refine ⟨⟨Nat.succ_pos _, ?_, ?_⟩, Function.update_self .., ?_, ?_⟩
    · intro other a found
      simp only [Function.update_apply] at found
      split at found
      · cases found
        exact ⟨h.positive, Nat.lt_succ_self _⟩
      · obtain ⟨low, high⟩ := h.named other a found
        exact ⟨low, Nat.lt_succ_of_lt high⟩
    · intro one other a found found'
      simp only [Function.update_apply] at found found'
      split at found <;> split at found'
      · rename_i here there
        rw [here, there]
      · cases found
        exact absurd (h.named other _ found').2 (Nat.lt_irrefl _)
      · cases found'
        exact absurd (h.named one _ found).2 (Nat.lt_irrefl _)
      · exact h.distinct one other a found found'
    · exact fun other distinct => Function.update_of_ne distinct _ _
    · exact fun trace e numbered same => numbered.fresh same

/-- What the RAM setup manager keeps: its trace is numbered, stamped and coherent, and
`varMap` knows the last write to each name. -/
structure RamInv (pm : SetupRamPortalManager F) : Prop where
  numbered : Numbered pm.address.currentAddress pm.subtraces.flatten
  address : AddressInv pm.address
  known : ∀ name v, pm.varMap name = some v → ∃ a, pm.address.addresses name = some a ∧
    lastWrite a (pm.subtraces.flatten.map memoryAccess) = some v
  coherent : Coherent (pm.subtraces.flatten.map memoryAccess)
  timed : ∀ j e, pm.subtraces.flatten[j]? = some (Entry.ram e) → e.i = tick j
  clock : pm.timeIndex = tick pm.subtraces.flatten.length

theorem ramInv_new : RamInv (SetupRamPortalManager.new : SetupRamPortalManager F) where
  numbered := .nil
  address := ⟨Nat.one_pos, fun _ _ h => (nomatch h), fun _ _ _ h _ => (nomatch h)⟩
  known := fun _ _ h => nomatch h
  coherent := coherent_nil
  timed := fun _ _ h => nomatch h
  clock := rfl

theorem ramInv_start {pm : SetupRamPortalManager F} (h : RamInv pm) : RamInv pm.startSubtrace := by
  have same : pm.startSubtrace.subtraces.flatten = pm.subtraces.flatten := by
    simp [SetupRamPortalManager.startSubtrace]
  obtain ⟨numbered, address, known, coherent, timed, clock⟩ := h
  rw [← same] at numbered known coherent timed clock
  exact ⟨numbered, address, known, coherent, timed, clock⟩

/-- A new entry is stamped with the clock, and the clock ticks. -/
theorem timed_push {l : List (TranscriptEntry F .ram)} {e : RamEntry Nat F}
    (timed : ∀ j x, l[j]? = some (Entry.ram x) → x.i = tick j) (now : e.i = tick l.length) :
    ∀ j x, (l ++ [Entry.ram e])[j]? = some (Entry.ram x) → x.i = tick j := by
  intro j x hx
  rcases Nat.lt_or_ge j l.length with inside | beyond
  · rw [List.getElem?_append_left inside] at hx
    exact timed j x hx
  · rw [List.getElem?_append_right beyond, List.getElem?_singleton] at hx
    split at hx
    · rename_i last
      cases hx
      rwa [show j = l.length by omega]
    · cases hx

theorem ramInv_get {pm pm' : SetupRamPortalManager F} {name : String} {v : F} (h : RamInv pm)
    (found : pm.varMap name = some v) (pushed : pushEntry pm.subtraces
      (.ram ⟨(pm.address.nameToAddr name).1, v, pm.timeIndex, true⟩) = .ok pm'.subtraces)
    (address : pm'.address = (pm.address.nameToAddr name).2)
    (clock : pm'.timeIndex = pm.timeIndex.incrementInplace) (names : pm'.varMap = pm.varMap) :
    RamInv pm' := by
  have trace := pushEntry_flatten pushed
  obtain ⟨a, known, value⟩ := h.known name v found
  have same : pm.address.nameToAddr name = (a, pm.address) := by
    rw [AddressManager.nameToAddr, known]
  have numbered := (nameToAddr_named (F := F) (m := .ram) h.address name).numbered
    pm.subtraces.flatten (.ram ⟨a, v, pm.timeIndex, true⟩) h.numbered (by rw [same]; rfl)
  rw [same] at trace address numbered
  refine ⟨?_, ?_, ?_, ?_, ?_, ?_⟩
  · rwa [trace, address]
  · rw [address]
    exact h.address
  · intro name' v' found'
    rw [names] at found'
    obtain ⟨a', known', value'⟩ := h.known name' v' found'
    refine ⟨a', by rwa [address], ?_⟩
    rw [trace, List.map_append, List.map_singleton, lastWrite_read rfl]
    exact value'
  · rw [trace, List.map_append, List.map_singleton]
    exact coherent_snoc.mpr ⟨h.coherent, fun _ => value⟩
  · rw [trace]
    exact timed_push h.timed h.clock
  · rw [trace, clock, h.clock, List.length_append]
    rfl

theorem ramInv_set {pm pm' : SetupRamPortalManager F} {name : String} {v : F} (h : RamInv pm)
    (pushed : pushEntry pm.subtraces
      (.ram ⟨(pm.address.nameToAddr name).1, v, pm.timeIndex, false⟩) = .ok pm'.subtraces)
    (address : pm'.address = (pm.address.nameToAddr name).2)
    (clock : pm'.timeIndex = pm.timeIndex.incrementInplace)
    (names : pm'.varMap = Function.update pm.varMap name (some v)) : RamInv pm' := by
  have trace := pushEntry_flatten pushed
  have named := nameToAddr_named (F := F) (m := .ram) h.address name
  refine ⟨?_, ?_, ?_, ?_, ?_, ?_⟩
  · rw [trace, address]
    exact named.numbered _ _ h.numbered rfl
  · rw [address]
    exact named.inv
  · intro name' v' found'
    rw [trace, address, List.map_append, List.map_singleton]
    rw [names, Function.update_apply] at found'
    split at found'
    · rename_i same
      cases found'
      exact ⟨_, same ▸ named.found, lastWrite_write rfl rfl⟩
    · rename_i distinct
      obtain ⟨a', known', value'⟩ := h.known name' v' found'
      have kept := (named.others name' distinct).trans known'
      refine ⟨a', kept, ?_⟩
      rw [lastWrite_snoc, if_neg]
      · exact value'
      · rintro ⟨same, _⟩
        exact distinct (named.inv.distinct name' name a' kept (same ▸ named.found))
  · rw [trace, List.map_append, List.map_singleton]
    exact coherent_snoc.mpr ⟨h.coherent, fun read => nomatch read⟩
  · rw [trace]
    exact timed_push h.timed h.clock
  · rw [trace, clock, h.clock, List.length_append]
    rfl

variable [Field F] [DecidableEq F] [Inhabited D] [DecidableEq D]

/-- The RAM setup manager records, and keeps its invariant. -/
theorem ramRecords : Records D (F := F) SetupRamPortalManager.subtraces RamInv
    SetupRamPortalManager.startSubtrace where
  start pm h := ⟨ramInv_start h, rfl⟩
  get pm name vars w pm' e h run := by
    change SetupRamPortalManager.get pm name vars = _ at run
    obtain ⟨value, found, run⟩ := Synth.lift_bind_eq_ok.mp run
    obtain ⟨w', e₁, r, e₂, _, rest, same⟩ := Synth.bind_eq_ok.mp run
    obtain ⟨subtraces, pushed, rest⟩ := Synth.lift_bind_eq_ok.mp rest
    cases rest
    cases same
    rw [expect_eq_ok] at found
    exact ⟨ramInv_get h found pushed rfl rfl rfl, _, pushed⟩
  set pm name w vars pm' e h run := by
    change SetupRamPortalManager.set pm name w vars = _ at run
    obtain ⟨value, e₁, r, e₂, first, rest, same⟩ := Synth.bind_eq_ok.mp run
    cases first
    obtain ⟨subtraces, pushed, rest⟩ := Synth.lift_bind_eq_ok.mp rest
    cases rest
    cases same
    exact ⟨ramInv_set h pushed rfl rfl rfl, _, pushed, rfl⟩

omit [DecidableEq F]

/-- The three native facts about neighbours that the field checks follow from. -/
theorem ram_follows {e next : TranscriptEntry F .ram}
    (step : next.addr = e.addr ∨ next.addr = e.addr + 1)
    (continues : Continues (memoryAccess e) (memoryAccess next))
    (later : next.addr = e.addr → e.timestamp < next.timestamp) :
    Follows e.assigned next.assigned := by
  cases e with | ram e =>
  cases next with | ram next =>
  change next.addr = e.addr ∨ next.addr = e.addr + 1 at step
  obtain ⟨same, fresh⟩ := continues
  rcases step with addr | up
  · have cast : (next.addr : F) = e.addr := congrArg _ addr
    refine ⟨Or.inl cast, fun increasing => ?_, fun _ => same addr, fun _ => later addr⟩
    exact absurd (cast.symm.trans increasing) (by simp)
  · have cast : (next.addr : F) = e.addr + 1 := by rw [up, Nat.cast_succ]
    have apart : (next.addr : F) ≠ e.addr := fun h => by simp [cast] at h
    refine ⟨Or.inr cast, fun _ => fresh ?_, fun h => absurd h apart, fun h => absurd h apart⟩
    exact fun h : next.addr = e.addr => by omega

omit [Field F] in
/-- The timestamps are the positions, as far as the clock counts. -/
theorem timestamp_eq {pm : SetupRamPortalManager F} (h : RamInv pm) {j : Nat}
    {e : TranscriptEntry F .ram} (found : pm.subtraces.flatten[j]? = some e) :
    e.timestamp = j % 2 ^ 32 := by
  cases e with
  | ram e =>
    change e.i.representation = j % 2 ^ 32
    rw [h.timed j e found, representation_tick]

omit [Field F] in
/-- With at most `2 ^ 32` entries the timestamps are the positions. -/
theorem timestamps_increase {pm : SetupRamPortalManager F} (h : RamInv pm)
    (small : pm.subtraces.flatten.length ≤ 2 ^ 32) :
    pm.subtraces.flatten.Pairwise fun e next => e.timestamp < next.timestamp := by
  have stamp : ∀ (j : Nat) (hj : j < pm.subtraces.flatten.length),
      pm.subtraces.flatten[j].timestamp = j := by
    intro j hj
    rw [timestamp_eq h (List.getElem?_eq_getElem hj), Nat.mod_eq_of_lt (by omega)]
  rw [List.pairwise_iff_getElem]
  intro i j hi hj below
  rw [stamp i hi, stamp j hj]
  exact below

omit [Field F] in
/-- Sorting keeps the time order of each address, strictly. -/
theorem sorted_increase {times addrs : List (List (TranscriptEntry F .ram))}
    (sorted : SortedByAddr times addrs)
    (increase : times.flatten.Pairwise fun e next => e.timestamp < next.timestamp) :
    addrs.flatten.Pairwise fun e next => e.addr = next.addr → e.timestamp < next.timestamp := by
  have distinct : addrs.flatten.Pairwise fun e next => e.timestamp ≠ next.timestamp :=
    (sorted.perm.pairwise_iff fun h => h.symm).mpr (increase.imp Nat.ne_of_lt)
  refine (sorted.sorted.and distinct).imp ?_
  rintro (_ | e) (_ | next) ⟨key, apart⟩ same
  rcases key with below | ⟨_, le⟩
  · exact absurd same (Nat.ne_of_lt below)
  · exact Nat.lt_of_le_of_ne le apart

/-- A recorded and sorted RAM trace passes every check. -/
theorem ram_honest {pm : SetupRamPortalManager F} (h : RamInv pm)
    {times addrs : List (List (TranscriptEntry F .ram))} (recorded : pm.subtraces = times)
    (small : times.flatten.length ≤ 2 ^ 32) (sorted : SortedByAddr times addrs) :
    HonestTraces times addrs := by
  subst recorded
  have increase := timestamps_increase h small
  have grouped := sorted_increase sorted increase
  have coherent : Coherent (addrs.flatten.map memoryAccess) := by
    refine coherent_of_perm (sorted.perm.symm.map memoryAccess) ?_ ?_ h.coherent
    · rw [List.pairwise_map]
      refine increase.imp fun below _ => ?_
      simpa only [memoryAccess_time] using below
    · rw [List.pairwise_map]
      refine grouped.imp fun below same => ?_
      simp only [memoryAccess_addr] at same
      simpa only [memoryAccess_time] using Nat.le_of_lt (below same)
  have continues : (addrs.flatten.map memoryAccess).IsChain Continues := by
    refine chain_of_coherent coherent ?_
    rw [List.pairwise_map]
    refine sorted.sorted.imp fun key => ?_
    simpa only [memoryAccess_addr] using keyLe_addr key
  have positive : ∀ e ∈ addrs.flatten, 0 < e.addr :=
    fun e he => (h.numbered.bounded e (sorted.perm.mem_iff.mp he)).1
  have steps := (List.isChain_map (l := Entry.padding .ram :: addrs.flatten) Entry.addr).mp
    (h.numbered.isChain sorted.perm sorted.sorted)
  have linked : (Entry.padding .ram :: addrs.flatten).IsChain
      (fun e next => Continues (memoryAccess e) (memoryAccess next)) := by
    rw [List.isChain_map] at continues
    refine List.isChain_cons.mpr ⟨fun next hnext => ⟨fun same => ?_, fun _ => ?_⟩, continues⟩
    · rw [memoryAccess_addr, memoryAccess_addr] at same
      exact absurd same (Nat.ne_of_gt (positive next (List.mem_of_mem_head? hnext)))
    · refine opens_of_coherent coherent (memoryAccess next) ?_
      rw [List.head?_map, hnext]
      rfl
  have later : (Entry.padding .ram :: addrs.flatten).IsChain
      (fun e next => next.addr = e.addr → e.timestamp < next.timestamp) := by
    refine List.isChain_cons.mpr ⟨fun next hnext same => ?_, ?_⟩
    · exact absurd same (Nat.ne_of_gt (positive next (List.mem_of_mem_head? hnext)))
    · exact grouped.isChain.imp fun e next below same => below same.symm
  refine ⟨sorted, ?_, ?_⟩
  · rw [List.isChain_map]
    exact List.isChain_iff_getElem.mpr fun i hi =>
      ram_follows (steps.getElem i hi) (linked.getElem i hi) (later.getElem i hi)
  · rw [List.isChain_map]
    refine List.isChain_iff_getElem.mpr fun i hi => ?_
    have here := h.timed i
    have there := h.timed (i + 1)
    rw [List.getElem?_eq_getElem (Nat.lt_of_succ_lt hi)] at here
    rw [List.getElem?_eq_getElem hi] at there
    cases entry : pm.subtraces.flatten[i] with
    | ram e =>
      cases following : pm.subtraces.flatten[i + 1] with
      | ram next =>
        change next.i = e.i.incrementInplace
        rw [there next (congrArg some following), here e (congrArg some entry), tick]

end Ram
end Recordings
