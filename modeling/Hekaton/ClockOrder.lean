import Hekaton.Recordings
import Mathlib

/-!
# The order of the clock

The gadget of the RAM checks compares two bit vectors of one width as numbers. The setup
manager stamps each access with a clock of 32 bits that wraps: its trace is in the order of
its timestamps, and sorting it by address keeps the program order, exactly while it has at
most `2 ^ 32` accesses.
-/

namespace ClockOrder

open Outcomes Wires Synthesis Contracts Uint32 Transcript PortalManager PortalChecks MemoryTraces
open Coordinator Scripts Recordings Relation

section Comparison
variable {F D : Type} [Field F] [DecidableEq F] [DecidableEq D]

/-- The comparison runs, and its answer is the order of the two numbers in every assignment
that satisfies its rows. -/
theorem isGreaterThan_exact {bits other : List (Wire F D .bool)}
    (width : bits.length = other.length) :
    Total (isGreaterThan bits other) (fun _ => True) ∧
      ∀ z : Assignment F D, Forces z (isGreaterThan bits other) fun w =>
        (w.eval z = true ↔ Bits.toNat (values z other) < Bits.toNat (values z bits)) := by
  obtain ⟨w, run, compares⟩ := isGreaterThan_computes width
  constructor
  · exact run.total.mono fun _ _ => trivial
  · intro z
    refine run.forces.mono ?_
    rintro _ rfl
    rw [compares z, decide_eq_true_iff]

/-- The top bit decides. -/
def four : List (Wire (ZMod 3) Unit .bool) := [.constant false, .constant false, .constant true]

def three : List (Wire (ZMod 3) Unit .bool) := [.constant true, .constant true, .constant false]

theorem four_greater : Total (isGreaterThan four three) (fun _ => True) ∧
    ∀ z : Assignment (ZMod 3) Unit, Forces z (isGreaterThan four three) (fun w => w.eval z = true) ∧
      Forces z (isGreaterThan four four) fun w => w.eval z = false := by
  have width : four.length = three.length := rfl
  refine ⟨(isGreaterThan_exact width).1, fun z => ⟨?_, ?_⟩⟩
  · refine ((isGreaterThan_exact width).2 z).mono fun w same => same.mpr ?_
    change 3 < 4
    decide
  · refine ((isGreaterThan_exact (rfl : four.length = four.length)).2 z).mono fun w same => ?_
    exact Bool.eq_false_iff.mpr fun greater => absurd (same.mp greater) (Nat.lt_irrefl _)

end Comparison

section Runs
variable {F : Type} (D : Type) [Field F] [DecidableEq F] [Inhabited D] [DecidableEq D]

/-- One call of the manager that does not panic. -/
inductive Call : SetupRamPortalManager F → SetupRamPortalManager F → Prop where
  | startSubtrace (pm : SetupRamPortalManager F) : Call pm pm.startSubtrace
  | get {pm pm' : SetupRamPortalManager F} {name : String} {vars : List (Variable F D)}
      {w : Wire F D .field} {e : Emission F D}
      (ran : SetupRamPortalManager.get pm name vars = .ok ((w, pm'), e)) : Call pm pm'
  | set {pm pm' : SetupRamPortalManager F} {name : String} {val : Wire F D .field}
      {vars : List (Variable F D)} {e : Emission F D}
      (ran : SetupRamPortalManager.set pm name val vars = .ok (pm', e)) : Call pm pm'

/-- A manager after any calls, from a new one. -/
def Reached (pm : SetupRamPortalManager F) : Prop := ReflTransGen (Call D) .new pm

variable {D} {pm : SetupRamPortalManager F}

theorem Reached.inv (reached : Reached D pm) : RamInv pm := by
  induction reached with
  | refl => exact ramInv_new
  | tail _ call inv =>
    cases call with
    | startSubtrace => exact ramInv_start inv
    | get ran => exact (ramRecords.get _ _ _ _ _ _ inv ran).1
    | set ran => exact (ramRecords.set _ _ _ _ _ _ inv ran).1

end Runs

section Traces
variable {F : Type} {pm : SetupRamPortalManager F}

/-- The trace is in the order of its timestamps; sorted by address, the accesses of each address
stand in program order and every read returns the latest write before it. -/
structure TimeOrdered (pm : SetupRamPortalManager F) : Prop where
  increasing : pm.subtraces.flatten.Pairwise fun e next => e.timestamp < next.timestamp
  programOrder : ∀ addrs, sortSubtracesByAddr pm.subtraces = .ok addrs → ∀ a,
    addrs.flatten.filter (fun e => e.addr = a) = pm.subtraces.flatten.filter fun e => e.addr = a
  reads : ∀ addrs, sortSubtracesByAddr pm.subtraces = .ok addrs →
    Coherent (addrs.flatten.map memoryAccess)

theorem sorted_of_ok {times addrs : List (List (TranscriptEntry F .ram))}
    (ran : sortSubtracesByAddr times = .ok addrs) : SortedByAddr times addrs := by
  have nonempty : times.flatten ≠ [] := by
    intro none
    rw [sortSubtracesByAddr, none] at ran
    cases ran
  obtain ⟨addrs', ran', sorted⟩ := sortSubtracesByAddr_spec nonempty
  cases ran.symm.trans ran'
  exact sorted

/-- The accesses of one address, in increasing time order on both sides. -/
theorem filter_sorted {times addrs : List (List (TranscriptEntry F .ram))}
    (sorted : SortedByAddr times addrs)
    (increasing : times.flatten.Pairwise fun e next => e.timestamp < next.timestamp) (a : Nat) :
    addrs.flatten.filter (fun e => e.addr = a) = times.flatten.filter fun e => e.addr = a := by
  have grouped := sorted_increase sorted increasing
  have later : (addrs.flatten.filter fun e => e.addr = a).Pairwise
      fun e next => e.timestamp < next.timestamp := by
    rw [List.pairwise_filter]
    refine grouped.imp fun below here there => below ?_
    rw [of_decide_eq_true here, of_decide_eq_true there]
  refine (sorted.perm.filter _).eq_of_pairwise ?_ later (increasing.filter _)
  intro e next _ _ below above
  exact absurd (Nat.lt_trans below above) (Nat.lt_irrefl _)

theorem coherent_sorted {times addrs : List (List (TranscriptEntry F .ram))}
    (sorted : SortedByAddr times addrs)
    (increasing : times.flatten.Pairwise fun e next => e.timestamp < next.timestamp)
    (coherent : Coherent (times.flatten.map memoryAccess)) :
    Coherent (addrs.flatten.map memoryAccess) := by
  refine coherent_of_perm (sorted.perm.symm.map memoryAccess) ?_ ?_ coherent
  · rw [List.pairwise_map]
    refine increasing.imp fun below _ => ?_
    simpa only [memoryAccess_time] using below
  · rw [List.pairwise_map]
    refine (sorted_increase sorted increasing).imp fun below same => ?_
    simp only [memoryAccess_addr] at same
    simpa only [memoryAccess_time] using Nat.le_of_lt (below same)

/-- The access after `2 ^ 32` others has the timestamp of the first. -/
theorem small_of_increasing (inv : RamInv pm)
    (increasing : pm.subtraces.flatten.Pairwise fun e next => e.timestamp < next.timestamp) :
    pm.subtraces.flatten.length ≤ 2 ^ 32 := by
  by_contra long
  have last : 2 ^ 32 < pm.subtraces.flatten.length := by omega
  have first : 0 < pm.subtraces.flatten.length := by omega
  have wraps := List.pairwise_iff_getElem.mp increasing 0 (2 ^ 32) first last (by decide)
  rw [timestamp_eq inv (List.getElem?_eq_getElem first),
    timestamp_eq inv (List.getElem?_eq_getElem last)] at wraps
  exact absurd wraps (by decide)

variable {D : Type} [Field F] [DecidableEq F] [Inhabited D] [DecidableEq D]

/-- A trace is in the order of its timestamps exactly while the clock has not wrapped. -/
theorem timeOrdered_iff (reached : Reached D pm) :
    TimeOrdered pm ↔ pm.subtraces.flatten.length ≤ 2 ^ 32 := by
  have inv := reached.inv
  constructor
  · exact fun ordered => small_of_increasing inv ordered.increasing
  · intro small
    have increasing := timestamps_increase inv small
    constructor
    · exact increasing
    · exact fun addrs ran => filter_sorted (sorted_of_ok ran) increasing
    · exact fun addrs ran => coherent_sorted (sorted_of_ok ran) increasing inv.coherent

end Traces

/-- A run that sets one wire so many times. -/
theorem sets_reached (n : Nat) : ∃ pm : SetupRamPortalManager (ZMod 3), Reached Unit pm ∧
    pm.subtraces ≠ [] ∧ pm.subtraces.flatten.length = n := by
  induction n with
  | zero => exact ⟨_, .single (.startSubtrace .new), List.cons_ne_nil _ _, rfl⟩
  | succ n ih =>
    obtain ⟨pm, reached, started, count⟩ := ih
    rcases List.eq_nil_or_concat' pm.subtraces with none | ⟨before, last, split⟩
    · exact absurd none started
    · let entry : TranscriptEntry (ZMod 3) .ram :=
        .ram ⟨(pm.address.nameToAddr "a").1, 1, pm.timeIndex, false⟩
      have pushed : pushEntry pm.subtraces entry = .ok (before ++ [last ++ [entry]]) := by
        rw [split, pushEntry_last]
      have ran : SetupRamPortalManager.set pm "a" (.constant (1 : ZMod 3) : Wire _ Unit .field) [] =
          .ok (⟨before ++ [last ++ [entry]], (pm.address.nameToAddr "a").2,
            pm.timeIndex.incrementInplace, Function.update pm.varMap "a" (some 1)⟩, .empty) := by
        rw [SetupRamPortalManager.set]
        refine Synth.bind_eq_ok.mpr ⟨1, .empty, _, .empty, rfl, ?_, rfl⟩
        exact Synth.bind_of_ok_empty (Synth.lift_eq_ok.mpr ⟨_, pushed, rfl⟩)
      refine ⟨_, reached.tail (.set ran), List.append_ne_nil_of_right_ne_nil _ (by simp), ?_⟩
      rw [split] at count
      simp only [List.flatten_append, List.flatten_singleton, List.length_append] at count ⊢
      rw [List.length_singleton, ← count, Nat.add_assoc]

/-- Three accesses are in order. -/
theorem threeSets_ordered : ∃ pm : SetupRamPortalManager (ZMod 3), Reached Unit pm ∧
    pm.subtraces.flatten.length = 3 ∧ TimeOrdered pm := by
  obtain ⟨pm, reached, _, count⟩ := sets_reached 3
  refine ⟨pm, reached, count, (timeOrdered_iff reached).mpr ?_⟩
  rw [count]
  decide

/-- One access more than the clock can count. -/
theorem wrappedClock_unordered : ∃ pm : SetupRamPortalManager (ZMod 3), Reached Unit pm ∧
    pm.subtraces.flatten.length = 2 ^ 32 + 1 ∧ ¬ TimeOrdered pm := by
  obtain ⟨pm, reached, _, count⟩ := sets_reached (2 ^ 32 + 1)
  refine ⟨pm, reached, count, fun ordered => ?_⟩
  have small := small_of_increasing reached.inv ordered.increasing
  rw [count] at small
  exact absurd small (Nat.not_succ_le_self _)

end ClockOrder
