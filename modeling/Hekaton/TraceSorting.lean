import Hekaton.Coordinator
import Hekaton.StableSorting
import Mathlib.Data.Prod.Lex

/-!
# The address-ordered trace

The trace is sorted by address, and for RAM by timestamp under an address. Cut back into
subtraces of the old sizes it has the same entries, and entries of one key stand in the order
they were recorded in.
-/

namespace TraceSorting

open Transcript Coordinator StableSorting

variable {F : Type} {m : MemType}

/-- The key that an entry is sorted by; a ROM entry has no timestamp. -/
def sortKey (e : TranscriptEntry F m) : Lex (Nat × Nat) := toLex (e.addr, e.timestamp)

theorem keyLe_iff (e e' : TranscriptEntry F m) : KeyLe e e' ↔ sortKey e ≤ sortKey e' := by
  rw [sortKey, sortKey, Prod.Lex.toLex_le_toLex]
  cases e with
  | rom e =>
    cases e' with
    | rom e' =>
      change e.addr ≤ e'.addr ↔ e.addr < e'.addr ∨ e.addr = e'.addr ∧ 0 ≤ 0
      omega
  | ram e =>
    cases e' with
    | ram e' => exact Iff.rfl

/-- Sorting keeps the entries and the sizes of the subtraces, and the order of the entries of
each key. -/
theorem sortSubtracesByAddr_stable {times : List (List (TranscriptEntry F m))}
    (nonempty : times.flatten ≠ []) :
    ∃ addrs, sortSubtracesByAddr times = .ok addrs ∧
      addrs.map List.length = times.map List.length ∧ addrs.flatten.Perm times.flatten ∧
      addrs.flatten.Pairwise (fun e e' => sortKey e ≤ sortKey e') ∧
      ∀ key, addrs.flatten.filter (fun e => sortKey e = key) =
        times.flatten.filter (fun e => sortKey e = key) := by
  obtain ⟨addrs, ran, sorted⟩ := sortSubtracesByAddr_spec nonempty
  refine ⟨addrs, ran, sorted.lengths, sorted.perm, ?_, fun key => ?_⟩
  · exact sorted.sorted.imp fun below => (keyLe_iff _ _).mp below
  · have flat : addrs.flatten = times.flatten.insertionSort KeyLe := by
      have sizes : (times.map List.length).sum = (times.flatten.insertionSort KeyLe).length := by
        rw [List.length_insertionSort, List.length_flatten]
      obtain ⟨e, trace, split⟩ := List.exists_cons_of_ne_nil nonempty
      rw [sortSubtracesByAddr, split] at ran
      cases ran
      rw [← split, rechunk_flatten sizes]
    rw [flat]
    apply filter_insertionSort
    intro e e' he he'
    rw [keyLe_iff, of_decide_eq_true he, of_decide_eq_true he']

/-- Two entries of one address, with an empty subtrace in front. -/
def splitAddress : List (List (TranscriptEntry Nat .rom)) :=
  [[], [.rom ⟨1, 7⟩, .rom ⟨0, 5⟩], [.rom ⟨1, 8⟩]]

theorem splitAddress_stable : ∃ addrs, sortSubtracesByAddr splitAddress = .ok addrs ∧
    addrs.flatten.filter (fun e => sortKey e = toLex (1, 0)) = [.rom ⟨1, 7⟩, .rom ⟨1, 8⟩] := by
  have nonempty : splitAddress.flatten ≠ [] := List.cons_ne_nil _ _
  obtain ⟨addrs, ran, _, _, _, stable⟩ := sortSubtracesByAddr_stable nonempty
  exact ⟨addrs, ran, (stable _).trans (by decide)⟩

end TraceSorting
