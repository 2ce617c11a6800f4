import Hekaton.MemoryTraces
import Hekaton.PortalManager

/-!
# What the prover managers check

One call at position `k` of a prover's manager returns the value of the time-ordered
entry `k`, multiplies both evaluations by one factor, and checks a pair of adjacent
address-ordered entries: `k` and `k + 1` of the prepended trace for ROM, `k + 1` and
`k + 2` for RAM, which also compares the timestamps of two time-ordered entries. The
run lemma lifts this from one call to every call of a body.
-/

namespace PortalChecks

open Outcomes Wires Synthesis Contracts Uint32 Transcript PortalManager MemoryTraces

section Relations
variable {F : Type} [Field F] {m : MemType}

/-- The relation a manager checks of adjacent address-ordered entries. -/
def Follows : Entry F F m → Entry F F m → Prop
  | .rom e, .rom next =>
      (next.addr = e.addr ∨ next.addr = e.addr + 1) ∧ (next.addr = e.addr → e.val = next.val)
  | .ram e, .ram next =>
      (next.addr = e.addr ∨ next.addr = e.addr + 1) ∧
      (next.addr = e.addr + 1 → next.read = false) ∧
      (next.addr = e.addr → next.read = true → next.val = e.val) ∧
      (next.addr = e.addr → e.i.representation < next.i.representation)

theorem Follows.step {e next : Entry F F m} (h : Follows e next) :
    next.addr = e.addr ∨ next.addr = e.addr + 1 := by
  cases e <;> cases next
  · exact h.1
  · exact h.1

theorem Follows.value_eq {e next : Entry F F .rom} (h : Follows e next)
    (same : next.addr = e.addr) : e.value = next.value := by
  cases e; cases next
  exact h.2 same

theorem Follows.timestamp_lt {e next : Entry F F .ram} (h : Follows e next)
    (same : next.addr = e.addr) : e.timestamp < next.timestamp := by
  cases e; cases next
  exact h.2.2.2 same

/-- A RAM entry as a memory access. -/
def memoryAccess {A : Type} : Entry A F .ram → Access A F
  | .ram e => ⟨e.addr, e.val, e.i.representation, e.read⟩

section Access
omit [Field F]
variable {A : Type}

@[simp] theorem memoryAccess_addr (e : Entry A F .ram) : (memoryAccess e).addr = e.addr := by
  cases e
  rfl

@[simp] theorem memoryAccess_val (e : Entry A F .ram) : (memoryAccess e).val = e.value := by
  cases e
  rfl

@[simp] theorem memoryAccess_time (e : Entry A F .ram) :
    (memoryAccess e).time = e.timestamp := by
  cases e
  rfl

end Access

theorem Follows.continues {e next : Entry F F .ram} (h : Follows e next) :
    Continues (memoryAccess e) (memoryAccess next) := by
  cases e; cases next
  obtain ⟨step, write, same, _⟩ := h
  exact ⟨same, fun fresh => write (step.resolve_left fresh)⟩

instance [DecidableEq F] : (e next : Entry F F m) → Decidable (Follows e next)
  | .rom e, .rom next => inferInstanceAs (Decidable (
      (next.addr = e.addr ∨ next.addr = e.addr + 1) ∧ (next.addr = e.addr → e.val = next.val)))
  | .ram e, .ram next => inferInstanceAs (Decidable (
      (next.addr = e.addr ∨ next.addr = e.addr + 1) ∧
      (next.addr = e.addr + 1 → next.read = false) ∧
      (next.addr = e.addr → next.read = true → next.val = e.val) ∧
      (next.addr = e.addr → e.i.representation < next.i.representation)))

/-- The time check with the carry witness left open: the clock stands still or ticks. -/
def MayTick : Entry F F m → Entry F F m → Prop
  | .rom _, .rom _ => True
  | .ram e, .ram next => next.i = e.i ∨ next.i = e.i.incrementInplace

/-- The time check with the carry witness set. -/
def Ticks : Entry F F m → Entry F F m → Prop
  | .rom _, .rom _ => True
  | .ram e, .ram next => next.i = e.i.incrementInplace

/-- The first of the two address-ordered entries that call `0` compares. -/
def pairOffset : MemType → Nat
  | .rom => 0
  | .ram => 1

/-- What call `k` checks of the time-ordered `times` and the prepended `addrs`. -/
structure Checked (tick : Entry F F m → Entry F F m → Prop) (times addrs : List (Entry F F m))
    (k : Nat) : Prop where
  follows : ∀ e next, addrs[k + pairOffset m]? = some e →
    addrs[k + pairOffset m + 1]? = some next → Follows e next
  ticks : ∀ e next, times[k]? = some e → times[k + 1]? = some next → tick e next

end Relations

variable {F D : Type} [Field F] [DecidableEq F] [DecidableEq D] {m : MemType}
variable {z : Assignment F D}

section Pairs

theorem romAddrCheck_forces (e next : TranscriptEntryVar F D .rom) :
    Forces z (romAddrCheck e next) (fun _ => Follows (e.value z) (next.value z)) := by
  cases e with | rom e =>
  cases next with | rom next =>
  refine .define_bind (.define_bind (.define_bind (.emit_bind fun step => ?_)))
  refine Forces.emit.mono fun _ same => ⟨?_, ?_⟩
  · exact (Wire.eval_or.mp step).imp Wire.eval_isEq.mp Wire.eval_isEq.mp
  · exact fun sameAddr => same (Wire.eval_isEq.mpr sameAddr)

theorem romAddrCheck_admits {e next : TranscriptEntryVar F D .rom}
    (h : Follows (e.value z) (next.value z)) :
    Admits z (romAddrCheck e next) (fun _ => True) := by
  cases e with | rom e =>
  cases next with | rom next =>
  obtain ⟨step, same⟩ := h
  refine .define_bind (.define_bind (.define_bind (.emit_bind ?_ (.emit ?_))))
  · exact Wire.eval_or.mpr (step.imp Wire.eval_isEq.mpr Wire.eval_isEq.mpr)
  · exact fun sameAddr => same (Wire.eval_isEq.mp sameAddr)

theorem ramAddrCheck_forces (e next : TranscriptEntryVar F D .ram) :
    Forces z (ramAddrCheck e next) (fun _ => Follows (e.value z) (next.value z)) := by
  cases e with | ram e =>
  cases next with | ram next =>
  obtain ⟨w, compare, hw⟩ := isGreaterThan_computes (next.i.width.trans e.i.width.symm)
  refine .define_bind (.define_bind (.define_bind (.emit_bind fun step =>
    .emit_bind fun write => .define_bind (.define_bind (.emit_bind fun same =>
    compare.forces_bind (Forces.emit.mono fun _ later => ⟨?_, ?_, ?_, ?_⟩))))))
  · exact (Wire.eval_or.mp step).imp Wire.eval_isEq.mp Wire.eval_isEq.mp
  · exact fun increasing => write (Wire.eval_isEq.mpr increasing)
  · exact fun sameAddr read =>
      same (Wire.eval_and.mpr ⟨Wire.eval_isEq.mpr sameAddr, Wire.eval_isEq.mpr read⟩)
  · intro sameAddr
    have greater : w.eval z = true := later (Wire.eval_isEq.mpr sameAddr)
    rw [hw z] at greater
    rw [Unsigned32.representation_eq, Unsigned32.representation_eq]
    exact of_decide_eq_true greater

theorem ramAddrCheck_admits {e next : TranscriptEntryVar F D .ram}
    (h : Follows (e.value z) (next.value z)) :
    Admits z (ramAddrCheck e next) (fun _ => True) := by
  cases e with | ram e =>
  cases next with | ram next =>
  obtain ⟨w, compare, hw⟩ := isGreaterThan_computes (next.i.width.trans e.i.width.symm)
  obtain ⟨step, write, same, later⟩ := h
  refine .define_bind (.define_bind (.define_bind (.emit_bind ?_
    (.emit_bind ?_ (.define_bind (.define_bind (.emit_bind ?_
    (compare.admits_bind (.emit ?_)))))))))
  · exact Wire.eval_or.mpr (step.imp Wire.eval_isEq.mpr Wire.eval_isEq.mpr)
  · exact fun increasing => write (Wire.eval_isEq.mp increasing)
  · intro both
    obtain ⟨sameAddr, read⟩ := Wire.eval_and.mp both
    exact same (Wire.eval_isEq.mp sameAddr) (Wire.eval_isEq.mp read)
  · intro sameAddr
    have greater := later (Wire.eval_isEq.mp sameAddr)
    rw [Unsigned32.representation_eq, Unsigned32.representation_eq] at greater
    exact (hw z).trans (decide_eq_true greater)

theorem ramTimeCheck_forces (e next : TranscriptEntryVar F D .ram) :
    Forces z (ramTimeCheck e next) (fun _ => MayTick (e.value z) (next.value z)) := by
  cases e with | ram e =>
  cases next with | ram next =>
  refine (incrementInplace_forces e.i).bind fun t ht => ?_
  obtain ⟨width, clock⟩ := ht
  refine (enforceEqual_forces (width.trans next.i.width.symm)).mono fun _ same => ?_
  rcases clock with still | tick
  · exact Or.inl (Unsigned32.ext (same.symm.trans still))
  · exact Or.inr (Unsigned32.ext ((same.symm.trans tick).trans (value_increment e.i)))

theorem ramTimeCheck_admits {e next : TranscriptEntryVar F D .ram}
    (h : Ticks (e.value z) (next.value z)) :
    Admits z (ramTimeCheck e next) (fun _ => True) := by
  cases e with | ram e =>
  cases next with | ram next =>
  refine (incrementInplace_admits e.i).bind fun t ht => enforceEqual_admits ?_
  have ticked : next.i.value z = (e.i.value z).incrementInplace := h
  exact (ht.trans (value_increment e.i)).trans (congrArg Unsigned32.bits ticked).symm

omit [DecidableEq F] [DecidableEq D] in
theorem romAddrCheck_parallel (e next : TranscriptEntryVar F D .rom) :
    Parallel (romAddrCheck e next) (romAddrCheck e next) (fun _ _ => True) := by
  cases e with | rom e =>
  cases next with | rom next =>
  refine .bind_eq (.define _) fun _ => .bind_eq (.define _) fun _ =>
    .bind_eq (.define _) fun _ => .bind_eq (.emit _) fun _ => ?_
  exact (Parallel.emit _).mono fun _ _ _ => trivial

theorem ramAddrCheck_parallel (e next : TranscriptEntryVar F D .ram) :
    Parallel (ramAddrCheck e next) (ramAddrCheck e next) (fun _ _ => True) := by
  cases e with | ram e =>
  cases next with | ram next =>
  obtain ⟨w, compare, _⟩ := isGreaterThan_computes (next.i.width.trans e.i.width.symm)
  refine .bind_eq (.define _) fun _ => .bind_eq (.define _) fun _ =>
    .bind_eq (.define _) fun _ => .bind_eq (.emit _) fun _ => .bind_eq (.emit _) fun _ =>
    .bind_eq (.define _) fun _ => .bind_eq (.define _) fun _ => .bind_eq (.emit _) fun _ =>
    compare.parallel_bind ?_
  exact (Parallel.emit _).mono fun _ _ _ => trivial

theorem ramTimeCheck_parallel (e next : TranscriptEntryVar F D .ram) :
    Parallel (ramTimeCheck e next) (ramTimeCheck e next) (fun _ _ => True) := by
  cases e with | ram e =>
  cases next with | ram next =>
  refine (incrementInplace_parallel e.i).bind ?_
  rintro t _ ⟨rfl, width⟩
  exact enforceEqual_parallel (width.trans next.i.width.symm)

end Pairs

section Calls

/-- The time-ordered entries an assignment gives to a manager. -/
def times (z : Assignment F D) (pm : ProverPortalManager F D m) : List (Entry F F m) :=
  pm.timeOrderedSubtrace.map (TranscriptEntryVar.value z)

/-- The prepended address-ordered entries an assignment gives to a manager. -/
def addrs (z : Assignment F D) (pm : ProverPortalManager F D m) : List (Entry F F m) :=
  pm.addrOrderedSubtrace.map (TranscriptEntryVar.value z)

omit [DecidableEq F] [DecidableEq D] in
/-- `pm'` is `pm` moved on by `n` entries, with the same traces and challenges. -/
structure Advances (c : Challenges (Wire F D .field) m) (n : Nat)
    (pm pm' : ProverPortalManager F D m) : Prop where
  times : pm'.timeOrderedSubtrace = pm.timeOrderedSubtrace
  addrs : pm'.addrOrderedSubtrace = pm.addrOrderedSubtrace
  next : pm'.nextEntryIdx = pm.nextEntryIdx + n
  set : pm'.runningEvals.challenges = some c

/-- What one call does: its value, both evaluations, and the checks of its position. -/
structure Called (tick : Entry F F m → Entry F F m → Prop) (z : Assignment F D)
    (c : Challenges (Wire F D .field) m) (pm : ProverPortalManager F D m)
    (r : Wire F D .field × ProverPortalManager F D m) : Prop where
  advances : Advances c 1 pm r.2
  timed : ∃ t, (times z pm)[pm.nextEntryIdx]? = some t ∧ (r.1.eval z : F) = t.value ∧
    (r.2.runningEvals.timeOrderedEval.eval z : F) =
      (pm.runningEvals.timeOrderedEval.eval z : F) * (c.value z).factor t
  addressed : ∃ a, (addrs z pm)[pm.nextEntryIdx + 1]? = some a ∧
    (r.2.runningEvals.addrOrderedEval.eval z : F) =
      (pm.runningEvals.addrOrderedEval.eval z : F) * (c.value z).factor a
  checked : Checked tick (times z pm) (addrs z pm) pm.nextEntryIdx

theorem times_getElem? {pm : ProverPortalManager F D m} {k : Nat} {t : TranscriptEntryVar F D m}
    (h : pm.timeOrderedSubtrace[k]? = some t) : (times z pm)[k]? = some (t.value z) := by
  rw [times, List.getElem?_map, h, Option.map_some]

theorem addrs_getElem? {pm : ProverPortalManager F D m} {k : Nat} {a : TranscriptEntryVar F D m}
    (h : pm.addrOrderedSubtrace[k]? = some a) : (addrs z pm)[k]? = some (a.value z) := by
  rw [addrs, List.getElem?_map, h, Option.map_some]

theorem value_val (t : TranscriptEntryVar F D m) : (t.val.eval z : F) = (t.value z).value := by
  cases t <;> rfl

variable {c : Challenges (Wire F D .field) m}

theorem romGet_forces {pm : RomProverPortalManager F D}
    {c : Challenges (Wire F D .field) .rom} (set : pm.runningEvals.challenges = some c) :
    Forces z (RomProverPortalManager.get pm) (Called MayTick z c pm) := by
  refine .lift_bind fun t ht => .lift_bind fun a ha => ?_
  obtain ⟨w, update, hw⟩ := updateTimeOrdered_computes pm.runningEvals set t
  refine update.forces_bind (.lift_bind fun next hnext => ?_)
  refine (romAddrCheck_forces a next).bind fun _ follows => ?_
  obtain ⟨w', update', hw'⟩ := updateAddrOrdered_computes
    { pm.runningEvals with timeOrderedEval := w } set next
  refine update'.forces_bind (.pure ?_)
  rw [expect_eq_ok] at ht ha hnext
  refine ⟨⟨rfl, rfl, rfl, set⟩, ?_, ?_, ?_⟩
  · exact ⟨t.value z, times_getElem? ht, value_val t, hw z⟩
  · exact ⟨next.value z, addrs_getElem? hnext, hw' z⟩
  · refine ⟨fun e e' he he' => ?_, fun e e' _ _ => ?_⟩
    · cases (addrs_getElem? ha).symm.trans he
      cases (addrs_getElem? hnext).symm.trans he'
      exact follows
    · cases e; cases e'; trivial

theorem nextAddrCheck_forces (pm : RamProverPortalManager F D)
    (a : TranscriptEntryVar F D .ram) :
    Forces z (nextAddrCheck pm a) (fun _ => ∀ next : Entry F F .ram,
      (addrs z pm)[pm.nextEntryIdx + 2]? = some next → Follows (a.value z) next) := by
  rw [nextAddrCheck, addrs, List.getElem?_map]
  cases pm.addrOrderedSubtrace[pm.nextEntryIdx + 2]? with
  | none => exact .pure fun next h => nomatch h
  | some next =>
    refine (ramAddrCheck_forces a next).mono fun _ follows e he => ?_
    cases he
    exact follows

theorem nextTimeCheck_forces (pm : RamProverPortalManager F D)
    (t : TranscriptEntryVar F D .ram) :
    Forces z (nextTimeCheck pm t) (fun _ => ∀ next : Entry F F .ram,
      (times z pm)[pm.nextEntryIdx + 1]? = some next → MayTick (t.value z) next) := by
  rw [nextTimeCheck, times, List.getElem?_map]
  split
  · refine .lift_bind fun next hnext => (ramTimeCheck_forces t next).mono fun _ ticks e he => ?_
    rw [expect_eq_ok] at hnext
    rw [hnext] at he
    cases he
    exact ticks
  · rename_i last
    refine .pure fun e he => ?_
    rw [List.getElem?_eq_none (by omega)] at he
    cases he

theorem ramGet_forces {pm : RamProverPortalManager F D}
    {c : Challenges (Wire F D .field) .ram} (set : pm.runningEvals.challenges = some c) :
    Forces z (RamProverPortalManager.get pm) (Called MayTick z c pm) := by
  refine .lift_bind fun t ht => .lift_bind fun a ha => ?_
  obtain ⟨w, update, hw⟩ := updateTimeOrdered_computes pm.runningEvals set t
  obtain ⟨w', update', hw'⟩ := updateAddrOrdered_computes
    { pm.runningEvals with timeOrderedEval := w } set a
  refine update.forces_bind (update'.forces_bind ?_)
  refine (nextAddrCheck_forces pm a).bind fun _ follows => ?_
  refine (nextTimeCheck_forces pm t).bind fun _ ticks => ?_
  rw [expect_eq_ok] at ht ha
  refine .pure ⟨⟨rfl, rfl, rfl, set⟩, ?_, ?_, ?_⟩
  · exact ⟨t.value z, times_getElem? ht, value_val t, hw z⟩
  · exact ⟨a.value z, addrs_getElem? ha, hw' z⟩
  · refine ⟨fun e e' he he' => ?_, fun e e' he he' => ?_⟩
    · cases (addrs_getElem? ha).symm.trans he
      exact follows e' he'
    · cases (times_getElem? ht).symm.trans he
      exact ticks e' he'

/-- Whatever satisfies the rows of a call makes the call what it should be. -/
theorem get_forces {pm : ProverPortalManager F D m} (set : pm.runningEvals.challenges = some c)
    (name : String) : Forces z (pm.get name) (Called MayTick z c pm) := by
  cases m with
  | rom => exact romGet_forces set
  | ram => exact ramGet_forces set

theorem set_forces {pm : ProverPortalManager F D m} (set : pm.runningEvals.challenges = some c)
    (name : String) (val : Wire F D .field) :
    Forces z (pm.set name val) (fun pm' => ∃ w, Called MayTick z c pm (w, pm') ∧
      (val.eval z : F) = w.eval z) := by
  refine (get_forces set name).bind fun r called => .emit_bind fun same => ?_
  exact .pure ⟨r.1, called, same⟩

theorem romGet_admits {pm : RomProverPortalManager F D}
    {c : Challenges (Wire F D .field) .rom} (set : pm.runningEvals.challenges = some c)
    (honest : Checked Ticks (times z pm) (addrs z pm) pm.nextEntryIdx) :
    Admits z (RomProverPortalManager.get pm) (Called Ticks z c pm) := by
  refine .lift_bind fun t ht => .lift_bind fun a ha => ?_
  obtain ⟨w, update, hw⟩ := updateTimeOrdered_computes pm.runningEvals set t
  refine update.admits_bind (.lift_bind fun next hnext => ?_)
  rw [expect_eq_ok] at ht ha hnext
  have follows := honest.follows _ _ (addrs_getElem? ha) (addrs_getElem? hnext)
  refine (romAddrCheck_admits follows).bind fun _ _ => ?_
  obtain ⟨w', update', hw'⟩ := updateAddrOrdered_computes
    { pm.runningEvals with timeOrderedEval := w } set next
  refine update'.admits_bind (.pure ⟨⟨rfl, rfl, rfl, set⟩, ?_, ?_, honest⟩)
  · exact ⟨t.value z, times_getElem? ht, value_val t, hw z⟩
  · exact ⟨next.value z, addrs_getElem? hnext, hw' z⟩

theorem nextAddrCheck_admits {pm : RamProverPortalManager F D} {a : TranscriptEntryVar F D .ram}
    (ha : pm.addrOrderedSubtrace[pm.nextEntryIdx + 1]? = some a)
    (honest : Checked Ticks (times z pm) (addrs z pm) pm.nextEntryIdx) :
    Admits z (nextAddrCheck pm a) (fun _ => True) := by
  rw [nextAddrCheck]
  cases hnext : pm.addrOrderedSubtrace[pm.nextEntryIdx + 2]? with
  | none => exact .pure trivial
  | some next =>
    exact ramAddrCheck_admits (honest.follows _ _ (addrs_getElem? ha) (addrs_getElem? hnext))

theorem nextTimeCheck_admits {pm : RamProverPortalManager F D} {t : TranscriptEntryVar F D .ram}
    (ht : pm.timeOrderedSubtrace[pm.nextEntryIdx]? = some t)
    (honest : Checked Ticks (times z pm) (addrs z pm) pm.nextEntryIdx) :
    Admits z (nextTimeCheck pm t) (fun _ => True) := by
  rw [nextTimeCheck]
  split
  · refine .lift_bind fun next hnext => ramTimeCheck_admits ?_
    rw [expect_eq_ok] at hnext
    exact honest.ticks _ _ (times_getElem? ht) (times_getElem? hnext)
  · exact .pure trivial

theorem ramGet_admits {pm : RamProverPortalManager F D}
    {c : Challenges (Wire F D .field) .ram} (set : pm.runningEvals.challenges = some c)
    (honest : Checked Ticks (times z pm) (addrs z pm) pm.nextEntryIdx) :
    Admits z (RamProverPortalManager.get pm) (Called Ticks z c pm) := by
  refine .lift_bind fun t ht => .lift_bind fun a ha => ?_
  obtain ⟨w, update, hw⟩ := updateTimeOrdered_computes pm.runningEvals set t
  obtain ⟨w', update', hw'⟩ := updateAddrOrdered_computes
    { pm.runningEvals with timeOrderedEval := w } set a
  rw [expect_eq_ok] at ht ha
  refine update.admits_bind (update'.admits_bind ?_)
  refine (nextAddrCheck_admits ha honest).bind fun _ _ => ?_
  refine (nextTimeCheck_admits ht honest).bind fun _ _ => ?_
  refine .pure ⟨⟨rfl, rfl, rfl, set⟩, ?_, ?_, honest⟩
  · exact ⟨t.value z, times_getElem? ht, value_val t, hw z⟩
  · exact ⟨a.value z, addrs_getElem? ha, hw' z⟩

/-- A call whose position passes its checks is admitted, and is what it should be. -/
theorem get_admits {pm : ProverPortalManager F D m} (set : pm.runningEvals.challenges = some c)
    (name : String) (honest : Checked Ticks (times z pm) (addrs z pm) pm.nextEntryIdx) :
    Admits z (pm.get name) (Called Ticks z c pm) := by
  cases m with
  | rom => exact romGet_admits set honest
  | ram => exact ramGet_admits set honest

/-- A set is admitted when its value is the value of its entry. -/
theorem set_admits {pm : ProverPortalManager F D m} (set : pm.runningEvals.challenges = some c)
    (name : String) {val : Wire F D .field}
    (honest : Checked Ticks (times z pm) (addrs z pm) pm.nextEntryIdx)
    (same : ∀ t, (times z pm)[pm.nextEntryIdx]? = some t → (val.eval z : F) = t.value) :
    Admits z (pm.set name val) (fun pm' => ∃ w, Called Ticks z c pm (w, pm') ∧
      (val.eval z : F) = w.eval z) := by
  refine (get_admits set name honest).bind fun r called => ?_
  obtain ⟨t, ht, value, _⟩ := called.timed
  have equal : (val.eval z : F) = r.1.eval z := (same t ht).trans value.symm
  exact .emit_bind equal (.pure ⟨r.1, called, equal⟩)

/-- Both traces have an entry left for the next call. -/
structure Ready (pm : ProverPortalManager F D m) : Prop where
  time : pm.nextEntryIdx < pm.timeOrderedSubtrace.length
  addr : pm.nextEntryIdx + 1 < pm.addrOrderedSubtrace.length

theorem expect_getElem {α : Type} {l : List α} {k : Nat} (message : String) (h : k < l.length) :
    expect message l[k]? = .ok l[k] := by
  rw [List.getElem?_eq_getElem h, expect_some]

theorem romGet_parallel {pm : RomProverPortalManager F D}
    {c : Challenges (Wire F D .field) .rom} (set : pm.runningEvals.challenges = some c)
    (ready : Ready pm) :
    Parallel (RomProverPortalManager.get pm) (RomProverPortalManager.get pm)
      (fun r r' => r = r' ∧ Advances c 1 pm r.2) := by
  obtain ⟨time, addr⟩ := ready
  have before : pm.nextEntryIdx < pm.addrOrderedSubtrace.length := Nat.lt_of_succ_lt addr
  refine .lift_bind (expect_getElem _ time) (.lift_bind (expect_getElem _ before) ?_)
  obtain ⟨w, update, _⟩ := updateTimeOrdered_computes pm.runningEvals set
    pm.timeOrderedSubtrace[pm.nextEntryIdx]
  refine update.parallel_bind (.lift_bind (expect_getElem _ addr) ?_)
  refine (romAddrCheck_parallel _ _).bind fun _ _ _ => ?_
  obtain ⟨w', update', _⟩ := updateAddrOrdered_computes
    { pm.runningEvals with timeOrderedEval := w } set
    pm.addrOrderedSubtrace[pm.nextEntryIdx + 1]
  exact update'.parallel_bind (.pure ⟨rfl, rfl, rfl, rfl, set⟩)

theorem nextAddrCheck_parallel (pm : RamProverPortalManager F D)
    (a : TranscriptEntryVar F D .ram) :
    Parallel (nextAddrCheck pm a) (nextAddrCheck pm a) (fun _ _ => True) := by
  rw [nextAddrCheck]
  cases pm.addrOrderedSubtrace[pm.nextEntryIdx + 2]? with
  | none => exact .pure trivial
  | some next => exact ramAddrCheck_parallel a next

theorem nextTimeCheck_parallel (pm : RamProverPortalManager F D)
    (t : TranscriptEntryVar F D .ram) :
    Parallel (nextTimeCheck pm t) (nextTimeCheck pm t) (fun _ _ => True) := by
  rw [nextTimeCheck]
  split
  · rename_i more
    have inside : pm.nextEntryIdx + 1 < pm.timeOrderedSubtrace.length := by omega
    exact .lift_bind (expect_getElem _ inside) (ramTimeCheck_parallel t _)
  · exact .pure trivial

theorem ramGet_parallel {pm : RamProverPortalManager F D}
    {c : Challenges (Wire F D .field) .ram} (set : pm.runningEvals.challenges = some c)
    (ready : Ready pm) :
    Parallel (RamProverPortalManager.get pm) (RamProverPortalManager.get pm)
      (fun r r' => r = r' ∧ Advances c 1 pm r.2) := by
  obtain ⟨time, addr⟩ := ready
  refine .lift_bind (expect_getElem _ time) (.lift_bind (expect_getElem _ addr) ?_)
  obtain ⟨w, update, _⟩ := updateTimeOrdered_computes pm.runningEvals set
    pm.timeOrderedSubtrace[pm.nextEntryIdx]
  obtain ⟨w', update', _⟩ := updateAddrOrdered_computes
    { pm.runningEvals with timeOrderedEval := w } set
    pm.addrOrderedSubtrace[pm.nextEntryIdx + 1]
  refine update.parallel_bind (update'.parallel_bind ?_)
  refine (nextAddrCheck_parallel pm _).bind fun _ _ _ => ?_
  refine (nextTimeCheck_parallel pm _).bind fun _ _ _ => ?_
  exact .pure ⟨rfl, rfl, rfl, rfl, set⟩

/-- Whatever the names, two calls of one manager add the same rows. -/
theorem get_parallel {pm : ProverPortalManager F D m} (set : pm.runningEvals.challenges = some c)
    (ready : Ready pm) (name name' : String) :
    Parallel (pm.get name) (pm.get name') (fun r r' => r = r' ∧ Advances c 1 pm r.2) := by
  cases m with
  | rom => exact romGet_parallel set ready
  | ram => exact ramGet_parallel set ready

theorem set_parallel {pm : ProverPortalManager F D m} (set : pm.runningEvals.challenges = some c)
    (ready : Ready pm) (name name' : String) (val : Wire F D .field) :
    Parallel (pm.set name val) (pm.set name' val) (fun r r' => r = r' ∧ Advances c 1 pm r) := by
  refine (get_parallel set ready name name').bind ?_
  rintro r _ ⟨rfl, advances⟩
  exact .bind_eq (.emit _) fun _ => .pure ⟨rfl, advances⟩

end Calls

section Runs

/-- A call as the body made it, with the wire it returned or was passed. -/
inductive Call (F D : Type) where
  | get (name : String) (value : Wire F D .field)
  | set (name : String) (value : Wire F D .field)

def Call.value {F D : Type} : Call F D → Wire F D .field
  | .get _ value => value
  | .set _ value => value

/-- A manager with a log of the calls made to it and of the constraints they emitted. -/
structure Logged (F D PM : Type) where
  manager : PM
  calls : List (Call F D)
  rows : List (Constraint F D)

namespace Logged
variable {F D PM : Type}

def start (manager : PM) : Logged F D PM := ⟨manager, [], []⟩

/-- The log after one more call. -/
def extend (l : Logged F D PM) (manager : PM) (call : Call F D) (rows : List (Constraint F D)) :
    Logged F D PM :=
  ⟨manager, l.calls ++ [call], l.rows ++ rows⟩

instance [Manager F D PM] : Manager F D (Logged F D PM) where
  get l name := do
    let (r, rows) ← Synth.recording (Manager.get l.manager name)
    pure (r.1, l.extend r.2 (.get name r.1) rows)
  set l name val := do
    let (manager, rows) ← Synth.recording (Manager.set l.manager name val)
    pure (l.extend manager (.set name val) rows)

theorem get_eq_ok [Manager F D PM] {l : Logged F D PM} {name : String}
    {vars : List (Variable F D)} {r : (Wire F D .field × Logged F D PM) × Emission F D} :
    (Manager.get l name : Synth F D _) vars = .ok r ↔
      ∃ w pm e, (Manager.get l.manager name : Synth F D _) vars = .ok ((w, pm), e) ∧
        r = ((w, l.extend pm (.get name w) e.constraints), e) := by
  constructor
  · intro run
    obtain ⟨a, e, b, e', first, second, rfl⟩ := Synth.bind_eq_ok.mp run
    obtain ⟨⟨w, pm⟩, e'', got, same⟩ := Synth.recording_eq_ok.mp first
    cases same
    cases second
    exact ⟨w, pm, e, got, by rw [Emission.append_empty]⟩
  · rintro ⟨w, pm, e, got, rfl⟩
    refine Synth.bind_eq_ok.mpr ⟨_, e, _, .empty, Synth.recording_eq_ok.mpr ⟨_, e, got, rfl⟩, rfl, ?_⟩
    rw [Emission.append_empty]

theorem set_eq_ok [Manager F D PM] {l : Logged F D PM} {name : String} {val : Wire F D .field}
    {vars : List (Variable F D)} {r : Logged F D PM × Emission F D} :
    (Manager.set l name val : Synth F D _) vars = .ok r ↔
      ∃ pm e, (Manager.set l.manager name val : Synth F D _) vars = .ok (pm, e) ∧
        r = (l.extend pm (.set name val) e.constraints, e) := by
  constructor
  · intro run
    obtain ⟨a, e, b, e', first, second, rfl⟩ := Synth.bind_eq_ok.mp run
    obtain ⟨pm, e'', put, same⟩ := Synth.recording_eq_ok.mp first
    cases same
    cases second
    exact ⟨pm, e, put, by rw [Emission.append_empty]⟩
  · rintro ⟨pm, e, put, rfl⟩
    refine Synth.bind_eq_ok.mpr ⟨_, e, _, .empty, Synth.recording_eq_ok.mpr ⟨_, e, put, rfl⟩, rfl, ?_⟩
    rw [Emission.append_empty]

end Logged

/-- `pm'` is `pm` after the calls `made`: their values, the products both evaluations
were multiplied by, and the checks of every position passed. -/
structure Ran (tick : Entry F F m → Entry F F m → Prop) (z : Assignment F D)
    (c : Challenges (Wire F D .field) m) (made : List (Call F D))
    (pm pm' : ProverPortalManager F D m) : Prop where
  advances : Advances c made.length pm pm'
  values : ∀ j call, made[j]? = some call →
    ∃ t, (times z pm)[pm.nextEntryIdx + j]? = some t ∧ (call.value.eval z : F) = t.value
  enoughAddrs : ∀ j, j < made.length → pm.nextEntryIdx + j + 1 < (addrs z pm).length
  timeEval : (pm'.runningEvals.timeOrderedEval.eval z : F) =
    (pm.runningEvals.timeOrderedEval.eval z : F) *
      ((((times z pm).drop pm.nextEntryIdx).take made.length).map (c.value z).factor).prod
  addrEval : (pm'.runningEvals.addrOrderedEval.eval z : F) =
    (pm.runningEvals.addrOrderedEval.eval z : F) *
      ((((addrs z pm).drop (pm.nextEntryIdx + 1)).take made.length).map (c.value z).factor).prod
  checked : ∀ k, pm.nextEntryIdx ≤ k → k < pm'.nextEntryIdx →
    Checked tick (times z pm) (addrs z pm) k

variable {tick : Entry F F m → Entry F F m → Prop} {c : Challenges (Wire F D .field) m}

theorem times_eq {n : Nat} {pm pm' : ProverPortalManager F D m} (h : Advances c n pm pm') :
    times z pm' = times z pm := by
  rw [times, times, h.times]

theorem addrs_eq {n : Nat} {pm pm' : ProverPortalManager F D m} (h : Advances c n pm pm') :
    addrs z pm' = addrs z pm := by
  rw [addrs, addrs, h.addrs]

theorem Ran.refl {pm : ProverPortalManager F D m} (set : pm.runningEvals.challenges = some c) :
    Ran tick z c [] pm pm where
  advances := ⟨rfl, rfl, rfl, set⟩
  values := fun _ _ h => by cases h
  enoughAddrs := fun _ h => by cases h
  timeEval := by simp
  addrEval := by simp
  checked := fun k low high => absurd high (Nat.not_lt_of_le low)

omit [DecidableEq F] in
theorem prod_take_one {α : Type} {l : List α} {k : Nat} {a : α} (f : α → F)
    (h : l[k]? = some a) : (((l.drop k).take 1).map f).prod = f a := by
  obtain ⟨inside, rfl⟩ := List.getElem?_eq_some_iff.mp h
  rw [List.drop_eq_getElem_cons inside, List.take_succ_cons, List.take_zero, List.map_singleton,
    List.prod_singleton]

theorem Called.ran {pm : ProverPortalManager F D m}
    {r : Wire F D .field × ProverPortalManager F D m} (h : Called tick z c pm r)
    (call : Call F D) (same : (call.value.eval z : F) = r.1.eval z) :
    Ran tick z c [call] pm r.2 := by
  obtain ⟨advances, ⟨t, ht, value, timeEval⟩, ⟨a, ha, addrEval⟩, checked⟩ := h
  refine ⟨advances, ?_, ?_, ?_, ?_, ?_⟩
  · intro j call' hj
    cases j with
    | zero =>
      cases hj
      exact ⟨t, ht, same.trans value⟩
    | succ j => cases hj
  · intro j hj
    obtain rfl : j = 0 := Nat.lt_one_iff.mp hj
    exact (List.getElem?_eq_some_iff.mp ha).1
  · rw [timeEval, List.length_singleton, prod_take_one _ ht]
  · rw [addrEval, List.length_singleton, prod_take_one _ ha]
  · intro k low high
    rw [advances.next] at high
    obtain rfl : k = pm.nextEntryIdx := by omega
    exact checked

theorem Ran.trans {made made' : List (Call F D)} {pm pm₁ pm₂ : ProverPortalManager F D m}
    (first : Ran tick z c made pm pm₁) (second : Ran tick z c made' pm₁ pm₂) :
    Ran tick z c (made ++ made') pm pm₂ := by
  have htimes := times_eq (z := z) first.advances
  have haddrs := addrs_eq (z := z) first.advances
  have hnext := first.advances.next
  obtain ⟨advances, values, enough, timeEval, addrEval, checked⟩ := second
  rw [htimes] at values timeEval
  rw [haddrs] at enough addrEval
  simp only [htimes, haddrs] at checked
  refine ⟨⟨?_, ?_, ?_, advances.set⟩, ?_, ?_, ?_, ?_, ?_⟩
  · rw [advances.times, first.advances.times]
  · rw [advances.addrs, first.advances.addrs]
  · rw [advances.next, hnext, List.length_append, Nat.add_assoc]
  · intro j call hj
    by_cases hlt : j < made.length
    · exact first.values j call (by rwa [List.getElem?_append_left hlt] at hj)
    · rw [List.getElem?_append_right (Nat.le_of_not_lt hlt)] at hj
      obtain ⟨t, ht, value⟩ := values _ call hj
      refine ⟨t, ?_, value⟩
      rwa [hnext, Nat.add_assoc, Nat.add_sub_cancel' (Nat.le_of_not_lt hlt)] at ht
  · intro j hj
    by_cases hlt : j < made.length
    · exact first.enoughAddrs j hlt
    · rw [List.length_append] at hj
      have later := enough (j - made.length) (by omega)
      omega
  · rw [timeEval, first.timeEval, hnext, List.length_append, List.take_add, List.drop_drop,
      List.map_append, List.prod_append, mul_assoc]
  · rw [addrEval, first.addrEval, hnext, List.length_append, List.take_add, List.drop_drop,
      List.map_append, List.prod_append, mul_assoc,
      show pm.nextEntryIdx + made.length + 1 = pm.nextEntryIdx + 1 + made.length by omega]
  · intro k low high
    by_cases hlt : k < pm₁.nextEntryIdx
    · exact first.checked k low hlt
    · exact checked k (Nat.le_of_not_lt hlt) high

omit [Field F] [DecidableEq F] [DecidableEq D] in
/-- The log keeps its rows, and grows by rows that the body emits. -/
theorem run_rows {PM α : Type} [Manager F D PM] (p : Program F D α) (l : Logged F D PM)
    {vars : List (Variable F D)} {r : α × Logged F D PM} {e : Emission F D}
    (run : p.run l vars = .ok (r, e)) :
    l.rows ⊆ r.2.rows ∧ r.2.rows ⊆ l.rows ++ e.constraints := by
  induction p generalizing l vars r e with
  | done a =>
    cases run
    exact ⟨fun _ h => h, List.subset_append_left _ _⟩
  | gadget step rest ih =>
    obtain ⟨b, e₁, r', e₂, _, second, same⟩ := Synth.bind_eq_ok.mp run
    cases same
    obtain ⟨kept, grown⟩ := ih b l second
    refine ⟨kept, fun row hrow => ?_⟩
    rw [Emission.append_constraints]
    have found := grown hrow
    simp only [List.mem_append] at found ⊢
    exact found.imp id Or.inr
  | get name rest ih =>
    obtain ⟨b, e₁, r', e₂, first, second, same⟩ := Synth.bind_eq_ok.mp run
    cases same
    obtain ⟨w, pm, e', _, same⟩ := Logged.get_eq_ok.mp first
    cases same
    obtain ⟨kept, grown⟩ := ih w _ second
    refine ⟨fun row hrow => kept (List.mem_append_left _ hrow), fun row hrow => ?_⟩
    rw [Emission.append_constraints, ← List.append_assoc]
    exact grown hrow
  | set name val rest ih =>
    obtain ⟨b, e₁, r', e₂, first, second, same⟩ := Synth.bind_eq_ok.mp run
    cases same
    obtain ⟨pm, e', _, same⟩ := Logged.set_eq_ok.mp first
    cases same
    obtain ⟨kept, grown⟩ := ih _ second
    refine ⟨fun row hrow => kept (List.mem_append_left _ hrow), fun row hrow => ?_⟩
    rw [Emission.append_constraints, ← List.append_assoc]
    exact grown hrow

/-- An assignment satisfying the rows of the calls passes the checks of every call. -/
theorem run_ran {α : Type} (p : Program F D α) (l : Logged F D (ProverPortalManager F D m))
    (set : l.manager.runningEvals.challenges = some c) {vars : List (Variable F D)}
    {r : α × Logged F D (ProverPortalManager F D m)} {e : Emission F D}
    (run : p.run l vars = .ok (r, e)) (sat : ∀ row ∈ r.2.rows, row.Holds z) :
    ∃ made, r.2.calls = l.calls ++ made ∧ Ran MayTick z c made l.manager r.2.manager := by
  induction p generalizing l vars r e with
  | done a =>
    cases run
    exact ⟨[], (List.append_nil _).symm, .refl set⟩
  | gadget step rest ih =>
    obtain ⟨b, e₁, r', e₂, _, second, same⟩ := Synth.bind_eq_ok.mp run
    cases same
    exact ih b l set second sat
  | get name rest ih =>
    obtain ⟨b, e₁, r', e₂, first, second, same⟩ := Synth.bind_eq_ok.mp run
    cases same
    obtain ⟨w, pm, e', got, same⟩ := Logged.get_eq_ok.mp first
    cases same
    have kept := (run_rows _ _ second).1
    have called := get_forces set name vars (w, pm) e₁ got fun row hrow =>
      sat row (kept (List.mem_append_right _ hrow))
    obtain ⟨made, log, ran⟩ := ih w _ called.advances.set second sat
    refine ⟨.get name w :: made, ?_, (called.ran (.get name w) rfl).trans ran⟩
    rw [log, Logged.extend, List.append_assoc, List.singleton_append]
  | set name val rest ih =>
    obtain ⟨b, e₁, r', e₂, first, second, same⟩ := Synth.bind_eq_ok.mp run
    cases same
    obtain ⟨pm, e', put, same⟩ := Logged.set_eq_ok.mp first
    cases same
    have kept := (run_rows _ _ second).1
    obtain ⟨w, called, equal⟩ := set_forces set name val vars pm e₁ put fun row hrow =>
      sat row (kept (List.mem_append_right _ hrow))
    obtain ⟨made, log, ran⟩ := ih _ called.advances.set second sat
    refine ⟨.set name val :: made, ?_, (called.ran (.set name val) equal).trans ran⟩
    rw [log, Logged.extend, List.append_assoc, List.singleton_append]

omit [Field F] [DecidableEq F] [DecidableEq D] in
/-- A run with any manager is a run of the logging manager, log forgotten. -/
theorem run_logged {PM α : Type} [Manager F D PM] (p : Program F D α) (l : Logged F D PM)
    {vars : List (Variable F D)} {r : α × PM} {e : Emission F D}
    (run : p.run l.manager vars = .ok (r, e)) :
    ∃ calls rows, p.run l vars = .ok ((r.1, ⟨r.2, calls, rows⟩), e) := by
  induction p generalizing l vars r e with
  | done a =>
    cases run
    exact ⟨l.calls, l.rows, rfl⟩
  | gadget m rest ih =>
    obtain ⟨b, e₁, r', e₂, first, second, same⟩ := Synth.bind_eq_ok.mp run
    cases same
    obtain ⟨calls, rows, later⟩ := ih b l second
    exact ⟨calls, rows, Synth.bind_of_ok first later⟩
  | get name rest ih =>
    obtain ⟨b, e₁, r', e₂, first, second, same⟩ := Synth.bind_eq_ok.mp run
    cases same
    obtain ⟨calls, rows, later⟩ := ih b.1 (l.extend b.2 (.get name b.1) e₁.constraints) second
    have logged := Logged.get_eq_ok.mpr ⟨b.1, b.2, e₁, first, rfl⟩
    exact ⟨calls, rows, Synth.bind_of_ok logged later⟩
  | set name val rest ih =>
    obtain ⟨b, e₁, r', e₂, first, second, same⟩ := Synth.bind_eq_ok.mp run
    cases same
    obtain ⟨calls, rows, later⟩ := ih (l.extend b (.set name val) e₁.constraints) second
    have logged := Logged.set_eq_ok.mpr ⟨b, e₁, first, rfl⟩
    exact ⟨calls, rows, Synth.bind_of_ok logged later⟩

/-- The checks of a body's calls, without the log. -/
theorem run_forces_ran {α : Type} (p : Program F D α) (pm : ProverPortalManager F D m)
    (set : pm.runningEvals.challenges = some c) :
    Forces z (p.run pm) (fun r => ∃ made, Ran MayTick z c made pm r.2) := by
  intro vars r e run sat
  obtain ⟨calls, rows, logged⟩ := run_logged p (.start pm) run
  have emitted := (run_rows p _ logged).2
  obtain ⟨made, _, ran⟩ := run_ran p (.start pm) set logged fun row hrow => sat row (emitted hrow)
  exact ⟨made, ran⟩

end Runs
end PortalChecks
