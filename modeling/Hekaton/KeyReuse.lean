import Hekaton.HonestRuns
import Hekaton.SubcircuitShapes

/-!
# Proving keys shared by subcircuits

Two bodies are alike when the prover's manager runs them with the same rows and variables,
call by call; names and witnessed values may differ. Subcircuits with alike bodies and traces
of one length have the same rows exactly when both are the first or neither is, and both are
the last or neither is.
-/

namespace KeyReuse

open Outcomes Wires Synthesis Contracts Transcript PortalManager PortalChecks EvalTree
open SubcircuitCircuit SubcircuitShapes HonestRuns

variable {F D α β γ δ : Type} [Field F] {m : MemType}

/-- Both bodies make `n` calls and emit the same rows, and their results are related. -/
def Alike (m : MemType) (n : Nat) (program : Program F D α) (program' : Program F D β)
    (R : α → β → Prop) : Prop :=
  ∀ (c : Challenges (Wire F D .field) m) (pm : ProverPortalManager F D m),
    pm.runningEvals.challenges = some c →
    pm.nextEntryIdx + n ≤ pm.timeOrderedSubtrace.length →
    pm.nextEntryIdx + n < pm.addrOrderedSubtrace.length →
    Parallel (program.run pm) (program'.run pm)
      fun r r' => R r.1 r'.1 ∧ r.2 = r'.2 ∧ Advances c n pm r.2

namespace Alike
variable {n n' : Nat} {program : Program F D α} {program' : Program F D β} {R : α → β → Prop}

theorem bind {f : α → Program F D γ} {f' : β → Program F D δ} {S : γ → δ → Prop}
    (first : Alike m n program program' R) (rest : ∀ a b, R a b → Alike m n' (f a) (f' b) S) :
    Alike m (n + n') (program >>= f) (program' >>= f') S := by
  intro c pm set time addr
  rw [run_bind, run_bind]
  apply (first c pm set (by omega) (by omega)).bind
  rintro ⟨a, pm'⟩ ⟨b, _⟩ ⟨related, rfl, times, addrs, next, set'⟩
  apply (rest a b related c pm' set' (by rw [next, times]; omega) (by rw [next, addrs]; omega)).mono
  rintro r r' ⟨related', same, times', addrs', next', set''⟩
  refine ⟨related', same, times'.trans times, addrs'.trans addrs, ?_, set''⟩
  rw [next', next, Nat.add_assoc]

theorem done {a : α} {b : β} (related : R a b) :
    Alike m 0 (Program.done a : Program F D α) (Program.done b) R :=
  fun _ _ set _ _ => .pure ⟨related, rfl, rfl, rfl, rfl, set⟩

theorem lift {g : Synth F D α} {g' : Synth F D β} (rows : Parallel g g' R) :
    Alike m 0 (Program.lift g) (Program.lift g') R := by
  intro c pm set _ _
  apply rows.bind
  intro a b related
  exact .pure ⟨related, rfl, rfl, rfl, rfl, set⟩

/-- A gadget that both bodies start with. -/
theorem lift_bind {g : Synth F D α} {g' : Synth F D β} {f : α → Program F D γ}
    {f' : β → Program F D δ} {S : γ → δ → Prop} (rows : Parallel g g' R)
    (rest : ∀ a b, R a b → Alike m n (f a) (f' b) S) :
    Alike m n (Program.lift g >>= f) (Program.lift g' >>= f') S := by
  have both := (lift (m := m) rows).bind rest
  rwa [Nat.zero_add] at both

theorem mono (alike : Alike m n program program' R) {R' : α → β → Prop}
    (sub : ∀ a b, R a b → R' a b) : Alike m n program program' R' := by
  intro c pm set time addr
  apply (alike c pm set time addr).mono
  rintro r r' ⟨related, rest⟩
  exact ⟨sub _ _ related, rest⟩

variable [DecidableEq F] [DecidableEq D]

/-- The prover's manager does not look at the name. -/
theorem get (name name' : String) :
    Alike m 1 (Program.portalGet (F := F) (D := D) name) (Program.portalGet name') (· = ·) := by
  intro c pm set time addr
  have ready : Ready pm := ⟨by omega, by omega⟩
  apply (get_parallel set ready name name').bind
  rintro r _ ⟨rfl, advances⟩
  exact .pure ⟨rfl, rfl, advances⟩

theorem set (name name' : String) (val : Wire F D .field) :
    Alike m 1 (Program.portalSet name val) (Program.portalSet name' val) fun _ _ => True := by
  intro c pm set time addr
  have ready : Ready pm := ⟨by omega, by omega⟩
  apply (set_parallel set ready name name' val).bind
  rintro pm' _ ⟨rfl, advances⟩
  exact .pure ⟨trivial, rfl, advances⟩

omit [DecidableEq F] [DecidableEq D] in
theorem loop {ι : Type} {l l' : List ι} {body body' : ι → Program F D Unit}
    (each : List.Forall₂ (fun i j => Alike m n (body i) (body' j) fun _ _ => True) l l') :
    Alike m (l.length * n) (forEach l body) (forEach l' body') fun _ _ => True := by
  induction each with
  | nil =>
    rw [List.length_nil, Nat.zero_mul]
    exact done trivial
  | cons first _ ih =>
    rw [List.length_cons, Nat.succ_mul, Nat.add_comm]
    exact first.bind fun _ _ _ => ih

end Alike

section Provers
variable {gadget : TreeConfigGadget F D}

/-- What the prover of subcircuit `i` works with: its subtrace, one sorted by address of the
same length, a path of the tree's depth and the challenges. -/
structure Assigned (circ : CircuitWithPortals F D m) (traces : List (List (TranscriptEntry F m)))
    (i : Nat) (p : SubcircuitWithPortalsProver F D m) : Prop where
  index : p.subcircuitIdx = i
  given : p.circ = some circ
  time : traces[i]? = some p.timeOrderedSubtrace
  addr : p.addrOrderedSubtrace.length = p.timeOrderedSubtrace.length
  path : p.nextLeafMembership.authPath.length = circ.numSubcircuits.log2 - 1
  challenges : p.challenges.length = Challenges.count m

/-- A prover with its subtrace in both orders, and defaults elsewhere. -/
def proverOf [Inhabited D] (circ : CircuitWithPortals F D m) (i : Nat)
    (subtrace : List (TranscriptEntry F m)) : SubcircuitWithPortalsProver F D m :=
  { SubcircuitWithPortalsProver.new circ.numSubcircuits with
    subcircuitIdx := i
    circ := some circ
    timeOrderedSubtrace := subtrace
    addrOrderedSubtrace := subtrace }

variable {circ circ' : CircuitWithPortals F D m} {traces traces' : List (List (TranscriptEntry F m))}
variable {i r n : Nat} {p p' : SubcircuitWithPortalsProver F D m}

theorem proverOf_assigned [Inhabited D] {subtrace : List (TranscriptEntry F m)}
    (found : traces[i]? = some subtrace) : Assigned circ traces i (proverOf circ i subtrace) where
  index := rfl
  given := rfl
  time := found
  addr := rfl
  path := List.length_replicate
  challenges := List.length_replicate

omit [Field F] in
theorem Assigned.isSome (assigned : Assigned circ traces i p) : p.circ.isSome := by
  rw [assigned.given]
  rfl

omit [Field F] in
theorem Assigned.isLast_iff (assigned : Assigned circ traces i p) :
    IsLast p ↔ i = circ.numSubcircuits - 1 := by
  rw [IsLast, assigned.given, assigned.index]
  simp

/-- Alike bodies on traces of one length make the provers comparable. -/
theorem comparable (assigned : Assigned circ traces i p) (assigned' : Assigned circ' traces' r p')
    (count : circ.numSubcircuits = circ'.numSubcircuits)
    (length : p.timeOrderedSubtrace.length = n) (length' : p'.timeOrderedSubtrace.length = n)
    (alike : Alike m n (circ.generateConstraints i) (circ'.generateConstraints r)
      fun _ _ => True) : Comparable p p' where
  time := length.trans length'.symm
  addr := by rw [assigned.addr, assigned'.addr, length, length']
  path := by rw [assigned.path, assigned'.path, count]
  challenges := assigned.challenges
  challenges' := assigned'.challenges
  body pm ready := by
    obtain ⟨c, set⟩ := ready.set
    rw [SubcircuitWithPortalsProver.runBody, SubcircuitWithPortalsProver.runBody, assigned.given,
      assigned'.given, assigned.index, assigned'.index]
    have enough : pm.nextEntryIdx + n ≤ pm.timeOrderedSubtrace.length := by
      rw [ready.fresh, ready.time, length, Nat.zero_add]
    have enough' : pm.nextEntryIdx + n < pm.addrOrderedSubtrace.length := by
      rw [ready.fresh, ready.addr, assigned.addr, length, Nat.zero_add]
      exact Nat.lt_succ_self n
    apply (alike c pm set enough enough').bind
    rintro ⟨_, pm'⟩ ⟨_, _⟩ ⟨_, rfl, _⟩
    exact .pure rfl

variable [DecidableEq F] [DecidableEq D]

/-- Both are inner, or both first, or both last. -/
theorem same_of_alike (lawful : gadget.Lawful) (assigned : Assigned circ traces i p)
    (assigned' : Assigned circ' traces' r p') (same : Comparable p p') (first : i = 0 ↔ r = 0)
    (last : i = circ.numSubcircuits - 1 ↔ r = circ'.numSubcircuits - 1) :
    SameStages gadget p p' := by
  apply sameStages lawful same _ assigned.isSome assigned'.isSome
  · rw [assigned.isLast_iff, assigned'.isLast_iff, last]
  · rw [assigned.index, assigned'.index, first]

/-- The last subcircuit has a row of its own. -/
theorem not_same_of_last (lawful : gadget.Lawful) (assigned : Assigned circ traces i p)
    (assigned' : Assigned circ' traces' r p') (same : Comparable p p') (first : i = 0 ↔ r = 0)
    (last : i = circ.numSubcircuits - 1) (inner : r ≠ circ'.numSubcircuits - 1) :
    ¬ SameStages gadget p p' := by
  apply not_sameStages_of_last lawful same _ (assigned.isLast_iff.mpr last) assigned'.isSome
  · exact fun isLast => inner (assigned'.isLast_iff.mp isLast)
  · rw [assigned.index, assigned'.index, first]

end Provers
end KeyReuse
