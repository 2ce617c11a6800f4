import Hekaton.PortalChecks

/-!
# Portal scripts

A script is a list of portal operations; its body witnesses the value of each set and
makes the calls. A setup manager records one entry for each operation, whatever its own
invariant, and a prover's manager admits the script on a trace that passes its checks
and holds the values of the sets.
-/

namespace Scripts

open Outcomes Wires Synthesis Contracts Transcript PortalManager PortalChecks

inductive PortalOp (F : Type) where
  | get (name : String)
  | set (name : String) (val : F)

variable {F D : Type} {m : MemType}

def script : List (PortalOp F) → Program F D Unit
  | [] => .done ()
  | .get name :: ops => .get name fun _ => script ops
  | .set name val :: ops => .gadget (Synth.newWitness .field val) fun w => .set name w (script ops)

/-- Run the subcircuits one after the other, each in a subtrace of its own. -/
def recordSubtraces {PM : Type} [Manager F D PM] (startSubtrace : PM → PM) :
    List (List (PortalOp F)) → PM → Synth F D PM
  | [], pm => pure pm
  | ops :: programs, pm => do
      let r ← (script ops).run (startSubtrace pm)
      recordSubtraces startSubtrace programs r.2

/-- An entry that an operation can be recorded as. -/
def PortalOp.Matches {A : Type} : PortalOp F → Entry A F m → Prop
  | .get _, _ => True
  | .set _ val, e => e.value = val

section Recording
variable [Field F] [DecidableEq F] [Inhabited D] [DecidableEq D] {PM : Type} [Manager F D PM]

/-- A manager that records one matching entry for each call and keeps an invariant. -/
structure Records (D : Type) [Inhabited D] [DecidableEq D] [Manager F D PM]
    (subtraces : PM → List (List (TranscriptEntry F m))) (inv : PM → Prop)
    (startSubtrace : PM → PM) : Prop where
  start : ∀ pm, inv pm → inv (startSubtrace pm) ∧
    subtraces (startSubtrace pm) = subtraces pm ++ [[]]
  get : ∀ pm name (vars : List (Variable F D)) w pm' e, inv pm →
    Manager.get pm name vars = .ok ((w, pm'), e) →
    inv pm' ∧ ∃ entry, pushEntry (subtraces pm) entry = .ok (subtraces pm')
  set : ∀ pm name (w : Wire F D .field) vars pm' e, inv pm →
    Manager.set pm name w vars = .ok (pm', e) →
    inv pm' ∧ ∃ entry, pushEntry (subtraces pm) entry = .ok (subtraces pm') ∧
      entry.value = w.eval (assignmentOf vars)

omit [Field F] [DecidableEq F] in
theorem pushEntry_last (subtraces : List (List (TranscriptEntry F m)))
    (subtrace : List (TranscriptEntry F m)) (e : TranscriptEntry F m) :
    pushEntry (subtraces ++ [subtrace]) e = .ok (subtraces ++ [subtrace ++ [e]]) := by
  induction subtraces with
  | nil => rfl
  | cons first subtraces ih =>
    rw [List.cons_append, pushEntry, ih]
    · rfl
    · intro empty
      exact List.append_ne_nil_of_right_ne_nil _ (List.cons_ne_nil _ _) empty

theorem eval_witnessed (vars : List (Variable F D)) (mode : AllocationMode) (val : F) :
    (Wire.var .field vars.length : Wire F D .field).eval
      (assignmentOf (vars ++ [⟨mode, .field, val⟩])) = val := by
  simp [Wire.eval, assignmentOf]

variable {subtraces : PM → List (List (TranscriptEntry F m))} {inv : PM → Prop}
variable {startSubtrace : PM → PM}

/-- A script is recorded at the end of the last subtrace, operation by operation. -/
theorem Records.run (records : Records D subtraces inv startSubtrace) {ops : List (PortalOp F)}
    {pm pm' : PM} {vars : List (Variable F D)} {e : Emission F D}
    {before : List (List (TranscriptEntry F m))} {subtrace : List (TranscriptEntry F m)}
    (keeps : inv pm) (last : subtraces pm = before ++ [subtrace])
    (run : (script ops).run pm vars = .ok (((), pm'), e)) :
    inv pm' ∧ ∃ made, subtraces pm' = before ++ [subtrace ++ made] ∧
      List.Forall₂ PortalOp.Matches ops made := by
  induction ops generalizing pm vars e subtrace with
  | nil =>
    cases run
    exact ⟨keeps, [], by rw [last, List.append_nil], .nil⟩
  | cons op ops ih =>
    cases op with
    | get name =>
      obtain ⟨⟨w, pm₁⟩, e₁, ⟨_, pm₂⟩, e₂, first, rest, same⟩ := Synth.bind_eq_ok.mp run
      cases same
      obtain ⟨keeps₁, entry, pushed⟩ := records.get _ _ _ _ _ _ keeps first
      rw [last, pushEntry_last] at pushed
      obtain ⟨keeps₂, made, all, same⟩ := ih keeps₁ (Except.ok.inj pushed).symm rest
      refine ⟨keeps₂, entry :: made, ?_, .cons trivial same⟩
      rw [all, List.append_assoc, List.singleton_append]
    | set name val =>
      obtain ⟨w, e₁, ⟨_, pm₃⟩, e₃, witness, later, same⟩ := Synth.bind_eq_ok.mp run
      cases same
      cases witness
      obtain ⟨pm₁, e₁, ⟨_, pm₂⟩, e₂, first, rest, same⟩ := Synth.bind_eq_ok.mp later
      cases same
      obtain ⟨keeps₁, entry, pushed, value⟩ := records.set _ _ _ _ _ _ keeps first
      rw [last, pushEntry_last] at pushed
      obtain ⟨keeps₂, made, all, same⟩ := ih keeps₁ (Except.ok.inj pushed).symm rest
      refine ⟨keeps₂, entry :: made, ?_, .cons ?_ same⟩
      · rw [all, List.append_assoc, List.singleton_append]
      · exact value.trans (eval_witnessed vars .witness val)

/-- A whole recording: one subtrace for each script, and the invariant at the end. -/
theorem Records.all (records : Records D subtraces inv startSubtrace)
    {programs : List (List (PortalOp F))} {pm pm' : PM} {vars : List (Variable F D)}
    {e : Emission F D} (keeps : inv pm)
    (run : recordSubtraces startSubtrace programs pm vars = .ok (pm', e)) :
    inv pm' ∧ ∃ made, subtraces pm' = subtraces pm ++ made ∧
      List.Forall₂ (List.Forall₂ PortalOp.Matches) programs made := by
  induction programs generalizing pm vars e with
  | nil =>
    cases run
    exact ⟨keeps, [], (List.append_nil _).symm, .nil⟩
  | cons ops programs ih =>
    obtain ⟨⟨_, pm₁⟩, e₁, pm₂, e₂, first, rest, same⟩ := Synth.bind_eq_ok.mp run
    cases same
    obtain ⟨started, empty⟩ := records.start pm keeps
    obtain ⟨keeps₁, made, subtrace, same⟩ := records.run started empty first
    obtain ⟨keeps₂, later, all, sames⟩ := ih keeps₁ rest
    refine ⟨keeps₂, made :: later, ?_, .cons same sames⟩
    rw [all, subtrace, List.nil_append, List.append_assoc, List.singleton_append]

end Recording

section Replaying
variable [Field F] [DecidableEq F] [DecidableEq D] {z : Assignment F D}
variable {c : Challenges (Wire F D .field) m}

theorem called_traces {tick : Entry F F m → Entry F F m → Prop}
    {pm : ProverPortalManager F D m} {r : Wire F D .field × ProverPortalManager F D m}
    (called : Called tick z c pm r) : times z r.2 = times z pm ∧ addrs z r.2 = addrs z pm :=
  ⟨times_eq called.advances, addrs_eq called.advances⟩

/-- A script is admitted on a trace that passes every check and holds the set values. -/
theorem script_admits {ops : List (PortalOp F)} {pm : ProverPortalManager F D m}
    (set : pm.runningEvals.challenges = some c)
    (honest : ∀ j < ops.length, Checked Ticks (times z pm) (addrs z pm) (pm.nextEntryIdx + j))
    (same : ∀ j op t, ops[j]? = some op → (times z pm)[pm.nextEntryIdx + j]? = some t →
      op.Matches t) :
    Admits z ((script ops).run pm) (fun r => ∃ made, made.length = ops.length ∧
      Ran Ticks z c made pm r.2) := by
  induction ops generalizing pm with
  | nil => exact .pure ⟨[], rfl, .refl set⟩
  | cons op ops ih =>
    have here := honest 0 (Nat.succ_pos _)
    have rest : ∀ {w : Wire F D .field} {pm' : ProverPortalManager F D m} (call : Call F D),
        Called Ticks z c pm (w, pm') → (call.value.eval z : F) = w.eval z →
        Admits z ((script ops).run pm') (fun r => ∃ made, made.length = ops.length + 1 ∧
          Ran Ticks z c made pm r.2) := by
      intro w pm' call called value
      obtain ⟨htimes, haddrs⟩ := called_traces called
      have next : pm'.nextEntryIdx = pm.nextEntryIdx + 1 := called.advances.next
      refine (ih called.advances.set ?_ ?_).mono fun r h => ?_
      · intro j hj
        rw [htimes, haddrs, next, Nat.add_assoc, Nat.add_comm 1 j]
        exact honest (j + 1) (Nat.succ_lt_succ hj)
      · intro j op' t hop ht
        rw [htimes, next, Nat.add_assoc, Nat.add_comm 1 j] at ht
        exact same (j + 1) op' t hop ht
      · obtain ⟨made, count, ran⟩ := h
        refine ⟨call :: made, congrArg Nat.succ count, ?_⟩
        exact (called.ran call value).trans ran
    cases op with
    | get name =>
      exact (get_admits set name here).bind fun r called => rest (.get name r.1) called rfl
    | set name val =>
      refine .newVariable_bind fun w hw => ?_
      refine (set_admits set name here fun t ht => ?_).bind fun pm' h => ?_
      · exact hw.trans (same 0 _ t rfl ht).symm
      · obtain ⟨w', called, value⟩ := h
        exact rest (.set name w) called value

/-- A script runs through when both traces have an entry for each operation. -/
theorem script_parallel {ops : List (PortalOp F)} {pm : ProverPortalManager F D m}
    (set : pm.runningEvals.challenges = some c)
    (time : pm.nextEntryIdx + ops.length ≤ pm.timeOrderedSubtrace.length)
    (addr : pm.nextEntryIdx + ops.length < pm.addrOrderedSubtrace.length) :
    Parallel ((script (D := D) ops).run pm) ((script (D := D) ops).run pm) (· = ·) := by
  induction ops generalizing pm with
  | nil => exact .pure rfl
  | cons op ops ih =>
    rw [List.length_cons] at time addr
    have ready : Ready pm := ⟨by omega, by omega⟩
    have rest : ∀ pm', Advances c 1 pm pm' →
        Parallel ((script (D := D) ops).run pm') ((script (D := D) ops).run pm') (· = ·) := by
      intro pm' advances
      have next := advances.next
      refine ih advances.set ?_ ?_
      · rw [advances.times]
        omega
      · rw [advances.addrs]
        omega
    cases op with
    | get name =>
      refine (get_parallel set ready name name).bind ?_
      rintro r _ ⟨rfl, advances⟩
      exact rest r.2 advances
    | set name val =>
      refine .bind_eq .newVariable fun w => (set_parallel set ready name name w).bind ?_
      rintro pm' _ ⟨rfl, advances⟩
      exact rest pm' advances

end Replaying
end Scripts
