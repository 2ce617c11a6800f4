import Hekaton.HonestRuns

/-!
# Steps that mirror a pure computation

A step mirrors an outcome when it runs exactly where the outcome is a result, its
constraints hold, and its result corresponds to the outcome's. The calls of the ROM setup
manager mirror its functions of values, so a program over wires can be read as one over
values.
-/

namespace MirroredRuns

open Outcomes Wires Synthesis Contracts Transcript PortalManager HonestRuns

variable {F D α β γ δ : Type} [Field F] [DecidableEq F] [Inhabited D] [DecidableEq D]

/-- The step runs as the outcome says, with corresponding results. -/
structure Mirrors (vars : List (Variable F D)) (m : Synth F D α) (o : Outcome β)
    (Q : List (Variable F D) → α → β → Prop) : Prop where
  runs : ∀ b, o = .ok b → Decides vars m True fun now a => Q now a b
  fails : ∀ fault, o = .error fault → ∀ r, m vars ≠ .ok r

namespace Mirrors
variable {vars : List (Variable F D)} {m : Synth F D α} {o : Outcome β}
variable {f : α → Synth F D γ} {g : β → Outcome δ} {Q : List (Variable F D) → α → β → Prop}
variable {R : List (Variable F D) → γ → δ → Prop}

theorem bind (first : Mirrors vars m o Q) (rest : ∀ more a b, Q (vars ++ more) a b →
    Mirrors (vars ++ more) (f a) (g b) R) : Mirrors vars (m >>= f) (o >>= g) R := by
  constructor
  · intro d ok
    obtain ⟨b, ob, gb⟩ := bind_eq_ok.mp ok
    apply (first.runs b ob).bind_true
    intro more a related
    exact (rest more a b related).runs d gb
  · intro fault failed r run
    obtain ⟨a, e, c, e', early, late, _⟩ := Synth.bind_eq_ok.mp run
    cases result : o with
    | error fault' => exact first.fails fault' result _ early
    | ok b =>
      obtain ⟨a', e₁, run', _, related⟩ := first.runs b result
      cases run'.symm.trans early
      rw [result, ok_bind] at failed
      exact (rest _ _ b related).fails fault failed _ late

theorem pure {a : α} {b : β} (related : Q vars a b) : Mirrors vars (Pure.pure a) (.ok b) Q where
  runs b' ok := by
    cases ok
    exact .pure related
  fails _ failed := nomatch failed

theorem lift (o : Outcome β) : Mirrors vars (Synth.lift o) o fun _ a b => a = b where
  runs b ok := .lift ok rfl
  fails fault failed r run := by
    obtain ⟨b, ok, _⟩ := Synth.lift_eq_ok.mp run
    cases failed.symm.trans ok

/-- A fallible call on both sides. -/
theorem lift_bind {o : Outcome α} {g : α → Outcome δ} (rest : ∀ more a,
    Mirrors (vars ++ more) (f a) (g a) R) : Mirrors vars (Synth.lift o >>= f) (o >>= g) R :=
  (lift o).bind (by rintro more a _ rfl; exact rest more a)

/-- A step that always runs, on the side of the wires. -/
theorem decides_bind {Q : List (Variable F D) → α → Prop} {o : Outcome δ}
    (first : Decides vars m True Q)
    (rest : ∀ more a, Q (vars ++ more) a → Mirrors (vars ++ more) (f a) o R) :
    Mirrors vars (m >>= f) o R := by
  constructor
  · intro d ok
    apply first.bind_true
    intro more a ha
    exact (rest more a ha).runs d ok
  · intro fault failed r run
    obtain ⟨a, e, c, e', early, late, _⟩ := Synth.bind_eq_ok.mp run
    obtain ⟨a', e₁, run', _, ha⟩ := first
    cases run'.symm.trans early
    exact (rest _ _ ha).fails fault failed _ late

/-- A loop whose every round mirrors one of the other. -/
theorem foldlM {ι : Type} {f : α → ι → Synth F D α} {g : β → ι → Outcome β} {l : List ι}
    {Q : α → β → Prop} (each : ∀ i ∈ l, ∀ more a b, Q a b →
      Mirrors (vars ++ more) (f a i) (g b i) fun _ a' b' => Q a' b') {a : α} {b : β}
    (start : Q a b) : Mirrors vars (l.foldlM f a) (l.foldlM g b) fun _ a' b' => Q a' b' := by
  induction l generalizing vars a b with
  | nil => exact pure start
  | cons i l ih =>
    rw [List.foldlM_cons, List.foldlM_cons]
    have first := each i List.mem_cons_self [] a b start
    rw [List.append_nil] at first
    apply first.bind
    intro more a' b' related
    apply ih _ related
    intro j member more' a'' b'' related'
    rw [List.append_assoc]
    exact each j (List.mem_cons_of_mem i member) (more ++ more') a'' b'' related'

/-- A loop over a list whose every round mirrors an outcome of its own. -/
theorem mapM {ι : Type} {f : ι → Synth F D α} {g : ι → Outcome β} {l : List ι}
    {S : List (Variable F D) → α → β → Prop}
    (stable : ∀ now more a b, S now a b → S (now ++ more) a b)
    (each : ∀ i ∈ l, ∀ more, Mirrors (vars ++ more) (f i) (g i) S) :
    Mirrors vars (l.mapM f) (l.mapM g) fun now as bs => List.Forall₂ (S now) as bs := by
  induction l generalizing vars with
  | nil => exact pure .nil
  | cons i l ih =>
    rw [List.mapM_cons, List.mapM_cons]
    have first := each i List.mem_cons_self []
    rw [List.append_nil] at first
    apply first.bind
    intro more a b related
    have later := ih fun j member more' => by
      have here := each j (List.mem_cons_of_mem i member) (more ++ more')
      rwa [← List.append_assoc] at here
    apply later.bind
    intro more' as bs all
    exact pure (.cons (stable _ _ _ _ related) all)

/-- A loop of a body whose every round mirrors an effect on the manager. -/
theorem forEach {ι PM : Type} [Manager F D PM] {body : ι → Program F D Unit}
    {effect : PM → ι → Outcome PM} {l : List ι} {pm : PM}
    (each : ∀ i ∈ l, ∀ more pm, Mirrors (vars ++ more) ((body i).run pm) (effect pm i)
      fun _ r pm' => r.2 = pm') :
    Mirrors vars ((HonestRuns.forEach l body).run pm) (l.foldlM effect pm)
      fun _ r pm' => r.2 = pm' := by
  induction l generalizing vars pm with
  | nil => exact pure rfl
  | cons i l ih =>
    rw [HonestRuns.forEach, run_bind, List.foldlM_cons]
    have first := each i List.mem_cons_self [] pm
    rw [List.append_nil] at first
    apply first.bind
    rintro more ⟨_, pm'⟩ _ rfl
    apply ih
    intro j member more' pm''
    rw [List.append_assoc]
    exact each j (List.mem_cons_of_mem i member) (more ++ more') pm''

/-- A run of the step shows a result of the outcome. -/
theorem result (mirrors : Mirrors vars m o Q) {r : α × Emission F D} (run : m vars = .ok r) :
    ∃ b, o = .ok b ∧ Q (vars ++ r.2.allocations) r.1 b := by
  cases ok : o with
  | error fault => exact absurd run (mirrors.fails fault ok r)
  | ok b =>
    obtain ⟨a, e, run', _, related⟩ := mirrors.runs b ok
    cases run'.symm.trans run
    exact ⟨b, rfl, related⟩

end Mirrors

section Rom
variable {vars : List (Variable F D)} {pm : SetupRomPortalManager F} {name : String}

theorem romGet_mirrors : Mirrors vars (Manager.get (F := F) (D := D) pm name)
    (SetupManager.getValue pm name) fun now r r' => Valued now r.1 r'.1 ∧ r.2 = r'.2 := by
  change Mirrors vars (SetupRomPortalManager.get pm name) _ _
  rw [SetupRomPortalManager.get]
  apply Mirrors.lift_bind
  intro more entry
  apply Mirrors.decides_bind (Decides.newVariable .witness .field entry.val)
  intro more' w hw
  apply (Mirrors.lift _).bind
  rintro more'' subtraces _ rfl
  exact .pure ⟨hw.mono more'', rfl⟩

theorem romSet_mirrors {w : Wire F D .field} {value : F} (hw : Valued vars w value) :
    Mirrors vars (Manager.set pm name w) (SetupManager.setValue pm name value)
      fun _ r r' => r = r' := by
  change Mirrors vars (SetupRomPortalManager.set pm name w)
    (if (pm.varMap name).isSome = true then _ else _) _
  rw [SetupRomPortalManager.set]
  by_cases known : (pm.varMap name).isSome = true
  · rw [if_pos known, if_pos known]
    constructor
    · exact fun _ ok => nomatch ok
    · exact fun _ _ _ run => nomatch run
  · rw [if_neg known, if_neg known]
    apply Mirrors.decides_bind (Decides.value hw)
    rintro more _ rfl
    apply (Mirrors.lift _).bind
    rintro more' subtraces _ rfl
    exact .pure rfl

end Rom

section Wires
variable {F : Type}

/-- The value that a wire was set to. -/
def valueOf (pm : SetupRomPortalManager F) (name : String) : Option F :=
  (pm.varMap name).map RomEntry.val

/-- What was set stays set. -/
def Extends (pm pm' : SetupRomPortalManager F) : Prop :=
  ∀ name value, valueOf pm name = some value → valueOf pm' name = some value

variable {pm pm' pm'' : SetupRomPortalManager F} {name : String} {value : F}

theorem Extends.trans (first : Extends pm pm') (rest : Extends pm' pm'') : Extends pm pm'' :=
  fun name value known => rest name value (first name value known)

theorem getValue_eq_ok : SetupManager.getValue pm name = .ok (value, pm') →
    valueOf pm name = some value ∧ pm'.varMap = pm.varMap := by
  intro got
  obtain ⟨entry, found, rest⟩ := bind_eq_ok.mp got
  obtain ⟨subtraces, _, same⟩ := bind_eq_ok.mp rest
  cases same
  rw [expect_eq_ok] at found
  exact ⟨by rw [valueOf, found]; rfl, rfl⟩

/-- A set records an entry under a free name, at the next address. -/
theorem of_setValue (set : SetupManager.setValue pm name value = .ok pm') :
    pm.varMap name = none ∧ ∃ subtraces,
      pushEntry pm.subtraces (.rom ⟨pm.nextVarAddr, value⟩) = .ok subtraces ∧
      pm' = ⟨subtraces, pm.nextVarAddr + 1,
        Function.update pm.varMap name (some ⟨pm.nextVarAddr, value⟩)⟩ := by
  change (if (pm.varMap name).isSome = true then _ else _) = _ at set
  by_cases known : (pm.varMap name).isSome = true
  · rw [if_pos known] at set
    cases set
  · rw [if_neg known] at set
    obtain ⟨subtraces, pushed, same⟩ := bind_eq_ok.mp set
    cases same
    exact ⟨by simpa using known, subtraces, pushed, rfl⟩

theorem setValue_eq_ok : SetupManager.setValue pm name value = .ok pm' →
    pm.varMap name = none ∧
      pm'.varMap = Function.update pm.varMap name (some ⟨pm.nextVarAddr, value⟩) := by
  intro set
  obtain ⟨free, subtraces, _, rfl⟩ := of_setValue set
  exact ⟨free, rfl⟩

theorem valueOf_update {pm' : SetupRomPortalManager F} {entry : RomEntry Nat F}
    (written : pm'.varMap = Function.update pm.varMap name (some entry)) (other : String) :
    valueOf pm' other = if other = name then some entry.val else valueOf pm other := by
  rw [valueOf, written, Function.update_apply]
  split <;> rfl

theorem valueOf_set (set : SetupManager.setValue pm name value = .ok pm') (other : String) :
    valueOf pm' other = if other = name then some value else valueOf pm other :=
  valueOf_update (setValue_eq_ok set).2 other

theorem Extends.of_get (got : SetupManager.getValue pm name = .ok (value, pm')) :
    Extends pm pm' := by
  intro other v known
  rwa [valueOf, (getValue_eq_ok got).2]

theorem Extends.of_set (set : SetupManager.setValue pm name value = .ok pm') :
    Extends pm pm' := by
  intro other v known
  rw [valueOf_set set]
  split
  · rename_i same
    rw [valueOf, same, (setValue_eq_ok set).1] at known
    cases known
  · exact known

theorem valueOf_eq_none : valueOf pm name = none ↔ pm.varMap name = none := Option.map_eq_none_iff

/-- A wire that was set can be read. -/
theorem getValue_ok (started : pm.subtraces ≠ []) (known : valueOf pm name = some value) :
    ∃ pm', SetupManager.getValue pm name = .ok (value, pm') ∧ pm'.subtraces ≠ [] := by
  obtain ⟨entry, found, rfl⟩ := Option.map_eq_some_iff.mp known
  obtain ⟨subtraces, pushed, grown⟩ := pushEntry_of_ne_nil started (Entry.rom entry)
  refine ⟨{ pm with subtraces := subtraces }, ?_, grown⟩
  simp only [SetupManager.getValue, found, expect_some, ok_bind, pushed]

/-- A wire that was not set yet can be set. -/
theorem setValue_ok (started : pm.subtraces ≠ []) (free : valueOf pm name = none) (value : F) :
    ∃ pm', SetupManager.setValue pm name value = .ok pm' ∧ pm'.subtraces ≠ [] := by
  obtain ⟨subtraces, pushed, grown⟩ := pushEntry_of_ne_nil started
    (Entry.rom (F := F) ⟨pm.nextVarAddr, value⟩)
  refine ⟨⟨subtraces, pm.nextVarAddr + 1,
    Function.update pm.varMap name (some ⟨pm.nextVarAddr, value⟩)⟩, ?_, grown⟩
  simp only [SetupManager.setValue, valueOf_eq_none.mp free, Option.isSome_none,
    Bool.false_eq_true, if_false, pushed, ok_bind]

end Wires

end MirroredRuns
