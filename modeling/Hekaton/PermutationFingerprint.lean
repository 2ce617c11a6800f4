import Hekaton.PrimeFields
import Hekaton.Transcript
import Mathlib

/-!
# The fingerprint of a trace

The running evaluations are products of linear forms in the challenges. As polynomials the
time-ordered and the address-ordered one are equal exactly when the entries are the same up
to order: the last challenge has the entries' representations as roots, and over a large
characteristic a representation determines its entry. In-circuit the same products come out.
-/

namespace PermutationFingerprint

open Outcomes Wires Synthesis Contracts Uint32 Transcript

section Products
variable {α R : Type*} [CommRing R] [IsDomain R]

/-- A map that tells the elements of both lists apart. -/
theorem perm_of_map_perm {β : Type*} {f : α → β} {l l' : List α}
    (apart : Set.InjOn f {a | a ∈ l ∨ a ∈ l'}) (perm : (l.map f).Perm (l'.map f)) : l.Perm l' := by
  rcases List.eq_nil_or_concat l with rfl | ⟨_, a, _⟩
  · have none : l'.map f = [] := List.nil_perm.mp perm
    rw [List.map_eq_nil_iff.mp none]
  · have : Nonempty α := ⟨a⟩
    have back : ∀ k : List α, (∀ a ∈ k, a ∈ l ∨ a ∈ l') →
        (k.map f).map (Function.invFunOn f {a | a ∈ l ∨ a ∈ l'}) = k := by
      intro k inside
      rw [List.map_map]
      conv_rhs => rw [← List.map_id k]
      exact List.map_congr_left fun a member => apart.leftInvOn_invFunOn (inside a member)
    have same := perm.map (Function.invFunOn f {a | a ∈ l ∨ a ∈ l'})
    rwa [back l fun a member => .inl member, back l' fun a member => .inr member] at same

/-- Equal products have their roots in common, as often. -/
theorem perm_of_prod_eq {r : α → R} {l l' : List α} (apart : Set.InjOn r {a | a ∈ l ∨ a ∈ l'})
    (same : (l.map fun a => (Polynomial.X - Polynomial.C (r a))).prod =
      (l'.map fun a => Polynomial.X - Polynomial.C (r a)).prod) : l.Perm l' := by
  have roots : ∀ k : List α, (k.map fun a => Polynomial.X - Polynomial.C (r a)).prod.roots =
      ((k.map r : List R) : Multiset R) := by
    intro k
    have product := Polynomial.roots_multiset_prod_X_sub_C ((k.map r : List R) : Multiset R)
    rw [Multiset.map_coe, Multiset.prod_coe, List.map_map] at product
    exact product
  have both := congrArg Polynomial.roots same
  rw [roots, roots, Multiset.coe_eq_coe] at both
  exact perm_of_map_perm apart both

end Products

section Forms
variable {F : Type} [Field F] {m : MemType}

/-- The challenges as the assignment of the indeterminates. -/
def assignment {K : Type} (c : Challenges K m) (i : Fin (Challenges.count m)) : K :=
  match m, c, i with
  | .rom, .rom entryChal trChal, i => ![entryChal, trChal] i
  | .ram, .ram entryChal₁ entryChal₂ entryChal₃ trChal, i =>
      ![entryChal₁, entryChal₂, entryChal₃, trChal] i

/-- The factor of an entry in the indeterminates `entry_chal` and `tr_chal`. -/
noncomputable def romForm (e : RomEntry Nat F) : MvPolynomial (Fin 2) F :=
  .X 1 - (.C e.val + .X 0 * .C (e.addr : F))

local instance four_ne_zero : NeZero 4 := ⟨by decide⟩

/-- The factor of an entry in the three entry challenges and `tr_chal`. -/
noncomputable def ramForm (e : RamEntry Nat F) : MvPolynomial (Fin 4) F :=
  .X 3 - (.C e.val + .X 0 * .C (e.addr : F) + .X 1 * .C (e.i.representation : F) +
    .X 2 * .C (if e.read then 1 else 0))

noncomputable def linearForm :
    {m : MemType} → TranscriptEntry F m → MvPolynomial (Fin (Challenges.count m)) F
  | .rom, .rom e => romForm e
  | .ram, .ram e => ramForm e

/-- The entry with its value in a larger field. -/
def lifted (K : Type) [Field K] [Algebra F K] : TranscriptEntry F m → TranscriptEntry K m
  | .rom e => .rom ⟨e.addr, algebraMap F K e.val⟩
  | .ram e => .ram ⟨e.addr, algebraMap F K e.val, e.i, e.read⟩

section Values
variable {A : Type} [CommRing A] [Algebra F A]

theorem aeval_rom (v : Fin 2 → A) (e : RomEntry Nat F) :
    MvPolynomial.aeval v (romForm e) =
      v 1 - (algebraMap F A e.val + v 0 * (e.addr : A)) := by
  rw [romForm]
  simp only [map_sub, map_add, map_mul, MvPolynomial.aeval_X, MvPolynomial.aeval_C, map_natCast]

theorem aeval_ram (v : Fin 4 → A) (e : RamEntry Nat F) :
    MvPolynomial.aeval v (ramForm e) =
      v 3 - (algebraMap F A e.val + v 0 * (e.addr : A) + v 1 * (e.i.representation : A) +
        v 2 * if e.read then 1 else 0) := by
  rw [ramForm]
  simp only [map_sub, map_add, map_mul, MvPolynomial.aeval_X, MvPolynomial.aeval_C, map_natCast,
    apply_ite (algebraMap F A), map_one, map_zero]

end Values

theorem aeval_linearForm {K : Type} [Field K] [Algebra F K] (c : Challenges K m)
    (e : TranscriptEntry F m) :
    MvPolynomial.aeval (assignment c) (linearForm e) = c.factor (lifted K e).assigned := by
  cases e with
  | rom e =>
    cases c with
    | rom entryChal trChal => exact aeval_rom ![entryChal, trChal] e
  | ram e =>
    cases c with
    | ram entryChal₁ entryChal₂ entryChal₃ trChal =>
      exact aeval_ram ![entryChal₁, entryChal₂, entryChal₃, trChal] e

/-- The representation of an entry, without the last challenge. -/
noncomputable def representation : {m : MemType} → TranscriptEntry F m → MvPolynomial (Fin 3) F
  | .rom, .rom e => .C e.val + .X 0 * (e.addr : MvPolynomial (Fin 3) F)
  | .ram, .ram e => .C e.val + .X 0 * (e.addr : MvPolynomial (Fin 3) F) +
      .X 1 * (e.i.representation : MvPolynomial (Fin 3) F) + .X 2 * if e.read then 1 else 0

/-- The last challenge apart from the others. -/
noncomputable def separated (F : Type) [Field F] :
    (m : MemType) → Fin (Challenges.count m) → Polynomial (MvPolynomial (Fin 3) F)
  | .rom => ![Polynomial.C (.X 0), Polynomial.X]
  | .ram => ![Polynomial.C (.X 0), Polynomial.C (.X 1), Polynomial.C (.X 2), Polynomial.X]

theorem separated_linearForm (e : TranscriptEntry F m) :
    MvPolynomial.aeval (separated F m) (linearForm e) =
      Polynomial.X - Polynomial.C (representation e) := by
  cases e with
  | rom e =>
    refine (aeval_rom (separated F .rom) e).trans ?_
    rw [representation, map_add, map_mul, map_natCast]
    rfl
  | ram e =>
    refine (aeval_ram (separated F .ram) e).trans ?_
    rw [representation]
    simp only [map_add, map_mul, map_natCast, apply_ite Polynomial.C, map_one, map_zero]
    rfl

end Forms

section Entries
variable {F : Type} [Field F] {m : MemType} {p : Nat} [CharP F p]

theorem natCast_inj {a b : Nat} (ha : a < p) (hb : b < p) (same : (a : F) = b) : a = b :=
  CharP.natCast_injOn_Iio F p ha hb same

omit [CharP F p] in
/-- The representation at a point. -/
theorem eval_representation (v : Fin 3 → F) (e : TranscriptEntry F m) :
    MvPolynomial.eval v (representation e) = match m, e with
      | .rom, .rom e => e.val + v 0 * e.addr
      | .ram, .ram e => e.val + v 0 * e.addr + v 1 * e.i.representation +
          v 2 * if e.read then 1 else 0 := by
  cases e with
  | rom e => simp [representation]
  | ram e =>
    simp only [representation, map_add, map_mul, MvPolynomial.eval_X, MvPolynomial.eval_C,
      map_natCast, apply_ite (MvPolynomial.eval v), map_one, map_zero]

/-- At the origin the representation is the value; at a unit vector one more field. -/
theorem representation_inj (large : 2 ^ 64 < p) {e e' : TranscriptEntry F m}
    (native : e.addr < 2 ^ 64) (native' : e'.addr < 2 ^ 64)
    (same : representation e = representation e') : e = e' := by
  have at_ := fun v : Fin 3 → F => congrArg (MvPolynomial.eval v) same
  simp only [eval_representation] at at_
  cases e with
  | rom e =>
    cases e' with
    | rom e' =>
      have val : e.val = e'.val := by simpa using at_ ![0, 0, 0]
      have addr : (e.addr : F) = e'.addr := by simpa [val] using at_ ![1, 0, 0]
      have addr' : e.addr = e'.addr := natCast_inj (native.trans large) (native'.trans large) addr
      obtain ⟨a, x⟩ := e
      obtain ⟨a', x'⟩ := e'
      cases val
      cases addr'
      rfl
  | ram e =>
    cases e' with
    | ram e' =>
      have val : e.val = e'.val := by simpa using at_ ![0, 0, 0]
      have addr : (e.addr : F) = e'.addr := by simpa [val] using at_ ![1, 0, 0]
      have time : (e.i.representation : F) = e'.i.representation := by
        simpa [val] using at_ ![0, 1, 0]
      have read : (if e.read then 1 else 0 : F) = if e'.read then 1 else 0 := by
        simpa [val] using at_ ![0, 0, 1]
      have width : 2 ^ 32 < p := lt_trans (by decide) large
      have addr' : e.addr = e'.addr := natCast_inj (native.trans large) (native'.trans large) addr
      have time' : e.i = e'.i := Unsigned32.representation_injective
        (natCast_inj ((Unsigned32.representation_lt _).trans width)
          ((Unsigned32.representation_lt _).trans width) time)
      have read' : e.read = e'.read := by
        cases h : e.read <;> cases h' : e'.read <;> simp_all
      obtain ⟨a, x, i, r⟩ := e
      obtain ⟨a', x', i', r'⟩ := e'
      cases val
      cases addr'
      cases time'
      cases read'
      rfl

end Entries

section Runs
variable {F : Type} [Field F] {m : MemType}

/-- The running evaluations as polynomials. -/
noncomputable def tracePolynomial (l : List (TranscriptEntry F m)) :
    MvPolynomial (Fin (Challenges.count m)) F :=
  (l.map linearForm).prod

theorem foldlM_updateTimeOrdered (c : Challenges F m) (time addr : F)
    (l : List (TranscriptEntry F m)) :
    l.foldlM RunningEvaluation.updateTimeOrdered ⟨time, addr, some c⟩ =
      .ok ⟨time * (l.map fun e => c.factor e.assigned).prod, addr, some c⟩ := by
  induction l generalizing time with
  | nil => simp [pure, Except.pure]
  | cons e l ih =>
    have step : RunningEvaluation.updateTimeOrdered ⟨time, addr, some c⟩ e =
      .ok ⟨time * c.factor e.assigned, addr, some c⟩ := rfl
    rw [List.foldlM_cons, step, ok_bind, ih, List.map_cons, List.prod_cons, mul_assoc]

theorem foldlM_updateAddrOrdered (c : Challenges F m) (time addr : F)
    (l : List (TranscriptEntry F m)) :
    l.foldlM RunningEvaluation.updateAddrOrdered ⟨time, addr, some c⟩ =
      .ok ⟨time, addr * (l.map fun e => c.factor e.assigned).prod, some c⟩ := by
  induction l generalizing addr with
  | nil => simp [pure, Except.pure]
  | cons e l ih =>
    have step : RunningEvaluation.updateAddrOrdered ⟨time, addr, some c⟩ e =
      .ok ⟨time, addr * c.factor e.assigned, some c⟩ := rfl
    rw [List.foldlM_cons, step, ok_bind, ih, List.map_cons, List.prod_cons, mul_assoc]

/-- The polynomial at challenges of any larger field is the product of the factors there. -/
theorem aeval_tracePolynomial {K : Type} [Field K] [Algebra F K] (c : Challenges K m)
    (l : List (TranscriptEntry F m)) :
    MvPolynomial.aeval (assignment c) (tracePolynomial l) =
      ((l.map (lifted K)).map fun e => c.factor e.assigned).prod := by
  rw [tracePolynomial, map_list_prod, List.map_map, List.map_map]
  apply congrArg
  exact List.map_congr_left fun e _ => aeval_linearForm c e

/-- Equal polynomials come from the same entries. -/
theorem tracePolynomial_inj {p : Nat} [CharP F p] (large : 2 ^ 64 < p)
    {time addr : List (TranscriptEntry F m)} (native : ∀ e ∈ time, e.addr < 2 ^ 64)
    (native' : ∀ e ∈ addr, e.addr < 2 ^ 64) :
    tracePolynomial time = tracePolynomial addr ↔ addr.Perm time := by
  constructor
  · intro same
    have products : ∀ l : List (TranscriptEntry F m),
        MvPolynomial.aeval (separated F m) (tracePolynomial l) =
          (l.map fun e => Polynomial.X - Polynomial.C (representation e)).prod := by
      intro l
      rw [tracePolynomial, map_list_prod, List.map_map]
      apply congrArg
      exact List.map_congr_left fun e _ => separated_linearForm e
    have separate := congrArg (MvPolynomial.aeval (separated F m)) same
    rw [products, products] at separate
    apply perm_of_prod_eq _ separate.symm
    intro e member e' member' equal
    have inside : ∀ e, e ∈ addr ∨ e ∈ time → e.addr < 2 ^ 64 := by
      rintro e (h | h)
      · exact native' e h
      · exact native e h
    exact representation_inj large (inside e member) (inside e' member') equal
  · intro perm
    exact (perm.map linearForm).prod_eq.symm

end Runs

section Circuit
variable {F D : Type} [Field F] [DecidableEq F] [DecidableEq D] {m : MemType}

/-- The factors of the entries that an assignment gives to the variables. -/
def factors (z : Assignment F D) (c : Challenges (Wire F D .field) m)
    (vars : List (TranscriptEntryVar F D m)) : F :=
  (vars.map fun v => (c.value z).factor (v.value z)).prod

theorem factors_cons (z : Assignment F D) (c : Challenges (Wire F D .field) m)
    (v : TranscriptEntryVar F D m) (vars : List (TranscriptEntryVar F D m)) :
    factors z c (v :: vars) = (c.value z).factor (v.value z) * factors z c vars :=
  List.prod_cons

theorem foldlM_updateTimeOrdered_computes (c : Challenges (Wire F D .field) m)
    (time addr : Wire F D .field) (vars : List (TranscriptEntryVar F D m)) :
    ∃ w, Computes (vars.foldlM RunningEvaluationVar.updateTimeOrdered ⟨time, addr, some c⟩)
        ⟨w, addr, some c⟩ ∧
      ∀ z : Assignment F D, (w.eval z : F) = (time.eval z : F) * factors z c vars := by
  induction vars generalizing time with
  | nil => exact ⟨time, .pure _, fun z => (mul_one _).symm⟩
  | cons v vars ih =>
    obtain ⟨w, first, step⟩ := updateTimeOrdered_computes ⟨time, addr, some c⟩ rfl v
    obtain ⟨w', rest, run⟩ := ih w
    refine ⟨w', first.bind rest, fun z => ?_⟩
    rw [run, step, factors_cons, mul_assoc]

theorem foldlM_updateAddrOrdered_computes (c : Challenges (Wire F D .field) m)
    (time addr : Wire F D .field) (vars : List (TranscriptEntryVar F D m)) :
    ∃ w, Computes (vars.foldlM RunningEvaluationVar.updateAddrOrdered ⟨time, addr, some c⟩)
        ⟨time, w, some c⟩ ∧
      ∀ z : Assignment F D, (w.eval z : F) = (addr.eval z : F) * factors z c vars := by
  induction vars generalizing addr with
  | nil => exact ⟨addr, .pure _, fun z => (mul_one _).symm⟩
  | cons v vars ih =>
    obtain ⟨w, first, step⟩ := updateAddrOrdered_computes ⟨time, addr, some c⟩ rfl v
    obtain ⟨w', rest, run⟩ := ih w
    refine ⟨w', first.bind rest, fun z => ?_⟩
    rw [run, step, factors_cons, mul_assoc]

/-- Variables that were assigned native entries have these entries' factors. -/
theorem factors_assigned {z : Assignment F D} (c : Challenges (Wire F D .field) m)
    {vars : List (TranscriptEntryVar F D m)} {l : List (TranscriptEntry F m)}
    (entries : vars.map (TranscriptEntryVar.value z) = l.map Entry.assigned) :
    factors z c vars = (l.map fun e => (c.value z).factor e.assigned).prod := by
  have both := congrArg (List.map (c.value z).factor) entries
  rw [List.map_map, List.map_map] at both
  exact congrArg List.prod both

/-- The evaluations are polynomials in the challenges, equal exactly for traces of the same
entries, and the circuit evaluates them at the challenges' values. -/
theorem fingerprint_permutation {p : Nat} [CharP F p] (large : 2 ^ 64 < p)
    {T A : List (TranscriptEntry F m)} (native : ∀ e ∈ T, e.addr < 2 ^ 64)
    (native' : ∀ e ∈ A, e.addr < 2 ^ 64) :
    (∃ time addr : MvPolynomial (Fin (Challenges.count m)) F,
      (∀ (K : Type) [Field K] [Algebra F K] (c : Challenges K m),
        (T.map (lifted K)).foldlM RunningEvaluation.updateTimeOrdered ⟨1, 1, some c⟩ =
          .ok ⟨MvPolynomial.aeval (assignment c) time, 1, some c⟩ ∧
        (A.map (lifted K)).foldlM RunningEvaluation.updateAddrOrdered ⟨1, 1, some c⟩ =
          .ok ⟨1, MvPolynomial.aeval (assignment c) addr, some c⟩) ∧
      (time = addr ↔ A.Perm T)) ∧
    (∀ (c : Challenges (Wire F D .field) m) (time addr : Wire F D .field)
      (timeVars addrVars : List (TranscriptEntryVar F D m)), ∃ time' addr' : Wire F D .field,
        Computes (timeVars.foldlM RunningEvaluationVar.updateTimeOrdered ⟨time, addr, some c⟩)
          ⟨time', addr, some c⟩ ∧
        Computes (addrVars.foldlM RunningEvaluationVar.updateAddrOrdered ⟨time, addr, some c⟩)
          ⟨time, addr', some c⟩ ∧
        ∀ z : Assignment F D, (time.eval z : F) = 1 → (addr.eval z : F) = 1 →
          timeVars.map (TranscriptEntryVar.value z) = T.map Entry.assigned →
          addrVars.map (TranscriptEntryVar.value z) = A.map Entry.assigned →
          T.foldlM RunningEvaluation.updateTimeOrdered ⟨1, 1, some (c.value z)⟩ =
            .ok ⟨time'.eval z, 1, some (c.value z)⟩ ∧
          A.foldlM RunningEvaluation.updateAddrOrdered ⟨1, 1, some (c.value z)⟩ =
            .ok ⟨1, addr'.eval z, some (c.value z)⟩) := by
  constructor
  · refine ⟨tracePolynomial T, tracePolynomial A, ?_, tracePolynomial_inj large native native'⟩
    intro K _ _ c
    rw [foldlM_updateTimeOrdered, foldlM_updateAddrOrdered, aeval_tracePolynomial,
      aeval_tracePolynomial, one_mul, one_mul]
    exact ⟨rfl, rfl⟩
  · intro c time addr timeVars addrVars
    obtain ⟨time', timeRun, timeValue⟩ := foldlM_updateTimeOrdered_computes c time addr timeVars
    obtain ⟨addr', addrRun, addrValue⟩ := foldlM_updateAddrOrdered_computes c time addr addrVars
    refine ⟨time', addr', timeRun, addrRun, ?_⟩
    intro z timeOne addrOne timeEntries addrEntries
    rw [timeValue, addrValue, timeOne, addrOne, factors_assigned c timeEntries,
      factors_assigned c addrEntries]
    exact ⟨foldlM_updateTimeOrdered _ _ _ _, foldlM_updateAddrOrdered _ _ _ _⟩

end Circuit

/-- Over the scalars of the curve, a trace and its reverse. -/
theorem reversed_fingerprint : ∃ time addr : MvPolynomial (Fin 2) PrimeFields.Bls12381Fr,
    time = addr ∧ ([.rom ⟨1, 5⟩, .rom ⟨2, 7⟩] : List (TranscriptEntry PrimeFields.Bls12381Fr
      .rom)).foldlM RunningEvaluation.updateTimeOrdered ⟨1, 1, some (.rom 3 11)⟩ =
        .ok ⟨MvPolynomial.aeval ![3, 11] time, 1, some (.rom 3 11)⟩ := by
  have large : 2 ^ 64 < PrimeFields.blsModulus := by decide
  have all := @fingerprint_permutation PrimeFields.Bls12381Fr Unit _ _ _ .rom _ _ large
    [.rom ⟨1, 5⟩, .rom ⟨2, 7⟩] [.rom ⟨2, 7⟩, .rom ⟨1, 5⟩] (by decide) (by decide)
  obtain ⟨time, addr, runs, same⟩ := all.1
  exact ⟨time, addr, same.mpr (List.Perm.swap _ _ _), (runs PrimeFields.Bls12381Fr (.rom 3 11)).1⟩

end PermutationFingerprint
