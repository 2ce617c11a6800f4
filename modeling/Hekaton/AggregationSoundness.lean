import Hekaton.SubcircuitAggregation
import Mathlib

/-!
# What gates an aggregated proof

Only the check of the inner-product argument and the debug assertions can stop the
aggregator. The argument proves the inner product that the aggregator computed itself, so it
says nothing about the equations of the proofs: without debug assertions a proof comes out
whenever the commitment to the `d` is what it should be.
-/

namespace AggregationSoundness

open LinearCombinations TwistedSums Outcomes CPGroth16 Aggregation SubcircuitAggregation Workers

variable {F G₁ G₂ GT Com Pf : Type} [Field F] [AddCommGroup G₁] [Module F G₁]
variable [AddCommGroup G₂] [Module F G₂] [AddCommGroup GT] [Module F GT]
variable [AddCommGroup Com] [Module F Com]

/-- What the argument proves: the vectors are committed to, and this is their product. -/
structure Relation (E : Pairing F G₁ G₂ GT) (ipp : IPCommitment F G₁ G₂ Com)
    (inst : Instance F GT Com) (witness : Witness G₁ G₂) : Prop where
  supported : inst.size = ipp.supportedSize
  left_size : witness.left.length = inst.size
  right_size : witness.right.length = inst.size
  output : dot (powers inst.size inst.twist)
    (List.zipWith (fun g h => E.pairing g h) witness.left witness.right) = inst.output
  commitment : ipp.left witness.left + ipp.right witness.right = inst.commitment

/-- Complete, and sound: what is proved from vectors is accepted only if they are a witness. -/
structure Lawful (tipa : TIPA F G₁ G₂ GT Com Pf) (E : Pairing F G₁ G₂ GT)
    (ipp : IPCommitment F G₁ G₂ Com) : Prop where
  complete : ∀ {inst witness}, Relation E ipp inst witness →
    ∃ proof, tipa.prove inst witness = .ok proof ∧ tipa.verify inst proof = .ok true
  sound : ∀ {inst witness proof}, tipa.prove inst witness = .ok proof →
    tipa.verify inst proof = .ok true → Relation E ipp inst witness

theorem unwrap_eq_ok {α : Type} {m : Outcome α} {a : α} : unwrap m = .ok a ↔ m = .ok a := by
  cases m with
  | ok b => exact Iff.rfl
  | error e => exact iff_of_false nofun nofun

variable {backend : Backend F G₁ G₂ GT Com Pf}

/-- A proof that verifies comes out exactly for a witness. -/
theorem proveAndVerify_iff (lawful : Lawful backend.tipa backend.E backend.ipp)
    {inst : Instance F GT Com} {witness : Witness G₁ G₂} :
    (∃ proof, backend.proveAndVerify inst witness = .ok proof) ↔
      Relation backend.E backend.ipp inst witness := by
  constructor
  · rintro ⟨proof, ran⟩
    rw [Backend.proveAndVerify] at ran
    obtain ⟨tippProof, proved, ran⟩ := bind_eq_ok.mp ran
    obtain ⟨accepted, verified, ran⟩ := bind_eq_ok.mp ran
    cases accepted with
    | false => cases ran
    | true => exact lawful.sound (unwrap_eq_ok.mp proved) (unwrap_eq_ok.mp verified)
  · intro holds
    obtain ⟨proof, proved, verified⟩ := lawful.complete holds
    refine ⟨proof, ?_⟩
    rw [Backend.proveAndVerify, proved, unwrap, ok_bind, verified, unwrap, ok_bind]
    rfl

/-- The vectors of a run, as the columns of one list of equations. -/
structure Arranged (agg : AggProvingKey G₁ G₂ Com) (proofs : List (Proof G₁ G₂))
    (dVals preparedInput : List G₁) (rows : List (Equation G₁ G₂)) : Prop where
  a : proofs.map Proof.a = rows.map Equation.a
  b : proofs.map Proof.b = rows.map Equation.b
  c : proofs.map Proof.c = rows.map Equation.c
  d : dVals = rows.map Equation.d
  input : preparedInput = rows.map Equation.input
  h : agg.h = rows.map Equation.h
  delta0 : agg.delta0 = rows.map Equation.delta0
  delta1 : agg.delta1 = rows.map Equation.delta1
  alpha : agg.alpha = rows.map Equation.alpha
  beta : agg.beta = rows.map Equation.beta

omit [AddCommGroup GT] [Module F GT] in
/-- With a key and proofs of the supported size there are such rows. -/
theorem exists_arranged {ipp : IPCommitment F G₁ G₂ Com} {agg : AggProvingKey G₁ G₂ Com}
    (commits : Commits ipp agg) {proofs : List (Proof G₁ G₂)}
    (size : proofs.length = ipp.supportedSize) {dVals preparedInput : List G₁}
    (committed : dVals.length = proofs.length) {pubInputs : List F}
    (prepared : agg.preparedInput pubInputs = .ok preparedInput) :
    ∃ rows, Arranged agg proofs dVals preparedInput rows := by
  obtain ⟨input0, input1, input2, more, rfl⟩ := inputs_of_prepared prepared
  obtain ⟨parts, counted, rfl⟩ := commits
  rw [preparedInput_eq] at prepared
  cases prepared
  let row : (Proof G₁ G₂ × G₁) × KeyParts G₁ G₂ → Equation G₁ G₂ := fun x =>
    ⟨x.1.1.a, x.1.1.b, x.1.1.c, x.1.2, combinedInput input0 input1 input2 x.2, x.2.h, x.2.delta0,
      x.2.delta1, x.2.alpha, x.2.beta⟩
  have pairs : (proofs.zip dVals).length = proofs.length := by
    rw [List.length_zip, committed, Nat.min_self]
  have inner := List.map_fst_zip committed.ge
  have inner' := List.map_snd_zip committed.le
  have outer : ((proofs.zip dVals).zip parts).map Prod.fst = proofs.zip dVals :=
    List.map_fst_zip (by omega)
  have outer' : ((proofs.zip dVals).zip parts).map Prod.snd = parts :=
    List.map_snd_zip (by omega)
  have ofProof : ∀ {α : Type} (f : Proof G₁ G₂ → α),
      proofs.map f = ((proofs.zip dVals).zip parts).map fun x => f x.1.1 := by
    intro α f
    calc proofs.map f = (((proofs.zip dVals).zip parts).map Prod.fst |>.map Prod.fst).map f := by
          rw [outer, inner]
      _ = ((proofs.zip dVals).zip parts).map fun x => f x.1.1 := by
          rw [List.map_map, List.map_map]
          rfl
  have ofPart : ∀ {α : Type} (f : KeyParts G₁ G₂ → α),
      parts.map f = ((proofs.zip dVals).zip parts).map fun x => f x.2 := by
    intro α f
    calc parts.map f = (((proofs.zip dVals).zip parts).map Prod.snd).map f := by rw [outer']
      _ = ((proofs.zip dVals).zip parts).map fun x => f x.2 := by
          rw [List.map_map]
          rfl
  refine ⟨((proofs.zip dVals).zip parts).map row, ?_⟩
  constructor <;> rw [List.map_map]
  · exact ofProof Proof.a
  · exact ofProof Proof.b
  · exact ofProof Proof.c
  · calc dVals = (((proofs.zip dVals).zip parts).map Prod.fst).map Prod.snd := by
          rw [outer, inner']
      _ = ((proofs.zip dVals).zip parts).map fun x => x.1.2 := by
          rw [List.map_map]
          rfl
  · exact ofPart (combinedInput input0 input1 input2)
  · exact ofPart KeyParts.h
  · exact ofPart KeyParts.delta0
  · exact ofPart KeyParts.delta1
  · exact ofPart KeyParts.alpha
  · exact ofPart KeyParts.beta

section Checks
variable [DecidableEq GT] {agg : AggProvingKey G₁ G₂ Com} {proofs : List (Proof G₁ G₂)}
variable {dVals preparedInput : List G₁} {rows : List (Equation G₁ G₂)}

theorem indexed_map {α β : Type} {l : List α} {i : Nat} {a : α} (found : l[i]? = some a)
    (f : α → β) : indexed (l.map f) i = .ok (f a) := by
  rw [indexed, List.getElem?_map, found, Option.map_some, expect_some]

/-- The check of one proof is that its equation is not off. -/
theorem checkedEquation_row (arranged : Arranged agg proofs dVals preparedInput rows)
    (firsts : List.Forall₂ (fun p d => indexed (Proof.ds p) 0 = .ok d) proofs dVals) {i : Nat}
    {proof : Proof G₁ G₂} {row : Equation G₁ G₂} (found : proofs[i]? = some proof)
    (found' : rows[i]? = some row) :
    checkedEquation backend.E agg preparedInput proof i =
      .ok (decide (row.error backend.E = 0)) := by
  have a : proof.a = row.a := by
    have same := indexed_map found Proof.a
    rw [arranged.a, indexed_map found' Equation.a] at same
    exact (Except.ok.inj same).symm
  have b : proof.b = row.b := by
    have same := indexed_map found Proof.b
    rw [arranged.b, indexed_map found' Equation.b] at same
    exact (Except.ok.inj same).symm
  have c : proof.c = row.c := by
    have same := indexed_map found Proof.c
    rw [arranged.c, indexed_map found' Equation.c] at same
    exact (Except.ok.inj same).symm
  have d : indexed proof.ds 0 = .ok row.d := by
    obtain ⟨inside, rfl⟩ := List.getElem?_eq_some_iff.mp found
    have inside' : i < dVals.length := firsts.length_eq ▸ inside
    have here := firsts.get inside inside'
    have there := indexed_map found' Equation.d
    rw [← arranged.d, indexed, List.getElem?_eq_getElem inside', expect_some] at there
    rw [← there]
    exact here
  rw [checkedEquation, arranged.alpha, arranged.beta, arranged.input, arranged.h, arranged.delta0,
    arranged.delta1, d]
  simp only [indexed_map found', ok_bind, a, b, c]
  exact congrArg Except.ok (decide_eq_decide.mpr sub_eq_zero.symm)

theorem indexed_scaled {G ρ : Type} [AddCommGroup G] [Module F G] {rows : List ρ} {i : Nat}
    {row : ρ} (found : rows[i]? = some row) {scalars : List F} {x : F}
    (scalar : scalars[i]? = some x) (f : ρ → G) :
    indexed (SubcircuitAggregation.scalarPairing (rows.map f) scalars) i = .ok (x • f row) := by
  rw [indexed, SubcircuitAggregation.scalarPairing, List.getElem?_zipWith, List.getElem?_map,
    found, scalar]
  rfl

omit [AddCommGroup G₁] [AddCommGroup G₂] [AddCommGroup GT] in
theorem debugAssert_eq_ok {debug : Bool} {message : String} {condition : Bool} :
    debugAssert debug message condition = .ok () ↔ (debug = true → condition = true) := by
  cases debug <;> cases condition <;> simp [debugAssert, panicWith]

/-- Under its power of the twist the equation is off by the scaled error. -/
theorem assertTwisted_row {scalars : List F} {i : Nat} {row : Equation G₁ G₂}
    (arranged : Arranged agg proofs dVals preparedInput rows) (found : rows[i]? = some row)
    {x : F} (scalar : scalars[i]? = some x) :
    backend.assertTwisted agg
        (SubcircuitAggregation.scalarPairing (rows.map Equation.a) scalars) (rows.map Equation.b)
        (SubcircuitAggregation.scalarPairing (rows.map Equation.alpha) scalars)
        (SubcircuitAggregation.scalarPairing (rows.map Equation.input) scalars)
        (SubcircuitAggregation.scalarPairing (rows.map Equation.d) scalars)
        (SubcircuitAggregation.scalarPairing (rows.map Equation.c) scalars) i = .ok () ↔
      (backend.debug = true → x • row.error backend.E = 0) := by
  have scaled : x • row.error backend.E = backend.E.pairing (x • row.a) row.b -
      (backend.E.pairing (x • row.alpha) row.beta + backend.E.pairing (x • row.input) row.h +
        backend.E.pairing (x • row.d) row.delta0 + backend.E.pairing (x • row.c) row.delta1) := by
    simp only [Equation.error, smul_sub, smul_add, map_smul, LinearMap.smul_apply]
  rw [Backend.assertTwisted, arranged.beta, arranged.h, arranged.delta0, arranged.delta1]
  simp only [indexed_scaled found scalar, indexed_map found, ok_bind]
  rw [debugAssert_eq_ok, decide_eq_true_iff, scaled, sub_eq_zero]

/-- The check of the product is that the sum of the errors vanishes. -/
theorem assertProduct_rows {scalars : List F} (size : scalars.length = rows.length)
    (arranged : Arranged agg proofs dVals preparedInput rows) :
    backend.assertProduct agg
        (SubcircuitAggregation.scalarPairing (rows.map Equation.alpha) scalars)
        (List.ofFn fun j => List.ofFn fun k => term backend.E scalars rows j k) = .ok () ↔
      (backend.debug = true → dot scalars (rows.map (Equation.error backend.E)) = 0) := by
  have read := crossTerm_ofFn (term backend.E scalars rows)
  have zAb := read 0 0
  have zSh := read 1 1
  have zDdelta0 := read 2 2
  have zCdelta1 := read 3 3
  rw [Fin.val_zero] at zAb
  rw [Fin.val_one] at zSh
  rw [Fin.val_two] at zDdelta0
  rw [show ((3 : Fin 4) : Nat) = 3 from rfl] at zCdelta1
  rw [Backend.assertProduct, zAb, ok_bind, zSh, ok_bind, zDdelta0, ok_bind, zCdelta1, ok_bind]
  by_cases debug : backend.debug = true
  · rw [if_pos debug, arranged.beta, pairing_scaled rows backend.E size, ok_bind,
      debugAssert_eq_ok, decide_eq_true_iff, ← term_sub_eq, sub_eq_zero]
  · rw [if_neg debug]
    exact iff_of_true rfl fun on => absurd on debug

/-- The equation of every proof holds, as the debug assertion checks it. -/
def AllHold (backend : Backend F G₁ G₂ GT Com Pf) (agg : AggProvingKey G₁ G₂ Com)
    (proofs : List (Proof G₁ G₂)) (preparedInput : List G₁) : Prop :=
  ∀ (i : Nat) (proof : Proof G₁ G₂), proofs[i]? = some proof →
    checkedEquation backend.E agg preparedInput proof i = .ok true

/-- The challenge `s` that the transcript gives for these vectors. -/
def foldingChallenge (backend : Backend F G₁ G₂ GT Com Pf) (agg : AggProvingKey G₁ G₂ Com)
    (pt : backend.transcript.State) (superCom : Com) (proofs : List (Proof G₁ G₂))
    (dVals preparedInput : List G₁) : Outcome F := do
  let aVals := proofs.map Proof.a
  let bVals := proofs.map Proof.b
  let cVals := proofs.map Proof.c
  let (twist, pt) := backend.deriveTwist pt (backend.ipp.withIp aVals bVals)
    (backend.ipp.left cVals) superCom
  let terms ← twistedTerms backend.E (structuredScalarPower proofs.length twist) aVals
    preparedInput dVals cVals bVals agg.h agg.delta0 agg.delta1
  .ok (backend.deriveFolding pt terms).1

omit [AddCommGroup G₁] [AddCommGroup G₂] [AddCommGroup Com] in
theorem Arranged.length_eq (arranged : Arranged agg proofs dVals preparedInput rows) :
    proofs.length = rows.length := by
  have same := congrArg List.length arranged.a
  rwa [List.length_map, List.length_map] at same

theorem allHold_rows (arranged : Arranged agg proofs dVals preparedInput rows)
    (firsts : List.Forall₂ (fun p d => indexed (Proof.ds p) 0 = .ok d) proofs dVals) :
    AllHold backend agg proofs preparedInput ↔ ∀ row ∈ rows, row.error backend.E = 0 := by
  have sizes := arranged.length_eq
  constructor
  · intro all row member
    obtain ⟨i, inside, rfl⟩ := List.getElem_of_mem member
    have found := List.getElem?_eq_getElem inside
    have found' := List.getElem?_eq_getElem (sizes ▸ inside : i < proofs.length)
    have here := all i _ found'
    rw [checkedEquation_row arranged firsts found' found] at here
    exact of_decide_eq_true (Except.ok.inj here)
  · intro all i proof found
    obtain ⟨inside, _⟩ := List.getElem?_eq_some_iff.mp found
    have found' := List.getElem?_eq_getElem (sizes ▸ inside : i < rows.length)
    rw [checkedEquation_row arranged firsts found found', all _ (List.getElem_mem _)]
    exact congrArg Except.ok (decide_eq_true rfl)

/-- The first round checks every equation, in a debug build. -/
theorem assertEquations_eq_ok :
    proofs.zipIdx.forM (fun p => backend.assertEquation agg preparedInput p.1 p.2) = .ok () ↔
      (backend.debug = true → AllHold backend agg proofs preparedInput) := by
  rw [forM_eq_ok]
  constructor
  · intro checked debug i proof found
    have here := checked (proof, i) (List.mk_mem_zipIdx_iff_getElem?.mpr found)
    rw [Backend.assertEquation, if_pos debug] at here
    obtain ⟨holds, same, asserted⟩ := bind_eq_ok.mp here
    rw [debugAssert_eq_ok.mp asserted debug] at same
    exact same
  · rintro all ⟨proof, i⟩ member
    rw [Backend.assertEquation]
    by_cases debug : backend.debug = true
    · have found := List.mk_mem_zipIdx_iff_getElem?.mp member
      rw [if_pos debug, all debug i proof found, ok_bind]
      exact debugAssert_eq_ok.mpr fun _ => rfl
    · rw [if_neg debug]

/-- The second round passes once the equations hold. -/
theorem assertTwisted_rows (arranged : Arranged agg proofs dVals preparedInput rows) (twist : F)
    (zero : backend.debug = true → ∀ row ∈ rows, row.error backend.E = 0) :
    ((List.range rows.length).forM fun i => backend.assertTwisted agg
      (SubcircuitAggregation.scalarPairing (rows.map Equation.a) (powers rows.length twist))
      (rows.map Equation.b)
      (SubcircuitAggregation.scalarPairing (rows.map Equation.alpha) (powers rows.length twist))
      (SubcircuitAggregation.scalarPairing (rows.map Equation.input) (powers rows.length twist))
      (SubcircuitAggregation.scalarPairing (rows.map Equation.d) (powers rows.length twist))
      (SubcircuitAggregation.scalarPairing (rows.map Equation.c) (powers rows.length twist)) i) =
        .ok () := by
  apply forM_eq_ok.mpr
  intro i member
  have inside := List.mem_range.mp member
  have scalar : (powers rows.length twist)[i]? = some (twist ^ i) := by
    rw [powers, List.getElem?_map, List.getElem?_range inside, Option.map_some]
  have found := List.getElem?_eq_getElem inside
  apply (assertTwisted_row arranged found scalar).mpr
  intro debug
  rw [zero debug _ (List.getElem_mem inside), smul_zero]

/-- So does the third. -/
theorem assertProduct_of_zero (arranged : Arranged agg proofs dVals preparedInput rows)
    (twist : F) (zero : backend.debug = true → ∀ row ∈ rows, row.error backend.E = 0) :
    backend.assertProduct agg
      (SubcircuitAggregation.scalarPairing (rows.map Equation.alpha) (powers rows.length twist))
      (List.ofFn fun j => List.ofFn fun k => term backend.E (powers rows.length twist) rows j k) =
        .ok () := by
  apply (assertProduct_rows (length_powers _ _) arranged).mpr
  intro debug
  rw [List.map_congr_left (zero debug)]
  exact dot_map_zero _ _

/-- What the run does once the vectors are there: three rounds of checks, then the argument. -/
theorem aggSubcircuitProofs_rows (arranged : Arranged agg proofs dVals preparedInput rows)
    (nonempty : proofs ≠ []) (size : proofs.length = backend.ipp.supportedSize)
    (commits : Commits backend.ipp agg) {pubInputs : List F}
    (opened : proofs.mapM (fun p => indexed p.ds 0) = .ok dVals)
    (prepared : agg.preparedInput pubInputs = .ok preparedInput) {pt : backend.transcript.State}
    {superCom : Com} {twist s t : F} {pt' : backend.transcript.State}
    (derived : backend.deriveTwist pt (backend.ipp.withIp (rows.map Equation.a)
      (rows.map Equation.b)) (backend.ipp.left (rows.map Equation.c)) superCom = (twist, pt'))
    (folded : backend.deriveFolding pt' (List.ofFn fun j => List.ofFn fun k =>
      term backend.E (powers rows.length twist) rows j k) = (s, t)) (out : Pf) :
    backend.aggSubcircuitProofs agg pt superCom proofs pubInputs = .ok out ↔
      (backend.debug = true → AllHold backend agg proofs preparedInput) ∧
      backend.proveAndVerify
        ⟨rows.length, ∑ j : Fin 4, ∑ k : Fin 4,
          (s ^ (j : Nat) * t ^ (k : Nat)) • term backend.E (powers rows.length twist) rows j k,
          combineCommitments agg (backend.ipp.withIp (rows.map Equation.a) (rows.map Equation.b))
            (backend.ipp.left (rows.map Equation.input)) superCom
            (backend.ipp.left (rows.map Equation.c)) s t, twist⟩
        ⟨rows.map fun q => ∑ j : Fin 4, s ^ (j : Nat) • q.lhs j,
          rows.map fun q => ∑ k : Fin 4, t ^ (k : Nat) • q.rhs k⟩ = .ok out := by
  have sizes := arranged.length_eq
  have positive : 0 < rows.length := sizes ▸ List.length_pos_of_ne_nil nonempty
  have fits : rows.length = backend.ipp.supportedSize := sizes ▸ size
  have fits' : ∀ {α : Type} (f : Equation G₁ G₂ → α),
      (rows.map f).length = backend.ipp.supportedSize := fun f => (List.length_map f).trans fits
  have zero : (backend.debug = true → AllHold backend agg proofs preparedInput) →
      backend.debug = true → ∀ row ∈ rows, row.error backend.E = 0 := fun all debug =>
    (allHold_rows arranged (forall₂_of_mapM opened)).mp (all debug)
  have comAb : backend.ipp.commitWithIp (rows.map Equation.a) (rows.map Equation.b) =
      .ok (backend.ipp.withIp (rows.map Equation.a) (rows.map Equation.b)) :=
    if_pos ⟨fits' _, fits' _⟩
  have comC : backend.ipp.commitOnlyLeft (rows.map Equation.c) =
      .ok (backend.ipp.left (rows.map Equation.c)) := if_pos (fits' _)
  have comInput := comPreparedInput_of_commits commits prepared
  have scalars : (powers rows.length twist).length = rows.length := length_powers _ _
  have terms := twistedTerms_eq backend.E rows scalars
  rw [twistedTerms] at terms
  have product := twistedInnerProduct_eq backend.innerProduct rows twist s t
  rw [Backend.aggSubcircuitProofs, opened, ok_bind]
  dsimp only
  rw [arranged.a, arranged.b, arranged.c, comAb, ok_bind, comC, ok_bind, comInput, ok_bind,
    prepared, ok_bind, derived, sizes]
  dsimp only
  rw [structuredScalarPower_eq positive, arranged.d, arranged.alpha, arranged.h, arranged.delta0,
    arranged.delta1]
  constructor
  · intro ran
    obtain ⟨_, checked, ran⟩ := bind_eq_ok.mp ran
    have all := assertEquations_eq_ok.mp checked
    rw [arranged.input, assertTwisted_rows arranged twist (zero all), ok_bind, terms, ok_bind,
      assertProduct_of_zero arranged twist (zero all), ok_bind, folded] at ran
    dsimp only at ran
    rw [combine_lhs, combine_rhs, product, unwrap, ok_bind] at ran
    exact ⟨all, ran⟩
  · rintro ⟨all, ran⟩
    rw [assertEquations_eq_ok.mpr all, ok_bind, arranged.input,
      assertTwisted_rows arranged twist (zero all), ok_bind, terms, ok_bind,
      assertProduct_of_zero arranged twist (zero all), ok_bind, folded]
    dsimp only
    rw [combine_lhs, combine_rhs, product, unwrap, ok_bind]
    exact ran

/-- A proof comes out when the commitment to the `d` is right, whatever the equations are. -/
theorem aggSubcircuitProofs_iff (lawful : Lawful backend.tipa backend.E backend.ipp)
    (commits : Commits backend.ipp agg) (nonempty : proofs ≠ [])
    (size : proofs.length = backend.ipp.supportedSize) {pubInputs : List F}
    (opened : proofs.mapM (fun p => indexed p.ds 0) = .ok dVals)
    (prepared : agg.preparedInput pubInputs = .ok preparedInput) (pt : backend.transcript.State)
    (superCom : Com) :
    (∃ out, backend.aggSubcircuitProofs agg pt superCom proofs pubInputs = .ok out) ↔
      (backend.debug = true → AllHold backend agg proofs preparedInput) ∧
      (superCom = backend.ipp.left dVals ∨
        foldingChallenge backend agg pt superCom proofs dVals preparedInput = .ok 0) := by
  have committed : dVals.length = proofs.length := (forall₂_of_mapM opened).length_eq.symm
  obtain ⟨rows, arranged⟩ := exists_arranged commits size committed prepared
  have sizes := arranged.length_eq
  have positive : 0 < rows.length := sizes ▸ List.length_pos_of_ne_nil nonempty
  have fits : rows.length = backend.ipp.supportedSize := sizes ▸ size
  obtain ⟨⟨twist, pt'⟩, derived⟩ : ∃ drawn, backend.deriveTwist pt (backend.ipp.withIp
    (rows.map Equation.a) (rows.map Equation.b)) (backend.ipp.left (rows.map Equation.c))
      superCom = drawn := ⟨_, rfl⟩
  obtain ⟨⟨s, t⟩, folded⟩ : ∃ drawn, backend.deriveFolding pt' (List.ofFn fun j =>
    List.ofFn fun k => term backend.E (powers rows.length twist) rows j k) = drawn := ⟨_, rfl⟩
  have challenge : foldingChallenge backend agg pt superCom proofs dVals preparedInput = .ok s := by
    have terms := twistedTerms_eq backend.E rows (length_powers rows.length twist)
    rw [foldingChallenge]
    dsimp only
    rw [arranged.a, arranged.b, arranged.c, derived]
    dsimp only
    rw [sizes, structuredScalarPower_eq positive, arranged.input, arranged.d, arranged.h,
      arranged.delta0, arranged.delta1, terms, ok_bind, folded]
  have run := aggSubcircuitProofs_rows arranged nonempty size commits opened prepared derived folded
  simp only [run, exists_and_left]
  rw [proveAndVerify_iff lawful, challenge, Except.ok.injEq, arranged.d]
  have commitment := combineCommitments_eq commits fits arranged.h arranged.delta0
    arranged.delta1 superCom s t
  apply and_congr_right
  intro _
  -- the argument's relation holds but for the commitment, which may be off
  constructor
  · intro related
    have off := related.commitment.trans commitment
    rw [left_eq_add, smul_eq_zero, mul_self_eq_zero, sub_eq_zero] at off
    exact off.symm
  · intro right
    constructor
    · exact fits
    · exact List.length_map _
    · exact List.length_map _
    · dsimp only
      rw [List.zipWith_map, List.zipWith_self]
      simp only [pairing_combined, dot_map_sum, dot_map_scale]
      rfl
    · have none : (s * s) • (superCom - backend.ipp.left (rows.map Equation.d)) = 0 := by
        rw [smul_eq_zero, mul_self_eq_zero, sub_eq_zero]
        exact right.symm
      dsimp only
      rw [commitment, none, add_zero]

/-- What an aggregated proof should say: all equations hold, and the commitment is to the `d`. -/
def Sound (backend : Backend F G₁ G₂ GT Com Pf) (agg : AggProvingKey G₁ G₂ Com) (superCom : Com)
    (proofs : List (Proof G₁ G₂)) (pubInputs : List F) : Prop :=
  ∃ preparedInput dVals, agg.preparedInput pubInputs = .ok preparedInput ∧
    proofs.mapM (fun p => indexed p.ds 0) = .ok dVals ∧
    AllHold backend agg proofs preparedInput ∧ superCom = backend.ipp.left dVals

/-- Where the commitment is to the `d`, debug assertions are on or all equations hold; where it
is not, the challenge is not zero, or a debug assertion stops the run. -/
def Gated (backend : Backend F G₁ G₂ GT Com Pf) (agg : AggProvingKey G₁ G₂ Com)
    (pt : backend.transcript.State) (superCom : Com) (proofs : List (Proof G₁ G₂))
    (pubInputs : List F) : Prop :=
  ∀ preparedInput dVals, agg.preparedInput pubInputs = .ok preparedInput →
    proofs.mapM (fun p => indexed p.ds 0) = .ok dVals →
    (superCom = backend.ipp.left dVals →
      backend.debug = true ∨ AllHold backend agg proofs preparedInput) ∧
    (superCom ≠ backend.ipp.left dVals →
      foldingChallenge backend agg pt superCom proofs dVals preparedInput ≠ .ok 0 ∨
        (backend.debug = true ∧ ¬ AllHold backend agg proofs preparedInput))

/-- An aggregated proof says what it should exactly for the gated inputs. -/
theorem aggregation_sound_iff {pkFetcher : Nat → ProvingKey G₁ G₂}
    (built : AggProvingKey.new backend.ipp.toTIPPCommitment pkFetcher = .ok agg)
    (lawful : Lawful backend.tipa backend.E backend.ipp) (nonempty : proofs ≠ [])
    (size : proofs.length = backend.ipp.supportedSize) (pt : backend.transcript.State)
    (superCom : Com) (pubInputs : List F) :
    (∀ out, backend.aggSubcircuitProofs agg pt superCom proofs pubInputs = .ok out →
        Sound backend agg superCom proofs pubInputs) ↔
      Gated backend agg pt superCom proofs pubInputs := by
  have commits := commits_of_new built
  constructor
  · intro sound preparedInput dVals prepared opened
    have run := aggSubcircuitProofs_iff lawful commits nonempty size opened prepared pt superCom
    have reads : Sound backend agg superCom proofs pubInputs →
        AllHold backend agg proofs preparedInput ∧ superCom = backend.ipp.left dVals := by
      rintro ⟨preparedInput', dVals', prepared', opened', all, same⟩
      cases prepared.symm.trans prepared'
      cases opened.symm.trans opened'
      exact ⟨all, same⟩
    constructor
    · intro same
      by_cases debug : backend.debug = true
      · exact .inl debug
      · obtain ⟨out, ran⟩ := run.mpr ⟨fun on => absurd on debug, .inl same⟩
        exact .inr (reads (sound out ran)).1
    · intro different
      by_contra stands
      rw [not_or, not_not, not_and_not_right] at stands
      obtain ⟨out, ran⟩ := run.mpr ⟨stands.2, .inr stands.1⟩
      exact different (reads (sound out ran)).2
  · intro gated out ran
    obtain ⟨dVals, opened, rest⟩ := bind_eq_ok.mp ran
    obtain ⟨comAb, _, rest⟩ := bind_eq_ok.mp rest
    obtain ⟨comC, _, rest⟩ := bind_eq_ok.mp rest
    obtain ⟨comInput, _, rest⟩ := bind_eq_ok.mp rest
    obtain ⟨preparedInput, prepared, _⟩ := bind_eq_ok.mp rest
    obtain ⟨right, wrong⟩ := gated preparedInput dVals prepared opened
    have run := aggSubcircuitProofs_iff lawful commits nonempty size opened prepared pt superCom
    obtain ⟨checked, passed⟩ := run.mp ⟨out, ran⟩
    by_cases same : superCom = backend.ipp.left dVals
    · refine ⟨preparedInput, dVals, prepared, opened, ?_, same⟩
      rcases right same with debug | all
      · exact checked debug
      · exact all
    · rcases wrong same with nonzero | ⟨debug, fails⟩
      · rcases passed with same' | zero
        · exact absurd same' same
        · exact absurd zero nonzero
      · exact absurd (checked debug) fails

end Checks

instance relationDecidable [DecidableEq GT] [DecidableEq Com] (E : Pairing F G₁ G₂ GT)
    (ipp : IPCommitment F G₁ G₂ Com) (inst : Instance F GT Com) (witness : Witness G₁ G₂) :
    Decidable (Relation E ipp inst witness) :=
  decidable_of_iff (inst.size = ipp.supportedSize ∧ witness.left.length = inst.size ∧
    witness.right.length = inst.size ∧ dot (powers inst.size inst.twist)
      (List.zipWith (fun g h => E.pairing g h) witness.left witness.right) = inst.output ∧
    ipp.left witness.left + ipp.right witness.right = inst.commitment)
    ⟨fun ⟨h₁, h₂, h₃, h₄, h₅⟩ => ⟨h₁, h₂, h₃, h₄, h₅⟩,
      fun ⟨h₁, h₂, h₃, h₄, h₅⟩ => ⟨h₁, h₂, h₃, h₄, h₅⟩⟩

/-- The argument that shows its witness. -/
def openArgument [DecidableEq GT] [DecidableEq Com] (E : Pairing F G₁ G₂ GT)
    (ipp : IPCommitment F G₁ G₂ Com) : TIPA F G₁ G₂ GT Com (Witness G₁ G₂) where
  prove _ witness := .ok witness
  verify inst witness := .ok (decide (Relation E ipp inst witness))

theorem openArgument_lawful [DecidableEq GT] [DecidableEq Com] (E : Pairing F G₁ G₂ GT)
    (ipp : IPCommitment F G₁ G₂ Com) : Lawful (openArgument E ipp) E ipp where
  complete holds := ⟨_, rfl, congrArg Except.ok (decide_eq_true holds)⟩
  sound proved verified := by
    cases proved
    exact of_decide_eq_true (Except.ok.inj verified)

/-- Every draw is one. -/
def onesRng : SeedableRng (ZMod 3) where
  Seed := Unit
  State := Unit
  fromSeed _ := ()
  gen state := ((), state)
  rand state := (1, state)

def scalarBackend (debug : Bool) :
    Backend (ZMod 3) (ZMod 3) (ZMod 3) (ZMod 3) (ZMod 3) (Witness (ZMod 3) (ZMod 3)) where
  debug := debug
  E := CPGroth16.scalarPairing (ZMod 3)
  innerProduct := productOf (CPGroth16.scalarPairing (ZMod 3))
  ipp := scalarIpCommitment
  tipa := openArgument (CPGroth16.scalarPairing (ZMod 3)) scalarIpCommitment
  rng := onesRng
  transcript := ⟨Unit, fun _ => (), fun pt _ _ => pt, fun pt _ => ((), pt), fun _ => [],
    fun _ => []⟩

def onesKey : AggProvingKey (ZMod 3) (ZMod 3) (ZMod 3) :=
  ofParts scalarCommitment [⟨1, 1, 1, 1, 1, 1, 1, 1, 1⟩]

/-- The equation of this proof is `0 = 2` under three inputs that are one. -/
def zeroProof : Proof (ZMod 3) (ZMod 3) := ⟨0, 0, 0, [0]⟩

theorem debug_gates : ¬ ∃ out,
    (scalarBackend true).aggSubcircuitProofs onesKey () 0 [zeroProof] [1, 1, 1] = .ok out := by
  rintro ⟨out, ran⟩
  have built : AggProvingKey.new (scalarBackend true).ipp.toTIPPCommitment (fun _ => unitKey 3) =
    .ok onesKey := rfl
  have lawful : Lawful (scalarBackend true).tipa (scalarBackend true).E (scalarBackend true).ipp :=
    openArgument_lawful _ _
  have gated : Gated (scalarBackend true) onesKey () 0 [zeroProof] [1, 1, 1] := by
    intro preparedInput dVals _ opened
    cases opened
    exact ⟨fun _ => .inl rfl, fun different => absurd rfl different⟩
  have sound := (aggregation_sound_iff built lawful (List.cons_ne_nil _ _) rfl () 0
    [1, 1, 1]).mpr gated out ran
  obtain ⟨preparedInput, dVals, prepared, _, all, _⟩ := sound
  cases prepared
  exact absurd (all 0 zeroProof rfl) (by decide)

/-- Without debug assertions the false proof is aggregated. -/
theorem falseProof_aggregates :
    Lawful (scalarBackend false).tipa (scalarBackend false).E (scalarBackend false).ipp ∧
    AggProvingKey.new (scalarBackend false).ipp.toTIPPCommitment (fun _ => unitKey 3) =
      .ok onesKey ∧
    (∃ out, (scalarBackend false).aggSubcircuitProofs onesKey () 0 [zeroProof] [1, 1, 1] =
      .ok out) ∧
    onesKey.preparedInput [(1 : ZMod 3), 1, 1] = .ok [1] ∧
    checkedEquation (scalarBackend false).E onesKey [1] zeroProof 0 = .ok false := by
  refine ⟨openArgument_lawful _ _, rfl, ⟨_, eq_ok_result ?_⟩, rfl, rfl⟩
  decide +kernel

end AggregationSoundness
