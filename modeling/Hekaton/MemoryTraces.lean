import Mathlib.Algebra.CharP.Basic
import Mathlib.Algebra.Field.Defs
import Mathlib.Data.List.Chain
import Mathlib.Data.List.Induction
import Mathlib.Data.List.Pairwise
import Mathlib.Data.List.Sort

/-!
# Memory traces and their address-ordered copies

A trace is a list of accesses. It is coherent when every read returns the latest
earlier write to its address. Coherence of a trace follows from local checks on a copy
sorted by address and then by time: neighbours agree on reads, and a new address opens
with a write. Addresses that step by nought or one in a field of large characteristic
group equal addresses together.
-/

namespace MemoryTraces

structure Access (A V : Type) where
  addr : A
  val : V
  time : Nat
  read : Bool
  deriving DecidableEq

section Coherence
variable {A V : Type} [DecidableEq A]

/-- The value of the last write to `a`. -/
def lastWrite (a : A) (l : List (Access A V)) : Option V :=
  l.foldl (fun found e => if e.addr = a ∧ e.read = false then some e.val else found) none

/-- Every read returns the latest earlier write to its address. -/
def Coherent (l : List (Access A V)) : Prop :=
  ∀ before e after, l = before ++ e :: after → e.read = true →
    lastWrite e.addr before = some e.val

@[simp] theorem lastWrite_nil (a : A) : lastWrite a ([] : List (Access A V)) = none := rfl

theorem lastWrite_snoc (a : A) (l : List (Access A V)) (e : Access A V) :
    lastWrite a (l ++ [e]) = if e.addr = a ∧ e.read = false then some e.val else lastWrite a l :=
  List.foldl_append ..

theorem lastWrite_write {a : A} {l : List (Access A V)} {e : Access A V} (same : e.addr = a)
    (write : e.read = false) : lastWrite a (l ++ [e]) = some e.val := by
  rw [lastWrite_snoc, if_pos ⟨same, write⟩]

theorem lastWrite_read {a : A} {l : List (Access A V)} {e : Access A V} (read : e.read = true) :
    lastWrite a (l ++ [e]) = lastWrite a l := by
  rw [lastWrite_snoc, if_neg]
  rintro ⟨_, write⟩
  rw [read] at write
  cases write

/-- A remembered value was written to that address. -/
theorem exists_of_lastWrite {a : A} {l : List (Access A V)} {v : V}
    (h : lastWrite a l = some v) : ∃ e ∈ l, e.addr = a := by
  induction l using List.reverseRecOn with
  | nil => cases h
  | append_singleton l e ih =>
    rw [lastWrite_snoc] at h
    split at h
    · rename_i here
      exact ⟨e, List.mem_append_right l List.mem_cons_self, here.1⟩
    · obtain ⟨e', he', same⟩ := ih h
      exact ⟨e', List.mem_append_left _ he', same⟩

/-- Writes that agree leave the value they agree on. -/
theorem lastWrite_of_agree {a : A} {l : List (Access A V)} {v : V}
    (written : ∃ e ∈ l, e.addr = a ∧ e.read = false)
    (agree : ∀ e ∈ l, e.addr = a → e.read = false → e.val = v) : lastWrite a l = some v := by
  induction l using List.reverseRecOn with
  | nil =>
    obtain ⟨e, he, _⟩ := written
    cases he
  | append_singleton l e ih =>
    rw [lastWrite_snoc]
    split
    · rename_i here
      rw [agree e (List.mem_append_right l List.mem_cons_self) here.1 here.2]
    · rename_i other
      refine ih ?_ fun x hx => agree x (List.mem_append_left _ hx)
      obtain ⟨x, hx, here⟩ := written
      rcases List.mem_append.mp hx with hx | hx
      · exact ⟨x, hx, here⟩
      · cases List.mem_singleton.mp hx
        exact absurd here other

theorem coherent_nil : Coherent ([] : List (Access A V)) := by
  intro before e after h
  simp at h

/-- A trace grows by one access: a read has to agree with the writes before it. -/
theorem coherent_snoc {l : List (Access A V)} {e : Access A V} :
    Coherent (l ++ [e]) ↔
      Coherent l ∧ (e.read = true → lastWrite e.addr l = some e.val) := by
  constructor
  · intro h
    refine ⟨fun before x after hl read => ?_, h l e [] rfl⟩
    exact h before x (after ++ [e]) (by rw [hl, List.append_assoc, List.cons_append]) read
  · rintro ⟨earlier, now⟩ before x after hl read
    rcases List.eq_nil_or_concat' after with rfl | ⟨rest, last, rfl⟩
    · obtain ⟨rfl, same⟩ := List.append_inj' hl rfl
      cases same
      exact now read
    · rw [← List.cons_append, ← List.append_assoc] at hl
      obtain ⟨rfl, _⟩ := List.append_inj' hl rfl
      exact earlier before x rest rfl read

/-- Nothing is read before it is written. -/
theorem opens_of_coherent {l : List (Access A V)} (coherent : Coherent l) :
    ∀ e ∈ l.head?, e.read = false := by
  intro e he
  obtain ⟨rest, rfl⟩ := List.head?_eq_some_iff.mp he
  cases read : e.read with
  | false => rfl
  | true => cases coherent [] e rest rfl read

theorem coherent_prefix {l m : List (Access A V)} (h : Coherent (l ++ m)) : Coherent l := by
  intro before e after hl
  exact h before e (after ++ m) (by rw [hl, List.append_assoc, List.cons_append])

/-- The accesses to one address. -/
def accessesTo (a : A) (l : List (Access A V)) : List (Access A V) :=
  l.filter fun e => e.addr = a

theorem accessesTo_snoc (a : A) (l : List (Access A V)) (e : Access A V) :
    accessesTo a (l ++ [e]) = if e.addr = a then accessesTo a l ++ [e] else accessesTo a l := by
  by_cases same : e.addr = a <;> simp [accessesTo, same]

theorem lastWrite_accessesTo (a : A) (l : List (Access A V)) :
    lastWrite a (accessesTo a l) = lastWrite a l := by
  induction l using List.reverseRecOn with
  | nil => rfl
  | append_singleton l e ih =>
    rw [accessesTo_snoc, lastWrite_snoc]
    by_cases same : e.addr = a
    · rw [if_pos same, lastWrite_snoc, ih]
    · rw [if_neg same, if_neg fun h => same h.1, ih]

/-- Coherence is a property of each address on its own. -/
theorem coherent_iff_accessesTo {l : List (Access A V)} :
    Coherent l ↔ ∀ a, Coherent (accessesTo a l) := by
  induction l using List.reverseRecOn with
  | nil => exact iff_of_true coherent_nil fun _ => coherent_nil
  | append_singleton l e ih =>
    rw [coherent_snoc]
    constructor
    · rintro ⟨earlier, now⟩ a
      rw [accessesTo_snoc]
      split
      · rename_i same
        refine coherent_snoc.mpr ⟨ih.mp earlier a, fun read => ?_⟩
        rw [same, lastWrite_accessesTo, ← same]
        exact now read
      · exact ih.mp earlier a
    · intro h
      have here := h e.addr
      rw [accessesTo_snoc, if_pos rfl] at here
      obtain ⟨_, now⟩ := coherent_snoc.mp here
      rw [lastWrite_accessesTo] at now
      refine ⟨ih.mpr fun a => ?_, now⟩
      have grown := h a
      rw [accessesTo_snoc] at grown
      split at grown
      · exact coherent_prefix grown
      · exact grown

section Renaming
variable {B ι : Type} [DecidableEq B] {f : ι → Access A V} {g : ι → Access B V}

/-- The last write to an address is the last write to what the address is renamed to. -/
theorem lastWrite_rename {l : List ι} {a : A} {b : B}
    (same : ∀ x ∈ l, (f x).val = (g x).val ∧ (f x).read = (g x).read)
    (addr : ∀ x ∈ l, (f x).addr = a ↔ (g x).addr = b) :
    lastWrite a (l.map f) = lastWrite b (l.map g) := by
  induction l using List.reverseRecOn with
  | nil => rfl
  | append_singleton l x ih =>
    have here : x ∈ l ++ [x] := List.mem_append_right l List.mem_cons_self
    have earlier := ih (fun y hy => same y (List.mem_append_left _ hy))
      fun y hy => addr y (List.mem_append_left _ hy)
    rw [List.map_append, List.map_append, List.map_singleton, List.map_singleton, lastWrite_snoc,
      lastWrite_snoc, earlier, (same x here).1, (same x here).2]
    simp only [addr x here]

/-- Coherence only depends on which accesses share an address. -/
theorem coherent_rename {l : List ι}
    (same : ∀ x ∈ l, (f x).val = (g x).val ∧ (f x).read = (g x).read)
    (addr : ∀ x ∈ l, ∀ y ∈ l, (f x).addr = (f y).addr ↔ (g x).addr = (g y).addr)
    (coherent : Coherent (l.map f)) : Coherent (l.map g) := by
  induction l using List.reverseRecOn with
  | nil => exact coherent_nil
  | append_singleton l x ih =>
    have here : x ∈ l ++ [x] := List.mem_append_right l List.mem_cons_self
    have inside : ∀ y ∈ l, y ∈ l ++ [x] := fun y hy => List.mem_append_left _ hy
    rw [List.map_append, List.map_singleton] at coherent ⊢
    obtain ⟨earlier, now⟩ := coherent_snoc.mp coherent
    refine coherent_snoc.mpr ⟨?_, fun read => ?_⟩
    · exact ih (fun y hy => same y (inside y hy))
        (fun y hy w hw => addr y (inside y hy) w (inside w hw)) earlier
    · obtain ⟨val, flag⟩ := same x here
      rw [← val, ← now (flag.trans read)]
      exact (lastWrite_rename (fun y hy => same y (inside y hy))
        fun y hy => addr y (inside y hy) x here).symm

end Renaming

/-- Neighbours of an address-ordered trace: a read repeats its predecessor's value, and
only a write opens a new address. -/
def Continues (e next : Access A V) : Prop :=
  (next.addr = e.addr → next.read = true → next.val = e.val) ∧
  (next.addr ≠ e.addr → next.read = false)

/-- A trace that opens with a write and whose neighbours continue one another is coherent. -/
theorem coherent_of_chain {l : List (Access A V)} (chain : l.IsChain Continues)
    (opens : ∀ e ∈ l.head?, e.read = false) :
    Coherent l ∧ ∀ e ∈ l.getLast?, lastWrite e.addr l = some e.val := by
  induction l using List.reverseRecOn with
  | nil => exact ⟨coherent_nil, fun _ h => nomatch h⟩
  | append_singleton l e ih =>
    obtain ⟨earlier, _, link⟩ := List.isChain_append.mp chain
    rcases List.eq_nil_or_concat' l with rfl | ⟨l', last, rfl⟩
    · have write : e.read = false := opens e rfl
      refine ⟨coherent_snoc.mpr ⟨coherent_nil, fun read => ?_⟩, ?_⟩
      · rw [write] at read
        cases read
      · rintro _ ⟨⟩
        exact lastWrite_write rfl write
    · have opens' : ∀ x ∈ (l' ++ [last]).head?, x.read = false := by
        intro x hx
        refine opens x ?_
        rw [List.head?_append_of_ne_nil _ (by simp)]
        exact hx
      obtain ⟨coherent, current⟩ := ih earlier opens'
      have value := current last (by simp)
      obtain ⟨same, fresh⟩ := link last (by simp) e rfl
      refine ⟨coherent_snoc.mpr ⟨coherent, fun read => ?_⟩, ?_⟩
      · by_cases addr : e.addr = last.addr
        · rw [addr, value, same addr read]
        · rw [fresh addr] at read
          cases read
      · intro x hx
        obtain rfl : x = e := by simpa using hx.symm
        cases read : x.read with
        | false => exact lastWrite_write rfl read
        | true =>
          rw [lastWrite_read read]
          by_cases addr : x.addr = last.addr
          · rw [addr, value, same addr read]
          · rw [fresh addr] at read
            cases read

/-- Coherence passes between copies that keep the time order of each address. -/
theorem coherent_of_perm {timed sorted : List (Access A V)} (perm : sorted.Perm timed)
    (grouped : sorted.Pairwise fun e next => e.addr = next.addr → e.time < next.time)
    (ordered : timed.Pairwise fun e next => e.addr = next.addr → e.time ≤ next.time)
    (coherent : Coherent sorted) : Coherent timed := by
  rw [coherent_iff_accessesTo] at coherent ⊢
  intro a
  have within : ∀ {R : Access A V → Access A V → Prop} {l : List (Access A V)},
      (l.Pairwise fun e next => e.addr = next.addr → R e next) → (accessesTo a l).Pairwise R := by
    intro R l pairs
    refine (pairs.filter _).imp_of_mem ?_
    intro e next he hnext related
    have here := of_decide_eq_true (List.mem_filter.mp he).2
    have there := of_decide_eq_true (List.mem_filter.mp hnext).2
    exact related (here.trans there.symm)
  have strict := within grouped
  have same : accessesTo a sorted = accessesTo a timed := by
    refine List.Perm.eq_of_pairwise ?_ (strict.imp Nat.le_of_lt) (within ordered)
      (perm.filter _)
    intro e next he hnext below above
    have inside : next ∈ accessesTo a sorted := (perm.filter _).mem_iff.mpr hnext
    have symmetric : Std.Symm fun x y : Access A V => x.time ≠ y.time := ⟨fun _ _ h => h.symm⟩
    by_contra distinct
    exact (strict.imp Nat.ne_of_lt).forall he inside distinct (Nat.le_antisymm below above)
  rw [← same]
  exact coherent a

/-- In a coherent trace sorted by address, neighbours continue one another. -/
theorem chain_of_coherent [LinearOrder A] {l : List (Access A V)} (coherent : Coherent l)
    (sorted : l.Pairwise fun e next => e.addr ≤ next.addr) : l.IsChain Continues := by
  induction l using List.reverseRecOn with
  | nil => exact .nil
  | append_singleton l e ih =>
    obtain ⟨earlier, now⟩ := coherent_snoc.mp coherent
    obtain ⟨sorted', _, below⟩ := List.pairwise_append.mp sorted
    refine List.isChain_append.mpr ⟨ih earlier sorted', .singleton e, ?_⟩
    rintro last hlast _ ⟨⟩
    obtain ⟨l', rfl⟩ : ∃ l', l = l' ++ [last] := by
      rcases List.eq_nil_or_concat' l with rfl | ⟨l', x, rfl⟩
      · cases hlast
      · rw [List.getLast?_append_of_ne_nil _ (by simp)] at hlast
        cases hlast
        exact ⟨l', rfl⟩
    constructor
    · intro same read
      have found := now read
      cases write : last.read with
      | false =>
        rw [lastWrite_write same.symm write] at found
        exact (Option.some.inj found).symm
      | true =>
        rw [lastWrite_read write, same, (coherent_snoc.mp earlier).2 write] at found
        exact (Option.some.inj found).symm
    · intro fresh
      by_contra read
      have found := now (by simpa using read)
      obtain ⟨x, hx, same⟩ := exists_of_lastWrite found
      have upper : last.addr ≤ e.addr := below last (by simp) e List.mem_cons_self
      have lower : x.addr ≤ last.addr := by
        rcases List.mem_append.mp hx with hx | hx
        · exact (List.pairwise_append.mp sorted').2.2 x hx last List.mem_cons_self
        · rw [List.mem_singleton.mp hx]
      exact fresh (le_antisymm (same ▸ lower) upper)

end Coherence

section Chunks
variable {α σ : Type*} {R : α → α → Prop} {carried : σ → α} {chunk : σ → List α}

/-- Each chunk of a trace carries in the last entry before it. -/
def Linked (carried : σ → α) (chunk : σ → List α) (l : List σ) : Prop :=
  l.IsChain fun s next => carried next = (carried s :: chunk s).getLast (List.cons_ne_nil _ _)

/-- Chunks that are chains from the entry they carry in are one chain together. -/
theorem isChain_of_linked {l : List σ} (linked : Linked carried chunk l)
    (each : ∀ s ∈ l, (carried s :: chunk s).IsChain R) :
    ∀ s ∈ l.head?, (carried s :: l.flatMap chunk).IsChain R := by
  induction l with
  | nil => exact fun s h => nomatch h
  | cons s l ih =>
    rintro _ ⟨⟩
    obtain ⟨handed, rest⟩ := List.isChain_cons.mp linked
    have later := ih rest fun t ht => each t (List.mem_cons_of_mem s ht)
    have here := each s List.mem_cons_self
    rw [List.flatMap_cons, ← List.cons_append]
    refine List.isChain_append.mpr ⟨here, ?_, ?_⟩
    · cases l with
      | nil => exact .nil
      | cons next l => exact (List.isChain_cons.mp (later next rfl)).2
    · intro x hx y hy
      cases l with
      | nil => cases hy
      | cons next l =>
        rw [List.getLast?_eq_getLast_of_ne_nil (List.cons_ne_nil _ _)] at hx
        obtain rfl := Option.some.inj hx
        rw [← handed next rfl]
        exact (List.isChain_cons.mp (later next rfl)).1 y hy

/-- What a chunk carries in is the last of all entries before it. -/
theorem carried_of_linked {l : List σ} {s : σ} (linked : Linked carried chunk (l ++ [s])) :
    ∀ x ∈ (l.flatMap chunk).getLast?, x = carried s := by
  induction l using List.reverseRecOn generalizing s with
  | nil => exact fun x h => nomatch h
  | append_singleton l t ih =>
    intro x hx
    obtain ⟨before, _, handed⟩ := List.isChain_append.mp linked
    rw [handed t (by simp) s rfl]
    rw [List.flatMap_append, List.flatMap_singleton, List.getLast?_append] at hx
    by_cases empty : chunk t = []
    · simp only [empty, List.getLast_singleton]
      rw [empty] at hx
      exact ih before x hx
    · rw [List.getLast?_eq_getLast_of_ne_nil empty] at hx
      rw [List.getLast_cons empty]
      exact (Option.some.inj hx).symm

/-- Chunks that are chains are one chain together when every entry that opens a chunk,
the very first aside, continues the entry carried in. -/
theorem isChain_of_boundaries {l : List σ} (linked : Linked carried chunk l)
    (each : ∀ s ∈ l, (chunk s).IsChain R)
    (boundaries : ∀ before s after, l = before ++ s :: after → before.flatMap chunk ≠ [] →
      ∀ e ∈ (chunk s).head?, R (carried s) e) : (l.flatMap chunk).IsChain R := by
  induction l using List.reverseRecOn with
  | nil => exact .nil
  | append_singleton l s ih =>
    rw [List.flatMap_append, List.flatMap_singleton]
    refine List.isChain_append.mpr ⟨ih (List.isChain_append.mp linked).1 ?_ ?_, ?_, ?_⟩
    · exact fun t ht => each t (List.mem_append_left _ ht)
    · intro before t after hl
      refine boundaries before t (after ++ [s]) ?_
      rw [hl, List.append_assoc, List.cons_append]
    · exact each s (List.mem_append_right l List.mem_cons_self)
    · intro x hx y hy
      have nonempty : l.flatMap chunk ≠ [] := by
        intro empty
        rw [empty] at hx
        cases hx
      rw [carried_of_linked linked x hx]
      exact boundaries l s [] rfl nonempty y hy

/-- A stretch of a chain is a chain from the entry before it. -/
theorem isChain_window {e : α} {l₁ l₂ l₃ : List α} (chain : (e :: (l₁ ++ (l₂ ++ l₃))).IsChain R) :
    ((e :: l₁).getLast (List.cons_ne_nil _ _) :: l₂).IsChain R := by
  have split : e :: (l₁ ++ (l₂ ++ l₃)) = (e :: l₁).dropLast ++
      (((e :: l₁).getLast (List.cons_ne_nil _ _) :: l₂) ++ l₃) := by
    calc e :: (l₁ ++ (l₂ ++ l₃))
        = (e :: l₁) ++ (l₂ ++ l₃) := rfl
      _ = (e :: l₁).dropLast ++ [(e :: l₁).getLast (List.cons_ne_nil _ _)] ++ (l₂ ++ l₃) := by
          rw [List.dropLast_append_getLast]
      _ = _ := by rw [List.append_assoc, List.singleton_append, List.cons_append]
  rw [split] at chain
  exact (List.isChain_append.mp (List.isChain_append.mp chain).2.1).1

end Chunks

/-- Sorted addresses that leave no gap above nought step by nought or one. -/
theorem isChain_of_dense {l : List Nat} (sorted : l.Pairwise (· ≤ ·))
    (dense : ∀ a ∈ l, ∀ b, 0 < b → b < a → b ∈ l) :
    (0 :: l).IsChain fun x y => y = x ∨ y = x + 1 := by
  have ordered : (0 :: l).Pairwise (· ≤ ·) :=
    List.pairwise_cons.mpr ⟨fun a _ => Nat.zero_le a, sorted⟩
  rw [List.pairwise_iff_getElem] at ordered
  refine List.isChain_iff_getElem.mpr fun i hi => ?_
  have upper : (0 :: l)[i] ≤ (0 :: l)[i + 1] := ordered i (i + 1) (by omega) hi (by omega)
  by_contra gap
  have inside : (0 :: l)[i + 1] ∈ l := List.getElem_mem _
  have missing : (0 :: l)[i] + 1 ∈ 0 :: l :=
    List.mem_cons_of_mem 0 (dense _ inside _ (Nat.succ_pos _) (by omega))
  obtain ⟨j, hj, here⟩ := List.getElem_of_mem missing
  rcases Nat.lt_trichotomy j (i + 1) with before | same | after
  · rcases Nat.eq_or_lt_of_le (Nat.le_of_lt_succ before) with rfl | below
    · omega
    · have := ordered j i hj (by omega) below
      omega
  · subst same
    omega
  · have := ordered (i + 1) j hi hj after
    omega

section Grouping
variable {F ι : Type} [Field F]

/-- Number the addresses of a trace that steps by nought or one. -/
theorem exists_ranks {addr : ι → F} {R : ι → ι → Prop} {a : F} {e : ι} {l : List ι} {k : Nat}
    (start : addr e = a + k)
    (chain : (e :: l).IsChain fun x y => (addr y = addr x ∨ addr y = addr x + 1) ∧ R x y) :
    ∃ r : List (Nat × ι), r.map Prod.snd = l ∧
      ((k, e) :: r).IsChain (fun x y => (y.1 = x.1 ∧ addr y.2 = addr x.2 ∨ y.1 = x.1 + 1) ∧
        R x.2 y.2) ∧
      ∀ x ∈ r, addr x.2 = a + x.1 ∧ x.1 ≤ k + l.length := by
  induction l generalizing e k with
  | nil => exact ⟨[], rfl, .singleton _, fun _ h => nomatch h⟩
  | cons next l ih =>
    obtain ⟨⟨step, link⟩, rest⟩ := List.isChain_cons_cons.mp chain
    obtain ⟨k', rank, near, far⟩ : ∃ k', addr next = a + (k' : Nat) ∧
        (k' = k ∧ addr next = addr e ∨ k' = k + 1) ∧ k' ≤ k + 1 := by
      rcases step with same | up
      · exact ⟨k, same.trans start, Or.inl ⟨rfl, same⟩, Nat.le_succ k⟩
      · refine ⟨k + 1, ?_, Or.inr rfl, le_rfl⟩
        rw [up, start, Nat.cast_succ, add_assoc]
    obtain ⟨r, hr, chain', ranks⟩ := ih rank rest
    refine ⟨(k', next) :: r, congrArg (next :: ·) hr, ?_, ?_⟩
    · exact List.isChain_cons_cons.mpr ⟨⟨near, link⟩, chain'⟩
    · intro x hx
      rw [List.length_cons]
      rcases List.mem_cons.mp hx with rfl | hx
      · exact ⟨rank, by omega⟩
      · obtain ⟨hrank, bound⟩ := ranks x hx
        exact ⟨hrank, by omega⟩

/-- Whatever relates neighbours at one address, and is transitive, relates any two
entries at one address, as long as the trace is no longer than the characteristic. -/
theorem pairwise_of_chain {p : Nat} [CharP F p] {addr : ι → F} {S : ι → ι → Prop} [IsTrans ι S]
    {l : List ι} (small : l.length ≤ p)
    (chain : l.IsChain fun x y => (addr y = addr x ∨ addr y = addr x + 1) ∧
      (addr y = addr x → S x y)) :
    l.Pairwise fun x y => addr x = addr y → S x y := by
  obtain _ | ⟨e, l⟩ := l
  · exact .nil
  obtain ⟨r, hr, chain', ranks⟩ := exists_ranks (k := 0) (by rw [Nat.cast_zero, add_zero]) chain
  let Q : Nat × ι → Nat × ι → Prop := fun x y => x.1 < y.1 ∨ x.1 = y.1 ∧ S x.2 y.2
  have transitive : IsTrans (Nat × ι) Q := by
    constructor
    rintro x y w (hxy | ⟨hxy, sxy⟩) (hyw | ⟨hyw, syw⟩)
    · exact Or.inl (hxy.trans hyw)
    · exact Or.inl (hyw ▸ hxy)
    · exact Or.inl (hxy ▸ hyw)
    · exact Or.inr ⟨hxy.trans hyw, IsTrans.trans _ _ _ sxy syw⟩
  have pairwise : ((0, e) :: r).Pairwise Q := by
    refine List.isChain_iff_pairwise.mp (chain'.imp ?_)
    rintro x y ⟨⟨same, sameAddr⟩ | up, link⟩
    · exact Or.inr ⟨same.symm, link sameAddr⟩
    · exact Or.inl (by omega)
  have ranked : ∀ x ∈ (0, e) :: r, addr x.2 = addr e + x.1 ∧ x.1 < p := by
    intro x hx
    rw [List.length_cons] at small
    rcases List.mem_cons.mp hx with rfl | hx
    · exact ⟨by rw [Nat.cast_zero, add_zero], by omega⟩
    · obtain ⟨hrank, bound⟩ := ranks x hx
      exact ⟨hrank, by omega⟩
  rw [show e :: l = ((0, e) :: r).map Prod.snd from congrArg (e :: ·) hr.symm, List.pairwise_map]
  refine pairwise.imp_of_mem ?_
  intro x y hx hy related same
  obtain ⟨hx, lx⟩ := ranked x hx
  obtain ⟨hy, ly⟩ := ranked y hy
  rw [hx, hy, add_right_inj] at same
  rcases related with below | ⟨_, link⟩
  · exact absurd (CharP.natCast_injOn_Iio F p lx ly same) (Nat.ne_of_lt below)
  · exact link

end Grouping
end MemoryTraces
