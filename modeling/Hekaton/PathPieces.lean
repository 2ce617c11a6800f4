import Hekaton.VkdSubcircuits
import Mathlib

/-!
# Splitting a path

Each round of a split halves every piece at one length, half of the length before; a piece is
never shorter than that. The pieces put together are the list, and the root of a path is
reached piece by piece, each from the node that the piece before it reached.
-/

namespace PathPieces

open Outcomes VkdHash SparseTree KeyDirectory VkdGadgets VkdSubcircuits

section Pieces
variable {α : Type}

/-- A round cuts pieces that are long enough, each in two. -/
theorem splitRound_pieces {length : Nat} {vs : List (List α)}
    (enough : ∀ v ∈ vs, length ≤ v.length) :
    ∃ res, splitRound length vs = .ok res ∧ res.length = 2 * vs.length ∧
      res.flatten = vs.flatten ∧
      ∀ part ∈ res, part.length = length ∨ ∃ v ∈ vs, part.length = v.length - length := by
  induction vs with
  | nil => exact ⟨[], rfl, rfl, rfl, fun part listed => absurd listed List.not_mem_nil⟩
  | cons v vs ih =>
    obtain ⟨long, others⟩ := List.forall_mem_cons.mp enough
    obtain ⟨rest, run, count, whole, sizes⟩ := ih others
    refine ⟨v.take length :: v.drop length :: rest, ?_, ?_, ?_, ?_⟩
    · rw [splitRound, splitAt, if_pos long, ok_bind, run, ok_bind]
    · simp only [List.length_cons, count]
      omega
    · simp only [List.flatten_cons, whole, ← List.append_assoc, List.take_append_drop]
    · intro part listed
      rcases List.mem_cons.mp listed with rfl | listed
      · left
        rw [List.length_take, Nat.min_eq_left long]
      · rcases List.mem_cons.mp listed with rfl | listed
        · exact .inr ⟨v, List.mem_cons_self, List.length_drop⟩
        · rcases sizes part listed with same | ⟨v', before, same⟩
          · exact .inl same
          · exact .inr ⟨v', List.mem_cons_of_mem _ before, same⟩

/-- The loop doubles the pieces as often as the factor is halved. -/
theorem splitLoop_pieces {j fuel length : Nat} {vs : List (List α)} (fits : j ≤ fuel)
    (enough : ∀ v ∈ vs, length ≤ v.length) :
    ∃ res, splitLoop fuel (2 ^ j) length vs = .ok res ∧ res.length = 2 ^ j * vs.length ∧
      res.flatten = vs.flatten ∧
      (2 ^ j ∣ length → (∀ v ∈ vs, v.length = length) →
        ∀ part ∈ res, part.length = length / 2 ^ j) := by
  induction j generalizing fuel length vs with
  | zero =>
    refine ⟨vs, ?_, (Nat.one_mul _).symm, rfl, fun _ same part listed => ?_⟩
    · cases fuel with
      | zero => rfl
      | succ fuel => rw [splitLoop, pow_zero, if_pos rfl]
    · rw [same part listed, pow_zero, Nat.div_one]
  | succ j ih =>
    obtain _ | fuel := fuel
    · exact absurd fits (Nat.not_succ_le_zero j)
    · have more : 2 ^ (j + 1) ≠ 1 := (Nat.one_lt_two_pow (Nat.succ_ne_zero j)).ne'
      have factor : 2 ^ (j + 1) / 2 = 2 ^ j := by
        rw [pow_succ', Nat.mul_div_cancel_left _ Nat.two_pos]
      have half : ∀ v ∈ vs, length / 2 ≤ v.length := fun v listed =>
        (Nat.div_le_self length 2).trans (enough v listed)
      obtain ⟨cut, round, twice, joined, sizes⟩ := splitRound_pieces half
      have long : ∀ part ∈ cut, length / 2 ≤ part.length := by
        intro part listed
        rcases sizes part listed with same | ⟨v, before, same⟩
        · exact same.ge
        · have := enough v before
          omega
      obtain ⟨res, run, count, whole, equal⟩ := ih (Nat.le_of_succ_le_succ fits) long
      refine ⟨res, ?_, ?_, whole.trans joined, ?_⟩
      · rw [splitLoop, if_neg more, round, ok_bind, factor, run]
      · rw [count, twice, pow_succ, Nat.mul_assoc]
      · intro divides same part listed
        have even : length = 2 * (length / 2) := by
          have two : 2 ∣ length := (Dvd.intro_left _ (pow_succ 2 j).symm).trans divides
          omega
        have rest : 2 ^ j ∣ length / 2 := by
          rw [pow_succ', even] at divides
          exact Nat.dvd_of_mul_dvd_mul_left Nat.two_pos divides
        have halves : ∀ part ∈ cut, part.length = length / 2 := by
          intro part listed
          rcases sizes part listed with same' | ⟨v, before, same'⟩
          · exact same'
          · rw [same', same v before]
            omega
        rw [equal rest halves part listed, Nat.div_div_eq_div_mul, pow_succ']

/-- The factors that `split` takes. -/
theorem factor_eq_pow {f : Nat} (factor : f ∈ [2, 4, 8, 16]) : ∃ j, f = 2 ^ j := by
  fin_cases factor
  exacts [⟨1, rfl⟩, ⟨2, rfl⟩, ⟨3, rfl⟩, ⟨4, rfl⟩]

/-- A list is split into as many pieces as asked for, of one size where the factor divides. -/
theorem split_eq_ok {f : Nat} (factor : f ∈ [2, 4, 8, 16]) (v : List α) :
    ∃ pieces, split v f = .ok (.ok pieces) ∧ pieces.length = f ∧ pieces.flatten = v ∧
      (f ∣ v.length → ∀ part ∈ pieces, part.length = v.length / f) := by
  obtain ⟨j, rfl⟩ := factor_eq_pow factor
  have enough : ∀ w ∈ [v], v.length ≤ w.length := by simp
  obtain ⟨pieces, run, count, whole, equal⟩ :=
    splitLoop_pieces (Nat.lt_two_pow_self (n := j)).le enough
  refine ⟨pieces, ?_, ?_, ?_, ?_⟩
  · rw [split, if_pos (by simpa using factor), run, ok_bind]
  · simpa using count
  · simpa using whole
  · intro divides
    exact equal divides (by simp)

end Pieces

section Roots
variable {h : Hashing}

/-- The roots of the pieces one after another, each from the one before it. -/
def computeRoots (h : Hashing) (paths : List MerkleTreePath) (indices : List (List Bool))
    (node : InnerHash) : Outcome InnerHash :=
  (paths.zip indices).foldlM
    (fun node piece => piece.1.computeRoot h node.toList piece.2 .internalNode) node

theorem computeRoot_internal (path : MerkleTreePath) (index : List Bool) (node : InnerHash) :
    path.computeRoot h node.toList index .internalNode =
      MerkleTreePath.climbFrom h index 0 node path.path := by
  have digest : nodeDigest h node.toList .internalNode = .ok node := dif_pos node.toList_length
  rw [MerkleTreePath.computeRoot, digest, ok_bind]

/-- A level looks at its own bit. -/
theorem climbFrom_cons (b : Bool) (index : List Bool) (i : Nat) (siblings : List InnerHash)
    (current : InnerHash) : MerkleTreePath.climbFrom h (b :: index) (i + 1) current siblings =
      MerkleTreePath.climbFrom h index i current siblings := by
  induction siblings generalizing i current with
  | nil => rfl
  | cons sibling siblings ih =>
    rw [MerkleTreePath.climbFrom, MerkleTreePath.climbFrom, List.getElem?_cons_succ]
    exact congrArg _ (funext fun left => ih (i + 1) _)

/-- A climb goes on where the climb of its lower levels ends. -/
theorem climbFrom_append {low : List Bool} {lower : List InnerHash}
    (size : low.length = lower.length) (high : List Bool) (upper : List InnerHash)
    (current : InnerHash) :
    MerkleTreePath.climbFrom h (low ++ high) 0 current (lower ++ upper) = (do
      let middle ← MerkleTreePath.climbFrom h low 0 current lower
      MerkleTreePath.climbFrom h high 0 middle upper) := by
  induction lower generalizing low current with
  | nil =>
    obtain rfl := List.eq_nil_of_length_eq_zero size
    rfl
  | cons sibling lower ih =>
    obtain _ | ⟨b, low⟩ := low
    · cases size
    · simp only [List.cons_append, MerkleTreePath.climbFrom, List.getElem?_cons_zero, expect_some,
        ok_bind, climbFrom_cons]
      exact ih (Nat.succ.inj size) _

/-- Pieces that agree in length climb as the lists put together. -/
theorem computeRoots_flatten {paths : List (List InnerHash)} {indices : List (List Bool)}
    (sizes : List.Forall₂ (fun path index => index.length = path.length) paths indices)
    (node : InnerHash) : computeRoots h (paths.map .mk) indices node =
      MerkleTreePath.climbFrom h indices.flatten 0 node paths.flatten := by
  induction sizes generalizing node with
  | nil => rfl
  | @cons path index paths indices size _ ih =>
    rw [List.flatten_cons, List.flatten_cons, climbFrom_append size, computeRoots, List.map_cons,
      List.zip_cons_cons, List.foldlM_cons, computeRoot_internal]
    exact congrArg _ (funext ih)

/-- A split keeps the list, and the pieces of a path and its index lead to the path's root. -/
theorem split_keeps {f : Nat} (factor : f ∈ [2, 4, 8, 16]) :
    (∀ {α : Type} (v : List α), ∃ pieces, split v f = .ok (.ok pieces) ∧ pieces.length = f ∧
      pieces.flatten = v ∧
      (f ∣ v.length → ∀ part ∈ pieces, part.length = v.length / f)) ∧
    ∀ (h : Hashing) (path : MerkleTreePath) (index : List Bool),
      f ∣ path.path.length → index.length = path.path.length →
      ∃ paths indices, splitPath path f = .ok paths ∧ split index f = .ok (.ok indices) ∧
        ∀ node : InnerHash, computeRoots h paths indices node =
          path.computeRoot h node.toList index .internalNode := by
  refine ⟨fun v => split_eq_ok factor v, fun h path index divides width => ?_⟩
  obtain ⟨pieces, run, count, whole, sizes⟩ := split_eq_ok factor path.path
  obtain ⟨indices, run', count', whole', sizes'⟩ := split_eq_ok factor index
  refine ⟨pieces.map .mk, indices, ?_, run', fun node => ?_⟩
  · rw [splitPath, run, ok_bind]
    rfl
  · have same : List.Forall₂ (fun path index => index.length = path.length) pieces indices := by
      rw [List.forall₂_iff_get]
      refine ⟨count.trans count'.symm, fun i inside inside' => ?_⟩
      rw [sizes' (width ▸ divides) _ (List.get_mem _ _), sizes divides _ (List.get_mem _ _), width]
    rw [computeRoots_flatten same, whole, whole', computeRoot_internal]

end Roots

/-- Eight siblings, all different. -/
def eightSiblings : MerkleTreePath :=
  ⟨(List.range 8).map fun i => List.Vector.replicate 27 (.ofNat i)⟩

def eightBits : List Bool := [true, false, false, true, true, true, false, true]

/-- Eight levels in four pieces. -/
theorem eightLevels_split :
    (∃ pieces, split (List.range 9) 4 = .ok (.ok pieces) ∧ pieces.length = 4 ∧
      pieces.flatten = List.range 9) ∧
    ∃ paths indices, splitPath eightSiblings 4 = .ok paths ∧ split eightBits 4 = .ok (.ok indices) ∧
      ∀ node : InnerHash, computeRoots (hashing linearPoseidon) paths indices node =
        eightSiblings.computeRoot (hashing linearPoseidon) node.toList eightBits .internalNode := by
  obtain ⟨pieces, run, count, whole, _⟩ := (split_keeps (f := 4) (by decide)).1 (List.range 9)
  exact ⟨⟨pieces, run, count, whole⟩,
    (split_keeps (f := 4) (by decide)).2 _ eightSiblings eightBits (by decide) (by decide)⟩

end PathPieces
