import Hekaton.SparseTree

/-!
# Histories of the sparse tree

Any sequence of inserted leaves makes a sparse tree that stands for the complete tree in
which each leaf is the last value inserted there, or the default value. Only the order of the
inserts at one index matters, and every path that is looked up climbs to the root.
-/

namespace SparseTreeHistory

open Outcomes MerkleTrees SparseMerkleTrees SparseTree Function

variable {h : Hashing} {depth : Nat}

/-- Insert leaves one after the other into a fresh tree. -/
def insertAll (h : Hashing) (depth : Nat) (inserts : List (Nat × List UInt8)) :
    Outcome SparseMerkleTree :=
  inserts.foldlM (fun t op => t.insert h ⟨op.1, depth⟩ op.2 .leaf) (.new h depth)

/-- The inserts at one index, in their order. -/
def insertsAt (inserts : List (Nat × List UInt8)) (j : Nat) : List (Nat × List UInt8) :=
  inserts.filter fun op => op.1 = j

/-- The last value inserted at an index, or the default. -/
def lastValue (inserts : List (Nat × List UInt8)) (j : Nat) : List UInt8 :=
  ((insertsAt inserts j).getLast?.map Prod.snd).getD initialLeafValue

theorem lastValue_concat (inserts : List (Nat × List UInt8)) (op : Nat × List UInt8) :
    lastValue (inserts ++ [op]) = update (lastValue inserts) op.1 op.2 := by
  funext j
  rw [lastValue, insertsAt, List.filter_append, List.filter_singleton]
  by_cases here : op.1 = j
  · subst here
    simp
  · rw [update_of_ne (Ne.symm here)]
    simp [here, lastValue, insertsAt]

/-- The tree after all inserts: its leaves are the last values. -/
theorem insertAll_represents {inserts : List (Nat × List UInt8)}
    (bound : ∀ op ∈ inserts, op.1 < 2 ^ depth) :
    ∃ t, insertAll h depth inserts = .ok t ∧ Represents h depth t ∧
      leafDigest h depth t = fun j => h.leaf (lastValue inserts j) := by
  induction inserts using List.reverseRecOn with
  | nil => exact ⟨.new h depth, rfl, represents_new h depth, rfl⟩
  | append_singleton inserts op ih =>
    obtain ⟨t, ran, represents, digests⟩ :=
      ih fun other member => bound other (List.mem_append_left _ member)
    have inside : op.1 < 2 ^ depth := bound op (List.mem_append_right _ List.mem_cons_self)
    obtain ⟨t', inserted, stored, represents'⟩ := insert_represents represents inside op.2
    refine ⟨t', ?_, represents', ?_⟩
    · rw [insertAll, List.foldlM_append]
      exact bind_eq_ok.mpr ⟨t, ran, bind_eq_ok.mpr ⟨t', inserted, rfl⟩⟩
    · rw [leafDigest_update stored rfl, digests, lastValue_concat]
      funext j
      by_cases here : j = op.1
      · rw [here, update_self, update_self]
      · rw [update_of_ne here, update_of_ne here]

/-- A history makes the complete tree of its last values: its root, whatever the order of the
inserts at different indices, and the path of every leaf. -/
theorem insertAll_complete {inserts : List (Nat × List UInt8)}
    (bound : ∀ op ∈ inserts, op.1 < 2 ^ depth) :
    ∃ t, insertAll h depth inserts = .ok t ∧
      t.root = root h.inner depth (fun j => h.leaf (lastValue inserts j)) ∧
      (∀ inserts', (∀ j, insertsAt inserts' j = insertsAt inserts j) →
        ∃ t', insertAll h depth inserts' = .ok t' ∧ t'.root = t.root) ∧
      ∀ j < 2 ^ depth, ∃ path, t.lookupPath ⟨j, depth⟩ = .ok path ∧
        path.computeRoot h (lastValue inserts j) (MerkleIndex.toBitVector ⟨j, depth⟩) .leaf =
          .ok t.root := by
  obtain ⟨t, ran, represents, digests⟩ := insertAll_represents (h := h) bound
  have top : t.root = root h.inner depth (fun j => h.leaf (lastValue inserts j)) := by
    rw [represents.root, digests, root_eq_node]
  refine ⟨t, ran, top, fun inserts' same => ?_, fun j inside => ?_⟩
  · have bound' : ∀ op ∈ inserts', op.1 < 2 ^ depth := by
      intro op member
      have here : op ∈ insertsAt inserts' op.1 := List.mem_filter.mpr ⟨member, decide_eq_true rfl⟩
      rw [same] at here
      exact bound op (List.mem_filter.mp here).1
    obtain ⟨t', ran', represents', digests'⟩ := insertAll_represents (h := h) bound'
    have values : lastValue inserts' = lastValue inserts := by
      funext j
      rw [lastValue, lastValue, same]
    exact ⟨t', ran', by rw [top, represents'.root, digests', values, root_eq_node]⟩
  · refine ⟨_, lookupPath_eq represents inside, ?_⟩
    rw [computeRoot_eq rfl, if_pos (le_of_eq (length_siblings ..)), levels, top, digests]
    exact congrArg Except.ok (climb_siblings _ inside)

/-- The first byte of a leaf, and the left child of two. -/
def leftmost : Hashing := ⟨fun value => .replicate 27 (value.headD 0), fun left _ => left⟩

theorem leftmost_complete : ∃ t, insertAll leftmost 1 [(0, [7]), (1, [5]), (0, [9])] = .ok t ∧
    t.root = .replicate 27 9 := by
  have bound : ∀ op ∈ [(0, [(7 : UInt8)]), (1, [5]), (0, [9])], op.1 < 2 ^ 1 := by decide
  obtain ⟨t, ran, top, _⟩ := insertAll_complete (h := leftmost) bound
  exact ⟨t, ran, top⟩

end SparseTreeHistory
