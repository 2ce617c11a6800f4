import Mathlib.Data.List.Sort

/-!
# Stable sorting

Insertion sort keeps elements whose keys are equal in their order, so what is left after
selecting one key is the same before and after sorting. Sorted by keys that are all
different, a list does not depend on the order it came in.
-/

namespace StableSorting

variable {α : Type*} {r : α → α → Prop} [DecidableRel r]

/-- Elements that are all related to each other keep their order. -/
theorem filter_insertionSort {p : α → Bool} (tied : ∀ a b, p a = true → p b = true → r a b)
    (l : List α) : (l.insertionSort r).filter p = l.filter p := by
  have related : (l.filter p).Pairwise r := by
    apply List.pairwise_of_forall_mem_list
    intro a ha b hb
    exact tied a b (List.mem_filter.mp ha).2 (List.mem_filter.mp hb).2
  have inside : (l.filter p).Sublist (l.insertionSort r) :=
    List.sublist_insertionSort related List.filter_sublist
  have kept := inside.filter p
  rw [List.filter_filter] at kept
  simp only [Bool.and_self] at kept
  have sizes : (l.filter p).length = ((l.insertionSort r).filter p).length :=
    ((List.perm_insertionSort r l).filter p).length_eq.symm
  exact (kept.eq_of_length sizes).symm

variable [Std.Total r] [IsTrans α r]

/-- Different elements of different keys: the sorted list does not depend on the order. -/
theorem insertionSort_eq_of_perm {l l' : List α} (perm : l.Perm l')
    (distinct : ∀ a ∈ l, ∀ b ∈ l, r a b → r b a → a = b) :
    l.insertionSort r = l'.insertionSort r := by
  have arranged : (l.insertionSort r).Perm (l'.insertionSort r) :=
    (List.perm_insertionSort r l).trans (perm.trans (List.perm_insertionSort r l').symm)
  apply arranged.eq_of_pairwise
  · intro a b ha hb first second
    have inside : b ∈ l := perm.mem_iff.mpr ((List.mem_insertionSort r).mp hb)
    exact distinct a ((List.mem_insertionSort r).mp ha) b inside first second
  · exact List.pairwise_insertionSort r l
  · exact List.pairwise_insertionSort r l'

end StableSorting
