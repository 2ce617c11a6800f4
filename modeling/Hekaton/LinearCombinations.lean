import Mathlib.Algebra.Module.LinearMap.Defs
import Mathlib.Algebra.Module.LinearMap.End
import Mathlib.Algebra.BigOperators.Group.List.Basic
import Mathlib.Algebra.Algebra.Basic
import Mathlib.Data.List.Basic
import Mathlib.LinearAlgebra.Span.Basic
import Mathlib.Tactic.Abel

/-!
# Linear combinations of lists

Scalars against elements of a module, position by position, over the shorter list.
Linear maps go through, and the combinations over consecutive slices of both lists add
up to the combination over the slice that spans them. Nothing here names a circuit.
-/

namespace LinearCombinations

variable {F G H : Type*} [CommRing F] [AddCommGroup G] [Module F G] [AddCommGroup H] [Module F H]

/-- The sum of `s • g` over both lists, up to the shorter one. -/
def dot (scalars : List F) (elements : List G) : G :=
  (List.zipWith (· • ·) scalars elements).sum

@[simp] theorem dot_nil_left (elements : List G) : dot ([] : List F) elements = 0 := rfl

@[simp] theorem dot_nil_right (scalars : List F) : dot scalars ([] : List G) = 0 := by
  simp [dot]

@[simp] theorem dot_cons (s : F) (scalars : List F) (g : G) (elements : List G) :
    dot (s :: scalars) (g :: elements) = s • g + dot scalars elements := by
  simp [dot]

theorem dot_append {scalars scalars' : List F} {elements elements' : List G}
    (size : scalars.length = elements.length) :
    dot (scalars ++ scalars') (elements ++ elements') =
      dot scalars elements + dot scalars' elements' := by
  rw [dot, List.zipWith_append size, List.sum_append]
  rfl

/-- A linear map may be applied to the elements instead. -/
theorem map_dot (f : G →ₗ[F] H) (scalars : List F) (elements : List G) :
    f (dot scalars elements) = dot scalars (elements.map f) := by
  induction scalars generalizing elements with
  | nil => exact map_zero f
  | cons s scalars ih =>
    cases elements with
    | nil => exact map_zero f
    | cons g elements => rw [dot_cons, map_add, map_smul, ih, List.map_cons, dot_cons]

/-- Against multiples of one element. -/
theorem dot_map_smul (scalars values : List F) (g : G) :
    dot scalars (values.map (· • g)) = dot scalars values • g :=
  (map_dot (LinearMap.toSpanSingleton F G g) scalars values).symm

theorem dot_map_mul (scalars values : List F) (c : F) :
    dot scalars (values.map (c * ·)) = c * dot scalars values :=
  (map_dot (LinearMap.mulLeft F c) scalars values).symm

theorem dot_zipWith_add (scalars : List F) {left right : List G}
    (size : left.length = right.length) :
    dot scalars (List.zipWith (· + ·) left right) = dot scalars left + dot scalars right := by
  induction scalars generalizing left right with
  | nil => simp
  | cons s scalars ih =>
    cases left with
    | nil => cases right with
      | nil => simp
      | cons => cases size
    | cons l left => cases right with
      | nil => cases size
      | cons r right =>
        rw [List.zipWith_cons_cons, dot_cons, dot_cons, dot_cons, ih (Nat.succ.inj size), smul_add]
        abel

/-- A running sum of multiples. -/
theorem foldl_dot (scalars : List F) (elements : List G) (start : G) :
    (scalars.zip elements).foldl (fun sum p => sum + p.1 • p.2) start =
      start + dot scalars elements := by
  induction scalars generalizing elements start with
  | nil => simp
  | cons s scalars ih =>
    cases elements with
    | nil => simp
    | cons g elements => rw [List.zip_cons_cons, List.foldl_cons, ih, dot_cons, add_assoc]

section Slices
variable {α β : Type*}

/-- The elements from position `start` up to but not including `stop`. -/
def slice (l : List α) (start stop : Nat) : List α :=
  (l.take stop).drop start

theorem length_slice (l : List α) (start stop : Nat) :
    (slice l start stop).length = min stop l.length - start := by
  rw [slice, List.length_drop, List.length_take]

@[simp] theorem slice_self (l : List α) (start : Nat) : slice l start start = [] := by
  rw [slice, List.drop_eq_nil_iff, List.length_take]
  omega

theorem slice_append (l : List α) {start middle stop : Nat} (first : start ≤ middle)
    (second : middle ≤ stop) :
    slice l start middle ++ slice l middle stop = slice l start stop := by
  have head : slice l start middle = (slice l start stop).take (middle - start) := by
    rw [slice, slice, ← List.drop_take, List.take_take, Nat.min_eq_left second]
  have tail : slice l middle stop = (slice l start stop).drop (middle - start) := by
    rw [slice, slice, List.drop_drop, Nat.add_sub_cancel' first]
  rw [head, tail, List.take_append_drop]

theorem slice_all {l : List α} {stop : Nat} (size : l.length ≤ stop) : slice l 0 stop = l := by
  rw [slice, List.take_of_length_le size, List.drop_zero]

/-- Each range starts where the one before it stops. -/
def Consecutive : Nat → List (Nat × Nat) → Nat → Prop
  | start, [], stop => start = stop
  | start, range :: ranges, stop =>
    range.1 = start ∧ start ≤ range.2 ∧ Consecutive range.2 ranges stop

theorem Consecutive.le {start stop : Nat} {ranges : List (Nat × Nat)}
    (consecutive : Consecutive start ranges stop) : start ≤ stop := by
  induction ranges generalizing start with
  | nil => exact Nat.le_of_eq consecutive
  | cons range ranges ih => exact consecutive.2.1.trans (ih consecutive.2.2)

theorem Consecutive.inside {start stop : Nat} {ranges : List (Nat × Nat)}
    (consecutive : Consecutive start ranges stop) {range : Nat × Nat} (member : range ∈ ranges) :
    range.1 ≤ range.2 ∧ range.2 ≤ stop := by
  induction ranges generalizing start with
  | nil => cases member
  | cons first ranges ih =>
    rcases List.mem_cons.mp member with rfl | later
    · exact ⟨consecutive.1.trans_le consecutive.2.1, consecutive.2.2.le⟩
    · exact ih consecutive.2.2 later

theorem Consecutive.snoc {start middle stop : Nat} {ranges : List (Nat × Nat)}
    (consecutive : Consecutive start ranges middle) (inside : middle ≤ stop) :
    Consecutive start (ranges ++ [(middle, stop)]) stop := by
  induction ranges generalizing start with
  | nil =>
    cases consecutive
    exact ⟨rfl, inside, rfl⟩
  | cons range ranges ih => exact ⟨consecutive.1, consecutive.2.1, ih consecutive.2.2⟩

theorem Consecutive.of_append {start stop : Nat} {ranges ranges' : List (Nat × Nat)}
    (consecutive : Consecutive start (ranges ++ ranges') stop) :
    ∃ middle, Consecutive start ranges middle ∧ Consecutive middle ranges' stop := by
  induction ranges generalizing start with
  | nil => exact ⟨start, rfl, consecutive⟩
  | cons range ranges ih =>
    obtain ⟨middle, first, rest⟩ := ih consecutive.2.2
    exact ⟨middle, ⟨consecutive.1, consecutive.2.1, first⟩, rest⟩

end Slices

/-- The combinations over consecutive ranges add up. -/
theorem sum_dot_slices {start stop : Nat} {ranges : List (Nat × Nat)}
    (consecutive : Consecutive start ranges stop) {scalars : List F} {elements : List G}
    (size : scalars.length = elements.length) :
    (ranges.map fun range => dot (slice scalars range.1 range.2)
      (slice elements range.1 range.2)).sum =
      dot (slice scalars start stop) (slice elements start stop) := by
  induction ranges generalizing start with
  | nil =>
    cases consecutive
    simp
  | cons range ranges ih =>
    obtain ⟨first, second⟩ := range
    obtain ⟨rfl, inside, rest⟩ := consecutive
    rw [List.map_cons, List.sum_cons, ih rest, ← slice_append scalars inside rest.le,
      ← slice_append elements inside rest.le, dot_append]
    rw [length_slice, length_slice, size]

end LinearCombinations
