import Mathlib.Data.List.TakeWhile
import Mathlib.Order.Lattice

/-!
# Merges that break ties differently

A merge of two lists takes the head of the left list where a test prefers it. With `≤` the
left heads go first among equal keys, with `<` the right ones. Where the merges meet a tie,
they put the block of left elements up to that key and the block of right elements up to it
in opposite orders, and go on alike behind both blocks.
-/

namespace Merging

variable {α β κ : Type}

section Blocks
variable {prefers : α → α → Bool}

/-- A block on the left that is preferred to the head of the right list. -/
theorem merge_append_left {block : List α} (left : List α) {right : List α}
    (first : ∀ a ∈ block, ∀ r ∈ right.head?, prefers a r = true) :
    List.merge (block ++ left) right prefers = block ++ List.merge left right prefers := by
  cases right with
  | nil => rw [List.merge_right, List.merge_right]
  | cons r right =>
    induction block with
    | nil => rfl
    | cons a block ih =>
      have here := first a List.mem_cons_self r rfl
      have rest := ih fun b member => first b (List.mem_cons_of_mem a member)
      rw [List.cons_append, List.cons_merge_cons, if_pos here, rest, List.cons_append]

/-- A block on the right to which the head of the left list is not preferred. -/
theorem merge_append_right {block : List α} {left : List α} (right : List α)
    (first : ∀ b ∈ block, ∀ l ∈ left.head?, prefers l b = false) :
    List.merge left (block ++ right) prefers = block ++ List.merge left right prefers := by
  cases left with
  | nil => rw [List.nil_merge, List.nil_merge]
  | cons l left =>
    induction block with
    | nil => rfl
    | cons b block ih =>
      have here := first b List.mem_cons_self l rfl
      have rest := ih fun b' member => first b' (List.mem_cons_of_mem b member)
      rw [List.cons_append, List.cons_merge_cons, here, rest]
      rfl

end Blocks

variable [LinearOrder κ] (key : α → κ) (val : α → β)

/-- The merge that takes the left head among equal keys. -/
def mergeLe (left right : List α) : List α :=
  List.merge left right fun a b => decide (key a ≤ key b)

/-- The merge that takes the right head among equal keys. -/
def mergeLt (left right : List α) : List α :=
  List.merge left right fun a b => decide (key a < key b)

/-- The elements at the front with a key up to the bound. -/
def upTo (bound : κ) (l : List α) : List α := l.takeWhile fun a => decide (key a ≤ bound)

def beyond (bound : κ) (l : List α) : List α := l.dropWhile fun a => decide (key a ≤ bound)

/-- Wherever a merge of the two lists meets a tie, the blocks up to its key have the same
values in either order. -/
inductive TiesCommute : List α → List α → Prop
  | leftDone (right : List α) : TiesCommute [] right
  | rightDone (left : List α) : TiesCommute left []
  | less {l r : α} {left right : List α} (below : key l < key r)
      (rest : TiesCommute left (r :: right)) : TiesCommute (l :: left) (r :: right)
  | greater {l r : α} {left right : List α} (above : key r < key l)
      (rest : TiesCommute (l :: left) right) : TiesCommute (l :: left) (r :: right)
  | tie {l r : α} {left right : List α} (equal : key l = key r)
      (commute : (upTo key (key l) (l :: left) ++ upTo key (key l) (r :: right)).map val =
        (upTo key (key l) (r :: right) ++ upTo key (key l) (l :: left)).map val)
      (rest : TiesCommute (beyond key (key l) (l :: left)) (beyond key (key l) (r :: right))) :
      TiesCommute (l :: left) (r :: right)

variable {key val} {bound : κ} {left right : List α} {l r : α}

theorem key_of_mem_upTo {a : α} (member : a ∈ upTo key bound left) : key a ≤ bound :=
  of_decide_eq_true (List.mem_takeWhile_imp (p := fun a => decide (key a ≤ bound)) member)

theorem lt_key_of_beyond {a : α} (head : a ∈ (beyond key bound left).head?) : bound < key a := by
  have test := List.head?_dropWhile_not (fun a => decide (key a ≤ bound)) left
  rw [beyond] at head
  rw [Option.mem_def.mp head] at test
  exact lt_of_not_ge (of_decide_eq_false (by simpa using test))

theorem upTo_append_beyond (bound : κ) (l : List α) :
    upTo key bound l ++ beyond key bound l = l := List.takeWhile_append_dropWhile

theorem beyond_length (bound : κ) (l : List α) : (beyond key bound l).length ≤ l.length :=
  (List.dropWhile_suffix _).length_le

/-- Behind the head, a block up to its own key is shorter than the list. -/
theorem beyond_cons_length (l : α) (left : List α) :
    (beyond key (key l) (l :: left)).length ≤ left.length := by
  rw [beyond, List.dropWhile_cons_of_pos (by simp)]
  exact beyond_length (key l) left

theorem mergeLe_cons (l r : α) (left right : List α) :
    mergeLe key (l :: left) (r :: right) =
      if key l ≤ key r then l :: mergeLe key left (r :: right)
      else r :: mergeLe key (l :: left) right := by
  rw [mergeLe, List.cons_merge_cons]
  simp only [decide_eq_true_eq]
  rfl

theorem mergeLt_cons (l r : α) (left right : List α) :
    mergeLt key (l :: left) (r :: right) =
      if key l < key r then l :: mergeLt key left (r :: right)
      else r :: mergeLt key (l :: left) right := by
  rw [mergeLt, List.cons_merge_cons]
  simp only [decide_eq_true_eq]
  rfl

/-- At a tie `≤` takes the left block first. -/
theorem mergeLe_tie (equal : key l = key r) :
    mergeLe key (l :: left) (r :: right) =
      upTo key (key l) (l :: left) ++ upTo key (key l) (r :: right) ++
        mergeLe key (beyond key (key l) (l :: left)) (beyond key (key l) (r :: right)) := by
  have first : mergeLe key (upTo key (key l) (l :: left) ++ beyond key (key l) (l :: left))
      (r :: right) = upTo key (key l) (l :: left) ++
        mergeLe key (beyond key (key l) (l :: left)) (r :: right) := by
    apply merge_append_left
    rintro a member _ ⟨⟩
    exact decide_eq_true (equal ▸ key_of_mem_upTo member)
  have second : mergeLe key (beyond key (key l) (l :: left))
      (upTo key (key l) (r :: right) ++ beyond key (key l) (r :: right)) =
        upTo key (key l) (r :: right) ++
          mergeLe key (beyond key (key l) (l :: left)) (beyond key (key l) (r :: right)) := by
    apply merge_append_right
    intro b member a head
    exact decide_eq_false (not_le_of_gt
      (lt_of_le_of_lt (key_of_mem_upTo member) (lt_key_of_beyond head)))
  rw [upTo_append_beyond] at first second
  rw [first, second, List.append_assoc]

/-- With `<` the right block up to a key goes before the left one. -/
theorem mergeLt_blocks :
    mergeLt key (l :: left) (r :: right) =
      upTo key (key l) (r :: right) ++ upTo key (key l) (l :: left) ++
        mergeLt key (beyond key (key l) (l :: left)) (beyond key (key l) (r :: right)) := by
  have first : mergeLt key (l :: left)
      (upTo key (key l) (r :: right) ++ beyond key (key l) (r :: right)) =
        upTo key (key l) (r :: right) ++
          mergeLt key (l :: left) (beyond key (key l) (r :: right)) := by
    apply merge_append_right
    rintro b member _ ⟨⟩
    exact decide_eq_false (not_lt_of_ge (key_of_mem_upTo member))
  have second : mergeLt key (upTo key (key l) (l :: left) ++ beyond key (key l) (l :: left))
      (beyond key (key l) (r :: right)) = upTo key (key l) (l :: left) ++
        mergeLt key (beyond key (key l) (l :: left)) (beyond key (key l) (r :: right)) := by
    apply merge_append_left
    intro a member b head
    exact decide_eq_true (lt_of_le_of_lt (key_of_mem_upTo member) (lt_key_of_beyond head))
  rw [upTo_append_beyond] at first second
  rw [first, second, List.append_assoc]

theorem mergeLe_perm (left right : List α) : (mergeLe key left right).Perm (left ++ right) :=
  List.merge_perm_append _

theorem mergeLt_perm (left right : List α) : (mergeLt key left right).Perm (left ++ right) :=
  List.merge_perm_append _

/-- The merge of sorted lists is sorted. -/
theorem mergeLe_sorted (leftSorted : left.Pairwise fun a b => key a ≤ key b)
    (rightSorted : right.Pairwise fun a b => key a ≤ key b) :
    (mergeLe key left right).Pairwise fun a b => key a ≤ key b := by
  have trans (a b c : α) : decide (key a ≤ key b) = true → decide (key b ≤ key c) = true →
      decide (key a ≤ key c) = true := by
    simpa using le_trans
  have total (a b : α) : (decide (key a ≤ key b) || decide (key b ≤ key a)) = true := by
    simpa using le_total (key a) (key b)
  have merged := List.pairwise_merge trans total left right (by simpa using leftSorted)
    (by simpa using rightSorted)
  simpa [mergeLe] using merged

/-- The merges give the same values exactly when all ties commute. -/
theorem merges_agree_iff (left right : List α) :
    (mergeLe key left right).map val = (mergeLt key left right).map val ↔
      TiesCommute key val left right := by
  induction size : left.length + right.length using Nat.strong_induction_on
    generalizing left right with
  | _ size ih =>
    cases left with
    | nil =>
      rw [mergeLe, mergeLt, List.nil_merge, List.nil_merge]
      exact iff_of_true rfl (.leftDone right)
    | cons l left =>
      cases right with
      | nil =>
        rw [mergeLe, mergeLt, List.merge_right, List.merge_right]
        exact iff_of_true rfl (.rightDone _)
      | cons r right =>
        rw [List.length_cons, List.length_cons] at size
        rcases lt_trichotomy (key l) (key r) with below | equal | above
        · have rest := ih _ (by rw [List.length_cons]; omega) left (r :: right) rfl
          rw [mergeLe_cons, mergeLt_cons, if_pos below.le, if_pos below, List.map_cons,
            List.map_cons, List.cons_inj_right, rest]
          constructor
          · exact .less below
          · intro commute
            cases commute with
            | less _ commute => exact commute
            | greater above _ => exact absurd above (lt_asymm below)
            | tie equal _ _ => exact absurd equal below.ne
        · have left' : (beyond key (key l) (l :: left)).length ≤ _ := beyond_cons_length l left
          have right' : (beyond key (key r) (r :: right)).length ≤ _ := beyond_cons_length r right
          rw [← equal] at right'
          have rest := ih _ (by omega) (beyond key (key l) (l :: left))
            (beyond key (key l) (r :: right)) rfl
          have split (first second rest : List α) : (first ++ second ++ rest).map val =
              (first ++ second).map val ++ rest.map val := List.map_append
          rw [mergeLe_tie equal, mergeLt_blocks, split, split]
          constructor
          · intro same
            obtain ⟨commute, same⟩ := List.append_inj same (by
              simp only [List.length_map, List.length_append, Nat.add_comm])
            exact .tie equal commute (rest.mp same)
          · intro commute
            cases commute with
            | less below _ => exact absurd equal below.ne
            | greater above _ => exact absurd equal above.ne'
            | tie _ commute later => rw [commute, rest.mpr later]
        · have rest := ih _ (by rw [List.length_cons]; omega) (l :: left) right rfl
          rw [mergeLe_cons, mergeLt_cons, if_neg (not_le_of_gt above),
            if_neg (lt_asymm above), List.map_cons, List.map_cons, List.cons_inj_right, rest]
          constructor
          · exact .greater above
          · intro commute
            cases commute with
            | less below _ => exact absurd above (lt_asymm below)
            | greater _ commute => exact commute
            | tie equal _ _ => exact absurd equal above.ne'

/-- Without equal keys on the two sides there is no tie. -/
theorem TiesCommute.of_distinct (distinct : ∀ a ∈ left, ∀ b ∈ right, key a ≠ key b) :
    TiesCommute key val left right := by
  induction size : left.length + right.length using Nat.strong_induction_on
    generalizing left right with
  | _ size ih =>
    cases left with
    | nil => exact .leftDone right
    | cons l left =>
      cases right with
      | nil => exact .rightDone _
      | cons r right =>
        rw [List.length_cons, List.length_cons] at size
        rcases lt_trichotomy (key l) (key r) with below | equal | above
        · apply TiesCommute.less below
          apply ih _ _ _ rfl
          · rw [List.length_cons]
            omega
          · exact fun a member => distinct a (List.mem_cons_of_mem l member)
        · exact absurd equal (distinct l List.mem_cons_self r List.mem_cons_self)
        · apply TiesCommute.greater above
          apply ih _ _ _ rfl
          · rw [List.length_cons]
            omega
          · exact fun a first b member => distinct a first b (List.mem_cons_of_mem r member)

end Merging
