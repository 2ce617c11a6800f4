import Hekaton.Codecs
import Hekaton.Outcomes

/-!
# Packed buffers over MPI

Blocks of 256 bytes, the last one filled up with zeros, and the partitions of one buffer
by counts and displacements. Counts are 32-bit integers, and a buffer whose length is no
count is refused. What is scattered by the prefix sums of the parts arrives part by part;
what is gathered into equal parts arrives in the order of the senders.
-/

namespace Packing

open Outcomes Codecs

variable {α : Type}

/-- `chunks(n)`. -/
def chunks (n : Nat) (l : List α) : List (List α) :=
  (List.range ((l.length + n - 1) / n)).map fun i => (l.drop (n * i)).take n

/-- `chunks_exact(n)`, which leaves out what does not fill a chunk. -/
def chunksExact (n : Nat) (l : List α) : List (List α) :=
  (List.range (l.length / n)).map fun i => (l.drop (n * i)).take n

structure Packed where
  bytes : List UInt8
  size : bytes.length = 256

/-- Chunks are never longer than a block. -/
def Packed.fromBytes (bytes : List UInt8) : Packed where
  bytes := (bytes ++ List.replicate 256 0).take 256
  size := by
    rw [List.length_take, List.length_append, List.length_replicate]
    omega

def packBytes (bytes : List UInt8) : List Packed := (chunks 256 bytes).map Packed.fromBytes

def packedToBytes (packed : List Packed) : List UInt8 := packed.flatMap Packed.bytes

theorem chunks_length (n : Nat) (l : List α) :
    (chunks n l).length = (l.length + n - 1) / n := by
  rw [chunks, List.length_map, List.length_range]

/-- The first chunk, which may be short, and the chunks of the rest. -/
theorem chunks_of_ne_nil {n : Nat} {l : List α} (positive : 0 < n) (nonempty : l ≠ []) :
    chunks n l = l.take n :: chunks n (l.drop n) := by
  have count : (l.length + n - 1) / n = ((l.drop n).length + n - 1) / n + 1 := by
    have some : 0 < l.length := List.length_pos_of_ne_nil nonempty
    rw [List.length_drop]
    by_cases whole : n ≤ l.length
    · rw [show l.length + n - 1 = l.length - n + n - 1 + n by omega, Nat.add_div_right _ positive]
    · have first : (l.length + n - 1) / n = 1 := by
        rw [show l.length + n - 1 = l.length - 1 + n by omega, Nat.add_div_right _ positive,
          Nat.div_eq_of_lt (by omega)]
      have rest : (l.length - n + n - 1) / n = 0 := Nat.div_eq_of_lt (by omega)
      rw [first, rest]
  rw [chunks, count, List.range_succ_eq_map, List.map_cons, List.map_map, Nat.mul_zero,
    List.drop_zero, chunks]
  apply congrArg
  apply List.map_congr_left
  intro i _
  rw [Function.comp_apply, List.drop_drop, Nat.mul_succ, Nat.add_comm]

/-- The chunks of a list of whole chunks. -/
theorem chunks_of_length {n k : Nat} {l : List α} (positive : 0 < n) (size : l.length = n * k) :
    chunks n l = (List.range k).map fun i => (l.drop (n * i)).take n := by
  have count : (l.length + n - 1) / n = k := by
    have below : n - 1 < n := by omega
    rw [size, Nat.add_sub_assoc positive, Nat.mul_add_div positive, Nat.div_eq_of_lt below,
      Nat.add_zero]
  rw [chunks, count]

theorem chunksExact_of_length {n k : Nat} {l : List α} (positive : 0 < n)
    (size : l.length = n * k) :
    chunksExact n l = (List.range k).map fun i => (l.drop (n * i)).take n := by
  rw [chunksExact, size, Nat.mul_div_cancel_left k positive]

/-- Cutting what was joined of lists of one length. -/
theorem chunksExact_flatten {n : Nat} {ls : List (List α)} (positive : 0 < n)
    (sizes : ∀ l ∈ ls, l.length = n) : chunksExact n ls.flatten = ls := by
  have total : ls.flatten.length = n * ls.length := by
    rw [List.length_flatten, List.map_congr_left sizes, List.map_const', List.sum_replicate,
      Nat.nsmul_eq_mul, Nat.mul_comm]
  rw [chunksExact_of_length positive total]
  clear total
  induction ls with
  | nil => rfl
  | cons l ls ih =>
    have first : l.length = n := sizes l List.mem_cons_self
    have rest := ih fun l' member => sizes l' (List.mem_cons_of_mem l member)
    rw [List.length_cons, List.range_succ_eq_map, List.map_cons, List.map_map, List.flatten_cons]
    refine congrArg₂ List.cons ?_ ?_
    · rw [Nat.mul_zero, List.drop_zero, ← first, List.take_left]
    · refine Eq.trans (List.map_congr_left fun i _ => ?_) rest
      have shifted : n * (i + 1) = l.length + n * i := by
        rw [first, Nat.mul_succ, Nat.add_comm]
      rw [Function.comp_apply, Nat.succ_eq_add_one, shifted, List.drop_length_add_append]

/-- The bytes, and zeros up to the end of the last block. -/
theorem packedToBytes_packBytes (bytes : List UInt8) :
    ∃ zeros, packedToBytes (packBytes bytes) = bytes ++ List.replicate zeros 0 := by
  have blocks : ∀ (k : Nat) (bytes : List UInt8), (bytes.length + 256 - 1) / 256 = k →
      ∃ zeros, ((List.range k).map fun i => (bytes.drop (256 * i)).take 256).flatMap
        (fun chunk => (Packed.fromBytes chunk).bytes) = bytes ++ List.replicate zeros 0 := by
    intro k
    induction k with
    | zero =>
      intro bytes count
      have empty : bytes.length = 0 := by omega
      rw [List.eq_nil_of_length_eq_zero empty]
      exact ⟨0, rfl⟩
    | succ k ih =>
      intro bytes count
      obtain ⟨zeros, rest⟩ := ih (bytes.drop 256) (by rw [List.length_drop]; omega)
      have later : ((List.range k).map Nat.succ).map (fun i => (bytes.drop (256 * i)).take 256) =
          (List.range k).map fun i => ((bytes.drop 256).drop (256 * i)).take 256 := by
        rw [List.map_map]
        refine List.map_congr_left fun i _ => ?_
        rw [Function.comp_apply, List.drop_drop, Nat.succ_eq_add_one, Nat.mul_succ, Nat.add_comm]
      rw [List.range_succ_eq_map, List.map_cons, later, List.flatMap_cons, rest, Nat.mul_zero,
        List.drop_zero, Packed.fromBytes]
      rcases Nat.le_total 256 bytes.length with full | short
      · refine ⟨zeros, ?_⟩
        have whole : (bytes.take 256).length = 256 := by
          rw [List.length_take]
          omega
        dsimp only
        rw [List.take_append_of_le_length (by omega), List.take_take, Nat.min_self,
          ← List.append_assoc, List.take_append_drop]
      · refine ⟨256 - bytes.length + zeros, ?_⟩
        dsimp only
        rw [List.take_of_length_le short, List.drop_eq_nil_of_le short, List.nil_append,
          List.take_append, List.take_of_length_le short, List.take_replicate,
          Nat.min_eq_left (by omega), List.append_assoc, List.replicate_append_replicate]
  obtain ⟨zeros, joined⟩ := blocks _ bytes rfl
  refine ⟨zeros, ?_⟩
  rw [packedToBytes, packBytes, List.flatMap_map]
  exact joined

theorem packBytes_length (bytes : List UInt8) :
    (packBytes bytes).length = (bytes.length + 255) / 256 := by
  rw [packBytes, List.length_map, chunks_length]
  rfl

abbrev Count := Int

/-- `as Count`, which wraps. -/
def asCount (n : Nat) : Count := Int.bmod n (2 ^ 32)

/-- `+=` on counts: an overflow panics where it is checked for, and wraps elsewhere. -/
def addCount (overflowChecks : Bool) (a b : Count) : Outcome Count :=
  if Int.bmod (a + b) (2 ^ 32) = a + b then .ok (a + b)
  else if overflowChecks then panicWith "attempt to add with overflow"
  else .ok (Int.bmod (a + b) (2 ^ 32))

/-- The `scan` over the counts: the sum of those before each one. -/
def displacementsFrom (overflowChecks : Bool) (acc : Count) : List Count → Outcome (List Count)
  | [] => .ok []
  | x :: counts => do
    let next ← addCount overflowChecks acc x
    let rest ← displacementsFrom overflowChecks next counts
    .ok (acc :: rest)

/-- A buffer in parts, one for each rank. -/
structure Partition (α : Type) where
  buffer : List α
  counts : List Count
  displacements : List Count

/-- A buffer is asked for its count. -/
def Partition.new (buffer : List α) (counts displacements : List Count) : Outcome (Partition α) :=
  if buffer.length < 2 ^ 31 then .ok ⟨buffer, counts, displacements⟩
  else panicWith "Length of slice cannot be expressed as an MPI Count."

/-- `construct_partitioned_buffer_for_scatter`: nothing for the root, then one item a rank. -/
def partitionForScatter (overflowChecks : Bool) (items : List (List α)) :
    Outcome (Partition α) := do
  let counts := ([] :: items).map fun item => asCount item.length
  let displacements ← displacementsFrom overflowChecks 0 counts
  Partition.new items.flatten counts displacements

/-- `construct_partitioned_mut_buffer_for_gather`: nothing from the root, then `itemSize`
zeros to be filled by each rank. -/
def partitionForGather (overflowChecks : Bool) (size itemSize : Nat) :
    Outcome (Partition UInt8) := do
  let items := ([] :: List.replicate size (List.replicate itemSize (0 : UInt8))).take size
  let counts := items.map fun item => asCount item.length
  let displacements ← displacementsFrom overflowChecks 0 counts
  Partition.new items.flatten counts displacements

def invalidCount : String := "MPI_ERR_COUNT"

/-- What `scatterv` sends to one rank: its count of elements, from its displacement on. -/
def Partition.part (partition : Partition α) (rank : Nat) : Outcome (List α) := do
  let count ← expect invalidCount partition.counts[rank]?
  let displacement ← expect invalidCount partition.displacements[rank]?
  if 0 ≤ count ∧ 0 ≤ displacement ∧ displacement + count ≤ partition.buffer.length then
    .ok ((partition.buffer.drop displacement.toNat).take count.toNat)
  else panicWith invalidCount

/-- Fill the parts in order; each rank sends as many elements as its count says. -/
def gatherParts : List (Count × Count) → List (List α) → List α → Outcome (List α)
  | (count, displacement) :: parts, sent :: sends, buffer =>
    if sent.length = count ∧ 0 ≤ displacement ∧ displacement + count ≤ buffer.length then
      gatherParts parts sends (buffer.take displacement.toNat ++ sent ++
        buffer.drop (displacement + count).toNat)
    else panicWith invalidCount
  | [], [], buffer => .ok buffer
  | _, _, _ => panicWith invalidCount

/-- `gatherv`, with what each rank sends. -/
def Partition.gather (partition : Partition α) (sends : List (List α)) : Outcome (List α) :=
  gatherParts (partition.counts.zip partition.displacements) sends partition.buffer

theorem asCount_eq {n : Nat} (small : n < 2 ^ 31) : asCount n = n :=
  Int.bmod_eq_of_le_mul_two (by omega) (by omega)

theorem addCount_eq (overflowChecks : Bool) {a b : Nat} (small : a + b < 2 ^ 31) :
    addCount overflowChecks a b = .ok ((a + b : Nat) : Count) := by
  have same : Int.bmod ((a : Int) + b) (2 ^ 32) = a + b :=
    Int.bmod_eq_of_le_mul_two (by omega) (by omega)
  rw [addCount, if_pos same]
  rfl

/-- Without an overflow the displacements are the prefix sums. -/
theorem displacementsFrom_eq (overflowChecks : Bool) (acc : Nat) {sizes : List Nat}
    (small : acc + sizes.sum < 2 ^ 31) :
    displacementsFrom overflowChecks acc (sizes.map fun size : Nat => (size : Count)) =
      .ok ((List.range sizes.length).map fun i => ((acc + (sizes.take i).sum : Nat) : Count)) := by
  induction sizes generalizing acc with
  | nil => rfl
  | cons size sizes ih =>
    rw [List.sum_cons] at small
    have rest := ih (acc + size) (by omega)
    rw [List.map_cons, displacementsFrom, addCount_eq overflowChecks (by omega), ok_bind, rest,
      ok_bind, List.length_cons, List.range_succ_eq_map, List.map_cons, List.map_map]
    refine congrArg Except.ok (congrArg₂ List.cons ?_ (List.map_congr_left fun i _ => ?_))
    · rw [List.take_zero, List.sum_nil, Nat.add_zero]
    · rw [Function.comp_apply, Nat.succ_eq_add_one, List.take_succ_cons, List.sum_cons,
        Nat.add_assoc]

theorem counts_eq {items : List (List α)} (small : (items.map List.length).sum < 2 ^ 31) :
    (items.map fun item => asCount item.length) =
      (items.map List.length).map fun size : Nat => (size : Count) := by
  rw [List.map_map]
  refine List.map_congr_left fun item member => asCount_eq ?_
  have part := List.single_le_sum (fun n _ => Nat.zero_le n) _
    (List.mem_map_of_mem (f := List.length) member)
  omega

theorem partition_new {buffer : List α} (small : buffer.length < 2 ^ 31)
    (counts displacements : List Count) :
    Partition.new buffer counts displacements = .ok ⟨buffer, counts, displacements⟩ := by
  rw [Partition.new, if_pos small]

/-- Each rank is sent its item. -/
theorem scatter_delivers (overflowChecks : Bool) {items : List (List α)}
    (small : items.flatten.length < 2 ^ 31) :
    ∃ partition, partitionForScatter overflowChecks items = .ok partition ∧
      ∀ j item, items[j]? = some item → partition.counts[j + 1]? = some (item.length : Count) ∧
        partition.part (j + 1) = .ok item := by
  have total : (([] :: items).map List.length).sum < 2 ^ 31 := by
    rwa [List.map_cons, List.sum_cons, List.length_nil, Nat.zero_add, ← List.length_flatten]
  have counts := counts_eq total
  have sums := displacementsFrom_eq overflowChecks 0 (by rwa [Nat.zero_add])
  rw [← counts] at sums
  refine ⟨_, bind_eq_ok.mpr ⟨_, sums, partition_new small _ _⟩, fun j item found => ?_⟩
  obtain ⟨inside, rfl⟩ := List.getElem?_eq_some_iff.mp found
  have count : (([] :: items).map fun item => asCount item.length)[j + 1]? =
      some ((items[j].length : Nat) : Count) := by
    rw [counts, List.map_map, List.getElem?_map, List.getElem?_cons_succ, found]
    rfl
  have before : ((([] :: items).map List.length).take (j + 1)).sum =
      ((items.map List.length).take j).sum := by
    rw [List.map_cons, List.take_succ_cons, List.sum_cons, List.length_nil, Nat.zero_add]
  have rest : items.flatten.drop ((items.map List.length).take j).sum =
      items[j] ++ (items.drop (j + 1)).flatten := by
    rw [List.drop_sum_flatten, List.drop_eq_getElem_cons inside, List.flatten_cons]
  have enough : ((items.map List.length).take j).sum + items[j].length ≤ items.flatten.length := by
    have size := congrArg List.length rest
    rw [List.length_drop, List.length_append] at size
    have below : ((items.map List.length).take j).sum ≤ items.flatten.length := by
      rw [List.length_flatten]
      exact List.Sublist.sum_le_sum (List.take_sublist _ _) fun n _ => Nat.zero_le n
    omega
  refine ⟨count, ?_⟩
  rw [Partition.part, count, expect_some, ok_bind, List.getElem?_map, List.getElem?_range
    (by rw [List.length_map, List.length_cons]; omega), Option.map_some, expect_some, ok_bind,
    before, Nat.zero_add, if_pos ⟨Int.natCast_nonneg _, Int.natCast_nonneg _, Int.ofNat_le.mpr enough⟩,
    Int.toNat_natCast, Int.toNat_natCast, rest, List.take_left]

/-- The ranks fill the buffer one after the other. -/
theorem gatherParts_joins (overflowChecks : Bool) {sends : List (List UInt8)}
    {before : List UInt8} {displacements : List Count}
    (small : before.length + sends.flatten.length < 2 ^ 31)
    (sums : displacementsFrom overflowChecks before.length
      (sends.map fun sent => ((sent.length : Nat) : Count)) = .ok displacements) :
    gatherParts ((sends.map fun sent => ((sent.length : Nat) : Count)).zip displacements) sends
      (before ++ List.replicate sends.flatten.length 0) = .ok (before ++ sends.flatten) := by
  induction sends generalizing before displacements with
  | nil => rfl
  | cons sent sends ih =>
    rw [List.flatten_cons, List.length_append] at small
    rw [List.map_cons, displacementsFrom, addCount_eq overflowChecks (by omega), ok_bind] at sums
    obtain ⟨later, after, same⟩ := bind_eq_ok.mp sums
    cases same
    rw [← List.length_append] at after
    have rest := @ih (before ++ sent) later (by rw [List.length_append]; omega) after
    have cleared : (before ++ List.replicate (sent ++ sends.flatten).length (0 : UInt8)).drop
        (before.length + sent.length) = List.replicate sends.flatten.length 0 := by
      rw [List.drop_length_add_append, List.drop_replicate, List.length_append,
        Nat.add_sub_cancel_left]
    have enough : (before.length : Int) + sent.length ≤
        (before ++ List.replicate (sent ++ sends.flatten).length (0 : UInt8)).length := by
      rw [List.length_append, List.length_replicate, List.length_append]
      omega
    rw [List.map_cons, List.zip_cons_cons, List.flatten_cons, gatherParts,
      if_pos ⟨rfl, Int.natCast_nonneg _, enough⟩, Int.toNat_natCast, List.take_left,
      ← Int.natCast_add, Int.toNat_natCast, cleared, rest, List.append_assoc]

/-- The parts of a gather: none of the root, and equal ones of the ranks. -/
theorem gather_items (n size : Nat) :
    (([] :: List.replicate (n + 1) (List.replicate size (0 : UInt8))).take (n + 1)) =
      [] :: List.replicate n (List.replicate size 0) := by
  rw [List.take_succ_cons, List.take_replicate, Nat.min_eq_left (Nat.le_succ n)]

theorem flatten_equal_parts {n size : Nat} :
    (([] :: List.replicate n (List.replicate size (0 : UInt8))).flatten) =
      List.replicate (n * size) 0 := by
  rw [List.flatten_cons, List.nil_append, List.flatten_replicate_replicate]

/-- What the ranks send is joined in their order. -/
theorem gather_joins (overflowChecks : Bool) {size : Nat} {sends : List (List UInt8)}
    (sizes : ∀ sent ∈ sends, sent.length = size) (small : sends.length * size < 2 ^ 31) :
    ∃ partition, partitionForGather overflowChecks (sends.length + 1) size = .ok partition ∧
      partition.gather ([] :: sends) = .ok sends.flatten := by
  have lengths : sends.map List.length = List.replicate sends.length size := by
    rw [List.map_congr_left sizes, List.map_const']
  have total : sends.flatten.length = sends.length * size := by
    rw [List.length_flatten, lengths, List.sum_replicate, Nat.nsmul_eq_mul]
  have counts : (([] :: List.replicate sends.length (List.replicate size (0 : UInt8))).map
      fun item => asCount item.length) =
        ([] :: sends).map fun sent => ((sent.length : Nat) : Count) := by
    have parts : (([] :: List.replicate sends.length (List.replicate size (0 : UInt8))).map
        List.length) = ([] :: sends).map List.length := by
      rw [List.map_cons, List.map_cons, lengths, List.map_replicate, List.length_replicate]
    rw [counts_eq, parts, List.map_map]
    · rfl
    · rw [parts, ← List.length_flatten, List.flatten_cons, List.nil_append, total]
      exact small
  have small' : ([] :: sends).flatten.length < 2 ^ 31 := by
    rwa [List.flatten_cons, List.nil_append, total]
  obtain ⟨displacements, sums⟩ : ∃ displacements, displacementsFrom overflowChecks (0 : Nat)
      (([] :: sends).map fun sent => ((sent.length : Nat) : Count)) = .ok displacements := by
    have sums := @displacementsFrom_eq overflowChecks 0 (([] :: sends).map List.length)
      (by rwa [Nat.zero_add, ← List.length_flatten])
    rw [List.map_map] at sums
    exact ⟨_, sums⟩
  have joined := @gatherParts_joins overflowChecks ([] :: sends) [] displacements
    (by rwa [List.length_nil, Nat.zero_add]) sums
  rw [List.nil_append, List.nil_append, List.flatten_cons, List.nil_append, total] at joined
  refine ⟨⟨List.replicate (sends.length * size) 0,
    ([] :: sends).map fun sent : List UInt8 => ((sent.length : Nat) : Count), displacements⟩,
    ?_, joined⟩
  rw [partitionForGather, gather_items, counts]
  refine bind_eq_ok.mpr ⟨displacements, sums, ?_⟩
  rw [flatten_equal_parts]
  exact partition_new (by rwa [List.length_replicate]) _ _

/-- Parts that are too large in total are not gathered. -/
theorem partitionForGather_overflow (overflowChecks : Bool) {n size : Nat}
    (large : 2 ^ 31 ≤ n * size) {partition : Partition UInt8} :
    partitionForGather overflowChecks (n + 1) size ≠ .ok partition := by
  intro ran
  rw [partitionForGather, gather_items] at ran
  obtain ⟨displacements, _, ran⟩ := bind_eq_ok.mp ran
  rw [flatten_equal_parts, Partition.new, List.length_replicate, if_neg (by omega)] at ran
  cases ran

end Packing
