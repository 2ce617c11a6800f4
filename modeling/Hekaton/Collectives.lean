import Hekaton.Networks
import Hekaton.ParallelResponses
import Hekaton.Transport

/-!
# Collective operations

The root scatters counts and then as many blocks to each rank, and gathers the bytes that the
ranks send into parts of one size. A rank's buffer takes no more than it has room for. The
four transfers of a node are built from these; what each of them sends and receives is told
here once, so that the nodes never look at a message.
-/

namespace Collectives

open Outcomes Codecs Packing CPGroth16 Transport Networks ParallelResponses

/-- What travels between ranks. -/
inductive Message where
  | counts (counts : List Count)
  | packets (packets : List Packed)
  | bytes (bytes : List UInt8)

abbrev Node := Program Nat Message Fault

def truncated : String := "MPI_ERR_TRUNCATE"

def zeroPacket : Packed := .fromBytes []

/-- `scatter_into_root`: the counts in equal shares; the root has room for one. -/
def scatterIntoRoot (size : Nat) (counts : List Count) : Node Unit := do
  let sendCount ← .lift (divide counts.length size)
  if 1 < sendCount then .lift (panicWith truncated)
  (List.range (size - 1)).forM fun j =>
    .sendTo (j + 1) (.counts ((counts.drop (sendCount * (j + 1))).take sendCount))

/-- `scatter_into` one count, which stays zero where none is sent. -/
def scatterInto : Node Count := do
  match ← .receiveFrom 0 with
  | .counts [] => pure 0
  | .counts [count] => pure count
  | _ => .lift (panicWith truncated)

/-- `scatter_varcount_into_root` with no room for a part of the root. -/
def scatterVarcountIntoRoot (size : Nat) (partition : Partition Packed) : Node Unit := do
  let own ← .lift (partition.part 0)
  if 0 < own.length then .lift (panicWith truncated)
  (List.range (size - 1)).forM fun j => do
    let part ← .lift (partition.part (j + 1))
    .sendTo (j + 1) (.packets part)

/-- `scatter_varcount_into` this many zero blocks. -/
def scatterVarcountInto (size : Nat) : Node (List Packed) := do
  match ← .receiveFrom 0 with
  | .packets part =>
    if size < part.length then .lift (panicWith truncated)
    else pure (part ++ List.replicate (size - part.length) zeroPacket)
  | _ => .lift (panicWith truncated)

def gatherVarcountInto (bytes : List UInt8) : Node Unit := .sendTo 0 (.bytes bytes)

def receiveBytes (rank : Nat) : Node (List UInt8) := do
  match ← .receiveFrom rank with
  | .bytes bytes => pure bytes
  | _ => .lift (panicWith truncated)

/-- `gather_varcount_into_root`, with nothing from the root. -/
def gatherVarcountIntoRoot (size : Nat) (partition : Partition UInt8) : Node (List UInt8) := do
  let sends ← (List.range (size - 1)).mapM fun j => receiveBytes (j + 1)
  .lift (partition.gather ([] :: sends))

section Transfers
variable {α β : Type}

def scatterRequests (overflowChecks : Bool) (size : Nat) (write : α → List UInt8)
    (requests : List (List α)) : Node Unit := do
  let requestBytesBuf ← .lift (Transport.scatterRequests overflowChecks write requests)
  scatterIntoRoot size requestBytesBuf.counts
  scatterVarcountIntoRoot size requestBytesBuf

def receiveRequests (read : Reader β) : Node (List β) := do
  let size ← scatterInto
  if size < 0 then .lift (panicWith "capacity overflow")
  let requestSer ← scatterVarcountInto size.toNat
  .lift (deserialized read (packedToBytes requestSer))

/-- The bytes of one response are counted for the log. -/
def sendResponses (write : α → List UInt8) (responses : List α) : Node Unit := do
  let responsesBytes := writeVec write responses
  let _ ← .lift (divide responsesBytes.length responses.length)
  gatherVarcountInto responsesBytes

def gatherResponses (overflowChecks : Bool) (write : α → List UInt8) (read : Reader α)
    (size : Nat) (defaultResponse : List α) : Node (List (List α)) := do
  let itemSize := (writeVec write defaultResponse).length
  let partition ← .lift (partitionForGather overflowChecks size itemSize)
  let responseBytes ← gatherVarcountIntoRoot size partition
  .lift ((chunksExact itemSize responseBytes).mapM (deserialized read))

end Transfers

section Exchanges
variable {α β : Type} {write : α → List UInt8} {w : Nat}

/-- The count and the blocks of one worker's requests. -/
def requestMessages (write : α → List UInt8) (chunk : List α) : List Message :=
  [.counts [((packBytes (writeVec write chunk)).length : Count)],
    .packets (packBytes (writeVec write chunk))]

def responseMessage (write : α → List UInt8) (chunk : List α) : Message :=
  .bytes (writeVec write chunk)

/-- What one worker is sent and sends of a list in chunks. -/
def requestsTo (write : α → List UInt8) (perWorker : Nat) (l : List α) (j : Nat) : List Message :=
  requestMessages write ((chunks perWorker l).getD j [])

def responseOf (write : α → List UInt8) (perWorker : Nat) (l : List α) (j : Nat) : Message :=
  responseMessage write ((chunks perWorker l).getD j [])

theorem scatterInto_solo (count : Count) :
    Solo scatterInto [(0, .counts [count])] [] (.halt (.ok count)) :=
  .receive (.stop _)

theorem scatterVarcountInto_solo (part : List Packed) :
    Solo (scatterVarcountInto part.length) [(0, .packets part)] [] (.halt (.ok part)) := by
  have whole : (if part.length < part.length then .lift (panicWith truncated)
      else pure (part ++ List.replicate (part.length - part.length) zeroPacket) :
        Node (List Packed)) = .halt (.ok part) := by
    rw [if_neg (Nat.lt_irrefl _), Nat.sub_self, List.replicate_zero, List.append_nil]
    rfl
  refine .receive ?_
  change Solo (if part.length < part.length then _ else _ : Node (List Packed)) _ _ _
  rw [whole]
  exact .stop _

theorem receiveBytes_solo (rank : Nat) (bytes : List UInt8) :
    Solo (receiveBytes rank) [(rank, .bytes bytes)] [] (.halt (.ok bytes)) :=
  .receive (.stop _)

/-- The counts and the root's part of a partition that scatters. -/
theorem partitionForScatter_root (overflowChecks : Bool) {items : List (List Packed)}
    {partition : Partition Packed}
    (made : partitionForScatter overflowChecks items = .ok partition) :
    partition.counts.length = items.length + 1 ∧ partition.part 0 = .ok [] := by
  obtain ⟨displacements, sums, made⟩ := bind_eq_ok.mp made
  obtain ⟨next, _, sums⟩ := bind_eq_ok.mp sums
  obtain ⟨rest, _, sums⟩ := bind_eq_ok.mp sums
  cases sums
  by_cases small : items.flatten.length < 2 ^ 31
  · have same := Except.ok.inj ((partition_new small _ _).symm.trans made)
    rw [← same]
    refine ⟨by rw [List.length_map, List.length_cons], ?_⟩
    have none : Partition.part ⟨items.flatten, 0 :: items.map fun item => asCount item.length,
        0 :: rest⟩ 0 = .ok [] := by
      have enough : (0 : Count) + 0 ≤ items.flatten.length := Int.natCast_nonneg _
      rw [Partition.part, List.getElem?_cons_zero, List.getElem?_cons_zero, expect_some, ok_bind,
        ok_bind, if_pos ⟨Int.le_refl 0, Int.le_refl 0, enough⟩, Int.toNat_zero,
        List.take_zero]
    exact none
  · rw [Partition.new, if_neg small] at made
    cases made

/-- The root sends each worker one count. -/
theorem scatterIntoRoot_solo {counts : List Count} {count : Nat → Count}
    (size : counts.length = w + 1) (each : ∀ j < w, counts[j + 1]? = some (count j)) :
    Solo (scatterIntoRoot (w + 1) counts) []
      ((List.range w).flatMap fun j => [(j + 1, .counts [count j])]) (.halt (.ok ())) := by
  have one : divide counts.length (w + 1) = .ok 1 := by
    rw [size, divide, if_neg (Nat.succ_ne_zero w), Nat.div_self w.succ_pos]
  refine .lift_bind one (Solo.forM _ fun j member => ?_)
  obtain ⟨inside, found⟩ := List.getElem?_eq_some_iff.mp (each j (List.mem_range.mp member))
  have share : (counts.drop (1 * (j + 1))).take 1 = [count j] := by
    rw [Nat.one_mul, List.drop_eq_getElem_cons inside, found, List.take_succ_cons, List.take_zero]
  rw [share]
  exact .sendTo _ _

/-- The root sends each worker its part. -/
theorem scatterVarcountIntoRoot_solo {partition : Partition Packed} {part : Nat → List Packed}
    (own : partition.part 0 = .ok []) (each : ∀ j < w, partition.part (j + 1) = .ok (part j)) :
    Solo (scatterVarcountIntoRoot (w + 1) partition) []
      ((List.range w).flatMap fun j => [(j + 1, .packets (part j))]) (.halt (.ok ())) :=
  .lift_bind own (Solo.forM _ fun j member =>
    .lift_bind (each j (List.mem_range.mp member)) (.sendTo _ _))

/-- The root sends each worker the count and the blocks of its requests. -/
theorem scatterRequests_solo (overflowChecks : Bool) {requests : List (List α)}
    (size : requests.length = w) (small : packets write requests < 2 ^ 31) :
    ∃ sent, Solo (scatterRequests overflowChecks (w + 1) write requests) [] (toSpokes sent)
        (.halt (.ok ())) ∧
      ∀ j, exchangedWith j sent =
        if j < w then requestMessages write (requests.getD j []) else [] := by
  have total : (requests.map fun chunk => packBytes (writeVec write chunk)).flatten.length =
      packets write requests := by
    rw [List.length_flatten, List.map_map]
    rfl
  obtain ⟨partition, scattered, parts⟩ := scatter_delivers overflowChecks (total ▸ small)
  obtain ⟨counts, own⟩ := partitionForScatter_root overflowChecks scattered
  rw [List.length_map, size] at counts
  have part : ∀ j < w, partition.counts[j + 1]? =
      some ((packBytes (writeVec write (requests.getD j []))).length : Count) ∧
      partition.part (j + 1) = .ok (packBytes (writeVec write (requests.getD j []))) := by
    intro j inside
    apply parts j
    have here : j < requests.length := by omega
    simp [here]
  have first := scatterIntoRoot_solo counts fun j inside => (part j inside).1
  have rest := scatterVarcountIntoRoot_solo own fun j inside => (part j inside).2
  refine ⟨((List.range w).map fun j => (j, .counts
      [((packBytes (writeVec write (requests.getD j []))).length : Count)])) ++
    (List.range w).map fun j => (j, .packets (packBytes (writeVec write (requests.getD j [])))),
    ?_, fun j => ?_⟩
  · rw [toSpokes, List.map_append, List.map_map, List.map_map, List.map_eq_flatMap,
      List.map_eq_flatMap]
    exact .lift_bind scattered (first.bind rest)
  · rw [exchangedWith_append, exchangedWith_range, exchangedWith_range]
    by_cases inside : j < w
    · simp [inside, requestMessages]
    · simp [inside]

/-- A worker that is sent its requests has them. -/
theorem receiveRequests_solo {read : Reader β} {own : α → β} {chunk : List α}
    (short : chunk.length < 2 ^ 64) (each : ∀ a ∈ chunk, Reads read (write a) (own a)) :
    Solo (receiveRequests read) ((requestMessages write chunk).map ((0 : Nat), ·)) []
      (.halt (.ok (chunk.map own))) := by
  obtain ⟨zeros, padded⟩ := packedToBytes_packBytes (writeVec write chunk)
  have received := deserialized_eq short each (List.replicate zeros 0)
  have count : ¬ ((packBytes (writeVec write chunk)).length : Count) < 0 :=
    Int.not_lt.mpr (Int.natCast_nonneg _)
  refine (scatterInto_solo _).bind ?_
  dsimp only
  rw [if_neg count, Int.toNat_natCast]
  refine (scatterVarcountInto_solo _).bind ?_
  rw [padded, received]
  exact .stop _

theorem sendResponses_solo {responses : List α} (nonempty : responses ≠ []) :
    Solo (sendResponses write responses) [] [(0, responseMessage write responses)]
      (.halt (.ok ())) := by
  have divided : divide (writeVec write responses).length responses.length =
      .ok ((writeVec write responses).length / responses.length) :=
    if_neg (List.length_pos_of_ne_nil nonempty).ne'
  exact .lift_bind divided (.sendTo 0 _)

/-- The root that is sent what it can gather has all responses. -/
theorem gatherResponses_solo {overflowChecks : Bool} {read : Reader α} {default : List α}
    {responses : List (List α)} (size : responses.length = w)
    (gathered : Transport.gatherResponses overflowChecks write read (w + 1) default responses =
      .ok responses) :
    Solo (gatherResponses overflowChecks write read (w + 1) default)
      (toSpokes ((List.range w).map fun j => (j, responseMessage write (responses.getD j [])))) []
      (.halt (.ok responses)) := by
  obtain ⟨partition, made, ran⟩ := bind_eq_ok.mp gathered
  obtain ⟨responseBytes, joined, ended⟩ := bind_eq_ok.mp ran
  have sends : (List.range w).map (fun j => writeVec write (responses.getD j [])) =
      responses.map (writeVec write) := by
    apply List.ext_getElem
    · simp [size]
    · intro j _ inside
      rw [List.length_map] at inside
      simp [inside]
  have received := Solo.mapM (List.range w) fun j _ =>
    receiveBytes_solo (j + 1) (writeVec write (responses.getD j []))
  rw [sends] at received
  have root : Solo (gatherVarcountIntoRoot (w + 1) partition) _ _ (.halt (.ok responseBytes)) :=
    received.bind_stop (congrArg Program.lift joined)
  rw [toSpokes, List.map_map, List.map_eq_flatMap]
  exact .lift_bind made (root.bind_stop (congrArg Program.lift ended))

end Exchanges
end Collectives
