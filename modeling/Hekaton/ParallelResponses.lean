import Hekaton.Packing

/-!
# Responses of a node's worker

A worker cuts its requests and its states into chunks, one thread each, and joins the threads
in the order it started them. With a thread or more it answers every request with the state
at its place, in order. The worker passes one thread less than it has, and with none left the
size of the chunks is a division by zero.
-/

namespace ParallelResponses

open Outcomes Packing

variable {R W U : Type}

/-- Division of `usize`. -/
def divide (a b : Nat) : Outcome Nat :=
  if b = 0 then panicWith "attempt to divide by zero" else .ok (a / b)

def poolAndChunkSize (numThreads numRequests : Nat) : Outcome (Nat × Nat) := do
  let poolSize ← (if numRequests < numThreads then divide numThreads numRequests else .ok 1)
  let chunkSize ← (if numThreads ≤ numRequests then divide numRequests numThreads else .ok 1)
  .ok (poolSize, chunkSize)

/-- `chunks(size)` of a slice or of an iterator. -/
def chunksOf {α : Type} (size : Nat) (l : List α) : Outcome (List (List α)) :=
  if size = 0 then panicWith "chunk size must be non-zero" else .ok (chunks size l)

/-- The pool only bounds the threads that one stage runs on. -/
def executeInPool (f : Unit → U) (_numThreads : Nat) : U := f ()

/-- One thread for each chunk, joined in the order of the chunks. -/
def computeResponses (numThreads : Nat) (requests : List R) (workerStates : List W)
    (stageFn : R → W → U) : Outcome (List U) := do
  let (poolSize, chunkSize) ← poolAndChunkSize numThreads requests.length
  let workerStateChunks ← chunksOf chunkSize workerStates
  let requestChunks ← chunksOf chunkSize requests
  let threadResults := (requestChunks.zip workerStateChunks).map fun chunk =>
    (chunk.1.zip chunk.2).map fun p => executeInPool (fun _ => stageFn p.1 p.2) poolSize
  .ok threadResults.flatten

/-- The build without threads counts one and runs chunk after chunk. -/
def computeResponsesInline (requests : List R) (workerStates : List W) (stageFn : R → W → U) :
    Outcome (List U) := do
  let (_, chunkSize) ← poolAndChunkSize 1 requests.length
  let workerStateChunks ← chunksOf chunkSize workerStates
  let requestChunks ← chunksOf chunkSize requests
  let threadResults := (requestChunks.zip workerStateChunks).map fun chunk =>
    (chunk.1.zip chunk.2).map fun p => stageFn p.1 p.2
  .ok threadResults.flatten

/-- What a worker does, built with threads or without. -/
def workerResponses (parallel : Bool) (currentNumThreads : Nat) (requests : List R)
    (workerStates : List W) (stageFn : R → W → U) : Outcome (List U) :=
  if parallel then computeResponses (currentNumThreads - 1) requests workerStates stageFn
  else computeResponsesInline requests workerStates stageFn

/-- Chunks of one size keep requests and states together. -/
theorem zip_chunks {n : Nat} (positive : 0 < n) (f : R × W → U) {requests : List R}
    {states : List W} (size : requests.length = states.length) :
    (((chunks n requests).zip (chunks n states)).map fun chunk =>
      (chunk.1.zip chunk.2).map f).flatten = (requests.zip states).map f := by
  induction length : requests.length using Nat.strong_induction_on generalizing requests states with
  | h k ih =>
    by_cases empty : requests = []
    · subst empty
      cases List.eq_nil_of_length_eq_zero size.symm
      rw [chunks, List.length_nil, Nat.zero_add, Nat.div_eq_of_lt (by omega)]
      rfl
    · have some : 0 < requests.length := List.length_pos_of_ne_nil empty
      have empty' : states ≠ [] := by
        rintro rfl
        exact empty (List.eq_nil_of_length_eq_zero size)
      have rest : (requests.drop n).length = (states.drop n).length := by
        rw [List.length_drop, List.length_drop, size]
      have shorter : (requests.drop n).length < k := by
        rw [List.length_drop]
        omega
      rw [chunks_of_ne_nil positive empty, chunks_of_ne_nil positive empty', List.zip_cons_cons,
        List.map_cons, List.flatten_cons, ih _ shorter rest rfl, ← List.map_append,
        ← List.zip_append (by rw [List.length_take, List.length_take, size]),
        List.take_append_drop, List.take_append_drop]

theorem chunksOf_of_pos {α : Type} {size : Nat} (positive : 0 < size) (l : List α) :
    chunksOf size l = .ok (chunks size l) := by
  rw [chunksOf, if_neg positive.ne']

theorem poolAndChunkSize_eq_ok {numThreads numRequests : Nat} (some : 0 < numRequests)
    (threads : 0 < numThreads) :
    ∃ poolSize chunkSize, poolAndChunkSize numThreads numRequests = .ok (poolSize, chunkSize) ∧
      0 < poolSize ∧ 0 < chunkSize := by
  rw [poolAndChunkSize, divide, divide, if_neg some.ne', if_neg threads.ne']
  by_cases more : numRequests < numThreads
  · rw [if_pos more, if_neg (by omega)]
    exact ⟨_, _, rfl, Nat.div_pos more.le some, Nat.one_pos⟩
  · rw [if_neg more, if_pos (by omega)]
    exact ⟨_, _, rfl, Nat.one_pos, Nat.div_pos (by omega) threads⟩

/-- With a thread, all requests are answered in order. -/
theorem computeResponses_eq {numThreads : Nat} {requests : List R} {states : List W}
    (nonempty : requests ≠ []) (size : requests.length = states.length)
    (threads : 0 < numThreads) (stageFn : R → W → U) :
    computeResponses numThreads requests states stageFn =
      .ok (List.zipWith stageFn requests states) := by
  obtain ⟨poolSize, chunkSize, sizes, _, positive⟩ :=
    poolAndChunkSize_eq_ok (List.length_pos_of_ne_nil nonempty) threads
  have joined := zip_chunks positive (fun p => stageFn p.1 p.2) size
  rw [computeResponses, sizes, ok_bind]
  dsimp only
  rw [chunksOf_of_pos positive, ok_bind, chunksOf_of_pos positive, ok_bind,
    ← List.map_uncurry_zip_eq_zipWith]
  exact congrArg Except.ok joined

theorem computeResponsesInline_eq {requests : List R} {states : List W} (nonempty : requests ≠ [])
    (size : requests.length = states.length) (stageFn : R → W → U) :
    computeResponsesInline requests states stageFn =
      .ok (List.zipWith stageFn requests states) :=
  computeResponses_eq nonempty size Nat.one_pos stageFn

/-- The responses are those of the requests in order exactly where a thread is left. -/
theorem workerResponses_iff {parallel : Bool} {currentNumThreads : Nat} {requests : List R}
    {states : List W} (_threads : 1 ≤ currentNumThreads) (nonempty : requests ≠ [])
    (size : requests.length = states.length) (stageFn : R → W → U) :
    workerResponses parallel currentNumThreads requests states stageFn =
        .ok (List.zipWith stageFn requests states) ↔
      (parallel = true → 2 ≤ currentNumThreads) := by
  cases parallel with
  | false => exact iff_of_true (computeResponsesInline_eq nonempty size stageFn) nofun
  | true =>
    by_cases two : 2 ≤ currentNumThreads
    · apply iff_of_true _ fun _ => two
      exact computeResponses_eq nonempty size (by omega) stageFn
    · have none : currentNumThreads - 1 = 0 := by omega
      apply iff_of_false _ fun enough => two (enough rfl)
      intro ran
      rw [workerResponses, if_pos rfl, none] at ran
      cases ran

theorem twoThreads_respond : workerResponses true 2 [3, 4] [10, 20] (· + ·) = .ok [13, 24] := by
  have nonempty : [3, 4] ≠ [] := List.cons_ne_nil _ _
  have size : [3, 4].length = [10, 20].length := rfl
  exact (workerResponses_iff (by decide) nonempty size (· + ·)).mpr fun _ => Nat.le_refl 2

/-- With one thread the worker divides by zero. -/
theorem oneThread_panics :
    workerResponses true 1 [3] [10] (· + ·) = panicWith "attempt to divide by zero" := rfl

end ParallelResponses
