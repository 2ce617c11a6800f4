import Hekaton.CPGroth16
import Hekaton.Packing

/-!
# Requests and responses between nodes

The coordinator writes each worker's requests as one vector of references, scatters the
packed vectors and gathers vectors of responses of the default's size. The codecs of field
elements, points, paths, roots and circuit parameters belong to other libraries. A worker
reads its own requests, and the coordinator reads all responses in the order of workers.
-/

namespace Transport

open Outcomes Codecs Packing CPGroth16

inductive TranscriptEntry (F : Type) where
  | rom (addr : UInt64) (val : F)
  | ram (addr : UInt64) (val : F) (i : List Bool) (read : Bool)

inductive RunningEvaluation (F : Type) where
  | rom (timeOrderedEval addrOrderedEval : F) (challenges : Option (F × F))
  | ram (timeOrderedEval addrOrderedEval : F) (challenges : Option (F × F × F × F))

structure ExecTreeLeaf (F : Type) where
  evals : RunningEvaluation F
  lastSubtraceEntry : TranscriptEntry F

structure Stage0RequestRef (F : Type) where
  subcircuitIdx : UInt64
  timeOrderedSubtrace : List (TranscriptEntry F)
  addrOrderedSubtrace : List (TranscriptEntry F)

structure Stage0Request (F : Type) where
  subcircuitIdx : UInt64
  timeOrderedSubtrace : List (TranscriptEntry F)
  addrOrderedSubtrace : List (TranscriptEntry F)

structure Stage1RequestRef (F Path Root Params : Type) where
  subcircuitIdx : UInt64
  curLeaf : ExecTreeLeaf F
  nextLeafMembership : Path
  root : Root
  serializedWitnesses : List UInt8
  circParams : Params

structure Stage1Request (F Path Root Params : Type) where
  subcircuitIdx : UInt64
  curLeaf : ExecTreeLeaf F
  nextLeafMembership : Path
  root : Root
  serializedWitnesses : List UInt8
  circParams : Params

structure Stage0Response (G₁ : Type) where
  subcircuitIdx : UInt64
  com : G₁
  comSeed : Vector UInt8 32

structure Stage1Response (G₁ G₂ : Type) where
  subcircuitIdx : UInt64
  proof : Proof G₁ G₂

section Defaults
variable {F Path Root Params G₁ G₂ : Type}

def Stage0RequestRef.toOwned (req : Stage0RequestRef F) : Stage0Request F :=
  ⟨req.subcircuitIdx, req.timeOrderedSubtrace, req.addrOrderedSubtrace⟩

def Stage1RequestRef.toOwned (req : Stage1RequestRef F Path Root Params) :
    Stage1Request F Path Root Params :=
  ⟨req.subcircuitIdx, req.curLeaf, req.nextLeafMembership, req.root, req.serializedWitnesses,
    req.circParams⟩

def Stage0Response.default [Inhabited G₁] : Stage0Response G₁ :=
  ⟨0, Inhabited.default, Vector.replicate 32 0⟩

/-- The default proof has one commitment. -/
def Stage1Response.default [Inhabited G₁] [Inhabited G₂] : Stage1Response G₁ G₂ :=
  ⟨0, ⟨Inhabited.default, Inhabited.default, Inhabited.default, [Inhabited.default]⟩⟩

end Defaults

/-- The codecs of the types of other libraries. -/
structure LeafCodecs (F Path Root Params G₁ G₂ : Type) where
  scalar : Codec F
  path : Codec Path
  root : Codec Root
  params : Codec Params
  g1 : Codec G₁
  g2 : Codec G₂

/-- Values are read back, and all uncompressed points of a curve take the same bytes. -/
structure LeafCodecs.Lawful {F Path Root Params G₁ G₂ : Type}
    (codecs : LeafCodecs F Path Root Params G₁ G₂) : Prop where
  scalar : codecs.scalar.Lawful
  path : codecs.path.Lawful
  root : codecs.root.Lawful
  params : codecs.params.Lawful
  g1 : codecs.g1.Lawful
  g2 : codecs.g2.Lawful
  g1_sized : ∃ size, codecs.g1.Sized size
  g2_sized : ∃ size, codecs.g2.Sized size

section Codecs
variable {F Path Root Params G₁ G₂ : Type}

section Scalars
variable (scalar : Codec F)

def TranscriptEntry.serialize : TranscriptEntry F → List UInt8
  | .rom addr val => [0] ++ (writeU64 addr ++ scalar.serialize val)
  | .ram addr val i read => [1] ++ (writeU64 addr ++ (scalar.serialize val ++
      (writeVec writeBool i ++ writeBool read)))

def TranscriptEntry.deserialize : Reader (TranscriptEntry F) := do
  let tag ← readU8
  if tag = 0 then do
    let addr ← readU64
    let val ← scalar.deserialize
    pure (.rom addr val)
  else if tag = 1 then do
    let addr ← readU64
    let val ← scalar.deserialize
    let i ← readVec readBool
    let read ← readBool
    pure (.ram addr val i read)
  else throw .invalidData

def writePair (c : F × F) : List UInt8 := scalar.serialize c.1 ++ scalar.serialize c.2

def readPair : Reader (F × F) := do
  let c₀ ← scalar.deserialize
  let c₁ ← scalar.deserialize
  pure (c₀, c₁)

def writeQuadruple (c : F × F × F × F) : List UInt8 :=
  scalar.serialize c.1 ++ (scalar.serialize c.2.1 ++ (scalar.serialize c.2.2.1 ++
    scalar.serialize c.2.2.2))

def readQuadruple : Reader (F × F × F × F) := do
  let c₀ ← scalar.deserialize
  let c₁ ← scalar.deserialize
  let c₂ ← scalar.deserialize
  let c₃ ← scalar.deserialize
  pure (c₀, c₁, c₂, c₃)

def RunningEvaluation.serialize : RunningEvaluation F → List UInt8
  | .rom time addr challenges => [0] ++ (scalar.serialize time ++ (scalar.serialize addr ++
      writeOption (writePair scalar) challenges))
  | .ram time addr challenges => [1] ++ (scalar.serialize time ++ (scalar.serialize addr ++
      writeOption (writeQuadruple scalar) challenges))

def RunningEvaluation.deserialize : Reader (RunningEvaluation F) := do
  let tag ← readU8
  if tag = 0 then do
    let time ← scalar.deserialize
    let addr ← scalar.deserialize
    let challenges ← readOption (readPair scalar)
    pure (.rom time addr challenges)
  else if tag = 1 then do
    let time ← scalar.deserialize
    let addr ← scalar.deserialize
    let challenges ← readOption (readQuadruple scalar)
    pure (.ram time addr challenges)
  else throw .invalidData

def ExecTreeLeaf.serialize (leaf : ExecTreeLeaf F) : List UInt8 :=
  leaf.evals.serialize scalar ++ leaf.lastSubtraceEntry.serialize scalar

def ExecTreeLeaf.deserialize : Reader (ExecTreeLeaf F) := do
  let evals ← RunningEvaluation.deserialize scalar
  let lastSubtraceEntry ← TranscriptEntry.deserialize scalar
  pure ⟨evals, lastSubtraceEntry⟩

def Stage0RequestRef.serialize (req : Stage0RequestRef F) : List UInt8 :=
  writeU64 req.subcircuitIdx ++ (writeVec (TranscriptEntry.serialize scalar)
    req.timeOrderedSubtrace ++ writeVec (TranscriptEntry.serialize scalar) req.addrOrderedSubtrace)

def Stage0Request.deserialize : Reader (Stage0Request F) := do
  let subcircuitIdx ← readU64
  let timeOrderedSubtrace ← readVec (TranscriptEntry.deserialize scalar)
  let addrOrderedSubtrace ← readVec (TranscriptEntry.deserialize scalar)
  pure ⟨subcircuitIdx, timeOrderedSubtrace, addrOrderedSubtrace⟩

end Scalars

variable (codecs : LeafCodecs F Path Root Params G₁ G₂)

def Stage1RequestRef.serialize (req : Stage1RequestRef F Path Root Params) : List UInt8 :=
  writeU64 req.subcircuitIdx ++ (req.curLeaf.serialize codecs.scalar ++
    (codecs.path.serialize req.nextLeafMembership ++ (codecs.root.serialize req.root ++
      (writeVec (fun byte => [byte]) req.serializedWitnesses ++
        codecs.params.serialize req.circParams))))

def Stage1Request.deserialize : Reader (Stage1Request F Path Root Params) := do
  let subcircuitIdx ← readU64
  let curLeaf ← ExecTreeLeaf.deserialize codecs.scalar
  let nextLeafMembership ← codecs.path.deserialize
  let root ← codecs.root.deserialize
  let serializedWitnesses ← readVec readU8
  let circParams ← codecs.params.deserialize
  pure ⟨subcircuitIdx, curLeaf, nextLeafMembership, root, serializedWitnesses, circParams⟩

def Stage0Response.serialize (resp : Stage0Response G₁) : List UInt8 :=
  writeU64 resp.subcircuitIdx ++ (codecs.g1.serialize resp.com ++ resp.comSeed.toList)

def readSeed : Reader (Vector UInt8 32) := do
  let bytes ← readExact 32
  pure (Vector.ofFn fun i => bytes.getD i 0)

def Stage0Response.deserialize : Reader (Stage0Response G₁) := do
  let subcircuitIdx ← readU64
  let com ← codecs.g1.deserialize
  let comSeed ← readSeed
  pure ⟨subcircuitIdx, com, comSeed⟩

def Stage1Response.serialize (resp : Stage1Response G₁ G₂) : List UInt8 :=
  writeU64 resp.subcircuitIdx ++ (codecs.g1.serialize resp.proof.a ++
    (codecs.g2.serialize resp.proof.b ++ (codecs.g1.serialize resp.proof.c ++
      writeVec codecs.g1.serialize resp.proof.ds)))

def Stage1Response.deserialize : Reader (Stage1Response G₁ G₂) := do
  let subcircuitIdx ← readU64
  let a ← codecs.g1.deserialize
  let b ← codecs.g2.deserialize
  let c ← codecs.g1.deserialize
  let ds ← readVec codecs.g1.deserialize
  pure ⟨subcircuitIdx, ⟨a, b, c, ds⟩⟩

end Codecs

section Sending
variable {α β : Type}

/-- `deserialize_uncompressed_unchecked(..).unwrap()` of a vector; what is left over is ignored. -/
def deserialized (read : Reader α) (bytes : List UInt8) : Outcome (List α) :=
  match (readVec read).run bytes with
  | .ok (values, _) => .ok values
  | .error _ => panicWith "called `Result::unwrap()` on an `Err` value"

/-- The packed vector of each worker's requests, partitioned. -/
def scatterRequests (overflowChecks : Bool) (write : α → List UInt8) (requests : List (List α)) :
    Outcome (Partition Packed) :=
  partitionForScatter overflowChecks (requests.map fun chunk => packBytes (writeVec write chunk))

/-- Take the size and then that many blocks from the coordinator. -/
def receiveRequests (read : Reader α) (partition : Partition Packed) (rank : Nat) :
    Outcome (List α) := do
  let size ← expect invalidCount partition.counts[rank]?
  if size < 0 then panicWith "capacity overflow"
  let requestSer ← partition.part rank
  deserialized read (packedToBytes requestSer)

/-- Gather what each rank but the root sends, and cut it by the size of the default. -/
def gatherResponses (overflowChecks : Bool) (write : α → List UInt8) (read : Reader α)
    (size : Nat) (defaultResponse : List α) (responses : List (List α)) :
    Outcome (List (List α)) := do
  let itemSize := (writeVec write defaultResponse).length
  let partition ← partitionForGather overflowChecks size itemSize
  let responseBytes ← partition.gather ([] :: responses.map (writeVec write))
  (chunksExact itemSize responseBytes).mapM (deserialized read)

/-- The blocks that all workers are sent. -/
def packets (write : α → List UInt8) (requests : List (List α)) : Nat :=
  (requests.map fun chunk => (packBytes (writeVec write chunk)).length).sum

/-- The bytes that all workers send. -/
def responseBytes (write : α → List UInt8) (responses : List (List α)) : Nat :=
  (responses.map fun chunk => (writeVec write chunk).length).sum

end Sending

section Reading
variable {F Path Root Params G₁ G₂ : Type} {scalar : Codec F}

theorem reads_transcriptEntry (lawful : scalar.Lawful) {e : TranscriptEntry F}
    (short : (e.serialize scalar).length < 2 ^ 64) :
    Reads (TranscriptEntry.deserialize scalar) (e.serialize scalar) e := by
  cases e with
  | rom addr val =>
    exact (reads_u8 0).bind ((reads_u64 addr).bind ((lawful val).bind_pure rfl))
  | ram addr val i read =>
    have bits : i.length ≤ (writeVec writeBool i).length :=
      length_le_writeVec fun b _ => Nat.one_pos
    have total : (writeVec writeBool i).length ≤
        ((TranscriptEntry.ram addr val i read).serialize scalar).length := by
      simp only [TranscriptEntry.serialize, List.length_append]
      omega
    have vec := reads_vec (by omega) fun b (_ : b ∈ i) => reads_bool b
    exact (reads_u8 1).bind ((reads_u64 addr).bind ((lawful val).bind (vec.bind
      ((reads_bool read).bind_pure rfl))))

theorem reads_pair (lawful : scalar.Lawful) (c : F × F) :
    Reads (readPair scalar) (writePair scalar c) c :=
  (lawful c.1).bind ((lawful c.2).bind_pure rfl)

theorem reads_quadruple (lawful : scalar.Lawful) (c : F × F × F × F) :
    Reads (readQuadruple scalar) (writeQuadruple scalar c) c :=
  (lawful c.1).bind ((lawful c.2.1).bind ((lawful c.2.2.1).bind
    ((lawful c.2.2.2).bind_pure rfl)))

theorem reads_runningEvaluation (lawful : scalar.Lawful) (evals : RunningEvaluation F) :
    Reads (RunningEvaluation.deserialize scalar) (evals.serialize scalar) evals := by
  cases evals with
  | rom time addr challenges =>
    have pair := reads_option challenges fun c _ => reads_pair lawful c
    exact (reads_u8 0).bind ((lawful time).bind ((lawful addr).bind (pair.bind_pure rfl)))
  | ram time addr challenges =>
    have quadruple := reads_option challenges fun c _ => reads_quadruple lawful c
    exact (reads_u8 1).bind ((lawful time).bind ((lawful addr).bind (quadruple.bind_pure rfl)))

theorem reads_execTreeLeaf (lawful : scalar.Lawful) (leaf : ExecTreeLeaf F)
    (short : (leaf.serialize scalar).length < 2 ^ 64) :
    Reads (ExecTreeLeaf.deserialize scalar) (leaf.serialize scalar) leaf := by
  have entry : (leaf.lastSubtraceEntry.serialize scalar).length < 2 ^ 64 := by
    rw [ExecTreeLeaf.serialize, List.length_append] at short
    omega
  exact (reads_runningEvaluation lawful leaf.evals).bind
    ((reads_transcriptEntry lawful entry).bind_pure rfl)

/-- A subtrace is read back when its bytes are few. -/
theorem reads_subtrace (lawful : scalar.Lawful) (subtrace : List (TranscriptEntry F))
    (short : (writeVec (TranscriptEntry.serialize scalar) subtrace).length < 2 ^ 64) :
    Reads (readVec (TranscriptEntry.deserialize scalar))
      (writeVec (TranscriptEntry.serialize scalar) subtrace) subtrace := by
  have nonempty : ∀ e : TranscriptEntry F, 0 < (e.serialize scalar).length := by
    intro e
    cases e <;> exact Nat.succ_pos _
  have entries : subtrace.length ≤ _ := length_le_writeVec fun e _ => nonempty e
  refine reads_vec (by omega) fun e member => reads_transcriptEntry lawful ?_
  have entry : (e.serialize scalar).length ≤ _ := length_write_le member
  omega

/-- The owned request is read from the reference's bytes. -/
theorem reads_stage0Request (lawful : scalar.Lawful) {req : Stage0RequestRef F}
    (short : (req.serialize scalar).length < 2 ^ 64) :
    Reads (Stage0Request.deserialize scalar) (req.serialize scalar) req.toOwned := by
  rw [Stage0RequestRef.serialize, List.length_append, List.length_append] at short
  have time := reads_subtrace lawful req.timeOrderedSubtrace (by omega)
  have addr := reads_subtrace lawful req.addrOrderedSubtrace (by omega)
  exact (reads_u64 _).bind (time.bind (addr.bind_pure rfl))

variable {codecs : LeafCodecs F Path Root Params G₁ G₂}

theorem reads_stage1Request (lawful : codecs.Lawful) {req : Stage1RequestRef F Path Root Params}
    (short : (req.serialize codecs).length < 2 ^ 64) :
    Reads (Stage1Request.deserialize codecs) (req.serialize codecs) req.toOwned := by
  simp only [Stage1RequestRef.serialize, List.length_append] at short
  have leaf := reads_execTreeLeaf lawful.scalar req.curLeaf (by omega)
  have bytes : req.serializedWitnesses.length ≤
      (writeVec (fun byte : UInt8 => [byte]) req.serializedWitnesses).length :=
    length_le_writeVec fun _ _ => Nat.one_pos
  have witnesses := reads_vec (by omega) fun byte (_ : byte ∈ req.serializedWitnesses) =>
    reads_u8 byte
  exact (reads_u64 _).bind (leaf.bind ((lawful.path _).bind ((lawful.root _).bind
    (witnesses.bind ((lawful.params _).bind_pure rfl)))))

theorem reads_seed (seed : Vector UInt8 32) : Reads readSeed seed.toList seed := by
  have same : (Vector.ofFn fun i : Fin 32 => seed.toList.getD i 0) = seed := by
    ext i inside
    simp
  refine (reads_exact (by simp)).bind_pure ?_
  rw [same]

theorem reads_stage0Response (lawful : codecs.Lawful) (resp : Stage0Response G₁) :
    Reads (Stage0Response.deserialize codecs) (resp.serialize codecs) resp :=
  (reads_u64 _).bind ((lawful.g1 _).bind ((reads_seed _).bind_pure rfl))

theorem reads_stage1Response (lawful : codecs.Lawful) {resp : Stage1Response G₁ G₂}
    (short : resp.proof.ds.length < 2 ^ 64) :
    Reads (Stage1Response.deserialize codecs) (resp.serialize codecs) resp := by
  have ds := reads_vec short fun d (_ : d ∈ resp.proof.ds) => lawful.g1 d
  exact (reads_u64 _).bind ((lawful.g1 _).bind ((lawful.g2 _).bind ((lawful.g1 _).bind
    (ds.bind_pure rfl))))

end Reading

section Delivery
variable {α β : Type} {write : α → List UInt8}

/-- What follows a vector is ignored. -/
theorem deserialized_eq {read : Reader β} {own : α → β} {l : List α} (short : l.length < 2 ^ 64)
    (each : ∀ a ∈ l, Reads read (write a) (own a)) (rest : List UInt8) :
    deserialized read (writeVec write l ++ rest) = .ok (l.map own) := by
  rw [deserialized, reads_vec_map short each rest]

/-- Each worker is sent its requests. -/
theorem scatterRequests_delivers (overflowChecks : Bool) {read : Reader β} {own : α → β}
    {requests : List (List α)} (nonempty : ∀ a, 0 < (write a).length)
    (each : ∀ a, (write a).length < 2 ^ 64 → Reads read (write a) (own a))
    (small : packets write requests < 2 ^ 31) :
    ∃ partition, scatterRequests overflowChecks write requests = .ok partition ∧
      ∀ j chunk, requests[j]? = some chunk →
        receiveRequests read partition (j + 1) = .ok (chunk.map own) := by
  have total : (requests.map fun chunk => packBytes (writeVec write chunk)).flatten.length =
      packets write requests := by
    rw [List.length_flatten, List.map_map]
    rfl
  obtain ⟨partition, scattered, parts⟩ := scatter_delivers overflowChecks (total ▸ small)
  refine ⟨partition, scattered, fun j chunk found => ?_⟩
  obtain ⟨count, part⟩ := parts j (packBytes (writeVec write chunk)) (by
    rw [List.getElem?_map, found, Option.map_some])
  obtain ⟨zeros, padded⟩ := packedToBytes_packBytes (writeVec write chunk)
  have blocks : (packBytes (writeVec write chunk)).length ≤ packets write requests :=
    List.single_le_sum (fun n _ => Nat.zero_le n) _
      (List.mem_map_of_mem (List.mem_of_getElem? found))
  have bytes : (writeVec write chunk).length < 2 ^ 64 := by
    rw [packBytes_length] at blocks
    omega
  have elements : chunk.length ≤ (writeVec write chunk).length :=
    length_le_writeVec fun a _ => nonempty a
  have received := deserialized_eq (by omega)
    (fun a member => each a ((length_write_le member).trans_lt bytes)) (List.replicate zeros 0)
  have size : ¬ ((packBytes (writeVec write chunk)).length : Count) < 0 :=
    Int.not_lt.mpr (Int.natCast_nonneg _)
  rw [receiveRequests, count, expect_some, ok_bind, if_neg size, part]
  change deserialized read (packedToBytes (packBytes (writeVec write chunk))) = _
  rw [padded, received]

/-- Each worker's vector is read back whole. -/
theorem deserialized_each {read : Reader α} {responses : List (List α)}
    (nonempty : ∀ chunk ∈ responses, ∀ resp ∈ chunk, 0 < (write resp).length)
    (each : ∀ chunk ∈ responses, ∀ resp ∈ chunk, Reads read (write resp) resp)
    (small : responseBytes write responses < 2 ^ 31) {chunk : List α} (member : chunk ∈ responses) :
    deserialized read (writeVec write chunk) = .ok chunk := by
  have bytes : (writeVec write chunk).length ≤ responseBytes write responses :=
    List.single_le_sum (fun n _ => Nat.zero_le n) _ (List.mem_map_of_mem member)
  have elements : chunk.length ≤ (writeVec write chunk).length :=
    length_le_writeVec (nonempty chunk member)
  have whole := deserialized_eq (by omega) (each chunk member) []
  rwa [List.append_nil, List.map_id'] at whole

/-- Responses of the default's size are gathered in the order of the workers. -/
theorem gatherResponses_joins (overflowChecks : Bool) {read : Reader α} {size perWorker : Nat}
    {default : α} {responses : List (List α)} (nonempty : 0 < size)
    (defaultSize : (write default).length = size)
    (counts : ∀ chunk ∈ responses, chunk.length = perWorker)
    (sizes : ∀ chunk ∈ responses, ∀ resp ∈ chunk, (write resp).length = size)
    (each : ∀ chunk ∈ responses, ∀ resp ∈ chunk, Reads read (write resp) resp)
    (small : responseBytes write responses < 2 ^ 31) :
    gatherResponses overflowChecks write read (responses.length + 1)
      (List.replicate perWorker default) responses = .ok responses := by
  have item : (writeVec write (List.replicate perWorker default)).length = 8 + perWorker * size := by
    rw [writeVec_length_const (fun resp member => ?_), List.length_replicate]
    rw [List.eq_of_mem_replicate member, defaultSize]
  have sent : ∀ bytes ∈ responses.map (writeVec write), bytes.length = 8 + perWorker * size := by
    intro bytes member
    obtain ⟨chunk, here, rfl⟩ := List.mem_map.mp member
    rw [writeVec_length_const (sizes chunk here), counts chunk here]
  have total : (responses.map (writeVec write)).length * (8 + perWorker * size) =
      responseBytes write responses := by
    rw [responseBytes, List.length_map, List.map_congr_left fun chunk here => sent _
      (List.mem_map_of_mem here), List.map_const', List.sum_replicate, Nat.nsmul_eq_mul]
  obtain ⟨partition, made, joined⟩ := gather_joins overflowChecks sent (total ▸ small)
  rw [List.length_map] at made
  rw [gatherResponses, item, made, ok_bind, joined, ok_bind, chunksExact_flatten (by omega) sent]
  rw [List.mapM_map]
  refine (mapM_eq_ok (g := id) fun chunk member => ?_).trans (by rw [List.map_id])
  rw [Function.comp_apply, id_eq]
  refine deserialized_each (fun chunk here resp inside => ?_) each small member
  rw [sizes chunk here resp inside]
  exact nonempty

/-- Requests in chunks of one size: worker `j` reads chunk `j`. -/
theorem scatter_chunks (overflowChecks : Bool) {read : Reader β} {own : α → β} {requests : List α}
    {perWorker w : Nat} (positive : 0 < perWorker) (size : requests.length = perWorker * w)
    (nonempty : ∀ a, 0 < (write a).length)
    (each : ∀ a, (write a).length < 2 ^ 64 → Reads read (write a) (own a))
    (small : packets write (chunks perWorker requests) < 2 ^ 31) :
    ∃ partition, scatterRequests overflowChecks write (chunks perWorker requests) =
        .ok partition ∧
      ∀ j < w, receiveRequests read partition (j + 1) =
        .ok (((requests.drop (perWorker * j)).take perWorker).map own) := by
  obtain ⟨partition, scattered, received⟩ :=
    scatterRequests_delivers overflowChecks nonempty each small
  refine ⟨partition, scattered, fun j inside => received j _ ?_⟩
  rw [chunks_of_length positive size, List.getElem?_map, List.getElem?_range inside,
    Option.map_some]

end Delivery

section Nodes
variable {F Path Root Params G₁ G₂ : Type} {codecs : LeafCodecs F Path Root Params G₁ G₂}

theorem stage0Request_nonempty (scalar : Codec F) (req : Stage0RequestRef F) :
    0 < (req.serialize scalar).length := by
  rw [Stage0RequestRef.serialize, List.length_append, writeU64, littleEndian_length]
  omega

theorem stage1Request_nonempty (req : Stage1RequestRef F Path Root Params) :
    0 < (req.serialize codecs).length := by
  rw [Stage1RequestRef.serialize, List.length_append, writeU64, littleEndian_length]
  omega

theorem stage0Response_length {size : Nat} (sized : codecs.g1.Sized size)
    (resp : Stage0Response G₁) : (resp.serialize codecs).length = 8 + (size + 32) := by
  rw [Stage0Response.serialize, List.length_append, List.length_append, writeU64,
    littleEndian_length, sized, Vector.length_toList]

/-- A response whose proof has one commitment. -/
theorem stage1Response_length {size size' : Nat} (sized : codecs.g1.Sized size)
    (sized' : codecs.g2.Sized size') {resp : Stage1Response G₁ G₂}
    (single : resp.proof.ds.length = 1) :
    (resp.serialize codecs).length = 8 + (size + (size' + (size + (8 + size)))) := by
  simp only [Stage1Response.serialize, List.length_append, writeU64, littleEndian_length,
    sized _, sized' _, writeVec_length_const fun d (_ : d ∈ resp.proof.ds) => sized d, single,
    Nat.one_mul]

variable [Inhabited G₁] [Inhabited G₂]

/-- Both scatters give each worker its chunk, and both gathers give the coordinator all
responses, when the packets scattered and the bytes gathered are counted in 31 bits. -/
theorem transport_exact (lawful : codecs.Lawful) (overflowChecks : Bool) {w n : Nat}
    (positive : 0 < n) (divides : n / w * w = n) :
    (∀ requests : List (Stage0RequestRef F), requests.length = n →
      packets (Stage0RequestRef.serialize codecs.scalar) (chunks (n / w) requests) < 2 ^ 31 →
      ∃ partition, scatterRequests overflowChecks (Stage0RequestRef.serialize codecs.scalar)
          (chunks (n / w) requests) = .ok partition ∧
        ∀ j < w, receiveRequests (Stage0Request.deserialize codecs.scalar) partition (j + 1) =
          .ok (((requests.drop (n / w * j)).take (n / w)).map Stage0RequestRef.toOwned)) ∧
    (∀ requests : List (Stage1RequestRef F Path Root Params), requests.length = n →
      packets (Stage1RequestRef.serialize codecs) (chunks (n / w) requests) < 2 ^ 31 →
      ∃ partition, scatterRequests overflowChecks (Stage1RequestRef.serialize codecs)
          (chunks (n / w) requests) = .ok partition ∧
        ∀ j < w, receiveRequests (Stage1Request.deserialize codecs) partition (j + 1) =
          .ok (((requests.drop (n / w * j)).take (n / w)).map Stage1RequestRef.toOwned)) ∧
    (∀ responses : List (List (Stage0Response G₁)), responses.length = w →
      (∀ chunk ∈ responses, chunk.length = n / w) →
      responseBytes (Stage0Response.serialize codecs) responses < 2 ^ 31 →
      gatherResponses overflowChecks (Stage0Response.serialize codecs)
        (Stage0Response.deserialize codecs) (w + 1) (List.replicate (n / w) .default) responses =
          .ok responses) ∧
    (∀ responses : List (List (Stage1Response G₁ G₂)), responses.length = w →
      (∀ chunk ∈ responses, chunk.length = n / w) →
      (∀ chunk ∈ responses, ∀ resp ∈ chunk, resp.proof.ds.length = 1) →
      responseBytes (Stage1Response.serialize codecs) responses < 2 ^ 31 →
      gatherResponses overflowChecks (Stage1Response.serialize codecs)
        (Stage1Response.deserialize codecs) (w + 1) (List.replicate (n / w) .default) responses =
          .ok responses) := by
  have perWorker : 0 < n / w := by
    rcases Nat.eq_zero_or_pos (n / w) with none | some
    · rw [none, Nat.zero_mul] at divides
      omega
    · exact some
  obtain ⟨size, sized⟩ := lawful.g1_sized
  obtain ⟨size', sized'⟩ := lawful.g2_sized
  refine ⟨?_, ?_, ?_, ?_⟩
  · intro requests count small
    exact scatter_chunks overflowChecks perWorker (count.trans divides.symm)
      (stage0Request_nonempty codecs.scalar)
      (fun req short => reads_stage0Request lawful.scalar short) small
  · intro requests count small
    exact scatter_chunks overflowChecks perWorker (count.trans divides.symm)
      stage1Request_nonempty (fun req short => reads_stage1Request lawful short) small
  · rintro responses rfl counts small
    exact gatherResponses_joins overflowChecks (by omega) (stage0Response_length sized _) counts
      (fun _ _ resp _ => stage0Response_length sized resp)
      (fun _ _ resp _ => reads_stage0Response lawful resp) small
  · rintro responses rfl counts single small
    refine gatherResponses_joins overflowChecks (by omega) (stage1Response_length sized sized' rfl)
      counts (fun chunk here resp inside => ?_) (fun chunk here resp inside => ?_) small
    · exact stage1Response_length sized sized' (single chunk here resp inside)
    · exact reads_stage1Response lawful (by rw [single chunk here resp inside]; omega)

end Nodes

/-- Scalars of eight bytes, and other types of one value and the usual sizes. -/
def plainCodecs : LeafCodecs UInt64 Unit Unit Unit Unit Unit where
  scalar := ⟨writeU64, readU64⟩
  path := .zeros () 48
  root := .zeros () 32
  params := .zeros () 0
  g1 := .zeros () 96
  g2 := .zeros () 192

theorem plainCodecs_lawful : plainCodecs.Lawful where
  scalar := reads_u64
  path := Codec.zeros_lawful () 48
  root := Codec.zeros_lawful () 32
  params := Codec.zeros_lawful () 0
  g1 := Codec.zeros_lawful () 96
  g2 := Codec.zeros_lawful () 192
  g1_sized := ⟨96, Codec.zeros_sized () 96⟩
  g2_sized := ⟨192, Codec.zeros_sized () 192⟩

/-- One request with a read, one without. -/
def plainRequests : List (Stage0RequestRef UInt64) :=
  [⟨0, [.ram 1 5 (List.replicate 32 false) true], [.rom 2 6]⟩, ⟨1, [], []⟩]

theorem plainRequests_delivered : ∃ partition,
    scatterRequests true (Stage0RequestRef.serialize plainCodecs.scalar)
      (chunks 1 plainRequests) = .ok partition ∧
    receiveRequests (Stage0Request.deserialize plainCodecs.scalar) partition 1 =
      .ok [⟨0, [.ram 1 5 (List.replicate 32 false) true], [.rom 2 6]⟩] ∧
    receiveRequests (Stage0Request.deserialize plainCodecs.scalar) partition 2 =
      .ok [⟨1, [], []⟩] := by
  obtain ⟨partition, scattered, received⟩ := (transport_exact (w := 2) plainCodecs_lawful true
    (by decide) (by decide)).1 plainRequests rfl (by decide +kernel)
  exact ⟨partition, scattered, received 0 (by decide), received 1 (by decide)⟩

/-- A chunk of equal values. -/
theorem packets_replicate {α : Type} (write : α → List UInt8) {n : Nat} (positive : 0 < n) (a : α) :
    packets write (chunks n (List.replicate n a)) =
      (8 + n * (write a).length + 255) / 256 := by
  have whole : (List.replicate n a).length = n * 1 := by
    rw [List.length_replicate, Nat.mul_one]
  have bytes : (writeVec write (List.replicate n a)).length = 8 + n * (write a).length := by
    rw [writeVec_length_const fun b member => ?_, List.length_replicate]
    rw [List.eq_of_mem_replicate member]
  rw [chunks_of_length positive whole, List.range_one, List.map_singleton, packets,
    List.map_singleton, List.sum_singleton, Nat.mul_zero, List.drop_zero, List.take_replicate,
    Nat.min_self, packBytes_length, bytes]

/-- The responses of `2 ^ 23` subcircuits of one worker: the requests are few packets, but
the bytes gathered are no count. -/
theorem manyResponses_lost :
    packets (Stage0RequestRef.serialize plainCodecs.scalar)
      (chunks (2 ^ 23) (List.replicate (2 ^ 23) ⟨0, [], []⟩)) < 2 ^ 31 ∧
    packets (Stage1RequestRef.serialize plainCodecs) (chunks (2 ^ 23) (List.replicate (2 ^ 23)
      ⟨0, ⟨.rom 1 1 (some (2, 3)), .rom 0 0⟩, (), (), [], ()⟩)) < 2 ^ 31 ∧
    ∀ overflowChecks gathered, gatherResponses overflowChecks (Stage1Response.serialize plainCodecs)
      (Stage1Response.deserialize plainCodecs) 2 (List.replicate (2 ^ 23) .default)
      [List.replicate (2 ^ 23) .default] ≠ .ok gathered := by
  refine ⟨?_, ?_, fun overflowChecks gathered ran => ?_⟩
  · have size : (Stage0RequestRef.serialize plainCodecs.scalar ⟨0, [], []⟩).length = 24 := by
      decide +kernel
    rw [packets_replicate _ (Nat.two_pow_pos 23), size]
    omega
  · have size : (Stage1RequestRef.serialize plainCodecs
        ⟨0, ⟨.rom 1 1 (some (2, 3)), .rom 0 0⟩, (), (), [], ()⟩).length = 147 := by
      decide +kernel
    rw [packets_replicate _ (Nat.two_pow_pos 23), size]
    omega
  · obtain ⟨partition, made, _⟩ := bind_eq_ok.mp ran
    refine partitionForGather_overflow overflowChecks ?_ made
    have size : ∀ resp ∈ List.replicate (2 ^ 23) Stage1Response.default,
        (Stage1Response.serialize plainCodecs resp).length = 496 := by
      intro resp member
      rw [List.eq_of_mem_replicate member]
      decide +kernel
    rw [writeVec_length_const size, List.length_replicate]
    omega

end Transport
