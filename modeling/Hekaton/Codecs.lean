import Mathlib.Algebra.BigOperators.Group.List.Lemmas
import Mathlib.Algebra.Order.BigOperators.Group.List
import Mathlib.Tactic.Ring

/-!
# Codecs

Readers that consume a prefix of their input, and the bytes that the writers of the
integers, booleans, options and vectors leave for them. A reader reads some bytes as a
value when it returns the value and whatever follows the bytes. Vectors carry their length
in eight bytes.
-/

namespace Codecs

inductive SerializationError where
  | notEnoughSpace
  | invalidData
  | ioError
  deriving DecidableEq

abbrev Reader (α : Type) := StateT (List UInt8) (Except SerializationError) α

variable {α β : Type}

/-- The reader consumes these bytes and no more, whatever follows them. -/
def Reads (read : Reader α) (bytes : List UInt8) (a : α) : Prop :=
  ∀ rest, read.run (bytes ++ rest) = .ok (a, rest)

namespace Reads

theorem pure {a : α} : Reads (Pure.pure a) [] a := fun _ => rfl

theorem bind {read : Reader α} {next : α → Reader β} {bytes bytes' : List UInt8} {a : α} {b : β}
    (first : Reads read bytes a) (second : Reads (next a) bytes' b) :
    Reads (read >>= next) (bytes ++ bytes') b := by
  intro rest
  have step : (read >>= next).run (bytes ++ bytes' ++ rest) =
      (next a).run (bytes' ++ rest) := by
    rw [StateT.run_bind, List.append_assoc, first]
    rfl
  rw [step, second]

/-- A reader followed by a value made of what it read. -/
theorem bind_pure {read : Reader α} {next : α → Reader β} {bytes : List UInt8} {a : α} {b : β}
    (first : Reads read bytes a) (last : next a = Pure.pure b) : Reads (read >>= next) bytes b := by
  have both : Reads (read >>= next) (bytes ++ []) b := by
    refine first.bind ?_
    rw [last]
    exact .pure
  rwa [List.append_nil] at both

/-- The rest of the input is left over. -/
theorem run {read : Reader α} {bytes : List UInt8} {a : α} (reads : Reads read bytes a)
    (rest : List UInt8) : read.run (bytes ++ rest) = .ok (a, rest) :=
  reads rest

end Reads

/-- `read_exact` into a buffer of this size. -/
def readExact (n : Nat) : Reader (List UInt8) := fun input =>
  if input.length < n then .error .ioError else .ok (input.take n, input.drop n)

theorem reads_exact {n : Nat} {bytes : List UInt8} (size : bytes.length = n) :
    Reads (readExact n) bytes bytes := by
  intro rest
  have enough : ¬ (bytes ++ rest).length < n := by
    rw [List.length_append]
    omega
  change readExact n (bytes ++ rest) = _
  rw [readExact, if_neg enough, ← size, List.take_left, List.drop_left]

/-- The lowest bytes of a number, the lowest one first. -/
def littleEndian : Nat → Nat → List UInt8
  | 0, _ => []
  | k + 1, n => UInt8.ofNat n :: littleEndian k (n / 256)

def fromLittleEndian : List UInt8 → Nat
  | [] => 0
  | byte :: bytes => byte.toNat + 256 * fromLittleEndian bytes

@[simp] theorem littleEndian_length (k n : Nat) : (littleEndian k n).length = k := by
  induction k generalizing n with
  | zero => rfl
  | succ k ih => rw [littleEndian, List.length_cons, ih]

theorem fromLittleEndian_littleEndian {k n : Nat} (fits : n < 256 ^ k) :
    fromLittleEndian (littleEndian k n) = n := by
  induction k generalizing n with
  | zero =>
    have none : n = 0 := by
      rw [Nat.pow_zero] at fits
      omega
    rw [none]
    rfl
  | succ k ih =>
    have rest : n / 256 < 256 ^ k := by
      rw [Nat.pow_succ'] at fits
      exact Nat.div_lt_of_lt_mul fits
    rw [littleEndian, fromLittleEndian, ih rest, UInt8.toNat_ofNat']
    omega

theorem fromLittleEndian_lt (bytes : List UInt8) :
    fromLittleEndian bytes < 256 ^ bytes.length := by
  induction bytes with
  | nil => exact Nat.one_pos
  | cons byte bytes ih =>
    have low := byte.toNat_lt
    rw [fromLittleEndian, List.length_cons, Nat.pow_succ']
    omega

def writeU64 (n : UInt64) : List UInt8 := littleEndian 8 n.toNat

def readU64 : Reader UInt64 := do
  let bytes ← readExact 8
  pure (.ofNat (fromLittleEndian bytes))

theorem reads_u64 (n : UInt64) : Reads readU64 (writeU64 n) n := by
  have fits : n.toNat < 256 ^ 8 := n.toNat_lt
  have value : UInt64.ofNat (fromLittleEndian (writeU64 n)) = n := by
    rw [writeU64, fromLittleEndian_littleEndian fits, UInt64.ofNat_toNat]
  refine (reads_exact (littleEndian_length 8 n.toNat)).bind_pure ?_
  rw [← writeU64, value]

def readU8 : Reader UInt8 := do
  let bytes ← readExact 1
  pure (bytes.headD 0)

theorem reads_u8 (byte : UInt8) : Reads readU8 [byte] byte :=
  (reads_exact (n := 1) (List.length_singleton (a := byte))).bind_pure rfl

def writeBool (b : Bool) : List UInt8 := [if b then 1 else 0]

def readBool : Reader Bool := do
  let byte ← readU8
  if byte = 0 then pure false
  else if byte = 1 then pure true
  else throw .invalidData

theorem reads_bool (b : Bool) : Reads readBool (writeBool b) b := by
  cases b with
  | false => exact (reads_u8 0).bind_pure rfl
  | true => exact (reads_u8 1).bind_pure rfl

def writeOption (write : α → List UInt8) : Option α → List UInt8
  | none => writeBool false
  | some a => writeBool true ++ write a

def readOption (read : Reader α) : Reader (Option α) := do
  let isSome ← readBool
  if isSome then do
    let a ← read
    pure (some a)
  else pure none

theorem reads_option {read : Reader α} {write : α → List UInt8} (o : Option α)
    (each : ∀ a, o = some a → Reads read (write a) a) :
    Reads (readOption read) (writeOption write o) o := by
  cases o with
  | none => exact (reads_bool false).bind_pure rfl
  | some a => exact (reads_bool true).bind ((each a rfl).bind_pure rfl)

def writeVec (write : α → List UInt8) (l : List α) : List UInt8 :=
  writeU64 (.ofNat l.length) ++ l.flatMap write

def readMany (read : Reader α) : Nat → Reader (List α)
  | 0 => pure []
  | n + 1 => do
    let a ← read
    let rest ← readMany read n
    pure (a :: rest)

def readVec (read : Reader α) : Reader (List α) := do
  let n ← readU64
  readMany read n.toNat

/-- A vector of what is read for each element. -/
theorem reads_many {read : Reader β} {write : α → List UInt8} {f : α → β} {l : List α}
    (each : ∀ a ∈ l, Reads read (write a) (f a)) :
    Reads (readMany read l.length) (l.flatMap write) (l.map f) := by
  induction l with
  | nil => exact .pure
  | cons a l ih =>
    have rest := ih fun b member => each b (List.mem_cons_of_mem a member)
    exact (each a List.mem_cons_self).bind (rest.bind_pure rfl)

theorem reads_vec_map {read : Reader β} {write : α → List UInt8} {f : α → β} {l : List α}
    (short : l.length < 2 ^ 64) (each : ∀ a ∈ l, Reads read (write a) (f a)) :
    Reads (readVec read) (writeVec write l) (l.map f) := by
  refine (reads_u64 _).bind ?_
  rw [UInt64.toNat_ofNat_of_lt' short]
  exact reads_many each

theorem reads_vec {read : Reader α} {write : α → List UInt8} {l : List α}
    (short : l.length < 2 ^ 64) (each : ∀ a ∈ l, Reads read (write a) a) :
    Reads (readVec read) (writeVec write l) l := by
  have reads := reads_vec_map (f := id) short each
  rwa [List.map_id] at reads

theorem writeVec_length (write : α → List UInt8) (l : List α) :
    (writeVec write l).length = 8 + (l.map fun a => (write a).length).sum := by
  rw [writeVec, List.length_append, writeU64, littleEndian_length, List.length_flatMap]

/-- A vector takes the bytes of each of its elements. -/
theorem length_write_le {write : α → List UInt8} {l : List α} {a : α} (member : a ∈ l) :
    (write a).length ≤ (writeVec write l).length := by
  have one := List.single_le_sum (fun n _ => Nat.zero_le n) _
    (List.mem_map_of_mem (f := fun a => (write a).length) member)
  rw [writeVec_length]
  omega

/-- Where each element takes a byte, the elements are no more than the bytes. -/
theorem length_le_writeVec {write : α → List UInt8} {l : List α}
    (nonempty : ∀ a ∈ l, 0 < (write a).length) : l.length ≤ (writeVec write l).length := by
  have each : l.length ≤ (l.map fun a => (write a).length).sum := by
    have bound := List.card_nsmul_le_sum (l.map fun a => (write a).length) 1 (by
      intro n member
      obtain ⟨a, here, rfl⟩ := List.mem_map.mp member
      exact nonempty a here)
    rwa [List.length_map, Nat.nsmul_eq_mul, Nat.mul_one] at bound
  rw [writeVec_length]
  omega

theorem writeVec_length_const {write : α → List UInt8} {l : List α} {size : Nat}
    (constant : ∀ a ∈ l, (write a).length = size) :
    (writeVec write l).length = 8 + l.length * size := by
  rw [writeVec_length, List.map_congr_left constant, List.map_const', List.sum_replicate,
    Nat.nsmul_eq_mul]

structure Codec (α : Type) where
  serialize : α → List UInt8
  deserialize : Reader α

/-- A value is read from what was written for it. -/
def Codec.Lawful (codec : Codec α) : Prop :=
  ∀ a, Reads codec.deserialize (codec.serialize a) a

/-- Every value takes this many bytes. -/
def Codec.Sized (codec : Codec α) (size : Nat) : Prop :=
  ∀ a, (codec.serialize a).length = size

/-- A type of one value, written as zeros. -/
def Codec.zeros (a : α) (size : Nat) : Codec α where
  serialize _ := List.replicate size 0
  deserialize := do
    let _ ← readExact size
    pure a

theorem Codec.zeros_lawful [Subsingleton α] (a : α) (size : Nat) : (Codec.zeros a size).Lawful := by
  intro b
  cases Subsingleton.elim a b
  exact (reads_exact List.length_replicate).bind_pure rfl

theorem Codec.zeros_sized (a : α) (size : Nat) : (Codec.zeros a size).Sized size :=
  fun _ => List.length_replicate

/-- The values of a table, written as their keys. -/
def tableCodec (key : α → UInt8) (table : List α) : Codec α where
  serialize a := [key a]
  deserialize := do
    let byte ← readU8
    match table.find? fun a => key a == byte with
    | some a => pure a
    | none => throw .invalidData

theorem tableCodec_reads {key : α → UInt8} {table : List α}
    (distinct : (table.map key).Nodup) {a : α} (member : a ∈ table) :
    Reads (tableCodec key table).deserialize ((tableCodec key table).serialize a) a := by
  refine (reads_u8 _).bind_pure ?_
  cases found : table.find? fun b => key b == key a with
  | none => simpa using List.find?_eq_none.mp found a member
  | some b =>
    have same : key b = key a := by simpa using List.find?_some found
    rw [List.inj_on_of_nodup_map distinct (List.mem_of_find?_eq_some found) member same]

end Codecs
