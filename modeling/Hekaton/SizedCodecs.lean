import Hekaton.Codecs

/-!
# Codecs that announce their sizes

A codec writes a value in two modes, announces how many bytes that takes, and reads values
back with or without checking them. It is exact when it writes as many bytes as it announces
and consumes no fewer for the value that it reads. Vectors, maps and strings of exact codecs
are exact, also where the map that is read back has lost repeated keys.
-/

namespace SizedCodecs

open Codecs

inductive Compress where
  | yes
  | no
  deriving DecidableEq

inductive Validate where
  | yes
  | no
  deriving DecidableEq

/-- `CanonicalSerialize` and `CanonicalDeserialize` of a type. -/
structure Coding (α : Type) where
  write : Compress → α → List UInt8
  size : Compress → α → Nat
  read : Compress → Validate → Reader α

variable {α β : Type}

/-- The reader consumes at least this many bytes for what it returns. -/
def Consumes (read : Reader α) (size : α → Nat) : Prop :=
  ∀ input a rest, read.run input = .ok (a, rest) → rest.length + size a ≤ input.length

structure Coding.Exact (c : Coding α) : Prop where
  sized : ∀ mode a, (c.write mode a).length = c.size mode a
  consumes : ∀ mode validate, Consumes (c.read mode validate) (c.size mode)

namespace Consumes

theorem pure {a : α} {size : α → Nat} (none : size a = 0) : Consumes (Pure.pure a) size := by
  intro input b rest ran
  cases ran
  omega

/-- One reader after the other, where the second returns what the first one read as part of
its value. -/
theorem bind {read : Reader α} {next : α → Reader β} {size : α → Nat} {size' : β → Nat}
    (first : Consumes read size) (second : ∀ a, Consumes (next a) fun b => size' b - size a) :
    Consumes (read >>= next) size' := by
  intro input b rest ran
  rw [StateT.run_bind] at ran
  cases step : read.run input with
  | error fault =>
    rw [step] at ran
    cases ran
  | ok r =>
    rw [step] at ran
    have early := first input r.1 r.2 step
    have late : rest.length + (size' b - size r.1) ≤ r.2.length := second r.1 r.2 b rest ran
    omega

theorem mono {read : Reader α} {size size' : α → Nat} (consumes : Consumes read size)
    (less : ∀ a, size' a ≤ size a) : Consumes read size' := by
  intro input a rest ran
  have more := consumes input a rest ran
  have here := less a
  omega

/-- A reader that returns what is made of a value. -/
theorem bind_pure {read : Reader α} {f : α → β} {size : α → Nat} {size' : β → Nat}
    (consumes : Consumes read size) (less : ∀ a, size' (f a) ≤ size a) :
    Consumes (read >>= fun a => Pure.pure (f a)) size' := by
  apply consumes.bind
  intro a
  apply Consumes.pure
  exact Nat.sub_eq_zero_of_le (less a)

theorem throw {fault : SerializationError} {size : α → Nat} :
    Consumes (MonadExcept.throw fault) size := by
  intro input a rest ran
  cases ran

end Consumes

theorem readExact_consumes (n : Nat) : Consumes (readExact n) fun _ => n := by
  intro input bytes rest ran
  change (if input.length < n then _ else _) = _ at ran
  split at ran
  · cases ran
  · rename_i enough
    cases ran
    have width : (input.drop n).length = input.length - n := List.length_drop
    change (input.drop n).length + n ≤ input.length
    omega

theorem readU64_consumes : Consumes readU64 fun _ => 8 :=
  (readExact_consumes 8).bind_pure fun _ => Nat.le_refl 8

theorem readU8_consumes : Consumes readU8 fun _ => 1 :=
  (readExact_consumes 1).bind_pure fun _ => Nat.le_refl 1

theorem readMany_consumes {read : Reader α} {size : α → Nat} (consumes : Consumes read size)
    (n : Nat) : Consumes (readMany read n) fun l => (l.map size).sum := by
  induction n with
  | zero => exact .pure rfl
  | succ n ih =>
    apply consumes.bind
    intro a
    apply ih.bind_pure
    intro l
    rw [List.map_cons, List.sum_cons]
    omega

theorem readVec_consumes {read : Reader α} {size : α → Nat} (consumes : Consumes read size) :
    Consumes (readVec read) fun l => 8 + (l.map size).sum := by
  apply readU64_consumes.bind
  intro n
  apply (readMany_consumes consumes n.toNat).mono
  intro l
  omega

namespace Coding

def u64 : Coding UInt64 where
  write _ n := writeU64 n
  size _ _ := 8
  read _ _ := readU64

def u8 : Coding UInt8 where
  write _ byte := [byte]
  size _ _ := 1
  read _ _ := readU8

def vec (c : Coding α) : Coding (List α) where
  write mode l := writeVec (c.write mode) l
  size mode l := 8 + (l.map (c.size mode)).sum
  read mode validate := readVec (c.read mode validate)

theorem u64_exact : u64.Exact where
  sized _ n := littleEndian_length 8 n.toNat
  consumes _ _ := readU64_consumes

theorem u8_exact : u8.Exact where
  sized _ _ := rfl
  consumes _ _ := readU8_consumes

theorem vec_exact {c : Coding α} (exact : c.Exact) : (vec c).Exact where
  sized mode l := by
    have each : ∀ a ∈ l, (c.write mode a).length = c.size mode a := fun a _ => exact.sized mode a
    change (writeVec (c.write mode) l).length = 8 + (l.map (c.size mode)).sum
    rw [writeVec_length, List.map_congr_left each]
  consumes mode validate := readVec_consumes (exact.consumes mode validate)

/-- A string is the vector of its UTF-8 bytes. -/
def string : Coding String where
  write mode s := (vec u8).write mode s.toUTF8.data.toList
  size mode s := (vec u8).size mode s.toUTF8.data.toList
  read mode validate := do
    let bytes ← (vec u8).read mode validate
    match String.fromUTF8? bytes.toByteArray with
    | some s => pure s
    | none => throw .invalidData

theorem toUTF8_of_fromUTF8? {bytes : List UInt8} {s : String}
    (decoded : String.fromUTF8? bytes.toByteArray = some s) : s.toUTF8.data.toList = bytes := by
  rw [String.fromUTF8?] at decoded
  split at decoded
  · cases decoded
    exact List.toList_data_toByteArray
  · cases decoded

theorem string_exact : string.Exact where
  sized mode s := (vec_exact u8_exact).sized mode s.toUTF8.data.toList
  consumes mode validate := by
    apply ((vec_exact u8_exact).consumes mode validate).bind
    intro bytes
    split
    · rename_i s decoded
      apply Consumes.pure
      change (vec u8).size mode s.toUTF8.data.toList - (vec u8).size mode bytes = 0
      rw [toUTF8_of_fromUTF8? decoded, Nat.sub_self]
    · exact .throw

end Coding

/-- A map from `usize`, in the order of its keys. -/
structure BTreeMap (α : Type) where
  entries : List (UInt64 × α)
  sorted : entries.Pairwise fun a b => a.1 < b.1

/-- The entry of a key, which is replaced where there is one. -/
def insertEntry (key : UInt64) (a : α) : List (UInt64 × α) → List (UInt64 × α)
  | [] => [(key, a)]
  | (key', a') :: rest =>
      if key < key' then (key, a) :: (key', a') :: rest
      else if key = key' then (key, a) :: rest
      else (key', a') :: insertEntry key a rest

theorem mem_insertEntry {key : UInt64} {a : α} {l : List (UInt64 × α)} {e : UInt64 × α}
    (member : e ∈ insertEntry key a l) : e = (key, a) ∨ e ∈ l := by
  induction l with
  | nil => exact Or.inl (List.mem_singleton.mp member)
  | cons first rest ih =>
    rw [insertEntry] at member
    split at member
    · exact List.mem_cons.mp member
    · split at member
      · rcases List.mem_cons.mp member with here | later
        · exact Or.inl here
        · exact Or.inr (List.mem_cons_of_mem _ later)
      · rcases List.mem_cons.mp member with here | later
        · exact Or.inr (List.mem_cons.mpr (Or.inl here))
        · exact (ih later).imp_right (List.mem_cons_of_mem _)

theorem insertEntry_sorted {key : UInt64} {a : α} {l : List (UInt64 × α)}
    (sorted : l.Pairwise fun a b => a.1 < b.1) :
    (insertEntry key a l).Pairwise fun a b => a.1 < b.1 := by
  induction l with
  | nil => exact List.pairwise_singleton _ _
  | cons first rest ih =>
    obtain ⟨least, tail⟩ := List.pairwise_cons.mp sorted
    rw [insertEntry]
    split
    · rename_i below
      refine List.pairwise_cons.mpr ⟨fun e member => ?_, sorted⟩
      rcases List.mem_cons.mp member with rfl | later
      · exact below
      · exact UInt64.lt_trans below (least e later)
    · rename_i notBelow
      split
      · rename_i same
        exact List.pairwise_cons.mpr ⟨fun e member => same ▸ least e member, tail⟩
      · rename_i apart
        refine List.pairwise_cons.mpr ⟨fun e member => ?_, ih tail⟩
        rcases mem_insertEntry member with rfl | later
        · exact UInt64.lt_of_le_of_ne (UInt64.not_lt.mp notBelow) fun same => apart same.symm
        · exact least e later

namespace BTreeMap

def empty : BTreeMap α := ⟨[], .nil⟩

def insert (m : BTreeMap α) (entry : UInt64 × α) : BTreeMap α :=
  ⟨insertEntry entry.1 entry.2 m.entries, insertEntry_sorted m.sorted⟩

/-- `collect`: a later entry replaces an earlier one of its key. -/
def collect (entries : List (UInt64 × α)) : BTreeMap α := entries.foldl insert empty

end BTreeMap

namespace Coding

/-- A key and its value. -/
def entry (c : Coding α) : Coding (UInt64 × α) where
  write mode e := u64.write mode e.1 ++ c.write mode e.2
  size mode e := 8 + c.size mode e.2
  read mode validate := do
    let key ← u64.read mode validate
    let a ← c.read mode validate
    pure (key, a)

/-- A map is the vector of its entries. -/
def map (c : Coding α) : Coding (BTreeMap α) where
  write mode m := (vec (entry c)).write mode m.entries
  size mode m := (vec (entry c)).size mode m.entries
  read mode validate := do
    let entries ← (vec (entry c)).read mode validate
    pure (BTreeMap.collect entries)

theorem entry_exact {c : Coding α} (exact : c.Exact) : (entry c).Exact where
  sized mode e := by
    change (writeU64 e.1 ++ c.write mode e.2).length = 8 + c.size mode e.2
    rw [List.length_append, exact.sized, writeU64, littleEndian_length]
  consumes mode validate := by
    apply readU64_consumes.bind
    intro key
    apply (exact.consumes mode validate).bind_pure
    intro a
    change 8 + c.size mode a - 8 ≤ c.size mode a
    omega

/-- Collecting entries does not make them longer. -/
theorem size_insertEntry (size : UInt64 × α → Nat) (key : UInt64) (a : α)
    (l : List (UInt64 × α)) :
    ((insertEntry key a l).map size).sum ≤ (l.map size).sum + size (key, a) := by
  induction l with
  | nil => exact Nat.le_of_eq (Nat.add_comm _ _)
  | cons first rest ih =>
    obtain ⟨key', a'⟩ := first
    rw [insertEntry, List.map_cons, List.sum_cons]
    split
    · rw [List.map_cons, List.sum_cons, List.map_cons, List.sum_cons]
      omega
    · split
      · rw [List.map_cons, List.sum_cons]
        omega
      · rw [List.map_cons, List.sum_cons]
        omega

theorem size_collect (size : UInt64 × α → Nat) (l : List (UInt64 × α)) :
    ((BTreeMap.collect l).entries.map size).sum ≤ (l.map size).sum := by
  have from_map (m : BTreeMap α) : ((l.foldl BTreeMap.insert m).entries.map size).sum ≤
      (m.entries.map size).sum + (l.map size).sum := by
    induction l generalizing m with
    | nil => exact Nat.le_refl _
    | cons e l ih =>
      have step : ((m.insert e).entries.map size).sum ≤ (m.entries.map size).sum + size e :=
        size_insertEntry size e.1 e.2 m.entries
      have rest := ih (m.insert e)
      rw [List.foldl_cons, List.map_cons, List.sum_cons]
      omega
  have whole := from_map BTreeMap.empty
  rwa [BTreeMap.empty, List.map_nil, List.sum_nil, Nat.zero_add] at whole

theorem map_exact {c : Coding α} (exact : c.Exact) : (map c).Exact where
  sized mode m := (vec_exact (entry_exact exact)).sized mode m.entries
  consumes mode validate := by
    apply ((vec_exact (entry_exact exact)).consumes mode validate).bind_pure
    intro entries
    have smaller := size_collect ((entry c).size mode) entries
    change 8 + _ ≤ 8 + _
    omega

end Coding

/-- The value is read from the bytes that are written for it. -/
def Coding.ReadsBack (c : Coding α) (mode : Compress) (validate : Validate) (a : α) : Prop :=
  Reads (c.read mode validate) (c.write mode a) a

theorem insertEntry_last {key : UInt64} {a : α} {l : List (UInt64 × α)}
    (below : ∀ e ∈ l, e.1 < key) : insertEntry key a l = l ++ [(key, a)] := by
  induction l with
  | nil => rfl
  | cons first rest ih =>
    obtain ⟨here, later⟩ := List.forall_mem_cons.mp below
    have notBefore : ¬ key < first.1 := UInt64.not_lt.mpr (UInt64.le_of_lt here)
    have apart : key ≠ first.1 := (UInt64.ne_of_lt here).symm
    simp [insertEntry, notBefore, apart, ih later]

/-- Collecting a map's own entries gives the map. -/
theorem BTreeMap.collect_entries (m : BTreeMap α) : BTreeMap.collect m.entries = m := by
  have from_map (l : List (UInt64 × α)) (m₀ : BTreeMap α)
      (sorted : (m₀.entries ++ l).Pairwise fun a b => a.1 < b.1) :
      (l.foldl BTreeMap.insert m₀).entries = m₀.entries ++ l := by
    induction l generalizing m₀ with
    | nil => simp
    | cons e l ih =>
      have below : ∀ a ∈ m₀.entries, a.1 < e.1 := fun a member =>
        (List.pairwise_append.mp sorted).2.2 a member e List.mem_cons_self
      have inserted : (m₀.insert e).entries = m₀.entries ++ [e] := insertEntry_last below
      rw [List.foldl_cons, ih, inserted, List.append_assoc, List.singleton_append]
      rwa [inserted, List.append_assoc, List.singleton_append]
  have whole := from_map m.entries BTreeMap.empty m.sorted
  obtain ⟨entries, sorted⟩ := m
  cases collected : BTreeMap.collect entries with
  | mk entries' sorted' =>
    have same : entries' = entries := (congrArg BTreeMap.entries collected).symm.trans whole
    subst same
    rfl

theorem lookup_cons_eq (e : UInt64 × α) (l : List (UInt64 × α)) (k : UInt64) :
    (e :: l).lookup k = if k = e.1 then some e.2 else l.lookup k := by
  rw [List.lookup_cons]
  by_cases same : k = e.1
  · simp [same]
  · have other : (k == e.1) = false := beq_eq_false_iff_ne.mpr same
    simp [same, other]

theorem lookup_insertEntry (key : UInt64) (a : α) (l : List (UInt64 × α)) (k : UInt64) :
    (insertEntry key a l).lookup k = if k = key then some a else l.lookup k := by
  induction l with
  | nil => exact lookup_cons_eq (key, a) [] k
  | cons first rest ih =>
    obtain ⟨key', a'⟩ := first
    rw [insertEntry]
    split
    · exact lookup_cons_eq (key, a) _ k
    · rename_i notBefore
      split
      · rename_i here
        subst here
        rw [lookup_cons_eq, lookup_cons_eq]
        by_cases same : k = key <;> simp [same]
      · rename_i apart
        rw [lookup_cons_eq, lookup_cons_eq, ih]
        by_cases same : k = key
        · have other : k ≠ key' := fun equal => apart (same.symm.trans equal)
          simp [same, apart]
        · simp [same]

theorem BTreeMap.mem_collect {l : List (UInt64 × α)} {e : UInt64 × α}
    (member : e ∈ (BTreeMap.collect l).entries) : e ∈ l := by
  have from_map (l : List (UInt64 × α)) (m : BTreeMap α)
      (member : e ∈ (l.foldl BTreeMap.insert m).entries) : e ∈ m.entries ∨ e ∈ l := by
    induction l generalizing m with
    | nil => exact Or.inl member
    | cons first l ih =>
      rcases ih _ member with before | later
      · rcases mem_insertEntry before with rfl | kept
        · exact Or.inr List.mem_cons_self
        · exact Or.inl kept
      · exact Or.inr (List.mem_cons_of_mem _ later)
  rcases from_map l BTreeMap.empty member with none | here
  · cases none
  · exact here

/-- A key whose entries agree is found. -/
theorem BTreeMap.lookup_collect {l : List (UInt64 × α)} {k : UInt64} {a : α} (member : (k, a) ∈ l)
    (agree : ∀ e ∈ l, e.1 = k → e.2 = a) : (BTreeMap.collect l).entries.lookup k = some a := by
  have from_map (l : List (UInt64 × α)) (m : BTreeMap α) (agree : ∀ e ∈ l, e.1 = k → e.2 = a)
      (found : m.entries.lookup k = some a ∨ (k, a) ∈ l) :
      (l.foldl BTreeMap.insert m).entries.lookup k = some a := by
    induction l generalizing m with
    | nil => simpa using found
    | cons e l ih =>
      obtain ⟨here, later⟩ := List.forall_mem_cons.mp agree
      have inserted : (m.insert e).entries.lookup k =
          if k = e.1 then some e.2 else m.entries.lookup k :=
        lookup_insertEntry e.1 e.2 m.entries k
      refine ih (m.insert e) later ?_
      by_cases same : k = e.1
      · rw [inserted, if_pos same, here same.symm]
        exact Or.inl rfl
      · rw [inserted, if_neg same]
        rcases found with before | inside
        · exact Or.inl before
        · rcases List.mem_cons.mp inside with rfl | rest
          · exact absurd rfl same
          · exact Or.inr rest
  exact from_map l BTreeMap.empty agree (Or.inr member)

namespace Coding
variable {mode : Compress} {validate : Validate}

theorem u64_readsBack (n : UInt64) : u64.ReadsBack mode validate n := reads_u64 n

theorem u8_readsBack (byte : UInt8) : u8.ReadsBack mode validate byte := reads_u8 byte

theorem vec_readsBack {c : Coding α} {l : List α} (short : l.length < 2 ^ 64)
    (each : ∀ a ∈ l, c.ReadsBack mode validate a) : (vec c).ReadsBack mode validate l :=
  reads_vec short each

theorem fromUTF8?_toUTF8 (s : String) :
    String.fromUTF8? s.toUTF8.data.toList.toByteArray = some s := by
  have same : s.toUTF8.data.toList.toByteArray = s.toUTF8 := by
    apply ByteArray.ext
    apply Array.toList_inj.mp
    exact List.toList_data_toByteArray
  rw [same, String.fromUTF8?]
  exact (dif_pos s.isValidUTF8).trans rfl

theorem string_readsBack {s : String} (short : s.toUTF8.data.toList.length < 2 ^ 64) :
    string.ReadsBack mode validate s := by
  refine (vec_readsBack short fun byte _ => u8_readsBack byte).bind_pure ?_
  simp only [fromUTF8?_toUTF8]

theorem entry_readsBack {c : Coding α} {e : UInt64 × α} (value : c.ReadsBack mode validate e.2) :
    (entry c).ReadsBack mode validate e :=
  (reads_u64 e.1).bind (value.bind_pure rfl)

theorem map_readsBack {c : Coding α} {m : BTreeMap α} (short : m.entries.length < 2 ^ 64)
    (each : ∀ e ∈ m.entries, c.ReadsBack mode validate e.2) :
    (map c).ReadsBack mode validate m := by
  refine (vec_readsBack short fun e member => entry_readsBack (each e member)).bind_pure ?_
  rw [BTreeMap.collect_entries]

end Coding
end SizedCodecs
