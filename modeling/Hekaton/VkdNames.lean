import Hekaton.VkdCircuits

/-!
# Names of the key directory's wires

A wire's name tells its address. Numbers are written in decimal and end at a space, bytes in
two digits each, and the words in front differ. The name of an index piece tells the piece
and the user, the first 32 bytes of the leaf.
-/

namespace VkdNames

open VkdCircuits

theorem usizeToString_toList (n : UInt64) :
    (usizeToString n).toList = Nat.toDigits 10 n.toNat := Nat.toList_repr

theorem usizeToString_injective {m n : UInt64}
    (same : (usizeToString m).toList = (usizeToString n).toList) : m = n := by
  rw [usizeToString_toList, usizeToString_toList] at same
  have number := congrArg (fun digits => Nat.ofDigitChars 10 digits 0) same
  simp only [Nat.ofDigitChars_ten_toDigits] at number
  exact UInt64.toNat_inj.mp number

theorem space_not_mem (n : UInt64) : ' ' ∉ (usizeToString n).toList := by
  rw [usizeToString_toList]
  intro member
  have digit := Nat.isDigit_of_mem_toDigits (by decide) (by decide) member
  exact absurd digit (by decide)

/-- Lists are cut at the first place of an element. -/
theorem cut_at_first {α : Type} {a : α} {x x' rest rest' : List α} (before : a ∉ x)
    (before' : a ∉ x') (same : x ++ a :: rest = x' ++ a :: rest') : x = x' ∧ rest = rest' := by
  induction x generalizing x' with
  | nil =>
    cases x' with
    | nil => exact ⟨rfl, (List.cons.inj same).2⟩
    | cons b x' => exact absurd (List.cons.inj same).1 (List.ne_of_not_mem_cons before')
  | cons b x ih =>
    cases x' with
    | nil => exact absurd (List.cons.inj same).1.symm (List.ne_of_not_mem_cons before)
    | cons b' x' =>
      obtain ⟨rfl, same'⟩ := List.cons.inj same
      obtain ⟨rfl, rfl⟩ := ih (fun member => before (.tail b member))
        (fun member => before' (.tail b member)) same'
      exact ⟨rfl, rfl⟩

/-- A number ends at the space behind it. -/
theorem number_then_rest {m n : UInt64} {rest rest' : List Char}
    (same : (usizeToString m).toList ++ (" ".toList ++ rest) =
      (usizeToString n).toList ++ (" ".toList ++ rest')) :
    m = n ∧ rest = rest' := by
  obtain ⟨number, rest⟩ := cut_at_first (space_not_mem m) (space_not_mem n) same
  exact ⟨usizeToString_injective number, rest⟩

theorem digitChar_injective {m n : Nat} (small : m < 16) (small' : n < 16)
    (same : Nat.digitChar m = Nat.digitChar n) : m = n := by
  have all : ∀ m < 16, ∀ n < 16, Nat.digitChar m = Nat.digitChar n → m = n := by decide
  exact all m small n small' same

theorem bytesToString_injective {bytes bytes' : List UInt8}
    (same : (bytesToString bytes).toList = (bytesToString bytes').toList) : bytes = bytes' := by
  simp only [bytesToString, String.toList_ofList] at same
  induction bytes generalizing bytes' with
  | nil =>
    cases bytes' with
    | nil => rfl
    | cons b' bytes' => simp at same
  | cons b bytes ih =>
    cases bytes' with
    | nil => simp at same
    | cons b' bytes' =>
      simp only [List.flatMap_cons, List.cons_append, List.nil_append, List.cons.injEq] at same
      obtain ⟨high, low, rest⟩ := same
      have upper := digitChar_injective (m := b.toNat / 16) (n := b'.toNat / 16)
        (by have := b.toNat_lt; omega) (by have := b'.toNat_lt; omega) high
      have lower := digitChar_injective (Nat.mod_lt _ (by decide)) (Nat.mod_lt _ (by decide)) low
      have number : b.toNat = b'.toNat := by omega
      rw [UInt8.toNat_inj.mp number, ih rest]

/-- The user of a leaf. -/
def userOf (leaf : Leaf) : List UInt8 := leaf.toList.take 32

theorem toList_four (front a space b : String) : (front ++ a ++ space ++ b).toList =
    front.toList ++ (a.toList ++ (space.toList ++ b.toList)) := by
  simp only [String.toList_append, List.append_assoc]

theorem toList_six (front a space b space' c : String) :
    (front ++ a ++ space ++ b ++ space' ++ c).toList = front.toList ++ (a.toList ++
      (space.toList ++ (b.toList ++ (space'.toList ++ c.toList)))) := by
  simp only [String.toList_append, List.append_assoc]

theorem pathRoot_toName (a : PathRootAddress) : a.toName.toList =
    "path root ".toList ++ ((usizeToString a.pathId).toList ++ (" ".toList ++
      (usizeToString a.updateIdx).toList)) := by
  exact toList_four _ _ _ _

theorem intermediateRoot_toName (a : IntermediateRootAddress) : a.toName.toList =
    "intermediate root ".toList ++ ((usizeToString a.pathId).toList ++ (" ".toList ++
      ((usizeToString a.indicator).toList ++ (" ".toList ++
        (usizeToString a.updateIdx).toList)))) := by
  exact toList_six _ _ _ _ _ _

theorem leafHash_toName (a : LeafHashAddress) : a.toName.toList =
    "leaf hash ".toList ++ (bytesToString a.leaf.toList).toList := by
  exact String.toList_append

theorem index_toName (a : IndexAddress) : a.toName.toList =
    "index ".toList ++ ((usizeToString a.indicator).toList ++ (" ".toList ++
      (bytesToString (userOf a.leaf)).toList)) := by
  exact toList_four _ _ _ _

theorem pathRoot_injective {a b : PathRootAddress} (same : a.toName = b.toName) : a = b := by
  have chars := congrArg String.toList same
  rw [pathRoot_toName, pathRoot_toName, List.append_cancel_left_eq] at chars
  obtain ⟨path, update⟩ := number_then_rest chars
  have idx := usizeToString_injective update
  obtain ⟨pathId, updateIdx⟩ := a
  cases path
  cases idx
  rfl

theorem intermediateRoot_injective {a b : IntermediateRootAddress} (same : a.toName = b.toName) :
    a = b := by
  have chars := congrArg String.toList same
  rw [intermediateRoot_toName, intermediateRoot_toName, List.append_cancel_left_eq] at chars
  obtain ⟨path, rest⟩ := number_then_rest chars
  obtain ⟨piece, update⟩ := number_then_rest rest
  have idx := usizeToString_injective update
  obtain ⟨indicator, pathId, updateIdx⟩ := a
  cases path
  cases piece
  cases idx
  rfl

theorem leafHash_injective {a b : LeafHashAddress} (same : a.toName = b.toName) : a = b := by
  have chars := congrArg String.toList same
  rw [leafHash_toName, leafHash_toName, List.append_cancel_left_eq] at chars
  obtain ⟨leaf⟩ := a
  obtain ⟨leaf'⟩ := b
  rw [List.Vector.eq (n := 66) leaf leaf' (bytesToString_injective chars)]

/-- The name of an index piece tells the piece and the user. -/
theorem index_toName_inj {a b : IndexAddress} :
    a.toName = b.toName ↔ a.indicator = b.indicator ∧ userOf a.leaf = userOf b.leaf := by
  rw [← String.toList_inj, index_toName, index_toName, List.append_cancel_left_eq]
  constructor
  · intro same
    obtain ⟨piece, user⟩ := number_then_rest same
    exact ⟨piece, bytesToString_injective user⟩
  · rintro ⟨piece, user⟩
    rw [piece, user]

/-- The words that the names start with tell the kind of a node. -/
def kindOf : NodeAddress → Nat
  | .pathRoot _ => 0
  | .leafHash _ => 1
  | .nullLeaf => 2
  | .finalRoot => 3
  | .initialRoot => 4
  | .intermediateRoot _ => 5

/-- The first and the third letter. -/
def letters (name : String) : Option Char × Option Char :=
  (name.toList.head?, name.toList[2]?)

theorem letters_toName (address : NodeAddress) : letters address.toName =
    match kindOf address with
    | 0 => (some 'p', some 't')
    | 1 => (some 'l', some 'a')
    | 2 => (some 'n', some 'l')
    | 3 => (some 'f', some 'n')
    | 4 => (some 'i', some 'i')
    | _ => (some 'i', some 't') := by
  cases address with
  | pathRoot a => simp [letters, NodeAddress.toName, pathRoot_toName, kindOf]
  | leafHash a => simp [letters, NodeAddress.toName, leafHash_toName, kindOf]
  | nullLeaf => rfl
  | finalRoot => rfl
  | initialRoot => rfl
  | intermediateRoot a => simp [letters, NodeAddress.toName, intermediateRoot_toName, kindOf]

theorem letters_index (a : IndexAddress) : letters a.toName = (some 'i', some 'd') := by
  simp [letters, index_toName]

/-- The name of a node tells its address. -/
theorem node_toName_injective {a b : NodeAddress} (same : a.toName = b.toName) : a = b := by
  have kinds : letters a.toName = letters b.toName := congrArg letters same
  rw [letters_toName, letters_toName] at kinds
  cases a <;> cases b <;> simp only [kindOf, Prod.mk.injEq, Option.some.injEq] at kinds
  case pathRoot.pathRoot a b => rw [pathRoot_injective same]
  case leafHash.leafHash a b => rw [leafHash_injective same]
  case intermediateRoot.intermediateRoot a b => rw [intermediateRoot_injective same]
  all_goals first
    | rfl
    | exact absurd kinds (by decide)

/-- A node and an index piece have different names. -/
theorem node_ne_index (a : NodeAddress) (x : IndexAddress) : a.toName ≠ x.toName := by
  intro same
  have kinds := congrArg letters same
  rw [letters_toName, letters_index] at kinds
  cases a <;> simp [kindOf] at kinds

end VkdNames
