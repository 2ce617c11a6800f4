import Hekaton.Codecs
import Hekaton.FileSystems
import Hekaton.PortalManager
import Hekaton.Processes

/-!
# The files of the binaries

The coordinator and the workers are processes of their own and meet in files, one for each
prefix and index. A key that many subcircuits share is written once, and the other indices
are links to it. A link holds the path as the process was given it, so it is read from the
directory of the keys: what it leads to is the key only where that path leads back there.
-/

namespace CliFiles

open Outcomes Codecs FileSystems PortalManager Processes

abbrev Bytes := List UInt8

abbrev Disk := FileSystem Bytes

def g16PkFilenamePrefix : String := "g16_pk"
def g16CkFilenamePrefix : String := "g16_ck"
def aggCkFilenamePrefix : String := "agg_ck"
def stage0ReqFilenamePrefix : String := "stage0_req"
def stage0RespFilenamePrefix : String := "stage0_resp"
def stage1ReqFilenamePrefix : String := "stage1_req"
def stage1RespFilenamePrefix : String := "stage1_resp"
def testCircParamFilenamePrefix : String := "test_circ_params"
def stage0CoordStateFilenamePrefix : String := "stage0_coordinator_state"
def finalAggStateFilenamePrefix : String := "final_aggregator_state"
def finalProofPrefix : String := "agg_proof"

def idxStr : Option Nat → String
  | some i => "_" ++ toString i
  | none => ""

def filename (filenamePrefix : String) (index : Option Nat) : String :=
  filenamePrefix ++ idxStr index ++ ".bin"

/-- The prefix ends in a character that is no digit. -/
def EndsInLetter (filenamePrefix : String) : Prop :=
  ∃ front last, filenamePrefix.toList = front ++ [last] ∧ last.isDigit = false

section Files
variable {α : Type}

/-- `io::Result::unwrap`. -/
def unwrapIo : Process IoError Disk α → Process Fault Disk α :=
  .mapError fun _ => .panic "called `Result::unwrap()` on an `Err` value"

def serializeToPath (c : Codec α) (val : α) (here : Directory) (dir : DirectoryPath)
    (filenamePrefix : String) (index : Option Nat) : Process IoError Disk Unit :=
  .writing fun fs => fs.create here ⟨dir, filename filenamePrefix index⟩ (c.serialize val)

/-- The first file is written, and the others are links to it. -/
def serializeToPaths (c : Codec α) (val : α) (here : Directory) (dir : DirectoryPath)
    (filenamePrefix : String) (start stop : Nat) : Process IoError Disk Unit := do
  let firstFilePath : Path := ⟨dir, filename filenamePrefix (some start)⟩
  .writing fun fs => fs.create here firstFilePath (c.serialize val)
  ((List.range' start (stop - start)).drop 1).forM fun i =>
    .writing fun fs => fs.symlink here firstFilePath ⟨dir, filename filenamePrefix (some i)⟩

def deserializeFromPath (c : Codec α) (here : Directory) (dir : DirectoryPath)
    (filenamePrefix : String) (index : Option Nat) : Process Fault Disk α :=
  .reading fun fs =>
    match fs.read here ⟨dir, filename filenamePrefix index⟩ with
    | .error _ => panicWith ("couldn't open file " ++ filename filenamePrefix index)
    | .ok buf =>
      match c.deserialize.run buf with
      | .ok (val, _) => .ok val
      | .error _ => panicWith "called `Result::unwrap()` on an `Err` value"

end Files

theorem digits_of_toString (n : Nat) : ∀ c ∈ (toString n).toList.reverse, c.isDigit = true := by
  intro c member
  have here : c ∈ Nat.toDigits 10 n := by simpa using member
  exact Nat.isDigit_of_mem_toDigits (by decide) (by decide) here

/-- Digits after another character are what a list ends in. -/
theorem split_digits (l digits : List Char) {last : Char} (letter : last.isDigit = false)
    (all : ∀ c ∈ digits.reverse, c.isDigit = true) :
    ((l ++ [last]) ++ digits).reverse.span Char.isDigit =
      (digits.reverse, last :: l.reverse) := by
  rw [List.span_eq_takeWhile_dropWhile, List.reverse_append,
    List.takeWhile_append_of_pos all, List.dropWhile_append_of_pos all]
  simp [letter]

/-- What stands before the extension, cut at its digits. -/
theorem stem_split {p : String} (letter : EndsInLetter p) (index : Option Nat) :
    (p ++ idxStr index).toList.reverse.span Char.isDigit =
      match index with
      | some i => ((toString i).toList.reverse, '_' :: p.toList.reverse)
      | none => ([], p.toList.reverse) := by
  obtain ⟨front, last, ends, word⟩ := letter
  cases index with
  | none =>
    have cut := split_digits front [] word (by simp)
    simpa [idxStr, ends] using cut
  | some i =>
    have cut := split_digits p.toList (toString i).toList (show '_'.isDigit = false from rfl)
      (digits_of_toString i)
    simpa [idxStr] using cut

theorem endsInLetter_of {p : String} (front : List Char) (last : Char)
    (ends : p.toList = front ++ [last]) (letter : last.isDigit = false) : EndsInLetter p :=
  ⟨front, last, ends, letter⟩

/-- A name tells its prefix and its index. -/
theorem filename_injective {p p' : String} {index index' : Option Nat} (letter : EndsInLetter p)
    (letter' : EndsInLetter p') (same : filename p index = filename p' index') :
    p = p' ∧ index = index' := by
  have stems : p ++ idxStr index = p' ++ idxStr index' := by
    have lists := congrArg String.toList same
    simp only [filename, String.toList_append, List.append_cancel_right_eq] at lists
    apply String.toList_injective
    simpa using lists
  have cut := stem_split letter index
  rw [stems, stem_split letter' index'] at cut
  cases index with
  | none =>
    cases index' with
    | none =>
      have words := List.reverse_injective (congrArg Prod.snd cut)
      exact ⟨(String.toList_injective words).symm, rfl⟩
    | some j =>
      have digits := congrArg (fun r => r.1.length) cut
      simp at digits
  | some i =>
    cases index' with
    | none =>
      have digits := congrArg (fun r => r.1.length) cut
      have positive : 0 < (Nat.toDigits 10 i).length := Nat.length_toDigits_pos
      simp at digits
      omega
    | some j =>
      have digits := String.toList_injective (List.reverse_injective (congrArg Prod.fst cut))
      have words := congrArg Prod.snd cut
      simp only [List.cons.injEq, true_and] at words
      have same := String.toList_injective (List.reverse_injective words)
      exact ⟨same.symm, congrArg some (decimal_injective digits).symm⟩

theorem filename_index {p : String} {i j : Nat}
    (same : filename p (some i) = filename p (some j)) : i = j := by
  have lists := congrArg String.toList same
  simp only [filename, idxStr, String.toList_append, List.append_cancel_right_eq,
    List.append_cancel_left_eq] at lists
  exact decimal_injective (String.toList_injective lists)

section Shared
variable {α : Type} {fs : FileSystem Bytes} {here d : Directory} {dir : DirectoryPath} {p : String}

theorem unwrapIo_of_ok {q : Process IoError Disk α} {a : α} {fs' : FileSystem Bytes}
    (ran : q fs = (.ok a, fs')) : unwrapIo q fs = (.ok a, fs') := by
  simp [unwrapIo, Process.mapError, ran]

theorem serializeToPath_run (c : Codec α) (val : α) {index : Option Nat}
    (walked : fs.walk here dir = some d) (plain : fs.Plain d (filename p index)) :
    serializeToPath c val here dir p index fs =
      (.ok (), fs.put d (filename p index) (.file (c.serialize val))) := by
  simp [serializeToPath, Process.writing, fs.create_of_plain ⟨dir, filename p index⟩
    walked plain]

/-- A file is read as a value exactly when it holds bytes that the codec reads so. -/
theorem deserializeFromPath_eq_ok (c : Codec α) {index : Option Nat}
    (walked : fs.walk here dir = some d) {val : α} :
    (deserializeFromPath c here dir p index fs).1 = .ok val ↔
      ∃ buf rest, fs.content d (filename p index) = some buf ∧
        c.deserialize.run buf = .ok (val, rest) := by
  have found := fs.read_eq_ok ⟨dir, filename p index⟩ walked
  simp only [deserializeFromPath, Process.reading]
  cases opened : fs.read here ⟨dir, filename p index⟩ with
  | error e =>
    constructor
    · intro h
      cases h
    · rintro ⟨buf, rest, held, _⟩
      cases opened.symm.trans ((found buf).mpr held)
  | ok buf =>
    have held := (found buf).mp opened
    cases ran : c.deserialize.run buf with
    | error e =>
      simp [ran, held, panicWith]
    | ok pair => simp [ran, held, Prod.ext_iff, and_comm]

/-- The names of a prefix and a range of indices. -/
def rangeNames (p : String) (start stop : Nat) : Set String :=
  {name | ∃ i, start ≤ i ∧ i < stop ∧ name = filename p (some i)}

variable (fs) in
/-- Links that are made under fresh names; nothing else changes. -/
theorem symlinks_run (walked : fs.walk here dir = some d) {target : Path} {start stop : Nat}
    (fresh : ∀ i, start ≤ i → i < stop → fs.node d (filename p (some i)) = none) :
    ∃ fs', ((List.range' start (stop - start)).forM fun i => (Process.writing fun fs =>
        fs.symlink here target ⟨dir, filename p (some i)⟩ : Process IoError Disk Unit)) fs =
          (.ok (), fs') ∧
      fs.Frame fs' d (rangeNames p start stop) ∧
      (∀ i, start ≤ i → i < stop → fs'.node d (filename p (some i)) = some (.link target)) ∧
      ∀ names, rangeNames p start stop ⊆ names → target.name ∈ names → fs.LinksWithin names →
        fs'.LinksWithin names := by
  induction count : stop - start generalizing fs start with
  | zero =>
    refine ⟨fs, rfl, .refl fs d _, fun i low high => ?_, fun _ _ _ within => within⟩
    omega
  | succ n ih =>
    have made : (Process.writing fun fs => fs.symlink here target ⟨dir, filename p (some start)⟩ :
        Process IoError Disk Unit) fs =
          (.ok (), fs.put d (filename p (some start)) (.link target)) := by
      simp [Process.writing, FileSystem.symlink, walked,
        fresh start (Nat.le_refl _) (by omega)]
    have apart : ∀ i, start + 1 ≤ i → filename p (some i) ≠ filename p (some start) := by
      intro i low same
      have := filename_index same
      omega
    obtain ⟨fs', ran, frame, linked, keeps⟩ :=
      ih (fs.put d (filename p (some start)) (.link target)) walked
        (fun i low high => by
          rw [fs.put_node_of_ne _ (Or.inr (apart i low))]
          exact fresh i (by omega) high) (by omega)
    refine ⟨fs', (Process.bind_of_ok made).trans ran, ?_, ?_, ?_⟩
    · have first : fs.Frame (fs.put d (filename p (some start)) (.link target)) d
          (rangeNames p start stop) := .put fs _ ⟨start, Nat.le_refl _, by omega, rfl⟩
      apply (first.trans frame).mono
      rintro name (inside | ⟨i, low, high, rfl⟩)
      · exact inside
      · exact ⟨i, by omega, high, rfl⟩
    · intro i low high
      by_cases here : i = start
      · subst here
        rw [frame.kept d _ (Or.inr _), fs.put_node_self]
        rintro ⟨j, above, _, same⟩
        exact apart j above same.symm
      · exact linked i (by omega) high
    · intro names inside targeted within
      apply keeps names _ targeted
      · exact within.put_link d (inside ⟨start, Nat.le_refl _, by omega, rfl⟩) targeted
      · rintro name ⟨i, low, high, rfl⟩
        exact inside ⟨i, by omega, high, rfl⟩

/-- A range of indices: the first is a file, and the others are links to it. -/
structure Shares (fs : FileSystem Bytes) (d : Directory) (dir : DirectoryPath) (p : String)
    (start stop : Nat) (buf : Bytes) : Prop where
  first : fs.node d (filename p (some start)) = some (.file buf)
  others : ∀ i, start < i → i < stop →
    fs.node d (filename p (some i)) = some (.link ⟨dir, filename p (some start)⟩)

theorem serializeToPaths_run (c : Codec α) (val : α) {start stop : Nat} (nonempty : start < stop)
    (walked : fs.walk here dir = some d)
    (fresh : ∀ i, start ≤ i → i < stop → fs.node d (filename p (some i)) = none) :
    ∃ fs', serializeToPaths c val here dir p start stop fs = (.ok (), fs') ∧
      fs.Frame fs' d (rangeNames p start stop) ∧
      Shares fs' d dir p start stop (c.serialize val) ∧
      ∀ names, rangeNames p start stop ⊆ names → fs.LinksWithin names → fs'.LinksWithin names := by
  have first := fresh start (Nat.le_refl _) nonempty
  have written := serializeToPath_run c val walked
    fun target linked => by cases first.symm.trans linked
  have tail : (List.range' start (stop - start)).drop 1 =
      List.range' (start + 1) (stop - (start + 1)) := by
    rw [List.drop_range', Nat.mul_one, Nat.sub_sub]
  have apart : ∀ i, start + 1 ≤ i → filename p (some i) ≠ filename p (some start) := by
    intro i low same
    have := filename_index same
    omega
  obtain ⟨fs', ran, frame, linked, keeps⟩ := symlinks_run (p := p)
    (fs.put d (filename p (some start)) (.file (c.serialize val))) walked
    fun i low high => by
      rw [fs.put_node_of_ne _ (Or.inr (apart i low))]
      exact fresh i (by omega) high
  refine ⟨fs', ?_, ?_, ⟨?_, linked⟩, ?_⟩
  · rw [serializeToPaths, tail]
    exact (Process.bind_of_ok written).trans ran
  · have head : fs.Frame (fs.put d (filename p (some start)) (.file (c.serialize val))) d
        (rangeNames p start stop) := .put fs _ ⟨start, Nat.le_refl _, nonempty, rfl⟩
    apply (head.trans frame).mono
    rintro name (inside | ⟨i, low, high, rfl⟩)
    · exact inside
    · exact ⟨i, by omega, high, rfl⟩
  · rw [frame.kept d _ (Or.inr _), fs.put_node_self]
    rintro ⟨j, above, _, same⟩
    exact apart j above same.symm
  · intro names inside within
    apply keeps names _ (inside ⟨start, Nat.le_refl _, nonempty, rfl⟩) (within.put_file d _ _)
    rintro name ⟨i, low, high, rfl⟩
    exact inside ⟨i, by omega, high, rfl⟩

/-- The paths of the directory lead back to it when they are read in it. -/
def LeadsBack (fs : FileSystem Bytes) (d : Directory) (dir : DirectoryPath) : Prop :=
  fs.walk d dir = some d

theorem leadsBack_absolute (walked : fs.walk here dir = some d) (absolute : dir.absolute = true) :
    LeadsBack fs d dir := by
  rw [LeadsBack, fs.walk_absolute absolute d here, walked]

variable {start stop : Nat} {buf : Bytes}

theorem Shares.frame {fs' : FileSystem Bytes} {d' : Directory} {names : Set String}
    (shares : Shares fs d dir p start stop buf) (nonempty : start < stop)
    (frame : fs.Frame fs' d' names)
    (apart : ∀ i, start ≤ i → i < stop → filename p (some i) ∉ names) :
    Shares fs' d dir p start stop buf where
  first := by
    rw [frame.kept d _ (Or.inr (apart start (Nat.le_refl _) nonempty))]
    exact shares.first
  others i low high := by
    rw [frame.kept d _ (Or.inr (apart i low.le high))]
    exact shares.others i low high

theorem Shares.content_first (shares : Shares fs d dir p start stop buf) :
    fs.content d (filename p (some start)) = some buf := by
  simp [FileSystem.content, shares.first]

theorem Shares.content_back (shares : Shares fs d dir p start stop buf)
    (back : LeadsBack fs d dir) {i : Nat} (low : start ≤ i) (high : i < stop) :
    fs.content d (filename p (some i)) = some buf := by
  rcases Nat.eq_or_lt_of_le low with rfl | after
  · exact shares.content_first
  · have plain : fs.Plain d (filename p (some start)) := by
      intro target linked
      cases shares.first.symm.trans linked
    have followed := fs.follow_of_plain ⟨dir, filename p (some start)⟩ 39 back plain
    simp only [FileSystem.content, shares.others i after high, FileSystem.maxLinks, followed,
      FileSystem.fileAt, shares.first]
    rfl

/-- Elsewhere there is no file of the first name, so the links lead nowhere. -/
theorem Shares.content_lost (shares : Shares fs d dir p start stop buf)
    (elsewhere : ∀ d', d' ≠ d → fs.node d' (filename p (some start)) = none)
    (lost : ¬ LeadsBack fs d dir) {i : Nat} (after : start < i) (high : i < stop) :
    fs.content d (filename p (some i)) = none := by
  simp only [FileSystem.content, shares.others i after high, FileSystem.maxLinks,
    FileSystem.follow]
  cases walked : fs.walk d dir with
  | none => rfl
  | some d' =>
    have other : d' ≠ d := by
      rintro rfl
      exact lost walked
    simp [elsewhere d' other, FileSystem.fileAt, Except.toOption]

/-- Every index of a range of two or more is read back exactly when the directory is given by
a path that leads back to it. -/
theorem serializeToPaths_readable_iff {c : Codec α} {val : α}
    (reads : Reads c.deserialize (c.serialize val) val) (several : start + 1 < stop)
    (walked : fs.walk here dir = some d)
    (fresh : ∀ i, start ≤ i → i < stop → fs.node d (filename p (some i)) = none)
    (elsewhere : ∀ d', d' ≠ d → fs.node d' (filename p (some start)) = none) :
    ∃ fs', serializeToPaths c val here dir p start stop fs = (.ok (), fs') ∧
      ((∀ i, start ≤ i → i < stop → ∀ there dir', fs.walk there dir' = some d →
        (deserializeFromPath c there dir' p (some i) fs').1 = .ok val) ↔ LeadsBack fs d dir) := by
  obtain ⟨fs', ran, frame, shares, _⟩ := serializeToPaths_run c val (p := p) (by omega) walked fresh
  have back_iff : LeadsBack fs' d dir ↔ LeadsBack fs d dir := by
    rw [LeadsBack, LeadsBack, frame.walk_eq]
  refine ⟨fs', ran, ?_, ?_⟩
  · intro readable
    by_contra lost
    have second := readable (start + 1) (by omega) several here dir walked
    rw [deserializeFromPath_eq_ok c ((frame.walk_eq here dir).trans walked)] at second
    obtain ⟨buf, _, held, _⟩ := second
    rw [shares.content_lost (fun d' other => ?_) (lost ∘ back_iff.mp) (by omega) several] at held
    · cases held
    · rw [frame.kept d' _ (Or.inl other)]
      exact elsewhere d' other
  · intro back i low high there dir' walked'
    rw [deserializeFromPath_eq_ok c ((frame.walk_eq there dir').trans walked')]
    have read := reads.run []
    rw [List.append_nil] at read
    exact ⟨_, [], shares.content_back (back_iff.mpr back) low high, read⟩

end Shared

end CliFiles
