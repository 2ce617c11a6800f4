import Mathlib.Data.List.Basic
import Mathlib.Data.Set.Basic
import Mathlib.Logic.Function.Basic

/-!
# File systems

Directories hold files and symbolic links under names. A path is walked part by part from the
root or from a directory, and a link is read from the directory that holds it. Where all links
are under some names and lead to such names, other files are written without a change to these.
-/

namespace FileSystems

/-- The parts of a directory's name from the root. -/
abbrev Directory := List String

/-- A path to a directory, from the root or from where it is read. -/
structure DirectoryPath where
  absolute : Bool
  parts : List String
  deriving DecidableEq

/-- A path to a file. -/
structure Path where
  directory : DirectoryPath
  name : String
  deriving DecidableEq

inductive Node (V : Type) where
  | file (content : V)
  | link (target : Path)
  deriving DecidableEq

inductive IoError where
  | notFound
  | alreadyExists
  | tooManyLinks
  deriving DecidableEq

structure FileSystem (V : Type) where
  isDirectory : Directory → Bool
  node : Directory → String → Option (Node V)

namespace FileSystem
variable {V : Type}

def enter (fs : FileSystem V) (here : Directory) (part : String) : Option Directory :=
  if part = "." then some here
  else if part = ".." then some here.dropLast
  else if fs.isDirectory (here ++ [part]) then some (here ++ [part])
  else none

def walk (fs : FileSystem V) (here : Directory) (path : DirectoryPath) : Option Directory :=
  path.parts.foldlM fs.enter (if path.absolute then [] else here)

/-- Where a path leads in the end, after this many links at most. -/
def follow (fs : FileSystem V) : Nat → Directory → Path → Except IoError (Directory × String)
  | 0, _, _ => .error .tooManyLinks
  | fuel + 1, here, path =>
    match fs.walk here path.directory with
    | none => .error .notFound
    | some d =>
      match fs.node d path.name with
      | some (.link target) => fs.follow fuel d target
      | _ => .ok (d, path.name)

/-- The links that the kernel follows. -/
def maxLinks : Nat := 40

def fileAt (fs : FileSystem V) (place : Directory × String) : Except IoError V :=
  match fs.node place.1 place.2 with
  | some (.file content) => .ok content
  | _ => .error .notFound

/-- Open a file and read it to its end. -/
def read (fs : FileSystem V) (here : Directory) (path : Path) : Except IoError V := do
  let place ← fs.follow (maxLinks + 1) here path
  fs.fileAt place

def put (fs : FileSystem V) (d : Directory) (name : String) (node : Node V) : FileSystem V where
  isDirectory := fs.isDirectory
  node := Function.update fs.node d (Function.update (fs.node d) name (some node))

/-- Create a file, or empty the one that the path leads to, and write it. -/
def create (fs : FileSystem V) (here : Directory) (path : Path) (content : V) :
    Except IoError (FileSystem V) := do
  let (d, name) ← fs.follow (maxLinks + 1) here path
  .ok (fs.put d name (.file content))

/-- A new link; nothing may have its name, and its target is not looked at. -/
def symlink (fs : FileSystem V) (here : Directory) (target path : Path) :
    Except IoError (FileSystem V) :=
  match fs.walk here path.directory with
  | none => .error .notFound
  | some d =>
    match fs.node d path.name with
    | some _ => .error .alreadyExists
    | none => .ok (fs.put d path.name (.link target))

/-- The place holds no link. -/
def Plain (fs : FileSystem V) (d : Directory) (name : String) : Prop :=
  ∀ target, fs.node d name ≠ some (.link target)

@[simp] theorem put_isDirectory (fs : FileSystem V) (d : Directory) (name : String)
    (node : Node V) : (fs.put d name node).isDirectory = fs.isDirectory := rfl

@[simp] theorem put_node_self (fs : FileSystem V) (d : Directory) (name : String)
    (node : Node V) : (fs.put d name node).node d name = some node := by
  simp [put]

theorem put_node_of_ne (fs : FileSystem V) {d d' : Directory} {name name' : String}
    (node : Node V) (other : d' ≠ d ∨ name' ≠ name) :
    (fs.put d name node).node d' name' = fs.node d' name' := by
  by_cases same : d' = d
  · subst same
    have apart : name' ≠ name := other.resolve_left fun differ => differ rfl
    simp [put, apart]
  · simp [put, same]

@[simp] theorem put_walk (fs : FileSystem V) (d : Directory) (name : String) (node : Node V)
    (here : Directory) (path : DirectoryPath) :
    (fs.put d name node).walk here path = fs.walk here path := rfl

theorem walk_congr {fs fs' : FileSystem V} (same : fs'.isDirectory = fs.isDirectory)
    (here : Directory) (path : DirectoryPath) : fs'.walk here path = fs.walk here path := by
  have entered : fs'.enter = fs.enter := by
    funext here part
    simp [enter, same]
  simp [walk, entered]

/-- A path from the root leads to the same directory from everywhere. -/
theorem walk_absolute (fs : FileSystem V) {path : DirectoryPath} (absolute : path.absolute = true)
    (here there : Directory) : fs.walk here path = fs.walk there path := by
  simp [walk, absolute]

theorem follow_of_plain (fs : FileSystem V) {here d : Directory} (path : Path) (fuel : Nat)
    (walked : fs.walk here path.directory = some d) (plain : fs.Plain d path.name) :
    fs.follow (fuel + 1) here path = .ok (d, path.name) := by
  rw [follow, walked]
  cases found : fs.node d path.name with
  | none => simp [found]
  | some node =>
    cases node with
    | file content => simp [found]
    | link target => exact absurd found (plain target)

theorem follow_of_link (fs : FileSystem V) {here d : Directory} {path target : Path} (fuel : Nat)
    (walked : fs.walk here path.directory = some d)
    (linked : fs.node d path.name = some (.link target)) :
    fs.follow (fuel + 1) here path = fs.follow fuel d target := by
  rw [follow, walked]
  simp [linked]

/-- What is read at a place of a directory. -/
def content (fs : FileSystem V) (d : Directory) (name : String) : Option V :=
  match fs.node d name with
  | none => none
  | some (.file content) => some content
  | some (.link target) =>
    match fs.follow maxLinks d target with
    | .ok place => (fs.fileAt place).toOption
    | .error _ => none

theorem read_eq_ok (fs : FileSystem V) {here d : Directory} (path : Path)
    (walked : fs.walk here path.directory = some d) (content : V) :
    fs.read here path = .ok content ↔ fs.content d path.name = some content := by
  cases found : fs.node d path.name with
  | none =>
    have plain : fs.Plain d path.name := fun target linked => by cases found.symm.trans linked
    simp [read, fs.follow_of_plain path maxLinks walked plain, FileSystem.content, found, bind,
      Except.bind, fileAt]
  | some node =>
    cases node with
    | file content' =>
      have plain : fs.Plain d path.name := fun target linked => by cases found.symm.trans linked
      simp [read, fs.follow_of_plain path maxLinks walked plain, FileSystem.content, found, bind,
        Except.bind, fileAt]
    | link target =>
      rw [read, fs.follow_of_link maxLinks walked found, FileSystem.content, found]
      cases followed : fs.follow maxLinks d target with
      | error e => simp [bind, Except.bind, followed]
      | ok place =>
        change fs.fileAt place = .ok content ↔ _
        cases held : fs.fileAt place <;> simp [followed, held, Except.toOption]

theorem create_of_plain (fs : FileSystem V) {here d : Directory} (path : Path)
    (walked : fs.walk here path.directory = some d) (plain : fs.Plain d path.name) (content : V) :
    fs.create here path content = .ok (fs.put d path.name (.file content)) := by
  rw [create, fs.follow_of_plain path maxLinks walked plain]
  rfl

@[simp] theorem content_put_self (fs : FileSystem V) (d : Directory) (name : String) (content : V) :
    (fs.put d name (.file content)).content d name = some content := by
  simp [FileSystem.content]

/-- Only these names of one directory are changed. -/
structure Frame (fs fs' : FileSystem V) (d : Directory) (names : Set String) : Prop where
  directories : fs'.isDirectory = fs.isDirectory
  kept : ∀ d' name, (d' ≠ d ∨ name ∉ names) → fs'.node d' name = fs.node d' name

namespace Frame
variable {fs fs₁ fs₂ : FileSystem V} {d : Directory} {names names₁ names₂ : Set String}

theorem refl (fs : FileSystem V) (d : Directory) (names : Set String) : Frame fs fs d names :=
  ⟨rfl, fun _ _ _ => rfl⟩

theorem put (fs : FileSystem V) {d : Directory} {name : String} (node : Node V)
    (member : name ∈ names) : Frame fs (fs.put d name node) d names where
  directories := rfl
  kept d' name' other := by
    apply fs.put_node_of_ne
    exact other.imp_right fun outside same => outside (same ▸ member)

theorem trans (first : Frame fs fs₁ d names₁) (second : Frame fs₁ fs₂ d names₂) :
    Frame fs fs₂ d (names₁ ∪ names₂) where
  directories := second.directories.trans first.directories
  kept d' name other := by
    have outside₁ : d' ≠ d ∨ name ∉ names₁ := other.imp_right fun out inside => out (Or.inl inside)
    have outside₂ : d' ≠ d ∨ name ∉ names₂ := other.imp_right fun out inside => out (Or.inr inside)
    exact (second.kept d' name outside₂).trans (first.kept d' name outside₁)

theorem mono (frame : Frame fs fs₁ d names) (more : names ⊆ names₁) : Frame fs fs₁ d names₁ where
  directories := frame.directories
  kept d' name other := frame.kept d' name (other.imp_right fun out inside => out (more inside))

theorem walk_eq (frame : Frame fs fs₁ d names) (here : Directory) (path : DirectoryPath) :
    fs₁.walk here path = fs.walk here path :=
  walk_congr frame.directories here path

end Frame

/-- Links are under these names and lead to these names. -/
structure LinksWithin (fs : FileSystem V) (names : Set String) : Prop where
  held : ∀ d name target, fs.node d name = some (.link target) → name ∈ names
  target : ∀ d name target, fs.node d name = some (.link target) → target.name ∈ names

variable {names : Set String} {fs : FileSystem V}

theorem LinksWithin.plain (within : fs.LinksWithin names) {name : String} (other : name ∉ names)
    (d : Directory) : fs.Plain d name :=
  fun target linked => other (within.held d name target linked)

/-- A node that keeps to the names, if it is a link. -/
theorem LinksWithin.put (within : fs.LinksWithin names) (d : Directory) (name : String)
    {node : Node V} (keeps : ∀ target, node = .link target → name ∈ names ∧ target.name ∈ names) :
    (fs.put d name node).LinksWithin names := by
  have each : ∀ d' name' target, (fs.put d name node).node d' name' = some (.link target) →
      name' ∈ names ∧ target.name ∈ names := by
    intro d' name' target linked
    by_cases here : d' = d ∧ name' = name
    · obtain ⟨rfl, rfl⟩ := here
      rw [put_node_self] at linked
      exact keeps target (Option.some.inj linked)
    · rw [put_node_of_ne] at linked
      · exact ⟨within.held d' name' target linked, within.target d' name' target linked⟩
      · by_cases same : d' = d
        · exact Or.inr fun sameName => here ⟨same, sameName⟩
        · exact Or.inl same
  exact ⟨fun d' name' target linked => (each d' name' target linked).1,
    fun d' name' target linked => (each d' name' target linked).2⟩

theorem LinksWithin.put_file (within : fs.LinksWithin names) (d : Directory) (name : String)
    (content : V) : (fs.put d name (.file content)).LinksWithin names :=
  within.put d name fun target same => by cases same

theorem LinksWithin.put_link (within : fs.LinksWithin names) (d : Directory) {name : String}
    {target : Path} (held : name ∈ names) (targeted : target.name ∈ names) :
    (fs.put d name (.link target)).LinksWithin names := by
  apply within.put
  intro target' same
  cases same
  exact ⟨held, targeted⟩

theorem LinksWithin.follow_put (within : fs.LinksWithin names) {name : String}
    (other : name ∉ names) (d : Directory) (node : Node V) (fuel : Nat) (here : Directory)
    {path : Path} (named : path.name ∈ names) :
    (fs.put d name node).follow fuel here path = fs.follow fuel here path ∧
      ∀ place, fs.follow fuel here path = .ok place → place.2 ∈ names := by
  induction fuel generalizing here path with
  | zero => exact ⟨rfl, fun place ran => by cases ran⟩
  | succ fuel ih =>
    have apart : path.name ≠ name := fun same => other (same ▸ named)
    rw [follow, follow, put_walk]
    cases fs.walk here path.directory with
    | none => exact ⟨rfl, fun place ran => by cases ran⟩
    | some d' =>
      dsimp only
      rw [fs.put_node_of_ne node (Or.inr apart)]
      cases found : fs.node d' path.name with
      | none =>
        refine ⟨rfl, fun place ran => ?_⟩
        cases ran
        exact named
      | some node' =>
        cases node' with
        | file content =>
          refine ⟨rfl, fun place ran => ?_⟩
          cases ran
          exact named
        | link target => exact ih d' (within.target d' path.name target found)

/-- A file under another name leaves what is read under these names. -/
theorem LinksWithin.content_put (within : fs.LinksWithin names) {name name' : String}
    (other : name ∉ names) (d d' : Directory) (node : Node V) (apart : d' ≠ d ∨ name' ≠ name) :
    (fs.put d name node).content d' name' = fs.content d' name' := by
  rw [FileSystem.content, FileSystem.content, fs.put_node_of_ne node apart]
  cases found : fs.node d' name' with
  | none => rfl
  | some node' =>
    cases node' with
    | file content => rfl
    | link target =>
      obtain ⟨same, inside⟩ := within.follow_put other d node maxLinks d'
        (within.target d' name' target found)
      simp only [same]
      cases followed : fs.follow maxLinks d' target with
      | error e => rfl
      | ok place =>
        have here : place.2 ≠ name := fun same => other (same ▸ inside place followed)
        simp only [fileAt, fs.put_node_of_ne node (Or.inr here)]

end FileSystem

end FileSystems
