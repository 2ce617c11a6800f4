import Hekaton.Transcript

/-!
# Portal managers

A circuit body reaches the portal wires only through `get` and `set`, so it is a
program over these two calls and its own gadgets, run with any portal manager. The
setup managers record a trace; the prover managers consume a witnessed trace and emit
the checks of the address-ordered entries, of the timestamps and of the evaluations.
-/

namespace PortalManager

open Outcomes Wires Synthesis Contracts Uint32 Transcript

/-- The body of a subcircuit: gadgets and portal calls. -/
inductive Program (F D α : Type) : Type 1 where
  | done (a : α)
  | gadget {β : Type} (m : Synth F D β) (rest : β → Program F D α)
  | get (name : String) (rest : Wire F D .field → Program F D α)
  | set (name : String) (val : Wire F D .field) (rest : Program F D α)

namespace Program
variable {F D α β : Type}

protected def bind : Program F D α → (α → Program F D β) → Program F D β
  | done a, f => f a
  | gadget m rest, f => gadget m fun b => (rest b).bind f
  | get name rest, f => get name fun w => (rest w).bind f
  | set name val rest, f => set name val (rest.bind f)

instance : Monad (Program F D) where
  pure := done
  bind := Program.bind

/-- A gadget of the constraint library, as one step of a body. -/
def lift (m : Synth F D α) : Program F D α := gadget m done

def portalGet (name : String) : Program F D (Wire F D .field) := get name done

def portalSet (name : String) (val : Wire F D .field) : Program F D Unit :=
  set name val (done ())

end Program

/-- `get` and `set` of portal wires, on managers of type `PM`. -/
class Manager (F D PM : Type) where
  get : PM → String → Synth F D (Wire F D .field × PM)
  set : PM → String → Wire F D .field → Synth F D PM

namespace Program
variable {F D α : Type}

/-- Run a body with a portal manager. -/
def run {PM : Type} [Manager F D PM] : Program F D α → PM → Synth F D (α × PM)
  | done a, pm => pure (a, pm)
  | gadget m rest, pm => do
      let b ← m
      (rest b).run pm
  | get name rest, pm => do
      let r ← Manager.get pm name
      (rest r.1).run r.2
  | set name val rest, pm => do
      let pm ← Manager.set pm name val
      rest.run pm

end Program

/-- The names of wires end in numbers, which can be told from their digits. -/
theorem decimal_injective {m n : Nat} (same : toString m = toString n) : m = n := by
  have digits := congrArg (fun s : String => Nat.ofDigitChars 10 s.toList 0) same
  simpa using digits

section Setup
variable {F D : Type}

def mustStart : String :=
  "must run start_subtrace() before using SetupPortalManager"

/-- Push onto the last subtrace. -/
def pushEntry {α : Type} : List (List α) → α → Outcome (List (List α))
  | [], _ => panicWith mustStart
  | [subtrace], e => .ok [subtrace ++ [e]]
  | subtrace :: rest, e => do
      let rest ← pushEntry rest e
      .ok (subtrace :: rest)

def unknownWire (name : String) : String := "cannot get portal wire '" ++ name ++ "'"

structure SetupRomPortalManager (F : Type) where
  subtraces : List (List (TranscriptEntry F .rom))
  nextVarAddr : Nat
  varMap : String → Option (RomEntry Nat F)

namespace SetupRomPortalManager

/-- Addresses start at 1; 0 is reserved for padding. -/
def new : SetupRomPortalManager F := ⟨[], 1, fun _ => none⟩

def startSubtrace (pm : SetupRomPortalManager F) : SetupRomPortalManager F :=
  { pm with subtraces := pm.subtraces ++ [[]] }

def get (pm : SetupRomPortalManager F) (name : String) :
    Synth F D (Wire F D .field × SetupRomPortalManager F) := do
  let entry ← Synth.lift (expect (unknownWire name) (pm.varMap name))
  let valVar ← Synth.newWitness .field entry.val
  let subtraces ← Synth.lift (pushEntry pm.subtraces (.rom entry))
  pure (valVar, { pm with subtraces := subtraces })

variable [Field F] [DecidableEq F] [Inhabited D] [DecidableEq D]

def set (pm : SetupRomPortalManager F) (name : String) (val : Wire F D .field) :
    Synth F D (SetupRomPortalManager F) := do
  if (pm.varMap name).isSome then
    Synth.lift (panicWith ("cannot set portal wire more than once; wire '" ++ name ++ "'"))
  else
    let value ← Synth.value val
    let entry : RomEntry Nat F := ⟨pm.nextVarAddr, value⟩
    let subtraces ← Synth.lift (pushEntry pm.subtraces (.rom entry))
    pure ⟨subtraces, pm.nextVarAddr + 1, Function.update pm.varMap name (some entry)⟩

instance : Manager F D (SetupRomPortalManager F) where
  get := get
  set := set

end SetupRomPortalManager

structure AddressManager where
  addresses : String → Option Nat
  currentAddress : Nat

namespace AddressManager

def new : AddressManager := ⟨fun _ => none, 1⟩

/-- The address of a name; an unseen name is given the next one. -/
def nameToAddr (am : AddressManager) (name : String) : Nat × AddressManager :=
  match am.addresses name with
  | some address => (address, am)
  | none => (am.currentAddress,
      ⟨Function.update am.addresses name (some am.currentAddress), am.currentAddress + 1⟩)

end AddressManager

structure SetupRamPortalManager (F : Type) where
  subtraces : List (List (TranscriptEntry F .ram))
  address : AddressManager
  timeIndex : Unsigned32
  varMap : String → Option F

namespace SetupRamPortalManager

def new : SetupRamPortalManager F := ⟨[], .new, Unsigned32.default, fun _ => none⟩

def startSubtrace (pm : SetupRamPortalManager F) : SetupRamPortalManager F :=
  { pm with subtraces := pm.subtraces ++ [[]] }

def get (pm : SetupRamPortalManager F) (name : String) :
    Synth F D (Wire F D .field × SetupRamPortalManager F) := do
  let value ← Synth.lift (expect (unknownWire name) (pm.varMap name))
  let valVar ← Synth.newWitness .field value
  let (addr, address) := pm.address.nameToAddr name
  let subtraces ← Synth.lift (pushEntry pm.subtraces (.ram ⟨addr, value, pm.timeIndex, true⟩))
  pure (valVar, ⟨subtraces, address, pm.timeIndex.incrementInplace, pm.varMap⟩)

variable [Field F] [DecidableEq F] [Inhabited D] [DecidableEq D]

def set (pm : SetupRamPortalManager F) (name : String) (val : Wire F D .field) :
    Synth F D (SetupRamPortalManager F) := do
  let value ← Synth.value val
  let (addr, address) := pm.address.nameToAddr name
  let subtraces ← Synth.lift (pushEntry pm.subtraces (.ram ⟨addr, value, pm.timeIndex, false⟩))
  pure ⟨subtraces, address, pm.timeIndex.incrementInplace,
    Function.update pm.varMap name (some value)⟩

instance : Manager F D (SetupRamPortalManager F) where
  get := get
  set := set

end SetupRamPortalManager
end Setup

/-- A prover's manager: both subtraces, the address-ordered one with the previous
subcircuit's last entry first, and the evaluations up to the next entry. -/
structure ProverPortalManager (F D : Type) (m : MemType) where
  timeOrderedSubtrace : List (TranscriptEntryVar F D m)
  addrOrderedSubtrace : List (TranscriptEntryVar F D m)
  runningEvals : RunningEvaluationVar F D m
  nextEntryIdx : Nat

abbrev RomProverPortalManager (F D : Type) := ProverPortalManager F D .rom

abbrev RamProverPortalManager (F D : Type) := ProverPortalManager F D .ram

def ProverPortalManager.new {F D : Type} {m : MemType}
    (timeOrderedSubtrace addrOrderedSubtrace : List (TranscriptEntryVar F D m))
    (runningEvals : RunningEvaluationVar F D m) : ProverPortalManager F D m :=
  ⟨timeOrderedSubtrace, addrOrderedSubtrace, runningEvals, 0⟩

def outOfTimeEntries : String := "ran out of time-ordered subtrace entries"

def outOfAddrEntries : String := "ran out of addr-ordered subtrace entries"

section Prover
variable {F D : Type} [Field F]

/-- The ROM checks of two adjacent address-ordered entries. -/
def romAddrCheck : TranscriptEntryVar F D .rom → TranscriptEntryVar F D .rom → Synth F D Unit
  | .rom current, .rom next => do
      let isAddrSame ← Synth.isEq next.addr current.addr
      let isAddrIncreasing ← Synth.isEq next.addr (.add current.addr (.constant (1 : F)))
      let sameOrIncreasing ← Synth.or isAddrSame isAddrIncreasing
      Synth.enforceEqual sameOrIncreasing (.constant true)
      Synth.conditionalEnforceEqual current.val next.val isAddrSame

/-- The RAM checks of two adjacent address-ordered entries. -/
def ramAddrCheck : TranscriptEntryVar F D .ram → TranscriptEntryVar F D .ram → Synth F D Unit
  | .ram current, .ram next => do
      let isAddrSame ← Synth.isEq next.addr current.addr
      let isAddrIncreasing ← Synth.isEq next.addr (.add current.addr (.constant (1 : F)))
      let sameOrIncreasing ← Synth.or isAddrSame isAddrIncreasing
      Synth.enforceEqual sameOrIncreasing (.constant true)
      Synth.conditionalEnforceEqual next.read (.constant false) isAddrIncreasing
      let nextIsRead ← Synth.isEq next.read (.constant true)
      let addrSameAndNextIsRead ← Synth.and isAddrSame nextIsRead
      Synth.conditionalEnforceEqual next.val current.val addrSameAndNextIsRead
      let isLater ← isGreaterThan next.i.bits current.i.bits
      Synth.conditionalEnforceEqual isLater (.constant true) isAddrSame

/-- The RAM check of two adjacent time-ordered entries. -/
def ramTimeCheck : TranscriptEntryVar F D .ram → TranscriptEntryVar F D .ram → Synth F D Unit
  | .ram current, .ram next => do
      let t ← incrementInplace current.i.bits
      Uint32.enforceEqual t next.i.bits

/-- ROM compares entry `k` of the prepended address trace with entry `k + 1`. -/
def RomProverPortalManager.get (pm : RomProverPortalManager F D) :
    Synth F D (Wire F D .field × RomProverPortalManager F D) := do
  let currentTimeEntry ← Synth.lift
    (expect outOfTimeEntries pm.timeOrderedSubtrace[pm.nextEntryIdx]?)
  let currentAddrEntry ← Synth.lift
    (expect outOfAddrEntries pm.addrOrderedSubtrace[pm.nextEntryIdx]?)
  let runningEvals ← pm.runningEvals.updateTimeOrdered currentTimeEntry
  let nextAddrEntry ← Synth.lift
    (expect unwrapNone pm.addrOrderedSubtrace[pm.nextEntryIdx + 1]?)
  romAddrCheck currentAddrEntry nextAddrEntry
  let runningEvals ← runningEvals.updateAddrOrdered nextAddrEntry
  pure (currentTimeEntry.val,
    { pm with runningEvals := runningEvals, nextEntryIdx := pm.nextEntryIdx + 1 })

/-- The address check, when the trace has a next entry. -/
def nextAddrCheck (pm : RamProverPortalManager F D) (current : TranscriptEntryVar F D .ram) :
    Synth F D Unit :=
  match pm.addrOrderedSubtrace[pm.nextEntryIdx + 2]? with
  | some next => ramAddrCheck current next
  | none => pure ()

/-- The timestamp check, when the trace has a next entry. -/
def nextTimeCheck (pm : RamProverPortalManager F D) (current : TranscriptEntryVar F D .ram) :
    Synth F D Unit :=
  if pm.nextEntryIdx < pm.timeOrderedSubtrace.length - 1 then do
    let next ← Synth.lift (expect unwrapNone pm.timeOrderedSubtrace[pm.nextEntryIdx + 1]?)
    ramTimeCheck current next
  else pure ()

/-- RAM compares entry `k + 1` of the prepended address trace with entry `k + 2`. -/
def RamProverPortalManager.get (pm : RamProverPortalManager F D) :
    Synth F D (Wire F D .field × RamProverPortalManager F D) := do
  let currentTimeEntry ← Synth.lift
    (expect outOfTimeEntries pm.timeOrderedSubtrace[pm.nextEntryIdx]?)
  let currentAddrEntry ← Synth.lift
    (expect outOfAddrEntries pm.addrOrderedSubtrace[pm.nextEntryIdx + 1]?)
  let runningEvals ← pm.runningEvals.updateTimeOrdered currentTimeEntry
  let runningEvals ← runningEvals.updateAddrOrdered currentAddrEntry
  nextAddrCheck pm currentAddrEntry
  nextTimeCheck pm currentTimeEntry
  pure (currentTimeEntry.val,
    { pm with runningEvals := runningEvals, nextEntryIdx := pm.nextEntryIdx + 1 })

namespace ProverPortalManager
variable {m : MemType}

/-- The name of the wire is not used by either manager. -/
def get (pm : ProverPortalManager F D m) (_name : String) :
    Synth F D (Wire F D .field × ProverPortalManager F D m) :=
  match m, pm with
  | .rom, pm => RomProverPortalManager.get pm
  | .ram, pm => RamProverPortalManager.get pm

/-- A set is a get whose value is enforced to be `val`. -/
def set (pm : ProverPortalManager F D m) (name : String) (val : Wire F D .field) :
    Synth F D (ProverPortalManager F D m) := do
  let r ← pm.get name
  Synth.enforceEqual val r.1
  pure r.2

instance : Manager F D (ProverPortalManager F D m) where
  get := get
  set := set

end ProverPortalManager
end Prover
end PortalManager
