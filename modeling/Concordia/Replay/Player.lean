import Concordia.Lib.Text
import Concordia.Replay.Snapshot

/-!
# Replaying a trace

The whole replay engine: it allocates a buffer for each recorded allocation, writes
the input snapshots of the launches into the buffers one launch after the other, and
compares the buffers with the recorded outputs. Kernels are not executed. How long a
replay takes and what the step callback answers comes from outside (`World`).
-/

namespace Concordia.Replay

open Concordia.Lib DirtyPageTracker Function

/-! ## Traces and configurations -/

structure ReplayTrace where
  /-- PTX sources by module handle -/
  ptxSources : List (UInt64 × String)
  allocations : List TrackedAllocation
  kernelLaunches : List RecordedKernelLaunch
  deriving DecidableEq, Repr

structure ReplayConfig where
  stepMode : Bool := false
  validateOutputs : Bool := true
  kernelFilter : Option String := none
  maxKernels : Option Nat := none
  deriving DecidableEq, Repr

/-- The measured time of the `n`-th replay, and the answer of the step callback
after it. -/
structure World where
  time : Nat → UInt64
  answer : Nat → RecordedKernelLaunch → ValidationResult → Bool

/-- `ReplayEngine`: the trace, and what has been replayed of it. -/
structure Player extends ReplayEngine where
  trace : ReplayTrace
  /-- the modules that have been compiled -/
  compiledModules : UInt64 → Bool
  currentPosition : Nat
  config : ReplayConfig
  validationResults : List ValidationResult
  initialized : Bool
  /-- a step callback has been set -/
  stepCallback : Bool
  /-- how many replays there were -/
  executed : Nat

namespace Player

/-- `ReplayEngine::load`. -/
def load (trace : ReplayTrace) : Player where
  addressMap _ := none
  memoryState _ := none
  trace := trace
  compiledModules _ := false
  currentPosition := 0
  config := {}
  validationResults := []
  initialized := false
  stepCallback := false
  executed := 0

def totalKernels (e : Player) : Nat := e.trace.kernelLaunches.length

def isComplete (e : Player) : Bool := e.currentPosition ≥ e.trace.kernelLaunches.length

end Player

/-! ## Memory -/

/-- Apply snapshots in turn; the first error ends it, with what was written so far. -/
def ReplayEngine.applySnapshots (e : ReplayEngine) : List MemorySnapshot →
    ReplayEngine × Option String
  | [] => (e, none)
  | snapshot :: rest =>
    match e.applySnapshot snapshot with
    | .error err => (e, some err)
    | .ok e' => e'.applySnapshots rest

/-- `((size + 4095) / 4096) * 4096`. -/
def pageAligned (size : UInt64) : UInt64 := (size + 4095) / 4096 * 4096

/-- The address that `VIRTUAL_ADDR` starts with. -/
def firstVirtualAddr : UInt64 := 0x100000000000

namespace Player

/-- One round of `allocate_memory`, with the address that is free next. `none`: no
buffer is that long. -/
def allocate (s : Player × UInt64) (allocation : TrackedAllocation) : Option (Player × UInt64) := do
  let newAddr := s.2
  let data ← zeros allocation.size.toNat
  some ({ s.1 with
    addressMap := update s.1.addressMap allocation.deviceAddr (some newAddr)
    memoryState := update s.1.memoryState newAddr
      (some { deviceAddr := newAddr, data := data, lastSnapshotId := 0 }) },
    newAddr + pageAligned allocation.size)

/-- `allocate_memory`. -/
def allocateMemory (e : Player) (virtualAddr : UInt64) : Option (Player × UInt64) :=
  e.trace.allocations.foldlM allocate (e, virtualAddr)

/-- `compile_modules`. -/
def compileModules (e : Player) : Player :=
  { e with compiledModules := fun handle =>
      e.compiledModules handle || (e.trace.ptxSources.map Prod.fst).contains handle }

def firstInputs (trace : ReplayTrace) : List MemorySnapshot :=
  (trace.kernelLaunches.head?.map (·.inputMemory)).getD []

/-- `reconstruct_initial_memory`. -/
def reconstructInitialMemory (e : Player) : Player × Except String Unit :=
  let (engine, err) := e.applySnapshots (firstInputs e.trace)
  let e := { e with toReplayEngine := engine }
  match err with
  | some err => (e, .error err)
  | none => (e, .ok ())

/-- `initialize`; also the next free address. -/
def initializeEngine (e : Player) (virtualAddr : UInt64) :
    Option (Player × UInt64 × Except String Unit) :=
  if e.initialized then some (e, virtualAddr, .ok ())
  else do
    let (e, virtualAddr) ← e.allocateMemory virtualAddr
    let e := e.compileModules
    match e.reconstructInitialMemory with
    | (e, .error err) => some (e, virtualAddr, .error err)
    | (e, .ok ()) => some ({ e with initialized := true }, virtualAddr, .ok ())

/-! ## Replaying -/

/-- `remap_arguments`. -/
def remapArguments (e : Player) (arguments : List KernelArgument) : List KernelArgument :=
  arguments.map fun arg =>
    match arg.deviceAddr with
    | none => arg
    | some origAddr =>
      match e.addressMap origAddr with
      | some newAddr => { arg with deviceAddr := some newAddr }
      | none => arg

/-- `execute_kernel`: nothing is launched. -/
def executeKernel (e : Player) (launch : RecordedKernelLaunch)
    (_remappedArgs : List KernelArgument) : Except String Unit :=
  if e.compiledModules launch.moduleHandle then .ok ()
  else .error s!"Module 0x{ReplayEngine.hex launch.moduleHandle} not compiled"

/-- The validation of a replay. -/
def validation (e : Player) (launch : RecordedKernelLaunch) (executionTime : UInt64) :
    ValidationResult :=
  let executionResult := e.executeKernel launch (e.remapArguments launch.arguments)
  if e.config.validateOutputs then e.validateKernelOutput launch executionTime
  else {
    kernelSequence := launch.sequenceId
    kernelName := launch.kernelName
    passed := executionResult.isOk
    mismatches := []
    executionTimeRecorded := launch.executionDurationNs.getD 0
    executionTimeReplayed := executionTime }

/-- The filter lets the launch through. -/
def passesFilter (config : ReplayConfig) (launch : RecordedKernelLaunch) : Bool :=
  config.kernelFilter.all fun filter => Text.contains filter.toList launch.kernelName.toList

/-- Where the recursion over the launches that the filter skips arrives. -/
def nextPosition (e : Player) : Nat :=
  e.currentPosition +
    ((e.trace.kernelLaunches.drop e.currentPosition).takeWhile (!passesFilter e.config ·)).length

/-- `replay_next` from the snapshots on, at the launch of the current position. -/
def replayLaunch (w : World) (e : Player) (launch : RecordedKernelLaunch) :
    Player × Except String (Option ValidationResult) :=
  let (engine, err) := e.applySnapshots launch.inputMemory
  let e := { e with toReplayEngine := engine }
  match err with
  | some err => (e, .error err)
  | none =>
    let validation := e.validation launch (w.time e.executed)
    let declined := e.config.stepMode && e.stepCallback && !w.answer e.executed launch validation
    let e := { e with
      validationResults := e.validationResults ++ [validation]
      executed := e.executed + 1 }
    if declined then (e, .ok (some validation))
    else ({ e with currentPosition := e.currentPosition + 1 }, .ok (some validation))

/-- `replay_next`. -/
def replayNext (w : World) (e : Player) : Player × Except String (Option ValidationResult) :=
  if ¬ e.initialized then
    (e, .error "Replay engine not initialized. Call initialize() first.")
  else
    let e := { e with currentPosition := e.nextPosition }
    match e.trace.kernelLaunches[e.currentPosition]? with
    | none => (e, .ok none)
    | some launch => e.replayLaunch w launch

/-! ## The rest of the interface -/

/-- `reset`. -/
def reset (e : Player) : Player := { e with currentPosition := 0, validationResults := [] }

/-- The buffers of `seek`: zeros for every allocation, at the address it has now. -/
def rebuiltMemory (e : Player) : Option (UInt64 → Option ReconstructedMemory) :=
  e.trace.allocations.foldlM (fun memory allocation =>
    match e.addressMap allocation.deviceAddr with
    | none => some memory
    | some newAddr => do
      let data ← zeros allocation.size.toNat
      some (update memory newAddr
        (some { deviceAddr := newAddr, data := data, lastSnapshotId := 0 }))) fun _ => none

/-- The input snapshots of the first `n` launches. -/
def inputsBefore (trace : ReplayTrace) (n : Nat) : List MemorySnapshot :=
  (trace.kernelLaunches.take n).flatMap (·.inputMemory)

/-- `seek`. -/
def seek (e : Player) (position : Nat) : Option (Player × Except String Unit) :=
  if position ≥ e.totalKernels then
    some (e, .error s!"Position {position} out of range (max: {e.totalKernels})")
  else do
    let memory ← e.rebuiltMemory
    let e := { e with memoryState := memory }
    let (engine, err) := e.applySnapshots (inputsBefore e.trace (position + 1))
    let e := { e with toReplayEngine := engine }
    match err with
    | some err => some (e, .error err)
    | none => some ({ e with currentPosition := position }, .ok ())

/-- `read_memory`. -/
def readMemory (e : Player) (originalAddr : UInt64) : Option ByteVec :=
  (e.memory originalAddr).map (·.data)

end Player

structure ReplayResults where
  totalKernels : UInt64 := 0
  passedKernels : UInt64 := 0
  failedKernels : UInt64 := 0
  totalTimeRecordedNs : UInt64 := 0
  totalTimeReplayedNs : UInt64 := 0
  deriving DecidableEq, Repr

/-- One more validation. -/
def ReplayResults.add (results : ReplayResults) (validation : ValidationResult) : ReplayResults :=
  { results with
    totalTimeRecordedNs := results.totalTimeRecordedNs + validation.executionTimeRecorded
    totalTimeReplayedNs := results.totalTimeReplayedNs + validation.executionTimeReplayed
    passedKernels := if validation.passed then results.passedKernels + 1 else results.passedKernels
    failedKernels :=
      if validation.passed then results.failedKernels else results.failedKernels + 1 }

/-- How a call of `replay_all` ends. -/
inductive ReplayOutcome where
  | panicked
  /-- the rounds it was given are over -/
  | outOfRounds
  | returned (e : Player) (result : Except String ReplayResults)

namespace Player

/-- `replay_all` goes on: there is a launch left, before the limit. -/
def more (e : Player) : Bool :=
  !e.isComplete && e.config.maxKernels.all (e.currentPosition < ·)

/-- The loop of `replay_all`, with a bound on its rounds. -/
def replayLoop (w : World) : Nat → Player → ReplayResults → ReplayOutcome
  | 0, _, _ => .outOfRounds
  | rounds + 1, e, results =>
    if ¬ e.more then .returned e (.ok results)
    else
      match e.replayNext w with
      | (e, .error err) => .returned e (.error err)
      | (e, .ok none) => .returned e (.ok results)
      | (e, .ok (some validation)) => replayLoop w rounds e (results.add validation)

/-- `replay_all`. -/
def replayAll (w : World) (virtualAddr : UInt64) (rounds : Nat) (e : Player) : ReplayOutcome :=
  match e.initializeEngine virtualAddr with
  | none => .panicked
  | some (e, _, .error err) => .returned e (.error err)
  | some (e, _, .ok ()) => replayLoop w rounds e { totalKernels := UInt64.ofNat e.totalKernels }

end Player

end Concordia.Replay
