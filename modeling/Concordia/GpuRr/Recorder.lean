import Mathlib

/-!
# The GPU recorder

`GpuRecorder` keeps the kernel that is being recorded outside the recording and moves it
there when it is completed. Starting a kernel puts a new one in its place, whatever was
there. What the recording should hold is the log of the calls (`Log`): every kernel
started, with the instructions recorded while it was open.
-/

namespace Concordia.GpuRr

open Nat hiding log
open List Option

inductive MemoryAccessType where
  | load
  | store
  | atomic
  | prefetch
  deriving DecidableEq, Repr

inductive MemorySpace where
  | global
  | shared
  | local_
  | constant
  | texture
  | surface
  deriving DecidableEq, Repr

structure MemoryAccess where
  accessType : MemoryAccessType
  space : MemorySpace
  address : UInt64
  size : UInt32
  data : List UInt8
  threadMask : UInt64
  deriving DecidableEq, Repr

inductive BranchType where
  | conditional
  | unconditional
  | call
  | return_
  | exit
  | sync
  deriving DecidableEq, Repr

structure ControlFlowRecord where
  branchType : BranchType
  source : UInt64
  target : UInt64
  takenMask : UInt64
  fallthroughMask : UInt64
  isDivergent : Bool
  deriving DecidableEq, Repr

/-- An executed instruction; `ρ` is the type of register states. -/
structure InstructionRecord (ρ : Type) where
  address : UInt64
  sequence : UInt64
  warpId : UInt32
  activeMask : UInt64
  registersBefore : Option ρ
  registersAfter : Option ρ
  memoryAccess : Option MemoryAccess
  controlFlow : Option ControlFlowRecord
  deriving DecidableEq, Repr

structure MemoryStats where
  globalLoads : Nat
  globalStores : Nat
  sharedLoads : Nat
  sharedStores : Nat
  atomics : Nat
  totalBytesLoaded : Nat
  totalBytesStored : Nat
  deriving DecidableEq, Repr

structure KernelStats where
  totalInstructions : Nat
  memoryOps : MemoryStats
  branches : Nat
  divergentBranches : Nat
  deriving DecidableEq, Repr

/-- `EnhancedSassInstruction`: its address and the rest. -/
structure EnhancedSassInstruction (ι : Type) where
  address : UInt64
  details : ι
  deriving DecidableEq, Repr

structure KernelRecording (ι ρ : Type) where
  name : String
  entryAddress : UInt64
  instructions : List (EnhancedSassInstruction ι)
  executionRecords : List (InstructionRecord ρ)
  stats : KernelStats
  deriving DecidableEq, Repr

open KernelRecording

inductive TimelineEventType where
  | kernelLaunch
  | kernelComplete
  deriving DecidableEq, Repr

structure TimelineEvent where
  eventType : TimelineEventType
  timestampNs : UInt64
  data : String
  deriving DecidableEq, Repr

structure GpuRecording (ι ρ : Type) where
  kernels : List (KernelRecording ι ρ)
  events : List TimelineEvent
  totalDurationNs : UInt64
  deriving DecidableEq, Repr

structure GpuRecorder (ι ρ : Type) where
  recording : GpuRecording ι ρ
  sequence : UInt64
  currentKernel : Option (KernelRecording ι ρ)
  deriving DecidableEq, Repr

open GpuRecorder

variable {ι ρ : Type}

/-! ## The calls -/

def GpuRecorder.new : GpuRecorder ι ρ := ⟨⟨[], [], 0⟩, 0, none⟩

def KernelStats.zero : KernelStats := ⟨0, ⟨0, 0, 0, 0, 0, 0, 0⟩, 0, 0⟩

def GpuRecorder.event (s : GpuRecorder ι ρ) (eventType : TimelineEventType) (now : UInt64)
    (data : String) : GpuRecorder ι ρ :=
  { s with recording.events := s.recording.events ++ [⟨eventType, now, data⟩] }

/-- `start_kernel`. -/
def GpuRecorder.startKernel (s : GpuRecorder ι ρ) (name : String)
    (instructions : List (EnhancedSassInstruction ι)) (now : UInt64) : GpuRecorder ι ρ :=
  let entryAddress := (instructions.head?.map (·.address)).getD 0
  let s := { s with currentKernel := some ⟨name, entryAddress, instructions, [], .zero⟩ }
  s.event .kernelLaunch now name

/-- The record as it was before anything else was said about the instruction. -/
def newRecord (address sequence : UInt64) (warpId : UInt32) (activeMask : UInt64)
    (registersBefore registersAfter : Option ρ) : InstructionRecord ρ :=
  ⟨address, sequence, warpId, activeMask, registersBefore, registersAfter, none, none⟩

/-- A record appended to the open kernel. -/
def KernelRecording.push (k : KernelRecording ι ρ) (record : InstructionRecord ρ) :
    KernelRecording ι ρ :=
  { k with
    executionRecords := k.executionRecords ++ [record]
    stats.totalInstructions := k.stats.totalInstructions + 1 }

/-- `record_instruction`. The sequence number is used up also when no kernel is open. -/
def GpuRecorder.recordInstruction (s : GpuRecorder ι ρ) (address : UInt64) (warpId : UInt32)
    (activeMask : UInt64) (registersBefore registersAfter : Option ρ) : GpuRecorder ι ρ :=
  let record := newRecord address s.sequence warpId activeMask registersBefore registersAfter
  { s with
    currentKernel := s.currentKernel.map (·.push record)
    sequence := s.sequence + 1 }

/-- A change to the last record and the statistics, made only if the record is about this
address. -/
def KernelRecording.amendLast (k : KernelRecording ι ρ) (address : UInt64)
    (amend : InstructionRecord ρ → InstructionRecord ρ) (count : KernelStats → KernelStats) :
    KernelRecording ι ρ :=
  match k.executionRecords.getLast? with
  | none => k
  | some last =>
    if last.address = address then
      { k with
        executionRecords := k.executionRecords.dropLast ++ [amend last]
        stats := count k.stats }
    else k

/-- The statistics of a memory access. -/
def MemoryStats.count (m : MemoryStats) (accessType : MemoryAccessType) (space : MemorySpace)
    (size : UInt32) : MemoryStats :=
  match accessType, space with
  | .load, .global =>
    { m with globalLoads := m.globalLoads + 1, totalBytesLoaded := m.totalBytesLoaded + size.toNat }
  | .store, .global =>
    { m with
      globalStores := m.globalStores + 1
      totalBytesStored := m.totalBytesStored + size.toNat }
  | .load, .shared => { m with sharedLoads := m.sharedLoads + 1 }
  | .store, .shared => { m with sharedStores := m.sharedStores + 1 }
  | .atomic, _ => { m with atomics := m.atomics + 1 }
  | _, _ => m

/-- `record_memory_access`. -/
def GpuRecorder.recordMemoryAccess (s : GpuRecorder ι ρ) (address memAddress : UInt64)
    (accessType : MemoryAccessType) (space : MemorySpace) (size : UInt32) (data : List UInt8) :
    GpuRecorder ι ρ :=
  let amend (last : InstructionRecord ρ) : InstructionRecord ρ :=
    { last with
      memoryAccess := some ⟨accessType, space, memAddress, size, data, last.activeMask⟩ }
  let count (stats : KernelStats) : KernelStats :=
    { stats with memoryOps := stats.memoryOps.count accessType space size }
  { s with currentKernel := s.currentKernel.map (·.amendLast address amend count) }

/-- `record_control_flow`. A mask with a bit set is one that is not zero. -/
def GpuRecorder.recordControlFlow (s : GpuRecorder ι ρ) (address : UInt64)
    (branchType : BranchType) (target takenMask fallthroughMask : UInt64) : GpuRecorder ι ρ :=
  let isDivergent := decide (takenMask ≠ 0) && decide (fallthroughMask ≠ 0)
  let amend (last : InstructionRecord ρ) : InstructionRecord ρ :=
    { last with
      controlFlow := some ⟨branchType, address, target, takenMask, fallthroughMask, isDivergent⟩ }
  let count (stats : KernelStats) : KernelStats :=
    { stats with
      branches := stats.branches + 1
      divergentBranches := stats.divergentBranches + isDivergent.toNat }
  { s with currentKernel := s.currentKernel.map (·.amendLast address amend count) }

/-- `complete_kernel`. -/
def GpuRecorder.completeKernel (s : GpuRecorder ι ρ) (now : UInt64) : GpuRecorder ι ρ :=
  match s.currentKernel with
  | none => s
  | some kernel =>
    let s := { s with currentKernel := none, recording.kernels := s.recording.kernels ++ [kernel] }
    s.event .kernelComplete now kernel.name

/-- `finalize`: a kernel in progress is completed, and the duration is set. -/
def GpuRecorder.finalize (s : GpuRecorder ι ρ) (now : UInt64) : GpuRecording ι ρ :=
  let recording := (s.completeKernel now).recording
  match recording.events.head?, recording.events.getLast? with
  | some first, some last =>
    { recording with totalDurationNs := last.timestampNs - first.timestampNs }
  | _, _ => recording

/-- A call to the recorder, with the time it reads. -/
inductive Call (ι ρ : Type) where
  | startKernel (name : String) (instructions : List (EnhancedSassInstruction ι)) (now : UInt64)
  | recordInstruction (address : UInt64) (warpId : UInt32) (activeMask : UInt64)
      (registersBefore registersAfter : Option ρ)
  | recordMemoryAccess (address memAddress : UInt64) (accessType : MemoryAccessType)
      (space : MemorySpace) (size : UInt32) (data : List UInt8)
  | recordControlFlow (address : UInt64) (branchType : BranchType)
      (target takenMask fallthroughMask : UInt64)
  | completeKernel (now : UInt64)

def GpuRecorder.step (s : GpuRecorder ι ρ) : Call ι ρ → GpuRecorder ι ρ
  | .startKernel name instructions now => s.startKernel name instructions now
  | .recordInstruction address warpId activeMask registersBefore registersAfter =>
    s.recordInstruction address warpId activeMask registersBefore registersAfter
  | .recordMemoryAccess address memAddress accessType space size data =>
    s.recordMemoryAccess address memAddress accessType space size data
  | .recordControlFlow address branchType target takenMask fallthroughMask =>
    s.recordControlFlow address branchType target takenMask fallthroughMask
  | .completeKernel now => s.completeKernel now

def GpuRecorder.run (s : GpuRecorder ι ρ) (calls : List (Call ι ρ)) : GpuRecorder ι ρ :=
  calls.foldl GpuRecorder.step s

/-! ## What should be recorded -/

/-- An instruction as it was recorded. -/
structure Recorded (ρ : Type) where
  address : UInt64
  warpId : UInt32
  activeMask : UInt64
  registersBefore : Option ρ
  registersAfter : Option ρ
  deriving DecidableEq, Repr

/-- A kernel by its name and the instructions recorded in it. -/
abbrev KernelLog (ρ : Type) : Type := String × List (Recorded ρ)

/-- The kernels started so far, in order; the last one may be open. -/
structure Log (ρ : Type) where
  closed : List (KernelLog ρ)
  current : Option (KernelLog ρ)

namespace Log

def empty : Log ρ := ⟨[], none⟩

def kernels (l : Log ρ) : List (KernelLog ρ) := l.closed ++ l.current.toList

/-- A kernel is open from its start to the next start or completion. -/
def step (l : Log ρ) : Call ι ρ → Log ρ
  | .startKernel name _ _ => ⟨l.kernels, some (name, [])⟩
  | .recordInstruction address warpId activeMask registersBefore registersAfter =>
    { l with
      current := l.current.map fun k =>
        (k.1, k.2 ++ [⟨address, warpId, activeMask, registersBefore, registersAfter⟩]) }
  | .completeKernel _ => ⟨l.kernels, none⟩
  | _ => l

def run (l : Log ρ) (calls : List (Call ι ρ)) : Log ρ := calls.foldl step l

end Log

def InstructionRecord.recorded (r : InstructionRecord ρ) : Recorded ρ :=
  ⟨r.address, r.warpId, r.activeMask, r.registersBefore, r.registersAfter⟩

def KernelRecording.log (k : KernelRecording ι ρ) : KernelLog ρ :=
  (k.name, k.executionRecords.map InstructionRecord.recorded)

/-- The kernels in which something was recorded. -/
def inhabited (kernels : List (KernelLog ρ)) : List (KernelLog ρ) :=
  kernels.filter fun k => !k.2.isEmpty

/-- The recording holds every instruction, in order, under the kernel it belongs to: its
kernels and those of the log are the same as far as anything was recorded in them. -/
def Keeps (recording : GpuRecording ι ρ) (l : Log ρ) : Prop :=
  inhabited (recording.kernels.map log) = inhabited l.kernels

/-- The sequence numbers increase across the whole recording. -/
def Increasing (recording : GpuRecording ι ρ) : Prop :=
  ((recording.kernels.flatMap (·.executionRecords)).map (·.sequence)).Pairwise (· < ·)

/-- The call does not start a kernel while the open one holds a record. -/
def DropsNothing (s : GpuRecorder ι ρ) (call : Call ι ρ) : Prop :=
  ∀ name instructions now, call = .startKernel name instructions now →
    ∀ k ∈ s.currentKernel, k.executionRecords = []

/-- No call drops an open kernel's records. -/
def Careful (s : GpuRecorder ι ρ) : List (Call ι ρ) → Prop
  | [] => True
  | call :: calls => DropsNothing s call ∧ Careful (s.step call) calls

/-! ## The steps -/

variable {amend : InstructionRecord ρ → InstructionRecord ρ}

theorem map_records_amendLast {β : Type} (g : InstructionRecord ρ → β) (k : KernelRecording ι ρ)
    (address : UInt64) (count : KernelStats → KernelStats) (h : ∀ r, g (amend r) = g r) :
    (k.amendLast address amend count).executionRecords.map g = k.executionRecords.map g := by
  unfold amendLast
  cases hlast : k.executionRecords.getLast? with
  | none => rfl
  | some last =>
    have hsplit := dropLast_append_getLast? last hlast
    by_cases ha : last.address = address
    · simp only [ha, if_true, map_append, map_cons, map_nil, h]
      rw [← map_singleton, ← map_append, hsplit]
    · simp only [ha, if_false]

theorem amendLast_name (k : KernelRecording ι ρ) (address : UInt64)
    (amend : InstructionRecord ρ → InstructionRecord ρ) (count : KernelStats → KernelStats) :
    (k.amendLast address amend count).name = k.name := by
  unfold amendLast
  split
  · rfl
  · split <;> rfl

theorem log_amendLast (k : KernelRecording ι ρ) (address : UInt64)
    (count : KernelStats → KernelStats) (h : ∀ r, (amend r).recorded = r.recorded) :
    (k.amendLast address amend count).log = k.log := by
  rw [log, log, amendLast_name,
    map_records_amendLast InstructionRecord.recorded k address count h]

theorem log_push (k : KernelRecording ι ρ) (r : InstructionRecord ρ) :
    (k.push r).log = (k.log.1, k.log.2 ++ [r.recorded]) := by
  simp [log, push]

variable {s : GpuRecorder ι ρ} {l : Log ρ}

/-- The open kernel is the one of the log, whatever calls were made before. -/
theorem current_step (h : s.currentKernel.map log = l.current) (call : Call ι ρ) :
    (s.step call).currentKernel.map log = (l.step call).current := by
  cases call with
  | startKernel name instructions now => rfl
  | recordInstruction address warpId activeMask before after =>
    simp only [step, recordInstruction, Log.step, ← h, Option.map_map]
    congr 1
    funext k
    exact log_push k _
  | recordMemoryAccess address memAddress accessType space size data =>
    simp only [step, recordMemoryAccess, Log.step, ← h, Option.map_map]
    congr 1
    funext k
    exact log_amendLast k address _ fun _ => rfl
  | recordControlFlow address branchType target takenMask fallthroughMask =>
    simp only [step, recordControlFlow, Log.step, ← h, Option.map_map]
    congr 1
    funext k
    exact log_amendLast k address _ fun _ => rfl
  | completeKernel now =>
    simp only [step, completeKernel, Log.step]
    cases hs : s.currentKernel with
    | none => simp [hs]
    | some kernel => rfl

/-- The kernels of the recording: only a completion adds one. -/
theorem kernels_step (s : GpuRecorder ι ρ) (call : Call ι ρ) :
    (s.step call).recording.kernels = s.recording.kernels ++
      match call with
      | .completeKernel _ => s.currentKernel.toList
      | _ => [] := by
  cases call with
  | completeKernel now =>
    simp only [step, completeKernel]
    cases s.currentKernel with
    | none => simp
    | some kernel => rfl
  | _ => exact (append_nil _).symm

/-- The closed kernels of the log: a start adds the open kernel as well. -/
theorem closed_step (l : Log ρ) (call : Call ι ρ) :
    (l.step call).closed = l.closed ++
      match call with
      | .completeKernel _ | .startKernel _ _ _ => l.current.toList
      | _ => [] := by
  cases call with
  | completeKernel now => rfl
  | startKernel name instructions now => rfl
  | _ => exact (append_nil _).symm

/-! ## Whether anything is lost -/

theorem inhabited_append (a b : List (KernelLog ρ)) :
    inhabited (a ++ b) = inhabited a ++ inhabited b := filter_append a b

/-- The number of instructions. -/
def total (kernels : List (KernelLog ρ)) : Nat := (kernels.map fun k => k.2.length).sum

theorem total_append (a b : List (KernelLog ρ)) : total (a ++ b) = total a + total b := by
  simp [total]

theorem total_inhabited (kernels : List (KernelLog ρ)) :
    total (inhabited kernels) = total kernels := by
  induction kernels with
  | nil => rfl
  | cons k kernels ih =>
    by_cases hk : k.2 = []
    · simpa [inhabited, total, hk] using ih
    · simpa [inhabited, total, hk] using ih

def GpuRecorder.logs (s : GpuRecorder ι ρ) : List (KernelLog ρ) :=
  s.recording.kernels.map log

theorem logs_toList (h : s.currentKernel.map log = l.current) :
    s.currentKernel.toList.map log = l.current.toList := by
  rw [← h]
  cases s.currentKernel <;> rfl

variable {call : Call ι ρ}

section

variable (hcurrent : s.currentKernel.map log = l.current)

include hcurrent

/-- One call, when it is careful. -/
theorem inhabited_step (hsame : inhabited s.logs = inhabited l.closed)
    (hcareful : DropsNothing s call) :
    inhabited (s.step call).logs = inhabited (l.step call).closed := by
  rw [logs, kernels_step, closed_step, map_append, inhabited_append,
    inhabited_append]
  refine congrArg₂ _ hsame ?_
  cases call with
  | completeKernel now => rw [logs_toList hcurrent]
  | startKernel name instructions now =>
    -- the open kernel is dropped, but it holds nothing
    have hempty := hcareful name instructions now rfl
    rw [← logs_toList hcurrent]
    cases hk : s.currentKernel with
    | none => rfl
    | some k => simp [inhabited, log, hempty k hk]
  | _ => rfl

/-- Instructions that are missing stay missing. -/
theorem total_step_lt (hlost : total s.logs < total l.closed) (call : Call ι ρ) :
    total (s.step call).logs < total (l.step call).closed := by
  rw [logs, kernels_step, closed_step, map_append, total_append, total_append]
  cases call with
  | completeKernel now =>
    rw [logs_toList hcurrent]
    exact Nat.add_lt_add_right hlost _
  | startKernel name instructions now => exact Nat.lt_of_lt_of_le hlost (Nat.le_add_right _ _)
  | _ => exact hlost

theorem total_run_lt (hlost : total s.logs < total l.closed) (calls : List (Call ι ρ)) :
    total (s.run calls).logs < total (l.run calls).closed := by
  induction calls generalizing s l with
  | nil => exact hlost
  | cons call calls ih => exact ih (current_step hcurrent call) (total_step_lt hcurrent hlost call)

/-- A start that drops records loses them. -/
theorem total_lt_of_careless (hsame : inhabited s.logs = inhabited l.closed)
    (hcareless : ¬ DropsNothing s call) :
    total (s.step call).logs < total (l.step call).closed := by
  unfold DropsNothing at hcareless
  push Not at hcareless
  obtain ⟨name, instructions, now, rfl, k, hk, hrecords⟩ := hcareless
  have htotal : total s.logs = total l.closed := by
    rw [← total_inhabited, hsame, total_inhabited]
  have hcur : l.current.toList = [k.log] := by
    rw [← logs_toList hcurrent, mem_def.mp hk]
    rfl
  have hpos : 0 < total [k.log] := by
    simpa [total, log, length_pos_iff] using hrecords
  rw [logs, kernels_step, closed_step, append_nil]
  change total s.logs < total (l.closed ++ l.current.toList)
  rw [hcur, total_append, htotal]
  exact Nat.lt_add_of_pos_right hpos

/-- The kernels agree after a run exactly when it was careful. -/
theorem inhabited_run_iff (hsame : inhabited s.logs = inhabited l.closed) (calls : List (Call ι
    ρ)) :
    inhabited (s.run calls).logs = inhabited (l.run calls).closed ↔ Careful s calls := by
  induction calls generalizing s l with
  | nil => exact ⟨fun _ => trivial, fun _ => hsame⟩
  | cons call calls ih =>
    by_cases hcare : DropsNothing s call
    · have hnext := ih (current_step hcurrent call) (inhabited_step hcurrent hsame hcare)
      exact hnext.trans ⟨fun h => ⟨hcare, h⟩, fun h => h.2⟩
    · have hlost := total_run_lt (current_step hcurrent call)
        (total_lt_of_careless hcurrent hsame hcare) calls
      refine ⟨fun h => ?_, fun h => absurd h.1 hcare⟩
      have htotal := congrArg total h
      rw [total_inhabited, total_inhabited] at htotal
      exact absurd htotal (Nat.ne_of_lt hlost)

end

theorem current_run (h : s.currentKernel.map log = l.current)
    (calls : List (Call ι ρ)) :
    (s.run calls).currentKernel.map log = (l.run calls).current := by
  induction calls generalizing s l with
  | nil => exact h
  | cons call calls ih => exact ih (current_step h call)

theorem finalize_kernels (s : GpuRecorder ι ρ) (now : UInt64) :
    (s.finalize now).kernels = s.recording.kernels ++ s.currentKernel.toList := by
  have hcomplete := kernels_step s (.completeKernel now)
  rw [← hcomplete, finalize]
  split <;> rfl

/-! ## Sequence numbers -/

/-- The sequence numbers held by the recorder. -/
def GpuRecorder.sequences (s : GpuRecorder ι ρ) : List UInt64 :=
  (s.recording.kernels ++ s.currentKernel.toList).flatMap fun k =>
    k.executionRecords.map (·.sequence)

/-- After `n` recorded instructions: the counter is `n`, and the numbers given out
increase and are below it. -/
structure Numbered (n : Nat) (s : GpuRecorder ι ρ) : Prop where
  counter : s.sequence = UInt64.ofNat n
  below : ∀ x ∈ s.sequences, x.toNat < n
  sorted : s.sequences.Pairwise (· < ·)

def Call.isRecord : Call ι ρ → Bool
  | .recordInstruction .. => true
  | _ => false

/-- A call that records nothing gives out no number. -/
theorem sequences_step (s : GpuRecorder ι ρ) (h : call.isRecord = false) :
    (s.step call).sequences.Sublist s.sequences := by
  cases call with
  | startKernel name instructions now =>
    have hnew : (s.step (.startKernel name instructions now)).sequences =
        s.recording.kernels.flatMap fun k => k.executionRecords.map (·.sequence) := by
      simp [sequences, step, startKernel, event]
    rw [hnew, sequences, flatMap_append]
    exact sublist_append_left _ _
  | recordInstruction address warpId activeMask before after => cases h
  | recordMemoryAccess address memAddress accessType space size data =>
    simp only [sequences, step, recordMemoryAccess,
      flatMap_append]
    cases s.currentKernel with
    | none => exact .refl _
    | some k =>
      simp only [map_some, toList_some, flatMap_cons, flatMap_nil,
        append_nil]
      rw [map_records_amendLast (·.sequence) k address]
      intro r
      rfl
  | recordControlFlow address branchType target takenMask fallthroughMask =>
    simp only [sequences, step, recordControlFlow,
      flatMap_append]
    cases s.currentKernel with
    | none => exact .refl _
    | some k =>
      simp only [map_some, toList_some, flatMap_cons, flatMap_nil,
        append_nil]
      rw [map_records_amendLast (·.sequence) k address]
      intro r
      rfl
  | completeKernel now =>
    simp only [sequences, step, GpuRecorder.completeKernel]
    cases hk : s.currentKernel with
    | none => simp [hk]
    | some k => simp [event]

/-- A recorded instruction gets the number of the counter. -/
theorem sequences_recordInstruction (s : GpuRecorder ι ρ) (address : UInt64) (warpId : UInt32)
    (activeMask : UInt64) (before after : Option ρ) :
    (s.step (.recordInstruction address warpId activeMask before after)).sequences.Sublist
      (s.sequences ++ [s.sequence]) := by
  simp only [sequences, step, recordInstruction]
  cases s.currentKernel with
  | none => simp
  | some k => simp [push, newRecord]

theorem Numbered.step {n : Nat} (h : Numbered n s) (call : Call ι ρ)
    (hn : n + call.isRecord.toNat ≤ 2 ^ 64) : Numbered (n + call.isRecord.toNat) (s.step call) := by
  cases hcall : call.isRecord with
  | false =>
    have hsub := sequences_step s hcall
    refine ⟨?_, fun x hx => h.below x (hsub.subset hx), h.sorted.sublist hsub⟩
    have hsame : (s.step call).sequence = s.sequence := by
      cases call with
      | recordInstruction address warpId activeMask before after => cases hcall
      | completeKernel now =>
        simp only [GpuRecorder.step, GpuRecorder.completeKernel]
        split <;> rfl
      | _ => rfl
    rw [hsame]
    exact h.counter
  | true =>
    rw [hcall] at hn
    have hlt : n < 2 ^ 64 := hn
    cases call with
    | recordInstruction address warpId activeMask before after =>
      have hsub := sequences_recordInstruction s address warpId activeMask before after
      have hnat : s.sequence.toNat = n := by
        rw [h.counter, UInt64.toNat_ofNat', mod_eq_of_lt hlt]
      refine ⟨?_, fun x hx => ?_, ?_⟩
      · change s.sequence + 1 = _
        rw [h.counter, UInt64.ofNat_add]
        rfl
      · rcases mem_append.mp (hsub.subset hx) with hx | hx
        · exact lt_succ_of_lt (h.below x hx)
        · rw [mem_singleton.mp hx, hnat]
          exact lt_succ_self n
      · refine List.Pairwise.sublist hsub ?_
        refine pairwise_append.mpr ⟨h.sorted, pairwise_singleton _ _, ?_⟩
        intro x hx y hy
        rw [mem_singleton.mp hy, UInt64.lt_iff_toNat_lt, hnat]
        exact h.below x hx
    | _ => cases hcall

theorem Numbered.run {n : Nat} (h : Numbered n s) (calls : List (Call ι ρ))
    (hn : n + calls.countP Call.isRecord ≤ 2 ^ 64) :
    Numbered (n + calls.countP Call.isRecord) (s.run calls) := by
  induction calls generalizing n s with
  | nil => exact h
  | cons call calls ih =>
    have hcount : (call :: calls).countP Call.isRecord =
        call.isRecord.toNat + calls.countP Call.isRecord := by
      rw [countP_cons, add_comm]
      cases call.isRecord <;> rfl
    rw [hcount, ← add_assoc] at hn ⊢
    exact ih (h.step call (by omega)) hn

theorem numbered_new : Numbered 0 (new : GpuRecorder ι ρ) where
  counter := rfl
  below _ hx := absurd hx not_mem_nil
  sorted := List.Pairwise.nil

theorem increasing_of_numbered {n : Nat} (h : Numbered n s) (now : UInt64) :
    Increasing (s.finalize now) := by
  rw [Increasing, finalize_kernels, map_flatMap]
  exact h.sorted

/-! ## The recording -/

/-- **The recording of a run.** It holds every instruction under its kernel exactly when no
kernel was started while the open one held a record, and its sequence numbers increase as
long as the counter has not wrapped. -/
theorem finalize_keeps (calls : List (Call ι ρ)) (now : UInt64) :
    (Keeps ((new.run calls).finalize now) (Log.empty.run calls) ↔
      Careful new calls) ∧
    (calls.countP Call.isRecord ≤ 2 ^ 64 →
      Increasing ((new.run calls).finalize now)) := by
  have hcurrent := current_run (s := (new : GpuRecorder ι ρ)) (l := Log.empty) rfl calls
  constructor
  · rw [← inhabited_run_iff (l := Log.empty) rfl rfl calls, Keeps, finalize_kernels,
      map_append, logs_toList hcurrent, inhabited_append, Log.kernels, inhabited_append]
    exact append_left_inj _
  · intro hcount
    exact increasing_of_numbered (numbered_new.run calls (by omega)) now

/-- Two kernels with a completion between them. -/
theorem finalize_keeps_two :
    Careful (new : GpuRecorder Unit Unit)
      [.startKernel "a" [] 0, .recordInstruction 0 0 1 none none, .completeKernel 1,
        .startKernel "b" [] 2, .recordInstruction 16 0 1 none none] ∧
    Increasing ((new : GpuRecorder Unit Unit).run
      [.startKernel "a" [] 0, .recordInstruction 0 0 1 none none, .completeKernel 1,
        .startKernel "b" [] 2, .recordInstruction 16 0 1 none none] |>.finalize 3) := by
  have h := finalize_keeps (ι := Unit) (ρ := Unit)
    [.startKernel "a" [] 0, .recordInstruction 0 0 1 none none, .completeKernel 1,
      .startKernel "b" [] 2, .recordInstruction 16 0 1 none none] 3
  exact ⟨h.1.mp (by unfold Keeps; decide), h.2 (by decide)⟩

/-- A second start drops the first kernel with its record. -/
theorem start_drops_open_kernel :
    ((new : GpuRecorder Unit Unit).run
      [.startKernel "a" [] 0, .recordInstruction 0 0 1 none none, .startKernel "b" [] 1]
        |>.finalize 2).kernels.map log = [("b", [])] ∧
    (Log.empty.run (ι := Unit) (ρ := Unit)
      [.startKernel "a" [] 0, .recordInstruction 0 0 1 none none, .startKernel "b" [] 1]).kernels =
        [("a", [⟨0, 0, 1, none, none⟩]), ("b", [])] := by
  decide

end Concordia.GpuRr
