import Concordia.Lib.Bitmap
import Concordia.Lib.Keyed
import Concordia.Lib.Overwrite

/-!
# Memory snapshots of a recording

`DirtyPageTracker` captures the memory of tracked allocations: all of it, the
pages that differ from a shadow copy, or the pages marked as written, with runs of
such pages merged into regions. `ReplayEngine::apply_snapshot` writes a captured
snapshot into reconstructed memory, and `validate_kernel_output` compares
checksums with it.
-/

namespace Concordia.Replay

open Concordia.Lib List

/-- `PAGE_SIZE`. -/
def pageSize : Nat := 4096

/-! ## Snapshots -/

/-- One bit of the checksum. -/
def crc32Bit (crc : UInt32) : UInt32 :=
  if crc &&& 1 ≠ 0 then (crc >>> 1) ^^^ 0xEDB88320 else crc >>> 1

def crc32Byte (crc : UInt32) (byte : UInt8) : UInt32 :=
  (range 8).foldl (fun crc _ => crc32Bit crc) (crc ^^^ byte.toUInt32)

/-- `crc32_checksum`. -/
def crc32Checksum (data : List UInt8) : UInt32 := ~~~(data.foldl crc32Byte 0xFFFFFFFF)

structure DirtyRegion where
  offset : UInt64
  size : UInt64
  data : ByteVec
  deriving DecidableEq, Repr

inductive SnapshotType where
  | full
  | incremental
  | reference (snapshotId : UInt64)
  deriving DecidableEq, Repr

structure MemorySnapshot where
  snapshotId : UInt64
  deviceAddr : UInt64
  allocationSize : UInt64
  snapshotType : SnapshotType
  fullData : Option ByteVec
  dirtyRegions : Option (List DirtyRegion)
  checksum : UInt32
  deriving DecidableEq, Repr

namespace MemorySnapshot

/-- `MemorySnapshot::full`. -/
def full (snapshotId deviceAddr : UInt64) (data : ByteVec) : MemorySnapshot where
  snapshotId := snapshotId
  deviceAddr := deviceAddr
  allocationSize := UInt64.ofNat data.length
  snapshotType := .full
  fullData := some data
  dirtyRegions := none
  checksum := crc32Checksum data.data

/-- `MemorySnapshot::incremental`. -/
def incremental (snapshotId deviceAddr allocationSize : UInt64) (dirtyRegions : List DirtyRegion) :
    MemorySnapshot where
  snapshotId := snapshotId
  deviceAddr := deviceAddr
  allocationSize := allocationSize
  snapshotType := .incremental
  fullData := none
  dirtyRegions := some dirtyRegions
  checksum := crc32Checksum (dirtyRegions.flatMap (·.data.data))

/-- The snapshot of memory that did not change. -/
def unchanged (snapshotId deviceAddr allocationSize lastSeq : UInt64) : MemorySnapshot where
  snapshotId := snapshotId
  deviceAddr := deviceAddr
  allocationSize := allocationSize
  snapshotType := .reference lastSeq
  fullData := none
  dirtyRegions := none
  checksum := 0

end MemorySnapshot

/-! ## Allocations -/

/-- The fields of an allocation that the tracker uses. -/
structure TrackedAllocation where
  deviceAddr : UInt64
  size : UInt64
  dirtyBitmap : List UInt64
  lastSnapshotSeq : UInt64
  shadowCopy : Option ByteVec
  deriving DecidableEq, Repr

namespace TrackedAllocation

/-- `TrackedAllocation::new`. -/
def new (deviceAddr size : UInt64) : TrackedAllocation where
  deviceAddr := deviceAddr
  size := size
  dirtyBitmap := replicate (((size.toNat + pageSize - 1) / pageSize + 63) / 64) 0
  lastSnapshotSeq := 0
  shadowCopy := none

def numPages (allocation : TrackedAllocation) : Nat :=
  (allocation.size.toNat + pageSize - 1) / pageSize

def markPageDirty (allocation : TrackedAllocation) (page : Nat) : TrackedAllocation :=
  if page < allocation.numPages ∧ page / 64 < allocation.dirtyBitmap.length then
    { allocation with
      dirtyBitmap := allocation.dirtyBitmap.modify (page / 64)
        (· ||| 1 <<< UInt64.ofNat (page % 64)) }
  else allocation

def isPageDirty (allocation : TrackedAllocation) (page : Nat) : Bool :=
  if page ≥ allocation.numPages then false
  else if page / 64 < allocation.dirtyBitmap.length then marks allocation.dirtyBitmap page
  else false

def clearDirtyBits (allocation : TrackedAllocation) : TrackedAllocation :=
  { allocation with dirtyBitmap := allocation.dirtyBitmap.map fun _ => 0 }

def markAllDirty (allocation : TrackedAllocation) : TrackedAllocation :=
  { allocation with dirtyBitmap := allocation.dirtyBitmap.map fun _ => ~~~0 }

/-- The address is inside the allocation. -/
def covers (allocation : TrackedAllocation) (addr : UInt64) : Bool :=
  addr ≥ allocation.deviceAddr ∧ addr < allocation.deviceAddr + allocation.size

/-- The pages of `size` bytes from `addr` on. -/
def markRange (allocation : TrackedAllocation) (addr size : UInt64) : TrackedAllocation :=
  let offset := addr - allocation.deviceAddr
  let startPage := offset.toNat / pageSize
  let endPage := ((offset + size).toNat + pageSize - 1) / pageSize
  (List.range' startPage (min endPage allocation.numPages - startPage)).foldl markPageDirty
    allocation

end TrackedAllocation

/-! ## Dirty regions -/

/-- The bytes from `start` to `stop` as a region. -/
def DirtyRegion.of (current : ByteVec) (start stop : Nat) : DirtyRegion where
  offset := UInt64.ofNat start
  size := UInt64.ofNat (stop - start)
  data := current.slice start stop

/-- The regions found, and where the one that is still open starts. -/
structure Scan where
  regions : List DirtyRegion
  regionStart : Option Nat

/-- A page is dirty: a region is open from here on. -/
def Scan.open (scan : Scan) (page : Nat) : Scan :=
  { scan with regionStart := scan.regionStart <|> some (page * pageSize) }

/-- A page is clean: an open region ends before it. -/
def Scan.close (current : ByteVec) (scan : Scan) (page : Nat) : Scan :=
  match scan.regionStart with
  | some start =>
    { regions := scan.regions ++ [.of current start (page * pageSize)], regionStart := none }
  | none => scan

/-- The loop over the pages. `none` leaves it. -/
def scanPages (dirty : Nat → Option Bool) (current : ByteVec) : List Nat → Scan → Scan
  | [], scan => scan
  | page :: pages, scan =>
    match dirty page with
    | none => scan
    | some true => scanPages dirty current pages (scan.open page)
    | some false => scanPages dirty current pages (scan.close current page)

/-- An open region goes to the end. -/
def Scan.finish (current : ByteVec) (scan : Scan) : List DirtyRegion :=
  match scan.regionStart with
  | some start => scan.regions ++ [.of current start current.length]
  | none => scan.regions

/-- `detect_dirty_regions_static`. -/
def detectDirtyRegions (current shadow : ByteVec) (allocation : TrackedAllocation) :
    List DirtyRegion :=
  let dirty := fun page =>
    let pageEnd := min (page * pageSize + pageSize) current.length
    if pageEnd > shadow.length then none
    else some (decide
      (current.slice (page * pageSize) pageEnd ≠ shadow.slice (page * pageSize) pageEnd))
  (scanPages dirty current (range allocation.numPages) ⟨[], none⟩).finish current

/-- The loop of `capture_snapshot` over the dirty bits. -/
def markedRegions (current : ByteVec) (allocation : TrackedAllocation) : List DirtyRegion :=
  (scanPages (fun page => some (allocation.isPageDirty page)) current
    (range allocation.numPages) ⟨[], none⟩).finish current

/-! ## The tracker -/

inductive DirtyTrackingMethod where
  | fullDump
  | softwareShadow
  | checksum
  deriving DecidableEq, Repr

structure DirtyPageTracker where
  allocations : List TrackedAllocation
  method : DirtyTrackingMethod
  snapshotCounter : UInt64
  deriving DecidableEq, Repr

namespace DirtyPageTracker

def new (method : DirtyTrackingMethod) : DirtyPageTracker := ⟨[], method, 0⟩

/-- The allocation with that base address. -/
def allocation (t : DirtyPageTracker) (addr : UInt64) : Option TrackedAllocation :=
  lookup TrackedAllocation.deviceAddr addr t.allocations

def updateAllocation (t : DirtyPageTracker) (addr : UInt64)
    (f : TrackedAllocation → TrackedAllocation) : DirtyPageTracker :=
  { t with allocations := updateFirst TrackedAllocation.deviceAddr addr f t.allocations }

/-- A buffer of zeros (`vec![0u8; size]`); `none` if no buffer is that long. -/
def zeros (size : Nat) : Option ByteVec :=
  if h : size ≤ isizeMax then some { data := replicate size 0, length_le := by simpa using h }
  else none

/-- `untrack_allocation`. -/
def untrackAllocation (t : DirtyPageTracker) (deviceAddr : UInt64) : DirtyPageTracker :=
  { t with allocations := others TrackedAllocation.deviceAddr deviceAddr t.allocations }

/-- `track_allocation`. -/
def trackAllocation (t : DirtyPageTracker) (deviceAddr size : UInt64) : DirtyPageTracker :=
  let allocation := TrackedAllocation.new deviceAddr size
  let allocation :=
    if t.method = .softwareShadow then { allocation with shadowCopy := zeros size.toNat }
    else allocation
  { t with
    allocations := upsert TrackedAllocation.deviceAddr allocation.markAllDirty t.allocations }

/-- `mark_dirty`. -/
def markDirty (t : DirtyPageTracker) (addr size : UInt64) : DirtyPageTracker :=
  match t.allocations.find? (·.covers addr) with
  | none => t
  | some allocation => t.updateAllocation allocation.deviceAddr (·.markRange addr size)

/-- What a capture makes of the memory it read: the snapshot, and the allocation. -/
def snapshotOf (method : DirtyTrackingMethod) (snapshotId : UInt64)
    (allocation : TrackedAllocation) (current : ByteVec) :
    Option (MemorySnapshot × TrackedAllocation) :=
  match method with
  | .fullDump => some (.full snapshotId allocation.deviceAddr current, allocation)
  | .softwareShadow => do
    let shadow ← allocation.shadowCopy
    let dirtyRegions := detectDirtyRegions current shadow allocation
    if dirtyRegions.isEmpty then
      some (.unchanged snapshotId allocation.deviceAddr allocation.size allocation.lastSnapshotSeq,
        allocation)
    else
      some (.incremental snapshotId allocation.deviceAddr allocation.size dirtyRegions,
        { allocation.clearDirtyBits with
          shadowCopy := some current, lastSnapshotSeq := snapshotId })
  | .checksum =>
    let dirtyRegions := markedRegions current allocation
    let allocation' := { allocation.clearDirtyBits with lastSnapshotSeq := snapshotId }
    if dirtyRegions.isEmpty then
      some (.unchanged snapshotId allocation.deviceAddr allocation.size allocation.lastSnapshotSeq,
        allocation')
    else
      some (.incremental snapshotId allocation.deviceAddr allocation.size dirtyRegions, allocation')

/-- `capture_snapshot`, with the callback that reads device memory. -/
def captureSnapshot (t : DirtyPageTracker) (deviceAddr : UInt64)
    (readDeviceMemory : UInt64 → UInt64 → Option ByteVec) :
    Option MemorySnapshot × DirtyPageTracker :=
  let snapshotId := t.snapshotCounter
  let t := { t with snapshotCounter := t.snapshotCounter + 1 }
  match t.allocation deviceAddr with
  | none => (none, t)
  | some allocation =>
    match readDeviceMemory deviceAddr allocation.size with
    | none => (none, t)
    | some current =>
      match snapshotOf t.method snapshotId allocation current with
      | none => (none, t)
      | some (snapshot, allocation') =>
        (some snapshot, t.updateAllocation deviceAddr fun _ => allocation')

end DirtyPageTracker

/-! ## Launches -/

inductive ArgumentType where
  | scalar
  | devicePointer
  | hostPointer
  | texture
  | surface
  deriving DecidableEq, Repr

structure KernelArgument where
  index : UInt32
  size : Nat
  argType : ArgumentType
  deviceAddr : Option UInt64
  scalarData : Option ByteVec
  deriving DecidableEq, Repr

structure RecordedKernelLaunch where
  sequenceId : UInt64
  timestampNs : UInt64
  kernelName : String
  moduleHandle : UInt64
  functionHandle : UInt64
  gridDim : UInt32 × UInt32 × UInt32
  blockDim : UInt32 × UInt32 × UInt32
  sharedMemBytes : UInt32
  streamHandle : UInt64
  arguments : List KernelArgument := []
  inputMemory : List MemorySnapshot := []
  outputMemory : List MemorySnapshot := []
  executionDurationNs : Option UInt64 := none
  deriving DecidableEq, Repr

/-! ## The replay engine -/

structure ReconstructedMemory where
  deviceAddr : UInt64
  data : ByteVec
  lastSnapshotId : UInt64
  deriving DecidableEq, Repr

/-- The address map and the reconstructed memory. -/
structure ReplayEngine where
  addressMap : UInt64 → Option UInt64
  memoryState : UInt64 → Option ReconstructedMemory

/-- Write a snapshot into a buffer. -/
def MemorySnapshot.writeTo (snapshot : MemorySnapshot) (data : ByteVec) : ByteVec :=
  match snapshot.snapshotType with
  | .full =>
    match snapshot.fullData with
    | some full => if full.length ≤ data.length then data.overwrite 0 full.data else data
    | none => data
  | .incremental =>
    match snapshot.dirtyRegions with
    | some regions =>
      regions.foldl (fun data region =>
        if region.offset.toNat + region.size.toNat ≤ data.length ∧
            region.data.length = region.size.toNat then
          data.overwrite region.offset.toNat region.data.data
        else data) data
    | none => data
  | .reference _ => data

namespace ReplayEngine

/-- The reconstructed memory of an allocation of the recording. -/
def memory (e : ReplayEngine) (originalAddr : UInt64) : Option ReconstructedMemory :=
  (e.addressMap originalAddr).bind e.memoryState

/-- `{x:x}`. -/
def hex (x : UInt64) : String := String.ofList (Nat.toDigits 16 x.toNat)

/-- `apply_snapshot`. -/
def applySnapshot (e : ReplayEngine) (snapshot : MemorySnapshot) : Except String ReplayEngine :=
  match e.addressMap snapshot.deviceAddr with
  | none => .error s!"No address mapping for 0x{hex snapshot.deviceAddr}"
  | some newAddr =>
    match e.memoryState newAddr with
    | none => .error s!"No memory state for 0x{hex newAddr}"
    | some memory =>
      .ok { e with
        memoryState := Function.update e.memoryState newAddr (some
          { memory with
            data := snapshot.writeTo memory.data
            lastSnapshotId := snapshot.snapshotId }) }

end ReplayEngine

structure MemoryMismatch where
  address : UInt64
  offset : UInt64
  size : Nat
  expectedChecksum : UInt32
  actualChecksum : UInt32
  deriving DecidableEq, Repr

structure ValidationResult where
  kernelSequence : UInt64
  kernelName : String
  passed : Bool
  mismatches : List MemoryMismatch
  executionTimeRecorded : UInt64
  executionTimeReplayed : UInt64
  deriving DecidableEq, Repr

namespace ReplayEngine

/-- The mismatch that an output snapshot adds, if it adds one. -/
def mismatch (e : ReplayEngine) (snapshot : MemorySnapshot) : Option MemoryMismatch :=
  match e.memory snapshot.deviceAddr with
  | none => none
  | some memory =>
    let actualChecksum := crc32Checksum memory.data.data
    if actualChecksum ≠ snapshot.checksum then
      some {
        address := snapshot.deviceAddr
        offset := 0
        size := memory.data.length
        expectedChecksum := snapshot.checksum
        actualChecksum := actualChecksum }
    else none

/-- `validate_kernel_output`. -/
def validateKernelOutput (e : ReplayEngine) (launch : RecordedKernelLaunch)
    (executionTime : UInt64) : ValidationResult :=
  let mismatches := launch.outputMemory.filterMap e.mismatch
  { kernelSequence := launch.sequenceId
    kernelName := launch.kernelName
    passed := mismatches.isEmpty
    mismatches := mismatches
    executionTimeRecorded := launch.executionDurationNs.getD 0
    executionTimeReplayed := executionTime }

end ReplayEngine

end Concordia.Replay
