import Concordia.Lib.Fallible
import Concordia.Lib.Paged
import Concordia.Aof.Log
import Concordia.Delta.State
import Concordia.Kimi.Manager
import Concordia.Lib.Bitmap

/-!
# Device checkpoints of the region manager

`checkpoint_device_regions` logs the pages of each region: all of them when the
region is first seen, then those that changed, as told by the allocator's dirty
bitmap or by a scan of the device against a shadow copy. `restore_device_region`
writes the logged pages back, at the places the new block table gives them.

Device memory is one byte per address. The buffers the manager allocates for a
region are kept apart from it, and the worker runs a task as one step. Which
driver, worker and log operations of a call fail is an argument.
-/

namespace Concordia.Kimi

open Concordia.Lib Concordia.Lib.LittleEndian Concordia.Aof Concordia.Delta List

/-- The buffers of a region: device memory the manager owns. -/
structure DeviceCheckpointResources where
  shadow : List UInt8
  bitmap : List UInt64
  aofStagingBytes : Nat
  deriving DecidableEq, Repr

structure Device where
  manager : KimiConcordiaManager
  /-- `region.device`, by region pointer -/
  resources : UInt64 → Option DeviceCheckpointResources
  memory : UInt64 → UInt8
  nextEpoch : UInt64
  /-- a worker is running -/
  worker : Bool
  /-- the records of the append-only file: it holds `encodeLog log` -/
  log : List AofRecord

abbrev DeviceM := FallibleM Device

/-! ## Operations that may fail -/

/-- A driver, worker or log operation, with the region and the page offset it is
for. -/
inductive DeviceOp where
  -- `initialize_device_region`
  | allocShadow (ptr : UInt64)
  | allocBitmap (ptr : UInt64)
  | clearNewBitmap (ptr : UInt64)
  | allocStaging (ptr : UInt64)
  | readBase (ptr : UInt64) (offset : Nat)
  | writeShadow (ptr : UInt64) (offset : Nat)
  | appendBase (ptr : UInt64) (offset : Nat)
  -- `scan_device_region`
  | readBlockTable (ptr : UInt64)
  | readDirtyBitmap (ptr : UInt64)
  | clearBitmap (ptr : UInt64)
  | startScanWorker (ptr : UInt64)
  | enqueueScan (ptr : UInt64)
  | readBitmap (ptr : UInt64)
  | startStageWorker (ptr : UInt64)
  | enqueueStage (ptr : UInt64) (offset : Nat)
  | refreshShadow (ptr : UInt64) (offset : Nat)
  | appendPage (ptr : UInt64) (offset : Nat)
  -- `restore_device_region`
  | allocRestoreStaging (ptr : UInt64)
  | startRestoreWorker (ptr : UInt64)
  | enqueueRestore (ptr : UInt64) (offset : Nat)
  deriving DecidableEq, Repr

/-- Which operations fail, and with what message. -/
abbrev Faults := DeviceOp → Option String

section

variable (fails : Faults)

def attempt (op : DeviceOp) : DeviceM Unit :=
  match fails op with
  | none => pure ()
  | some err => throw err

namespace Device

/-- `raw_device_to_host`. -/
def read (d : Device) (addr : UInt64) (len : Nat) : List UInt8 :=
  (range len).map fun i => d.memory (addr + UInt64.ofNat i)

/-- A copy to device memory. -/
def write (d : Device) (addr : UInt64) (bytes : List UInt8) : Device :=
  { d with memory := fun a => bytes.getD (a - addr).toNat (d.memory a) }

def setResources (d : Device) (ptr : UInt64) (resources : DeviceCheckpointResources) : Device :=
  { d with resources := Function.update d.resources ptr (some resources) }

@[simp] theorem length_read (d : Device) (addr : UInt64) (len : Nat) :
    (d.read addr len).length = len := by simp [read]

end Device

def readPage (d : Device) (addr : UInt64) : ByteVec where
  data := d.read addr pageSize
  length_le := by rw [Device.length_read]; decide

/-- `self.allocations.get(&ptr).ok_or_else(..)`. -/
def trackedRegion (ptr : UInt64) : DeviceM KimiTrackedRegion := do
  let d ← get
  match d.manager.region ptr with
  | some region => pure region
  | none => throw s!"unknown Kimi Concordia allocation 0x{KimiConcordiaManager.hex ptr}"

/-- `region.device.as_ref().ok_or_else(..)`. -/
def checkpointResources (region : KimiTrackedRegion) : DeviceM DeviceCheckpointResources := do
  let d ← get
  match d.resources region.ptr with
  | some resources => pure resources
  | none => throw s!"region {region.regionId} has no checkpoint resources"

/-- `let epoch = self.next_epoch; self.next_epoch = self.next_epoch.saturating_add(1)`. -/
def takeEpoch : DeviceM UInt64 := do
  let d ← get
  modify fun d => { d with nextEpoch := KimiConcordiaManager.saturatingSucc d.nextEpoch }
  pure d.nextEpoch

def shutdownWorker : DeviceM Unit := modify fun d => { d with worker := false }

def ensureWorker (op : DeviceOp) : DeviceM Unit := do
  let d ← get
  if d.worker then pure ()
  else
    attempt fails op
    modify fun d => { d with worker := true }

/-- `append_record`. A failing append writes nothing. -/
def appendRecord (op : DeviceOp) (epoch regionId : UInt64) (offset : Nat) (payload : ByteVec) :
    DeviceM Unit := do
  attempt fails op
  modify fun d => { d with log := d.log ++
    [{ epoch := epoch, regionId := regionId, offset := UInt64.ofNat offset, payload := payload }] }

/-! ## The base snapshot -/

/-- One page of the base snapshot; `shadow` is the new shadow buffer so far. -/
def basePage (ptr epoch regionId : UInt64) (shadow : List UInt8) (offset : Nat) :
    DeviceM (List UInt8) := do
  attempt fails (.readBase ptr offset)
  let d ← get
  let payload := readPage d (ptr + UInt64.ofNat offset)
  attempt fails (.writeShadow ptr offset)
  appendRecord fails (.appendBase ptr offset) epoch regionId offset payload
  pure (overwrite shadow offset payload.data)

/-- `page_count.div_ceil(64).max(1)`. -/
def bitmapWords (pageCount : Nat) : Nat := max ((pageCount + 63) / 64) 1

def KimiTrackedRegion.markInitialized (region : KimiTrackedRegion) : KimiTrackedRegion :=
  { region with initialized := true }

/-- `initialize_device_region`. What the new shadow buffer holds before the loop
does not matter: every page of it is written. -/
def initializeDeviceRegion (ptr : UInt64) : DeviceM Unit := do
  let region ← trackedRegion ptr
  let pageCount := region.trackedSize / pageSize
  shutdownWorker
  attempt fails (.allocShadow ptr)
  attempt fails (.allocBitmap ptr)
  attempt fails (.clearNewBitmap ptr)
  attempt fails (.allocStaging ptr)
  let epoch ← takeEpoch
  let shadow ← (stepBy region.trackedSize pageSize).foldlM
    (basePage fails ptr epoch region.regionId) (replicate region.trackedSize 0)
  modify fun d => { d with manager := d.manager.updateRegion ptr (·.markInitialized) }
  modify (·.setResources ptr
    { shadow := shadow, bitmap := replicate (bitmapWords pageCount) 0
      aofStagingBytes := pageSize })

/-! ## Finding the dirty pages -/

def dirtyPageOffsetsFromWords (bitmapWords : List UInt64) (pageCount : Nat) : List Nat :=
  ((range pageCount).filter fun page =>
    wordMarks (bitmapWords.getD (page / 64) 0) (page % 64)).map (· * pageSize)

def dirtyPageOffsetsFromBitmapBytes (bitmap : List UInt8) (pageCount : Nat) : List Nat :=
  ((range pageCount).filter (bitmapMarks bitmap)).map (· * pageSize)

/-- Some byte of the page differs from the shadow. -/
def pageDirty (current shadow : List UInt8) (p : Nat) : Bool :=
  ((page pageSize current p).zip (page pageSize shadow p)).any fun (v, w) => v ≠ w

/-- One page of `do_dirty_scan`: a page that differs is copied into the shadow
and marked. -/
def dirtyScanPage (current : List UInt8) (acc : List UInt8 × List UInt64) (p : Nat) :
    List UInt8 × List UInt64 :=
  if pageDirty current acc.1 p then
    (overwrite acc.1 (p * pageSize) (page pageSize current p),
      acc.2.modify (p / 64) (· ||| 1 <<< UInt64.ofNat (p % 64)))
  else acc

/-- `do_dirty_scan`. The threads take different pages, so their order does not
matter. -/
def doDirtyScan (pageCount : Nat) (current shadow : List UInt8) (bitmap : List UInt64) :
    List UInt8 × List UInt64 :=
  (range pageCount).foldl (dirtyScanPage current) (shadow, bitmap)

/-- `chunks_exact(n)`. -/
def chunksExact {α : Type} (n : Nat) (l : List α) : List (List α) :=
  (range (l.length / n)).map (page n l)

/-- `decode_block_table_snapshot`. -/
def decodeBlockTableSnapshot (bytes : List UInt8) : List UInt32 :=
  (chunksExact 4 bytes).map fun chunk => UInt32.ofNat (ofLe chunk)

/-- Replace the block table snapshot of a region that has an allocator. -/
def KimiTrackedRegion.withSnapshot (region : KimiTrackedRegion) (snapshot : List UInt32) :
    KimiTrackedRegion :=
  { region with allocator := region.allocator.map fun allocator =>
      { allocator with blockTableSnapshot := snapshot } }

/-- `allocator_with_current_snapshot`. -/
def allocatorWithCurrentSnapshot (ptr : UInt64) (metadata : KimiAllocatorMetadata) :
    DeviceM KimiAllocatorMetadata :=
  if metadata.blockTablePtr = 0 ∨ metadata.blockCount = 0 then pure metadata
  else if 2 ^ 64 ≤ metadata.blockCount * 4 then
    throw s!"KV block table byte length overflow for {metadata.blockCount} entries"
  else do
    attempt fails (.readBlockTable ptr)
    let d ← get
    let snapshot :=
      decodeBlockTableSnapshot (d.read metadata.blockTablePtr (metadata.blockCount * 4))
    modify fun d => { d with
      manager := (d.manager.updateRegion ptr (·.withSnapshot snapshot)).upsertManifestForPtr ptr }
    pure { metadata with blockTableSnapshot := snapshot }

/-- The dirty pages of a region with an allocator, from its bitmap. -/
def allocatorOffsets (ptr : UInt64) (metadata : KimiAllocatorMetadata) (pageCount : Nat) :
    DeviceM (List Nat) := do
  let metadata ← allocatorWithCurrentSnapshot fails ptr metadata
  attempt fails (.readDirtyBitmap ptr)
  let d ← get
  pure (dirtyPageOffsetsFromBitmapBytes (d.read metadata.dirtyBitmapPtr metadata.dirtyBitmapBytes)
    pageCount)

/-- The dirty pages of a region without one, from a scan on the device. -/
def scanOffsets (region : KimiTrackedRegion) (resources : DeviceCheckpointResources)
    (pageCount : Nat) : DeviceM (List Nat) := do
  attempt fails (.clearBitmap region.ptr)
  let cleared := replicate resources.bitmap.length 0
  modify (·.setResources region.ptr { resources with bitmap := cleared })
  ensureWorker fails (.startScanWorker region.ptr)
  attempt fails (.enqueueScan region.ptr)
  let d ← get
  let scanned := doDirtyScan pageCount (d.read region.ptr region.trackedSize) resources.shadow
    cleared
  modify (·.setResources region.ptr
    { resources with shadow := scanned.1, bitmap := scanned.2 })
  attempt fails (.readBitmap region.ptr)
  -- the words go to the host as little-endian bytes and are decoded there
  let words := (chunksExact 8 (scanned.2.flatMap u64ToLe)).map u64OfLe
  pure (dirtyPageOffsetsFromWords words pageCount)

/-! ## Logging the dirty pages -/

/-- `stage_aof_payload_via_worker`. -/
def stageAofPayloadViaWorker (region : KimiTrackedRegion) (offset : Nat) : DeviceM ByteVec := do
  let resources ← checkpointResources region
  if pageSize > resources.aofStagingBytes then
    throw (s!"AOF staging buffer for region {region.regionId} is " ++
      s!"{resources.aofStagingBytes} bytes, need {pageSize}")
  else
    attempt fails (.enqueueStage region.ptr offset)
    let d ← get
    pure (readPage d (region.ptr + UInt64.ofNat offset))

/-- One dirty page: staged, copied into the shadow if the scan did not do that,
and logged. -/
def logPage (region : KimiTrackedRegion) (epoch : UInt64) (refreshShadow : Bool) (offset : Nat) :
    DeviceM Unit := do
  let payload ← stageAofPayloadViaWorker fails region offset
  if refreshShadow then
    attempt fails (.refreshShadow region.ptr offset)
    let resources ← checkpointResources region
    modify (·.setResources region.ptr
      { resources with shadow := overwrite resources.shadow offset payload.data })
  appendRecord fails (.appendPage region.ptr offset) epoch region.regionId offset payload

/-- The end of `scan_device_region`, once the dirty pages are known. -/
def logPages (region : KimiTrackedRegion) (refreshShadow : Bool) (offsets : List Nat) :
    DeviceM Unit :=
  if offsets.isEmpty then pure ()
  else do
    let epoch ← takeEpoch
    ensureWorker fails (.startStageWorker region.ptr)
    offsets.foldlM (fun _ offset => logPage fails region epoch refreshShadow offset) ()

/-- `scan_device_region`. -/
def scanDeviceRegion (ptr : UInt64) : DeviceM Unit := do
  let region ← trackedRegion ptr
  let resources ← checkpointResources region
  let pageCount := region.trackedSize / pageSize
  if pageCount = 0 then pure ()
  else
    match region.allocator with
    | some metadata => do
      let offsets ← allocatorOffsets fails ptr metadata pageCount
      logPages fails region true offsets
    | none => do
      let offsets ← scanOffsets fails region resources pageCount
      logPages fails region false offsets

/-! ## Checkpoints -/

/-- One region of `checkpoint_device_regions`. -/
def checkpointRegion (ptr : UInt64) : DeviceM Unit := do
  let d ← get
  match d.manager.region ptr with
  | none => pure ()
  | some region => do
    if region.initialized then pure () else initializeDeviceRegion fails ptr
    scanDeviceRegion fails ptr

/-- `checkpoint_device_regions`. -/
def checkpointDeviceRegions : DeviceM Unit := do
  let d ← get
  (d.manager.allocations.map KimiTrackedRegion.ptr).foldlM
    (fun _ ptr => checkpointRegion fails ptr) ()

/-! ## Restoring -/

/-- `translate_kv_restore_offset`. -/
def translateKvRestoreOffset (oldOffset : Nat) (oldAllocator newAllocator : KimiAllocatorMetadata) :
    Except String Nat :=
  if oldAllocator.blockTableSnapshot.isEmpty ∨ newAllocator.blockTableSnapshot.isEmpty then
    .ok oldOffset
  else
    let oldPhysicalPage := oldOffset / pageSize
    let intraPage := oldOffset % pageSize
    match oldAllocator.blockTableSnapshot.findIdx? (·.toNat = oldPhysicalPage) with
    | none => .error s!"old KV physical page {oldPhysicalPage} is absent from saved block table"
    | some logicalPage =>
      match newAllocator.blockTableSnapshot[logicalPage]? with
      | none => .error s!"new KV block table has no logical page {logicalPage}"
      | some newPhysicalPage =>
        if newPhysicalPage.toNat * pageSize + intraPage < 2 ^ 64 then
          .ok (newPhysicalPage.toNat * pageSize + intraPage)
        else
          .error s!"translated KV restore offset overflow for physical page {newPhysicalPage}"

/-- Where a record goes. -/
def targetOffset (record : AofRecord) (oldAllocator newAllocator : Option KimiAllocatorMetadata) :
    Except String Nat :=
  match oldAllocator, newAllocator with
  | some old, some new => translateKvRestoreOffset record.offset.toNat old new
  | _, _ => .ok record.offset.toNat

/-- One record of the loop of `restore_device_region`. -/
def restoreRecord (region : KimiTrackedRegion)
    (oldAllocator newAllocator : Option KimiAllocatorMetadata) (staging : Bool) (applied : Nat)
    (record : AofRecord) : DeviceM Nat :=
  match targetOffset record oldAllocator newAllocator with
  | .error err => throw err
  | .ok target =>
    let stop := target + record.payload.length
    if 2 ^ 64 ≤ stop then
      throw s!"restore offset overflow for region {region.regionId} at {target}"
    else if stop > region.trackedSize then
      throw (s!"restore record for region {region.regionId} writes {target}..{stop} " ++
        s!"beyond {region.trackedSize}")
    else if staging = false then
      throw s!"restore region {region.regionId} has no staging buffer"
    else do
      ensureWorker fails (.startRestoreWorker region.ptr)
      attempt fails (.enqueueRestore region.ptr target)
      modify (·.write (region.ptr + UInt64.ofNat target) record.payload.data)
      pure (applied + 1)

/-- The allocator metadata the restore manifest has for a region id. -/
def savedAllocator (m : KimiConcordiaManager) (regionId : UInt64) : Option KimiAllocatorMetadata :=
  m.restoreManifest.bind fun manifest =>
    (manifest.regions.find? (·.regionId = regionId)).bind KimiRegionSpec.allocator

/-- The allocator metadata with the block table as it is on the device. -/
def currentAllocator (region : KimiTrackedRegion) : DeviceM (Option KimiAllocatorMetadata) :=
  match region.allocator with
  | some metadata => do
    let metadata ← allocatorWithCurrentSnapshot fails region.ptr metadata
    pure (some metadata)
  | none => pure none

/-- The record loop of `restore_device_region`; the worker is stopped and the
staging buffer freed however it ends. -/
def restoreRecords (region : KimiTrackedRegion)
    (oldAllocator newAllocator : Option KimiAllocatorMetadata) (records : List AofRecord) :
    DeviceM Nat := do
  let staging := records.any fun record => 0 < record.payload.length
  if staging then attempt fails (.allocRestoreStaging region.ptr)
  let applied ← FallibleM.result
    (records.foldlM (restoreRecord fails region oldAllocator newAllocator staging) 0)
  if staging then shutdownWorker
  match applied with
  | .error err => throw err
  | .ok applied => pure applied

def KimiTrackedRegion.markRestored (region : KimiTrackedRegion) (restored : Bool) :
    KimiTrackedRegion :=
  { region with restored := restored }

/-- `restore_device_region`, from the bytes of the restore file. -/
def restoreDeviceRegion (restoreAof : List UInt8) (ptr : UInt64) : DeviceM Nat := do
  let region ← trackedRegion ptr
  let d ← get
  let oldAllocator := savedAllocator d.manager region.regionId
  let newAllocator ← currentAllocator fails region
  match readCommitted restoreAof with
  | none => throw "capacity overflow"
  | some records => do
    let regionRecords := records.filter (·.regionId = region.regionId)
    let applied ← restoreRecords fails region oldAllocator newAllocator regionRecords
    modify fun d => { d with
      manager := d.manager.updateRegion ptr (·.markRestored (decide (applied > 0))) }
    pure applied

end

end Concordia.Kimi
