import Concordia.Lib.Keyed
import Concordia.Lib.TSys

/-!
# The region manager

`KimiConcordiaManager`: the device allocations worth checkpointing, each with
the region id its log records carry and a stable key under which a later
process finds that id again. An allocation starts out opaque; a kernel that
uses it makes it a kv-cache or adapter region, with a key numbered by how many
regions of that kind there are. The manifest mirrors the live regions.

Logging, persistence of the manifest and the device resources of a region are
left out; the id counters wrap as release code does.
-/

namespace Concordia.Kimi

open Concordia.Lib

def pageSize : Nat := 4096

/-- `tracked_len`. -/
def trackedLen (size : Nat) : Nat := size / pageSize * pageSize

structure KimiConcordiaConfig where
  enabled : Bool
  restoreEnabled : Bool
  minAllocationBytes : Nat
  maxRegions : Nat
  deriving DecidableEq, Repr

def KimiConcordiaConfig.shouldTrackAllocation (config : KimiConcordiaConfig) (size : Nat) : Bool :=
  config.enabled && decide (trackedLen size ≥ config.minAllocationBytes)

/-! ## Kinds and keys -/

inductive KimiRegionKind where
  | opaqueMutable
  | kvCache
  | adapter
  deriving DecidableEq, Repr

def KimiRegionKind.stablePrefix : KimiRegionKind → String
  | .opaqueMutable => "opaque"
  | .kvCache => "kv-cache"
  | .adapter => "adapter"

/-- `{n:0width}`. -/
def zeroPad (width n : Nat) : String :=
  let digits := Nat.toDigits 10 n
  String.ofList (List.replicate (width - digits.length) '0' ++ digits)

/-- The stable key of the `ordinal`-th region of a kind. -/
def stableKey (kind : KimiRegionKind) (ordinal trackedSize : Nat) : String :=
  s!"{kind.stablePrefix}:{zeroPad 4 ordinal}:{trackedSize}"

/-- `name.contains(pattern)`, on the characters of the name. -/
def nameContains (name : List Char) (pattern : String) : Bool := decide (pattern.toList <:+: name)

/-- `to_ascii_lowercase`. -/
def asciiLowercase (name : String) : List Char := name.toList.map Char.toLower

def isKimiStatefulKernelName (kernelName : String) : Bool :=
  let name := asciiLowercase kernelName
  if nameContains name "kv" || nameContains name "k_cache" || nameContains name "v_cache" ||
      nameContains name "cache_update" || nameContains name "paged_cache" ||
      nameContains name "pagedattention" then true
  else
    let attentionLike := nameContains name "attention" || nameContains name "flash_attn" ||
      nameContains name "_attn"
    let decodeLike := nameContains name "decode" || nameContains name "rope" ||
      nameContains name "neox" || nameContains name "qkv" || nameContains name "kq"
    attentionLike && decodeLike

def regionKindForKernel (kernelName : String) : Option KimiRegionKind :=
  let name := asciiLowercase kernelName
  if nameContains name "lora" || nameContains name "adapter" then some .adapter
  else if isKimiStatefulKernelName kernelName then some .kvCache else none

/-! ## Regions and the manifest -/

structure KimiAllocatorMetadata where
  blockTablePtr : UInt64
  blockCount : Nat
  dirtyBitmapPtr : UInt64
  dirtyBitmapBytes : Nat
  blockTableSnapshot : List UInt32
  deriving DecidableEq, Repr

structure KimiRegionSpec where
  regionId : UInt64
  stableKey : String
  kind : KimiRegionKind
  ptr : UInt64
  requestedSize : Nat
  trackedSize : Nat
  allocationIndex : UInt64
  lastKernel : Option String
  allocator : Option KimiAllocatorMetadata
  deriving DecidableEq, Repr

structure KimiTrackedRegion where
  ptr : UInt64
  requestedSize : Nat
  trackedSize : Nat
  regionId : UInt64
  allocationIndex : UInt64
  kind : KimiRegionKind
  stableKey : String
  lastKernel : Option String
  initialized : Bool
  restored : Bool
  allocator : Option KimiAllocatorMetadata
  deriving DecidableEq, Repr

/-- The manifest entry of a region. -/
def KimiTrackedRegion.spec (region : KimiTrackedRegion) : KimiRegionSpec where
  regionId := region.regionId
  stableKey := region.stableKey
  kind := region.kind
  ptr := region.ptr
  requestedSize := region.requestedSize
  trackedSize := region.trackedSize
  allocationIndex := region.allocationIndex
  lastKernel := region.lastKernel
  allocator := region.allocator

/-- What a kernel launch changes of a region. -/
def KimiTrackedRegion.classified (region : KimiTrackedRegion) (kernelName : String)
    (kind : KimiRegionKind) (key : String) (regionId : UInt64) : KimiTrackedRegion :=
  { region with kind := kind, stableKey := key, regionId := regionId
                lastKernel := some kernelName }

def KimiTrackedRegion.withAllocator (region : KimiTrackedRegion)
    (allocator : KimiAllocatorMetadata) : KimiTrackedRegion :=
  { region with allocator := some allocator }

structure KimiRegionManifest where
  regions : List KimiRegionSpec
  deriving DecidableEq, Repr

/-- Order of the sort key `(allocation_index, region_id)`. -/
def SortKeyLe (a b : KimiRegionSpec) : Prop :=
  a.allocationIndex < b.allocationIndex ∨
    a.allocationIndex = b.allocationIndex ∧ a.regionId ≤ b.regionId

instance : DecidableRel SortKeyLe := fun a b =>
  inferInstanceAs (Decidable (a.allocationIndex < b.allocationIndex ∨
    a.allocationIndex = b.allocationIndex ∧ a.regionId ≤ b.regionId))

namespace KimiRegionManifest

variable (manifest : KimiRegionManifest)

/-- Replace the entry of the pointer or push a new one; then a stable sort. -/
def upsert (spec : KimiRegionSpec) : KimiRegionManifest where
  regions := (Lib.upsert KimiRegionSpec.ptr spec manifest.regions).insertionSort SortKeyLe

def removePtr (ptr : UInt64) : KimiRegionManifest where
  regions := manifest.regions.filter (·.ptr ≠ ptr)

def findRegionId (kind : KimiRegionKind) (key : String) (trackedSize : Nat) : Option UInt64 :=
  (manifest.regions.find? fun region =>
    region.kind = kind ∧ region.stableKey = key ∧ region.trackedSize = trackedSize).map
      (·.regionId)

def maxRegionId : UInt64 := (manifest.regions.map (·.regionId)).foldl max 0

end KimiRegionManifest

/-! ## The manager -/

structure KimiConcordiaManager where
  config : KimiConcordiaConfig
  nextRegionId : UInt64
  nextAllocationIndex : UInt64
  /-- a `BTreeMap` by pointer: its values in key order -/
  allocations : List KimiTrackedRegion
  manifest : KimiRegionManifest
  restoreManifest : Option KimiRegionManifest
  deriving DecidableEq, Repr

namespace KimiConcordiaManager

/-- `u64::saturating_add(1)`. -/
def saturatingSucc (x : UInt64) : UInt64 := if x.toNat + 1 < 2 ^ 64 then x + 1 else x

/-- `new`. `saved` is the manifest on disk, if it can be read. -/
def new (config : KimiConcordiaConfig) (saved : Option KimiRegionManifest) :
    KimiConcordiaManager :=
  let restoreManifest := if config.restoreEnabled then saved else none
  { config := config
    nextRegionId := match restoreManifest with
      | some manifest => max (saturatingSucc manifest.maxRegionId) 1
      | none => 1
    nextAllocationIndex := 1
    allocations := []
    manifest := ⟨[]⟩
    restoreManifest := restoreManifest }

variable (m : KimiConcordiaManager)

/-- `self.allocations.get(&ptr)`. -/
def region (ptr : UInt64) : Option KimiTrackedRegion :=
  lookup KimiTrackedRegion.ptr ptr m.allocations

/-- `get_mut(&ptr)` followed by an update that keeps the pointer. -/
def updateRegion (ptr : UInt64) (f : KimiTrackedRegion → KimiTrackedRegion) :
    KimiConcordiaManager :=
  { m with allocations := updateFirst KimiTrackedRegion.ptr ptr f m.allocations }

def upsertManifestForPtr (ptr : UInt64) : KimiConcordiaManager :=
  match m.region ptr with
  | none => m
  | some region => { m with manifest := m.manifest.upsert region.spec }

/-- A new region, under the next id. -/
def freshRegion (ptr : UInt64) (size : Nat) : KimiTrackedRegion where
  ptr := ptr
  requestedSize := size
  trackedSize := trackedLen size
  regionId := m.nextRegionId
  allocationIndex := m.nextAllocationIndex
  kind := .opaqueMutable
  stableKey := stableKey .opaqueMutable m.nextAllocationIndex.toNat (trackedLen size)
  lastKernel := none
  initialized := false
  restored := false
  allocator := none

/-- Count a new region and insert it by its pointer. -/
def insertRegion (region : KimiTrackedRegion) : KimiConcordiaManager :=
  { m with
    nextRegionId := m.nextRegionId + 1
    nextAllocationIndex := m.nextAllocationIndex + 1
    allocations := m.allocations.orderedInsert (fun a b => a.ptr ≤ b.ptr) region }

/-- `note_allocation_inner`. -/
def noteAllocation (ptr : UInt64) (size : Nat) : Option UInt64 × KimiConcordiaManager :=
  if ptr = 0 ∨ m.config.shouldTrackAllocation size = false then (none, m)
  else if (m.region ptr).isSome ∨ m.allocations.length ≥ m.config.maxRegions then (none, m)
  else
    let region := m.freshRegion ptr size
    (some region.regionId, (m.insertRegion region).upsertManifestForPtr ptr)

/-- `stable_key_for_region`. -/
def stableKeyForRegion (ptr : UInt64) (kind : KimiRegionKind) (trackedSize : Nat) : String :=
  match m.manifest.regions.find? fun region => region.ptr = ptr ∧ region.kind = kind with
  | some existing => existing.stableKey
  | none =>
    let ordinal :=
      m.manifest.regions.countP (fun region => region.ptr ≠ ptr ∧ region.kind = kind) + 1
    stableKey kind ordinal trackedSize

/-- The saved region id of a key, in restore mode. -/
def savedRegionId (kind : KimiRegionKind) (key : String) (trackedSize : Nat) : Option UInt64 :=
  m.restoreManifest.bind fun manifest => manifest.findRegionId kind key trackedSize

/-- The body of the pointer loop of `note_kernel_pointers_inner`. -/
def noteKernelPointer (kernelName : String) (kind : KimiRegionKind) (ptr : UInt64) :
    KimiConcordiaManager :=
  match m.region ptr with
  | none => m
  | some region =>
    let key := m.stableKeyForRegion ptr kind region.trackedSize
    let regionId := (m.savedRegionId kind key region.trackedSize).getD region.regionId
    (m.updateRegion ptr (·.classified kernelName kind key regionId)).upsertManifestForPtr ptr

/-- `note_kernel_pointers_inner`. -/
def noteKernelPointers (kernelName : String) (ptrs : List UInt64) : KimiConcordiaManager :=
  match regionKindForKernel kernelName with
  | none => m
  | some kind =>
    (ptrs.filter (· ≠ 0)).foldl (fun m ptr => m.noteKernelPointer kernelName kind ptr) m

/-- `{x:x}`. -/
def hex (x : UInt64) : String := String.ofList (Nat.toDigits 16 x.toNat)

/-- `note_allocator_metadata_inner`. -/
def noteAllocatorMetadata (ptr blockTablePtr : UInt64) (blockCount : Nat) (dirtyBitmapPtr : UInt64)
    (dirtyBitmapBytes : Nat) : Except String Unit × KimiConcordiaManager :=
  if ptr = 0 then (.error "Kimi allocator metadata region pointer is null", m)
  else if dirtyBitmapPtr = 0 ∨ dirtyBitmapBytes = 0 then
    (.error s!"allocator metadata for 0x{hex ptr} needs a non-empty dirty bitmap", m)
  else if (m.region ptr).isSome then
    let allocator : KimiAllocatorMetadata :=
      { blockTablePtr := blockTablePtr, blockCount := blockCount, dirtyBitmapPtr := dirtyBitmapPtr
        dirtyBitmapBytes := dirtyBitmapBytes, blockTableSnapshot := [] }
    (.ok (), (m.updateRegion ptr (·.withAllocator allocator)).upsertManifestForPtr ptr)
  else (.error s!"unknown Kimi Concordia allocation 0x{hex ptr}", m)

/-- `note_deallocation`. -/
def noteDeallocation (ptr : UInt64) : KimiConcordiaManager :=
  match m.region ptr with
  | none => m
  | some _ =>
    { m with
      allocations := m.allocations.filter (·.ptr ≠ ptr)
      manifest := m.manifest.removePtr ptr }

end KimiConcordiaManager

/-! ## Runs -/

/-- A call on the manager. -/
inductive Event where
  | allocation (ptr : UInt64) (size : Nat)
  | kernelPointers (kernelName : String) (ptrs : List UInt64)
  | allocatorMetadata (ptr blockTablePtr : UInt64) (blockCount : Nat) (dirtyBitmapPtr : UInt64)
      (dirtyBitmapBytes : Nat)
  | deallocation (ptr : UInt64)
  deriving DecidableEq, Repr

def KimiConcordiaManager.step (m : KimiConcordiaManager) : Event → KimiConcordiaManager
  | .allocation ptr size => (m.noteAllocation ptr size).2
  | .kernelPointers kernelName ptrs => m.noteKernelPointers kernelName ptrs
  | .allocatorMetadata ptr blockTablePtr blockCount dirtyBitmapPtr dirtyBitmapBytes =>
    (m.noteAllocatorMetadata ptr blockTablePtr blockCount dirtyBitmapPtr dirtyBitmapBytes).2
  | .deallocation ptr => m.noteDeallocation ptr

/-- The runs of a manager. -/
def manager (config : KimiConcordiaConfig) (saved : Option KimiRegionManifest) :
    TSys KimiConcordiaManager Event where
  init m := m = .new config saved
  step m event m' := m' = m.step event

end Concordia.Kimi
