import Concordia.Aof.Log
import Concordia.Lib.Keyed

/-!
# Delta checkpoint state

`DeltaCheckpointState`: the registered regions, and the two ways a dirty delta
is computed. An opaque region is compared page by page with a shadow copy,
which is brought up to date as the delta is built; an allocator region is
trusted to say in a bitmap which pages are dirty. The epoch counter wraps; a
registration beyond the last region id does not return (its `Vec` could not
hold that many regions either).
-/

namespace Concordia.Delta

open Concordia.Lib Concordia.Aof Option

/-- How a call fails: an `Err` with its message, or a panic. -/
inductive Fault where
  | err (message : String)
  | panic
  deriving DecidableEq, Repr

structure DirtyPage where
  regionId : UInt64
  offset : UInt64
  data : ByteVec
  deriving DecidableEq, Repr

structure DeltaRecord where
  epoch : UInt64
  regionId : UInt64
  baseAddr : UInt64
  dirtyPages : List DirtyPage
  deriving DecidableEq, Repr

inductive RegionKind where
  | opaqueShadow
  | allocatorBitmap
  deriving DecidableEq, Repr

/-- A registered region. A shadow is allocated once, with the region's length. -/
@[ext] structure TrackedRegion where
  id : UInt64
  baseAddr : UInt64
  len : Nat
  shadow : Option ByteVec
  kind : RegionKind
  shadow_length : ∀ v, shadow = some v → v.length = len

/-- The shadow buffer is written in place, so it keeps its length. -/
def TrackedRegion.setShadow (region : TrackedRegion) (shadow : ByteVec) : TrackedRegion :=
  if h : shadow.length = region.len then
    { region with
      shadow := some shadow
      shadow_length := fun _ hv => some.inj hv ▸ h }
  else region

@[simp] theorem TrackedRegion.setShadow_id (region : TrackedRegion) (shadow : ByteVec) :
    (region.setShadow shadow).id = region.id := by
  unfold setShadow
  split <;> rfl

structure DeltaCheckpointState where
  pageSize : Nat
  pageSize_pos : 0 < pageSize
  nextRegionId : UInt64
  nextEpoch : UInt64
  regions : List TrackedRegion

namespace DeltaCheckpointState

/-- `DeltaCheckpointState::new`. -/
def new (pageSize : Nat) : DeltaCheckpointState where
  pageSize := max pageSize 1
  pageSize_pos := by omega
  nextRegionId := 1
  nextEpoch := 1
  regions := []

end DeltaCheckpointState

/-- `x + 1` on `u64`, or `none` when it overflows. -/
def checkedSucc (x : UInt64) : Option UInt64 :=
  if x.toNat + 1 < 2 ^ 64 then some (x + 1) else none

theorem checkedSucc_eq_some {x y : UInt64} (h : checkedSucc x = some y) :
    y.toNat = x.toNat + 1 := by
  unfold checkedSucc at h
  split at h
  · rename_i hlt
    obtain rfl := some.inj h
    rw [UInt64.toNat_add, UInt64.toNat_one, Nat.mod_eq_of_lt hlt]
  · cases h

namespace DeltaCheckpointState

variable (s : DeltaCheckpointState)

/-- Push a region under the next id. -/
def registerRegion (region : UInt64 → TrackedRegion) : Option (UInt64 × DeltaCheckpointState) :=
  (checkedSucc s.nextRegionId).map fun next =>
    (s.nextRegionId,
      { s with nextRegionId := next, regions := s.regions ++ [region s.nextRegionId] })

def registerOpaqueHostRegion (baseAddr : UInt64) (initial : ByteVec) :
    Option (UInt64 × DeltaCheckpointState) :=
  s.registerRegion fun id =>
    { id := id, baseAddr := baseAddr, len := initial.length, shadow := some initial
      kind := .opaqueShadow, shadow_length := fun _ hv => by rw [← some.inj hv] }

def registerAllocatorBitmapRegion (baseAddr : UInt64) (len : Nat) :
    Option (UInt64 × DeltaCheckpointState) :=
  s.registerRegion fun id =>
    { id := id, baseAddr := baseAddr, len := len, shadow := none, kind := .allocatorBitmap
      shadow_length := fun _ hv => by cases hv }

/-- `self.regions.iter().find(|region| region.id == region_id)`. -/
def findRegion (regionId : UInt64) : Option TrackedRegion :=
  lookup TrackedRegion.id regionId s.regions

/-- Replace the region found by `iter_mut().find(..)`. -/
def updateRegion (regionId : UInt64) (f : TrackedRegion → TrackedRegion) :
    DeltaCheckpointState :=
  { s with regions := updateFirst TrackedRegion.id regionId f s.regions }

end DeltaCheckpointState

/-! ## Pages -/

/-- `(0..len).step_by(step)`. -/
def stepBy (len step : Nat) : List Nat := (List.range ((len + step - 1) / step)).map (· * step)

/-- The page of `v` at `offset`: `v[offset..(offset + page_size).min(len)]`. -/
def pageAt (pageSize : Nat) (v : ByteVec) (offset : Nat) : ByteVec :=
  v.slice offset (min (offset + pageSize) v.length)

def dirtyPage (regionId : UInt64) (pageSize : Nat) (current : ByteVec) (offset : Nat) : DirtyPage :=
  { regionId := regionId, offset := UInt64.ofNat offset, data := pageAt pageSize current offset }

/-- One iteration of the page loop of `create_host_delta`: pages pushed so far
and the shadow. -/
def hostPageStep (regionId : UInt64) (pageSize : Nat) (current : ByteVec)
    (acc : List DirtyPage × ByteVec) (offset : Nat) : List DirtyPage × ByteVec :=
  if pageAt pageSize current offset ≠
      acc.2.slice offset (min (offset + pageSize) current.length) then
    (acc.1 ++ [dirtyPage regionId pageSize current offset],
      acc.2.overwrite offset (pageAt pageSize current offset).data)
  else acc

/-- `byte & (1 << (page_index % 8)) != 0` on the byte of page `page_index`. -/
def bitmapMarks (dirtyBitmap : List UInt8) (pageIndex : Nat) : Bool :=
  let byte := dirtyBitmap.getD (pageIndex / 8) 0
  byte &&& (1 <<< UInt8.ofNat (pageIndex % 8)) ≠ 0

/-! ## Deltas -/

namespace DeltaCheckpointState

variable (s : DeltaCheckpointState)

/-- `create_host_delta`. -/
def createHostDelta (regionId : UInt64) (current : ByteVec) :
    Except Fault DeltaRecord × DeltaCheckpointState :=
  match s.findRegion regionId with
  | none => (.error (.err s!"unknown Concordia checkpoint region {regionId}"), s)
  | some region =>
    if region.kind ≠ .opaqueShadow then
      (.error (.err s!"region {regionId} is not an opaque shadow checkpoint region"), s)
    else if region.len ≠ current.length then
      (.error (.err
        s!"region {regionId} size changed from {region.len} to {current.length} bytes"), s)
    else
      match region.shadow with
      | none => (.error (.err s!"region {regionId} has no shadow buffer"), s)
      | some shadow =>
        let (dirtyPages, shadow) := (stepBy current.length s.pageSize).foldl
          (hostPageStep regionId s.pageSize current) ([], shadow)
        (.ok { epoch := s.nextEpoch, regionId := regionId, baseAddr := region.baseAddr
               dirtyPages := dirtyPages },
          { s.updateRegion regionId (·.setShadow shadow) with nextEpoch := s.nextEpoch + 1 })

/-- `create_bitmap_delta`. -/
def createBitmapDelta (regionId : UInt64) (current : ByteVec) (dirtyBitmap : List UInt8) :
    Except Fault DeltaRecord × DeltaCheckpointState :=
  match s.findRegion regionId with
  | none => (.error (.err s!"unknown Concordia checkpoint region {regionId}"), s)
  | some region =>
    if region.kind ≠ .allocatorBitmap then
      (.error (.err s!"region {regionId} is not an allocator-bitmap checkpoint region"), s)
    else if region.len ≠ current.length then
      (.error (.err
        s!"region {regionId} size changed from {region.len} to {current.length} bytes"), s)
    else
      let pageCount := (current.length + s.pageSize - 1) / s.pageSize
      let dirtyPages := ((List.range pageCount).filter (bitmapMarks dirtyBitmap)).map
        fun pageIndex => dirtyPage regionId s.pageSize current (pageIndex * s.pageSize)
      (.ok { epoch := s.nextEpoch, regionId := regionId, baseAddr := region.baseAddr
             dirtyPages := dirtyPages },
        { s with nextEpoch := s.nextEpoch + 1 })

/-- `refresh_opaque_shadow`. -/
def refreshOpaqueShadow (regionId : UInt64) (current : ByteVec) :
    Except Fault Unit × DeltaCheckpointState :=
  match s.findRegion regionId with
  | none => (.error (.err s!"unknown Concordia checkpoint region {regionId}"), s)
  | some region =>
    if region.kind ≠ .opaqueShadow then
      (.error (.err s!"region {regionId} is not an opaque shadow checkpoint region"), s)
    else if region.len ≠ current.length then
      (.error (.err
        s!"region {regionId} size changed from {region.len} to {current.length} bytes"), s)
    else
      match region.shadow with
      | none => (.error (.err s!"region {regionId} has no shadow buffer"), s)
      | some _ => (.ok (), s.updateRegion regionId (·.setShadow current))

end DeltaCheckpointState

end Concordia.Delta
