import Concordia.Delta.Replay

/-!
# The Concordia runtime

`ConcordiaRuntime`: a checkpoint state and the log its deltas go to. A
checkpoint first computes the delta, which already advances the shadow and the
epoch, and only then appends it; when the append fails the state has moved on
(`checkpointHostRegion`). The boundary counter is only logged and is left out.
-/

namespace Concordia.Runtime

open Concordia.Lib Concordia.Aof Concordia.Delta

structure MpiInfo where
  rank : UInt32
  worldSize : UInt32
  localRank : UInt32
  deriving DecidableEq, Repr

def MpiInfo.isParallel (info : MpiInfo) : Bool := 1 < info.worldSize

/-- `mpi_scoped_boundary`. -/
def mpiScopedBoundary (boundary : String) (info : MpiInfo) : String :=
  if info.isParallel then
    s!"rank={info.rank}/{info.worldSize} local_rank={info.localRank} {boundary}"
  else boundary

structure CheckpointSummary where
  epoch : UInt64
  regionId : UInt64
  dirtyPages : Nat
  dirtyBytes : Nat
  boundary : String
  deriving DecidableEq, Repr

structure RestoreSummary where
  regionId : UInt64
  appliedRecords : Nat
  restoredBytes : Nat
  boundary : String
  deriving DecidableEq, Repr

structure AofDiskLog where
  path : String
  file : File UInt8

structure ConcordiaRuntime where
  state : DeltaCheckpointState
  aof : Option AofDiskLog
  mpiInfo : MpiInfo

namespace ConcordiaRuntime

/-- `ConcordiaRuntime::new`. -/
def new (pageSize : Nat) (mpiInfo : MpiInfo) : ConcordiaRuntime where
  state := .new pageSize
  aof := none
  mpiInfo := mpiInfo

variable (rt : ConcordiaRuntime)

/-- `set_aof_path` on a file that can be created. -/
def setAofPath (path : String) : ConcordiaRuntime :=
  { rt with aof := some { path := path, file := create } }

/-- `global_runtime` on a log that can be opened: fresh checkpoint state, the
log as it was left. -/
def globalRuntime (path : String) (bytes : List UInt8) (mpiInfo : MpiInfo) : ConcordiaRuntime :=
  { new 4096 mpiInfo with aof := some { path := path, file := openAppend bytes } }

def registerOpaqueHostRegion (baseAddr : UInt64) (initial : ByteVec) :
    Option (UInt64 × ConcordiaRuntime) :=
  (rt.state.registerOpaqueHostRegion baseAddr initial).map fun (id, state) =>
    (id, { rt with state := state })

def registerAllocatorBitmapRegion (baseAddr : UInt64) (len : Nat) :
    Option (UInt64 × ConcordiaRuntime) :=
  (rt.state.registerAllocatorBitmapRegion baseAddr len).map fun (id, state) =>
    (id, { rt with state := state })

def summary (delta : DeltaRecord) (boundary : String) : CheckpointSummary where
  epoch := delta.epoch
  regionId := delta.regionId
  dirtyPages := delta.dirtyPages.length
  dirtyBytes := (delta.dirtyPages.map (·.data.length)).sum
  boundary := mpiScopedBoundary boundary rt.mpiInfo

/-- The common end of the two checkpoint calls: append the delta, if there is
one and there is a log, and report it. -/
def logDelta (boundary : String) :
    Except Fault DeltaRecord × DeltaCheckpointState →
      Except Fault CheckpointSummary × ConcordiaRuntime
  | (.error fault, state) => (.error fault, { rt with state := state })
  | (.ok delta, state) =>
    match rt.aof with
    | none => (.ok (rt.summary delta boundary), { rt with state := state })
    | some aof =>
      match (appendDelta delta).exec aof.file with
      | (.ok _, file) =>
        (.ok (rt.summary delta boundary),
          { rt with state := state, aof := some { aof with file := file } })
      | (.error err, file) =>
        (.error (.err s!"append Concordia AOF {aof.path}: {err}"),
          { rt with state := state, aof := some { aof with file := file } })

/-- `checkpoint_host_region`. -/
def checkpointHostRegion (regionId : UInt64) (current : ByteVec) (boundary : String) :
    Except Fault CheckpointSummary × ConcordiaRuntime :=
  rt.logDelta boundary (rt.state.createHostDelta regionId current)

/-- `checkpoint_allocator_bitmap_region`. -/
def checkpointAllocatorBitmapRegion (regionId : UInt64) (current : ByteVec)
    (dirtyBitmap : List UInt8) (boundary : String) :
    Except Fault CheckpointSummary × ConcordiaRuntime :=
  rt.logDelta boundary (rt.state.createBitmapDelta regionId current dirtyBitmap)

/-- `restore_host_region_from_aof_path`: the result, the runtime and the target
as they are left. `opened` is the outcome of opening the log at `path`. -/
def restoreHostRegionFromAofPath (path : String) (opened : Except String (List UInt8))
    (regionId : UInt64) (target : ByteVec) (boundary : String) :
    Except Fault RestoreSummary × ConcordiaRuntime × ByteVec :=
  match opened with
  | .error err => (.error (.err s!"read Concordia AOF {path}: {err}"), rt, target)
  | .ok bytes =>
    match readCommitted bytes with
    | none => (.error .panic, rt, target)
    | some records =>
      let restoredBytes :=
        ((records.filter (·.regionId == regionId)).map (·.payload.length)).sum
      match applyRecordsToRegion regionId target records with
      | (.error err, target) => (.error (.err err), rt, target)
      | (.ok appliedRecords, target) =>
        match rt.state.refreshOpaqueShadow regionId target with
        | (.error fault, state) => (.error fault, { rt with state := state }, target)
        | (.ok _, state) =>
          (.ok { regionId := regionId, appliedRecords := appliedRecords
                 restoredBytes := restoredBytes
                 boundary := mpiScopedBoundary boundary rt.mpiInfo },
            { rt with state := state }, target)

/-! ## The log as bytes -/

/-- The bytes of the log, if there is one. -/
def logBytes : List UInt8 :=
  match rt.aof with
  | none => []
  | some aof => aof.file.bytes

/-- The device behind the log is about to fail as `fault` says, or not. -/
def withFault (fault : Option WriteFault) : ConcordiaRuntime :=
  { rt with aof := rt.aof.map fun aof => { aof with file := { aof.file with fault := fault } } }

@[simp] theorem withFault_state (fault : Option WriteFault) :
    (rt.withFault fault).state = rt.state := rfl

@[simp] theorem withFault_logBytes (fault : Option WriteFault) :
    (rt.withFault fault).logBytes = rt.logBytes := by
  unfold logBytes withFault
  cases rt.aof <;> rfl

variable {aof : AofDiskLog}

theorem withFault_aof (h : rt.aof = some aof) (fault : Option WriteFault) :
    (rt.withFault fault).aof = some { aof with file := { aof.file with fault := fault } } := by
  rw [withFault, h]
  rfl

/-! ## What logging a delta does -/

variable {result : Except Fault DeltaRecord × DeltaCheckpointState}

/-- A delta that was created is logged and reported, or the device takes fewer bytes
than it has. -/
theorem logDelta_cases {rt : ConcordiaRuntime} (haof : rt.aof = some aof) (boundary : String)
    (delta : DeltaRecord) (state : DeltaCheckpointState) :
    ∃ answer rt', rt.logDelta boundary (.ok delta, state) = (answer, rt') ∧ rt'.state = state ∧
      (∃ aof', rt'.aof = some aof') ∧
      ((answer = .ok (rt.summary delta boundary) ∧
          rt'.logBytes = rt.logBytes ++ encodeLog delta.records) ∨
        ∃ fault device, answer = .error fault ∧ aof.file.fault = some device ∧
          device.room < (encodeLog delta.records).length ∧
          rt'.logBytes = rt.logBytes ++ (encodeLog delta.records).take device.room) := by
  simp only [logDelta, haof, appendDelta, appendRecords_eq, logBytes]
  have hcases := exec_writeAll_cases (encodeLog delta.records) aof.file
  cases hexec : (writeAll (encodeLog delta.records)).exec aof.file with
  | mk outcome file =>
    rw [hexec] at hcases
    rcases hcases with ⟨rfl, hbytes⟩ | ⟨device, hdevice, hroom, rfl, hbytes⟩
    · exact ⟨_, _, rfl, rfl, ⟨_, rfl⟩, .inl ⟨rfl, hbytes⟩⟩
    · exact ⟨_, _, rfl, rfl, ⟨_, rfl⟩, .inr ⟨_, device, rfl, hdevice, hroom, hbytes⟩⟩

/-- A reported checkpoint has its delta in the log. -/
theorem logDelta_ok {rt rt' : ConcordiaRuntime} {boundary : String} {report : CheckpointSummary}
    (haof : rt.aof = some aof) (h : rt.logDelta boundary result = (.ok report, rt')) :
    ∃ delta state, result = (.ok delta, state) ∧ rt'.state = state ∧
      (∃ aof', rt'.aof = some aof') ∧ report = rt.summary delta boundary ∧
      rt'.logBytes = rt.logBytes ++ encodeLog delta.records := by
  obtain ⟨res, state⟩ := result
  cases res with
  | error fault => cases h
  | ok delta =>
    obtain ⟨_, _, hlog, hstate, hsome, ⟨rfl, hbytes⟩ | ⟨_, _, rfl, _⟩⟩ :=
      logDelta_cases haof boundary delta state
    · obtain ⟨hreport, rfl⟩ := Prod.mk.inj (hlog.symm.trans h)
      exact ⟨delta, state, rfl, hstate, hsome, (Except.ok.inj hreport).symm, hbytes⟩
    · cases hlog.symm.trans h

/-- A call that fails without panicking either created no delta and changed
nothing, or lost the end of its delta: the device took fewer bytes than the
delta has. -/
theorem logDelta_error {rt rt' : ConcordiaRuntime} {boundary : String} {fault : Fault}
    (haof : rt.aof = some aof) (h : rt.logDelta boundary result = (.error fault, rt')) :
    (∃ state, result = (.error fault, state) ∧ rt' = { rt with state := state }) ∨
      ∃ delta state device, result = (.ok delta, state) ∧ aof.file.fault = some device ∧
        device.room < (encodeLog delta.records).length ∧ rt'.state = state ∧
        (∃ aof', rt'.aof = some aof') ∧
        rt'.logBytes = rt.logBytes ++ (encodeLog delta.records).take device.room := by
  obtain ⟨res, state⟩ := result
  cases res with
  | error fault' =>
    obtain ⟨hfault, rfl⟩ := Prod.mk.inj h
    obtain rfl := Except.error.inj hfault
    exact .inl ⟨state, rfl, rfl⟩
  | ok delta =>
    obtain ⟨_, _, hlog, hstate, hsome, ⟨rfl, _⟩ | ⟨_, device, rfl, hdevice, hroom, hbytes⟩⟩ :=
      logDelta_cases haof boundary delta state
    · cases hlog.symm.trans h
    · obtain ⟨_, rfl⟩ := Prod.mk.inj (hlog.symm.trans h)
      exact .inr ⟨delta, state, device, rfl, hdevice, hroom, hstate, hsome, hbytes⟩

/-- Without a device fault a delta that was created is reported. -/
theorem logDelta_of_ok {rt : ConcordiaRuntime} (haof : rt.aof = some aof)
    (hfault : aof.file.fault = none) (boundary : String) (delta : DeltaRecord)
    (state : DeltaCheckpointState) :
    ∃ rt', rt.logDelta boundary (.ok delta, state) = (.ok (rt.summary delta boundary), rt') := by
  simp only [logDelta, haof, appendDelta, appendRecords_eq, exec_writeAll_of_none hfault]
  exact ⟨_, rfl⟩

end ConcordiaRuntime

end Concordia.Runtime
