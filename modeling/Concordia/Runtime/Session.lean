import Concordia.Runtime.Basic
import Concordia.Lib.TSys

/-!
# Sessions: runs of the runtime with their history

A `Session` is a runtime together with what its caller knows and the log must
be able to reproduce: the contents of every region at registration, at its last
successful checkpoint, and the pages that were dirty in some checkpoint. A
call may meet a device fault.

`Session.step_effect` says once what a call can do; the invariants of the later
modules are derived from it.
-/

namespace Concordia.Runtime

open Concordia.Lib Concordia.Aof Concordia.Delta DeltaCheckpointState ConcordiaRuntime List Option
open Function

/-- A call on the runtime. A bitmap region is registered by its length; the
contents it has at that time are the caller's. -/
inductive Call where
  | registerOpaque (baseAddr : UInt64) (initial : ByteVec)
  | registerBitmap (baseAddr : UInt64) (contents : ByteVec)
  | checkpointHost (regionId : UInt64) (current : ByteVec) (boundary : String)
  | checkpointBitmap (regionId : UInt64) (current : ByteVec) (dirtyBitmap : List UInt8)
      (boundary : String)

structure Session where
  runtime : ConcordiaRuntime
  /-- contents at registration -/
  base : UInt64 → ByteVec
  /-- contents at the last successful checkpoint, or at registration -/
  live : UInt64 → ByteVec
  /-- pages listed as dirty by the successful checkpoints -/
  dirtied : UInt64 → List Nat

namespace Session

/-- A session of a runtime with no regions yet. -/
def start (runtime : ConcordiaRuntime) : Session where
  runtime := runtime
  base := fun _ => default
  live := fun _ => default
  dirtied := fun _ => []

variable (s : Session)

def pageSize : Nat := s.runtime.state.pageSize

def regions : List TrackedRegion := s.runtime.state.regions

theorem pageSize_pos : 0 < s.pageSize := s.runtime.state.pageSize_pos

/-- History after a registration. -/
def registered (id : UInt64) (runtime : ConcordiaRuntime) (contents : ByteVec) : Session where
  runtime := runtime
  base := update s.base id contents
  live := update s.live id contents
  dirtied := update s.dirtied id []

/-- History after a successful checkpoint. -/
def checkpointed (id : UInt64) (runtime : ConcordiaRuntime) (current : ByteVec)
    (pages : List Nat) : Session where
  runtime := runtime
  base := s.base
  live := update s.live id current
  dirtied := update s.dirtied id (s.dirtied id ++ pages)

/-- History after a checkpoint call that returned. -/
def afterCheckpoint (id : UInt64) (current : ByteVec) (pages : List Nat) :
    Except Fault CheckpointSummary × ConcordiaRuntime → Option Session
  | (.ok _, runtime) => some (s.checkpointed id runtime current pages)
  | (.error (.err _), runtime) => some { s with runtime := runtime }
  | (.error .panic, _) => none

/-- The delta a call creates, if it creates one. -/
def deltaOf : Call → Option DeltaRecord
  | .checkpointHost id current _ => (s.runtime.state.createHostDelta id current).1.toOption
  | .checkpointBitmap id current dirtyBitmap _ =>
    (s.runtime.state.createBitmapDelta id current dirtyBitmap).1.toOption
  | _ => none

def pagesOf (call : Call) : List Nat :=
  match s.deltaOf call with
  | none => []
  | some delta => delta.pages s.pageSize

/-- One call, with the device about to fail as `fault` says. `none` is a call
that does not return. -/
def step (call : Call) (fault : Option WriteFault) : Option Session :=
  let rt := s.runtime.withFault fault
  match call with
  | .registerOpaque baseAddr initial =>
    (rt.registerOpaqueHostRegion baseAddr initial).map fun (id, rt) => s.registered id rt initial
  | .registerBitmap baseAddr contents =>
    (rt.registerAllocatorBitmapRegion baseAddr contents.length).map fun (id, rt) =>
      s.registered id rt contents
  | .checkpointHost id current boundary =>
    s.afterCheckpoint id current (s.pagesOf call) (rt.checkpointHostRegion id current boundary)
  | .checkpointBitmap id current dirtyBitmap boundary =>
    s.afterCheckpoint id current (s.pagesOf call)
      (rt.checkpointAllocatorBitmapRegion id current dirtyBitmap boundary)

/-- A sequence of calls, each with the fault it meets. -/
def run (calls : List (Call × Option WriteFault)) : Option Session :=
  TSys.runSteps (fun s a => s.step a.1 a.2) s calls

/-- The dirty bitmap of a call marks every page that changed since the region's
previous checkpoint. -/
def Covers : Call → Prop
  | .checkpointBitmap id current dirtyBitmap _ =>
    current.length = (s.live id).length →
      ∀ p, pageDiffers s.pageSize current (s.live id) p = true → bitmapMarks dirtyBitmap p = true
  | _ => True

/-- `pages` lists every page of `current` that changed since the region's
previous checkpoint. -/
def Lists (id : UInt64) (current : ByteVec) (pages : List Nat) : Prop :=
  current.length = (s.live id).length →
    ∀ i, i / s.pageSize ∉ pages → current.data[i]? = (s.live id).data[i]?

end Session

/-- The sessions of a runtime, under any device faults. -/
def sessions (runtime : ConcordiaRuntime) : TSys Session (Call × Option WriteFault) where
  init s := s = Session.start runtime
  step s a t := s.step a.1 a.2 = some t

/-- Sessions without device faults, whose bitmaps cover what changed. -/
def faultless (runtime : ConcordiaRuntime) : TSys Session (Call × Option WriteFault) :=
  (sessions runtime).restrict fun s a => a.2 = none ∧ s.Covers a.1

variable {s t : Session}

/-- A sequence of calls that meet the side condition in every state. -/
theorem reachable_of_run {runtime : ConcordiaRuntime}
    {G : Session → Call × Option WriteFault → Prop} (calls : List (Call × Option WriteFault))
    (hG : ∀ a ∈ calls, ∀ s, G s a) (hs : ((sessions runtime).restrict G).Reachable s)
    (hrun : s.run calls = some t) : ((sessions runtime).restrict G).Reachable t := by
  refine hs.runSteps calls ?_ hrun
  exact fun a ha s _ hstep => ⟨hG a ha s, hstep⟩

/-! ## Creating a delta -/

/-- A delta of `pages` of `current` was created for region `id`, leaving
`state`: an opaque region is left with the contents as its shadow. -/
structure Created (s : DeltaCheckpointState) (id : UInt64) (current : ByteVec) (pages : List Nat)
    (delta : DeltaRecord) (state : DeltaCheckpointState) : Prop where
  region : ∃ region, s.findRegion id = some region ∧ region.len = current.length ∧
    ((region.kind = .opaqueShadow ∧
        (∃ shadow, region.shadow = some shadow ∧ pages = hostDirtyPages s.pageSize shadow current) ∧
        state.regions = updateFirst TrackedRegion.id id (·.setShadow current) s.regions) ∨
      (region.kind = .allocatorBitmap ∧
        (∃ dirtyBitmap, pages = bitmapDirtyPages s.pageSize current dirtyBitmap) ∧
        state.regions = s.regions))
  delta : PagesDelta s.pageSize id current pages delta
  pageSize : state.pageSize = s.pageSize
  nextRegionId : state.nextRegionId = s.nextRegionId

variable {region : TrackedRegion} {dirtyBitmap : List UInt8}

namespace Created

variable {s state : DeltaCheckpointState} {id : UInt64} {current : ByteVec} {pages : List Nat}
  {delta : DeltaRecord}

theorem ofHost (h : s.createHostDelta id current = (.ok delta, state)) :
    ∃ pages, Created s id current pages delta state := by
  obtain ⟨region, shadow, hfind, hkind, hlen, hshadow, hdelta, _, _, hsize, hnext, hregions⟩ :=
    createHostDelta_ok h
  exact ⟨_, ⟨region, hfind, hlen, .inl ⟨hkind, ⟨shadow, hshadow, rfl⟩, hregions⟩⟩, hdelta, hsize,
    hnext⟩

theorem ofBitmap (h : s.createBitmapDelta id current dirtyBitmap = (.ok delta, state)) :
    Created s id current (bitmapDirtyPages s.pageSize current dirtyBitmap)
      delta state := by
  obtain ⟨region, hfind, hkind, hlen, hdelta, _, _, hsize, hnext, hregions⟩ :=
    createBitmapDelta_ok h
  exact ⟨⟨region, hfind, hlen, .inr ⟨hkind, ⟨_, rfl⟩, hregions⟩⟩, hdelta, hsize, hnext⟩

theorem page_lt (h : Created s id current pages delta state) :
    ∀ p ∈ pages, p * s.pageSize < current.length := by
  obtain ⟨region, _, _, ⟨_, ⟨shadow, _, rfl⟩, _⟩ | ⟨_, ⟨dirtyBitmap, rfl⟩, _⟩⟩ := h.region
  · exact fun p hp => lt_length_of_mem_hostDirtyPages s.pageSize_pos hp
  · exact fun p hp => lt_length_of_mem_bitmapDirtyPages s.pageSize_pos hp

theorem map_id (h : Created s id current pages delta state) :
    state.regions.map TrackedRegion.id = s.regions.map TrackedRegion.id := by
  obtain ⟨region, _, _, ⟨_, _, hregions⟩ | ⟨_, _, hregions⟩⟩ := h.region
  · rw [hregions, map_updateFirst id (fun x => x.setShadow_id current)]
  · rw [hregions]

/-- The regions after creating a delta: the others as they were, and the region
itself with its length and kind, and the contents as shadow if it has one. -/
theorem mem_regions (h : Created s id current pages delta state)
    (hnd : (s.regions.map TrackedRegion.id).Nodup) (hmem : region ∈ state.regions) :
    (region ∈ s.regions ∧ region.id ≠ id) ∨
      (∃ old, s.findRegion id = some old ∧ region.id = id ∧ region.len = current.length ∧
        old.len = current.length ∧ region.kind = old.kind ∧
        (region.kind = .opaqueShadow → region.shadow = some current)) := by
  obtain ⟨old, hfind, hlen, ⟨hkind, _, hregions⟩ | ⟨hkind, _, hregions⟩⟩ := h.region
  · rw [hregions] at hmem
    rcases mem_updateFirst hnd hmem with hother | ⟨found, hfound, rfl⟩
    · exact .inl hother
    · obtain rfl : old = found := some.inj (hfind.symm.trans hfound)
      have hset : current.length = old.len := hlen.symm
      refine .inr ⟨old, hfind, ?_, ?_, hlen, ?_, ?_⟩
      · rw [TrackedRegion.setShadow_id]
        exact key_of_lookup hfind
      · simp [TrackedRegion.setShadow, hset]
      · simp [TrackedRegion.setShadow, hset]
      · simp [TrackedRegion.setShadow, hset]
  · rw [hregions] at hmem
    by_cases hid : region.id = id
    · have hsame : s.findRegion id = some region := hid ▸ lookup_of_mem hnd hmem
      obtain rfl : old = region := some.inj (hfind.symm.trans hsame)
      exact .inr ⟨old, hfind, hid, hlen, hlen, rfl, fun hk => by rw [hkind] at hk; cases hk⟩
    · exact .inl ⟨hmem, hid⟩

end Created

/-! ## What a call can do -/

/-- The effect of a call that returned: it was refused, it registered a region,
it logged a delta, or its delta was cut short by the device. -/
inductive Effect (s : Session) (call : Call) (fault : Option WriteFault) : Session → Prop
  | refused {runtime : ConcordiaRuntime} (hstate : runtime.state = s.runtime.state)
      (hlog : runtime.logBytes = s.runtime.logBytes) (haof : ∃ aof, runtime.aof = some aof) :
      Effect s call fault { s with runtime := runtime }
  | registered {runtime : ConcordiaRuntime} {region : TrackedRegion} {contents : ByteVec}
      (hid : region.id = s.runtime.state.nextRegionId) (hlen : region.len = contents.length)
      (hshadow : region.kind = .opaqueShadow → region.shadow = some contents)
      (hregions : runtime.state.regions = s.regions ++ [region])
      (hsize : runtime.state.pageSize = s.pageSize)
      (hnext : runtime.state.nextRegionId.toNat = s.runtime.state.nextRegionId.toNat + 1)
      (hlog : runtime.logBytes = s.runtime.logBytes) (haof : ∃ aof, runtime.aof = some aof) :
      Effect s call fault (s.registered s.runtime.state.nextRegionId runtime contents)
  | logged {runtime : ConcordiaRuntime} {id : UInt64} {current : ByteVec} {pages : List Nat}
      {delta : DeltaRecord}
      (hcreated : Created s.runtime.state id current pages delta runtime.state)
      (hdelta : s.deltaOf call = some delta)
      (hcovers : ∀ region, s.runtime.state.findRegion id = some region →
        region.kind = .allocatorBitmap → s.Covers call → s.Lists id current pages)
      (hlog : runtime.logBytes = s.runtime.logBytes ++ encodeLog delta.records)
      (haof : ∃ aof, runtime.aof = some aof) :
      Effect s call fault (s.checkpointed id runtime current pages)
  | cut {runtime : ConcordiaRuntime} {id : UInt64} {current : ByteVec} {pages : List Nat}
      {delta : DeltaRecord} {device : WriteFault}
      (hcreated : Created s.runtime.state id current pages delta runtime.state)
      (hdelta : s.deltaOf call = some delta) (hfault : fault = some device)
      (hroom : device.room < (encodeLog delta.records).length)
      (hlog : runtime.logBytes =
        s.runtime.logBytes ++ (encodeLog delta.records).take device.room)
      (haof : ∃ aof, runtime.aof = some aof) :
      Effect s call fault { s with runtime := runtime }

/-- A registration appends one region under the next id. -/
theorem registerRegion_spec {s state : DeltaCheckpointState} {region : UInt64 → TrackedRegion}
    {id : UInt64} (h : s.registerRegion region = some (id, state)) :
    id = s.nextRegionId ∧ state.pageSize = s.pageSize ∧
      state.nextRegionId.toNat = s.nextRegionId.toNat + 1 ∧
      state.regions = s.regions ++ [region s.nextRegionId] := by
  unfold registerRegion at h
  obtain ⟨next, hnext, hpair⟩ := Option.map_eq_some_iff.mp h
  obtain ⟨rfl, rfl⟩ := Prod.mk.inj hpair
  exact ⟨rfl, rfl, checkedSucc_eq_some hnext, rfl⟩

/-- A page a covering bitmap does not mark has not changed. -/
theorem Session.Covers.lists {id : UInt64} {current : ByteVec} {boundary : String}
    (h : s.Covers (.checkpointBitmap id current dirtyBitmap boundary)) :
    s.Lists id current
      (bitmapDirtyPages s.pageSize current dirtyBitmap) := by
  intro hlen i hi
  refine (pageDiffers_eq_false_iff s.pageSize_pos).mp ?_ i rfl
  by_contra hdiff
  rw [Bool.not_eq_false] at hdiff
  exact hi (mem_filter.mpr
    ⟨mem_range.mpr (lt_pageCount_of_differs s.pageSize_pos hlen hdiff), h hlen _ hdiff⟩)

variable {fault : Option WriteFault} {call : Call}

/-- A checkpoint call that returned, in terms of the delta it created. -/
theorem afterCheckpoint_effect {aof : AofDiskLog} (haof : s.runtime.aof = some aof) {id : UInt64}
    {current : ByteVec} {boundary : String}
    {result : Except Fault DeltaRecord × DeltaCheckpointState}
    (hdelta : s.deltaOf call = result.1.toOption)
    (herror : ∀ e state, result = (.error e, state) → state = s.runtime.state) (hok : ∀ delta state,
      result = (.ok delta, state) → ∃ pages, Created s.runtime.state id current pages delta state ∧
      ∀ region, s.runtime.state.findRegion id = some region → region.kind = .allocatorBitmap →
      s.Covers call → s.Lists id current pages) (h : s.afterCheckpoint id current (s.pagesOf call)
      ((s.runtime.withFault fault).logDelta boundary result) = some t) : Effect s call fault t := by
  have haof' := s.runtime.withFault_aof haof fault
  cases hres : (s.runtime.withFault fault).logDelta boundary result with
  | mk outcome runtime =>
    rw [hres] at h
    cases outcome with
    | ok report =>
      obtain rfl := some.inj h
      obtain ⟨delta, state, rfl, rfl, hsome, _, hlog⟩ := logDelta_ok haof' hres
      obtain ⟨pages, hcreated, hcovers⟩ := hok delta _ rfl
      have hpages : s.pagesOf call = pages := by
        rw [Session.pagesOf, hdelta]
        exact hcreated.delta.pages_eq s.pageSize_pos hcreated.page_lt
      rw [hpages]
      exact .logged hcreated hdelta hcovers
        (by rw [hlog, withFault_logBytes]) hsome
    | error e =>
      cases e with
      | panic => cases h
      | err message =>
        obtain rfl := some.inj h
        rcases logDelta_error haof' hres with
          ⟨state, rfl, rfl⟩ | ⟨delta, state, device, rfl, hdevice, hroom, rfl, hsome, hlog⟩
        · obtain rfl := herror _ _ rfl
          exact .refused rfl (s.runtime.withFault_logBytes fault) ⟨_, haof'⟩
        · obtain ⟨pages, hcreated, _⟩ := hok delta _ rfl
          exact .cut hcreated hdelta hdevice hroom
            (by rw [hlog, withFault_logBytes]) hsome

/-- What a call can do. -/
theorem Session.step_effect (haof : ∃ aof, s.runtime.aof = some aof)
    (h : s.step call fault = some t) : Effect s call fault t := by
  obtain ⟨aof, haof⟩ := haof
  have haof' := s.runtime.withFault_aof haof fault
  cases call with
  | registerOpaque baseAddr initial =>
    simp only [step, ConcordiaRuntime.registerOpaqueHostRegion, Option.map_map,
      Option.map_eq_some_iff] at h
    obtain ⟨⟨id, state⟩, hreg, rfl⟩ := h
    obtain ⟨rfl, hsize, hnext, hregions⟩ := registerRegion_spec hreg
    exact .registered rfl rfl (fun _ => rfl) hregions hsize hnext
      (s.runtime.withFault_logBytes fault) ⟨_, haof'⟩
  | registerBitmap baseAddr contents =>
    simp only [step, ConcordiaRuntime.registerAllocatorBitmapRegion, Option.map_map,
      Option.map_eq_some_iff] at h
    obtain ⟨⟨id, state⟩, hreg, rfl⟩ := h
    obtain ⟨rfl, hsize, hnext, hregions⟩ := registerRegion_spec hreg
    exact .registered rfl rfl (fun hkind => by cases hkind) hregions hsize hnext
      (s.runtime.withFault_logBytes fault) ⟨_, haof'⟩
  | checkpointHost id current boundary =>
    refine afterCheckpoint_effect haof rfl ?_ ?_ h
    · exact fun e state hcreate => createHostDelta_error hcreate
    · intro delta state hcreate
      obtain ⟨pages, hcreated⟩ := Created.ofHost hcreate
      refine ⟨pages, hcreated, ?_⟩
      intro region hfind hkind
      obtain ⟨region', _, hfind', hkind', _⟩ := createHostDelta_ok hcreate
      obtain rfl : region' = region := some.inj (hfind'.symm.trans hfind)
      rw [hkind] at hkind'
      cases hkind'
  | checkpointBitmap id current dirtyBitmap boundary =>
    refine afterCheckpoint_effect haof rfl ?_ ?_ h
    · exact fun e state hcreate => createBitmapDelta_error hcreate
    · intro delta state hcreate
      exact ⟨_, Created.ofBitmap hcreate, fun _ _ _ hcovers => hcovers.lists⟩

/-! ## The registered regions -/

/-- Region ids are distinct and below the next one; an opaque region has a
shadow. -/
structure Registry (state : DeltaCheckpointState) : Prop where
  nodup : (state.regions.map TrackedRegion.id).Nodup
  below : ∀ region ∈ state.regions, region.id.toNat < state.nextRegionId.toNat
  shadowed : ∀ region ∈ state.regions, region.kind = .opaqueShadow →
    ∃ shadow, region.shadow = some shadow

namespace Registry

variable {state after : DeltaCheckpointState}

theorem of_nil (h : state.regions = []) : Registry state where
  nodup := by simp [h]
  below := by simp [h]
  shadowed := by simp [h]

theorem id_ne_next (h : Registry state) (hmem : region ∈ state.regions) :
    region.id ≠ state.nextRegionId := by
  intro heq
  have := h.below region hmem
  rw [heq] at this
  omega

theorem registered (h : Registry state) (hid : region.id = state.nextRegionId)
    {contents : ByteVec} (hshadow : region.kind = .opaqueShadow → region.shadow = some contents)
    (hregions : after.regions = state.regions ++ [region])
    (hnext : after.nextRegionId.toNat = state.nextRegionId.toNat + 1) : Registry after := by
  have hmem : ∀ r ∈ after.regions, r ∈ state.regions ∨ r = region := by
    intro r hr
    rwa [hregions, mem_append, mem_singleton] at hr
  refine ⟨?_, ?_, ?_⟩
  · rw [hregions, map_append, nodup_append]
    refine ⟨h.nodup, by simp, ?_⟩
    intro a ha b hb
    obtain ⟨r, hr, rfl⟩ := mem_map.mp ha
    rw [map_cons, map_nil, mem_singleton, hid] at hb
    rw [hb]
    exact h.id_ne_next hr
  · intro r hr
    rcases hmem r hr with hold | rfl
    · have := h.below r hold
      omega
    · rw [hid]
      omega
  · intro r hr
    rcases hmem r hr with hold | rfl
    · exact h.shadowed r hold
    · exact fun hkind => ⟨contents, hshadow hkind⟩

/-- The ids stay, and regions change only in getting a shadow. -/
theorem keeps (h : Registry state)
    (hids : after.regions.map TrackedRegion.id = state.regions.map TrackedRegion.id)
    (hnext : after.nextRegionId = state.nextRegionId)
    (hshadow : ∀ r ∈ after.regions, r.kind = .opaqueShadow →
      r ∈ state.regions ∨ ∃ contents, r.shadow = some contents) : Registry after := by
  refine ⟨hids ▸ h.nodup, ?_, ?_⟩
  · intro r hr
    have hid : r.id ∈ state.regions.map TrackedRegion.id := hids ▸ mem_map_of_mem hr
    obtain ⟨old, hold, heq⟩ := mem_map.mp hid
    rw [hnext, ← heq]
    exact h.below old hold
  · intro r hr hkind
    rcases hshadow r hr hkind with hold | hset
    · exact h.shadowed r hold hkind
    · exact hset

theorem created (h : Registry state) {id : UInt64} {current : ByteVec} {pages : List Nat}
    {delta : DeltaRecord} (hcreated : Created state id current pages delta after) :
    Registry after := by
  refine h.keeps hcreated.map_id hcreated.nextRegionId fun r hr hkind => ?_
  rcases hcreated.mem_regions h.nodup hr with ⟨hold, _⟩ | ⟨_, _, _, _, _, _, hshadow⟩
  · exact .inl hold
  · exact .inr ⟨current, hshadow hkind⟩

theorem effect (h : Registry s.runtime.state) (heffect : Effect s call fault t) :
    Registry t.runtime.state := by
  cases heffect with
  | refused hstate => rwa [hstate]
  | registered hid _ hshadow hregions _ hnext =>
    exact h.registered hid hshadow hregions hnext
  | logged hcreated => exact h.created hcreated
  | cut hcreated => exact h.created hcreated

end Registry

end Concordia.Runtime
