import Concordia.Runtime.Session

/-!
# Restore, then continue

`restore_host_region_from_aof_path` replays a log into a buffer and makes the
result the region's shadow. From there on the old log followed by the new
records reconstructs every later checkpoint: the shadow is what the records so
far replay to, before and after each checkpoint (`checkpointAll_replay`).
-/

namespace Concordia.Runtime

open Concordia.Lib Concordia.Aof Concordia.Delta ConcordiaRuntime List

/-- Region `id` is opaque and its shadow holds `shadow`. -/
def HoldsShadow (state : DeltaCheckpointState) (id : UInt64) (shadow : ByteVec) : Prop :=
  ∃ region, state.findRegion id = some region ∧ region.kind = .opaqueShadow ∧
    region.shadow = some shadow

namespace HoldsShadow

variable {state : DeltaCheckpointState} {id : UInt64} {shadow current : ByteVec}

variable (h : HoldsShadow state id shadow) (hlen : current.length = shadow.length)

include h hlen

/-- Bringing the shadow up to date. -/
theorem setShadow {after : DeltaCheckpointState} (hregions : after.regions = updateFirst
      TrackedRegion.id id (·.setShadow current) state.regions) : HoldsShadow after id current := by
  obtain ⟨region, hfind, hkind, hshadow⟩ := h
  have hset : current.length = region.len := hlen.trans (region.shadow_length shadow hshadow)
  refine ⟨region.setShadow current, ?_, ?_, ?_⟩
  · show lookup _ _ after.regions = _
    rw [hregions, lookup_updateFirst id fun x => x.setShadow_id current]
    rw [show lookup TrackedRegion.id id state.regions = some region from hfind, Option.map_some]
  · simp [TrackedRegion.setShadow, hset, hkind]
  · simp [TrackedRegion.setShadow, hset]

theorem refreshOpaqueShadow :
    ∃ after, state.refreshOpaqueShadow id current = (.ok (), after) ∧
      HoldsShadow after id current := by
  refine ⟨state.updateRegion id (·.setShadow current), ?_, h.setShadow hlen rfl⟩
  obtain ⟨region, hfind, hkind, hshadow⟩ := h
  have hlen' : region.len = current.length := by rw [hlen, region.shadow_length shadow hshadow]
  simp only [DeltaCheckpointState.refreshOpaqueShadow, hfind, hkind, hlen', hshadow, ne_eq,
    not_true_eq_false, if_false]

theorem createHostDelta :
    ∃ delta after, state.createHostDelta id current = (.ok delta, after) ∧
      PagesDelta state.pageSize id current (hostDirtyPages state.pageSize shadow current) delta ∧
      HoldsShadow after id current := by
  have hset := @setShadow _ _ _ _ h hlen
  obtain ⟨region, hfind, hkind, hshadow⟩ := h
  have hlen' : region.len = current.length := by rw [hlen, region.shadow_length shadow hshadow]
  obtain ⟨delta, after, hcreate⟩ :
      ∃ delta after, state.createHostDelta id current = (.ok delta, after) := by
    simp only [DeltaCheckpointState.createHostDelta, hfind, hkind, hlen', hshadow, ne_eq,
      not_true_eq_false, if_false]
    exact ⟨_, _, rfl⟩
  obtain ⟨region', shadow', hfind', _, _, hshadow', hdelta, _, _, _, _, hregions⟩ :=
    DeltaCheckpointState.createHostDelta_ok hcreate
  obtain rfl : region = region' := Option.some.inj (hfind.symm.trans hfind')
  obtain rfl : shadow = shadow' := Option.some.inj (hshadow.symm.trans hshadow')
  exact ⟨delta, after, hcreate, hdelta, hset hregions⟩

end HoldsShadow

/-! ## Checkpoints in a row -/

/-- Checkpoints of one region in a row, the device working. -/
def ConcordiaRuntime.checkpointAll (rt : ConcordiaRuntime) (id : UInt64) :
    List (ByteVec × String) → Except Fault (List CheckpointSummary) × ConcordiaRuntime
  | [] => (.ok [], rt)
  | (current, boundary) :: rest =>
    match (rt.withFault none).checkpointHostRegion id current boundary with
    | (.error fault, rt) => (.error fault, rt)
    | (.ok report, rt) =>
      match rt.checkpointAll id rest with
      | (.error fault, rt) => (.error fault, rt)
      | (.ok reports, rt) => (.ok (report :: reports), rt)

/-- One checkpoint of a region whose shadow is known. -/
theorem checkpointHostRegion_of_holdsShadow {rt : ConcordiaRuntime}
    (haof : ∃ aof, rt.aof = some aof) {id : UInt64} {shadow current : ByteVec}
    (h : HoldsShadow rt.state id shadow) (hlen : current.length = shadow.length)
    (boundary : String) :
    ∃ report delta after, (rt.withFault none).checkpointHostRegion id current boundary =
        (.ok report, after) ∧
      PagesDelta rt.state.pageSize id current
        (hostDirtyPages rt.state.pageSize shadow current) delta ∧
      report = rt.summary delta boundary ∧
      after.logBytes = rt.logBytes ++ encodeLog delta.records ∧
      (∃ aof, after.aof = some aof) ∧ HoldsShadow after.state id current := by
  obtain ⟨aof, haof⟩ := haof
  obtain ⟨delta, state, hcreate, hdelta, hholds⟩ := h.createHostDelta hlen
  have haof' := rt.withFault_aof haof none
  obtain ⟨after, hafter⟩ := logDelta_of_ok haof' rfl boundary delta state
  obtain ⟨_, _, hres, hstate, hsome, _, hlog⟩ := logDelta_ok haof' hafter
  obtain ⟨hdelta', rfl⟩ := Prod.mk.inj hres
  obtain rfl := Except.ok.inj hdelta'
  refine ⟨_, delta, after, ?_, hdelta, rfl, ?_, hsome, hstate ▸ hholds⟩
  · rw [checkpointHostRegion, withFault_state, hcreate]
    exact hafter
  · rw [hlog, withFault_logBytes]

/-- If the records so far replay to the shadow, they and the new ones replay to
the last checkpoint. -/
theorem checkpointAll_replay {id : UInt64} {base : ByteVec} (contents : List (ByteVec × String))
    (hlen : ∀ c ∈ contents, c.1.length = base.length) :
    ∀ {rt : ConcordiaRuntime} {shadow : ByteVec} {records : List AofRecord},
      (∃ aof, rt.aof = some aof) → HoldsShadow rt.state id shadow →
      (∃ applied, applyRecordsToRegion id base records = (.ok applied, shadow)) →
      ∃ reports after later applied, rt.checkpointAll id contents = (.ok reports, after) ∧
        after.logBytes = rt.logBytes ++ encodeLog later ∧
        applyRecordsToRegion id base (records ++ later) =
          (.ok applied, (contents.map Prod.fst).getLastD shadow) := by
  induction contents with
  | nil =>
    rintro rt shadow records _ _ ⟨applied, happly⟩
    exact ⟨[], rt, [], applied, rfl, (append_nil _).symm, by rw [append_nil]; exact happly⟩
  | cons c rest ih =>
    obtain ⟨current, boundary⟩ := c
    intro rt shadow records haof hholds happly
    have hbase : base.length = current.length := (hlen _ mem_cons_self).symm
    have hshadow : current.length = shadow.length := by
      rw [length_of_applyRecordsToRegion happly, hbase]
    obtain ⟨report, delta, after, hok, hdelta, _, hlog, hsome, hholds'⟩ :=
      checkpointHostRegion_of_holdsShadow haof hholds hshadow boundary
    have hpos := rt.state.pageSize_pos
    have happly' := (applyRecordsToRegion_append_delta happly hdelta
      (fun _ => lt_length_of_mem_hostDirtyPages hpos) hpos hbase).mpr
        (fun i hi => (eq_of_not_mem_hostDirtyPages hpos hshadow hi).symm)
    obtain ⟨reports, last, later, applied, hall, hlog', hreplay⟩ :=
      ih (fun c hc => hlen c (mem_cons_of_mem _ hc)) hsome hholds' happly'
    refine ⟨report :: reports, last, delta.records ++ later, applied, ?_, ?_, ?_⟩
    · rw [checkpointAll]
      simp only [hok, hall]
    · rw [hlog', hlog, encodeLog_append, append_assoc]
    · rw [← append_assoc, hreplay, map_cons, getLastD_cons]

/-! ## Main result -/

theorem registry_of_reachable {runtime : ConcordiaRuntime} (haof : ∃ aof, runtime.aof = some aof)
    (hregions : runtime.state.regions = []) {s : Session} (h : (sessions runtime).Reachable s) :
    (∃ aof, s.runtime.aof = some aof) ∧ Registry s.runtime.state := by
  refine h.induct
    (P := fun s => (∃ aof, s.runtime.aof = some aof) ∧ Registry s.runtime.state) ?_ ?_
  · rintro _ rfl
    exact ⟨haof, .of_nil hregions⟩
  · rintro s a t ⟨hsome, hregistry⟩ hstep
    have heffect := Session.step_effect hsome hstep
    refine ⟨?_, hregistry.effect heffect⟩
    cases heffect <;> assumption

/-- **Restore, then continue.** Restoring a registered opaque region from a log
whose records fit it succeeds and gives what they replay to; checkpointing that
unchanged finds no dirty page; and after any later checkpoints the old records
followed by the new ones replay to the last of them. -/
theorem restore_then_continue {runtime : ConcordiaRuntime} (haof : ∃ aof, runtime.aof = some aof)
    (hregions : runtime.state.regions = []) {s : Session} (h : (sessions runtime).Reachable s)
    {region : TrackedRegion} (hregion : region ∈ s.regions) (hkind : region.kind = .opaqueShadow)
    {base : ByteVec} (hlen : base.length = region.len) {records : List AofRecord}
    (hfits : ∀ record ∈ records, record.regionId = region.id → Fits base.length record)
    (path boundary : String) :
    ∃ report rt restored applied,
      s.runtime.restoreHostRegionFromAofPath path (.ok (encodeLog records)) region.id base
        boundary = (.ok report, rt, restored) ∧
      applyRecordsToRegion region.id base records = (.ok applied, restored) ∧
      (∀ boundary, ∃ report after,
        (rt.withFault none).checkpointHostRegion region.id restored boundary =
          (.ok report, after) ∧ report.dirtyPages = 0) ∧
      ∀ contents : List (ByteVec × String), (∀ c ∈ contents, c.1.length = base.length) →
        ∃ reports after later applied,
          rt.checkpointAll region.id contents = (.ok reports, after) ∧
          after.logBytes = s.runtime.logBytes ++ encodeLog later ∧
          applyRecordsToRegion region.id base (records ++ later) =
            (.ok applied, (contents.map Prod.fst).getLastD restored) := by
  obtain ⟨hsome, hregistry⟩ := registry_of_reachable haof hregions h
  obtain ⟨shadow, hshadow⟩ := hregistry.shadowed region hregion hkind
  have hholds : HoldsShadow s.runtime.state region.id shadow :=
    ⟨region, lookup_of_mem hregistry.nodup hregion, hkind, hshadow⟩
  obtain ⟨restored, happly⟩ := exists_applyRecordsToRegion hfits
  have hrestored : restored.length = shadow.length := by
    rw [length_of_applyRecordsToRegion happly, hlen, region.shadow_length shadow hshadow]
  obtain ⟨state, hrefresh, hholds'⟩ := hholds.refreshOpaqueShadow hrestored
  have ⟨applied, hok⟩ := happly
  let rt : ConcordiaRuntime := { s.runtime with state := state }
  have hsome' : ∃ aof, rt.aof = some aof := hsome
  obtain ⟨report, hrestore⟩ : ∃ report, s.runtime.restoreHostRegionFromAofPath path
      (.ok (encodeLog records)) region.id base boundary = (.ok report, rt, restored) := by
    simp only [restoreHostRegionFromAofPath, readCommitted_encodeLog, hok,
      hrefresh]
    exact ⟨_, rfl⟩
  refine ⟨report, rt, restored, applied, hrestore, hok, ?_, ?_⟩
  · intro boundary
    obtain ⟨report, delta, after, hcheck, hdelta, rfl, _⟩ :=
      checkpointHostRegion_of_holdsShadow hsome' hholds' rfl boundary
    refine ⟨_, after, hcheck, ?_⟩
    show delta.dirtyPages.length = 0
    rw [hdelta, hostDirtyPages_self]
    rfl
  · exact fun contents hcontents => checkpointAll_replay contents hcontents hsome' hholds' happly

def overlappingRecords : List AofRecord :=
  [{ epoch := 1, regionId := 1, offset := 0, payload := ⟨[4, 4], by decide⟩ },
    { epoch := 2, regionId := 1, offset := 1, payload := ⟨[5, 5], by decide⟩ }]

theorem restore_then_continue_overlapping : ∃ (s : Session) (region : TrackedRegion)
    (report : RestoreSummary) (rt after : ConcordiaRuntime) (restored : ByteVec)
    (reports : List CheckpointSummary) (later : List AofRecord) (applied : Nat),
    region ∈ s.regions ∧
    s.runtime.restoreHostRegionFromAofPath "old" (.ok (encodeLog overlappingRecords)) region.id
      ⟨[9, 9, 9], by decide⟩ "restore" = (.ok report, rt, restored) ∧
    rt.checkpointAll region.id [(⟨[1, 5, 5], by decide⟩, "a")] = (.ok reports, after) ∧
    applyRecordsToRegion region.id ⟨[9, 9, 9], by decide⟩ (overlappingRecords ++ later) =
      (.ok applied, ⟨[1, 5, 5], by decide⟩) := by
  let runtime := (new 2 ⟨0, 1, 0⟩).setAofPath "new"
  obtain ⟨s, region, hstep, hregion, hkind, hlen⟩ : ∃ (s : Session) (region : TrackedRegion),
      (Session.start runtime).step (.registerOpaque 0 ⟨[0, 0, 0], by decide⟩) none = some s ∧
        region ∈ s.regions ∧ region.kind = .opaqueShadow ∧
        (ByteVec.mk [9, 9, 9] (by decide)).length = region.len :=
    ⟨_, _, rfl, mem_cons_self, rfl, rfl⟩
  have hreach : (sessions runtime).Reachable s := .step (a := (_, none)) (.init rfl) hstep
  have hfits : ∀ record ∈ overlappingRecords, record.regionId = region.id →
      Fits (ByteVec.mk [9, 9, 9] (by decide)).length record := by
    simp only [overlappingRecords, forall_mem_cons]
    exact ⟨fun _ => by unfold Fits; decide, fun _ => by unfold Fits; decide, by simp⟩
  obtain ⟨report, rt, restored, _, hrestore, _, _, hlater⟩ :=
    restore_then_continue ⟨_, rfl⟩ rfl hreach hregion hkind hlen hfits "old" "restore"
  obtain ⟨reports, after, later, applied, hall, _, happly⟩ :=
    hlater [(⟨[1, 5, 5], by decide⟩, "a")] (by simp [ByteVec.length])
  exact ⟨s, region, report, rt, after, restored, reports, later, applied, hregion, hrestore, hall,
    happly⟩

end Concordia.Runtime
