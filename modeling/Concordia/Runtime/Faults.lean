import Concordia.Runtime.Soundness

/-!
# Checkpoints after a failed append

A checkpoint advances the shadow before its delta is written. When the append
fails, the pages that did not reach the log are no longer dirty, and a later
checkpoint does not write them again unless they change once more. As long as
failing appends stop between two records, a later checkpoint is reconstructed
exactly when it rewrites every page on which the log and the shadow had come
apart (`checkpoint_after_fault_iff`).
-/

namespace Concordia.Runtime

open Concordia.Lib Concordia.Aof Concordia.Delta List ConcordiaRuntime Option

/-- If the call's append fails, it stops between two records. -/
def WholeRecords (s : Session) (a : Call × Option WriteFault) : Prop :=
  ∀ delta device, s.deltaOf a.1 = some delta → a.2 = some device →
    device.room < (encodeLog delta.records).length →
    ∃ k, device.room = (encodeLog (delta.records.take k)).length

/-- Calls that leave whole records keep the books. -/
theorem Kept.step {earlier records : List AofRecord} {s t : Session}
    {a : Call × Option WriteFault} (h : Kept earlier s records) (hwhole : WholeRecords s a)
    (hstep : s.step a.1 a.2 = some t) : ∃ records', Kept earlier t records' := by
  cases Session.step_effect h.aof hstep with
  | refused hstate hlog haof => exact ⟨records, h.refused hstate hlog haof⟩
  | registered hid hlen hshadow hregions _ hnext hlog haof =>
    exact ⟨records, h.registered hid hlen hshadow hregions hnext hlog haof⟩
  | logged hcreated _ _ hlog haof =>
    exact ⟨_, h.append hcreated (fun _ hr => hr) rfl hlog haof⟩
  | cut hcreated hdelta hfault hroom hlog haof =>
    rename_i runtime id current pages delta device
    obtain ⟨k, hk⟩ := hwhole delta device hdelta hfault hroom
    have htake : (encodeLog delta.records).take device.room =
        encodeLog (delta.records.take k) := by
      conv_lhs => rw [← take_append_drop k delta.records, encodeLog_append, hk]
      exact take_left
    have hsub : ∀ r ∈ delta.records.take k, r ∈ delta.records := fun r => mem_of_mem_take
    exact ⟨_, h.append hcreated hsub rfl (htake ▸ hlog) haof⟩

theorem kept_of_reachable {earlier : List AofRecord} {runtime : ConcordiaRuntime}
    (haof : ∃ aof, runtime.aof = some aof) (hlog : runtime.logBytes = encodeLog earlier)
    (hregions : runtime.state.regions = []) {s : Session}
    (h : ((sessions runtime).restrict WholeRecords).Reachable s) :
    ∃ records, Kept earlier s records := by
  refine h.induct (P := fun s => ∃ records, Kept earlier s records) ?_ ?_
  · rintro _ rfl
    exact ⟨[], Kept.start haof hlog hregions⟩
  · rintro s a t ⟨records, hkept⟩ ⟨hwhole, hstep⟩
    exact hkept.step hwhole hstep

/-- **Checkpoints after faults.** In every session whose failing appends leave
whole records, a checkpoint that returns `Ok` is what the log reconstructs
exactly when it changes every page on which the log's contents and the shadow
differ. -/
theorem checkpoint_after_fault_iff (pageSize : Nat) (mpiInfo : MpiInfo) (path : String)
    {s : Session}
    (h : ((sessions ((new pageSize mpiInfo).setAofPath path)).restrict
      WholeRecords).Reachable s)
    {region : TrackedRegion} (hregion : region ∈ s.regions) {shadow : ByteVec}
    (hshadow : region.shadow = some shadow) {fault : Option WriteFault} {current : ByteVec}
    {boundary : String} {report : CheckpointSummary} {runtime : ConcordiaRuntime}
    (hok : (s.runtime.withFault fault).checkpointHostRegion region.id current boundary =
      (.ok report, runtime)) :
    (∃ records applied, readCommitted runtime.logBytes = some records ∧
      applyRecordsToRegion region.id (s.base region.id) records = (.ok applied, current)) ↔
    ∃ records applied logged, readCommitted s.runtime.logBytes = some records ∧
      applyRecordsToRegion region.id (s.base region.id) records = (.ok applied, logged) ∧
      ∀ p, pageDiffers s.pageSize logged shadow p = true →
        pageDiffers s.pageSize current shadow p = true := by
  obtain ⟨records, hkept⟩ := kept_of_reachable ⟨_, rfl⟩ (show _ = encodeLog [] from rfl) rfl h
  obtain ⟨aof, haof⟩ := hkept.aof
  obtain ⟨delta, state, hcreate, _, _, _, hlog⟩ :=
    logDelta_ok (s.runtime.withFault_aof haof fault) hok
  obtain ⟨found, shadow', hfind, _, hlen, hshadow', hdelta, _⟩ :=
    DeltaCheckpointState.createHostDelta_ok hcreate
  obtain rfl : region = found :=
    some.inj ((lookup_of_mem hkept.registry.nodup hregion).symm.trans hfind)
  obtain rfl : shadow = shadow' := some.inj (hshadow.symm.trans hshadow')
  have hbase : (s.base region.id).length = current.length :=
    (hkept.base_length region hregion).trans hlen
  have hread : readCommitted runtime.logBytes = some (records ++ delta.records) := by
    rw [hlog, withFault_logBytes, hkept.log, ← encodeLog_append]
    exact readCommitted_encodeLog _
  -- what the log held before the call
  have hfits : ∀ record ∈ records, record.regionId = region.id →
      Fits (s.base region.id).length record := by
    rw [hbase, ← hlen]
    exact hkept.fits region hregion
  obtain ⟨logged, happly⟩ := exists_applyRecordsToRegion hfits
  have hadd := (applyRecordsToRegion_append_delta happly hdelta
    (fun _ => lt_length_of_mem_hostDirtyPages s.pageSize_pos) s.pageSize_pos hbase).trans
    (eq_off_hostDirtyPages_iff s.pageSize_pos
      (hlen.symm.trans (region.shadow_length shadow hshadow).symm))
  constructor
  · rintro ⟨all, applied, hall, hres⟩
    obtain rfl := some.inj (hread.symm.trans hall)
    obtain ⟨n, hn⟩ := happly
    exact ⟨records, n, logged, hkept.readCommitted_logBytes, hn, hadd.mp ⟨applied, hres⟩⟩
  · rintro ⟨before, n, logged', hbefore, hn, hpages⟩
    obtain rfl := some.inj (hkept.readCommitted_logBytes.symm.trans hbefore)
    obtain ⟨m, hm⟩ := happly
    obtain rfl : logged = logged' := congrArg Prod.snd (hm.symm.trans hn)
    obtain ⟨applied, hres⟩ := hadd.mpr hpages
    exact ⟨_, applied, hread, hres⟩

/-- A one-byte region whose checkpoint of `[1]` meets a full device. -/
def fullDeviceCalls : List (Call × Option WriteFault) :=
  [(.registerOpaque 0 ⟨[0], by decide⟩, none),
    (.checkpointHost 1 ⟨[1], by decide⟩ "a", some ⟨0, "no space left on device"⟩)]

/-- A later checkpoint that changes the lost page. -/
theorem checkpoint_after_fault_rewritten : ∃ (s : Session) (region : TrackedRegion)
    (shadow : ByteVec) (report : CheckpointSummary) (runtime : ConcordiaRuntime),
    region ∈ s.regions ∧ region.shadow = some shadow ∧
    (s.runtime.withFault none).checkpointHostRegion region.id ⟨[2], by decide⟩ "b" =
      (.ok report, runtime) ∧
    ((∃ records applied, readCommitted runtime.logBytes = some records ∧
        applyRecordsToRegion region.id (s.base region.id) records =
          (.ok applied, ⟨[2], by decide⟩)) ↔
      ∃ records applied logged, readCommitted s.runtime.logBytes = some records ∧
        applyRecordsToRegion region.id (s.base region.id) records = (.ok applied, logged) ∧
        ∀ p, pageDiffers s.pageSize logged shadow p = true →
          pageDiffers s.pageSize ⟨[2], by decide⟩ shadow p = true) := by
  obtain ⟨s, region, shadow, report, runtime, hrun, hregion, hshadow, hok⟩ :
      ∃ (s : Session) (region : TrackedRegion) (shadow : ByteVec) (report : CheckpointSummary)
        (runtime : ConcordiaRuntime),
        (Session.start ((new 4096 ⟨0, 1, 0⟩).setAofPath "log")).run
          fullDeviceCalls = some s ∧
        region ∈ s.regions ∧ region.shadow = some shadow ∧
        (s.runtime.withFault none).checkpointHostRegion region.id ⟨[2], by decide⟩ "b" =
          (.ok report, runtime) :=
    ⟨_, _, _, _, _, rfl, mem_cons_self, rfl, rfl⟩
  have hwhole : ∀ a ∈ fullDeviceCalls, ∀ s, WholeRecords s a := by
    intro a ha s delta device _ hdevice _
    refine ⟨0, ?_⟩
    simp only [fullDeviceCalls, mem_cons, not_mem_nil, or_false] at ha
    rcases ha with rfl | rfl
    · cases hdevice
    · obtain rfl := some.inj hdevice
      rfl
  have hreach := reachable_of_run fullDeviceCalls hwhole (.init rfl) hrun
  exact ⟨s, region, shadow, report, runtime, hregion, hshadow, hok,
    checkpoint_after_fault_iff 4096 ⟨0, 1, 0⟩ "log" hreach hregion hshadow hok⟩

/-- **Lost page.** After the failed checkpoint of `[1]`, a checkpoint of `[1]`
succeeds and writes nothing; the log still reconstructs `[0]`. -/
theorem checkpoint_after_fault_lost : ∃ (s : Session) (report : CheckpointSummary)
    (runtime : ConcordiaRuntime),
    (Session.start ((new 4096 ⟨0, 1, 0⟩).setAofPath "log")).run
      fullDeviceCalls = some s ∧
    (s.runtime.withFault none).checkpointHostRegion 1 ⟨[1], by decide⟩ "b" =
      (.ok report, runtime) ∧
    readCommitted runtime.logBytes = some [] ∧
    applyRecordsToRegion 1 (s.base 1) [] = (.ok 0, ⟨[0], by decide⟩) := by
  refine ⟨_, _, _, rfl, rfl, rfl, rfl⟩

end Concordia.Runtime
