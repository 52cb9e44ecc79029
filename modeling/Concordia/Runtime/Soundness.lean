import Concordia.Runtime.Session

/-!
# Checkpoint and replay

The log is a faithful copy of every region's last checkpoint. The invariant
ties the three together: replaying the session's records of a region onto *any*
buffer of its length puts the last checkpointed contents on the pages the
session has dirtied and touches nothing else (`Replays`). Onto the registration
contents this is the last checkpoint (`checkpoint_replay_sound`); onto a buffer
that an earlier session's records have been replayed to, it is the last
checkpoint as far as those records stayed within the dirtied pages
(`sessions_replay_iff`).
-/

namespace Concordia.Runtime

open Concordia.Lib Concordia.Aof Concordia.Delta List Function ConcordiaRuntime

/-! ## Bookkeeping -/

/-- The log holds `earlier` and the session's own `records`, which belong to
registered regions and fit them. -/
structure Kept (earlier : List AofRecord) (s : Session) (records : List AofRecord) : Prop where
  aof : ∃ aof, s.runtime.aof = some aof
  log : s.runtime.logBytes = encodeLog (earlier ++ records)
  registry : Registry s.runtime.state
  recordBelow : ∀ record ∈ records, record.regionId.toNat < s.runtime.state.nextRegionId.toNat
  fits : ∀ region ∈ s.regions, ∀ record ∈ records, record.regionId = region.id →
    Fits region.len record
  base_length : ∀ region ∈ s.regions, (s.base region.id).length = region.len

variable {t : Session} {runtime : ConcordiaRuntime} {delta : DeltaRecord} {current : ByteVec}
  {pages : List Nat} {written : List AofRecord}

namespace Kept

variable {earlier records : List AofRecord} {s : Session}

theorem start (haof : ∃ aof, runtime.aof = some aof) (hlog : runtime.logBytes = encodeLog earlier)
    (hregions : runtime.state.regions = []) :
    Kept earlier (Session.start runtime) [] where
  aof := haof
  log := by rw [append_nil]; exact hlog
  registry := .of_nil hregions
  recordBelow := by simp
  fits := by simp
  base_length := by simp [Session.regions, Session.start, hregions]

theorem refused (h : Kept earlier s records) (hstate : runtime.state = s.runtime.state)
    (hlog : runtime.logBytes = s.runtime.logBytes) (haof : ∃ aof, runtime.aof = some aof) :
    Kept earlier { s with runtime := runtime } records where
  aof := haof
  log := hlog.trans h.log
  registry := by simp only [hstate]; exact h.registry
  recordBelow := by simp only [hstate]; exact h.recordBelow
  fits := by simp only [Session.regions, hstate]; exact h.fits
  base_length := by simp only [Session.regions, hstate]; exact h.base_length

theorem registered (h : Kept earlier s records) {region : TrackedRegion} {contents : ByteVec}
    (hid : region.id = s.runtime.state.nextRegionId) (hlen : region.len = contents.length)
    (hshadow : region.kind = .opaqueShadow → region.shadow = some contents)
    (hregions : runtime.state.regions = s.regions ++ [region])
    (hnext : runtime.state.nextRegionId.toNat = s.runtime.state.nextRegionId.toNat + 1)
    (hlog : runtime.logBytes = s.runtime.logBytes) (haof : ∃ aof, runtime.aof = some aof) :
    Kept earlier (s.registered s.runtime.state.nextRegionId runtime contents) records := by
  have hmem : ∀ r, r ∈ runtime.state.regions ↔ r ∈ s.regions ∨ r = region := by
    intro r
    rw [hregions, mem_append, mem_singleton]
  refine ⟨haof, hlog.trans h.log, h.registry.registered hid hshadow hregions hnext, ?_, ?_, ?_⟩
  · intro record hrecord
    show _ < runtime.state.nextRegionId.toNat
    have := h.recordBelow record hrecord
    omega
  · intro r hr record hrecord heq
    rcases (hmem r).mp hr with hold | rfl
    · exact h.fits r hold record hrecord heq
    · -- no record of this session carries the new id
      have := h.recordBelow record hrecord
      rw [heq, hid] at this
      omega
  · intro r hr
    show (update s.base _ _ r.id).length = _
    rcases (hmem r).mp hr with hold | rfl
    · rw [update_of_ne (h.registry.id_ne_next hold)]
      exact h.base_length r hold
    · rw [hid, update_self]
      exact hlen.symm

/-- Some of the records of a new delta reached the log. -/
theorem append (h : Kept earlier s records) {id : UInt64}
    (hcreated : Created s.runtime.state id current pages delta t.runtime.state)
    (hsub : ∀ record ∈ written, record ∈ delta.records) (hbase : t.base = s.base)
    (hlog : t.runtime.logBytes = s.runtime.logBytes ++ encodeLog written)
    (haof : ∃ aof, t.runtime.aof = some aof) : Kept earlier t (records ++ written) := by
  have hmem := fun r (hr : r ∈ t.regions) => hcreated.mem_regions h.registry.nodup hr
  -- every region after the call has the id and the length of one before
  have hold : ∀ r ∈ t.regions, ∃ r' ∈ s.regions, r'.id = r.id ∧ r'.len = r.len := by
    intro r hr
    rcases hmem r hr with ⟨hr', _⟩ | ⟨old, hfind, hid, hlen, hlen', _, _⟩
    · exact ⟨r, hr', rfl, rfl⟩
    · exact ⟨old, mem_of_lookup hfind, (key_of_lookup hfind).trans hid.symm, hlen'.trans hlen.symm⟩
  obtain ⟨target, htarget, _⟩ := hcreated.region
  have hnext := hcreated.nextRegionId
  refine ⟨haof, ?_, h.registry.created hcreated, ?_, ?_, ?_⟩
  · rw [hlog, h.log, ← encodeLog_append, append_assoc]
  · intro record hrecord
    rw [hnext]
    rcases mem_append.mp hrecord with hin | hin
    · exact h.recordBelow record hin
    · rw [hcreated.delta.regionId_eq record (hsub record hin), ← key_of_lookup htarget]
      exact h.registry.below target (mem_of_lookup htarget)
  · intro r hr record hrecord heq
    rcases mem_append.mp hrecord with hin | hin
    · obtain ⟨r', hr', hid, hlen⟩ := hold r hr
      rw [← hlen]
      exact h.fits r' hr' record hin (heq.trans hid.symm)
    · have hrid : r.id = id := heq.symm.trans (hcreated.delta.regionId_eq record (hsub record hin))
      rcases hmem r hr with ⟨_, hne⟩ | ⟨_, _, _, hlen, _⟩
      · exact absurd hrid hne
      · rw [hlen]
        exact hcreated.delta.fits hcreated.page_lt record (hsub record hin)
  · intro r hr
    obtain ⟨r', hr', hid, hlen⟩ := hold r hr
    rw [hbase, ← hid, ← hlen]
    exact h.base_length r' hr'

end Kept

/-! ## Replay -/

/-- What replaying the session's `records` of a region does to any buffer of its
length. -/
structure Replays (s : Session) (region : TrackedRegion) (records : List AofRecord) : Prop where
  live_length : (s.live region.id).length = region.len
  shadow : region.kind = .opaqueShadow → region.shadow = some (s.live region.id)
  replay : ∀ t : List UInt8, t.length = region.len → ∀ i,
    (overwriteAll t (writesOf region.id records))[i]? =
      if i / s.pageSize ∈ s.dirtied region.id then (s.live region.id).data[i]? else t[i]?
  clean : ∀ i, i / s.pageSize ∉ s.dirtied region.id →
    (s.live region.id).data[i]? = (s.base region.id).data[i]?

/-- The invariant of a session without device faults. -/
def Sound (earlier : List AofRecord) (s : Session) : Prop :=
  ∃ records, Kept earlier s records ∧ ∀ region ∈ s.regions, Replays s region records

variable {s : Session}

/-- The delta of a region lists every page that changed since its last
checkpoint: the shadow is that checkpoint, or the bitmap covers the change. -/
theorem lists_of_created {records : List AofRecord}
    (hreplays : ∀ region ∈ s.regions, Replays s region records) {id : UInt64}
    {state : DeltaCheckpointState}
    (hcreated : Created s.runtime.state id current pages delta state) (hbitmap : ∀ region,
      s.runtime.state.findRegion id = some region → region.kind = .allocatorBitmap → s.Lists id
      current pages) : s.Lists id current pages := by
  obtain ⟨region, hfind, _, ⟨hkind, ⟨shadow, hshadow, rfl⟩, _⟩ | ⟨hkind, _⟩⟩ := hcreated.region
  · intro hlen
    have hlive := (hreplays region (mem_of_lookup hfind)).shadow hkind
    rw [hshadow, key_of_lookup hfind] at hlive
    obtain rfl := Option.some.inj hlive
    exact fun i hi => eq_of_not_mem_hostDirtyPages s.pageSize_pos hlen hi
  · exact hbitmap region hfind hkind

namespace Replays

variable {s : Session} {region : TrackedRegion} {records : List AofRecord}

/-- A freshly registered region: no records, nothing dirtied. -/
theorem fresh (hlen : region.len = (s.live region.id).length)
    (hshadow : region.kind = .opaqueShadow → region.shadow = some (s.live region.id))
    (hbase : s.base region.id = s.live region.id) (hdirtied : s.dirtied region.id = [])
    (hnone : ∀ record ∈ records, record.regionId ≠ region.id) : Replays s region records where
  live_length := hlen.symm
  shadow := hshadow
  replay := by
    intro t _ i
    rw [writesOf_eq_nil hnone, hdirtied, if_neg not_mem_nil]
    rfl
  clean := by
    intro i _
    rw [hbase]

/-- What happens to other regions does not matter. -/
theorem frame (h : Replays s region records) (hsize : t.pageSize = s.pageSize)
    (hlive : t.live region.id = s.live region.id) (hbase : t.base region.id = s.base region.id)
    (hdirtied : t.dirtied region.id = s.dirtied region.id)
    (hother : ∀ record ∈ written, record.regionId ≠ region.id) :
    Replays t region (records ++ written) where
  live_length := by rw [hlive]; exact h.live_length
  shadow := by rw [hlive]; exact h.shadow
  replay := by
    rw [writesOf_append, writesOf_eq_nil hother, append_nil, hlive, hdirtied, hsize]
    exact h.replay
  clean := by
    rw [hlive, hbase, hdirtied, hsize]
    exact h.clean

/-- A checkpoint of the region adds the pages it lists. -/
theorem checkpointed (h : Replays s region records) {after : TrackedRegion}
    (hid : after.id = region.id) (hlen : after.len = current.length)
    (hlen' : region.len = current.length)
    (hshadow : after.kind = .opaqueShadow → after.shadow = some current)
    (hcreated : Created s.runtime.state region.id current pages delta t.runtime.state)
    (hlists : s.Lists region.id current pages) (hlive : t.live region.id = current)
    (hbase : t.base region.id = s.base region.id)
    (hdirtied : t.dirtied region.id = s.dirtied region.id ++ pages) :
    Replays t after (records ++ delta.records) := by
  have hsize : t.pageSize = s.pageSize := hcreated.pageSize
  have hsame := hlists (hlen'.symm.trans h.live_length.symm)
  have hwrites : writesOf region.id delta.records = pageWrites s.pageSize current pages :=
    hcreated.delta.writesOf_eq hcreated.page_lt
  refine ⟨?_, ?_, ?_, ?_⟩
  · rw [hid, hlive, hlen]
  · rw [hid, hlive]
    exact hshadow
  · intro u hu i
    have hu' : u.length = current.length := hu.trans hlen
    rw [hid, writesOf_append, overwriteAll_append, hwrites,
      getElem?_overwriteAll_pageWrites s.pageSize_pos (by rw [length_overwriteAll, hu']),
      h.replay u (hu'.trans hlen'.symm) i, hsize, hlive, hdirtied]
    simp only [mem_append]
    -- a page dirtied before and not listed now still holds what was checkpointed then
    by_cases hnow : i / s.pageSize ∈ pages
    · rw [if_pos hnow, if_pos (.inr hnow)]
    · by_cases hbefore : i / s.pageSize ∈ s.dirtied region.id
      · rw [if_neg hnow, if_pos hbefore, if_pos (.inl hbefore), hsame i hnow]
      · rw [if_neg hnow, if_neg hbefore, if_neg (by rintro (h | h) <;> contradiction)]
  · intro i hi
    rw [hid, hsize, hdirtied, mem_append, not_or] at hi
    rw [hid, hlive, hbase, hsame i hi.2, h.clean i hi.1]

end Replays

/-! ## The invariant -/

variable {earlier : List AofRecord}

/-- **Soundness is preserved.** One call without device faults. -/
theorem Sound.step {call : Call} (h : Sound earlier s) (hcovers : s.Covers call)
    (hstep : s.step call none = some t) : Sound earlier t := by
  obtain ⟨records, hkept, hreplays⟩ := h
  cases Session.step_effect hkept.aof hstep with
  | refused hstate hlog haof =>
    refine ⟨records, hkept.refused hstate hlog haof, ?_⟩
    intro region hregion
    have hold : region ∈ s.regions := by
      simpa only [Session.regions, hstate] using hregion
    have hframe := (hreplays region hold).frame (t := { s with runtime := _ })
      (congrArg DeltaCheckpointState.pageSize hstate) rfl rfl rfl (forall_mem_nil _)
    rwa [append_nil] at hframe
  | registered hid hlen hshadow hregions hsize hnext hlog haof =>
    refine ⟨records, hkept.registered hid hlen hshadow hregions hnext hlog haof, ?_⟩
    rename_i runtime added contents
    intro region hregion
    have hcases : region ∈ s.regions ∨ region = added := by
      have hmem : region ∈ runtime.state.regions := hregion
      rwa [hregions, mem_append, mem_singleton] at hmem
    rcases hcases with hold | rfl
    · have hne := hkept.registry.id_ne_next hold
      have hframe := (hreplays region hold).frame
        (t := s.registered s.runtime.state.nextRegionId runtime contents) hsize
        (update_of_ne hne _ _) (update_of_ne hne _ _)
        (update_of_ne hne _ _) (forall_mem_nil _)
      rwa [append_nil] at hframe
    · have hlive : (s.registered s.runtime.state.nextRegionId runtime contents).live region.id =
          contents := by
        rw [hid]
        exact update_self _ _ _
      refine Replays.fresh (by rw [hlive]; exact hlen) (by rw [hlive]; exact hshadow) ?_ ?_ ?_
      · rw [hlive, hid]
        exact update_self _ _ _
      · rw [hid]
        exact update_self _ _ _
      · intro record hrecord heq
        have := hkept.recordBelow record hrecord
        rw [heq, hid] at this
        omega
  | logged hcreated hdelta hbitmap hlog haof =>
    rename_i runtime id current pages delta
    refine ⟨records ++ delta.records,
      hkept.append hcreated (fun _ hr => hr) rfl hlog haof, ?_⟩
    have hlists := lists_of_created hreplays hcreated
      (fun region hfind hkind => hbitmap region hfind hkind hcovers)
    intro region hregion
    rcases hcreated.mem_regions hkept.registry.nodup hregion with
      ⟨hold, hne⟩ | ⟨old, hfind, hid, hlen, hlen', _, hshadow⟩
    · refine (hreplays region hold).frame (t := s.checkpointed id runtime current pages)
        hcreated.pageSize (update_of_ne hne _ _) rfl (update_of_ne hne _ _) ?_
      intro record hrecord heq
      exact hne (heq.symm.trans (hcreated.delta.regionId_eq record hrecord))
    · obtain rfl := key_of_lookup hfind
      exact (hreplays old (mem_of_lookup hfind)).checkpointed hid hlen hlen' hshadow hcreated
        hlists (update_self _ _ _) rfl (update_self _ _ _)
  | cut _ _ hfault => cases hfault

theorem Sound.start (haof : ∃ aof, runtime.aof = some aof)
    (hlog : runtime.logBytes = encodeLog earlier) (hregions : runtime.state.regions = []) :
    Sound earlier (Session.start runtime) := by
  refine ⟨[], Kept.start haof hlog hregions, ?_⟩
  intro region hregion
  have hmem : region ∈ runtime.state.regions := hregion
  rw [hregions] at hmem
  cases hmem

/-- The invariant holds in every session on a log of whole records. -/
theorem sound_of_reachable (haof : ∃ aof, runtime.aof = some aof)
    (hlog : runtime.logBytes = encodeLog earlier) (hregions : runtime.state.regions = [])
    (h : (faultless runtime).Reachable s) : Sound earlier s := by
  refine h.induct ?_ ?_
  · rintro _ rfl
    exact Sound.start haof hlog hregions
  · rintro s ⟨call, fault⟩ t hs ⟨⟨rfl, hcovers⟩, hstep⟩
    exact hs.step hcovers hstep

/-! ## Main results -/

theorem Kept.readCommitted_logBytes {records : List AofRecord} (h : Kept earlier s records) :
    readCommitted s.runtime.logBytes = some (earlier ++ records) := by
  rw [h.log]
  exact readCommitted_encodeLog _

/-- **Checkpoint and replay.** In every session on a new log, replaying the log
onto a region's registration contents gives its last checkpoint; the records of
other regions take no part. -/
theorem checkpoint_replay_sound (pageSize : Nat) (mpiInfo : MpiInfo) (path : String) {s : Session}
    (h : (faultless ((new pageSize mpiInfo).setAofPath path)).Reachable s)
    {region : TrackedRegion} (hregion : region ∈ s.regions) :
    ∃ records applied, readCommitted s.runtime.logBytes = some records ∧
      applyRecordsToRegion region.id (s.base region.id) records =
        (.ok applied, s.live region.id) ∧
      applyRecordsToRegion region.id (s.base region.id)
        (records.filter (·.regionId == region.id)) = (.ok applied, s.live region.id) := by
  obtain ⟨records, hkept, hreplays⟩ :=
    sound_of_reachable ⟨_, rfl⟩ (show _ = encodeLog [] from rfl) rfl h
  have hlen := hkept.base_length region hregion
  have happly : ∃ applied, applyRecordsToRegion region.id (s.base region.id) records =
      (.ok applied, s.live region.id) := by
    rw [applyRecordsToRegion_eq_ok_iff, hlen]
    refine ⟨hkept.fits region hregion, ?_⟩
    apply ext_getElem?
    intro i
    rw [(hreplays region hregion).replay _ hlen i]
    split
    · rfl
    · rename_i hclean
      exact (hreplays region hregion).clean i hclean
  obtain ⟨applied, happly⟩ := happly
  refine ⟨records, applied, hkept.readCommitted_logBytes, happly, ?_⟩
  rw [applyRecordsToRegion_filter, happly]

/-- Two checkpoints of a region whose last page is partial. -/
theorem checkpoint_replay_sound_run : ∃ s : Session, ∃ region ∈ s.regions,
    (faultless ((new 2 ⟨0, 1, 0⟩).setAofPath "log")).Reachable s ∧
      (s.live region.id).data = [7, 0, 5] ∧
      ∃ records applied, readCommitted s.runtime.logBytes = some records ∧
        applyRecordsToRegion region.id (s.base region.id) records =
          (.ok applied, s.live region.id) ∧
        applyRecordsToRegion region.id (s.base region.id)
          (records.filter (·.regionId == region.id)) = (.ok applied, s.live region.id) := by
  let first := Session.start ((new 2 ⟨0, 1, 0⟩).setAofPath "log")
  let calls : List (Call × Option WriteFault) :=
    [(.registerOpaque 0 ⟨[0, 0, 0], by decide⟩, none),
      (.checkpointHost 1 ⟨[0, 0, 5], by decide⟩ "a", none),
      (.checkpointHost 1 ⟨[7, 0, 5], by decide⟩ "b", none)]
  obtain ⟨s, hrun⟩ : ∃ s, first.run calls = some s :=
    Option.isSome_iff_exists.mp (by decide +kernel)
  have hregions : (first.run calls).map (fun s => s.regions.map fun r => (s.live r.id).data) =
      some [[7, 0, 5]] := by decide +kernel
  rw [hrun, Option.map_some, Option.some_inj] at hregions
  obtain ⟨region, hregion, hlive⟩ := mem_map.mp (hregions ▸ mem_singleton_self _)
  have hreach : (faultless ((new 2 ⟨0, 1, 0⟩).setAofPath "log")).Reachable s :=
    reachable_of_run calls (by simp [calls, Session.Covers]) (.init rfl) hrun
  exact ⟨s, region, hregion, hreach, hlive,
    checkpoint_replay_sound 2 ⟨0, 1, 0⟩ "log" hreach hregion⟩

end Concordia.Runtime
