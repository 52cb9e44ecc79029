import Concordia.Runtime.Faults

/-!
# Sessions that share a log

`global_runtime` opens the log of an earlier session for appending but starts
with a fresh checkpoint state, so its region ids start over and the records of
two sessions under one id are replayed together. The replay gives the second
session's contents exactly when the earlier records of that id fit and stay
within the pages the second session dirtied (`sessions_replay_iff`).
-/

namespace Concordia.Runtime

open Concordia.Lib Concordia.Aof Concordia.Delta Option ConcordiaRuntime

/-- **Two sessions on one log.** The second session's region is what the whole
log reconstructs exactly when the records found at its start replay onto the
region's registration contents and change nothing outside the pages the second
session dirtied. -/
theorem sessions_replay_iff {before : List AofRecord} {runtime : ConcordiaRuntime}
    (haof : ∃ aof, runtime.aof = some aof) (hlog : runtime.logBytes = encodeLog before)
    (hregions : runtime.state.regions = []) {first second : Session}
    (hfirst : ((sessions runtime).restrict WholeRecords).Reachable first) (path : String)
    (mpiInfo : MpiInfo)
    (hsecond : (faultless
      (globalRuntime path first.runtime.logBytes mpiInfo)).Reachable second)
    {region : TrackedRegion} (hregion : region ∈ second.regions) :
    (∃ records applied, readCommitted second.runtime.logBytes = some records ∧
      applyRecordsToRegion region.id (second.base region.id) records =
        (.ok applied, second.live region.id)) ↔
    ∃ earlier target applied, readCommitted first.runtime.logBytes = some earlier ∧
      applyRecordsToRegion region.id (second.base region.id) earlier = (.ok applied, target) ∧
      ∀ i, i / second.pageSize ∉ second.dirtied region.id →
        target.data[i]? = (second.base region.id).data[i]? := by
  obtain ⟨own, hfirst⟩ := kept_of_reachable haof hlog hregions hfirst
  have hopened : (globalRuntime path first.runtime.logBytes mpiInfo).logBytes =
      encodeLog (before ++ own) := hfirst.log
  obtain ⟨records, hkept, hreplays⟩ := sound_of_reachable ⟨_, rfl⟩ hopened rfl hsecond
  have hbase := hkept.base_length region hregion
  have hread := hkept.readCommitted_logBytes
  have hwrites := (hreplays region hregion).replay
  have hclean := (hreplays region hregion).clean
  have hfits := hkept.fits region hregion
  rw [← hbase] at hfits
  have htarget : ∀ {target : ByteVec},
      (∃ applied, applyRecordsToRegion region.id (second.base region.id) (before ++ own) =
        (.ok applied, target)) → target.data.length = region.len :=
    fun happly => (length_of_applyRecordsToRegion happly).trans hbase
  constructor
  · rintro ⟨all, applied, hall, hres⟩
    obtain rfl := some.inj (hread.symm.trans hall)
    obtain ⟨target, n, hn, hdata⟩ :=
      (applyRecordsToRegion_append_iff hfits).mp ⟨applied, hres⟩
    refine ⟨_, target, n, hfirst.readCommitted_logBytes, hn, ?_⟩
    intro i hi
    rw [← hclean i hi, hdata, hwrites _ (htarget ⟨n, hn⟩) i, if_neg hi]
  · rintro ⟨earlier, target, n, hearlier, hn, hoff⟩
    obtain rfl := some.inj (hfirst.readCommitted_logBytes.symm.trans hearlier)
    have hdata : (second.live region.id).data =
        overwriteAll target.data (writesOf region.id records) := by
      apply List.ext_getElem?
      intro i
      rw [hwrites _ (htarget ⟨n, hn⟩) i]
      split
      · rfl
      · rename_i hi
        rw [hclean i hi, hoff i hi]
    obtain ⟨applied, hres⟩ :=
      (applyRecordsToRegion_append_iff hfits).mpr ⟨target, n, hn, hdata⟩
    exact ⟨_, applied, hread, hres⟩

def oneByte (v : UInt8) : ByteVec := ⟨[v], show 1 ≤ isizeMax by decide⟩

/-- A one-byte region, registered as `[0]` and checkpointed as `[v]`. -/
def oneByteCalls (v : UInt8) : List (Call × Option WriteFault) :=
  [(.registerOpaque 0 (oneByte 0), none), (.checkpointHost 1 (oneByte v) "a", none)]

/-- The session of these calls on a log. -/
def oneByteSession (v : UInt8) (bytes : List UInt8) : Option Session :=
  (Session.start (globalRuntime "log" bytes ⟨0, 1, 0⟩)).run (oneByteCalls v)

/-- The second session dirties the page the first one wrote. -/
theorem sessions_replay_rewritten : ∃ (first second : Session) (region : TrackedRegion),
    oneByteSession 1 [] = some first ∧
    oneByteSession 2 first.runtime.logBytes = some second ∧ region ∈ second.regions ∧
    ((∃ records applied, readCommitted second.runtime.logBytes = some records ∧
        applyRecordsToRegion region.id (second.base region.id) records =
          (.ok applied, second.live region.id)) ↔
      ∃ earlier target applied, readCommitted first.runtime.logBytes = some earlier ∧
        applyRecordsToRegion region.id (second.base region.id) earlier = (.ok applied, target) ∧
        ∀ i, i / second.pageSize ∉ second.dirtied region.id →
          target.data[i]? = (second.base region.id).data[i]?) := by
  have hrun : ((oneByteSession 1 []).bind fun first =>
      (oneByteSession 2 first.runtime.logBytes).bind fun second =>
        second.regions.head?.map (·.id)) = some 1 := by
    decide +kernel
  simp only [bind_eq_some_iff, map_eq_some_iff] at hrun
  obtain ⟨first, hfirst, second, hsecond, region, hhead, _⟩ := hrun
  have hregion : region ∈ second.regions := List.mem_of_head? hhead
  have hwhole : ∀ a ∈ oneByteCalls 1, ∀ s, WholeRecords s a := by
    simp [oneByteCalls, WholeRecords]
  have hfaultless : ∀ a ∈ oneByteCalls 2, ∀ s : Session, a.2 = none ∧ s.Covers a.1 := by
    simp [oneByteCalls, Session.Covers]
  exact ⟨first, second, region, hfirst, hsecond, hregion,
    sessions_replay_iff ⟨_, rfl⟩ (show _ = encodeLog [] from rfl) rfl
      (reachable_of_run _ hwhole (.init rfl) hfirst) "log" ⟨0, 1, 0⟩
      (reachable_of_run _ hfaultless (.init rfl) hsecond) hregion⟩

/-- **Mixed sessions.** The first session leaves `[1]` in the log under id 1.
The second session's region 1 is `[0]` throughout, and the log makes it `[1]`. -/
theorem sessions_replay_mixed : ∃ (first second : Session) (records : List AofRecord),
    oneByteSession 1 [] = some first ∧
    oneByteSession 0 first.runtime.logBytes = some second ∧
    readCommitted second.runtime.logBytes = some records ∧
    (second.live 1).data = [0] ∧
    applyRecordsToRegion 1 (second.base 1) records = (.ok 1, oneByte 1) := by
  have hrun : ((oneByteSession 1 []).bind fun first =>
      (oneByteSession 0 first.runtime.logBytes).bind fun second =>
        (readCommitted second.runtime.logBytes).map fun records =>
          ((second.live 1).data, applyRecordsToRegion 1 (second.base 1) records)) =
      some ([0], .ok 1, oneByte 1) := by
    decide +kernel
  simp only [bind_eq_some_iff, map_eq_some_iff, Prod.mk.injEq] at hrun
  obtain ⟨first, hfirst, second, hsecond, records, hrecords, hlive, happly⟩ := hrun
  exact ⟨first, second, records, hfirst, hsecond, hrecords, hlive, happly⟩

end Concordia.Runtime
