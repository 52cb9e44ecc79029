import Concordia.Delta.Pages

/-!
# Deltas on disk, and back

`append_delta` writes one record per dirty page; `apply_records_to_region`
replays the records of one region onto a buffer. Replay succeeds exactly when
every record of the region fits, and then performs the records' writes in log
order (`applyRecordsToRegion_eq_ok_iff`).
-/

namespace Concordia.Delta

open Concordia.Lib Concordia.Aof List

/-! ## Writing a delta -/

/-- The records of a delta, one per dirty page. -/
def DeltaRecord.records (delta : DeltaRecord) : List AofRecord :=
  delta.dirtyPages.map fun page =>
    { epoch := delta.epoch, regionId := page.regionId, offset := page.offset, payload := page.data }

def DeltaRecord.pages (pageSize : Nat) (delta : DeltaRecord) : List Nat :=
  delta.dirtyPages.map fun page => page.offset.toNat / pageSize

/-- `AofDiskLog::append_delta`. -/
def appendDelta (delta : DeltaRecord) : WriteM UInt8 Unit := appendRecords delta.records

/-! ## Replaying -/

/-- The loop of `apply_records_to_region` over the region's records. -/
def applyLoop : List AofRecord → ByteVec → Nat → Except String Nat × ByteVec
  | [], target, applied => (.ok applied, target)
  | record :: records, target, applied =>
    let offset := record.offset.toNat
    let stop := offset + record.payload.length
    if 2 ^ 64 ≤ stop then
      -- `checked_add` overflowed
      (.error (s!"AOF replay offset overflow for region {record.regionId} " ++
        s!"at offset {offset} payload {record.payload.length}"), target)
    else if target.length < stop then
      (.error (s!"AOF replay record for region {record.regionId} writes {offset}..{stop} " ++
        s!"beyond target length {target.length}"), target)
    else applyLoop records (target.overwrite offset record.payload.data) (applied + 1)

/-- `apply_records_to_region`: the result and the target as it is left. -/
def applyRecordsToRegion (regionId : UInt64) (target : ByteVec) (records : List AofRecord) :
    Except String Nat × ByteVec :=
  applyLoop (records.filter (·.regionId == regionId)) target 0

/-- The record's bytes lie inside a buffer of `len` bytes. -/
def Fits (len : Nat) (record : AofRecord) : Prop :=
  record.offset.toNat + record.payload.length ≤ len

/-- The writes of the records of one region, in log order. -/
def writesOf (regionId : UInt64) (records : List AofRecord) : List (Nat × List UInt8) :=
  (records.filter (·.regionId == regionId)).map fun record =>
    (record.offset.toNat, record.payload.data)

@[simp] theorem writesOf_append (regionId : UInt64) (first second : List AofRecord) :
    writesOf regionId (first ++ second) = writesOf regionId first ++ writesOf regionId second := by
  simp [writesOf]

variable {records : List AofRecord}

/-- Records of other regions write nothing. -/
theorem writesOf_eq_nil {regionId : UInt64} (h : ∀ record ∈ records, record.regionId ≠ regionId) :
    writesOf regionId records = [] := by
  rw [writesOf, map_eq_nil_iff, filter_eq_nil_iff]
  intro record hrecord
  simpa using h record hrecord

/-- The loop ends well exactly when every record fits, with their writes done in order. -/
theorem applyLoop_eq_ok_iff (records : List AofRecord) (target result : ByteVec) (applied : Nat) :
    (∃ n, applyLoop records target applied = (.ok n, result)) ↔
      (∀ record ∈ records, Fits target.length record) ∧
        result.data = overwriteAll target.data (records.map fun record =>
          (record.offset.toNat, record.payload.data)) := by
  induction records generalizing target applied with
  | nil => simp [applyLoop, ByteVec.ext_iff, eq_comm]
  | cons record records ih =>
    have hsmall := target.length_lt
    rw [applyLoop, forall_mem_cons]
    by_cases hfit : record.offset.toNat + record.payload.length ≤ target.length
    · rw [if_neg (by omega), if_neg (by omega), ih, ByteVec.length_overwrite]
      exact and_congr_left' (and_iff_right hfit).symm
    · refine iff_of_false ?_ fun h => hfit h.1.1
      rintro ⟨n, h⟩
      split at h
      · cases h
      · rw [if_pos (not_le.mp hfit)] at h
        cases h

/-- **Replay.** It succeeds exactly when every record of the region fits, and leaves the
region's writes, in log order. -/
theorem applyRecordsToRegion_eq_ok_iff (regionId : UInt64) (target result : ByteVec)
    (records : List AofRecord) :
    (∃ applied, applyRecordsToRegion regionId target records = (.ok applied, result)) ↔
      (∀ record ∈ records, record.regionId = regionId → Fits target.length record) ∧
        result.data = overwriteAll target.data (writesOf regionId records) := by
  have hfilter : (∀ record ∈ records.filter (·.regionId == regionId), Fits target.length record) ↔
      ∀ record ∈ records, record.regionId = regionId → Fits target.length record := by
    simp only [mem_filter, beq_iff_eq, and_imp]
  rw [applyRecordsToRegion, applyLoop_eq_ok_iff, hfilter]
  rfl

theorem exists_applyRecordsToRegion {regionId : UInt64} {target : ByteVec}
    (h : ∀ record ∈ records, record.regionId = regionId → Fits target.length record) :
    ∃ result applied, applyRecordsToRegion regionId target records = (.ok applied, result) := by
  have hlen : (overwriteAll target.data (writesOf regionId records)).length ≤ isizeMax := by
    rw [length_overwriteAll]
    exact target.length_le
  exact ⟨⟨_, hlen⟩, (applyRecordsToRegion_eq_ok_iff _ _ _ _).mpr ⟨h, rfl⟩⟩

theorem applyRecordsToRegion_ok_iff (regionId : UInt64) (target : ByteVec)
    (records : List AofRecord) :
    (∃ applied, (applyRecordsToRegion regionId target records).1 = .ok applied) ↔
      ∀ record ∈ records, record.regionId = regionId → Fits target.length record := by
  constructor
  · rintro ⟨applied, hok⟩
    exact ((applyRecordsToRegion_eq_ok_iff _ _ _ _).mp ⟨applied, Prod.ext hok rfl⟩).1
  · intro h
    obtain ⟨_, applied, hok⟩ := exists_applyRecordsToRegion h
    exact ⟨applied, by rw [hok]⟩

theorem length_of_applyRecordsToRegion {regionId : UInt64} {target result : ByteVec}
    (h : ∃ applied, applyRecordsToRegion regionId target records = (.ok applied, result)) :
    result.length = target.length := by
  rw [ByteVec.length, ((applyRecordsToRegion_eq_ok_iff regionId target result records).mp h).2,
    length_overwriteAll]
  rfl

/-- Replaying `earlier ++ records` is replaying `records` onto what `earlier`
leaves. -/
theorem applyRecordsToRegion_append_iff {id : UInt64} {base result : ByteVec}
    {earlier records : List AofRecord}
    (hfits : ∀ record ∈ records, record.regionId = id → Fits base.length record) :
    (∃ applied, applyRecordsToRegion id base (earlier ++ records) = (.ok applied, result)) ↔
      ∃ target applied, applyRecordsToRegion id base earlier = (.ok applied, target) ∧
        result.data = overwriteAll target.data (writesOf id records) := by
  rw [applyRecordsToRegion_eq_ok_iff, writesOf_append, overwriteAll_append]
  constructor
  · rintro ⟨hall, hdata⟩
    have hearlier : ∀ record ∈ earlier, record.regionId = id → Fits base.length record :=
      fun record hrecord => hall record (mem_append_left _ hrecord)
    obtain ⟨target, happly⟩ := exists_applyRecordsToRegion hearlier
    obtain ⟨applied, hok⟩ := happly
    refine ⟨target, applied, hok, ?_⟩
    rw [((applyRecordsToRegion_eq_ok_iff _ _ _ _).mp ⟨applied, hok⟩).2]
    exact hdata
  · rintro ⟨target, applied, hok, hdata⟩
    obtain ⟨hearlier, htarget⟩ := (applyRecordsToRegion_eq_ok_iff _ _ _ _).mp ⟨applied, hok⟩
    refine ⟨?_, by rw [hdata, htarget]⟩
    intro record hrecord
    rcases mem_append.mp hrecord with hold | hnew
    · exact hearlier record hold
    · exact hfits record hnew

/-- Only the region's own records take part. -/
theorem applyRecordsToRegion_filter (regionId : UInt64) (target : ByteVec)
    (records : List AofRecord) :
    applyRecordsToRegion regionId target (records.filter (·.regionId == regionId)) =
      applyRecordsToRegion regionId target records := by
  rw [applyRecordsToRegion, applyRecordsToRegion, filter_filter]
  simp only [Bool.and_self]

/-! ## The records of one checkpoint -/

/-- A delta of `pages` of `current`. -/
def PagesDelta (pageSize : Nat) (regionId : UInt64) (current : ByteVec) (pages : List Nat)
    (delta : DeltaRecord) : Prop :=
  delta.dirtyPages = pages.map fun p => dirtyPage regionId pageSize current (p * pageSize)

namespace PagesDelta

variable {pageSize : Nat} {regionId : UInt64} {current : ByteVec} {pages : List Nat}
  {delta : DeltaRecord}

theorem regionId_eq (h : PagesDelta pageSize regionId current pages delta) :
    ∀ record ∈ delta.records, record.regionId = regionId := by
  intro record hrecord
  rw [DeltaRecord.records, h, map_map] at hrecord
  obtain ⟨p, _, rfl⟩ := mem_map.mp hrecord
  rfl

/-- Page offsets of a region fit the machine word. -/
theorem offset_toNat (hlt : ∀ p ∈ pages, p * pageSize < current.length) {p : Nat} (hp : p ∈ pages) :
    (UInt64.ofNat (p * pageSize)).toNat = p * pageSize := by
  have := hlt p hp
  have := current.length_lt
  rw [UInt64.toNat_ofNat', Nat.mod_eq_of_lt (by omega)]

theorem pages_eq (h : PagesDelta pageSize regionId current pages delta) (hpos : 0 < pageSize)
    (hlt : ∀ p ∈ pages, p * pageSize < current.length) : delta.pages pageSize = pages := by
  rw [DeltaRecord.pages, h, map_map]
  conv_rhs => rw [← map_id pages]
  apply map_congr_left
  intro p hp
  show (UInt64.ofNat (p * pageSize)).toNat / pageSize = p
  rw [offset_toNat hlt hp, Nat.mul_div_cancel p hpos]

theorem fits (h : PagesDelta pageSize regionId current pages delta)
    (hlt : ∀ p ∈ pages, p * pageSize < current.length) :
    ∀ record ∈ delta.records, Fits current.length record := by
  intro record hrecord
  rw [DeltaRecord.records, h, map_map] at hrecord
  obtain ⟨p, hp, rfl⟩ := mem_map.mp hrecord
  have := hlt p hp
  show (UInt64.ofNat (p * pageSize)).toNat + (pageAt pageSize current _).data.length ≤ _
  rw [offset_toNat hlt hp, length_pageAt]
  omega

theorem writesOf_eq (h : PagesDelta pageSize regionId current pages delta)
    (hlt : ∀ p ∈ pages, p * pageSize < current.length) :
    writesOf regionId delta.records = pageWrites pageSize current pages := by
  have hall : delta.records.filter (·.regionId == regionId) = delta.records := by
    rw [filter_eq_self]
    intro record hrecord
    simpa using h.regionId_eq record hrecord
  rw [writesOf, hall, DeltaRecord.records, h, map_map, map_map, pageWrites]
  apply map_congr_left
  intro p hp
  show ((UInt64.ofNat (p * pageSize)).toNat, _) = _
  rw [offset_toNat hlt hp]
  rfl

end PagesDelta

/-- Appending the records of a delta of `current` makes the log reconstruct
`current` exactly when it already did off the delta's pages. -/
theorem applyRecordsToRegion_append_delta {pageSize : Nat} {regionId : UInt64}
    {base logged current : ByteVec} {pages : List Nat} {delta : DeltaRecord}
    (happly : ∃ applied, applyRecordsToRegion regionId base records = (.ok applied, logged))
    (hdelta : PagesDelta pageSize regionId current pages delta)
    (hlt : ∀ p ∈ pages, p * pageSize < current.length) (hpos : 0 < pageSize)
    (hlen : base.length = current.length) :
    (∃ applied, applyRecordsToRegion regionId base (records ++ delta.records) =
        (.ok applied, current)) ↔
      ∀ i, i / pageSize ∉ pages → logged.data[i]? = current.data[i]? := by
  obtain ⟨hfits, hlogged⟩ := (applyRecordsToRegion_eq_ok_iff _ _ _ _).mp happly
  have hlen' : logged.data.length = current.length :=
    (length_of_applyRecordsToRegion happly).trans hlen
  have hall : ∀ record ∈ records ++ delta.records, record.regionId = regionId →
      Fits base.length record := by
    intro record hrecord hid
    rcases mem_append.mp hrecord with hold | hnew
    · exact hfits record hold hid
    · rw [hlen]
      exact hdelta.fits hlt record hnew
  rw [applyRecordsToRegion_eq_ok_iff, writesOf_append, overwriteAll_append, ← hlogged,
    hdelta.writesOf_eq hlt]
  have hget := getElem?_overwriteAll_pageWrites hpos hlen' pages
  constructor
  · rintro ⟨_, hcurrent⟩ i hi
    have hi' := hget i
    rw [← hcurrent, if_neg hi] at hi'
    exact hi'.symm
  · intro hsame
    refine ⟨hall, ext_getElem? fun i => ?_⟩
    rw [hget i]
    split
    · rfl
    · rename_i hi
      exact (hsame i hi).symm

/-! ## What a call on the checkpoint state does -/

variable {dirtyBitmap : List UInt8}

namespace DeltaCheckpointState

variable {s t : DeltaCheckpointState}

/-- A successful host delta lists the pages that differ from the shadow and
leaves the contents as the new shadow. -/
theorem createHostDelta_ok {regionId : UInt64} {current : ByteVec} {delta : DeltaRecord}
    (h : s.createHostDelta regionId current = (.ok delta, t)) :
    ∃ region shadow, s.findRegion regionId = some region ∧ region.kind = .opaqueShadow ∧
      region.len = current.length ∧ region.shadow = some shadow ∧
      PagesDelta s.pageSize regionId current (hostDirtyPages s.pageSize shadow current) delta ∧
      delta.epoch = s.nextEpoch ∧ t.nextEpoch = s.nextEpoch + 1 ∧ t.pageSize = s.pageSize ∧
      t.nextRegionId = s.nextRegionId ∧
      t.regions = updateFirst TrackedRegion.id regionId (·.setShadow current) s.regions := by
  unfold createHostDelta at h
  split at h
  · cases h
  rename_i region hfind
  split at h
  · cases h
  rename_i hkind
  split at h
  · cases h
  rename_i hlen
  rw [not_not] at hkind hlen
  split at h
  · cases h
  rename_i shadow hshadow
  have hsize : shadow.length = current.length := (region.shadow_length shadow hshadow).trans hlen
  rw [foldl_hostPageStep regionId s.pageSize_pos hsize] at h
  obtain ⟨hdelta, rfl⟩ := Prod.mk.inj h
  obtain rfl := Except.ok.inj hdelta
  exact ⟨region, shadow, hfind, hkind, hlen, hshadow, rfl, rfl, rfl, rfl, rfl, rfl⟩

/-- A failed host delta changes nothing. -/
theorem createHostDelta_error {regionId : UInt64} {current : ByteVec} {fault : Fault}
    (h : s.createHostDelta regionId current = (.error fault, t)) : t = s := by
  unfold createHostDelta at h
  split at h
  · exact (Prod.mk.inj h).2.symm
  split at h
  · exact (Prod.mk.inj h).2.symm
  split at h
  · exact (Prod.mk.inj h).2.symm
  split at h
  · exact (Prod.mk.inj h).2.symm
  · cases h

def bitmapDirtyPages (pageSize : Nat) (current : ByteVec) (dirtyBitmap : List UInt8) : List Nat :=
  (List.range (pageCount pageSize current.length)).filter (bitmapMarks dirtyBitmap)

variable {regionId : UInt64} {current : ByteVec}

/-- A successful bitmap delta lists the marked pages and touches no region. -/
theorem createBitmapDelta_ok {delta : DeltaRecord}
    (h : s.createBitmapDelta regionId current dirtyBitmap = (.ok delta, t)) :
    ∃ region, s.findRegion regionId = some region ∧ region.kind = .allocatorBitmap ∧
      region.len = current.length ∧
      PagesDelta s.pageSize regionId current
        (bitmapDirtyPages s.pageSize current dirtyBitmap) delta ∧
      delta.epoch = s.nextEpoch ∧ t.nextEpoch = s.nextEpoch + 1 ∧ t.pageSize = s.pageSize ∧
        t.nextRegionId = s.nextRegionId ∧ t.regions = s.regions := by
  unfold createBitmapDelta at h
  split at h
  · cases h
  rename_i region hfind
  split at h
  · cases h
  rename_i hkind
  split at h
  · cases h
  rename_i hlen
  rw [not_not] at hkind hlen
  obtain ⟨hdelta, rfl⟩ := Prod.mk.inj h
  obtain rfl := Except.ok.inj hdelta
  exact ⟨region, hfind, hkind, hlen, rfl, rfl, rfl, rfl, rfl, rfl⟩

/-- A failed bitmap delta changes nothing. -/
theorem createBitmapDelta_error {fault : Fault}
    (h : s.createBitmapDelta regionId current dirtyBitmap = (.error fault, t)) : t = s := by
  unfold createBitmapDelta at h
  split at h
  · exact (Prod.mk.inj h).2.symm
  split at h
  · exact (Prod.mk.inj h).2.symm
  split at h
  · exact (Prod.mk.inj h).2.symm
  · cases h

/-- A successful refresh leaves the contents as the new shadow. -/
theorem refreshOpaqueShadow_ok (h : s.refreshOpaqueShadow regionId current = (.ok (), t)) :
    ∃ region, s.findRegion regionId = some region ∧ region.kind = .opaqueShadow ∧
      region.len = current.length ∧
      t = s.updateRegion regionId (·.setShadow current) := by
  unfold refreshOpaqueShadow at h
  split at h
  · cases h
  rename_i region hfind
  split at h
  · cases h
  rename_i hkind
  split at h
  · cases h
  rename_i hlen
  rw [not_not] at hkind hlen
  split at h
  · cases h
  exact ⟨region, hfind, hkind, hlen, (Prod.mk.inj h).2.symm⟩

/-- A failed refresh changes nothing. -/
theorem refreshOpaqueShadow_error {fault : Fault}
    (h : s.refreshOpaqueShadow regionId current = (.error fault, t)) : t = s := by
  unfold refreshOpaqueShadow at h
  split at h
  · exact (Prod.mk.inj h).2.symm
  split at h
  · exact (Prod.mk.inj h).2.symm
  split at h
  · exact (Prod.mk.inj h).2.symm
  split at h
  · exact (Prod.mk.inj h).2.symm
  · cases h

end DeltaCheckpointState

theorem lt_length_of_mem_hostDirtyPages {pageSize : Nat} (hpos : 0 < pageSize)
    {shadow current : ByteVec} {p : Nat} (hp : p ∈ hostDirtyPages pageSize shadow current) :
    p * pageSize < current.length := by
  rw [hostDirtyPages, mem_filter, mem_range] at hp
  exact (lt_pageCount_iff hpos _ p).mp hp.1

theorem lt_length_of_mem_bitmapDirtyPages {pageSize : Nat} (hpos : 0 < pageSize)
    {current : ByteVec} {p : Nat}
    (hp : p ∈ DeltaCheckpointState.bitmapDirtyPages pageSize current dirtyBitmap) :
    p * pageSize < current.length := by
  rw [DeltaCheckpointState.bitmapDirtyPages, mem_filter, mem_range] at hp
  exact (lt_pageCount_iff hpos _ p).mp hp.1

end Concordia.Delta
