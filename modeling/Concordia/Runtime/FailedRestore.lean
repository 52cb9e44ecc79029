import Concordia.Runtime.Restore

/-!
# Restores that fail

`apply_records_to_region` checks and copies one record after the other, and
`restore_host_region_from_aof_path` looks at the region only after the copies.
A restore that returns an error has therefore performed the region's records up
to the first that does not fit (`applyRecordsToRegion_target`). The shadow is
written last and only on success.
-/

namespace Concordia.Runtime

open Concordia.Lib Concordia.Aof Concordia.Delta DeltaCheckpointState

instance (len : Nat) : DecidablePred (Fits len) := fun record =>
  inferInstanceAs (Decidable (record.offset.toNat + record.payload.length ≤ len))

/-- Some record of the region does not fit. -/
def Overruns (regionId : UInt64) (len : Nat) (records : List AofRecord) : Prop :=
  ∃ record ∈ records, record.regionId = regionId ∧ ¬ Fits len record

/-- The records of the region up to the first that does not fit. -/
def leading (regionId : UInt64) (len : Nat) (records : List AofRecord) : List AofRecord :=
  (records.filter (·.regionId == regionId)).takeWhile fun record => Fits len record

/-- They leave every byte they reach as it was. -/
def Repeats (regionId : UInt64) (target : ByteVec) (records : List AofRecord) : Prop :=
  Restates target.data ((leading regionId target.length records).map fun record =>
    (record.offset.toNat, record.payload.data))

/-- A region that `refresh_opaque_shadow` accepts for `len` bytes. -/
def Refreshable (state : DeltaCheckpointState) (regionId : UInt64) (len : Nat) : Prop :=
  ∃ region, state.findRegion regionId = some region ∧ region.kind = .opaqueShadow ∧
    region.len = len ∧ region.shadow ≠ none

/-! ## What the copies leave -/

theorem applyLoop_target (records : List AofRecord) (target : ByteVec) (applied : Nat) :
    (applyLoop records target applied).2.data =
      overwriteAll target.data ((records.takeWhile fun record => Fits target.length record).map
        fun record => (record.offset.toNat, record.payload.data)) := by
  induction records generalizing target applied with
  | nil => rfl
  | cons record records ih =>
    have hsmall := target.length_lt
    rw [applyLoop, List.takeWhile_cons]
    by_cases hfit : Fits target.length record
    · have hin : record.offset.toNat + record.payload.length ≤ target.length := hfit
      rw [if_neg (by omega), if_neg (by omega), ih, ByteVec.length_overwrite, decide_eq_true hfit]
      rfl
    · have hout : target.length < record.offset.toNat + record.payload.length :=
        Nat.lt_of_not_le hfit
      rw [decide_eq_false hfit, if_pos hout]
      split <;> rfl

section

variable (regionId : UInt64) (target : ByteVec) (records : List AofRecord)

/-- The target after a replay: the region's records up to the first that does
not fit have been copied, whatever the outcome. -/
theorem applyRecordsToRegion_target :
    (applyRecordsToRegion regionId target records).2.data =
      overwriteAll target.data ((leading regionId target.length records).map fun record =>
        (record.offset.toNat, record.payload.data)) :=
  applyLoop_target _ target 0

theorem applyRecordsToRegion_keeps_iff :
    (applyRecordsToRegion regionId target records).2 = target ↔
      Repeats regionId target records := by
  rw [Repeats, ← overwriteAll_eq_self_iff, ← applyRecordsToRegion_target]
  exact ByteVec.ext_iff

/-- Replay fails exactly when a record of the region does not fit. -/
theorem applyRecordsToRegion_error_iff :
    (∃ message, (applyRecordsToRegion regionId target records).1 = .error message) ↔
      Overruns regionId target.length records := by
  have hok := (applyRecordsToRegion_ok_iff regionId target records).not
  have hover : (¬ ∀ record ∈ records, record.regionId = regionId → Fits target.length record) ↔
      Overruns regionId target.length records := by
    simp only [Overruns, not_forall, exists_prop]
  rw [← hover, ← hok]
  cases (applyRecordsToRegion regionId target records).1 <;> simp

/-- **Starting again.** A replay that was broken off anywhere, or failed, does not show after
a replay of all records. -/
theorem replay_again (result : ByteVec) (n : Nat) :
    (∃ applied, applyRecordsToRegion regionId
        (applyRecordsToRegion regionId target (records.take n)).2 records =
          (.ok applied, result)) ↔
      ∃ applied, applyRecordsToRegion regionId target records = (.ok applied, result) := by
  have hcopied := applyRecordsToRegion_target regionId target (records.take n)
  have hlen := congrArg List.length hcopied
  rw [length_overwriteAll] at hlen
  rw [applyRecordsToRegion_eq_ok_iff, applyRecordsToRegion_eq_ok_iff, ByteVec.length, hlen,
    hcopied, overwriteAll_of_subset]
  · rfl
  · -- every record that was copied is copied again
    refine List.map_subset _ (List.Subset.trans (List.takeWhile_subset _) ?_)
    exact List.filter_subset _ (List.take_subset n records)

end

/-- A refresh fails exactly when the region is not one it accepts. -/
theorem refreshOpaqueShadow_error_iff (state : DeltaCheckpointState) (regionId : UInt64)
    (current : ByteVec) :
    (∃ fault, (state.refreshOpaqueShadow regionId current).1 = .error fault) ↔
      ¬ Refreshable state regionId current.length := by
  constructor
  · rintro ⟨fault, herr⟩ ⟨region, hfind, hkind, hlen, hshadow⟩
    obtain ⟨shadow, hshadow⟩ := Option.ne_none_iff_exists'.mp hshadow
    simp only [refreshOpaqueShadow, hfind, hkind, hlen, hshadow, ne_eq,
      not_true_eq_false, if_false] at herr
    cases herr
  · intro hnot
    cases hrefresh : state.refreshOpaqueShadow regionId current with
    | mk outcome after =>
      cases outcome with
      | error fault => exact ⟨fault, rfl⟩
      | ok _ =>
        obtain ⟨region, hfind, hkind, hlen, _⟩ :=
          refreshOpaqueShadow_ok hrefresh
        refine absurd ⟨region, hfind, hkind, hlen, ?_⟩ hnot
        intro hnone
        simp only [refreshOpaqueShadow, hfind, hkind, hlen, hnone, ne_eq,
          not_true_eq_false, if_false] at hrefresh
        cases hrefresh

/-! ## What a failed restore leaves -/

namespace ConcordiaRuntime

variable (rt : ConcordiaRuntime) (path : String) (regionId : UInt64) (target : ByteVec)
  (boundary : String) {records : List AofRecord}

/-- A failed restore from a log that can be read leaves the state, and the
target as the copies leave it. -/
theorem restore_error {bytes : List UInt8} (hread : readCommitted bytes = some records)
    {fault : Fault} {after : ConcordiaRuntime} {left : ByteVec}
    (h : rt.restoreHostRegionFromAofPath path (.ok bytes) regionId target boundary =
      (.error fault, after, left)) :
    after.state = rt.state ∧ left = (applyRecordsToRegion regionId target records).2 := by
  simp only [restoreHostRegionFromAofPath, hread] at h
  cases happly : applyRecordsToRegion regionId target records with
  | mk outcome copied =>
    rw [happly] at h
    cases outcome with
    | error message =>
      obtain ⟨_, hrest⟩ := Prod.mk.inj h
      obtain ⟨rfl, rfl⟩ := Prod.mk.inj hrest
      exact ⟨rfl, rfl⟩
    | ok applied =>
      cases hrefresh : rt.state.refreshOpaqueShadow regionId copied with
      | mk outcome state =>
        simp only [hrefresh] at h
        cases outcome with
        | error fault =>
          obtain ⟨_, hrest⟩ := Prod.mk.inj h
          obtain ⟨rfl, rfl⟩ := Prod.mk.inj hrest
          exact ⟨refreshOpaqueShadow_error hrefresh, rfl⟩
        | ok _ => cases h

/-- It fails exactly when a record does not fit or the region is refused. -/
theorem restore_error_iff {bytes : List UInt8} (hread : readCommitted bytes = some records) :
    (∃ fault after left,
      rt.restoreHostRegionFromAofPath path (.ok bytes) regionId target boundary =
        (.error fault, after, left)) ↔
      Overruns regionId target.length records ∨
        ¬ Refreshable rt.state regionId target.length := by
  rw [← applyRecordsToRegion_error_iff]
  simp only [restoreHostRegionFromAofPath, hread]
  cases happly : applyRecordsToRegion regionId target records with
  | mk outcome copied =>
    cases outcome with
    | error message => simp
    | ok applied =>
      have hlen : copied.length = target.length := length_of_applyRecordsToRegion ⟨applied, happly⟩
      rw [← hlen, ← refreshOpaqueShadow_error_iff]
      cases hrefresh : rt.state.refreshOpaqueShadow regionId copied with
      | mk outcome state => cases outcome <;> simp [hrefresh]

end ConcordiaRuntime

/-- **Failed restores.** A replay that fails leaves the target as it was exactly
when the region's records before the first that does not fit repeat what the
target holds. A restore that fails never touches the state, and leaves the
target under the same condition, be it a record or the region that is refused. -/
theorem failed_restore_keeps_iff (regionId : UInt64) (target : ByteVec) :
    (∀ records, (∀ message left, applyRecordsToRegion regionId target records =
        (.error message, left) → left = target) ↔
      (Overruns regionId target.length records → Repeats regionId target records)) ∧
    ∀ (rt : ConcordiaRuntime) (path : String) (opened : Except String (List UInt8))
      (boundary : String),
      (∀ fault after left,
        rt.restoreHostRegionFromAofPath path opened regionId target boundary =
          (.error fault, after, left) → left = target ∧ after.state = rt.state) ↔
        ∀ bytes records, opened = .ok bytes → readCommitted bytes = some records →
          Overruns regionId target.length records ∨
            ¬ Refreshable rt.state regionId target.length →
          Repeats regionId target records := by
  constructor
  · intro records
    rw [← applyRecordsToRegion_error_iff, ← applyRecordsToRegion_keeps_iff]
    constructor
    · rintro h ⟨message, herr⟩
      exact h message _ (Prod.ext herr rfl)
    · intro h message left happly
      rw [happly] at h
      exact h ⟨message, rfl⟩
  · intro rt path opened boundary
    constructor
    · rintro h bytes records rfl hread hfails
      obtain ⟨fault, after, left, hrestore⟩ :=
        (rt.restore_error_iff path regionId target boundary hread).mpr hfails
      rw [← applyRecordsToRegion_keeps_iff,
        ← (rt.restore_error path regionId target boundary hread hrestore).2]
      exact (h fault after left hrestore).1
    · intro h fault after left hrestore
      cases opened with
      | error err =>
        obtain ⟨_, hrest⟩ := Prod.mk.inj hrestore
        obtain ⟨rfl, rfl⟩ := Prod.mk.inj hrest
        exact ⟨rfl, rfl⟩
      | ok bytes =>
        cases hread : readCommitted bytes with
        | none =>
          -- the reader panicked before anything was copied
          simp only [ConcordiaRuntime.restoreHostRegionFromAofPath, hread] at hrestore
          obtain ⟨_, hrest⟩ := Prod.mk.inj hrestore
          obtain ⟨rfl, rfl⟩ := Prod.mk.inj hrest
          exact ⟨rfl, rfl⟩
        | some records =>
          obtain ⟨hstate, hleft⟩ :=
            rt.restore_error path regionId target boundary hread hrestore
          have hfails := (rt.restore_error_iff path regionId target boundary hread).mp
            ⟨fault, after, left, hrestore⟩
          rw [hleft, applyRecordsToRegion_keeps_iff]
          exact ⟨h bytes records rfl hread hfails, hstate⟩

/-- A record that fits, followed by one that does not. -/
def halfFitting : List AofRecord :=
  [{ epoch := 1, regionId := 1, offset := 0, payload := ⟨[7], by decide⟩ },
    { epoch := 2, regionId := 1, offset := 9, payload := ⟨[8], by decide⟩ }]

/-- The replay fails with the first record copied. -/
theorem not_failed_restore_keeps : ∃ message left,
    applyRecordsToRegion 1 ⟨[0, 0], by decide⟩ halfFitting = (.error message, left) ∧
      left ≠ ⟨[0, 0], by decide⟩ :=
  ⟨_, _, rfl, by decide⟩

end Concordia.Runtime
