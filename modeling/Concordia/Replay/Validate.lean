import Concordia.Lib.TSys
import Concordia.Replay.Regions

/-!
# Validating a replay

`validate_kernel_output` compares the checksum of the whole reconstructed buffer
with the one in the snapshot. A capture computes that over the pages it stores: all
of them in a full dump, the dirty ones in an incremental snapshot, none (checksum 0)
when nothing changed. So replayed memory that equals what was captured passes
exactly when the pages the capture stored have the checksum of the whole
(`validate_faithful_iff`).
-/

namespace Concordia.Replay

open Concordia.Lib DirtyPageTracker List Option

/-! ## The bytes of the regions -/

/-- Pages `p < n` that are dirty. -/
def dirtyPages (dirty : Nat → Bool) (n : Nat) : List Nat := (range n).filter dirty

theorem dirtyPages_succ (dirty : Nat → Bool) (n : Nat) :
    dirtyPages dirty (n + 1) = dirtyPages dirty n ++ if dirty n then [n] else [] := by
  rw [dirtyPages, dirtyPages, range_succ, filter_append, filter_singleton]
  cases dirty n <;> rfl

def regionBytes (regions : List DirtyRegion) : List UInt8 := regions.flatMap (·.data.data)

theorem regionBytes_append_of (current : ByteVec) (regions : List DirtyRegion) (start stop : Nat) :
    regionBytes (regions ++ [DirtyRegion.of current start stop]) =
      regionBytes regions ++ slice current.data start stop := by
  simp [regionBytes, DirtyRegion.of, ByteVec.slice]

/-- The bytes of the region that is still open, after `k` pages. -/
def Scan.openBytes (current : ByteVec) (k : Nat) (scan : Scan) : List UInt8 :=
  match scan.regionStart with
  | some start => slice current.data start (k * pageSize)
  | none => []

open Scan

theorem Scan.openBytes_some {current : ByteVec} {k start : Nat} {scan : Scan}
    (h : scan.regionStart = some start) :
    scan.openBytes current k = slice current.data start (k * pageSize) := by
  rw [openBytes, h]

theorem Scan.openBytes_none {current : ByteVec} {k : Nat} {scan : Scan}
    (h : scan.regionStart = none) : scan.openBytes current k = [] := by
  rw [openBytes, h]

/-- After `k` pages the regions and the open one hold the bytes of the dirty
pages. -/
structure ScanHolds (dirty : Nat → Bool) (current : ByteVec) (k : Nat) (scan : Scan) : Prop where
  start_le : ∀ start, scan.regionStart = some start → start ≤ k * pageSize
  bytes : regionBytes scan.regions ++ scan.openBytes current k =
    gather pageSize current.data (dirtyPages dirty k)

namespace ScanHolds

variable {dirty : Nat → Bool} {current : ByteVec} {k : Nat} {scan : Scan}

theorem openPage (h : ScanHolds dirty current k scan) (hdirty : dirty k = true) :
    ScanHolds dirty current (k + 1) (scan.open k) := by
  have hpage : gather pageSize current.data (dirtyPages dirty (k + 1)) =
      regionBytes scan.regions ++ scan.openBytes current k ++ page pageSize current.data k := by
    rw [dirtyPages_succ, if_pos hdirty, gather_append, h.bytes]
    simp [gather]
  have hstop : (k + 1) * pageSize = k * pageSize + pageSize := Nat.succ_mul k pageSize
  cases hstart : scan.regionStart with
  | none =>
    have hopen : (scan.open k).regionStart = some (k * pageSize) := by simp [Scan.open, hstart]
    refine ⟨fun start hs => ?_, ?_⟩
    · obtain rfl := some.inj (hopen.symm.trans hs)
      omega
    · rw [hpage, openBytes_none hstart, append_nil, openBytes_some hopen, hstop]
      rfl
  | some start =>
    have hopen : (scan.open k).regionStart = some start := by simp [Scan.open, hstart]
    have hle := h.start_le start hstart
    refine ⟨fun s hs => ?_, ?_⟩
    · obtain rfl := some.inj (hopen.symm.trans hs)
      omega
    · rw [hpage, openBytes_some hstart, openBytes_some hopen, hstop, append_assoc,
        page, slice_append_slice _ hle (by omega)]
      rfl

theorem closePage (h : ScanHolds dirty current k scan) (hclean : dirty k = false) :
    ScanHolds dirty current (k + 1) (scan.close current k) := by
  have hsame : gather pageSize current.data (dirtyPages dirty (k + 1)) =
      regionBytes scan.regions ++ scan.openBytes current k := by
    rw [dirtyPages_succ, hclean, if_neg Bool.false_ne_true, append_nil, h.bytes]
  unfold close
  cases hstart : scan.regionStart with
  | none =>
    rw [openBytes_none hstart] at hsame
    refine ⟨fun s hs => by simp [hstart] at hs, ?_⟩
    rw [hsame, openBytes_none hstart]
  | some start =>
    rw [openBytes_some hstart] at hsame
    refine ⟨fun s hs => by simp at hs, ?_⟩
    rw [hsame, openBytes_none rfl, append_nil, regionBytes_append_of]

theorem finish (h : ScanHolds dirty current k scan) (hk : current.length ≤ k * pageSize) :
    regionBytes (scan.finish current) = gather pageSize current.data (dirtyPages dirty k) := by
  rw [← h.bytes]
  unfold Scan.finish Scan.openBytes
  cases scan.regionStart with
  | none => exact (append_nil _).symm
  | some start =>
    have hstop : slice current.data start (k * pageSize) =
        slice current.data start current.length := by
      rw [← slice_min_length]
      exact congrArg _ (min_eq_right hk)
    simp only [regionBytes_append_of, hstop]

end ScanHolds

variable {snapshot : MemorySnapshot}

section

variable {method : DirtyTrackingMethod} {allocation : TrackedAllocation} {contents : ByteVec}

/-- The regions of a whole allocation hold the bytes of its dirty pages. -/
theorem regionBytes_scan (hsize : contents.length = allocation.size.toNat) (dirty : Nat → Bool) :
    regionBytes ((scanPages (fun p => some (dirty p)) contents (range allocation.numPages)
        ⟨[], none⟩).finish contents) =
      gather pageSize contents.data (dirtyPages dirty allocation.numPages) := by
  have hinit : ScanHolds dirty contents 0 ⟨[], none⟩ := ⟨nofun, rfl⟩
  have hscan := scanPages_induct (n := allocation.numPages) (fun _ _ _ h => h.openPage)
    (fun _ _ _ h => h.closePage) hinit
  exact hscan.finish (hsize.trans_le (size_le_numPages allocation))

/-! ## What a capture stores -/

/-- The pages that a capture stores: all of them, those that differ from the
shadow, or those that are marked. -/
def TrackedAllocation.storedPage (allocation : TrackedAllocation) (method : DirtyTrackingMethod)
    (contents : ByteVec) (p : Nat) : Bool :=
  match method with
  | .fullDump => true
  | .softwareShadow => allocation.shadowCopy.any fun shadow =>
      decide (page pageSize contents.data p ≠ page pageSize shadow.data p)
  | .checksum => allocation.isPageDirty p

open TrackedAllocation

/-- The bytes of these pages. -/
def TrackedAllocation.storedBytes (allocation : TrackedAllocation) (method : DirtyTrackingMethod)
    (contents : ByteVec) : List UInt8 :=
  gather pageSize contents.data
    (dirtyPages (allocation.storedPage method contents) allocation.numPages)

theorem storedBytes_of_all (hsize : contents.length = allocation.size.toNat)
    (hall : ∀ p < allocation.numPages, allocation.storedPage method contents p = true) :
    allocation.storedBytes method contents = contents.data := by
  have hpages : dirtyPages (allocation.storedPage method contents) allocation.numPages =
      range allocation.numPages := filter_eq_self.mpr fun p hp => hall p (mem_range.mp hp)
  rw [storedBytes, hpages, gather_all (hsize.trans_le (size_le_numPages allocation))]

theorem crc32Checksum_nil : crc32Checksum [] = 0 := by decide

/-- With nothing stored the constant 0 is the checksum of no bytes. -/
theorem checksum_of_regions {regions : List DirtyRegion} {bytes : List UInt8}
    (hbytes : regionBytes regions = bytes) (id addr size lastSeq : UInt64) :
    (if regions.isEmpty then MemorySnapshot.unchanged id addr size lastSeq
      else .incremental id addr size regions).checksum = crc32Checksum bytes := by
  rw [← hbytes]
  cases regions with
  | nil => exact crc32Checksum_nil.symm
  | cons region regions => rfl

/-- A capture that stores regions has those that differ from the shadow, or the marked ones. -/
theorem snapshotOf_cases {id : UInt64} {a a' : TrackedAllocation}
    (h : snapshotOf method id a contents = some (snapshot, a')) :
    (method = .fullDump ∧ snapshot = .full id a.deviceAddr contents ∧ a' = a) ∨
      ∃ regions, ((method = .softwareShadow ∧ ∃ shadow, a.shadowCopy = some shadow ∧
          regions = detectDirtyRegions contents shadow a) ∨
        method = .checksum ∧ regions = markedRegions contents a) ∧
      snapshot = (if regions.isEmpty then .unchanged id a.deviceAddr a.size a.lastSnapshotSeq
        else .incremental id a.deviceAddr a.size regions) ∧
      a'.size = a.size ∧ (a'.shadowCopy = a.shadowCopy ∨ a'.shadowCopy = some contents) := by
  cases method with
  | fullDump =>
    obtain ⟨rfl, rfl⟩ := Prod.mk.inj (some.inj h)
    exact .inl ⟨rfl, rfl, rfl⟩
  | softwareShadow =>
    obtain ⟨shadow, hshadow, h⟩ := bind_eq_some_iff.mp h
    refine .inr ⟨_, .inl ⟨rfl, shadow, hshadow, rfl⟩, ?_⟩
    dsimp only at h
    split_ifs at h ⊢ <;> obtain ⟨rfl, rfl⟩ := Prod.mk.inj (some.inj h)
    · exact ⟨rfl, rfl, .inl rfl⟩
    · exact ⟨rfl, rfl, .inr rfl⟩
  | checksum =>
    refine .inr ⟨_, .inr ⟨rfl, rfl⟩, ?_⟩
    simp only [snapshotOf] at h
    split_ifs at h ⊢ <;> obtain ⟨rfl, rfl⟩ := Prod.mk.inj (some.inj h)
    all_goals exact ⟨rfl, rfl, .inl rfl⟩

/-- **Checksums.** The checksum in a snapshot is that of the bytes it stores. -/
theorem checksum_snapshotOf (hsize : contents.length = allocation.size.toNat)
    (hshadow : ∀ shadow, allocation.shadowCopy = some shadow →
      shadow.length = allocation.size.toNat) {id : UInt64} {allocation' : TrackedAllocation}
    (h : snapshotOf method id allocation contents = some (snapshot, allocation')) :
    snapshot.checksum = crc32Checksum (allocation.storedBytes method contents) := by
  obtain ⟨rfl, rfl, -⟩ | ⟨regions, ⟨rfl, shadow, hsome, rfl⟩ | ⟨rfl, rfl⟩, rfl, -⟩ :=
    snapshotOf_cases h
  · rw [storedBytes_of_all hsize fun _ _ => rfl]
    rfl
  · have hlen : shadow.length = contents.length := (hshadow shadow hsome).trans hsize.symm
    have hstored : allocation.storedPage .softwareShadow contents = fun p =>
        decide (page pageSize contents.data p ≠ page pageSize shadow.data p) := by
      funext p
      simp [storedPage, hsome]
    refine checksum_of_regions ?_ ..
    rw [detectDirtyRegions_eq hlen, storedBytes, hstored]
    exact regionBytes_scan hsize _
  · exact checksum_of_regions (regionBytes_scan hsize _) ..

end

/-! ## Trackers in use -/

/-- The calls on a tracker. A capture comes with what its callback returns. -/
inductive TrackerOp where
  | track (addr size : UInt64)
  | untrack (addr : UInt64)
  | markDirty (addr size : UInt64)
  | capture (addr : UInt64) (read : Option ByteVec)

/-- A callback that succeeds returns the whole allocation. -/
def DirtyPageTracker.apply (t : DirtyPageTracker) : TrackerOp → Option DirtyPageTracker
  | .track addr size => some (t.trackAllocation addr size)
  | .untrack addr => some (t.untrackAllocation addr)
  | .markDirty addr size => some (t.markDirty addr size)
  | .capture addr read =>
    if (t.allocation addr).all fun a => read.all fun contents => contents.length = a.size.toNat then
      some (t.captureSnapshot addr fun _ _ => read).2
    else none

/-- Shadows are as long as their allocations, and the method never changes. -/
structure ShadowsSized (method : DirtyTrackingMethod) (t : DirtyPageTracker) : Prop where
  method_eq : t.method = method
  sized : ∀ a ∈ t.allocations, ∀ shadow, a.shadowCopy = some shadow →
    shadow.length = a.size.toNat

theorem length_of_zeros {size : Nat} {v : ByteVec} (h : zeros size = some v) : v.length = size := by
  obtain ⟨hsize, hv⟩ := dite_none_right_eq_some.mp h
  obtain rfl := some.inj hv
  exact length_replicate

/-- What a capture keeps of the allocation. -/
theorem snapshotOf_spec {method : DirtyTrackingMethod} {id : UInt64} {a a' : TrackedAllocation}
    {contents : ByteVec} (h : snapshotOf method id a contents = some (snapshot, a')) :
    snapshot.deviceAddr = a.deviceAddr ∧ a'.size = a.size ∧
      (a'.shadowCopy = a.shadowCopy ∨ a'.shadowCopy = some contents) := by
  obtain ⟨-, rfl, rfl⟩ | ⟨regions, -, rfl, hsize, hshadow⟩ := snapshotOf_cases h
  · exact ⟨rfl, rfl, .inl rfl⟩
  · exact ⟨by split <;> rfl, hsize, hshadow⟩

/-- A capture without a snapshot changes only the counter; with one, the
allocation. -/
theorem captureSnapshot_cases (t : DirtyPageTracker) (addr : UInt64)
    (read : UInt64 → UInt64 → Option ByteVec) :
    t.captureSnapshot addr read =
      (none, { t with snapshotCounter := t.snapshotCounter + 1 }) ∨
    ∃ a contents snapshot a', t.allocation addr = some a ∧ read addr a.size = some contents ∧
      snapshotOf t.method t.snapshotCounter a contents = some (snapshot, a') ∧
      t.captureSnapshot addr read = (some snapshot,
        updateAllocation { t with snapshotCounter := t.snapshotCounter + 1 } addr
          fun _ => a') := by
  cases ha : lookup TrackedAllocation.deviceAddr addr t.allocations with
  | none =>
    left
    simp only [captureSnapshot, allocation, ha]
  | some a =>
    cases hread : read addr a.size with
    | none =>
      left
      simp only [captureSnapshot, allocation, ha, hread]
    | some contents =>
      cases hsnapshot : snapshotOf t.method t.snapshotCounter a contents with
      | none =>
        left
        simp only [captureSnapshot, allocation, ha, hread, hsnapshot]
      | some result =>
        right
        refine ⟨a, contents, result.1, result.2, ha, hread, hsnapshot, ?_⟩
        simp only [captureSnapshot, allocation, ha, hread, hsnapshot]

namespace ShadowsSized

variable {method : DirtyTrackingMethod} {t t' : DirtyPageTracker} {addr size : UInt64}

theorem trackAllocation (h : ShadowsSized method t) :
    ShadowsSized method (t.trackAllocation addr size) := by
  refine ⟨h.method_eq, fun a ha shadow hshadow => ?_⟩
  rcases mem_or_of_mem_upsert ha with hold | rfl
  · exact h.sized a hold shadow hshadow
  · by_cases hmethod : t.method = .softwareShadow
    · simp only [if_pos hmethod] at hshadow ⊢
      exact length_of_zeros hshadow
    · simp only [if_neg hmethod] at hshadow
      cases hshadow

theorem markDirty (h : ShadowsSized method t) : ShadowsSized method (t.markDirty addr size) := by
  unfold DirtyPageTracker.markDirty
  split
  · exact h
  · refine ⟨h.method_eq, fun a ha shadow hshadow => ?_⟩
    rcases mem_or_of_mem_updateFirst ha with hold | ⟨a₀, ha₀, rfl⟩
    · exact h.sized a hold shadow hshadow
    · obtain ⟨bitmap, hbitmap⟩ : ∃ bitmap, a₀.markRange addr size =
          { a₀ with dirtyBitmap := bitmap } := a₀.markPages_eq _
      rw [hbitmap] at hshadow ⊢
      exact h.sized a₀ (mem_of_lookup ha₀) shadow hshadow

theorem capture (h : ShadowsSized method t) {read : Option ByteVec}
    (hread : (t.allocation addr).all fun a => read.all fun c => c.length = a.size.toNat) :
    ShadowsSized method (t.captureSnapshot addr fun _ _ => read).2 := by
  rcases captureSnapshot_cases t addr fun _ _ => read with
    hnone | ⟨a, contents, snapshot, a', ha, hcontents, hsnapshot, hsome⟩
  · rw [hnone]
    exact ⟨h.method_eq, h.sized⟩
  · rw [hsome]
    refine ⟨h.method_eq, fun b hb shadow hshadow => ?_⟩
    rcases mem_or_of_mem_updateFirst hb with hold | ⟨_, _, rfl⟩
    · exact h.sized b hold shadow hshadow
    · obtain ⟨_, hsize, hkeep⟩ := snapshotOf_spec hsnapshot
      rw [hsize]
      rcases hkeep with hkeep | hkeep
      · exact h.sized a (mem_of_lookup ha) shadow (hkeep ▸ hshadow)
      · obtain rfl := some.inj (hkeep.symm.trans hshadow)
        simpa [ha, hcontents] using hread

theorem apply {op : TrackerOp} (h : ShadowsSized method t) (happly : t.apply op = some t') :
    ShadowsSized method t' := by
  cases op with
  | track addr size =>
    obtain rfl := some.inj happly
    exact h.trackAllocation
  | untrack addr =>
    obtain rfl := some.inj happly
    exact ⟨h.method_eq, fun a ha => h.sized a (mem_others.mp ha).1⟩
  | markDirty addr size =>
    obtain rfl := some.inj happly
    exact h.markDirty
  | capture addr read =>
    obtain ⟨hread, happly⟩ := ite_none_right_eq_some.mp happly
    obtain rfl := some.inj happly
    exact h.capture hread

end ShadowsSized

/-! ## Validation -/

namespace ReplayEngine

theorem mismatch_eq_none_iff {e : ReplayEngine} {m : ReconstructedMemory}
    (hm : e.memory snapshot.deviceAddr = some m) :
    e.mismatch snapshot = none ↔ snapshot.checksum = crc32Checksum m.data.data := by
  simp only [mismatch, hm]
  rw [ite_eq_right_iff]
  constructor
  · intro h
    by_contra hne
    cases h fun heq => hne heq.symm
  · exact fun heq hne => absurd heq.symm hne

end ReplayEngine

/-- **Faithful replay.** Replayed memory that equals what a capture read adds no
mismatch exactly when the stored pages have the checksum of the whole. -/
theorem validate_faithful_iff {method : DirtyTrackingMethod} {ops : List TrackerOp}
    {t : DirtyPageTracker} (hrun : TSys.runSteps apply (.new method) ops = some t)
    {addr : UInt64} {a : TrackedAllocation} (ha : t.allocation addr = some a) {contents : ByteVec}
    (hsize : contents.length = a.size.toNat) {snapshot : MemorySnapshot}
    (hcapture : (t.captureSnapshot addr fun _ _ => some contents).1 = some snapshot)
    {e : ReplayEngine} {m : ReconstructedMemory} (hm : e.memory addr = some m)
    (hdata : m.data = contents) (launch : RecordedKernelLaunch) (before after : List MemorySnapshot)
    (time : UInt64) :
    (e.validateKernelOutput { launch with outputMemory := before ++ snapshot :: after }
        time).mismatches =
      (e.validateKernelOutput { launch with outputMemory := before ++ after } time).mismatches ↔
    crc32Checksum (a.storedBytes method contents) = crc32Checksum contents.data := by
  have hsized : ShadowsSized method t :=
    TSys.runSteps_induct (G := fun _ => True) (fun _ _ _ h _ happly => h.apply happly)
      (fun _ _ => trivial) ⟨rfl, fun _ h => by cases h⟩ hrun
  rcases captureSnapshot_cases t addr fun _ _ => some contents with
    hnone | ⟨a₀, _, snapshot₀, a', ha₀, hread, hsnapshot, hsome⟩
  · rw [hnone] at hcapture
    cases hcapture
  · obtain rfl := some.inj (ha₀.symm.trans ha)
    obtain rfl := some.inj hread
    rw [hsome] at hcapture
    obtain rfl := some.inj hcapture
    rw [hsized.method_eq] at hsnapshot
    have haddr : snapshot₀.deviceAddr = addr :=
      (snapshotOf_spec hsnapshot).1.trans (key_of_lookup ha)
    have hchecksum := checksum_snapshotOf hsize (hsized.sized a₀ (mem_of_lookup ha)) hsnapshot
    have hmismatch := ReplayEngine.mismatch_eq_none_iff (haddr ▸ hm)
    rw [hchecksum, hdata] at hmismatch
    rw [← hmismatch]
    simp only [ReplayEngine.validateKernelOutput, filterMap_append, append_cancel_left_eq]
    cases hcase : e.mismatch snapshot₀ with
    | none => simp [hcase]
    | some mismatch => simp [hcase]

/-- An engine that holds these bytes at their old address. -/
def holding (contents : ByteVec) : ReplayEngine where
  addressMap := some
  memoryState addr := if addr = 4096 then some ⟨addr, contents, 0⟩ else none

def someLaunch : RecordedKernelLaunch :=
  { sequenceId := 0, timestampNs := 0, kernelName := "k", moduleHandle := 0, functionHandle := 0,
    gridDim := (1, 1, 1), blockDim := (1, 1, 1), sharedMemBytes := 0, streamHandle := 0 }

/-- Two pages of fives. -/
def fives : ByteVec := ⟨replicate 8192 5, by rw [length_replicate]; decide⟩

/-- The first capture of an allocation of two pages, both of them different from the zero
shadow: the stored pages are the whole allocation, and no mismatch is added. -/
theorem validate_faithful_iff_fives :
    ∃ t a snapshot, TSys.runSteps apply (.new .softwareShadow) [.track 4096 8192] = some t ∧
      t.allocation 4096 = some a ∧
      (t.captureSnapshot 4096 fun _ _ => some fives).1 = some snapshot ∧
      crc32Checksum (a.storedBytes .softwareShadow fives) = crc32Checksum fives.data ∧
      ((holding fives).validateKernelOutput { someLaunch with outputMemory := [] ++ [snapshot] }
          0).mismatches =
        ((holding fives).validateKernelOutput { someLaunch with outputMemory := [] ++ [] }
          0).mismatches := by
  have hrun : TSys.runSteps apply (.new .softwareShadow) [.track 4096 8192] =
      some (trackAllocation (.new .softwareShadow) 4096 8192) := rfl
  obtain ⟨a, ha⟩ := isSome_iff_exists.mp
    (show ((trackAllocation (.new .softwareShadow) 4096 8192).allocation 4096).isSome by
      decide +kernel)
  obtain ⟨snapshot, hcapture⟩ := isSome_iff_exists.mp
    (show ((trackAllocation (.new .softwareShadow) 4096 8192).captureSnapshot 4096
      fun _ _ => some fives).1.isSome by decide +kernel)
  have hall : ((trackAllocation (.new .softwareShadow) 4096 8192).allocation 4096).all fun a =>
      fives.length = a.size.toNat ∧
        ∀ p < a.numPages, a.storedPage .softwareShadow fives p = true := by
    decide +kernel
  rw [ha, Option.all_some, decide_eq_true_eq] at hall
  have hchecksum := congrArg crc32Checksum (storedBytes_of_all hall.1 hall.2)
  have hm : (holding fives).memory 4096 = some ⟨4096, fives, 0⟩ := rfl
  exact ⟨_, a, snapshot, hrun, ha, hcapture, hchecksum,
    (validate_faithful_iff hrun ha hall.1 hcapture hm rfl someLaunch [] [] 0).mpr hchecksum⟩

def oneByte : ByteVec := ⟨[5], by decide⟩

/-- The second capture reads the same byte again: a reference, whose checksum 0 is
not that of the byte. -/
theorem validate_reference_mismatch :
    ∃ t snapshot, TSys.runSteps apply (.new .softwareShadow)
        [.track 4096 1, .capture 4096 (some oneByte)] = some t ∧
      (t.captureSnapshot 4096 fun _ _ => some oneByte).1 = some snapshot ∧
      snapshot.snapshotType = .reference 0 ∧
      (holding oneByte).memory 4096 = some ⟨4096, oneByte, 0⟩ ∧
      ((holding oneByte).validateKernelOutput { someLaunch with outputMemory := [snapshot] }
        0).mismatches = [⟨4096, 0, 1, 0, crc32Checksum [5]⟩] :=
  ⟨_, _, rfl, rfl, rfl, rfl, by decide +kernel⟩

end Concordia.Replay
