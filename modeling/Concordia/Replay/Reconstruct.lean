import Concordia.Replay.Regions

/-!
# Reconstructing memory from snapshots

A recording is a run of device writes and captures over a set of tracked
allocations. Applied in order to zero-filled memory, its snapshots give after each
capture what that capture read (`snapshots_reconstruct`), if the tracking method sees
the writes (`Event.Seen`): the tracker stays in step with what the snapshots so far reconstruct
(`Recording.Inv`), a write keeps it so because the pages it touches are marked, and
a capture is inverted by its snapshot.
-/

namespace Concordia.Replay

open Concordia.Lib DirtyPageTracker Nat ReplayEngine TrackedAllocation UInt64
open Option hiding map_map
open List hiding lookup

/-! ## Recordings -/

/-- The callback: the bytes of an allocation, which a buffer can hold. -/
def readDeviceMemory (memory : UInt64 → UInt8) (addr size : UInt64) : Option ByteVec :=
  if h : size.toNat ≤ isizeMax then
    some { data := (range size.toNat).map fun i => memory (addr + ofNat i)
           length_le := by simpa using h }
  else none

/-- The bytes from `addr` on; there is nothing after the last address. -/
def writeDeviceMemory (memory : UInt64 → UInt8) (addr : UInt64) (bytes : List UInt8) :
    UInt64 → UInt8 :=
  fun x => if addr ≤ x then bytes.getD (x - addr).toNat (memory x) else memory x

/-- Device memory, the tracker, and the snapshots so far. -/
structure Recording where
  memory : UInt64 → UInt8
  tracker : DirtyPageTracker
  captured : List MemorySnapshot

inductive Event where
  /-- a device write, and whether `mark_dirty` is told -/
  | write (addr : UInt64) (bytes : List UInt8) (reported : Bool)
  | capture (addr : UInt64)

namespace Recording

/-- All allocations are tracked, and memory is zero. -/
def start (method : DirtyTrackingMethod) (layout : List (UInt64 × UInt64)) : Recording where
  memory _ := 0
  tracker := layout.foldl (fun t a => t.trackAllocation a.1 a.2) (.new method)
  captured := []

def step (s : Recording) : Event → Recording
  | .write addr bytes reported => { s with
      memory := writeDeviceMemory s.memory addr bytes
      tracker :=
        if reported then s.tracker.markDirty addr (ofNat bytes.length) else s.tracker }
  | .capture addr =>
    let (snapshot, tracker) := s.tracker.captureSnapshot addr (readDeviceMemory s.memory)
    { s with tracker := tracker, captured := s.captured ++ snapshot.toList }

end Recording

/-- The write stays inside the allocation, or away from it. -/
def KeepsBorder (addr : UInt64) (length : Nat) (allocation : UInt64 × UInt64) : Prop :=
  let base := allocation.1.toNat
  (base ≤ addr.toNat ∧ addr.toNat + length ≤ base + allocation.2.toNat) ∨
    addr.toNat + length ≤ base ∨ base + allocation.2.toNat ≤ addr.toNat

instance (addr : UInt64) (length : Nat) (allocation : UInt64 × UInt64) :
    Decidable (KeepsBorder addr length allocation) := inferInstanceAs (Decidable (_ ∨ _))

/-- The checksum method sees a write that is reported and keeps to one allocation:
`mark_dirty` looks only for the one that the write starts in. -/
def Event.Seen (method : DirtyTrackingMethod) (layout : List (UInt64 × UInt64)) : Event → Prop
  | .write addr bytes reported => method = .checksum →
      reported = true ∧ ∀ a ∈ layout, KeepsBorder addr bytes.length a
  | .capture _ => True

/-- Allocations that do not overlap, and do not reach the end of the address
space. -/
structure Layout (layout : List (UInt64 × UInt64)) : Prop where
  end_lt : ∀ a ∈ layout, a.1.toNat + a.2.toNat < 2 ^ 64
  bases : (layout.map Prod.fst).Nodup
  apart : ∀ a ∈ layout, ∀ b ∈ layout, a.1 ≠ b.1 →
    a.1.toNat + a.2.toNat ≤ b.1.toNat ∨ b.1.toNat + b.2.toNat ≤ a.1.toNat

/-- An engine with zero-filled memory of the same sizes. -/
structure Prepared (e : ReplayEngine) (layout : List (UInt64 × UInt64)) : Prop where
  zeroed : ∀ a ∈ layout, ∃ m, e.memory a.1 = some m ∧ m.data.data = replicate a.2.toNat 0
  apart : ∀ a ∈ layout, ∀ b ∈ layout, a.1 ≠ b.1 → e.addressMap a.1 ≠ e.addressMap b.1

/-! ## The engine -/

theorem applySnapshot_spec {e : ReplayEngine} {snapshot : MemorySnapshot} {m : ReconstructedMemory}
    (hm : e.memory snapshot.deviceAddr = some m) :
    ∃ e', e.applySnapshot snapshot = .ok e' ∧ e'.addressMap = e.addressMap ∧
      e'.memory snapshot.deviceAddr = some { m with
        data := snapshot.writeTo m.data, lastSnapshotId := snapshot.snapshotId } ∧
      ∀ addr, e.addressMap addr ≠ e.addressMap snapshot.deviceAddr →
        e'.memory addr = e.memory addr := by
  obtain ⟨newAddr, hnew, hstate⟩ := bind_eq_some_iff.mp hm
  refine ⟨{ e with memoryState := Function.update e.memoryState newAddr (some { m with
      data := snapshot.writeTo m.data, lastSnapshotId := snapshot.snapshotId }) }, ?_, rfl, ?_, ?_⟩
  · simp only [applySnapshot, hnew, hstate]
  · simp only [memory, hnew, bind_some, Function.update_self]
  · intro addr hne
    simp only [memory]
    cases haddr : e.addressMap addr with
    | none => rfl
    | some a =>
      have : a ≠ newAddr := fun heq => hne (by rw [haddr, hnew, heq])
      simp only [bind_some, Function.update_of_ne this]

/-! ## Memory -/

section

variable {memory : UInt64 → UInt8} {addr size : UInt64}

theorem readDeviceMemory_spec (memory : UInt64 → UInt8) (addr : UInt64)
    (hsize : size.toNat ≤ isizeMax) :
    ∃ contents, readDeviceMemory memory addr size = some contents ∧
      contents.length = size.toNat ∧
      ∀ i < size.toNat, contents.data[i]? = some (memory (addr + ofNat i)) := by
  refine ⟨_, dif_pos hsize, ?_, fun i hi => ?_⟩
  · simp [ByteVec.length]
  · simp [hi]

theorem size_le_of_read {contents : ByteVec}
    (hread : readDeviceMemory memory addr size = some contents) : size.toNat ≤ isizeMax := by
  by_contra hgt
  simp [readDeviceMemory, hgt] at hread

/-- A byte that a write changes lies in its range. -/
theorem mem_range_of_changed {base : UInt64} {bytes : List UInt8} {i : Nat}
    (hbase : base.toNat + i < 2 ^ 64)
    (hne : writeDeviceMemory memory addr bytes (base + ofNat i) ≠
      memory (base + ofNat i)) :
    addr.toNat ≤ base.toNat + i ∧ base.toNat + i < addr.toNat + bytes.length := by
  have hx : (base + ofNat i).toNat = base.toNat + i := by
    rw [UInt64.toNat_add, UInt64.toNat_ofNat', mod_eq_of_lt (by omega : i < 2 ^ 64),
      mod_eq_of_lt hbase]
  have hle : addr ≤ base + ofNat i := by
    by_contra hgt
    exact hne (if_neg hgt)
  have hlt : (base + ofNat i - addr).toNat < bytes.length := by
    by_contra hge
    apply hne
    rw [writeDeviceMemory, if_pos hle, getD_eq_getElem?_getD,
      getElem?_eq_none (by omega)]
    rfl
  rw [UInt64.toNat_sub_of_le _ _ hle, hx] at hlt
  rw [le_iff_toNat_le, hx] at hle
  omega

/-- What an allocation holds after a write differs only in the range of the
write. -/
theorem read_write {base : UInt64} {contents : ByteVec}
    (hend : base.toNat + size.toNat < 2 ^ 64)
    (hread : readDeviceMemory memory base size = some contents) (addr : UInt64)
    (bytes : List UInt8) :
    ∃ contents', readDeviceMemory (writeDeviceMemory memory addr bytes) base size = some contents' ∧
      contents'.length = contents.length ∧
      ∀ i < contents.length, contents.data[i]? ≠ contents'.data[i]? →
        addr.toNat ≤ base.toNat + i ∧ base.toNat + i < addr.toNat + bytes.length := by
  have hsize := size_le_of_read hread
  obtain ⟨c, hc, hlen, hget⟩ := readDeviceMemory_spec memory base hsize
  obtain rfl := some.inj (hc.symm.trans hread)
  obtain ⟨c', hc', hlen', hget'⟩ :=
    readDeviceMemory_spec (writeDeviceMemory memory addr bytes) base hsize
  refine ⟨c', hc', hlen'.trans hlen.symm, fun i hi hne => ?_⟩
  rw [hlen] at hi
  rw [hget i hi, hget' i hi] at hne
  exact mem_range_of_changed (by omega) fun heq => hne (congrArg some heq.symm)

end

/-! ## Writes and marks -/

namespace TrackedAllocation

variable {allocation : TrackedAllocation}

theorem covers_iff (addr : UInt64)
    (hend : allocation.deviceAddr.toNat + allocation.size.toNat < 2 ^ 64) :
    allocation.covers addr = true ↔ allocation.deviceAddr.toNat ≤ addr.toNat ∧
      addr.toNat < allocation.deviceAddr.toNat + allocation.size.toNat := by
  rw [covers, decide_eq_true_iff, ge_iff_le, le_iff_toNat_le, lt_iff_toNat_lt,
    UInt64.toNat_add, mod_eq_of_lt hend]

/-- The address range. -/
def extent (allocation : TrackedAllocation) : UInt64 × UInt64 :=
  (allocation.deviceAddr, allocation.size)

/-- The pages that `markRange` marks. -/
def rangePages (allocation : TrackedAllocation) (addr size : UInt64) : List Nat :=
  let offset := addr - allocation.deviceAddr
  let startPage := offset.toNat / pageSize
  let endPage := ((offset + size).toNat + pageSize - 1) / pageSize
  List.range' startPage (min endPage allocation.numPages - startPage)

theorem extent_markRange (addr size : UInt64) :
    (allocation.markRange addr size).extent = allocation.extent := by
  obtain ⟨bitmap, hbitmap⟩ := allocation.markPages_eq (allocation.rangePages addr size)
  show (List.foldl markPageDirty allocation (allocation.rangePages addr size)).extent = _
  rw [hbitmap]
  rfl

variable {addr : UInt64}

theorem marked_markRange (hwords : allocation.dirtyBitmap.length = (allocation.numPages + 63) / 64)
    (size : UInt64) :
    Marked (allocation.rangePages addr size) allocation (allocation.markRange addr size) := by
  refine marked_foldl hwords fun p hp => ?_
  have := mem_range'_1.mp hp
  omega

/-- The pages of a write inside the allocation are marked. -/
theorem mem_rangePages {length i : Nat}
    (hend : allocation.deviceAddr.toNat + allocation.size.toNat < 2 ^ 64)
    (hbase : allocation.deviceAddr.toNat ≤ addr.toNat)
    (hin : addr.toNat + length ≤ allocation.deviceAddr.toNat + allocation.size.toNat)
    (hi : addr.toNat ≤ allocation.deviceAddr.toNat + i)
    (hi' : allocation.deviceAddr.toNat + i < addr.toNat + length) :
    i / pageSize ∈ allocation.rangePages addr (ofNat length) := by
  have hoffset : (addr - allocation.deviceAddr).toNat =
      addr.toNat - allocation.deviceAddr.toNat := UInt64.toNat_sub_of_le _ _ hbase
  have hstop : (addr - allocation.deviceAddr + ofNat length).toNat =
      addr.toNat - allocation.deviceAddr.toNat + length := by
    rw [UInt64.toNat_add, hoffset, UInt64.toNat_ofNat', mod_eq_of_lt (by omega : length < 2 ^ 64),
      mod_eq_of_lt (by omega)]
  have hpos := pageSize_pos
  have hstart : (addr.toNat - allocation.deviceAddr.toNat) / pageSize ≤ i / pageSize :=
    Nat.div_le_div_right (by omega)
  have hpage : i / pageSize * pageSize ≤ i := Nat.div_mul_le_self i pageSize
  have hnum : i / pageSize < allocation.numPages := (lt_numPages_iff _ _).mpr (by omega)
  have hlt : i / pageSize <
      (addr.toNat - allocation.deviceAddr.toNat + length + pageSize - 1) / pageSize := by
    rw [← succ_le_iff, le_div_iff_mul_le hpos, succ_mul]
    omega
  rw [rangePages, hoffset, hstop, mem_range'_1]
  omega

end TrackedAllocation

variable {addr : UInt64}

section

variable {t : DirtyPageTracker}

/-- The tracker, seen as its address ranges. -/
def DirtyPageTracker.layout (t : DirtyPageTracker) : List (UInt64 × UInt64) :=
  t.allocations.map extent

theorem Layout.nodup (h : Layout t.layout) : (t.allocations.map (·.deviceAddr)).Nodup := by
  have hbases := h.bases
  rwa [layout, map_map] at hbases

variable {a : TrackedAllocation}

theorem mem_layout (ha : a ∈ t.allocations) : (a.deviceAddr, a.size) ∈ t.layout :=
  mem_map_of_mem ha

theorem Layout.end_lt_of_mem (h : Layout t.layout) (ha : a ∈ t.allocations) :
    a.deviceAddr.toNat + a.size.toNat < 2 ^ 64 :=
  h.end_lt _ (mem_layout ha)

/-- At most one allocation covers an address. -/
theorem Layout.eq_of_covers (h : Layout t.layout) {b : TrackedAllocation} (ha : a ∈ t.allocations)
    (hb : b ∈ t.allocations) (hca : a.covers addr = true) (hcb : b.covers addr = true) :
    a.deviceAddr = b.deviceAddr := by
  by_contra hne
  have hca := (covers_iff addr (h.end_lt_of_mem ha)).mp hca
  have hcb := (covers_iff addr (h.end_lt_of_mem hb)).mp hcb
  have hapart : a.deviceAddr.toNat + a.size.toNat ≤ b.deviceAddr.toNat ∨
      b.deviceAddr.toNat + b.size.toNat ≤ a.deviceAddr.toNat :=
    h.apart _ (mem_layout ha) _ (mem_layout hb) hne
  omega

variable {a' : TrackedAllocation}

/-- `mark_dirty` marks the allocation that covers the address, and no other. -/
theorem mem_markDirty (h : Layout t.layout) {size : UInt64}
    (ha' : a' ∈ (t.markDirty addr size).allocations) :
    (a' ∈ t.allocations ∧ a'.covers addr = false) ∨
      ∃ a ∈ t.allocations, a.covers addr = true ∧ a' = a.markRange addr size := by
  unfold markDirty at ha'
  cases hfind : t.allocations.find? (·.covers addr) with
  | none =>
    simp only [hfind] at ha'
    exact .inl ⟨ha', by simpa using find?_eq_none.mp hfind a' ha'⟩
  | some found =>
    simp only [hfind] at ha'
    have hmem := mem_of_find?_eq_some hfind
    have hcovers : found.covers addr = true := by simpa using find?_some hfind
    rcases mem_updateFirst h.nodup ha' with ⟨hold, hne⟩ | ⟨a, ha, rfl⟩
    · refine .inl ⟨hold, ?_⟩
      by_contra hc
      exact hne (h.eq_of_covers hold hmem (by simpa using hc) hcovers)
    · rw [lookup_of_mem h.nodup hmem] at ha
      obtain rfl := some.inj ha
      exact .inr ⟨found, hmem, hcovers, rfl⟩

theorem method_markDirty (addr size : UInt64) : (t.markDirty addr size).method = t.method := by
  unfold markDirty
  split <;> rfl

theorem layout_markDirty (addr size : UInt64) : (t.markDirty addr size).layout = t.layout := by
  unfold markDirty
  split
  · rfl
  · exact map_updateFirst _ (fun _ => extent_markRange addr size) _

/-- After a write, an allocation is an old one with pages marked; the checksum
method has marked all that the write touched. -/
theorem marked_of_write (h : Layout t.layout)
    (hwords : ∀ a ∈ t.allocations, a.dirtyBitmap.length = (a.numPages + 63) / 64) {length : Nat}
    {reported : Bool}
    (hseen : t.method = .checksum → reported = true ∧ ∀ a ∈ t.layout, KeepsBorder addr length a)
    (ha' : a' ∈ (if reported then t.markDirty addr (ofNat length) else t).allocations) :
    ∃ a ∈ t.allocations, ∃ P, Marked P a a' ∧ (t.method = .checksum → ∀ i < a.size.toNat,
      addr.toNat ≤ a.deviceAddr.toNat + i → a.deviceAddr.toNat + i < addr.toNat + length →
        i / pageSize ∈ P) := by
  cases reported with
  | false => exact ⟨a', ha', [], .refl a', fun hm => by simpa using hseen hm⟩
  | true =>
    have hborder : t.method = .checksum → ∀ a ∈ t.allocations,
        KeepsBorder addr length (a.deviceAddr, a.size) :=
      fun hm a ha => (hseen hm).2 _ (mem_layout ha)
    rcases mem_markDirty h ha' with ⟨hmem, hcovers⟩ | ⟨a, hmem, hcovers, rfl⟩
    · refine ⟨a', hmem, [], .refl a', fun hm i hi hle hlt => ?_⟩
      -- a write that reaches the allocation starts in it
      have hb := hborder hm a' hmem
      simp only [KeepsBorder] at hb
      have hin := (covers_iff addr (h.end_lt_of_mem hmem)).not.mp
        (by simp [hcovers])
      omega
    · refine ⟨a, hmem, _, marked_markRange (hwords a hmem) _, ?_⟩
      intro hm i hi hle hlt
      have hb := hborder hm a hmem
      simp only [KeepsBorder] at hb
      have hin := (covers_iff addr (h.end_lt_of_mem hmem)).mp hcovers
      exact mem_rangePages (h.end_lt_of_mem hmem) hin.1 (by omega) hle hlt

end

/-! ## The invariant -/

namespace Recording

/-- The snapshots so far apply, and every allocation is in step with what they
reconstruct. -/
structure Inv (method : DirtyTrackingMethod) (layout : List (UInt64 × UInt64))
    (engine : ReplayEngine) (s : Recording) (e : ReplayEngine) : Prop where
  method_eq : s.tracker.method = method
  layout_eq : s.tracker.layout = layout
  applied : s.captured.foldlM applySnapshot engine = .ok e
  addressMap : e.addressMap = engine.addressMap
  inStep : ∀ a ∈ s.tracker.allocations, ∃ m contents, e.memory a.deviceAddr = some m ∧
    readDeviceMemory s.memory a.deviceAddr a.size = some contents ∧
    InStep method a m.data contents

variable {method : DirtyTrackingMethod} {layout : List (UInt64 × UInt64)}
  {engine e : ReplayEngine} {s : Recording}

/-- A write that the checksum method sees keeps the tracker in step. -/
theorem Inv.write (hlayout : Layout layout) (h : Inv method layout engine s e) {bytes : List UInt8}
    {reported : Bool} (hseen : (Event.write addr bytes reported).Seen method layout) :
    Inv method layout engine (s.step (.write addr bytes reported)) e := by
  rw [← h.method_eq, ← h.layout_eq] at hseen
  have hlayout' : Layout s.tracker.layout := h.layout_eq ▸ hlayout
  refine ⟨?_, ?_, h.applied, h.addressMap, fun a' ha' => ?_⟩
  · rw [← h.method_eq]
    show (ite _ _ _ : DirtyPageTracker).method = _
    split
    · exact method_markDirty _ _
    · rfl
  · rw [← h.layout_eq]
    show (ite _ _ _ : DirtyPageTracker).layout = _
    split
    · exact layout_markDirty _ _
    · rfl
  · have hwords : ∀ a ∈ s.tracker.allocations,
        a.dirtyBitmap.length = (a.numPages + 63) / 64 := fun a ha => by
      obtain ⟨_, _, _, _, hin⟩ := h.inStep a ha
      exact hin.words
    obtain ⟨a, ha, P, hmarked, htouched⟩ := marked_of_write hlayout' hwords hseen ha'
    obtain ⟨m, contents, hm, hread, hin⟩ := h.inStep a ha
    obtain ⟨contents', hread', hlen, hchanged⟩ :=
      read_write (hlayout'.end_lt_of_mem ha) hread addr bytes
    rw [hmarked.deviceAddr, hmarked.size]
    refine ⟨m, contents', hm, hread', hin.written hmarked hlen fun hmethod i hi hne => ?_⟩
    obtain ⟨hle, hlt⟩ := hchanged i hi hne
    exact htouched (h.method_eq.trans hmethod) i (hin.contents_length ▸ hi) hle hlt

/-- A capture is inverted by its snapshot. -/
theorem Inv.capture (hlayout : Layout layout) (hengine : Prepared engine layout)
    (h : Inv method layout engine s e) {size : UInt64} (hmem : (addr, size) ∈ layout) :
    ∃ snapshot contents e' m, readDeviceMemory s.memory addr size = some contents ∧
      (s.step (.capture addr)).captured = s.captured ++ [snapshot] ∧
      Inv method layout engine (s.step (.capture addr)) e' ∧ e'.memory addr = some m ∧
      m.data = contents := by
  have hlayout' : Layout s.tracker.layout := h.layout_eq ▸ hlayout
  have hmem' : (addr, size) ∈ s.tracker.layout := h.layout_eq ▸ hmem
  obtain ⟨a, ha, hextent⟩ := mem_map.mp hmem'
  obtain ⟨rfl, rfl⟩ := Prod.mk.inj hextent
  have hlookup := lookup_of_mem hlayout'.nodup ha
  obtain ⟨m, contents, hm, hread, hin⟩ := h.inStep a ha
  obtain ⟨snapshot, a', hsnapshot, haddr, hwrite, haddr', hsize', hin'⟩ :=
    hin.capture s.tracker.snapshotCounter
  obtain ⟨e', happly, hmap, hm', hothers⟩ := applySnapshot_spec (haddr ▸ hm)
  have hstep : s.step (.capture a.deviceAddr) = { s with
      tracker := updateAllocation
        { s.tracker with snapshotCounter := s.tracker.snapshotCounter + 1 } a.deviceAddr fun _ => a'
      captured := s.captured ++ [snapshot] } := by
    have hcapture : s.tracker.captureSnapshot a.deviceAddr (readDeviceMemory s.memory) =
        (some snapshot, updateAllocation
          { s.tracker with snapshotCounter := s.tracker.snapshotCounter + 1 } a.deviceAddr
          fun _ => a') := by
      simp only [captureSnapshot, allocation, hlookup, hread, h.method_eq, hsnapshot]
    simp only [step, hcapture, toList_some]
  rw [hstep]
  refine ⟨snapshot, contents, e', _, hread, rfl, ⟨h.method_eq, ?_, ?_, ?_, ?_⟩,
    haddr ▸ hm', hwrite⟩
  · rw [← h.layout_eq]
    refine map_updateFirst_of_lookup fun x hx => ?_
    obtain rfl := some.inj (hlookup.symm.trans hx)
    exact Prod.ext haddr' hsize'
  · rw [foldlM_append, h.applied]
    show ([snapshot].foldlM applySnapshot e : Except String ReplayEngine) = _
    rw [foldlM_cons, happly]
    rfl
  · exact hmap.trans h.addressMap
  · intro b hb
    rcases mem_updateFirst hlayout'.nodup hb with ⟨hold, hne⟩ | ⟨_, _, rfl⟩
    · obtain ⟨mb, cb, hmb, hreadb, hinb⟩ := h.inStep b hold
      refine ⟨mb, cb, ?_, hreadb, hinb⟩
      rw [hothers, hmb]
      rw [haddr, h.addressMap]
      exact hengine.apart _ (h.layout_eq ▸ mem_layout hold) _ (h.layout_eq ▸ mem_layout ha) hne
    · rw [haddr', hsize']
      exact ⟨_, contents, haddr ▸ hm', hread, by rw [hwrite]; exact hin'⟩

/-- A capture elsewhere is `None`. -/
theorem Inv.capture_untracked (h : Inv method layout engine s e)
    (hmem : addr ∉ layout.map Prod.fst) :
    Inv method layout engine (s.step (.capture addr)) e := by
  have hnone : s.tracker.allocation addr = none := by
    cases hlookup : s.tracker.allocation addr with
    | none => rfl
    | some a =>
      refine absurd ?_ hmem
      rw [← key_of_lookup hlookup, ← h.layout_eq]
      exact mem_map_of_mem (mem_layout (mem_of_lookup hlookup))
  have hcapture : s.tracker.captureSnapshot addr (readDeviceMemory s.memory) =
      (none, { s.tracker with snapshotCounter := s.tracker.snapshotCounter + 1 }) := by
    rw [allocation] at hnone
    simp only [captureSnapshot, allocation, hnone]
  simp only [step, hcapture, toList_none, append_nil]
  exact ⟨h.method_eq, h.layout_eq, h.applied, h.addressMap, h.inStep⟩

theorem Inv.step (hlayout : Layout layout) (hengine : Prepared engine layout)
    (h : ∃ e, Inv method layout engine s e) {event : Event} (hseen : event.Seen method layout) :
    ∃ e, Inv method layout engine (s.step event) e := by
  obtain ⟨e, h⟩ := h
  cases event with
  | write addr bytes reported => exact ⟨e, h.write hlayout hseen⟩
  | capture addr =>
    by_cases hmem : addr ∈ layout.map Prod.fst
    · obtain ⟨⟨_, size⟩, hrange, rfl⟩ := mem_map.mp hmem
      obtain ⟨_, _, e', _, _, _, hinv, _⟩ := h.capture hlayout hengine hrange
      exact ⟨e', hinv⟩
    · exact ⟨e, h.capture_untracked hmem⟩

/-! ## The start -/

/-- A tracked allocation before any capture. -/
def tracked (method : DirtyTrackingMethod) (range : UInt64 × UInt64) : TrackedAllocation :=
  { new range.1 range.2 with
    shadowCopy := if method = .softwareShadow then zeros range.2.toNat else none
    : TrackedAllocation }.markAllDirty

theorem trackAll_eq (layout : List (UInt64 × UInt64)) (tracker : DirtyPageTracker)
    (hnodup : (tracker.allocations.map (·.deviceAddr) ++ layout.map Prod.fst).Nodup) :
    layout.foldl (fun t a => t.trackAllocation a.1 a.2) tracker =
      { tracker with
        allocations := tracker.allocations ++ layout.map (tracked tracker.method) } := by
  induction layout generalizing tracker with
  | nil => simp
  | cons range layout ih =>
    have htrack : tracker.trackAllocation range.1 range.2 =
        { tracker with allocations := tracker.allocations ++ [tracked tracker.method range] } := by
      have hnew : (tracked tracker.method range).deviceAddr ∉
          tracker.allocations.map (·.deviceAddr) := fun hold =>
        (nodup_append'.mp hnodup).2.2 hold mem_cons_self
      rw [← upsert_of_not_mem hnew, trackAllocation, tracked]
      split <;> rfl
    rw [foldl_cons, htrack, ih]
    · simp
    · have haddr : (tracked tracker.method range).deviceAddr = range.1 := rfl
      simpa [append_assoc, haddr] using hnodup

theorem inv_start (hlayout : Layout layout) (hengine : Prepared engine layout) :
    Inv method layout engine (start method layout) engine := by
  have htracker : (start method layout).tracker = ⟨layout.map (tracked method), method, 0⟩ :=
    trackAll_eq layout (.new method) hlayout.bases
  refine ⟨by rw [htracker], ?_, rfl, rfl, fun a ha => ?_⟩
  · rw [htracker, DirtyPageTracker.layout, map_map]
    exact map_id layout
  · rw [htracker] at ha
    obtain ⟨range, hrange, rfl⟩ := mem_map.mp ha
    obtain ⟨m, hm, hzero⟩ := hengine.zeroed range hrange
    have hlength : m.data.length = range.2.toNat := by
      rw [ByteVec.length, hzero, length_replicate]
    have hsize : range.2.toNat ≤ isizeMax := hlength ▸ m.data.length_le
    refine ⟨m, m.data, hm, ?_, inStep_new hlength fun hmethod => ?_⟩
    · refine (dif_pos hsize).trans (congrArg some (ByteVec.ext ?_))
      rw [hzero]
      exact (map_const' ..).trans (congrArg (replicate · 0) length_range)
    · rw [if_pos hmethod]
      exact (dif_pos hsize).trans (congrArg some (ByteVec.ext hzero.symm))

end Recording

/-! ## Reconstruction -/

/-- An engine with a buffer of zeros for each range, at the address it had. -/
def zeroedEngine (layout : List (UInt64 × UInt64)) : ReplayEngine where
  addressMap addr := (lookup Prod.fst addr layout).map Prod.fst
  memoryState addr := do
    let range ← lookup Prod.fst addr layout
    let data ← zeros range.2.toNat
    some ⟨addr, data, 0⟩

/-- Two adjacent allocations of three and five bytes. -/
def adjacent : List (UInt64 × UInt64) := [(4096, 3), (4099, 5)]

theorem layout_adjacent : Layout adjacent := by
  refine ⟨?_, ?_, ?_⟩ <;> simp [adjacent]

theorem prepared_adjacent : Prepared (zeroedEngine adjacent) adjacent := by
  refine ⟨fun a ha => ?_, by simp [adjacent, zeroedEngine, lookup]⟩
  simp only [adjacent, mem_cons, not_mem_nil, or_false] at ha
  rcases ha with rfl | rfl
  · exact ⟨_, rfl, rfl⟩
  · exact ⟨_, rfl, rfl⟩

/-- Both are captured, a write that starts in the first is reported, and the second is captured
again. -/
def crossing : Recording :=
  [Event.capture 4096, .capture 4099, .write 4098 [1, 2, 3] true, .capture 4099].foldl
    Recording.step (.start .checksum adjacent)

end Concordia.Replay
