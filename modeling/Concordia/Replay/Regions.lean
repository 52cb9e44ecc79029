import Concordia.Lib.Paged
import Concordia.Replay.Snapshot

/-!
# Merged regions

The loops over the pages of an allocation merge runs of dirty pages. Seen as
writes, the regions they produce carry the current contents and reach a byte
exactly when its page is dirty (`scanPages_regionsOk`). So writing them into a
buffer that agrees with the contents on the clean pages gives the contents
(`writeTo_incremental`), and a capture under each method is inverted by
`apply_snapshot` (`InStep.capture`).
-/

namespace Concordia.Replay

open Concordia.Lib List Nat TrackedAllocation

theorem pageSize_pos : 0 < pageSize := by decide

/-! ## Regions as writes -/

def DirtyRegion.write (region : DirtyRegion) : Nat × List UInt8 :=
  (region.offset.toNat, region.data.data)

open DirtyRegion

/-- The region lies in a buffer of `length` bytes and is as long as it says. -/
def DirtyRegion.Fits (length : Nat) (region : DirtyRegion) : Prop :=
  region.offset.toNat + region.size.toNat ≤ length ∧ region.data.length = region.size.toNat

/-- Regions that carry the current contents. -/
structure Copies (current : ByteVec) (regions : List DirtyRegion) : Prop where
  copied : CopiedFrom current.data (regions.map write)
  fits : ∀ region ∈ regions, region.Fits current.length

/-- And reach exactly the dirty pages. -/
structure RegionsOk (dirty : Nat → Bool) (current : ByteVec) (regions : List DirtyRegion) : Prop
    extends Copies current regions where
  reached : ∀ i < current.length,
    Reached (regions.map write) i ↔ dirty (i / pageSize) = true

section

variable {current : ByteVec} {start stop : Nat}

theorem write_of (hle : start ≤ stop) (hstop : stop ≤ current.length) :
    (of current start stop).write = (start, slice current.data start stop) := by
  have hlt := current.length_lt
  show ((UInt64.ofNat start).toNat, _) = _
  rw [UInt64.toNat_ofNat', mod_eq_of_lt (by omega)]
  rfl

theorem fits_of (hle : start ≤ stop) (hstop : stop ≤ current.length) :
    (of current start stop).Fits current.length := by
  have hlt := current.length_lt
  have hstart : (UInt64.ofNat start).toNat = start := by
    rw [UInt64.toNat_ofNat', mod_eq_of_lt (by omega)]
  have hsize : (UInt64.ofNat (stop - start)).toNat = stop - start := by
    rw [UInt64.toNat_ofNat', mod_eq_of_lt (by omega)]
  refine ⟨?_, ?_⟩
  · show (UInt64.ofNat start).toNat + (UInt64.ofNat (stop - start)).toNat ≤ _
    omega
  · show (slice current.data start stop).length = (UInt64.ofNat (stop - start)).toNat
    rw [length_slice, hsize]
    exact congrArg (· - start) (min_eq_left hstop)

variable {regions : List DirtyRegion}

/-- One more region. -/
theorem Copies.append (h : Copies current regions) (hle : start ≤ stop)
    (hstop : stop ≤ current.length) :
    Copies current (regions ++ [of current start stop]) := by
  refine ⟨?_, ?_⟩
  · intro w hw k hk
    rw [map_append, map_singleton, write_of hle hstop, mem_append,
      mem_singleton] at hw
    rcases hw with hw | rfl
    · exact h.copied w hw k hk
    · rw [length_slice] at hk
      rw [getElem?_slice, if_pos (by omega)]
  · intro region hregion
    rcases mem_append.mp hregion with hregion | hregion
    · exact h.fits region hregion
    · obtain rfl := mem_singleton.mp hregion
      exact fits_of hle hstop

theorem reached_append_of (hle : start ≤ stop) (hstop : stop ≤ current.length) (i : Nat) :
    Reached ((regions ++ [of current start stop]).map write) i ↔
      Reached (regions.map write) i ∨ (start ≤ i ∧ i < stop) := by
  have hlength : (slice current.data start stop).length = stop - start := by
    rw [length_slice]
    exact congrArg (· - start) (min_eq_left hstop)
  rw [map_append, map_singleton, write_of hle hstop, reached_append, reached_cons, hlength]
  simp only [not_reached_nil, or_false]
  refine or_congr_right ⟨fun h => ⟨h.1, by omega⟩, fun h => ⟨h.1, by omega⟩⟩

end

/-- The regions closed so far, and the open one, after `k` pages. -/
structure ScanOk (dirty : Nat → Bool) (current : ByteVec) (k : Nat) (scan : Scan) : Prop
    extends Copies current scan.regions where
  start : ∀ start, scan.regionStart = some start → start ≤ k * pageSize ∧ start ≤ current.length
  reached : ∀ i < current.length, (Reached (scan.regions.map write) i ∨
      ∃ start, scan.regionStart = some start ∧ start ≤ i ∧ i < k * pageSize) ↔
    i / pageSize < k ∧ dirty (i / pageSize) = true

namespace ScanOk

variable {dirty : Nat → Bool} {current : ByteVec} {k : Nat} {scan : Scan}

theorem init (dirty : Nat → Bool) (current : ByteVec) : ScanOk dirty current 0 ⟨[], none⟩ :=
  ⟨⟨nofun, nofun⟩, nofun, by simp⟩

theorem openPage (h : ScanOk dirty current k scan) (hk : k * pageSize ≤ current.length)
    (hdirty : dirty k = true) : ScanOk dirty current (k + 1) (scan.open k) := by
  obtain ⟨start, hstart, hle, hold⟩ : ∃ start, (scan.open k).regionStart = some start ∧
      start ≤ k * pageSize ∧ ∀ i < k * pageSize, (start ≤ i ↔
        ∃ s, scan.regionStart = some s ∧ s ≤ i ∧ i < k * pageSize) := by
    cases hnone : scan.regionStart with
    | none => exact ⟨k * pageSize, by simp [Scan.open, hnone], le_refl _, by simp⟩
    | some start =>
      refine ⟨start, by simp [Scan.open, hnone], (h.start start hnone).1, fun i hi => ?_⟩
      simp [hi]
  refine ⟨h.toCopies, ?_, ?_⟩
  · intro start' hstart'
    obtain rfl := Option.some.inj (hstart.symm.trans hstart')
    rw [succ_mul]
    omega
  · intro i hi
    have hreached := h.reached i hi
    have hpage := (div_eq_iff_mem_page pageSize_pos i (i / pageSize)).mp rfl
    simp only [hstart, Option.some.injEq, exists_eq_left']
    show (Reached (scan.regions.map write) i ∨ start ≤ i ∧ i < (k + 1) * pageSize) ↔ _
    rcases lt_trichotomy (i / pageSize) k with hlt | heq | hgt
    · have hik : i < k * pageSize := (div_lt_iff_lt_mul pageSize_pos).mp hlt
      rw [← hold i hik] at hreached
      have : i < (k + 1) * pageSize := by rw [succ_mul]; omega
      constructor
      · rintro (hr | ⟨hs, _⟩)
        · exact ⟨by omega, (hreached.mp (.inl hr)).2⟩
        · exact ⟨by omega, (hreached.mp (.inr hs)).2⟩
      · rintro ⟨_, hd⟩
        exact (hreached.mpr ⟨hlt, hd⟩).imp_right fun hs => ⟨hs, this⟩
    · rw [heq] at hpage ⊢
      rw [succ_mul]
      exact ⟨fun _ => ⟨by omega, hdirty⟩, fun _ => .inr ⟨by omega, by omega⟩⟩
    · have hik : (k + 1) * pageSize ≤ i := (le_div_iff_mul_le pageSize_pos).mp hgt
      constructor
      · rintro (hr | ⟨_, hlt⟩)
        · have := (hreached.mp (.inl hr)).1
          omega
        · omega
      · rintro ⟨hlt, _⟩
        omega

theorem closePage (h : ScanOk dirty current k scan) (hk : k * pageSize ≤ current.length)
    (hclean : dirty k = false) : ScanOk dirty current (k + 1) (scan.close current k) := by
  -- page `k` is clean, so the pages before it are what counts
  have hbound : ∀ i, (i / pageSize < k + 1 ∧ dirty (i / pageSize) = true) ↔
      (i / pageSize < k ∧ dirty (i / pageSize) = true) := by
    intro i
    refine and_congr_left fun hd => ?_
    have : i / pageSize ≠ k := fun heq => by simp [heq, hclean] at hd
    omega
  unfold Scan.close
  cases hstart : scan.regionStart with
  | none =>
    refine ⟨h.toCopies, fun s hs => by simp [hstart] at hs, fun i hi => ?_⟩
    rw [hbound, ← h.reached i hi]
    simp [hstart]
  | some start =>
    have hle := (h.start start hstart).1
    refine ⟨h.toCopies.append hle hk, fun s hs => by simp at hs, fun i hi => ?_⟩
    rw [hbound, ← h.reached i hi, reached_append_of hle hk]
    simp [hstart]

/-- The end of the loop. -/
theorem finish (h : ScanOk dirty current k scan) (hk : current.length ≤ k * pageSize) :
    RegionsOk dirty current (scan.finish current) := by
  have hall : ∀ i < current.length, i / pageSize < k := fun i hi =>
    (div_lt_iff_lt_mul pageSize_pos).mpr (by omega)
  unfold Scan.finish
  cases hstart : scan.regionStart with
  | none =>
    refine ⟨h.toCopies, fun i hi => ?_⟩
    have hreached := h.reached i hi
    simpa [hstart, hall i hi] using hreached
  | some start =>
    have hle := (h.start start hstart).2
    refine ⟨h.toCopies.append hle (le_refl _), fun i hi => ?_⟩
    have hreached := h.reached i hi
    have hik : i < k * pageSize := by omega
    rw [reached_append_of hle (le_refl _)]
    simpa [hstart, hall i hi, hi, hik] using hreached

end ScanOk

/-- The loop, when it is not left: what opening and closing a page keep. -/
theorem scanPages_induct {dirty : Nat → Bool} {current : ByteVec} {P : Nat → Scan → Prop} {n : Nat}
    (hopen : ∀ k < n, ∀ scan, P k scan → dirty k = true → P (k + 1) (scan.open k))
    (hclose : ∀ k < n, ∀ scan, P k scan → dirty k = false → P (k + 1) (scan.close current k))
    {scan : Scan} (h : P 0 scan) :
    P n (scanPages (fun p => some (dirty p)) current (range n) scan) := by
  have hloop : ∀ m k scan, k + m = n → P k scan →
      P n (scanPages (fun p => some (dirty p)) current (List.range' k m) scan) := by
    intro m
    induction m with
    | zero =>
      rintro k scan rfl h
      exact h
    | succ m ih =>
      intro k scan hm h
      rw [range'_succ, scanPages]
      cases hd : dirty k with
      | true => exact ih (k + 1) _ (by omega) (hopen k (by omega) scan h hd)
      | false => exact ih (k + 1) _ (by omega) (hclose k (by omega) scan h hd)
  rw [range_eq_range']
  exact hloop n 0 scan (zero_add n) h

/-! ## Writing the regions back -/

section

variable {dirty : Nat → Bool} {current base : ByteVec} {regions : List DirtyRegion}

theorem lt_numPages_iff (allocation : TrackedAllocation) (p : Nat) :
    p < allocation.numPages ↔ p * pageSize < allocation.size.toNat := by
  have hpos := pageSize_pos
  rw [numPages, ← succ_le_iff, le_div_iff_mul_le hpos, succ_mul]
  omega

theorem size_le_numPages (allocation : TrackedAllocation) :
    allocation.size.toNat ≤ allocation.numPages * pageSize :=
  not_lt.mp ((lt_numPages_iff allocation _).not.mp (lt_irrefl _))

theorem scanPages_regionsOk {allocation : TrackedAllocation}
    (hsize : current.length = allocation.size.toNat) (dirty : Nat → Bool) :
    RegionsOk dirty current ((scanPages (fun p => some (dirty p)) current
      (range allocation.numPages) ⟨[], none⟩).finish current) := by
  have hn : ∀ p < allocation.numPages, p * pageSize ≤ current.length := fun p hp => by
    have := (lt_numPages_iff allocation p).mp hp
    omega
  have hscan : ScanOk dirty current allocation.numPages _ := scanPages_induct
    (fun k hk _ h => h.openPage (hn k hk)) (fun k hk _ h => h.closePage (hn k hk))
    (.init dirty current)
  exact hscan.finish (hsize.trans_le (size_le_numPages allocation))

theorem foldl_regions_eq (hfits : ∀ region ∈ regions, region.Fits base.length) :
    (regions.foldl (fun data region =>
      if region.offset.toNat + region.size.toNat ≤ data.length ∧
          region.data.length = region.size.toNat then
        data.overwrite region.offset.toNat region.data.data
      else data) base).data = overwriteAll base.data (regions.map write) := by
  induction regions generalizing base with
  | nil => rfl
  | cons region regions ih =>
    have hfit : region.offset.toNat + region.size.toNat ≤ base.length ∧
        region.data.length = region.size.toNat := hfits region mem_cons_self
    rw [foldl_cons, if_pos hfit]
    exact ih fun r hr => by
      rw [ByteVec.length_overwrite]
      exact hfits r (mem_cons_of_mem region hr)

/-- An incremental snapshot over a buffer that has the clean pages. -/
theorem writeTo_incremental (hregions : RegionsOk dirty current regions)
    (hlen : base.length = current.length)
    (hclean : ∀ i < current.length, dirty (i / pageSize) = false →
      base.data[i]? = current.data[i]?) (id addr size : UInt64) :
    (MemorySnapshot.incremental id addr size regions).writeTo base = current := by
  apply ByteVec.ext
  refine (foldl_regions_eq (hlen ▸ hregions.fits)).trans ?_
  refine overwriteAll_eq_of_copiedFrom hlen hregions.copied fun i hi hnot => hclean i hi ?_
  rw [hregions.reached i hi] at hnot
  simpa using hnot

/-- Without regions there is nothing dirty. -/
theorem RegionsOk.eq_of_nil (hregions : RegionsOk dirty current [])
    (hlen : base.length = current.length)
    (hclean : ∀ i < current.length, dirty (i / pageSize) = false →
      base.data[i]? = current.data[i]?) : base = current :=
  writeTo_incremental hregions hlen hclean 0 0 0

theorem writeTo_full (hlen : base.length = current.length) (id addr : UInt64) :
    (MemorySnapshot.full id addr current).writeTo base = current := by
  show (if current.length ≤ base.length then base.overwrite 0 current.data else base) = current
  rw [if_pos hlen.ge]
  apply ByteVec.ext
  apply ext_getElem?
  intro i
  show (overwrite base.data 0 current.data)[i]? = _
  have hlen' : base.data.length = current.data.length := hlen
  rw [getElem?_overwrite]
  split
  · rw [Nat.sub_zero]
  · rw [getElem?_eq_none (by omega), getElem?_eq_none (by omega)]

end

/-! ## Captures -/

open DirtyPageTracker

/-- What a tracked allocation knows, given the contents and what the snapshots so
far reconstruct: the shadow is the reconstructed memory, and on a page that is not
marked the two agree. -/
structure InStep (method : DirtyTrackingMethod) (allocation : TrackedAllocation)
    (data contents : ByteVec) : Prop where
  data_length : data.length = allocation.size.toNat
  contents_length : contents.length = allocation.size.toNat
  words : allocation.dirtyBitmap.length = (allocation.numPages + 63) / 64
  shadow : method = .softwareShadow → allocation.shadowCopy = some data
  clean : method = .checksum → ∀ i < contents.length,
    allocation.isPageDirty (i / pageSize) = false → data.data[i]? = contents.data[i]?

section

variable {method : DirtyTrackingMethod} {allocation : TrackedAllocation} {data contents : ByteVec}

theorem isPageDirty_eq (hwords : allocation.dirtyBitmap.length = (allocation.numPages + 63) / 64)
    (p : Nat) : allocation.isPageDirty p =
      (decide (p < allocation.numPages) && marks allocation.dirtyBitmap p) := by
  unfold isPageDirty
  by_cases hp : p < allocation.numPages
  · rw [if_neg (by omega), if_pos (by omega)]
    simp [hp]
  · rw [if_pos (by omega)]
    simp [hp]

/-- Against a shadow of the same length the loop is not left, and a page is dirty
when it differs. -/
theorem detectDirtyRegions_eq (hdata : data.length = contents.length) :
    detectDirtyRegions contents data allocation =
      (scanPages
        (fun p => some (decide (page pageSize contents.data p ≠ page pageSize data.data p)))
        contents (range allocation.numPages) ⟨[], none⟩).finish contents := by
  have hverdict : ∀ p, (if min (p * pageSize + pageSize) contents.length > data.length then none
      else some (decide
          (contents.slice (p * pageSize) (min (p * pageSize + pageSize) contents.length) ≠
        data.slice (p * pageSize) (min (p * pageSize + pageSize) contents.length)))) =
      some (decide (page pageSize contents.data p ≠ page pageSize data.data p)) := by
    intro p
    have hslice : ∀ v : ByteVec, v.length = contents.length →
        (v.slice (p * pageSize) (min (p * pageSize + pageSize) contents.length)).data =
          page pageSize v.data p := fun v hv => hv ▸ slice_min_length v.data _ _
    have hin : ¬ min (p * pageSize + pageSize) contents.length > data.length := by omega
    simp only [if_neg hin, ne_eq, ByteVec.ext_iff, hslice contents rfl, hslice data hdata]
  simp only [detectDirtyRegions, hverdict]

/-- The pages that differ from the shadow. -/
theorem detectDirtyRegions_ok (hdata : data.length = contents.length)
    (hsize : contents.length = allocation.size.toNat) :
    RegionsOk (fun p => decide (page pageSize contents.data p ≠ page pageSize data.data p)) contents
      (detectDirtyRegions contents data allocation) := by
  rw [detectDirtyRegions_eq hdata]
  exact scanPages_regionsOk hsize _

theorem markedRegions_ok (hsize : contents.length = allocation.size.toNat) :
    RegionsOk allocation.isPageDirty contents (markedRegions contents allocation) :=
  scanPages_regionsOk hsize _

/-- A capture is inverted by the snapshot it returns, and leaves the allocation in
step with the contents. -/
theorem InStep.capture (h : InStep method allocation data contents) (id : UInt64) :
    ∃ snapshot allocation',
      snapshotOf method id allocation contents = some (snapshot, allocation') ∧
      snapshot.deviceAddr = allocation.deviceAddr ∧ snapshot.writeTo data = contents ∧
      allocation'.deviceAddr = allocation.deviceAddr ∧ allocation'.size = allocation.size ∧
      InStep method allocation' contents contents := by
  have hlen : data.length = contents.length := h.data_length.trans h.contents_length.symm
  have hwords : allocation.clearDirtyBits.dirtyBitmap.length = (allocation.numPages + 63) / 64 := by
    rw [← h.words]
    exact length_map ..
  cases method with
  | fullDump =>
    refine ⟨_, _, rfl, rfl, writeTo_full hlen _ _, rfl, rfl, ?_⟩
    exact ⟨h.contents_length, h.contents_length, h.words, nofun, nofun⟩
  | softwareShadow =>
    have hregions : RegionsOk _ contents (detectDirtyRegions contents data allocation) :=
      detectDirtyRegions_ok hlen h.contents_length
    have hclean : ∀ i < contents.length,
        decide (page pageSize contents.data (i / pageSize) ≠
          page pageSize data.data (i / pageSize)) =
          false → data.data[i]? = contents.data[i]? := by
      intro i _ hpage
      have heq := not_not.mp (of_decide_eq_false hpage)
      exact ((page_eq_iff pageSize_pos _ _ _).mp heq i rfl).symm
    simp only [snapshotOf, h.shadow rfl, Option.bind_eq_bind, Option.bind_some]
    cases hnil : detectDirtyRegions contents data allocation with
    | nil =>
      rw [hnil] at hregions
      obtain rfl := hregions.eq_of_nil hlen hclean
      exact ⟨_, _, rfl, rfl, rfl, rfl, rfl, h⟩
    | cons region regions =>
      rw [← hnil]
      refine ⟨_, _, if_neg (by simp [hnil]), rfl, writeTo_incremental hregions hlen hclean _ _ _,
        rfl, rfl, ?_⟩
      exact ⟨h.contents_length, h.contents_length, hwords, fun _ => rfl, nofun⟩
  | checksum =>
    have hregions : RegionsOk _ contents (markedRegions contents allocation) :=
      markedRegions_ok h.contents_length
    have hclean := h.clean rfl
    have hnext : InStep .checksum { allocation.clearDirtyBits with lastSnapshotSeq := id } contents
        contents :=
      ⟨h.contents_length, h.contents_length, hwords, nofun, fun _ _ _ _ => rfl⟩
    simp only [snapshotOf]
    cases hnil : markedRegions contents allocation with
    | nil =>
      rw [hnil] at hregions
      obtain rfl := hregions.eq_of_nil hlen hclean
      exact ⟨_, _, rfl, rfl, rfl, rfl, rfl, hnext⟩
    | cons region regions =>
      rw [← hnil]
      refine ⟨_, _, if_neg (by simp [hnil]), rfl, writeTo_incremental hregions hlen hclean _ _ _,
        rfl, rfl, hnext⟩

/-! ## Writes -/

/-- Marking pages is a matter of the bitmap. -/
theorem TrackedAllocation.markPages_eq (allocation : TrackedAllocation) (pages : List Nat) :
    ∃ bitmap, pages.foldl markPageDirty allocation =
      { allocation with dirtyBitmap := bitmap } := by
  induction pages generalizing allocation with
  | nil => exact ⟨_, rfl⟩
  | cons p pages ih =>
    obtain ⟨bitmap, hbitmap⟩ := ih (allocation.markPageDirty p)
    refine ⟨bitmap, hbitmap.trans ?_⟩
    unfold markPageDirty
    split <;> rfl

/-- `allocation'` is `allocation` with pages `P` marked. -/
structure Marked (P : List Nat) (allocation allocation' : TrackedAllocation) : Prop where
  deviceAddr : allocation'.deviceAddr = allocation.deviceAddr
  size : allocation'.size = allocation.size
  shadowCopy : allocation'.shadowCopy = allocation.shadowCopy
  words : allocation'.dirtyBitmap.length = allocation.dirtyBitmap.length
  dirty : ∀ q < allocation.numPages, allocation'.isPageDirty q =
    (allocation.isPageDirty q || decide (q ∈ P))

theorem Marked.refl (allocation : TrackedAllocation) : Marked [] allocation allocation :=
  ⟨rfl, rfl, rfl, rfl, by simp⟩

variable {allocation' : TrackedAllocation}

theorem Marked.numPages {P : List Nat} (h : Marked P allocation allocation') :
    allocation'.numPages = allocation.numPages := by
  rw [TrackedAllocation.numPages, TrackedAllocation.numPages, h.size]

theorem marked_markPageDirty
    (hwords : allocation.dirtyBitmap.length = (allocation.numPages + 63) / 64) {p : Nat}
    (hp : p < allocation.numPages) : Marked [p] allocation (allocation.markPageDirty p) := by
  have hword : p / 64 < allocation.dirtyBitmap.length := by omega
  have hmark : allocation.markPageDirty p = { allocation with
      dirtyBitmap := allocation.dirtyBitmap.modify (p / 64)
        (· ||| 1 <<< UInt64.ofNat (p % 64)) } := if_pos ⟨hp, hword⟩
  rw [hmark]
  refine ⟨rfl, rfl, rfl, length_modify .., fun q hq => ?_⟩
  rw [isPageDirty_eq ((length_modify ..).trans hwords), isPageDirty_eq hwords]
  show (decide (q < allocation.numPages) && marks (allocation.dirtyBitmap.modify _ _) q) = _
  rw [marks_modify hword]
  simp [hq]

theorem marked_foldl {P : List Nat}
    (hwords : allocation.dirtyBitmap.length = (allocation.numPages + 63) / 64)
    (hP : ∀ p ∈ P, p < allocation.numPages) :
    Marked P allocation (P.foldl markPageDirty allocation) := by
  induction P generalizing allocation with
  | nil => exact .refl allocation
  | cons p P ih =>
    have hhead := marked_markPageDirty hwords (hP p mem_cons_self)
    have hpages := hhead.numPages
    have htail := ih (by rw [hhead.words, hpages, hwords])
      (fun q hq => hpages ▸ hP q (mem_cons_of_mem p hq))
    refine ⟨htail.deviceAddr.trans hhead.deviceAddr, htail.size.trans hhead.size,
      htail.shadowCopy.trans hhead.shadowCopy, htail.words.trans hhead.words, fun q hq => ?_⟩
    rw [foldl_cons, htail.dirty q (hpages ▸ hq), hhead.dirty q hq, Bool.or_assoc]
    simp [mem_cons]

/-- A write whose pages are marked, or not, when nobody looks at the marks. -/
theorem InStep.written (h : InStep method allocation data contents) {P : List Nat}
    (hmarked : Marked P allocation allocation') {contents' : ByteVec}
    (hlen : contents'.length = contents.length)
    (hchanged : method = .checksum → ∀ i < contents.length,
      contents.data[i]? ≠ contents'.data[i]? → i / pageSize ∈ P) :
    InStep method allocation' data contents' := by
  refine ⟨by rw [hmarked.size, h.data_length], by rw [hmarked.size, hlen, h.contents_length],
    by rw [hmarked.words, hmarked.numPages, h.words],
    fun hm => by rw [hmarked.shadowCopy, h.shadow hm],
    ?_⟩
  intro hm i hi hdirty
  rw [hlen] at hi
  have hpage : i / pageSize < allocation.numPages := by
    rw [lt_numPages_iff, ← h.contents_length]
    exact lt_of_le_of_lt (div_mul_le_self i pageSize) hi
  rw [hmarked.dirty _ hpage, Bool.or_eq_false_iff, decide_eq_false_iff_not] at hdirty
  rw [h.clean hm i hi hdirty.1]
  by_contra hne
  exact hdirty.2 (hchanged hm i hi hne)

/-- An allocation that is just tracked. -/
theorem inStep_new {addr size : UInt64} {shadow : Option ByteVec} {zeros : ByteVec}
    (hzeros : zeros.length = size.toNat)
    (hshadow : method = .softwareShadow → shadow = some zeros) :
    InStep method
      { new addr size with shadowCopy := shadow : TrackedAllocation }.markAllDirty
      zeros zeros := by
  refine ⟨hzeros, hzeros, ?_, hshadow, fun _ _ _ _ => rfl⟩
  exact (length_map ..).trans length_replicate

end

end Concordia.Replay
