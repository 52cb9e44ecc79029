import Concordia.Delta.Replay
import Concordia.Kimi.DirtyScan
import Concordia.Kimi.Regions

/-!
# What the steps of a checkpoint do

Each step of a checkpoint appends pages of one region to the log, as they are in
device memory, and changes that region's buffers; it may stop at any operation
that fails. The lemmas say what a step leaves behind when it ends
(`wp_initializeDeviceRegion`, `wp_scanDeviceRegion_none`,
`wp_scanDeviceRegion_some`) and when it stops. Only a stop after a device scan has
already moved the shadow.
-/

namespace Concordia.Kimi

open Concordia.Lib Concordia.Lib.FallibleM Concordia.Aof Concordia.Delta List Function

/-! ## Regions as the log sees them -/

/-- What of a region stays the same over checkpoints. -/
structure Site where
  ptr : UInt64
  regionId : UInt64
  trackedSize : Nat
  /-- address and length of the allocator's dirty bitmap -/
  bitmap : Option (UInt64 × Nat)
  deriving DecidableEq, Repr

def KimiTrackedRegion.site (region : KimiTrackedRegion) : Site where
  ptr := region.ptr
  regionId := region.regionId
  trackedSize := region.trackedSize
  bitmap := region.allocator.map fun allocator =>
    (allocator.dirtyBitmapPtr, allocator.dirtyBitmapBytes)

def Site.pageCount (site : Site) : Nat := site.trackedSize / pageSize

/-- Whole pages, with 64-bit offsets. -/
structure Site.Paged (site : Site) : Prop where
  size_eq : site.trackedSize = site.pageCount * pageSize
  size_lt : site.trackedSize < 2 ^ 64

theorem Site.Paged.offset_lt {site : Site} (h : site.Paged) {p : Nat} (hp : p < site.pageCount) :
    p * pageSize + pageSize ≤ site.trackedSize := by
  rw [h.size_eq, ← Nat.succ_mul]
  exact Nat.mul_le_mul_right _ hp

/-- Beyond the pages there is nothing. -/
theorem Site.Paged.page_eq {site : Site} (h : site.Paged) {v w : List UInt8}
    (hv : v.length = site.trackedSize) (hw : w.length = site.trackedSize) {p : Nat}
    (hp : ¬ p < site.pageCount) : page pageSize v p = page pageSize w p := by
  refine page_eq_of_length_le (hv.trans hw.symm) ?_
  rw [hw, h.size_eq]
  exact Nat.mul_le_mul_right _ (Nat.le_of_not_lt hp)

def Device.contents (d : Device) (site : Site) : List UInt8 := d.read site.ptr site.trackedSize

open Device

@[simp] theorem Device.length_contents (d : Device) (site : Site) :
    (d.contents site).length = site.trackedSize := d.length_read _ _

theorem Device.getElem?_contents (d : Device) {site : Site} {i : Nat} (hi : i < site.trackedSize) :
    (d.contents site)[i]? = some (d.memory (site.ptr + UInt64.ofNat i)) := by
  simp only [contents, read, getElem?_map, getElem?_range hi, Option.map_some]

theorem Device.contents_congr {d e : Device} (h : e.memory = d.memory) (site : Site) :
    e.contents site = d.contents site := by
  simp only [contents, read, h]

def pagePayload (contents : List UInt8) (p : Nat) : ByteVec where
  data := page pageSize contents p
  length_le := by
    rw [length_page]
    have : pageSize ≤ isizeMax := by decide
    omega

/-- The records of pages `P`. -/
def pageRecords (epoch regionId : UInt64) (contents : List UInt8) (P : List Nat) :
    List AofRecord :=
  P.map fun p => { epoch := epoch, regionId := regionId, offset := UInt64.ofNat (p * pageSize),
                   payload := pagePayload contents p }

/-- `d` after pages `P` of the region are logged. -/
def Device.withPages (d : Device) (epoch : UInt64) (site : Site) (P : List Nat) : Device :=
  { d with log := d.log ++ pageRecords epoch site.regionId (d.contents site) P }

@[simp] theorem Device.withPages_nil (d : Device) (epoch : UInt64) (site : Site) :
    d.withPages epoch site [] = d := by
  simp [withPages, pageRecords]

theorem Device.withPages_withPages (d : Device) (epoch : UInt64) (site : Site) (P P' : List Nat) :
    (d.withPages epoch site P).withPages epoch site P' = d.withPages epoch site (P ++ P') := by
  simp only [withPages, pageRecords, map_append, append_assoc]
  rfl

theorem readPage_eq {d : Device} {site : Site} (hsite : site.Paged) {p : Nat}
    (hp : p < site.pageCount) :
    readPage d (site.ptr + UInt64.ofNat (p * pageSize)) = pagePayload (d.contents site) p := by
  have hle := hsite.offset_lt hp
  apply ByteVec.ext
  have hdata : (pagePayload (d.contents site) p).data =
      slice (d.read site.ptr site.trackedSize) (p * pageSize) (p * pageSize + pageSize) := rfl
  rw [hdata, readPage]
  apply ext_getElem?
  intro i
  rw [getElem?_slice]
  by_cases hi : i < pageSize
  · rw [if_pos (by omega)]
    simp only [Device.read, getElem?_map, getElem?_range hi,
      getElem?_range (show p * pageSize + i < site.trackedSize by omega), Option.map_some,
      UInt64.ofNat_add, UInt64.add_assoc]
  · rw [if_neg (by omega), getElem?_eq_none (by simpa using hi)]

/-! ## Appending pages -/

/-- `e` has the log of `d` and then pages `P` of the region; memory is the same. -/
structure Appends (site : Site) (P : List Nat) (d e : Device) : Prop where
  memory : e.memory = d.memory
  log : ∃ epoch, e.log = d.log ++ pageRecords epoch site.regionId (d.contents site) P
  lt_pageCount : ∀ p ∈ P, p < site.pageCount

namespace Appends

variable {site : Site} {P : List Nat} {d e : Device}

theorem contents_eq (h : Appends site P d e) (site' : Site) :
    e.contents site' = d.contents site' := contents_congr h.memory site'

theorem writesOf_self (h : Appends site P d e) (hsite : site.Paged) :
    writesOf site.regionId e.log =
      writesOf site.regionId d.log ++ writePages pageSize (d.contents site) P := by
  obtain ⟨epoch, hlog⟩ := h.log
  rw [hlog, writesOf_append]
  congr 1
  have hfilter : (pageRecords epoch site.regionId (d.contents site) P).filter
      (·.regionId == site.regionId) = pageRecords epoch site.regionId (d.contents site) P := by
    rw [filter_eq_self]
    intro record hrecord
    obtain ⟨p, _, rfl⟩ := mem_map.mp hrecord
    simp
  rw [writesOf, hfilter, pageRecords, writePages, map_map]
  apply map_congr_left
  intro p hp
  have hle := hsite.offset_lt (h.lt_pageCount p hp)
  have hlt := hsite.size_lt
  have hpos := pageSize_pos
  simp only [comp_apply, UInt64.toNat_ofNat',
    Nat.mod_eq_of_lt (show p * pageSize < 2 ^ 64 by omega)]
  rfl

theorem writesOf_of_ne (h : Appends site P d e) {regionId : UInt64}
    (hne : regionId ≠ site.regionId) : writesOf regionId e.log = writesOf regionId d.log := by
  obtain ⟨epoch, hlog⟩ := h.log
  have hnil : writesOf regionId (pageRecords epoch site.regionId (d.contents site) P) = [] := by
    apply writesOf_eq_nil
    intro record hrecord
    obtain ⟨p, _, rfl⟩ := mem_map.mp hrecord
    exact hne.symm
  rw [hlog, writesOf_append, hnil, append_nil]

end Appends

/-- Nothing but the epoch counter and the worker changed. -/
structure Quiet (d e : Device) : Prop where
  memory : e.memory = d.memory
  manager : e.manager = d.manager
  resources : e.resources = d.resources
  log : e.log = d.log

namespace Quiet

variable {d e f : Device}

theorem trans (h : Quiet d e) (h' : Quiet e f) : Quiet d f :=
  ⟨h'.memory.trans h.memory, h'.manager.trans h.manager, h'.resources.trans h.resources,
    h'.log.trans h.log⟩

theorem contents_eq (h : Quiet d e) (site : Site) : e.contents site = d.contents site :=
  contents_congr h.memory site

theorem appends (h : Quiet d e) (site : Site) : Appends site [] d e :=
  ⟨h.memory, ⟨0, by simp [pageRecords, h.log]⟩, by simp⟩

theorem withPages (h : Quiet d e) (epoch : UInt64) {site : Site} {P : List Nat}
    (hP : ∀ p ∈ P, p < site.pageCount) : Appends site P d (e.withPages epoch site P) := by
  refine ⟨h.memory, ⟨epoch, ?_⟩, hP⟩
  rw [Device.withPages, h.contents_eq, h.log]

end Quiet

/-! ## Primitive steps -/

section

variable {fails : Faults} {Q : Unit → Device → Prop} {epoch : UInt64}

section

variable {E : String → Device → Prop} {d : Device} {op : DeviceOp}

theorem wp_attempt (h : fails op = none → Q () d) (hfail : fails op ≠ none → ∀ err, E err d) :
    wp (attempt fails op) Q E d := by
  unfold attempt
  cases hop : fails op with
  | none => exact h hop
  | some err => exact hfail (by simp [hop]) err

theorem wp_trackedRegion {ptr : UInt64} {region : KimiTrackedRegion}
    (h : d.manager.region ptr = some region) {Q : KimiTrackedRegion → Device → Prop} :
    wp (trackedRegion ptr) Q E d ↔ Q region d := by
  simp [trackedRegion, h]

theorem wp_checkpointResources {region : KimiTrackedRegion} {res : DeviceCheckpointResources}
    (h : d.resources region.ptr = some res) {Q : DeviceCheckpointResources → Device → Prop} :
    wp (checkpointResources region) Q E d ↔ Q res d := by
  simp [checkpointResources, h]

theorem wp_takeEpoch {Q : UInt64 → Device → Prop} (h : ∀ epoch e, Quiet d e → Q epoch e) :
    wp takeEpoch Q E d := by
  simp only [takeEpoch, wp_bind, wp_get, wp_modify, wp_pure]
  exact h _ _ ⟨rfl, rfl, rfl, rfl⟩

theorem wp_ensureWorker (h : ∀ e, Quiet d e → Q () e) (hfail : fails op ≠ none → ∀ err, E err d) :
    wp (ensureWorker fails op) Q E d := by
  simp only [ensureWorker, wp_bind, wp_get]
  split
  · exact h d ⟨rfl, rfl, rfl, rfl⟩
  · simp only [wp_bind, wp_modify]
    exact wp_attempt (fun _ => h _ ⟨rfl, rfl, rfl, rfl⟩) hfail

/-- Logging page `p`. -/
theorem wp_appendRecord (site : Site) {p : Nat} (h : Q () (d.withPages epoch site [p]))
    (hfail : fails op ≠ none → ∀ err, E err d) :
    wp (appendRecord fails op epoch site.regionId (p * pageSize)
      (pagePayload (d.contents site) p)) Q E d := by
  simp only [appendRecord, wp_bind, wp_modify]
  exact wp_attempt (fun _ => h) hfail

end

/-! ## The base snapshot -/

variable {ptr : UInt64} {region : KimiTrackedRegion} {d : Device}

theorem stepBy_trackedSize (hpaged : region.site.Paged) :
    stepBy region.trackedSize pageSize = (range region.site.pageCount).map (· * pageSize) := by
  have hsize : region.trackedSize = region.site.pageCount * pageSize := hpaged.size_eq
  have hpos := pageSize_pos
  rw [stepBy]
  congr 2
  rw [hsize, Nat.add_sub_assoc hpos, Nat.add_comm,
    Nat.add_mul_div_right _ _ hpos, Nat.div_eq_of_lt (by omega), Nat.zero_add]

/-- The page loop of the base snapshot. -/
theorem wp_basePages (hregion : region.ptr = ptr) (hpaged : region.site.Paged) (epoch : UInt64)
    {Q : List UInt8 → Device → Prop} {E : String → Device → Prop}
    (hdone : Q (d.contents region.site)
      (d.withPages epoch region.site (range region.site.pageCount)))
    (hfail : ∀ err P, (∃ op, fails op ≠ none) → (∀ p ∈ P, p < region.site.pageCount) →
      E err (d.withPages epoch region.site P)) :
    wp ((stepBy region.trackedSize pageSize).foldlM (basePage fails ptr epoch region.regionId)
      (replicate region.trackedSize 0)) Q E d := by
  rw [stepBy_trackedSize hpaged, foldlM_map]
  -- the pages read so far are in the log and in the new shadow
  refine wp_foldlM (fun P shadow e => e = d.withPages epoch region.site P ∧
      shadow = overwriteAll (replicate region.trackedSize 0)
        (writePages pageSize (d.contents region.site) P)) _ ?_ ⟨by simp, rfl⟩ ?_
  · rintro P p rest shadow e hitems ⟨rfl, rfl⟩
    have hlt : ∀ q ∈ P ++ p :: rest, q < region.site.pageCount := by
      rw [← hitems]
      exact fun q hq => mem_range.mp hq
    have hfail' : ∀ op, fails op ≠ none → ∀ err, E err (d.withPages epoch region.site P) :=
      fun op hop err => hfail err P ⟨op, hop⟩ fun q hq => hlt q (mem_append_left _ hq)
    simp only [basePage, wp_bind, wp_get, wp_pure]
    refine wp_attempt (fun _ => wp_attempt (fun _ => ?_) (hfail' _)) (hfail' _)
    have hpage : readPage (d.withPages epoch region.site P) (ptr + UInt64.ofNat (p * pageSize)) =
        pagePayload ((d.withPages epoch region.site P).contents region.site) p := by
      rw [← hregion]
      exact readPage_eq hpaged (hlt p (by simp))
    rw [hpage]
    refine wp_appendRecord region.site ⟨?_, ?_⟩ (hfail' _)
    · exact d.withPages_withPages epoch region.site P [p]
    · rw [writePages_append, overwriteAll_append]
      rfl
  · rintro shadow e ⟨rfl, rfl⟩
    have hcopy : overwriteAll (replicate region.trackedSize 0)
        (writePages pageSize (d.contents region.site) (range region.site.pageCount)) =
        d.contents region.site := by
      apply overwriteAll_writePages_range pageSize_pos
      · simp [KimiTrackedRegion.site]
      · rw [length_contents]
        exact hpaged.size_eq.le
    rw [hcopy]
    exact hdone

/-- The buffers of a region after its base snapshot. -/
def baseResources (d : Device) (site : Site) : DeviceCheckpointResources where
  shadow := d.contents site
  bitmap := replicate (bitmapWords site.pageCount) 0
  aofStagingBytes := pageSize

/-- The base snapshot logs every page. If it stops, the region is as it was, with
some of its pages logged. -/
theorem wp_initializeDeviceRegion (hregion : d.manager.region ptr = some region)
    (hpaged : region.site.Paged) :
    wp (initializeDeviceRegion fails ptr)
      (fun _ e => Appends region.site (range region.site.pageCount) d e ∧
        e.manager = d.manager.updateRegion ptr (·.markInitialized) ∧
        e.resources = update d.resources ptr (some (baseResources d region.site)))
      (fun _ e => (∃ op, fails op ≠ none) ∧ (∃ P, Appends region.site P d e) ∧
        e.manager = d.manager ∧ e.resources = d.resources) d := by
  have hptr : region.ptr = ptr := key_of_lookup hregion
  simp only [initializeDeviceRegion, wp_bind, wp_trackedRegion hregion, shutdownWorker, wp_modify]
  generalize hd : { d with worker := false } = d₁
  have hquiet : Quiet d d₁ := by
    subst hd
    exact ⟨rfl, rfl, rfl, rfl⟩
  have hfail : ∀ op, fails op ≠ none → ∀ err : String, (∃ op, fails op ≠ none) ∧
      (∃ P, Appends region.site P d d₁) ∧ d₁.manager = d.manager ∧ d₁.resources = d.resources :=
    fun op hop _ => ⟨⟨op, hop⟩, ⟨[], hquiet.appends _⟩, hquiet.manager, hquiet.resources⟩
  refine wp_attempt (fun _ => wp_attempt (fun _ => wp_attempt (fun _ => wp_attempt (fun _ => ?_)
    (hfail _)) (hfail _)) (hfail _)) (hfail _)
  refine wp_takeEpoch fun epoch d₂ hepoch => ?_
  have hquiet₂ := hquiet.trans hepoch
  refine wp_basePages hptr hpaged epoch ?_ ?_
  · refine ⟨?_, ?_, ?_⟩
    · have happ : Appends region.site (range region.site.pageCount) d _ :=
        hquiet₂.withPages epoch fun p hp => mem_range.mp hp
      exact ⟨happ.memory, happ.log, happ.lt_pageCount⟩
    · show d₂.manager.updateRegion ptr _ = _
      rw [hquiet₂.manager]
    · show update d₂.resources ptr _ = _
      rw [hquiet₂.resources, hquiet₂.contents_eq]
      rfl
  · intro err P hop hP
    exact ⟨hop, ⟨P, hquiet₂.withPages epoch hP⟩, hquiet₂.manager, hquiet₂.resources⟩

/-! ## Logging dirty pages -/

/-- The operations of a scan that come after the shadow has moved. -/
def DeviceOp.afterScan (ptr : UInt64) : DeviceOp → Bool
  | .readBitmap p | .startStageWorker p | .enqueueStage p _ | .appendPage p _ => p = ptr
  | _ => false

/-- Pages `P` are logged, and with `refresh` copied into the shadow. -/
structure Logging (region : KimiTrackedRegion) (refresh : Bool) (res : DeviceCheckpointResources)
    (epoch : UInt64) (P : List Nat) (d e : Device) : Prop where
  memory : e.memory = d.memory
  manager : e.manager = d.manager
  log : e.log = d.log ++ pageRecords epoch region.regionId (d.contents region.site) P
  resources : ∃ shadow, shadow.length = res.shadow.length ∧
    (refresh = false → shadow = res.shadow) ∧
    e.resources = update d.resources region.ptr (some { res with shadow := shadow })

/-- Staging these pages did not fail. -/
def Staged (fails : Faults) (ptr : UInt64) (P : List Nat) : Prop :=
  ∀ p ∈ P, fails (.enqueueStage ptr (p * pageSize)) = none

variable {refresh : Bool} {res : DeviceCheckpointResources}

theorem wp_logPage {P : List Nat} {p : Nat} {e : Device}
    (h : Logging region refresh res epoch P d e) (hstaging : res.aofStagingBytes = pageSize)
    (hpaged : region.site.Paged) (hp : p < region.site.pageCount) :
    wp (logPage fails region epoch refresh (p * pageSize))
      (fun _ e => Staged fails region.ptr [p] ∧ Logging region refresh res epoch (P ++ [p]) d e)
      (fun _ e => (∃ op, fails op ≠ none ∧
          (refresh = false → op.afterScan region.ptr = true)) ∧
        Logging region refresh res epoch P d e) e := by
  obtain ⟨shadow, hlen, hkeep, hres⟩ := h.resources
  have hpage : readPage e (region.ptr + UInt64.ofNat (p * pageSize)) =
      pagePayload (e.contents region.site) p := readPage_eq hpaged hp
  have hcontents : e.contents region.site = d.contents region.site := contents_congr h.memory _
  have hat : e.resources region.ptr = some { res with shadow := shadow } := by
    rw [hres, update_self]
  simp only [logPage, stageAofPayloadViaWorker, wp_bind, wp_checkpointResources hat, hstaging,
    gt_iff_lt, lt_irrefl, if_false, wp_get, wp_pure]
  refine wp_attempt (fun hop => ?_) fun hop _ =>
    ⟨⟨_, hop, fun _ => by simp [DeviceOp.afterScan]⟩, h⟩
  have hstaged : Staged fails region.ptr [p] := fun q hq => mem_singleton.mp hq ▸ hop
  rw [hpage]
  cases refresh with
  | false =>
    simp only [Bool.false_eq_true, if_false]
    refine wp_appendRecord region.site ?_ fun hop _ =>
      ⟨⟨_, hop, fun _ => by simp [DeviceOp.afterScan]⟩, h⟩
    refine ⟨hstaged, h.memory, h.manager, ?_, h.resources⟩
    rw [Device.withPages, hcontents, h.log, append_assoc, pageRecords, pageRecords,
      pageRecords, map_append]
    rfl
  | true =>
    simp only [if_true, wp_bind, wp_modify]
    refine wp_attempt (fun _ => ?_) fun hop _ => ⟨⟨_, hop, by simp⟩, h⟩
    rw [wp_checkpointResources hat]
    -- the page is in the shadow now
    have hmoved : Logging region true res epoch P d (e.setResources region.ptr
        { res with shadow := overwrite shadow (p * pageSize)
                    (pagePayload (e.contents region.site) p).data }) := by
      refine ⟨h.memory, h.manager, h.log, overwrite shadow (p * pageSize)
        (pagePayload (e.contents region.site) p).data, ?_, by simp, ?_⟩
      · rw [length_overwrite, hlen]
      · show update e.resources _ _ = _
        rw [hres, update_idem]
    refine wp_appendRecord region.site ?_ fun hop _ =>
      ⟨⟨_, hop, by simp⟩, hmoved⟩
    refine ⟨hstaged, hmoved.memory, hmoved.manager, ?_, hmoved.resources⟩
    show e.log ++ pageRecords epoch region.regionId (e.contents region.site) [p] = _
    rw [hcontents, h.log, append_assoc, pageRecords, pageRecords, pageRecords,
      map_append]

/-- Logging the pages found dirty. -/
theorem wp_logPages {P : List Nat} (hres : d.resources region.ptr = some res)
    (hstaging : res.aofStagingBytes = pageSize) (hpaged : region.site.Paged)
    (hP : ∀ p ∈ P, p < region.site.pageCount) :
    wp (logPages fails region refresh (P.map (· * pageSize)))
      (fun _ e => Staged fails region.ptr P ∧ ∃ epoch, Logging region refresh res epoch P d e)
      (fun _ e => (∃ op, fails op ≠ none ∧
          (refresh = false → op.afterScan region.ptr = true)) ∧
        ∃ epoch P', (∀ p ∈ P', p < region.site.pageCount) ∧ Staged fails region.ptr P' ∧
          Logging region refresh res epoch P' d e) d := by
  have hquiet : ∀ epoch e, Quiet d e → Logging region refresh res epoch [] d e := by
    intro epoch e h
    refine ⟨h.memory, h.manager, by simp [pageRecords, h.log], res.shadow, rfl, fun _ => rfl, ?_⟩
    rw [h.resources]
    exact (update_eq_self_iff.mpr hres.symm).symm
  unfold logPages
  split
  · rename_i hempty
    obtain rfl : P = [] := by simpa using hempty
    exact ⟨by simp [Staged], 0, hquiet 0 d ⟨rfl, rfl, rfl, rfl⟩⟩
  · simp only [wp_bind]
    refine wp_takeEpoch fun epoch d₁ h₁ => wp_ensureWorker (fun d₂ h₂ => ?_) fun hop _ =>
      ⟨⟨_, hop, fun _ => by simp [DeviceOp.afterScan]⟩, epoch, [], by simp, by simp [Staged],
        hquiet epoch d₁ h₁⟩
    rw [foldlM_map]
    refine wp_foldlM (fun P _ e => Staged fails region.ptr P ∧
        Logging region refresh res epoch P d e) P ?_
      ⟨by simp [Staged], hquiet epoch d₂ (h₁.trans h₂)⟩ fun _ e h => ⟨h.1, epoch, h.2⟩
    rintro done p rest _ e hitems ⟨hstaged, h⟩
    have hlt : ∀ q ∈ done ++ p :: rest, q < region.site.pageCount := hitems ▸ hP
    refine wp_mono (wp_logPage h hstaging hpaged (hlt p (by simp))) ?_ ?_
    · rintro _ e ⟨hlast, h⟩
      refine ⟨fun q hq => ?_, h⟩
      exact (mem_append.mp hq).elim (hstaged q) (hlast q)
    · rintro _ e ⟨hop, h⟩
      exact ⟨hop, epoch, done, fun q hq => hlt q (mem_append_left _ hq), hstaged, h⟩

/-! ## Scans -/

/-- Pages `P` are logged and the region's buffers hold `shadow`. -/
structure Touches (site : Site) (res : DeviceCheckpointResources) (P : List Nat)
    (shadow : List UInt8) (d e : Device) : Prop where
  appends : Appends site P d e
  resources : ∃ bitmap, bitmap.length = res.bitmap.length ∧
    e.resources = update d.resources site.ptr
      (some { res with shadow := shadow, bitmap := bitmap })

/-- The pages of a region that differ from the shadow. -/
def dirtyPages (site : Site) (shadow contents : List UInt8) : List Nat :=
  (range site.pageCount).filter fun p =>
    decide (page pageSize shadow p ≠ page pageSize contents p)

/-- A step that logs nothing. -/
theorem touches_nil {site : Site} {shadow : List UInt8} {bitmap : List UInt64} {e : Device}
    (hmemory : e.memory = d.memory) (hlog : e.log = d.log)
    (hlen : bitmap.length = res.bitmap.length)
    (hres : e.resources = update d.resources site.ptr
      (some { res with shadow := shadow, bitmap := bitmap })) : Touches site res [] shadow d e :=
  ⟨⟨hmemory, ⟨0, by simp [pageRecords, hlog]⟩, by simp⟩, bitmap, hlen, hres⟩

theorem touches_refl {site : Site} (h : d.resources site.ptr = some res) :
    Touches site res [] res.shadow d d :=
  touches_nil rfl rfl rfl (update_eq_self_iff.mpr h.symm).symm

/-- Buffers that fit a region. -/
structure Fitting (site : Site) (res : DeviceCheckpointResources) : Prop where
  shadow : res.shadow.length = site.trackedSize
  bitmap : res.bitmap.length = bitmapWords site.pageCount
  staging : res.aofStagingBytes = pageSize

theorem fitting_baseResources (d : Device) (site : Site) : Fitting site (baseResources d site) :=
  ⟨d.length_contents site, length_replicate, rfl⟩

theorem Fitting.pageCount_le {site : Site} (h : Fitting site res) :
    site.pageCount ≤ res.bitmap.length * 64 := by
  rw [h.bitmap, bitmapWords]
  omega

/-- Logging after a step that set the buffers. -/
theorem Logging.touches {P : List Nat} {shadow : List UInt8} {bitmap : List UInt64} {d₁ e : Device}
    (h : Logging region refresh { res with shadow := shadow, bitmap := bitmap } epoch P d₁ e)
    (hP : ∀ p ∈ P, p < region.site.pageCount) (hmemory : d₁.memory = d.memory)
    (hlog : d₁.log = d.log)
    (hres : d₁.resources = update d.resources region.ptr
      (some { res with shadow := shadow, bitmap := bitmap }))
    (hlen : bitmap.length = res.bitmap.length) :
    ∃ shadow', shadow'.length = shadow.length ∧ (refresh = false → shadow' = shadow) ∧
      Touches region.site res P shadow' d e := by
  obtain ⟨shadow', hshadow, hkeep, hresources⟩ := h.resources
  refine ⟨shadow', hshadow, hkeep, ⟨h.memory.trans hmemory, ⟨epoch, ?_⟩, hP⟩, bitmap, hlen, ?_⟩
  · rw [h.log, hlog, contents_congr hmemory]
    rfl
  · rw [hresources, hres]
    exact update_idem ..

/-- A device scan moves the shadow to the contents and logs the pages that
differed. A stop before it leaves the shadow and the log alone. -/
theorem wp_scanDeviceRegion_none (hregion : d.manager.region ptr = some region)
    (hpaged : region.site.Paged) (hres : d.resources ptr = some res)
    (hfit : Fitting region.site res) (halloc : region.allocator = none) :
    wp (scanDeviceRegion fails ptr)
      (fun _ e => e.manager = d.manager ∧
        Staged fails ptr (dirtyPages region.site res.shadow (d.contents region.site)) ∧
        Touches region.site res (dirtyPages region.site res.shadow (d.contents region.site))
          (d.contents region.site) d e)
      (fun _ e => e.manager = d.manager ∧ ∃ op, fails op ≠ none ∧
        (op.afterScan ptr = false ∧ Touches region.site res [] res.shadow d e ∨
          op.afterScan ptr = true ∧ ∃ P, Staged fails ptr P ∧
            Touches region.site res P (d.contents region.site) d e)) d := by
  have hptr : region.ptr = ptr := key_of_lookup hregion
  subst hptr
  have hlen : res.shadow.length = (d.contents region.site).length := by
    rw [hfit.shadow, length_contents]
  simp only [scanDeviceRegion, wp_bind, wp_trackedRegion hregion, wp_checkpointResources hres,
    halloc]
  split
  · -- no pages: the shadow is empty
    rename_i hzero
    have hsize : region.site.trackedSize = 0 := by
      rw [hpaged.size_eq, show region.site.pageCount = 0 from hzero, Nat.zero_mul]
    have hempty : d.contents region.site = res.shadow := by
      rw [eq_nil_of_length_eq_zero (hfit.shadow.trans hsize),
        eq_nil_of_length_eq_zero ((d.length_contents _).trans hsize)]
    have hnone : dirtyPages region.site res.shadow (d.contents region.site) = [] := by
      rw [dirtyPages, show region.site.pageCount = 0 from hzero]
      rfl
    refine ⟨rfl, ?_⟩
    rw [hnone, hempty]
    exact ⟨by simp [Staged], touches_refl hres⟩
  simp only [scanOffsets, wp_bind, wp_modify, wp_get, wp_pure]
  refine wp_attempt (fun _ => ?_) fun hop _ => ⟨rfl, _, hop, .inl ⟨rfl, touches_refl hres⟩⟩
  have hcleared : ∀ e, Quiet (d.setResources region.ptr
      { res with bitmap := replicate res.bitmap.length 0 }) e →
      e.manager = d.manager ∧ Touches region.site res [] res.shadow d e := by
    exact fun e h => ⟨h.manager, touches_nil h.memory h.log (by simp) h.resources⟩
  refine wp_ensureWorker (fun d₁ h₁ => ?_) fun hop _ =>
    ⟨rfl, _, hop, .inl ⟨rfl, (hcleared _ ⟨rfl, rfl, rfl, rfl⟩).2⟩⟩
  refine wp_attempt (fun _ => ?_) fun hop _ =>
    ⟨(hcleared _ h₁).1, _, hop, .inl ⟨rfl, (hcleared _ h₁).2⟩⟩
  -- the scan
  have hcurrent : d₁.read region.ptr region.trackedSize = d.contents region.site :=
    contents_congr h₁.memory region.site
  have hpages := hfit.pageCount_le
  have hshadow : (doDirtyScan region.site.pageCount (d.contents region.site) res.shadow
      (replicate res.bitmap.length 0)).1 = d.contents region.site :=
    doDirtyScan_shadow hlen ((d.length_contents _).trans hpaged.size_eq) hpages
  have hoffsets := scanned_offsets hlen hpages
  have hwords := (scanned_doDirtyScan hlen hpages).words
  rw [hcurrent, show region.trackedSize / pageSize = region.site.pageCount from rfl, hoffsets,
    hshadow]
  generalize (doDirtyScan region.site.pageCount (d.contents region.site) res.shadow
    (replicate res.bitmap.length 0)).2 = bitmap at hwords
  generalize hd₂ : d₁.setResources region.ptr
    { res with shadow := d.contents region.site, bitmap := bitmap } = d₂
  have hmemory : d₂.memory = d.memory := hd₂ ▸ h₁.memory
  have hmanager : d₂.manager = d.manager := hd₂ ▸ h₁.manager
  have hlog : d₂.log = d.log := hd₂ ▸ h₁.log
  have hres₂ : d₂.resources = update d.resources region.site.ptr
      (some { res with shadow := d.contents region.site, bitmap := bitmap }) := by
    rw [← hd₂]
    show update d₁.resources _ _ = _
    rw [h₁.resources]
    exact update_idem ..
  have hat : d₂.resources region.ptr =
      some { res with shadow := d.contents region.site, bitmap := bitmap } := by
    rw [hres₂]
    exact update_self ..
  have htouches : ∀ epoch P e, (∀ p ∈ P, p < region.site.pageCount) → Logging region false
      { res with shadow := d.contents region.site, bitmap := bitmap } epoch P d₂ e →
      Touches region.site res P (d.contents region.site) d e := by
    intro epoch P e hP h
    obtain ⟨_, _, hkeep, htouches⟩ := h.touches hP hmemory hlog hres₂ hwords
    exact hkeep rfl ▸ htouches
  refine wp_attempt (fun _ => ?_) fun hop _ => ⟨hmanager, _, hop, .inr
    ⟨by simp [DeviceOp.afterScan], [], by simp [Staged], touches_nil hmemory hlog hwords hres₂⟩⟩
  have hP : ∀ p ∈ dirtyPages region.site res.shadow (d.contents region.site),
      p < region.site.pageCount :=
    fun p hp => mem_range.mp (mem_of_mem_filter hp)
  refine wp_mono (wp_logPages hat hfit.staging hpaged hP) ?_ ?_
  · rintro _ e ⟨hstaged, epoch, h⟩
    exact ⟨h.manager.trans hmanager, hstaged, htouches epoch _ e hP h⟩
  · rintro _ e ⟨⟨op, hop, hafter⟩, epoch, P, hlt, hstaged, h⟩
    exact ⟨h.manager.trans hmanager, op, hop,
      .inr ⟨hafter rfl, P, hstaged, htouches epoch P e hlt h⟩⟩

/-- The block table of an allocator, as it is in device memory. -/
def Device.blockTable (d : Device) (metadata : KimiAllocatorMetadata) : List UInt32 :=
  if metadata.blockTablePtr = 0 ∨ metadata.blockCount = 0 then metadata.blockTableSnapshot
  else decodeBlockTableSnapshot (d.read metadata.blockTablePtr (metadata.blockCount * 4))

/-- The manager after the block table was read. -/
def Device.snapshotManager (d : Device) (ptr : UInt64) (metadata : KimiAllocatorMetadata) :
    KimiConcordiaManager :=
  if metadata.blockTablePtr = 0 ∨ metadata.blockCount = 0 then d.manager
  else (d.manager.updateRegion ptr (·.withSnapshot (d.blockTable metadata))).upsertManifestForPtr
    ptr

/-- The byte length of the block table does not fit in a `usize`. -/
def KimiAllocatorMetadata.tableOverflows (metadata : KimiAllocatorMetadata) : Prop :=
  metadata.blockTablePtr ≠ 0 ∧ 2 ^ 64 ≤ metadata.blockCount * 4

variable {metadata : KimiAllocatorMetadata}

theorem wp_allocatorWithCurrentSnapshot {Q : KimiAllocatorMetadata → Device → Prop}
    {E : String → Device → Prop}
    (h : Q { metadata with blockTableSnapshot := d.blockTable metadata }
      { d with manager := d.snapshotManager ptr metadata })
    (hfail : ((∃ op, fails op ≠ none) ∨ metadata.tableOverflows) → ∀ err, E err d) :
    wp (allocatorWithCurrentSnapshot fails ptr metadata) Q E d := by
  unfold allocatorWithCurrentSnapshot
  unfold snapshotManager blockTable at h
  split
  · rename_i hnone
    rwa [if_pos hnone, if_pos hnone] at h
  · rename_i htable
    rw [if_neg htable, if_neg htable] at h
    split
    · rename_i hbig
      exact hfail (.inr ⟨fun h => htable (.inl h), hbig⟩) _
    · simp only [wp_bind, wp_get, wp_modify, wp_pure]
      exact wp_attempt (fun _ => h) fun hop => hfail (.inl ⟨_, hop⟩)

/-- The pages an allocator's dirty bitmap marks. -/
def Device.markedPages (d : Device) (site : Site) (bitmap : UInt64 × Nat) : List Nat :=
  (range site.pageCount).filter (bitmapMarks (d.read bitmap.1 bitmap.2))

/-- A region without pages is not scanned. -/
theorem wp_scanDeviceRegion_zero (hregion : d.manager.region ptr = some region)
    (hres : d.resources ptr = some res) (hpages : region.site.pageCount = 0)
    {E : String → Device → Prop} : wp (scanDeviceRegion fails ptr) Q E d ↔ Q () d := by
  have hptr : region.ptr = ptr := key_of_lookup hregion
  subst hptr
  simp only [scanDeviceRegion, wp_bind, wp_trackedRegion hregion, wp_checkpointResources hres]
  rw [if_pos (show region.trackedSize / pageSize = 0 from hpages), wp_pure]

/-- A scan of a region with an allocator logs the pages its bitmap marks. If it
stops, some pages may have been logged. -/
theorem wp_scanDeviceRegion_some (hregion : d.manager.region ptr = some region)
    (hpaged : region.site.Paged) (hres : d.resources ptr = some res)
    (hfit : Fitting region.site res) (halloc : region.allocator = some metadata)
    (hpages : region.site.pageCount ≠ 0) :
    wp (scanDeviceRegion fails ptr)
      (fun _ e => e.manager = d.snapshotManager ptr metadata ∧
        ∃ shadow, shadow.length = region.site.trackedSize ∧ Touches region.site res
          (d.markedPages region.site (metadata.dirtyBitmapPtr, metadata.dirtyBitmapBytes))
          shadow d e)
      (fun _ e => ((∃ op, fails op ≠ none) ∨ metadata.tableOverflows) ∧
        (e.manager = d.manager ∨ e.manager = d.snapshotManager ptr metadata) ∧
        ∃ P shadow, shadow.length = region.site.trackedSize ∧
          Touches region.site res P shadow d e) d := by
  have hptr : region.ptr = ptr := key_of_lookup hregion
  subst hptr
  simp only [scanDeviceRegion, wp_bind, wp_trackedRegion hregion, wp_checkpointResources hres,
    halloc]
  rw [if_neg (show ¬ region.trackedSize / pageSize = 0 from hpages)]
  simp only [allocatorOffsets, wp_bind, wp_get, wp_pure]
  refine wp_allocatorWithCurrentSnapshot ?_ fun hop _ =>
    ⟨hop, .inl rfl, [], res.shadow, hfit.shadow, touches_refl hres⟩
  generalize hd₁ : { d with manager := d.snapshotManager region.ptr metadata } = d₁
  have hmemory : d₁.memory = d.memory := hd₁ ▸ rfl
  have hmanager : d₁.manager = d.snapshotManager region.ptr metadata := hd₁ ▸ rfl
  have hlog : d₁.log = d.log := hd₁ ▸ rfl
  have hres₁ : d₁.resources = d.resources := hd₁ ▸ rfl
  have hsame : d₁.resources = update d.resources region.site.ptr (some res) :=
    hres₁.trans (update_eq_self_iff.mpr hres.symm).symm
  have htouches : ∀ epoch P e, (∀ p ∈ P, p < region.site.pageCount) →
      Logging region true res epoch P d₁ e →
      ∃ shadow, shadow.length = region.site.trackedSize ∧ Touches region.site res P shadow d e := by
    intro epoch P e hP h
    obtain ⟨shadow, hlen, _, htouches⟩ := h.touches hP hmemory hlog hsame rfl
    exact ⟨shadow, hlen.trans hfit.shadow, htouches⟩
  refine wp_attempt (fun _ => ?_) fun hop _ => ⟨.inl ⟨_, hop⟩, .inr hmanager, [], res.shadow,
    hfit.shadow, touches_nil hmemory hlog rfl hsame⟩
  have hP : ∀ p ∈ d.markedPages region.site (metadata.dirtyBitmapPtr, metadata.dirtyBitmapBytes),
      p < region.site.pageCount :=
    fun p hp => mem_range.mp (mem_of_mem_filter hp)
  have hread : d₁.read metadata.dirtyBitmapPtr metadata.dirtyBitmapBytes =
      d.read metadata.dirtyBitmapPtr metadata.dirtyBitmapBytes := by
    simp only [Device.read, hmemory]
  rw [hread]
  refine wp_mono (wp_logPages (hres₁ ▸ hres) hfit.staging hpaged hP) ?_ ?_
  · rintro _ e ⟨_, epoch, h⟩
    exact ⟨h.manager.trans hmanager, htouches epoch _ e hP h⟩
  · rintro _ e ⟨⟨op, hop, _⟩, epoch, P, hlt, _, h⟩
    exact ⟨.inl ⟨op, hop⟩, .inr (h.manager.trans hmanager), P, htouches epoch P e hlt h⟩

end

end Concordia.Kimi
