import Concordia.Lib.TSys
import Concordia.Kimi.Effects

/-!
# Failed checkpoints

For every region that has its base snapshot, the log replays to what the region
last had logged, and for a region scanned on the device the shadow is just that
(`Ledger`). A checkpoint that ends brings both up to the contents. One that stops
keeps them together, unless it stops after a device scan found a page: the shadow
has moved then and the log has not (`checkpoint_loses_page`). Where no call stops
there, every checkpoint that ends makes every region restorable
(`checkpoint_restorable`).
-/

namespace Concordia.Kimi

open Concordia.Lib Concordia.Lib.FallibleM Concordia.Aof Concordia.Delta Function KimiTrackedRegion
open KimiConcordiaManager hiding step
open List hiding lookup_cons

def Device.sites (d : Device) : List Site := d.manager.allocations.map site

open Device

def Device.initializedAt (d : Device) (ptr : UInt64) : Bool :=
  (d.manager.region ptr).any initialized

/-- Whole regions with distinct pointers and ids. -/
structure WellPlaced (sites : List Site) : Prop where
  ptr_nodup : (sites.map Site.ptr).Nodup
  regionId_nodup : (sites.map Site.regionId).Nodup
  paged : ∀ site ∈ sites, site.Paged

/-! ## What a region's records say -/

/-- Over any base, the region's records replay to `logged`. -/
structure LoggedAs (site : Site) (logged : List UInt8) (d : Device) : Prop where
  length : logged.length = site.trackedSize
  replay : ∀ base : List UInt8, base.length = site.trackedSize →
    overwriteAll base (writesOf site.regionId d.log) = logged

/-- The log and the buffers of a region with a base snapshot. -/
structure Ledger (site : Site) (logged : List UInt8) (d : Device) : Prop extends
    LoggedAs site logged d where
  resources : ∃ res, d.resources site.ptr = some res ∧ Fitting site res ∧
    (site.bitmap = none → res.shadow = logged)

variable {P : List Nat}

theorem LoggedAs.appends {site : Site} {logged : List UInt8} {d e : Device}
    (h : LoggedAs site logged d) (hpaged : site.Paged) (happ : Appends site P d e) :
    LoggedAs site (overwriteAll logged (writePages pageSize (d.contents site) P)) e := by
  refine ⟨by rw [length_overwriteAll, h.length], fun base hbase => ?_⟩
  rw [happ.writesOf_self hpaged, overwriteAll_append, h.replay base hbase]

/-- Once every page that differs is logged, the log has the contents. -/
theorem LoggedAs.current {site : Site} {logged : List UInt8} {d e : Device}
    (h : LoggedAs site logged d) (hpaged : site.Paged) (happ : Appends site P d e)
    (hP : ∀ p < site.pageCount,
      page pageSize logged p ≠ page pageSize (d.contents site) p → p ∈ P) :
    LoggedAs site (d.contents site) e := by
  have hlen : logged.length = (d.contents site).length := by rw [h.length, d.length_contents]
  have hnext := h.appends hpaged happ
  rwa [overwriteAll_writePages pageSize_pos hlen] at hnext
  intro p hne
  refine hP p ?_ hne
  by_contra hout
  exact hne (hpaged.page_eq h.length (d.length_contents _) hout)

/-! ## Steps at one region -/

/-- Between `d` and `e` nothing happened but at this region. -/
structure Apart (site : Site) (d e : Device) : Prop where
  memory : e.memory = d.memory
  sites : e.sites = d.sites
  region : ∀ p, p ≠ site.ptr → e.manager.region p = d.manager.region p
  resources : ∀ p, p ≠ site.ptr → e.resources p = d.resources p
  writes : ∀ id, id ≠ site.regionId → writesOf id e.log = writesOf id d.log

namespace Apart

variable {site site' : Site} {d e f : Device}

theorem refl (site : Site) (d : Device) : Apart site d d :=
  ⟨rfl, rfl, fun _ _ => rfl, fun _ _ => rfl, fun _ _ => rfl⟩

theorem trans (h : Apart site d e) (h' : Apart site e f) : Apart site d f :=
  ⟨h'.memory.trans h.memory, h'.sites.trans h.sites,
    fun p hp => (h'.region p hp).trans (h.region p hp),
    fun p hp => (h'.resources p hp).trans (h.resources p hp),
    fun id hid => (h'.writes id hid).trans (h.writes id hid)⟩

/-- A step that logs pages of the region and updates its entry and its buffers. -/
theorem of_appends (happ : Appends site P d e) {f : KimiTrackedRegion → KimiTrackedRegion}
    (hf : ∀ r, (f r).site = r.site) (hmanager : e.manager.allocations = d.manager.allocations ∨
      e.manager.allocations = (d.manager.updateRegion site.ptr f).allocations)
    (hresources : e.resources = d.resources ∨
      ∃ res, e.resources = update d.resources site.ptr res) : Apart site d e := by
  have hkey : ∀ r, (f r).ptr = r.ptr := fun r => congrArg Site.ptr (hf r)
  refine ⟨happ.memory, ?_, ?_, ?_, fun id hid => happ.writesOf_of_ne hid⟩
  · unfold Device.sites
    rcases hmanager with h | h <;> rw [h]
    exact d.manager.map_updateRegion hf
  · intro p hp
    rcases hmanager with h | h <;> rw [region_congr h]
    exact d.manager.region_updateRegion_of_ne hkey hp
  · intro p hp
    rcases hresources with h | ⟨res, h⟩ <;> rw [h]
    exact update_of_ne hp _ _

theorem contents_eq (h : Apart site d e) (site' : Site) : e.contents site' = d.contents site' :=
  contents_congr h.memory site'

theorem initializedAt_eq (h : Apart site d e) (hptr : site'.ptr ≠ site.ptr) :
    e.initializedAt site'.ptr = d.initializedAt site'.ptr := by
  rw [initializedAt, initializedAt, h.region _ hptr]

theorem ledger (h : Apart site d e) (hptr : site'.ptr ≠ site.ptr)
    (hid : site'.regionId ≠ site.regionId) {logged : List UInt8} (hl : Ledger site' logged d) :
    Ledger site' logged e := by
  refine ⟨⟨hl.length, fun base hbase => ?_⟩, ?_⟩
  · rw [h.writes _ hid]
    exact hl.replay base hbase
  · rw [h.resources _ hptr]
    exact hl.resources

end Apart

/-! ## When a call may fail -/

/-- What the log replays to. -/
def Device.replayed (d : Device) (site : Site) : List UInt8 :=
  overwriteAll (replicate site.trackedSize 0) (writesOf site.regionId d.log)

/-- A region with a base snapshot. Scanned on the device: if it differs from its
shadow, no operation after the scan fails. With an allocator: its bitmap marks
every page that differs from what is logged. -/
def Device.safeAt (d : Device) (fails : Faults) (site : Site) : Prop :=
  d.initializedAt site.ptr = true →
    match site.bitmap with
    | none => (d.resources site.ptr).map DeviceCheckpointResources.shadow ≠ some (d.contents site) →
        ∀ op : DeviceOp, op.afterScan site.ptr = true → fails op = none
    | some bitmap => ∀ p < site.pageCount,
        page pageSize (d.replayed site) p ≠ page pageSize (d.contents site) p →
          bitmapMarks (d.read bitmap.1 bitmap.2) p = true

theorem LoggedAs.replayed_eq {site : Site} {logged : List UInt8} {d : Device}
    (h : LoggedAs site logged d) : d.replayed site = logged :=
  h.replay _ length_replicate

theorem Apart.safeAt {site site' : Site} {d e : Device} (h : Apart site d e)
    (hptr : site'.ptr ≠ site.ptr) (hid : site'.regionId ≠ site.regionId) {fails : Faults}
    (hsafe : d.safeAt fails site') : e.safeAt fails site' := by
  have hread : ∀ addr len, e.read addr len = d.read addr len := by
    intro addr len
    simp only [Device.read, h.memory]
  unfold Device.safeAt Device.replayed Device.contents at *
  rw [h.initializedAt_eq hptr, h.resources _ hptr, h.writes _ hid, hread]
  simp only [hread]
  exact hsafe

/-! ## A scan -/

section

variable {fails : Faults} {site : Site} {logged : List UInt8} {d e : Device}

theorem exists_region (hplaced : WellPlaced d.sites) (hsite : site ∈ d.sites) :
    ∃ region, d.manager.region site.ptr = some region ∧ region.site = site := by
  obtain ⟨region, hmem, rfl⟩ := mem_map.mp hsite
  have hnodup : (d.manager.allocations.map ptr).Nodup := by
    have := hplaced.ptr_nodup
    rwa [Device.sites, map_map] at this
  exact ⟨region, lookup_of_mem hnodup hmem, rfl⟩

/-- The snapshot of a block table changes one entry, and nothing `site` sees. -/
theorem snapshotManager_allocations (d : Device) (ptr : UInt64) (metadata : KimiAllocatorMetadata) :
    ∃ snapshot : KimiTrackedRegion → KimiTrackedRegion,
      (∀ r, (snapshot r).site = r.site ∧ (snapshot r).initialized = r.initialized) ∧
      ((d.snapshotManager ptr metadata).allocations = d.manager.allocations ∨
        (d.snapshotManager ptr metadata).allocations =
          (d.manager.updateRegion ptr snapshot).allocations) := by
  refine ⟨(·.withSnapshot (d.blockTable metadata)), ?_, ?_⟩
  · intro r
    refine ⟨?_, rfl⟩
    simp only [site, withSnapshot, Option.map_map]
    rfl
  · unfold snapshotManager
    split
    · exact .inl rfl
    · exact .inr (by rw [upsertManifestForPtr_allocations])

/-- The region's buffers after a step. -/
theorem Touches.ledger {res : DeviceCheckpointResources} {shadow logged' : List UInt8}
    (h : Touches site res P shadow d e) (hfit : Fitting site res)
    (hlen : shadow.length = site.trackedSize) (hlogged : LoggedAs site logged' e)
    (hshadow : site.bitmap = none → shadow = logged') : Ledger site logged' e := by
  obtain ⟨bitmap, hbitmap, hres⟩ := h.resources
  refine ⟨hlogged, { res with shadow := shadow, bitmap := bitmap }, ?_, ?_, hshadow⟩
  · rw [hres, update_self]
  · exact ⟨hlen, hbitmap.trans hfit.bitmap, hfit.staging⟩

/-- The region's entry stays, or gets the snapshot of its block table. -/
theorem Touches.apart {res : DeviceCheckpointResources} {shadow : List UInt8}
    (h : Touches site res P shadow d e) (hmanager : e.manager = d.manager ∨
      ∃ metadata, e.manager = d.snapshotManager site.ptr metadata) :
    Apart site d e ∧ e.initializedAt site.ptr = d.initializedAt site.ptr := by
  obtain ⟨bitmap, _, hres⟩ := h.resources
  have hentry : ∃ f : KimiTrackedRegion → KimiTrackedRegion,
      (∀ r, (f r).site = r.site ∧ (f r).initialized = r.initialized) ∧
      (e.manager.allocations = d.manager.allocations ∨
        e.manager.allocations = (d.manager.updateRegion site.ptr f).allocations) := by
    rcases hmanager with h | ⟨metadata, h⟩ <;> rw [h]
    · exact ⟨id, fun _ => ⟨rfl, rfl⟩, .inl rfl⟩
    · exact snapshotManager_allocations d site.ptr metadata
  obtain ⟨f, hf, hsame⟩ := hentry
  refine ⟨.of_appends h.appends (fun r => (hf r).1) hsame (.inr ⟨_, hres⟩), ?_⟩
  have hkey : ∀ r, (f r).ptr = r.ptr := fun r => congrArg Site.ptr (hf r).1
  unfold initializedAt
  rcases hsame with h | h <;> rw [region_congr h]
  rw [d.manager.region_updateRegion hkey]
  cases d.manager.region site.ptr with
  | none => rfl
  | some r => exact (hf r).2

/-- A scan brings the log up to the contents, or stops with log and shadow
together. -/
theorem wp_scan (hplaced : WellPlaced d.sites) (hsite : site ∈ d.sites)
    (hledger : Ledger site logged d) (hinit : d.initializedAt site.ptr = true)
    (hsafe : d.safeAt fails site) :
    wp (scanDeviceRegion fails site.ptr)
      (fun _ e => Apart site d e ∧ e.initializedAt site.ptr = true ∧
        Ledger site (d.contents site) e)
      (fun _ e => Apart site d e ∧ e.initializedAt site.ptr = true ∧
        (∃ logged, Ledger site logged e) ∧ (site.bitmap = none → ∃ op, fails op ≠ none)) d := by
  obtain ⟨region, hregion, rfl⟩ := exists_region hplaced hsite
  have hpaged := hplaced.paged _ hsite
  obtain ⟨res, hres, hfit, hshadow⟩ := hledger.resources
  have hlen : logged.length = (d.contents region.site).length := by
    rw [hledger.length, d.length_contents]
  have hsafe := hsafe hinit
  have hkeep : ∀ {P shadow} {e : Device}, (e.manager = d.manager ∨
      ∃ metadata, e.manager = d.snapshotManager region.site.ptr metadata) →
      Touches region.site res P shadow d e →
      Apart region.site d e ∧ e.initializedAt region.site.ptr = true :=
    fun hmanager h => hinit ▸ h.apart hmanager
  cases halloc : region.allocator with
  | none =>
    have hbitmap : region.site.bitmap = none := by simp [site, halloc]
    obtain rfl := hshadow hbitmap
    rw [hbitmap, hres] at hsafe
    refine wp_mono (wp_scanDeviceRegion_none hregion hpaged hres hfit halloc) ?_ ?_
    · rintro _ e ⟨hmanager, _, h⟩
      obtain ⟨hapart, hstill⟩ := hkeep (.inl hmanager) h
      refine ⟨hapart, hstill, h.ledger hfit (d.length_contents _) ?_ fun _ => rfl⟩
      exact hledger.current hpaged h.appends fun p hp hne =>
        mem_filter.mpr ⟨mem_range.mpr hp, by simpa using hne⟩
    · rintro _ e ⟨hmanager, op, hop, ⟨_, h⟩ | ⟨hafter, P, _, h⟩⟩
      · obtain ⟨hapart, hstill⟩ := hkeep (.inl hmanager) h
        exact ⟨hapart, hstill, ⟨_, h.ledger hfit hfit.shadow (hledger.appends hpaged h.appends)
          fun _ => rfl⟩, fun _ => ⟨op, hop⟩⟩
      · -- nothing was dirty: shadow, log and contents are the same
        have hclean : res.shadow = d.contents region.site := by
          by_contra hne
          exact hop (hsafe (by simpa using hne) op hafter)
        obtain ⟨hapart, hstill⟩ := hkeep (.inl hmanager) h
        refine ⟨hapart, hstill, ⟨_, h.ledger hfit (d.length_contents _) ?_ fun _ => rfl⟩,
          fun _ => ⟨op, hop⟩⟩
        exact hledger.current hpaged h.appends fun p _ hne => absurd (by rw [hclean]) hne
  | some metadata =>
    have hbitmap : region.site.bitmap =
        some (metadata.dirtyBitmapPtr, metadata.dirtyBitmapBytes) := by
      simp [site, halloc]
    have hnone : region.site.bitmap ≠ none := by simp [hbitmap]
    rw [hbitmap, hledger.replayed_eq] at hsafe
    by_cases hpages : region.site.pageCount = 0
    · -- no pages: nothing to scan
      have hempty : d.contents region.site = logged := by
        have hsize : region.site.trackedSize = 0 := by rw [hpaged.size_eq, hpages, Nat.zero_mul]
        rw [eq_nil_of_length_eq_zero (hledger.length.trans hsize),
          eq_nil_of_length_eq_zero ((d.length_contents _).trans hsize)]
      rw [wp_scanDeviceRegion_zero hregion hres hpages]
      exact ⟨.refl _ _, hinit, hempty ▸ hledger⟩
    refine wp_mono (wp_scanDeviceRegion_some hregion hpaged hres hfit halloc hpages) ?_ ?_
    · rintro _ e ⟨hmanager, shadow, hlength, h⟩
      obtain ⟨hapart, hstill⟩ := hkeep (.inr ⟨_, hmanager⟩) h
      refine ⟨hapart, hstill, h.ledger hfit hlength ?_ fun hb => absurd hb hnone⟩
      exact hledger.current hpaged h.appends fun p hp hne =>
        mem_filter.mpr ⟨mem_range.mpr hp, hsafe p hp hne⟩
    · rintro _ e ⟨_, hmanager, P, shadow, hlength, h⟩
      obtain ⟨hapart, hstill⟩ := hkeep (hmanager.imp_right fun h => ⟨_, h⟩) h
      exact ⟨hapart, hstill, ⟨_, h.ledger hfit hlength (hledger.appends hpaged h.appends)
        fun hb => absurd hb hnone⟩, fun hb => absurd hb hnone⟩

/-! ## A checkpoint -/

/-- The regions are where they were, and those with a base snapshot have their
ledger. -/
structure Inv (sites : List Site) (d : Device) : Prop where
  sites_eq : d.sites = sites
  ledger : ∀ site ∈ sites, d.initializedAt site.ptr = true → ∃ logged, Ledger site logged d

/-- A region whose log is up to its contents. -/
structure UpToDate (site : Site) (d : Device) : Prop where
  initialized : d.initializedAt site.ptr = true
  ledger : Ledger site (d.contents site) d

variable {sites : List Site}

theorem WellPlaced.ptr_ne (h : WellPlaced sites) {site site' : Site} (hsite : site ∈ sites)
    (hsite' : site' ∈ sites) (hne : site' ≠ site) :
    site'.ptr ≠ site.ptr ∧ site'.regionId ≠ site.regionId :=
  ⟨fun heq => hne (inj_on_of_nodup_map h.ptr_nodup hsite' hsite heq),
    fun heq => hne (inj_on_of_nodup_map h.regionId_nodup hsite' hsite heq)⟩

/-- A step at one region keeps the ledgers of the others. -/
theorem Inv.apart (h : Inv sites d) (hplaced : WellPlaced sites) (hsite : site ∈ sites)
    (hapart : Apart site d e)
    (hself : e.initializedAt site.ptr = true → ∃ logged, Ledger site logged e) : Inv sites e := by
  refine ⟨hapart.sites.trans h.sites_eq, fun site' hsite' hinit => ?_⟩
  by_cases heq : site' = site
  · subst heq
    exact hself hinit
  · obtain ⟨hptr, hid⟩ := hplaced.ptr_ne hsite hsite' heq
    rw [hapart.initializedAt_eq hptr] at hinit
    obtain ⟨logged, hledger⟩ := h.ledger site' hsite' hinit
    exact ⟨logged, hapart.ledger hptr hid hledger⟩

/-- After a base snapshot the log replays to the contents. -/
theorem ledger_of_base (hpaged : site.Paged) (happ : Appends site (range site.pageCount) d e)
    (hres : e.resources = update d.resources site.ptr (some (baseResources d site))) :
    Ledger site (e.contents site) e := by
  refine ⟨⟨e.length_contents _, fun base hbase => ?_⟩, ?_⟩
  · -- every page is written last by the base snapshot
    rw [happ.writesOf_self hpaged, overwriteAll_append, happ.contents_eq]
    refine overwriteAll_writePages_range pageSize_pos ?_ ?_
    · rw [length_overwriteAll, hbase, d.length_contents]
    · rw [d.length_contents]
      exact hpaged.size_eq.le
  · refine ⟨baseResources d site, ?_, fitting_baseResources d _, fun _ => ?_⟩
    · rw [hres]
      exact update_self ..
    · exact (happ.contents_eq _).symm

theorem wp_baseSnapshot (hplaced : WellPlaced d.sites) (hsite : site ∈ d.sites) :
    wp (initializeDeviceRegion fails site.ptr)
      (fun _ e => Apart site d e ∧ UpToDate site e)
      (fun _ e => Apart site d e ∧ e.initializedAt site.ptr = d.initializedAt site.ptr ∧
        ∃ op, fails op ≠ none) d := by
  obtain ⟨region, hregion, rfl⟩ := exists_region hplaced hsite
  have hpaged := hplaced.paged _ hsite
  refine wp_mono (wp_initializeDeviceRegion hregion hpaged) ?_ ?_
  · rintro _ e ⟨happ, hmanager, hres⟩
    have hapart : Apart region.site d e :=
      .of_appends happ (f := (·.markInitialized)) (fun _ => rfl)
        (.inr (by rw [hmanager])) (.inr ⟨_, hres⟩)
    refine ⟨hapart, ?_, ledger_of_base hpaged happ hres⟩
    have hkey : ∀ r : KimiTrackedRegion, r.markInitialized.ptr = r.ptr := fun _ => rfl
    rw [initializedAt, hmanager, d.manager.region_updateRegion hkey, hregion]
    rfl
  · rintro _ e ⟨hop, ⟨P, happ⟩, hmanager, hres⟩
    refine ⟨.of_appends happ (f := id) (fun _ => rfl) (.inl (by rw [hmanager])) (.inl hres), ?_,
      hop⟩
    rw [initializedAt, initializedAt, hmanager]

theorem wp_checkpointRegion (hplaced : WellPlaced sites) (hinv : Inv sites d) (hsite : site ∈ sites)
    (hsafe : d.safeAt fails site) :
    wp (checkpointRegion fails site.ptr)
      (fun _ e => Inv sites e ∧ Apart site d e ∧ UpToDate site e)
      (fun _ e => Inv sites e ∧ (site.bitmap = none → ∃ op, fails op ≠ none)) d := by
  obtain rfl := hinv.sites_eq
  obtain ⟨region, hregion, hregionSite⟩ := exists_region hplaced hsite
  have hinit : d.initializedAt site.ptr = region.initialized := by
    rw [initializedAt, hregion]
    rfl
  -- a scan from where log and shadow are together
  have hscan : ∀ {e logged}, Inv d.sites e → Apart site d e → Ledger site logged e →
      e.initializedAt site.ptr = true → e.safeAt fails site →
      wp (scanDeviceRegion fails site.ptr)
        (fun _ f => Inv d.sites f ∧ Apart site d f ∧ UpToDate site f)
        (fun _ f => Inv d.sites f ∧ (site.bitmap = none → ∃ op, fails op ≠ none)) e := by
    intro e logged hinv hapart hledger hinit hsafe
    have hplaced' : WellPlaced e.sites := hinv.sites_eq ▸ hplaced
    have hsite' : site ∈ e.sites := hinv.sites_eq ▸ hsite
    refine wp_mono (wp_scan hplaced' hsite' hledger hinit hsafe) ?_ ?_
    · rintro _ f ⟨hstep, hstill, hcurrent⟩
      refine ⟨hinv.apart hplaced hsite hstep fun _ => ⟨_, hcurrent⟩, hapart.trans hstep, hstill, ?_⟩
      rwa [hstep.contents_eq]
    · rintro _ f ⟨hstep, _, hsome, hop⟩
      exact ⟨hinv.apart hplaced hsite hstep fun _ => hsome, hop⟩
  simp only [checkpointRegion, wp_bind, wp_get, hregion]
  cases hcase : region.initialized with
  | true =>
    rw [hcase] at hinit
    obtain ⟨logged, hledger⟩ := hinv.ledger site hsite hinit
    exact hscan hinv (.refl _ _) hledger hinit hsafe
  | false =>
    rw [hcase] at hinit
    rw [if_neg Bool.false_ne_true, wp_bind]
    refine wp_mono (wp_baseSnapshot hplaced hsite) ?_ ?_
    · rintro _ e ⟨hapart, hcurrent⟩
      refine hscan (hinv.apart hplaced hsite hapart fun _ => ⟨_, hcurrent.ledger⟩) hapart
        hcurrent.ledger hcurrent.initialized ?_
      -- right after the base snapshot nothing differs
      intro _
      obtain ⟨res, hres, _, hshadow⟩ := hcurrent.ledger.resources
      cases hbitmap : site.bitmap with
      | none =>
        intro hne
        rw [hres] at hne
        exact absurd (congrArg some (hshadow hbitmap)) hne
      | some bitmap =>
        intro p _ hne
        rw [hcurrent.ledger.replayed_eq] at hne
        exact absurd rfl hne
    · rintro _ e ⟨hapart, hsame, hop⟩
      exact ⟨hinv.apart hplaced hsite hapart fun h => by simp [hsame, hinit] at h, fun _ => hop⟩

/-- A checkpoint brings every region up to date, or stops with every ledger kept. -/
theorem wp_checkpointDeviceRegions (hplaced : WellPlaced sites) (hinv : Inv sites d)
    (hsafe : ∀ site ∈ sites, d.safeAt fails site) :
    wp (checkpointDeviceRegions fails)
      (fun _ e => Inv sites e ∧ e.memory = d.memory ∧ ∀ site ∈ sites, UpToDate site e)
      (fun _ e => Inv sites e ∧
        ((∀ site ∈ sites, site.bitmap = none) → ∃ op, fails op ≠ none)) d := by
  have hptrs : d.manager.allocations.map ptr = sites.map Site.ptr := by
    rw [← hinv.sites_eq, Device.sites, map_map]
    rfl
  simp only [checkpointDeviceRegions, wp_bind, wp_get]
  rw [hptrs, foldlM_map]
  -- the regions done are up to date, the others still as safe as before
  refine wp_foldlM (fun done _ e => Inv sites e ∧ e.memory = d.memory ∧
      (∀ site ∈ done, UpToDate site e) ∧ ∀ site ∈ sites, site ∉ done → e.safeAt fails site)
    sites ?_ ⟨hinv, rfl, by simp, fun site hsite _ => hsafe site hsite⟩
    fun _ e h => ⟨h.1, h.2.1, h.2.2.1⟩
  rintro done site rest _ e hitems ⟨hinv, hmemory, hdone, hrest⟩
  have hsite : site ∈ sites := by simp [hitems]
  have hnodup : sites.Nodup := hplaced.ptr_nodup.of_map
  have hnew : site ∉ done := by
    rw [hitems, nodup_append] at hnodup
    exact fun h => hnodup.2.2 site h site mem_cons_self rfl
  refine wp_mono (wp_checkpointRegion hplaced hinv hsite (hrest site hsite hnew)) ?_
    fun _ _ h => ⟨h.1, fun hnone => h.2 (hnone site hsite)⟩
  rintro _ f ⟨hinv', hapart, hcurrent⟩
  refine ⟨hinv', hapart.memory.trans hmemory, ?_, ?_⟩
  · intro site' hsite'
    rcases mem_append.mp hsite' with hold | hlast
    · have hmem : site' ∈ sites := by simp [hitems, hold]
      obtain ⟨hptr, hid⟩ := hplaced.ptr_ne hsite hmem fun heq => hnew (heq ▸ hold)
      refine ⟨?_, ?_⟩
      · rw [hapart.initializedAt_eq hptr]
        exact (hdone site' hold).initialized
      · rw [hapart.contents_eq]
        exact hapart.ledger hptr hid (hdone site' hold).ledger
    · obtain rfl := mem_singleton.mp hlast
      exact hcurrent
  · intro site' hsite' hnot
    rw [mem_append, mem_singleton, not_or] at hnot
    obtain ⟨hptr, hid⟩ := hplaced.ptr_ne hsite hsite' hnot.2
    exact hapart.safeAt hptr hid (hrest site' hsite' hnot.1)

end

/-! ## Runs -/

/-- Kernels write device memory; checkpoints run with some operations failing. -/
inductive DeviceEvent where
  | kernel (memory : UInt64 → UInt8)
  | checkpoint (fails : Faults)

def Device.step (d : Device) : DeviceEvent → Device
  | .kernel memory => { d with memory := memory }
  | .checkpoint fails => ((checkpointDeviceRegions fails).exec d).2

theorem step_checkpoint {d e : Device} {fails : Faults} {result : Except String Unit}
    (h : (checkpointDeviceRegions fails).exec d = (result, e)) :
    d.step (.checkpoint fails) = e := by
  rw [step, h]

/-- Runs from a manager none of whose regions has a base snapshot yet. -/
def checkpoints : TSys Device DeviceEvent where
  init d := WellPlaced d.sites ∧ ∀ region ∈ d.manager.allocations, region.initialized = false
  step d event e := e = d.step event

/-- Where a call may fail. -/
def Device.safe (d : Device) : DeviceEvent → Prop
  | .kernel _ => True
  | .checkpoint fails => ∀ site ∈ d.sites, d.safeAt fails site

/-- Over any base of its size, the committed records of the region replay to its
contents. -/
def Restorable (d : Device) (region : KimiTrackedRegion) : Prop :=
  ∀ base : List UInt8, base.length = region.trackedSize →
    (readCommitted (encodeLog d.log)).map
      (fun records => overwriteAll base (writesOf region.regionId records)) =
        some (d.contents region.site)

/-- A kernel leaves log and buffers alone. -/
theorem Inv.kernel {sites : List Site} {d : Device} (h : Inv sites d) (memory : UInt64 → UInt8) :
    Inv sites { d with memory := memory } :=
  ⟨h.sites_eq, fun site hsite hinit => by
    obtain ⟨logged, hledger⟩ := h.ledger site hsite hinit
    exact ⟨logged, ⟨hledger.length, hledger.replay⟩, hledger.resources⟩⟩

theorem inv_of_reachable {d : Device}
    (hd : (checkpoints.restrict safe).Reachable d) :
    WellPlaced d.sites ∧ Inv d.sites d := by
  refine hd.induct (P := fun d => WellPlaced d.sites ∧ Inv d.sites d) ?_ ?_
  · rintro d ⟨hplaced, hfresh⟩
    refine ⟨hplaced, rfl, fun site hsite hinit => ?_⟩
    obtain ⟨region, hregion, _⟩ := exists_region hplaced hsite
    rw [initializedAt, hregion] at hinit
    have := hfresh region (mem_of_lookup hregion)
    simp [this] at hinit
  · rintro d event e ⟨hplaced, hinv⟩ ⟨hsafe, rfl⟩
    cases event with
    | kernel memory => exact ⟨hplaced, hinv.kernel memory⟩
    | checkpoint fails =>
      have hwp := wp_checkpointDeviceRegions hplaced hinv hsafe
      have hinv' : Inv d.sites (d.step (.checkpoint fails)) := by
        show Inv d.sites ((checkpointDeviceRegions fails).exec d).2
        cases hexec : (checkpointDeviceRegions fails).exec d with
        | mk result e =>
          cases result with
          | ok _ => exact (wp_of_ok hwp hexec).1
          | error _ => exact (wp_of_error hwp hexec).1
      rw [hinv'.sites_eq]
      exact ⟨hplaced, hinv'⟩

/-- **A checkpoint that ends loses nothing.** In every run of kernel writes and
checkpoints in which no call fails after a device scan found a page, and the
allocators' bitmaps mark what changed, a checkpoint that returns `Ok` leaves every
region restorable. -/
theorem checkpoint_restorable {d e : Device} {fails : Faults}
    (hd : (checkpoints.restrict safe).Reachable d) (hsafe : d.safe (.checkpoint fails))
    (hok : (checkpointDeviceRegions fails).exec d = (.ok (), e)) :
    ∀ region ∈ e.manager.allocations, region.initialized = true → Restorable e region := by
  obtain ⟨hplaced, hinv⟩ := inv_of_reachable hd
  obtain ⟨hinv', _, hcurrent⟩ := wp_of_ok (wp_checkpointDeviceRegions hplaced hinv hsafe) hok
  intro region hmem _ base hbase
  have hsite : region.site ∈ d.sites := by
    rw [← hinv'.sites_eq]
    exact mem_map_of_mem hmem
  rw [readCommitted_encodeLog]
  exact congrArg some ((hcurrent _ hsite).ledger.replay base hbase)

/-- Nothing fails. -/
def noFaults : Faults := fun _ => none

/-- Without allocators, a checkpoint in which nothing fails returns `Ok`. -/
theorem checkpoint_ok {d : Device} (hplaced : WellPlaced d.sites) (hinv : Inv d.sites d)
    (hnone : ∀ site ∈ d.sites, site.bitmap = none) :
    ∃ e, (checkpointDeviceRegions noFaults).exec d = (.ok (), e) ∧ e.sites = d.sites ∧
      e.memory = d.memory ∧ ∀ site ∈ d.sites, UpToDate site e := by
  have hsafe : ∀ site ∈ d.sites, d.safeAt noFaults site := by
    intro site hsite _
    rw [hnone site hsite]
    exact fun _ _ _ => rfl
  obtain ⟨_, e, hexec, hinv', hmemory, hcurrent⟩ := exists_ok_of_wp (wp_mono
    (wp_checkpointDeviceRegions hplaced hinv hsafe) (fun _ _ h => h) fun _ _ h => by
      obtain ⟨op, hop⟩ := h.2 hnone
      exact hop rfl)
  exact ⟨e, hexec, hinv'.sites_eq, hmemory, hcurrent⟩

/-! ## A page lost -/

section

variable {fails : Faults} {region : KimiTrackedRegion} {d : Device}

theorem region_single (h : d.manager.allocations = [region]) :
    d.manager.region region.ptr = some region := by
  rw [KimiConcordiaManager.region, h, lookup_cons, if_pos rfl]

/-- With one region, a checkpoint is a scan of it. -/
theorem wp_checkpoint_single (hsingle : d.manager.allocations = [region])
    (hinit : region.initialized = true) {Q : Unit → Device → Prop} {E : String → Device → Prop}
    (h : wp (scanDeviceRegion fails region.ptr) Q E d) :
    wp (checkpointDeviceRegions fails) Q E d := by
  simp only [checkpointDeviceRegions, wp_bind, wp_get, hsingle, map_cons, map_nil,
    foldlM_cons, foldlM_nil, checkpointRegion, region_single hsingle, hinit, if_true, wp_pure]
  exact h

theorem ne_nil_dirtyPages {site : Site} (hpaged : site.Paged) {shadow contents : List UInt8}
    (hshadow : shadow.length = site.trackedSize) (hcontents : contents.length = site.trackedSize)
    (hne : shadow ≠ contents) : ∃ p, p ∈ dirtyPages site shadow contents := by
  by_contra hnone
  rw [not_exists] at hnone
  refine hne (eq_of_pages pageSize_pos fun p => ?_)
  by_cases hp : p < site.pageCount
  · by_contra hpage
    exact hnone p (mem_filter.mpr ⟨mem_range.mpr hp, by simpa using hpage⟩)
  · exact hpaged.page_eq hshadow hcontents hp

/-- If staging fails once a scan has found a page, the shadow moves on without
the log: the next checkpoint finds nothing to do, and returns `Ok`. -/
theorem page_lost (hsingle : d.manager.allocations = [region]) (hinit : region.initialized = true)
    (halloc : region.allocator = none) (hpaged : region.site.Paged) {logged : List UInt8}
    (hledger : Ledger region.site logged d) (hne : logged ≠ d.contents region.site)
    (hstage : ∀ offset, fails (.enqueueStage region.ptr offset) ≠ none)
    (honly : ∀ op, fails op ≠ none → op.afterScan region.ptr = true) :
    ∃ e, (checkpointDeviceRegions noFaults).exec (d.step (.checkpoint fails)) = (.ok (), e) ∧
      e.manager.allocations = [region] ∧ ¬ Restorable e region := by
  have hbitmap : region.site.bitmap = none := by simp [site, halloc]
  obtain ⟨res, hres, hfit, hshadow⟩ := hledger.resources
  obtain rfl := hshadow hbitmap
  -- the failed call
  have hfailed : wp (checkpointDeviceRegions fails) (fun _ _ => False)
      (fun _ e => e.manager = d.manager ∧
        Touches region.site res [] (d.contents region.site) d e) d := by
    refine wp_checkpoint_single hsingle hinit
      (wp_mono (wp_scanDeviceRegion_none (region_single hsingle) hpaged hres hfit halloc) ?_ ?_)
    · rintro _ e ⟨_, hstaged, _⟩
      obtain ⟨p, hp⟩ := ne_nil_dirtyPages hpaged hfit.shadow (d.length_contents _) hne
      exact hstage _ (hstaged p hp)
    · rintro _ e ⟨hmanager, op, hop, ⟨hbefore, _⟩ | ⟨_, P, hstaged, h⟩⟩
      · rw [honly op hop] at hbefore
        cases hbefore
      · cases P with
        | nil => exact ⟨hmanager, h⟩
        | cons p P => exact absurd (hstaged p mem_cons_self) (hstage _)
  obtain ⟨err, d', hexec, hmanager, htouches⟩ := exists_error_of_wp hfailed
  have hstep : d.step (.checkpoint fails) = d' := step_checkpoint hexec
  obtain ⟨bitmap, hbitmapLen, hresources⟩ := htouches.resources
  have hsingle' : d'.manager.allocations = [region] := by rw [hmanager, hsingle]
  have hcontents' : d'.contents region.site = d.contents region.site :=
    htouches.appends.contents_eq _
  have hres' : d'.resources region.ptr =
      some { res with shadow := d.contents region.site, bitmap := bitmap } := by
    rw [hresources]
    exact update_self ..
  -- the next one
  have hnext : wp (checkpointDeviceRegions noFaults)
      (fun _ e => e.manager = d'.manager ∧ e.memory = d'.memory ∧ e.log = d'.log)
      (fun _ _ => False) d' := by
    refine wp_checkpoint_single hsingle' hinit
      (wp_mono (wp_scanDeviceRegion_none (region_single hsingle') hpaged hres'
        ⟨d.length_contents _, hbitmapLen.trans hfit.bitmap, hfit.staging⟩ halloc) ?_ ?_)
    · rintro _ e ⟨hmanager', _, h⟩
      have hclean : dirtyPages region.site (d.contents region.site) (d'.contents region.site) =
          [] := by
        rw [dirtyPages, filter_eq_nil_iff, hcontents']
        simp
      obtain ⟨epoch, hlog⟩ := h.appends.log
      rw [show ({ res with shadow := d.contents region.site, bitmap := bitmap } :
        DeviceCheckpointResources).shadow = d.contents region.site from rfl, hclean] at hlog
      exact ⟨hmanager', h.appends.memory, by simpa [pageRecords] using hlog⟩
    · rintro _ e ⟨_, op, hop, _⟩
      exact hop rfl
  obtain ⟨_, e, hexec', hmanager', hmemory', hlog'⟩ := exists_ok_of_wp hnext
  refine ⟨e, hstep ▸ hexec', by rw [hmanager', hsingle'], fun hrestorable => hne ?_⟩
  -- the log still says what it said before the kernel ran
  have hlog : e.log = d.log := by
    obtain ⟨epoch, hlog⟩ := htouches.appends.log
    rw [hlog', hlog]
    simp [pageRecords]
  have hreplay := hrestorable (replicate region.trackedSize 0) length_replicate
  rw [readCommitted_encodeLog, hlog] at hreplay
  rw [← contents_congr (hmemory'.trans htouches.appends.memory), ← Option.some.inj hreplay]
  exact (hledger.replay _ length_replicate).symm

end

/-- A manager with one page, not checkpointed yet; memory is zero. -/
def onePage : Device where
  manager := (new
    { enabled := true, restoreEnabled := false, minAllocationBytes := pageSize, maxRegions := 1 }
    none).step (.allocation 0x1000 pageSize)
  resources _ := none
  memory _ := 0
  nextEpoch := 1
  worker := false
  log := []

/-- A kernel wrote the first byte of the page. -/
def writtenMemory (addr : UInt64) : UInt8 := if addr = 0x1000 then 1 else 0

/-- The worker takes no staging task. -/
def stagingFails : Faults
  | .enqueueStage 0x1000 _ => some "enqueue AOF staging copy failed for region 1"
  | _ => none

def pageSite : Site where
  ptr := 0x1000
  regionId := 1
  trackedSize := pageSize
  bitmap := none

theorem eq_pageSite {sites : List Site} (hsites : sites = [pageSite]) {site : Site}
    (hsite : site ∈ sites) : site = pageSite := by
  rw [hsites] at hsite
  exact mem_singleton.mp hsite

theorem onePage_init : onePage.sites = [pageSite] ∧ checkpoints.init onePage := by
  have hsites : onePage.sites = [pageSite] := by decide +kernel
  refine ⟨hsites, ⟨?_, ?_, ?_⟩, by decide +kernel⟩
  · simp [hsites]
  · simp [hsites]
  · intro site hsite
    obtain rfl := eq_pageSite hsites hsite
    exact ⟨by decide, by decide⟩

/-- The first checkpoint of the page, and a kernel. -/
def writtenPage : Device := (onePage.step (.checkpoint noFaults)).step (.kernel writtenMemory)

/-- The page is logged as it was, and differs from that now. -/
theorem writtenPage_spec : ∃ region : KimiTrackedRegion,
    writtenPage.manager.allocations = [region] ∧ region.site = pageSite ∧
    region.initialized = true ∧ ∃ logged, Ledger pageSite logged writtenPage ∧
      logged ≠ writtenPage.contents pageSite := by
  obtain ⟨hplaced, hinv⟩ := inv_of_reachable (d := onePage) (.init onePage_init.2)
  obtain ⟨d, hexec, hsites, hmemory, hcurrent⟩ := checkpoint_ok hplaced hinv fun site hsite => by
    rw [eq_pageSite onePage_init.1 hsite]
    rfl
  rw [onePage_init.1] at hsites hcurrent
  have hcurrent := hcurrent pageSite mem_cons_self
  rw [writtenPage, step_checkpoint hexec, step]
  obtain ⟨region, hregion, hsite⟩ := map_eq_singleton_iff.mp hsites
  refine ⟨region, hregion, hsite, ?_, d.contents pageSite, ?_, ?_⟩
  · have hinit := hcurrent.initialized
    rwa [← hsite, initializedAt, show region.site.ptr = region.ptr from rfl,
      region_single hregion] at hinit
  · exact ⟨⟨hcurrent.ledger.length, hcurrent.ledger.replay⟩, hcurrent.ledger.resources⟩
  · intro heq
    have hbyte := congrArg (·[0]?) heq
    have hzero : 0 < pageSite.trackedSize := by decide
    simp only [getElem?_contents _ hzero, hmemory, Option.some.injEq] at hbyte
    exact absurd hbyte (by decide)

theorem writtenPage_reachable : (checkpoints.restrict safe).Reachable writtenPage := by
  obtain ⟨hsites, hinit⟩ := onePage_init
  have hnew : onePage.initializedAt pageSite.ptr = false := by decide +kernel
  have hsafe : onePage.safe (.checkpoint noFaults) := by
    intro site hsite h
    obtain rfl := eq_pageSite hsites hsite
    simp [hnew] at h
  have hkernel : (onePage.step (.checkpoint noFaults)).safe (.kernel writtenMemory) := trivial
  exact .step (.step (.init hinit) ⟨hsafe, rfl⟩) ⟨hkernel, rfl⟩

theorem checkpoint_restorable_writtenPage : ∃ e : Device,
    (checkpointDeviceRegions noFaults).exec writtenPage = (.ok (), e) ∧
    ∀ region ∈ e.manager.allocations, region.initialized = true → Restorable e region := by
  obtain ⟨region, hregion, hsite, _⟩ := writtenPage_spec
  have hsites : writtenPage.sites = [pageSite] := by rw [Device.sites, hregion, ← hsite]; rfl
  have hnone : ∀ site ∈ writtenPage.sites, site.bitmap = none := by
    intro site hmem
    rw [eq_pageSite hsites hmem]
    rfl
  obtain ⟨hplaced, hinv⟩ := inv_of_reachable writtenPage_reachable
  obtain ⟨e, hexec, _⟩ := checkpoint_ok hplaced hinv hnone
  refine ⟨e, hexec, checkpoint_restorable writtenPage_reachable (fun site hmem _ => ?_) hexec⟩
  rw [hnone site hmem]
  exact fun _ _ _ => rfl

def lostPage : Device := writtenPage.step (.checkpoint stagingFails)

/-- **A page lost.** The scan of the second checkpoint has copied the page into
the shadow when staging fails. The third finds nothing dirty and returns `Ok`,
and the log still has the page as the first one saw it. -/
theorem checkpoint_loses_page : checkpoints.Reachable lostPage ∧ ∃ e,
    (checkpointDeviceRegions noFaults).exec lostPage = (.ok (), e) ∧
    ∃ region ∈ e.manager.allocations, region.initialized = true ∧ ¬ Restorable e region := by
  obtain ⟨region, hregion, hsite, hinit, logged, hledger, hne⟩ := writtenPage_spec
  have hptr : region.ptr = 0x1000 := congrArg Site.ptr hsite
  have halloc : region.allocator = none := Option.map_eq_none_iff.mp (congrArg Site.bitmap hsite)
  refine ⟨.step (.step (.step (.init onePage_init.2) rfl) rfl) rfl, ?_⟩
  have honly : ∀ op, stagingFails op ≠ none → op.afterScan region.ptr = true := by
    intro op hop
    unfold stagingFails at hop
    split at hop
    · simp [DeviceOp.afterScan, hptr]
    · exact absurd rfl hop
  have hpaged : region.site.Paged := hsite ▸ onePage_init.2.1.paged pageSite (by
    rw [onePage_init.1]
    exact mem_singleton_self _)
  rw [← hsite] at hledger hne
  obtain ⟨e, hexec, hsingle, hlost⟩ := page_lost hregion hinit halloc hpaged hledger hne
    (fun _ => by simp [stagingFails, hptr]) honly
  exact ⟨e, hexec, region, by simp [hsingle], hinit, hlost⟩

end Concordia.Kimi
