import Concordia.Kimi.Relocation
import Concordia.Kimi.Checkpoint

/-!
# Restoring a paged region

A kv-cache region's block table maps logical pages to physical ones. A restore
writes every logged page of the region to the physical page that the new table
has for it, by way of the saved table. The base snapshot logs all physical pages,
so this works exactly when the saved table lists all of them, or is empty and the
pages keep their places (`kvRestore_iff`). A page in no block makes the whole
restore fail (`kvRestore_unlisted_page`).
-/

namespace Concordia.Kimi

open Concordia.Lib Concordia.Lib.FallibleM Concordia.Aof Concordia.Delta List Nat KimiTrackedRegion
open KimiConcordiaManager

/-! ## Logging a region -/

/-- Distinct physical pages of the region. -/
structure Tabled (site : Site) (table : List UInt32) : Prop where
  nodup : table.Nodup
  lt_pageCount : ∀ entry ∈ table, entry.toNat < site.pageCount

def bytesAt (memory : UInt64 → UInt8) (addr : UInt64) (len : Nat) : List UInt8 :=
  (range len).map fun i => memory (addr + UInt64.ofNat i)

/-- The dirty bitmap marks every page that changed. -/
def MarksChanges (site : Site) (before after : UInt64 → UInt8) : Prop :=
  ∀ p < site.pageCount, page pageSize (bytesAt before site.ptr site.trackedSize) p ≠
      page pageSize (bytesAt after site.ptr site.trackedSize) p →
    ∃ bitmap, site.bitmap = some bitmap ∧ bitmapMarks (bytesAt after bitmap.1 bitmap.2) p = true

/-- A base snapshot, and a scan after each of the given changes of memory. -/
def logRegion (ptr : UInt64) (memories : List (UInt64 → UInt8)) : DeviceM Unit := do
  initializeDeviceRegion noFaults ptr
  memories.foldlM (fun _ memory => do
    modify fun d => { d with memory := memory }
    scanDeviceRegion noFaults ptr) ()

/-- The block table the manifest keeps for the region. -/
def Device.savedTable (d : Device) (ptr : UInt64) : List UInt32 :=
  ((d.manager.region ptr).bind allocator).elim [] (·.blockTableSnapshot)

open Device

/-- The log of a region: whole pages, each of them at least once, that replay to
the contents. -/
structure Written (site : Site) (d : Device) : Prop where
  mirrors : Mirrors d.manager
  ids : (d.manager.allocations.map regionId).Nodup
  region : ∃ region, d.manager.region site.ptr = some region ∧ region.site = site
  ledger : Ledger site (d.contents site) d
  writes : ∃ W, writesOf site.regionId d.log = placePages pageSize id W ∧
    (∀ w ∈ W, w.1 < site.pageCount ∧ w.2.length = pageSize) ∧
    ∀ p < site.pageCount, p ∈ W.map Prod.fst

/-- A region as its first process starts to log it. -/
structure Loggable (site : Site) (d : Device) : Prop where
  mirrors : Mirrors d.manager
  ids : (d.manager.allocations.map regionId).Nodup
  region : ∃ region, d.manager.region site.ptr = some region ∧ region.site = site
  paged : site.Paged
  /-- an allocator is registered -/
  bitmap : site.bitmap ≠ none
  fresh : ∀ record ∈ d.log, record.regionId ≠ site.regionId

variable {m : KimiConcordiaManager}

section

variable {site : Site} {d e : Device}

theorem length_page_contents (hpaged : site.Paged) {p : Nat} (hp : p < site.pageCount) :
    (page pageSize (d.contents site) p).length = pageSize := by
  have := hpaged.offset_lt hp
  rw [length_page, d.length_contents]
  omega

theorem writes_of_appends (hpaged : site.Paged) {P : List Nat} (happ : Appends site P d e)
    {W : List (Nat × List UInt8)} (hW : writesOf site.regionId d.log = placePages pageSize id W)
    (hpages : ∀ w ∈ W, w.1 < site.pageCount ∧ w.2.length = pageSize) :
    ∃ W', writesOf site.regionId e.log = placePages pageSize id (W ++ W') ∧
      (∀ w ∈ W ++ W', w.1 < site.pageCount ∧ w.2.length = pageSize) ∧ W'.map Prod.fst = P := by
  refine ⟨P.map fun p => (p, page pageSize (d.contents site) p), ?_, ?_, ?_⟩
  · rw [happ.writesOf_self hpaged, hW, placePages, placePages, map_append, map_map]
    rfl
  · intro w hw
    rcases mem_append.mp hw with hw | hw
    · exact hpages w hw
    · obtain ⟨p, hp, rfl⟩ := mem_map.mp hw
      exact ⟨happ.lt_pageCount p hp, length_page_contents hpaged (happ.lt_pageCount p hp)⟩
  · rw [map_map]
    exact map_id _

theorem Mirrors.updateRegion (h : Mirrors m) {ptr : UInt64}
    {f : KimiTrackedRegion → KimiTrackedRegion} (hf : ∀ r, (f r).spec = r.spec) :
    Mirrors (m.updateRegion ptr f) := by
  have hkey : ∀ r, (f r).ptr = r.ptr := fun r => congrArg KimiRegionSpec.ptr (hf r)
  refine ⟨?_, ?_⟩
  · rw [m.map_updateRegion hkey]
    exact h.nodup
  · rw [m.map_updateRegion hf]
    exact h.perm

/-- The base snapshot. -/
theorem wp_logBase (h : Loggable site d) :
    wp (initializeDeviceRegion noFaults site.ptr)
      (fun _ e => Written site e ∧ e.memory = d.memory) (fun _ _ => True) d := by
  obtain ⟨region, hregion, rfl⟩ := h.region
  have hpaged := h.paged
  refine wp_mono (wp_initializeDeviceRegion hregion hpaged) ?_ fun _ _ _ => trivial
  rintro _ e ⟨happ, hmanager, hres⟩
  obtain ⟨W, hW, hpages, hfst⟩ := writes_of_appends hpaged happ (W := []) (by
    rw [writesOf_eq_nil h.fresh]; rfl) (by simp)
  have hkey : ∀ r : KimiTrackedRegion, r.markInitialized.ptr = r.ptr := fun _ => rfl
  refine ⟨⟨?_, ?_, ?_, ledger_of_base hpaged happ hres, W, hW, hpages, ?_⟩, happ.memory⟩
  · rw [hmanager]
    exact h.mirrors.updateRegion fun _ => rfl
  · have hid : ∀ r : KimiTrackedRegion, r.markInitialized.regionId = r.regionId := fun _ => rfl
    rw [hmanager, d.manager.map_updateRegion hid]
    exact h.ids
  · exact ⟨region.markInitialized,
      by rw [hmanager, d.manager.region_updateRegion hkey, hregion]; rfl,
      rfl⟩
  · intro p hp
    rw [hfst]
    exact mem_range.mpr hp

/-- Reading the block table keeps the mirror and the entries' places. -/
theorem snapshotManager_spec (hmirrors : Mirrors d.manager) {region : KimiTrackedRegion}
    (hregion : d.manager.region site.ptr = some region) (metadata : KimiAllocatorMetadata) :
    Mirrors (d.snapshotManager site.ptr metadata) ∧
      (d.snapshotManager site.ptr metadata).allocations.map regionId =
        d.manager.allocations.map regionId ∧
      ∃ region', (d.snapshotManager site.ptr metadata).region site.ptr = some region' ∧
        region'.site = region.site := by
  have hsite : ∀ r : KimiTrackedRegion, (r.withSnapshot (d.blockTable metadata)).site = r.site := by
    intro r
    simp only [KimiTrackedRegion.site, KimiTrackedRegion.withSnapshot, Option.map_map]
    rfl
  have hkey : ∀ r : KimiTrackedRegion,
      (r.withSnapshot (d.blockTable metadata)).ptr = r.ptr := fun _ => rfl
  have hid : ∀ r : KimiTrackedRegion,
      (r.withSnapshot (d.blockTable metadata)).regionId = r.regionId := fun _ => rfl
  unfold snapshotManager
  split
  · exact ⟨hmirrors, rfl, region, hregion, rfl⟩
  · refine ⟨(puts_updateRegion hmirrors hregion _ (hkey region)).1.mirrors, ?_, _, ?_,
      hsite region⟩
    · rw [upsertManifestForPtr_allocations, d.manager.map_updateRegion hid]
    · rw [region_congr
        (upsertManifestForPtr_allocations _ _),
        d.manager.region_updateRegion hkey, hregion]
      rfl

/-- A scan after memory has changed. -/
theorem wp_logScan (h : Written site d) (hpaged : site.Paged) (hbitmap : site.bitmap ≠ none)
    {memory : UInt64 → UInt8} (hmarks : MarksChanges site d.memory memory) :
    wp (scanDeviceRegion noFaults site.ptr)
      (fun _ e => Written site e ∧ e.memory = memory) (fun _ _ => True)
      { d with memory := memory } := by
  generalize hd' : ({ d with memory := memory } : Device) = d'
  have hmemory : d'.memory = memory := hd' ▸ rfl
  have hmanager : d'.manager = d.manager := hd' ▸ rfl
  have hlog : d'.log = d.log := hd' ▸ rfl
  have hresources : d'.resources = d.resources := hd' ▸ rfl
  obtain ⟨region, hregion, hsite⟩ := h.region
  rw [← hmanager] at hregion
  obtain ⟨res, hres, hfit, _⟩ := h.ledger.resources
  rw [← hresources] at hres
  obtain ⟨W, hW, hpages, hall⟩ := h.writes
  rw [← hlog] at hW
  have hlogged : LoggedAs site (d.contents site) d' :=
    ⟨h.ledger.length, fun base hbase => hlog ▸ h.ledger.replay base hbase⟩
  subst hsite
  obtain ⟨metadata, halloc⟩ : ∃ metadata, region.allocator = some metadata :=
    Option.ne_none_iff_exists'.mp fun hnone => hbitmap (by simp [site, hnone])
  have hmarked : region.site.bitmap =
      some (metadata.dirtyBitmapPtr, metadata.dirtyBitmapBytes) := by
    simp [site, halloc]
  by_cases hzero : region.site.pageCount = 0
  · -- no pages: nothing to scan, and nothing changed
    rw [wp_scanDeviceRegion_zero hregion hres hzero]
    have hsize : region.site.trackedSize = 0 := by rw [hpaged.size_eq, hzero, zero_mul]
    have hsame : d'.contents region.site = d.contents region.site := by
      rw [eq_nil_of_length_eq_zero ((d'.length_contents _).trans hsize),
        eq_nil_of_length_eq_zero ((d.length_contents _).trans hsize)]
    refine ⟨⟨hmanager ▸ h.mirrors, hmanager ▸ h.ids, ⟨region, hregion, rfl⟩, ?_, W, hW, hpages,
      hall⟩, hmemory⟩
    rw [hsame]
    exact ⟨hlogged, res, hres, hfit, fun hnone => absurd hnone hbitmap⟩
  refine wp_mono (wp_scanDeviceRegion_some hregion hpaged hres hfit halloc hzero) ?_
    fun _ _ _ => trivial
  rintro _ e ⟨hmanager', shadow, hlength, htouches⟩
  obtain ⟨W', hW', hpages', _⟩ := writes_of_appends hpaged htouches.appends hW hpages
  obtain ⟨hmirrors, hids, region', hregion', hsite'⟩ :=
    snapshotManager_spec (hmanager ▸ h.mirrors) hregion metadata
  refine ⟨⟨hmanager' ▸ hmirrors, ?_, ⟨region', hmanager' ▸ hregion', hsite'⟩, ?_, W ++ W', hW',
    hpages', ?_⟩, htouches.appends.memory.trans hmemory⟩
  · rw [hmanager', hids, hmanager]
    exact h.ids
  · rw [htouches.appends.contents_eq]
    refine htouches.ledger hfit hlength ?_ fun hnone => absurd hnone hbitmap
    refine hlogged.current hpaged htouches.appends fun p hp hne => ?_
    obtain ⟨bitmap, hsome, hmark⟩ := hmarks p hp (by
      rw [← hmemory]
      exact hne)
    obtain rfl := Option.some.inj (hmarked.symm.trans hsome)
    refine mem_filter.mpr ⟨mem_range.mpr hp, ?_⟩
    rw [← hmemory] at hmark
    exact hmark
  · intro p hp
    rw [map_append]
    exact mem_append_left _ (hall p hp)

/-- The log of a region after its base snapshot and any number of scans. -/
theorem Loggable.written (h : Loggable site d) {memories : List (UInt64 → UInt8)}
    (hmarks : (d.memory :: memories).IsChain (MarksChanges site))
    (hrun : (logRegion site.ptr memories).exec d = (.ok (), e)) : Written site e := by
  have hscans : ∀ memories d, Written site d → (d.memory :: memories).IsChain (MarksChanges site) →
      wp (memories.foldlM (fun _ memory => do
          modify fun d => { d with memory := memory }
          scanDeviceRegion noFaults site.ptr) ())
        (fun _ e => Written site e) (fun _ _ => True) d := by
    intro memories
    induction memories with
    | nil => exact fun d h _ => h
    | cons memory memories ih =>
      intro d hwritten hmarks
      rw [isChain_cons_cons] at hmarks
      rw [foldlM_cons, wp_bind, wp_bind, wp_modify]
      refine wp_mono (wp_logScan hwritten h.paged h.bitmap hmarks.1) ?_ fun _ _ _ => trivial
      rintro _ e ⟨hwritten, hmemory⟩
      exact ih e hwritten (hmemory ▸ hmarks.2)
  have hlog : wp (logRegion site.ptr memories) (fun _ e => Written site e) (fun _ _ => True) d := by
    rw [logRegion, wp_bind]
    refine wp_mono (wp_logBase h) ?_ fun _ _ _ => trivial
    rintro _ e ⟨hwritten, hmemory⟩
    exact hscans memories e hwritten (hmemory ▸ hmarks)
  have hok := wp_of_ok hlog hrun
  exact hok

end

/-! ## Where a page goes -/

/-- The place the new table has for physical page `p` of the saved one. -/
def placeOf (saved new : List UInt32) (p : Nat) : Nat :=
  match saved.findIdx? (·.toNat = p) with
  | some l => (new.getD l 0).toNat
  | none => p

/-- The saved table has no entries, or one for `p`. -/
def Listed (saved : List UInt32) (p : Nat) : Prop := saved = [] ∨ p ∈ saved.map UInt32.toNat

section

variable {site : Site} {saved new : List UInt32} {p : Nat}

theorem placeOf_nil (new : List UInt32) (p : Nat) : placeOf [] new p = p := rfl

/-- The place of a listed page is the entry of the new table in the same row. -/
theorem placeOf_spec (hnonempty : saved ≠ []) (hlen : saved.length ≤ new.length)
    (h : Listed saved p) : ∃ l old fresh, saved.findIdx? (·.toNat = p) = some l ∧
      saved[l]? = some old ∧ old.toNat = p ∧ new[l]? = some fresh ∧
      placeOf saved new p = fresh.toNat := by
  obtain ⟨entry, hmem, hentry⟩ := mem_map.mp (h.resolve_left hnonempty)
  cases hfind : saved.findIdx? (·.toNat = p) with
  | none =>
    have := findIdx?_eq_none_iff.mp hfind entry hmem
    simp [hentry] at this
  | some l =>
    obtain ⟨hl, hp, _⟩ := findIdx?_eq_some_iff_getElem.mp hfind
    have hnew : new[l]? = some new[l] := getElem?_eq_getElem (by omega)
    refine ⟨l, saved[l], new[l], rfl, getElem?_eq_getElem hl, of_decide_eq_true hp, hnew, ?_⟩
    rw [placeOf, hfind]
    simp [getD_eq_getElem?_getD, hnew]

theorem placeOf_entry (hnodup : saved.Nodup) (hlen : saved.length ≤ new.length) {l : Nat}
    {old fresh : UInt32} (hold : saved[l]? = some old) (hfresh : new[l]? = some fresh) :
    placeOf saved new old.toNat = fresh.toNat := by
  have hmem : old ∈ saved := mem_of_getElem? hold
  obtain ⟨l', old', fresh', _, hold', heq, hfresh', hplace⟩ :=
    placeOf_spec (ne_nil_of_mem hmem) hlen (.inr (mem_map_of_mem hmem))
  obtain rfl := UInt32.toNat_inj.mp heq
  obtain ⟨hl, _⟩ := List.getElem?_eq_some_iff.mp hold
  obtain rfl : l = l' := (List.getElem?_inj hl hnodup).mp (hold.trans hold'.symm)
  rw [hplace, Option.some.inj (hfresh'.symm.trans hfresh)]

theorem placeOf_inj (hnodup : new.Nodup) (hlen : saved.length ≤ new.length) {q : Nat}
    (hp : Listed saved p) (hq : Listed saved q) (heq : placeOf saved new p = placeOf saved new q) :
    p = q := by
  by_cases hnonempty : saved = []
  · subst hnonempty
    exact heq
  obtain ⟨l, old, fresh, _, hold, rfl, hfresh, hplace⟩ := placeOf_spec hnonempty hlen hp
  obtain ⟨l', old', fresh', _, hold', rfl, hfresh', hplace'⟩ := placeOf_spec hnonempty hlen hq
  have hentry : fresh = fresh' := UInt32.toNat_inj.mp (hplace ▸ hplace' ▸ heq)
  obtain ⟨hl, _⟩ := List.getElem?_eq_some_iff.mp hfresh
  obtain rfl : l = l' :=
    (List.getElem?_inj hl hnodup).mp (hfresh.trans (hentry ▸ hfresh'.symm))
  rw [Option.some.inj (hold.symm.trans hold')]

theorem placeOf_lt (hnew : Tabled site new) (hlen : saved.length ≤ new.length)
    (hp : Listed saved p) (hlt : p < site.pageCount) : placeOf saved new p < site.pageCount := by
  by_cases hnonempty : saved = []
  · subst hnonempty
    exact hlt
  obtain ⟨l, old, fresh, _, _, _, hfresh, hplace⟩ := placeOf_spec hnonempty hlen hp
  rw [hplace]
  exact hnew.lt_pageCount fresh (mem_of_getElem? hfresh)

variable {old fresh : KimiAllocatorMetadata}

/-- A record of a page in no block is refused. -/
theorem translateKvRestoreOffset_of_not_listed
    (hlen : old.blockTableSnapshot.length ≤ fresh.blockTableSnapshot.length)
    (hp : ¬ Listed old.blockTableSnapshot p) :
    ∃ err, translateKvRestoreOffset (p * pageSize) old fresh = .error err := by
  obtain ⟨hnonempty, hnot⟩ := not_or.mp hp
  have hfresh : fresh.blockTableSnapshot ≠ [] := by
    intro hnil
    rw [hnil] at hlen
    exact hnonempty (eq_nil_of_length_eq_zero (le_zero.mp hlen))
  have hfind : old.blockTableSnapshot.findIdx? (·.toNat = p) = none := by
    rw [findIdx?_eq_none_iff]
    intro entry hmem
    exact decide_eq_false fun heq => hnot (mem_map.mpr ⟨entry, hmem, heq⟩)
  unfold translateKvRestoreOffset
  simp only [List.isEmpty_iff, hnonempty, hfresh, or_self, if_false,
    Nat.mul_div_cancel p pageSize_pos, hfind]
  exact ⟨_, rfl⟩

/-- An entry of a table times the page size does not leave 64 bits. -/
theorem entry_offset_lt (entry : UInt32) (offset : Nat) :
    entry.toNat * pageSize + offset % pageSize < 2 ^ 64 := by
  have hentry := entry.toNat_lt
  have hmod := mod_lt offset pageSize_pos
  simp only [pageSize] at hmod ⊢
  omega

/-- An offset in a listed page keeps its distance from the start of the page. -/
theorem translateKvRestoreOffset_eq {offset : Nat}
    (hlen : old.blockTableSnapshot.length ≤ fresh.blockTableSnapshot.length)
    (hpage : offset / pageSize ∈ old.blockTableSnapshot.map UInt32.toNat) :
    translateKvRestoreOffset offset old fresh =
      .ok (placeOf old.blockTableSnapshot fresh.blockTableSnapshot (offset / pageSize) * pageSize +
        offset % pageSize) := by
  have hnonempty : old.blockTableSnapshot ≠ [] := by
    intro hnil
    simp [hnil] at hpage
  obtain ⟨l, _, entry, hfind, _, _, hentry, hplace⟩ := placeOf_spec hnonempty hlen (.inr hpage)
  have hfresh : fresh.blockTableSnapshot ≠ [] := by
    intro hnil
    simp [hnil] at hentry
  unfold translateKvRestoreOffset
  simp only [List.isEmpty_iff, hnonempty, hfresh, or_self, if_false, hfind, hentry, hplace,
    if_pos (entry_offset_lt entry offset)]

/-- A record of a listed page goes to that page's place. -/
theorem translateKvRestoreOffset_of_listed
    (hlen : old.blockTableSnapshot.length ≤ fresh.blockTableSnapshot.length)
    (hp : Listed old.blockTableSnapshot p) :
    translateKvRestoreOffset (p * pageSize) old fresh =
      .ok (placeOf old.blockTableSnapshot fresh.blockTableSnapshot p * pageSize) := by
  have hdiv : p * pageSize / pageSize = p := Nat.mul_div_cancel p pageSize_pos
  by_cases hnonempty : old.blockTableSnapshot = []
  · unfold translateKvRestoreOffset
    simp [hnonempty, placeOf_nil]
  · have hpage : p * pageSize / pageSize ∈ old.blockTableSnapshot.map UInt32.toNat := by
      rw [hdiv]
      exact hp.resolve_left hnonempty
    rw [translateKvRestoreOffset_eq hlen hpage, hdiv, mul_mod_left, add_zero]

/-- The place of a listed page is a page of the other table, and from there the
way back leads to it. -/
theorem placeOf_placeOf (hlen : saved.length = new.length) (hnodup : new.Nodup)
    (hp : p ∈ saved.map UInt32.toNat) :
    placeOf saved new p ∈ new.map UInt32.toNat ∧ placeOf new saved (placeOf saved new p) = p := by
  have hnonempty : saved ≠ [] := by
    intro hnil
    simp [hnil] at hp
  obtain ⟨l, old, fresh, _, hold, rfl, hfresh, hplace⟩ :=
    placeOf_spec hnonempty hlen.le (.inr hp)
  rw [hplace]
  exact ⟨mem_map_of_mem (mem_of_getElem? hfresh),
    placeOf_entry hnodup hlen.ge hfresh hold⟩

/-- **Offsets and pages.** Between two tables of one length, the offsets in the
pages of the old one are translated one to one: a page goes to the entry of the
new table at its own index, each offset keeps its distance from the start of its
page, no two pages meet, and the translation back returns it. Only the new table
has to be free of repeated entries. -/
theorem translateKvRestoreOffset_bijective (old fresh : KimiAllocatorMetadata) (offset : Nat)
    (hlen : old.blockTableSnapshot.length = fresh.blockTableSnapshot.length)
    (hfresh : fresh.blockTableSnapshot.Nodup)
    (hpage : offset / pageSize ∈ old.blockTableSnapshot.map UInt32.toNat) :
    ∃ translated, translateKvRestoreOffset offset old fresh = .ok translated ∧
      (∃ i : Nat, old.blockTableSnapshot[i]?.map UInt32.toNat = some (offset / pageSize) ∧
        fresh.blockTableSnapshot[i]?.map UInt32.toNat = some (translated / pageSize)) ∧
      translated % pageSize = offset % pageSize ∧
      (∀ other translated', other / pageSize ∈ old.blockTableSnapshot.map UInt32.toNat →
        translateKvRestoreOffset other old fresh = .ok translated' →
        offset / pageSize ≠ other / pageSize → translated / pageSize ≠ translated' / pageSize) ∧
      translateKvRestoreOffset translated fresh old = .ok offset := by
  have hdiv : ∀ page offset : Nat, (page * pageSize + offset % pageSize) / pageSize = page := by
    intro page offset
    rw [mul_comm, mul_add_div pageSize_pos, div_eq_of_lt (mod_lt _ pageSize_pos),
      add_zero]
  have hmod : ∀ page offset : Nat,
      (page * pageSize + offset % pageSize) % pageSize = offset % pageSize := by
    intro page offset
    rw [mul_comm, mul_add_mod, mod_mod]
  obtain ⟨hplace, hback⟩ := placeOf_placeOf hlen hfresh hpage
  have hnonempty : old.blockTableSnapshot ≠ [] := by
    intro hnil
    simp [hnil] at hpage
  refine ⟨_, translateKvRestoreOffset_eq hlen.le hpage, ?_, hmod _ _, ?_, ?_⟩
  · obtain ⟨l, _, _, _, hold, heq, hentry, hat⟩ := placeOf_spec hnonempty hlen.le (.inr hpage)
    exact ⟨l, by rw [hold, Option.map_some, heq], by rw [hentry, hdiv, hat, Option.map_some]⟩
  · intro other translated' hother htranslated hne heq
    rw [translateKvRestoreOffset_eq hlen.le hother] at htranslated
    obtain rfl := Except.ok.inj htranslated
    rw [hdiv, hdiv] at heq
    exact hne (placeOf_inj hfresh hlen.le (.inr hpage) (.inr hother) heq)
  · have hpage' : (placeOf old.blockTableSnapshot fresh.blockTableSnapshot (offset / pageSize) *
        pageSize + offset % pageSize) / pageSize ∈ fresh.blockTableSnapshot.map UInt32.toNat := by
      rw [hdiv]
      exact hplace
    rw [translateKvRestoreOffset_eq hlen.ge hpage', hdiv, hmod, hback, mul_comm,
      div_add_mod]

/-- A cache of three pages, moved. -/
theorem translateKvRestoreOffset_bijective_three :
    ∃ translated, translateKvRestoreOffset 8197 ⟨0, 3, 0, 0, [7, 2, 5]⟩ ⟨0, 3, 0, 0, [1, 9, 0]⟩ =
        .ok translated ∧
      (∃ i : Nat, [(7 : UInt32), 2, 5][i]?.map UInt32.toNat = some (8197 / pageSize) ∧
        [(1 : UInt32), 9, 0][i]?.map UInt32.toNat = some (translated / pageSize)) ∧
      translated % pageSize = 8197 % pageSize ∧
      translateKvRestoreOffset translated ⟨0, 3, 0, 0, [1, 9, 0]⟩ ⟨0, 3, 0, 0, [7, 2, 5]⟩ =
        .ok 8197 := by
  obtain ⟨translated, htranslated, hentry, hmod, _, hback⟩ := translateKvRestoreOffset_bijective
    ⟨0, 3, 0, 0, [7, 2, 5]⟩ ⟨0, 3, 0, 0, [1, 9, 0]⟩ 8197 rfl (by decide) (by decide)
  exact ⟨translated, htranslated, hentry, hmod, hback⟩

/-- The entries of a table are some of the pages, each once. -/
theorem Tabled.subperm (h : Tabled site saved) :
    saved.map UInt32.toNat <+~ range site.pageCount := by
  refine subperm_of_subset (h.nodup.map fun _ _ => UInt32.toNat_inj.mp) fun p hp => ?_
  obtain ⟨entry, hmem, rfl⟩ := mem_map.mp hp
  exact mem_range.mpr (h.lt_pageCount entry hmem)

/-- A table of distinct pages lists all of them exactly when it is as long as the
region. -/
theorem forall_listed_iff (h : Tabled site saved) :
    (∀ p < site.pageCount, Listed saved p) ↔ saved = [] ∨ saved.length = site.pageCount := by
  constructor
  · intro hall
    by_cases hnonempty : saved = []
    · exact .inl hnonempty
    · refine .inr ?_
      have hle := h.subperm.length_le
      have hsup : range site.pageCount ⊆ saved.map UInt32.toNat :=
        fun p hp => (hall p (mem_range.mp hp)).resolve_left hnonempty
      have hge := (subperm_of_subset nodup_range hsup).length_le
      simp only [length_map, length_range] at hle hge
      omega
  · rintro (hnil | hlength) p hp
    · exact .inl hnil
    · have hperm := h.subperm.perm_of_length_le (by simp [hlength])
      exact .inr (hperm.mem_iff.mpr (mem_range.mpr hp))

end

/-! ## Writing pages back -/

variable {E : String → Device → Prop} {Q : Nat → Device → Prop}

section

variable {site : Site} {d e : Device}

/-- A copy into the region, seen as its contents. -/
theorem contents_write (d : Device) (hpaged : site.Paged) {offset : Nat} {bytes : List UInt8}
    (hle : offset + bytes.length ≤ site.trackedSize) :
    (d.write (site.ptr + UInt64.ofNat offset) bytes).contents site =
      overwrite (d.contents site) offset bytes := by
  have hlt := hpaged.size_lt
  apply ext_getElem?
  intro i
  rw [getElem?_overwrite, d.length_contents]
  by_cases hi : i < site.trackedSize
  · rw [getElem?_contents _ hi, getElem?_contents _ hi]
    -- the distance of the two addresses
    have hdist : (site.ptr + UInt64.ofNat i - (site.ptr + UInt64.ofNat offset)).toNat =
        if offset ≤ i then i - offset else 2 ^ 64 + i - offset := by
      have hsub : site.ptr + UInt64.ofNat i - (site.ptr + UInt64.ofNat offset) =
          UInt64.ofNat i - UInt64.ofNat offset := by grind
      rw [hsub, UInt64.toNat_sub, UInt64.toNat_ofNat', UInt64.toNat_ofNat',
        mod_eq_of_lt (by omega : i < 2 ^ 64), mod_eq_of_lt (by omega : offset < 2 ^ 64)]
      split <;> omega
    show some (bytes.getD _ _) = _
    rw [hdist, getD_eq_getElem?_getD]
    by_cases hin : offset ≤ i ∧ i < offset + bytes.length
    · rw [if_pos hin.1, if_pos ⟨hin.1, hin.2, hi⟩, getElem?_eq_getElem (by omega)]
      rfl
    · have hout : ¬ (offset ≤ i ∧ i < offset + bytes.length ∧ i < site.trackedSize) := by tauto
      rw [if_neg hout, getElem?_eq_none (by split <;> omega)]
      rfl
  · rw [if_neg (by omega), getElem?_eq_none (by simpa using hi),
      getElem?_eq_none (by simpa using hi)]

variable {region : KimiTrackedRegion} {old fresh : KimiAllocatorMetadata}
  {records : List AofRecord} {W : List (Nat × List UInt8)}

def PageWrites (site : Site) (records : List AofRecord) (W : List (Nat × List UInt8)) : Prop :=
  records.map (fun record => (record.offset.toNat, record.payload.data)) =
      placePages pageSize id W ∧
    ∀ w ∈ W, w.1 < site.pageCount ∧ w.2.length = pageSize

theorem PageWrites.cons_iff {record : AofRecord} (h : PageWrites site (record :: records) W) :
    ∃ w W', W = w :: W' ∧ record.offset.toNat = w.1 * pageSize ∧ record.payload.data = w.2 ∧
      w.1 < site.pageCount ∧ w.2.length = pageSize ∧ PageWrites site records W' := by
  obtain ⟨hmap, hpages⟩ := h
  cases W with
  | nil => simp [placePages] at hmap
  | cons w W' =>
    rw [placePages, map_cons, map_cons, List.cons.injEq, Prod.mk.injEq] at hmap
    obtain ⟨hlt, hlen⟩ := hpages w mem_cons_self
    exact ⟨w, W', rfl, hmap.1.1, hmap.1.2, hlt, hlen, hmap.2,
      fun v hv => hpages v (mem_cons_of_mem w hv)⟩

section

variable (hpaged : region.site.Paged) (hnew : Tabled region.site fresh.blockTableSnapshot)
  (hlen : old.blockTableSnapshot.length ≤ fresh.blockTableSnapshot.length)

include hpaged hnew hlen

theorem wp_restoreRecord {record : AofRecord} {w : Nat × List UInt8}
    (hoffset : record.offset.toNat = w.1 * pageSize) (hdata : record.payload.data = w.2)
    (hw : w.1 < region.site.pageCount) (hsize : w.2.length = pageSize)
    (hlisted : Listed old.blockTableSnapshot w.1) (applied : Nat) :
    wp (restoreRecord noFaults region (some old) (some fresh) true applied record)
      (fun _ e => e.contents region.site = overwrite (d.contents region.site)
        (placeOf old.blockTableSnapshot fresh.blockTableSnapshot w.1 * pageSize) w.2)
      (fun _ _ => False) d := by
  have htarget : targetOffset record (some old) (some fresh) =
      .ok (placeOf old.blockTableSnapshot fresh.blockTableSnapshot w.1 * pageSize) := by
    rw [targetOffset, hoffset]
    exact translateKvRestoreOffset_of_listed hlen hlisted
  have hstop := hpaged.offset_lt (placeOf_lt hnew hlen hlisted hw)
  have hbound := hpaged.size_lt
  have hlength : record.payload.length = pageSize := by rw [ByteVec.length, hdata, hsize]
  have htracked : region.trackedSize = region.site.trackedSize := rfl
  unfold restoreRecord
  simp only [htarget, hlength]
  rw [if_neg (by omega), if_neg (by omega), if_neg (by simp)]
  simp only [wp_bind, wp_modify, wp_pure]
  refine wp_ensureWorker (fun d' hquiet => ?_) fun hop => absurd rfl hop
  refine wp_attempt (fun _ => ?_) fun hop => absurd rfl hop
  rw [hdata]
  have hfits : placeOf old.blockTableSnapshot fresh.blockTableSnapshot w.1 * pageSize +
      w.2.length ≤ region.site.trackedSize := by omega
  have hcopy := contents_write d' hpaged hfits
  rw [hquiet.contents_eq] at hcopy
  exact hcopy

/-- Records of listed pages are all written, in order. -/
theorem wp_restoreLoop (hW : PageWrites region.site records W)
    (hlisted : ∀ w ∈ W, Listed old.blockTableSnapshot w.1) (applied : Nat) :
    wp (records.foldlM (restoreRecord noFaults region (some old) (some fresh) true) applied)
      (fun _ e => e.contents region.site = overwriteAll (d.contents region.site)
        (placePages pageSize (placeOf old.blockTableSnapshot fresh.blockTableSnapshot) W))
      (fun _ _ => False) d := by
  induction records generalizing W d applied with
  | nil =>
    obtain rfl : W = [] := by simpa [placePages] using hW.1.symm
    exact rfl
  | cons record records ih =>
    obtain ⟨w, W', rfl, hoffset, hdata, hw, hsize, hW'⟩ := hW.cons_iff
    rw [foldlM_cons, wp_bind]
    refine wp_mono (wp_restoreRecord hpaged hnew hlen hoffset hdata hw hsize
      (hlisted w mem_cons_self) applied) ?_ fun _ _ h => h
    intro applied' e he
    refine wp_mono (ih hW' (fun v hv => hlisted v (mem_cons_of_mem w hv)) applied') ?_
      fun _ _ h => h
    intro _ f hf
    rw [hf, he]
    rfl

/-- One record of a page in no block stops the restore. -/
theorem wp_restoreLoop_not_listed (hW : PageWrites region.site records W)
    (hlisted : ∃ w ∈ W, ¬ Listed old.blockTableSnapshot w.1) (applied : Nat) :
    wp (records.foldlM (restoreRecord noFaults region (some old) (some fresh) true) applied)
      (fun _ _ => False) (fun _ _ => True) d := by
  induction records generalizing W d applied with
  | nil =>
    obtain rfl : W = [] := by simpa [placePages] using hW.1.symm
    simp at hlisted
  | cons record records ih =>
    obtain ⟨w, W', rfl, hoffset, hdata, hw, hsize, hW'⟩ := hW.cons_iff
    rw [foldlM_cons, wp_bind]
    by_cases hhere : Listed old.blockTableSnapshot w.1
    · have hlater : ∃ w ∈ W', ¬ Listed old.blockTableSnapshot w.1 := by
        obtain ⟨v, hv, hnot⟩ := hlisted
        rcases mem_cons.mp hv with rfl | hv
        · exact absurd hhere hnot
        · exact ⟨v, hv, hnot⟩
      refine wp_mono (wp_restoreRecord hpaged hnew hlen hoffset hdata hw hsize hhere applied) ?_
        fun _ _ h => h.elim
      exact fun applied' e _ => ih hW' hlater applied'
    · obtain ⟨err, herr⟩ := translateKvRestoreOffset_of_not_listed hlen hhere
      have htarget : targetOffset record (some old) (some fresh) = .error err := by
        rw [targetOffset, hoffset, herr]
      unfold restoreRecord
      simp only [htarget]
      exact trivial

end

/-- Whatever has the payload of a page is staged. -/
theorem staging_eq_true (hW : PageWrites site records W) (hne : records ≠ []) :
    (records.any fun record => decide (0 < record.payload.length)) = true := by
  cases records with
  | nil => exact absurd rfl hne
  | cons record records =>
    obtain ⟨w, W', _, _, hdata, _, hsize, _⟩ := hW.cons_iff
    have hpos : 0 < record.payload.length := by
      rw [ByteVec.length, hdata, hsize]
      exact pageSize_pos
    simp [hpos]

theorem wp_restoreRecords (hW : PageWrites region.site records W)
    (hloop : wp (records.foldlM (restoreRecord noFaults region (some old) (some fresh) true) 0)
      (fun n e => Q n { e with worker := false } ∧ Q n e)
      (fun err e => E err { e with worker := false }) d) :
    wp (restoreRecords noFaults region (some old) (some fresh) records) Q E d := by
  unfold restoreRecords
  cases records with
  | nil =>
    simp only [any_nil, Bool.false_eq_true, if_false, foldlM_nil, wp_bind, wp_result,
      wp_pure] at hloop ⊢
    exact hloop.2
  | cons record records =>
    rw [staging_eq_true hW (by simp)]
    simp only [if_true, wp_bind, wp_result, shutdownWorker, wp_modify, wp_throw, wp_pure]
    refine wp_attempt (fun _ => ?_) fun hop => absurd rfl hop
    exact wp_mono hloop (fun _ _ h => h.1) fun _ _ h => h

end

/-! ## The second process -/

/-- The region as a later process, which restores from the manifest of `d`, has it
again under its id. -/
structure Reopened (site : Site) (d e : Device) (region : KimiTrackedRegion)
    (metadata : KimiAllocatorMetadata) : Prop where
  restoreManifest : e.manager.restoreManifest = some d.manager.manifest
  tracked : e.manager.region region.ptr = some region
  regionId : region.regionId = site.regionId
  trackedSize : region.trackedSize = site.trackedSize
  allocator : region.allocator = some metadata

/-- The saved and the new table are tables of the region, the new one with at
least as many rows. -/
structure Tables (site : Site) (saved new : List UInt32) : Prop where
  old : Tabled site saved
  fresh : Tabled site new
  length_le : saved.length ≤ new.length

/-- Every logical page of the saved table is where the new table has it. -/
def PagesRestored (site : Site) (d : Device) (site' : Site) (f : Device) (saved new : List UInt32) :
    Prop :=
  ∀ (l : Nat) (old fresh : UInt32), saved[l]? = some old → new[l]? = some fresh →
    page pageSize (f.contents site') fresh.toNat = page pageSize (d.contents site) old.toNat

section

variable {site : Site} {d e : Device} {region : KimiTrackedRegion}
  {metadata : KimiAllocatorMetadata}

/-- The manifest has the allocator of a region under its id. -/
theorem savedAllocator_eq (h : Written site d)
    (hrestore : m.restoreManifest = some d.manager.manifest) :
    savedAllocator m site.regionId =
      (d.manager.region site.ptr).bind allocator := by
  obtain ⟨region, hregion, rfl⟩ := h.region
  have hmem := mem_of_lookup hregion
  rw [savedAllocator, hrestore, hregion]
  show (d.manager.manifest.regions.find? _).bind _ = region.allocator
  cases hfind : d.manager.manifest.regions.find? fun spec =>
      decide (spec.regionId = region.site.regionId) with
  | none =>
    have := find?_eq_none.mp hfind region.spec
      (h.mirrors.perm.mem_iff.mpr (mem_map_of_mem hmem))
    simp [spec, site] at this
  | some spec =>
    obtain ⟨region₂, hmem₂, rfl⟩ :=
      mem_map.mp (h.mirrors.perm.mem_iff.mp (mem_of_find?_eq_some hfind))
    have hid := find?_some hfind
    have heq : region₂ = region :=
      inj_on_of_nodup_map h.ids hmem₂ hmem (of_decide_eq_true hid)
    rw [heq]
    rfl

/-- A table of the region is short enough to be read. -/
theorem not_tableOverflows (hpaged : site.Paged) (h : Tabled site (e.blockTable metadata)) :
    ¬ metadata.tableOverflows := by
  rintro ⟨hptr, hbig⟩
  have hle := h.subperm.length_le
  rw [length_map, length_range] at hle
  have hcount : metadata.blockCount ≠ 0 := by
    rintro hzero
    simp [hzero] at hbig
  rw [blockTable, if_neg (by tauto)] at hle
  simp only [decodeBlockTableSnapshot, chunksExact, length_map, length_range,
    length_read, Nat.mul_div_cancel _ (show 0 < 4 by decide)] at hle
  have hsize := hpaged.size_eq
  have hlt := hpaged.size_lt
  have hfour : site.pageCount * 4 ≤ site.pageCount * pageSize :=
    mul_le_mul_left _ (by decide)
  omega

/-- A restore is its record loop on the region's committed records. -/
theorem wp_restoreDeviceRegion {old : KimiAllocatorMetadata}
    (hreopened : Reopened site d e region metadata)
    (hold : savedAllocator e.manager site.regionId = some old)
    (hsmall : ¬ metadata.tableOverflows) (hloop : wp (restoreRecords noFaults region (some old)
        (some { metadata with blockTableSnapshot := e.blockTable metadata })
        (d.log.filter (·.regionId = site.regionId)))
      (fun n f => ∀ m, Q n { f with manager := m }) E
      { e with manager := e.snapshotManager region.ptr metadata }) :
    wp (restoreDeviceRegion noFaults (encodeLog d.log) region.ptr) Q E e := by
  simp only [restoreDeviceRegion, wp_bind, wp_trackedRegion hreopened.tracked, wp_get,
    hreopened.regionId, hold, currentAllocator, hreopened.allocator, wp_pure,
    readCommitted_encodeLog, wp_modify]
  refine wp_allocatorWithCurrentSnapshot ?_ ?_
  · exact wp_mono hloop (fun n f h => h _) fun _ _ h => h
  · rintro (⟨_, hop⟩ | hbig)
    · exact absurd rfl hop
    · exact absurd hbig hsmall

variable {memories : List (UInt64 → UInt8)}

/-- What a restore finds: the region's records as page writes, and its saved
table. -/
theorem Written.records (h : Written site d) :
    ∃ W, PageWrites site (d.log.filter (·.regionId = site.regionId)) W ∧
      (∀ p < site.pageCount, p ∈ W.map Prod.fst) ∧
      ∀ base : List UInt8, base.length = site.trackedSize →
        overwriteAll base (placePages pageSize id W) = d.contents site := by
  obtain ⟨W, hW, hpages, hall⟩ := h.writes
  refine ⟨W, ⟨?_, hpages⟩, hall, fun base hbase => ?_⟩
  · rw [← hW]
    rfl
  · rw [← hW]
    exact h.ledger.replay base hbase

/-- The allocator a restore finds in the manifest. -/
theorem Written.exists_allocator (h : Written site d) (hbitmap : site.bitmap ≠ none) :
    ∃ old, (d.manager.region site.ptr).bind allocator = some old ∧
      old.blockTableSnapshot = d.savedTable site.ptr := by
  obtain ⟨region, hregion, rfl⟩ := h.region
  obtain ⟨old, hold⟩ : ∃ old, region.allocator = some old :=
    Option.ne_none_iff_exists'.mp fun hnone => hbitmap (by simp [site, hnone])
  exact ⟨old, by simp [hregion, hold], by simp [savedTable, hregion, hold]⟩

theorem Reopened.pageCount_eq (h : Reopened site d e region metadata) :
    region.site.pageCount = site.pageCount := by
  rw [Site.pageCount, Site.pageCount, ← h.trackedSize]
  rfl

theorem Reopened.paged (h : Reopened site d e region metadata) (hpaged : site.Paged) :
    region.site.Paged := by
  have hsize : region.site.trackedSize = site.trackedSize := h.trackedSize
  refine ⟨?_, hsize ▸ hpaged.size_lt⟩
  rw [h.pageCount_eq, hsize]
  exact hpaged.size_eq

theorem Reopened.tabled (h : Reopened site d e region metadata) {table : List UInt32}
    (htable : Tabled site table) : Tabled region.site table :=
  ⟨htable.nodup, h.pageCount_eq ▸ htable.lt_pageCount⟩

theorem Reopened.pageWrites (h : Reopened site d e region metadata) {records : List AofRecord}
    {W : List (Nat × List UInt8)} (hW : PageWrites site records W) :
    PageWrites region.site records W :=
  ⟨hW.1, h.pageCount_eq ▸ hW.2⟩

/-- If the saved table lists every page, all logical pages come back. -/
theorem wp_restore_of_listed (h : Written site d) (hpaged : site.Paged)
    (hbitmap : site.bitmap ≠ none) (hreopened : Reopened site d e region metadata)
    (htables : Tables site (d.savedTable site.ptr) (e.blockTable metadata))
    (hlisted : ∀ p < site.pageCount, Listed (d.savedTable site.ptr) p) :
    wp (restoreDeviceRegion noFaults (encodeLog d.log) region.ptr)
      (fun _ f => PagesRestored site d region.site f (d.savedTable site.ptr)
        (e.blockTable metadata))
      (fun _ _ => False) e := by
  obtain ⟨old, hold, hsnapshot⟩ := h.exists_allocator hbitmap
  obtain ⟨W, hW, hall, hreplay⟩ := h.records
  have hpaged' := hreopened.paged hpaged
  have hnew := hreopened.tabled htables.fresh
  have hW' := hreopened.pageWrites hW
  rw [← hsnapshot] at htables hlisted ⊢
  refine wp_restoreDeviceRegion hreopened
    ((savedAllocator_eq h hreopened.restoreManifest).trans hold)
    (not_tableOverflows hpaged htables.fresh) (wp_restoreRecords hW' ?_)
  refine wp_mono (wp_restoreLoop hpaged' hnew htables.length_le hW'
    (fun w hw => hlisted w.1 (hW.2 w hw).1) 0) ?_ fun _ _ h => h
  intro n f hf
  suffices hpages : PagesRestored site d region.site f old.blockTableSnapshot
    (e.blockTable metadata)
    from ⟨fun _ => hpages, fun _ => hpages⟩
  intro l entry entry' hentry hentry'
  have hlt := htables.old.lt_pageCount entry (mem_of_getElem? hentry)
  rw [← placeOf_entry htables.old.nodup htables.length_le hentry hentry', hf,
    ← hreplay _ (d.length_contents site)]
  refine page_overwriteAll_placePages pageSize_pos (fun w hw => (hW.2 w hw).2) ?_ ?_ ?_
    (.inl (hall _ hlt))
  · intro w hw
    rw [length_contents]
    exact hpaged'.offset_lt (placeOf_lt hnew htables.length_le (hlisted w.1 (hW.2 w hw).1)
      (hW'.2 w hw).1)
  · intro w hw
    rw [length_contents]
    exact hpaged.offset_lt (hW.2 w hw).1
  · intro w hw heq
    exact placeOf_inj htables.fresh.nodup htables.length_le (hlisted w.1 (hW.2 w hw).1)
      (hlisted _ hlt) heq

/-- One page in no block makes the whole restore fail. -/
theorem wp_restore_of_not_listed (h : Written site d) (hpaged : site.Paged)
    (hbitmap : site.bitmap ≠ none) (hreopened : Reopened site d e region metadata)
    (htables : Tables site (d.savedTable site.ptr) (e.blockTable metadata)) {p : Nat}
    (hp : p < site.pageCount) (hnot : ¬ Listed (d.savedTable site.ptr) p) :
    wp (restoreDeviceRegion noFaults (encodeLog d.log) region.ptr)
      (fun _ _ => False) (fun _ _ => True) e := by
  obtain ⟨old, hold, hsnapshot⟩ := h.exists_allocator hbitmap
  obtain ⟨W, hW, hall, _⟩ := h.records
  have hW' := hreopened.pageWrites hW
  rw [← hsnapshot] at htables hnot
  refine wp_restoreDeviceRegion hreopened
    ((savedAllocator_eq h hreopened.restoreManifest).trans hold)
    (not_tableOverflows hpaged htables.fresh) (wp_restoreRecords hW' ?_)
  obtain ⟨w, hw, hpage⟩ := mem_map.mp (hall p hp)
  refine wp_mono (wp_restoreLoop_not_listed (hreopened.paged hpaged)
    (hreopened.tabled htables.fresh) htables.length_le hW' ⟨w, hw, hpage ▸ hnot⟩ 0)
    (fun _ _ h => h.elim) fun _ _ _ => trivial

variable {d₀ : Device}

/-- **When a paged region can be restored.** The restore ends, with every logical
page in its new place, exactly when the saved table is empty or lists every
physical page of the region. -/
theorem kvRestore_iff (hlog : Loggable site d₀)
    (hmarks : (d₀.memory :: memories).IsChain (MarksChanges site))
    (hrun : (logRegion site.ptr memories).exec d₀ = (.ok (), d))
    (hreopened : Reopened site d e region metadata)
    (htables : Tables site (d.savedTable site.ptr) (e.blockTable metadata)) :
    (∃ n f, (restoreDeviceRegion noFaults (encodeLog d.log) region.ptr).exec e = (.ok n, f) ∧
        PagesRestored site d region.site f (d.savedTable site.ptr) (e.blockTable metadata)) ↔
      d.savedTable site.ptr = [] ∨ (d.savedTable site.ptr).length = site.pageCount := by
  have hwritten := hlog.written hmarks hrun
  rw [← forall_listed_iff htables.old]
  constructor
  · rintro ⟨n, f, hexec, _⟩ p hp
    by_contra hnot
    exact wp_of_ok (wp_restore_of_not_listed hwritten hlog.paged hlog.bitmap hreopened htables hp
      hnot) hexec
  · exact fun hlisted => exists_ok_of_wp
      (wp_restore_of_listed hwritten hlog.paged hlog.bitmap hreopened htables hlisted)

end

/-! ## A cache of two pages -/

/-- Two pages are used as kv cache, with a block table of `count` entries at
`0x100` and a dirty bitmap of one byte. -/
def useCache (count : Nat) : List Event :=
  [.allocation 0x10000 8192, .kernelPointers "paged_kv_cache_update" [0x10000],
    .allocatorMetadata 0x10000 0x100 count 0x200 1]

def cacheSite : Site where
  ptr := 0x10000
  regionId := 1
  trackedSize := 8192
  bitmap := some (0x200, 1)

/-- A process whose memory is zero but for the bytes of the block table. -/
def cacheDevice (m : KimiConcordiaManager) (table : List UInt8) : Device where
  manager := m
  resources _ := none
  memory addr := table.getD (addr - 0x100).toNat 0
  nextEpoch := 1
  worker := false
  log := []

def firstCache (count : Nat) (table : List UInt8) : Device :=
  cacheDevice (firstRun (useCache count)) table

/-- The process that restores from the manifest of `d`. -/
def secondCache (d : Device) (count : Nat) (table : List UInt8) : Device :=
  cacheDevice ((KimiConcordiaManager.new restoring (some d.manager.manifest)).run (useCache count))
    table

def cacheMetadata (count : Nat) : KimiAllocatorMetadata where
  blockTablePtr := 0x100
  blockCount := count
  dirtyBitmapPtr := 0x200
  dirtyBitmapBytes := 1
  blockTableSnapshot := []

/-- The first process when it ends. -/
def loggedCache (count : Nat) (table : List UInt8) : Device :=
  ((logRegion cacheSite.ptr [(firstCache count table).memory]).exec (firstCache count table)).2

variable {count : Nat}

theorem loggable_firstCache (hcount : count ∈ [1, 2]) (table : List UInt8) :
    Loggable cacheSite (firstCache count table) := by
  have hrun : ∀ count ∈ [1, 2], ((firstRun (useCache count)).allocations.map ptr).Nodup ∧
      (firstRun (useCache count)).manifest.regions ~
        (firstRun (useCache count)).allocations.map spec ∧
      ((firstRun (useCache count)).allocations.map regionId).Nodup ∧
      ((firstRun (useCache count)).region 0x10000).map site = some cacheSite := by
    decide +kernel
  obtain ⟨hnodup, hperm, hids, hregion⟩ := hrun count hcount
  obtain ⟨region, hregion, hsite⟩ := Option.map_eq_some_iff.mp hregion
  exact ⟨⟨hnodup, hperm⟩, hids, ⟨region, hregion, hsite⟩, ⟨by decide, by decide⟩,
    by simp [cacheSite], by simp [firstCache, cacheDevice]⟩

theorem marksChanges_self (memory : UInt64 → UInt8) :
    [memory, memory].IsChain (MarksChanges cacheSite) := by
  refine .cons_cons (fun _ _ hne => absurd rfl hne) (.singleton _)

instance (site : Site) (table : List UInt32) : Decidable (Tabled site table) :=
  decidable_of_iff (table.Nodup ∧ table.all (·.toNat < site.pageCount))
    ⟨fun h => ⟨h.1, by simpa using h.2⟩, fun h => ⟨h.nodup, by simpa using h.lt_pageCount⟩⟩

instance (site : Site) (saved new : List UInt32) : Decidable (Tables site saved new) :=
  decidable_of_iff (Tabled site saved ∧ Tabled site new ∧ saved.length ≤ new.length)
    ⟨fun h => ⟨h.1, h.2.1, h.2.2⟩, fun h => ⟨h.old, h.fresh, h.length_le⟩⟩

theorem exec_logRegion_cache (count : Nat) (table : List UInt8) (hok : ((logRegion cacheSite.ptr
      [(firstCache count table).memory]).exec (firstCache count table)).1.toBool = true) :
    (logRegion cacheSite.ptr [(firstCache count table).memory]).exec (firstCache count table) =
      (.ok (), loggedCache count table) := by
  unfold loggedCache
  generalize (logRegion _ _).exec _ = result at hok ⊢
  obtain ⟨_ | _, d⟩ := result
  · cases hok
  · rfl

/-- The second process has the region again. -/
theorem exists_reopened (count : Nat) (table table' : List UInt8) (hrestore :
      (secondCache (loggedCache count table) count table').manager.restoreManifest =
        some (loggedCache count table).manager.manifest)
    (hregion : ((secondCache (loggedCache count table) count table').manager.region 0x10000).map
        (fun region => (region.site, region.allocator)) =
      some (cacheSite, some (cacheMetadata count))) :
    ∃ region, Reopened cacheSite (loggedCache count table)
      (secondCache (loggedCache count table) count table') region (cacheMetadata count) := by
  obtain ⟨region, hregion, hsite⟩ := Option.map_eq_some_iff.mp hregion
  rw [Prod.mk.injEq] at hsite
  have hptr : region.ptr = 0x10000 := congrArg Site.ptr hsite.1
  exact ⟨region, hrestore, hptr ▸ hregion, congrArg Site.regionId hsite.1,
    congrArg Site.trackedSize hsite.1, hsite.2⟩

/-- Both pages are in the saved table, and come back in each other's place. -/
theorem kvRestore_iff_swapped : ∃ (d : Device) (region : KimiTrackedRegion) (n : Nat) (f : Device),
    (logRegion cacheSite.ptr [(firstCache 2 [0, 0, 0, 0, 1, 0, 0, 0]).memory]).exec
      (firstCache 2 [0, 0, 0, 0, 1, 0, 0, 0]) = (.ok (), d) ∧ d.savedTable cacheSite.ptr = [0, 1] ∧
    (restoreDeviceRegion noFaults (encodeLog d.log) region.ptr).exec
      (secondCache d 2 [1, 0, 0, 0, 0, 0, 0, 0]) = (.ok n, f) ∧
    PagesRestored cacheSite d region.site f [0, 1] [1, 0] := by
  obtain ⟨region, hreopened⟩ : ∃ region, Reopened cacheSite _ _ region (cacheMetadata 2) :=
    exists_reopened 2 [0, 0, 0, 0, 1, 0, 0, 0] [1, 0, 0, 0, 0, 0, 0, 0] (by decide +kernel)
      (by decide +kernel)
  have hrun := exec_logRegion_cache 2 [0, 0, 0, 0, 1, 0, 0, 0] (by decide +kernel)
  have hlog := loggable_firstCache (by decide : 2 ∈ [1, 2]) [0, 0, 0, 0, 1, 0, 0, 0]
  have hmarks := marksChanges_self (firstCache 2 [0, 0, 0, 0, 1, 0, 0, 0]).memory
  obtain ⟨n, f, hexec, hpages⟩ :=
    (kvRestore_iff hlog hmarks hrun hreopened (by decide +kernel)).mpr (.inr (by decide +kernel))
  have hsaved : (loggedCache 2 [0, 0, 0, 0, 1, 0, 0, 0]).savedTable cacheSite.ptr = [0, 1] := by
    decide +kernel
  have hnew : (secondCache (loggedCache 2 [0, 0, 0, 0, 1, 0, 0, 0]) 2
      [1, 0, 0, 0, 0, 0, 0, 0]).blockTable (cacheMetadata 2) = [1, 0] := by
    decide +kernel
  exact ⟨_, region, n, f, hrun, hsaved, hexec, by rwa [hsaved, hnew] at hpages⟩

/-- **A page in no block.** The block table has the first page only. The second
is in the base snapshot, and the restore stops at its record. -/
theorem kvRestore_unlisted_page : ∃ (d : Device) (region : KimiTrackedRegion),
    Loggable cacheSite (firstCache 1 [0, 0, 0, 0]) ∧
    [(firstCache 1 [0, 0, 0, 0]).memory, (firstCache 1 [0, 0, 0, 0]).memory].IsChain
      (MarksChanges cacheSite) ∧
    (logRegion cacheSite.ptr [(firstCache 1 [0, 0, 0, 0]).memory]).exec
      (firstCache 1 [0, 0, 0, 0]) = (.ok (), d) ∧
    Reopened cacheSite d (secondCache d 1 [1, 0, 0, 0]) region (cacheMetadata 1) ∧
    Tables cacheSite (d.savedTable cacheSite.ptr)
      ((secondCache d 1 [1, 0, 0, 0]).blockTable (cacheMetadata 1)) ∧
    ∃ err f, (restoreDeviceRegion noFaults (encodeLog d.log) region.ptr).exec
      (secondCache d 1 [1, 0, 0, 0]) = (.error err, f) := by
  obtain ⟨region, hreopened⟩ : ∃ region, Reopened cacheSite _ _ region (cacheMetadata 1) :=
    exists_reopened 1 [0, 0, 0, 0] [1, 0, 0, 0] (by decide +kernel) (by decide +kernel)
  have hrun := exec_logRegion_cache 1 [0, 0, 0, 0] (by decide +kernel)
  have hlog := loggable_firstCache (by decide : 1 ∈ [1, 2]) [0, 0, 0, 0]
  have hmarks := marksChanges_self (firstCache 1 [0, 0, 0, 0]).memory
  have htables : Tables cacheSite ((loggedCache 1 [0, 0, 0, 0]).savedTable cacheSite.ptr)
      ((secondCache (loggedCache 1 [0, 0, 0, 0]) 1 [1, 0, 0, 0]).blockTable (cacheMetadata 1)) := by
    decide +kernel
  refine ⟨_, region, hlog, hmarks, hrun, hreopened, htables, ?_⟩
  have hsaved : (loggedCache 1 [0, 0, 0, 0]).savedTable cacheSite.ptr = [0] := by decide +kernel
  obtain ⟨err, f, hexec, _⟩ := exists_error_of_wp (wp_restore_of_not_listed
    (hlog.written hmarks hrun) hlog.paged hlog.bitmap hreopened htables
    (by decide : 1 < cacheSite.pageCount) (by rw [hsaved]; simp [Listed]))
  exact ⟨err, f, hexec⟩

end Concordia.Kimi
