import Concordia.Kimi.Orderly

/-!
# A second process finds its regions again

A process saves the manifest of its live regions; a later process makes the same
calls at other addresses and takes the region ids from that manifest by key.
Step by step the two managers hold the same regions up to address and id
(`Alike`), and a kv-cache or adapter region of the second one has the id saved
for its key (`Restores`). So the ids come back wherever the keys of the first
process are distinct (`relocated_ids`); a number given twice makes two regions
take one id (`relocated_shares_id`).
-/

namespace Concordia.Kimi

open Concordia.Lib List KimiTrackedRegion KimiConcordiaManager

/-- The same call at other addresses. -/
def Event.rename (f : UInt64 → UInt64) : Event → Event
  | .allocation ptr size => .allocation (f ptr) size
  | .kernelPointers kernelName ptrs => .kernelPointers kernelName (ptrs.map f)
  | .allocatorMetadata ptr blockTablePtr blockCount dirtyBitmapPtr dirtyBitmapBytes =>
    .allocatorMetadata (f ptr) (f blockTablePtr) blockCount (f dirtyBitmapPtr) dirtyBitmapBytes
  | .deallocation ptr => .deallocation (f ptr)

/-- A sequence of calls. -/
def KimiConcordiaManager.run (m : KimiConcordiaManager) (events : List Event) :
    KimiConcordiaManager :=
  events.foldl step m

/-- A region at its new address, without its id and allocator. -/
def KimiTrackedRegion.relocated (f : UInt64 → UInt64) (region : KimiTrackedRegion) :
    KimiTrackedRegion :=
  { region with ptr := f region.ptr, regionId := 0, allocator := none }

variable {r r' : KimiTrackedRegion}

theorem KimiTrackedRegion.of_relocated_eq {f : UInt64 → UInt64}
    (h : r'.relocated id = r.relocated f) :
    r'.ptr = f r.ptr ∧ r'.kind = r.kind ∧ r'.stableKey = r.stableKey ∧
      r'.trackedSize = r.trackedSize := by
  simp only [relocated, id, mk.injEq] at h
  exact ⟨h.1, h.2.2.2.2.2.1, h.2.2.2.2.2.2.1, h.2.2.1⟩

theorem rename_eq_zero_iff {f : UInt64 → UInt64} (hinj : Function.Injective f) (hnull : f 0 = 0)
    (ptr : UInt64) : f ptr = 0 ↔ ptr = 0 := by
  conv_lhs => rw [← hnull]
  exact hinj.eq_iff

/-- `m'` holds the regions of `m` at their new addresses, up to ids. -/
structure Alike (f : UInt64 → UInt64) (m m' : KimiConcordiaManager) : Prop where
  mirrors : Mirrors m
  mirrors' : Mirrors m'
  config : m'.config = { m.config with restoreEnabled := true }
  nextAllocationIndex : m'.nextAllocationIndex = m.nextAllocationIndex
  perm : m'.allocations.map (·.relocated id) ~ m.allocations.map (·.relocated f)

namespace Alike

variable {f : UInt64 → UInt64} {m m' n n' : KimiConcordiaManager}

/-- Two new managers hold no regions. -/
theorem new (f : UInt64 → UInt64) (config : KimiConcordiaConfig)
    (saved saved' : Option KimiRegionManifest) :
    Alike f (.new config saved) (.new { config with restoreEnabled := true } saved') :=
  ⟨⟨nodup_nil, .refl _⟩, ⟨nodup_nil, .refl _⟩, rfl, rfl, .refl _⟩

theorem length_eq (h : Alike f m m') : m'.allocations.length = m.allocations.length := by
  simpa using h.perm.length_eq

/-- The region at a new address is that of the old one. -/
theorem region_some (h : Alike f m m') {ptr : UInt64} {r : KimiTrackedRegion}
    (hr : m.region ptr = some r) :
    ∃ r', m'.region (f ptr) = some r' ∧ r'.relocated id = r.relocated f := by
  have hmem : r.relocated f ∈ m'.allocations.map (·.relocated id) :=
    h.perm.mem_iff.mpr (mem_map_of_mem (mem_of_lookup hr))
  obtain ⟨r', hr', heq⟩ := mem_map.mp hmem
  have hptr : r'.ptr = f ptr := by
    rw [(of_relocated_eq heq).1, show r.ptr = ptr from key_of_lookup hr]
  exact ⟨r', hptr ▸ lookup_of_mem h.mirrors'.nodup hr', heq⟩

/-- A region of the second manager is one of the first. -/
theorem exists_of_mem (h : Alike f m m') {r' : KimiTrackedRegion} (hr' : r' ∈ m'.allocations) :
    ∃ r ∈ m.allocations, r'.relocated id = r.relocated f := by
  have hmem : r'.relocated id ∈ m.allocations.map (·.relocated f) :=
    h.perm.mem_iff.mp (mem_map_of_mem hr')
  obtain ⟨r, hr, heq⟩ := mem_map.mp hmem
  exact ⟨r, hr, heq.symm⟩

variable (h : Alike f m m') (hinj : Function.Injective f)

include h hinj

theorem region_none {ptr : UInt64} (hr : m.region ptr = none) : m'.region (f ptr) = none := by
  rw [Option.eq_none_iff_forall_ne_some]
  intro r' hr'
  obtain ⟨r, hmem, heq⟩ := h.exists_of_mem (mem_of_lookup hr')
  have hptr : r.ptr = ptr :=
    hinj ((of_relocated_eq heq).1.symm.trans (key_of_lookup hr'))
  have := lookup_of_mem h.mirrors.nodup hmem
  rw [hptr] at this
  exact absurd (this.symm.trans hr) (by simp)

/-- The regions other than that of a pointer. -/
theorem rest_perm (ptr : UInt64) :
    (m'.rest (f ptr)).map (·.relocated id) ~ (m.rest ptr).map (·.relocated f) := by
  have hnew : (m'.rest (f ptr)).map (·.relocated id) =
      others KimiTrackedRegion.ptr (f ptr) (m'.allocations.map (·.relocated id)) :=
    map_others fun _ => rfl
  have hold : (m.rest ptr).map (·.relocated f) =
      others KimiTrackedRegion.ptr (f ptr) (m.allocations.map (·.relocated f)) := by
    rw [rest, others, others, filter_map]
    congr 1
    apply filter_congr
    intro r _
    simp [relocated, hinj.eq_iff]
  rw [hnew, hold]
  exact h.perm.filter _

/-- Putting corresponding regions in the place of their pointers. -/
theorem puts (hputs : Puts m r n) (hputs' : Puts m' r' n') (heq : r'.relocated id = r.relocated f)
    (hconfig : n.config = m.config) (hconfig' : n'.config = m'.config)
    (hindex : n'.nextAllocationIndex = n.nextAllocationIndex) : Alike f n n' := by
  have hptr := (of_relocated_eq heq).1
  refine ⟨hputs.mirrors, hputs'.mirrors, ?_, hindex, ?_⟩
  · rw [hconfig', hconfig, h.config]
  · calc n'.allocations.map (·.relocated id)
      _ ~ (r' :: m'.rest r'.ptr).map (·.relocated id) := hputs'.perm.map _
      _ ~ (r :: m.rest r.ptr).map (·.relocated f) := by
        rw [map_cons, map_cons, heq, hptr]
        exact (h.rest_perm hinj r.ptr).cons _
      _ ~ n.allocations.map (·.relocated f) := (hputs.perm.map _).symm

theorem noteAllocation (hnull : f 0 = 0) (ptr : UInt64) (size : Nat) :
    Alike f (m.noteAllocation ptr size).2 (m'.noteAllocation (f ptr) size).2 := by
  have htrack : (f ptr = 0 ∨ m'.config.shouldTrackAllocation size = false) ↔
      (ptr = 0 ∨ m.config.shouldTrackAllocation size = false) := by
    rw [h.config, rename_eq_zero_iff hinj hnull]
    rfl
  have hfree : ((m'.region (f ptr)).isSome ∨ m'.allocations.length ≥ m'.config.maxRegions) ↔
      ((m.region ptr).isSome ∨ m.allocations.length ≥ m.config.maxRegions) := by
    have hsome : (m'.region (f ptr)).isSome = (m.region ptr).isSome := by
      cases hr : m.region ptr with
      | none => rw [h.region_none hinj hr]
      | some r =>
        obtain ⟨r', hr', _⟩ := h.region_some hr
        rw [hr']
        rfl
    rw [hsome, h.length_eq, h.config]
  by_cases hskip : ptr = 0 ∨ m.config.shouldTrackAllocation size = false
  · rw [KimiConcordiaManager.noteAllocation, KimiConcordiaManager.noteAllocation, if_pos hskip,
      if_pos (htrack.mpr hskip)]
    exact h
  by_cases hfull : (m.region ptr).isSome ∨ m.allocations.length ≥ m.config.maxRegions
  · rw [KimiConcordiaManager.noteAllocation, KimiConcordiaManager.noteAllocation, if_neg hskip,
      if_pos hfull, if_neg (htrack.not.mpr hskip), if_pos (hfree.mpr hfull)]
    exact h
  have hputs := (puts_noteAllocation h.mirrors hskip hfull).1
  have hputs' := (puts_noteAllocation h.mirrors' (htrack.not.mpr hskip) (hfree.not.mpr hfull)).1
  have hfresh :
      (m'.freshRegion (f ptr) size).relocated id = (m.freshRegion ptr size).relocated f := by
    simp only [freshRegion, relocated,
      h.nextAllocationIndex, id]
  apply h.puts hinj hputs hputs' hfresh <;>
    simp [KimiConcordiaManager.noteAllocation, hskip, hfull, htrack.not.mpr hskip,
      hfree.not.mpr hfull, insertRegion, h.nextAllocationIndex]

/-- Updating corresponding regions alike. -/
theorem updateRegion {ptr : UInt64} (hr : m.region ptr = some r)
    (hr' : m'.region (f ptr) = some r') (g g' : KimiTrackedRegion → KimiTrackedRegion)
    (hg : (g r).ptr = r.ptr) (hg' : (g' r').ptr = r'.ptr)
    (heq : (g' r').relocated id = (g r).relocated f) :
    Alike f ((m.updateRegion ptr g).upsertManifestForPtr ptr)
      ((m'.updateRegion (f ptr) g').upsertManifestForPtr (f ptr)) := by
  have hputs := (puts_updateRegion h.mirrors hr g hg).1
  have hputs' := (puts_updateRegion h.mirrors' hr' g' hg').1
  apply h.puts hinj hputs hputs' heq <;>
    simp [KimiConcordiaManager.updateRegion, h.nextAllocationIndex]

/-- Corresponding regions get the same key. -/
theorem stableKeyForRegion {ptr : UInt64} (hr : m.region ptr = some r)
    (hr' : m'.region (f ptr) = some r') (heq : r'.relocated id = r.relocated f)
    (kind : KimiRegionKind) :
    m'.stableKeyForRegion (f ptr) kind r'.trackedSize =
      m.stableKeyForRegion ptr kind r.trackedSize := by
  obtain ⟨_, hkind, hkey, hsize⟩ := of_relocated_eq heq
  by_cases hsame : r.kind = kind
  · have hsame' := hkind.trans hsame
    subst hsame
    rw [stableKeyForRegion_of_kind_eq h.mirrors hr, ← hsame',
      stableKeyForRegion_of_kind_eq h.mirrors' hr', hkey]
  · have hcount :
        (m'.rest (f ptr)).countP (·.kind = kind) = (m.rest ptr).countP (·.kind = kind) := by
      have := (h.rest_perm hinj ptr).countP_eq (fun x => decide (x.kind = kind))
      rw [countP_map, countP_map] at this
      exact this
    rw [stableKeyForRegion_of_kind_ne h.mirrors hr hsame,
      stableKeyForRegion_of_kind_ne h.mirrors' hr' (hkind ▸ hsame), hcount, hsize]

theorem noteKernelPointer (kernelName : String) (kind : KimiRegionKind) (ptr : UInt64) :
    Alike f (m.noteKernelPointer kernelName kind ptr)
      (m'.noteKernelPointer kernelName kind (f ptr)) := by
  unfold KimiConcordiaManager.noteKernelPointer
  cases hr : m.region ptr with
  | none =>
    rw [h.region_none hinj hr]
    exact h
  | some r =>
    obtain ⟨r', hr', heq⟩ := h.region_some hr
    rw [hr']
    have hkey := h.stableKeyForRegion hinj hr hr' heq kind
    refine h.updateRegion hinj hr hr' _ _ rfl rfl ?_
    rw [hkey]
    exact congrArg (classified · kernelName kind _ 0) heq

theorem noteKernelPointers (hnull : f 0 = 0) (kernelName : String) (ptrs : List UInt64) :
    Alike f (m.noteKernelPointers kernelName ptrs)
      (m'.noteKernelPointers kernelName (ptrs.map f)) := by
  unfold KimiConcordiaManager.noteKernelPointers
  cases regionKindForKernel kernelName with
  | none => exact h
  | some kind =>
    have hfilter : (ptrs.map f).filter (· ≠ 0) = (ptrs.filter (· ≠ 0)).map f := by
      rw [filter_map]
      congr 1
      apply filter_congr
      intro ptr _
      simp only [Function.comp_apply, ne_eq, rename_eq_zero_iff hinj hnull]
    simp only [hfilter]
    generalize ptrs.filter (· ≠ 0) = ptrs
    induction ptrs generalizing m m' with
    | nil => exact h
    | cons ptr ptrs ih => exact ih (h.noteKernelPointer hinj kernelName kind ptr)

theorem noteAllocatorMetadata (hnull : f 0 = 0) (ptr blockTablePtr : UInt64) (blockCount : Nat)
    (dirtyBitmapPtr : UInt64) (dirtyBitmapBytes : Nat) :
    Alike f
      (m.noteAllocatorMetadata ptr blockTablePtr blockCount dirtyBitmapPtr dirtyBitmapBytes).2
      (m'.noteAllocatorMetadata (f ptr) (f blockTablePtr) blockCount (f dirtyBitmapPtr)
        dirtyBitmapBytes).2 := by
  unfold KimiConcordiaManager.noteAllocatorMetadata
  simp only [rename_eq_zero_iff hinj hnull]
  split
  · exact h
  split
  · exact h
  cases hr : m.region ptr with
  | none =>
    rw [h.region_none hinj hr]
    exact h
  | some r =>
    obtain ⟨r', hr', heq⟩ := h.region_some hr
    rw [hr']
    exact h.updateRegion hinj hr hr' _ _ rfl rfl heq

theorem noteDeallocation (ptr : UInt64) :
    Alike f (m.noteDeallocation ptr) (m'.noteDeallocation (f ptr)) := by
  have hsame : ∀ (m : KimiConcordiaManager) ptr, (m.noteDeallocation ptr).config = m.config ∧
      (m.noteDeallocation ptr).nextAllocationIndex = m.nextAllocationIndex := by
    intro m ptr
    unfold KimiConcordiaManager.noteDeallocation
    split <;> exact ⟨rfl, rfl⟩
  refine ⟨mirrors_noteDeallocation h.mirrors ptr, mirrors_noteDeallocation h.mirrors' _, ?_, ?_, ?_⟩
  · rw [(hsame m' _).1, (hsame m _).1, h.config]
  · rw [(hsame m' _).2, (hsame m _).2, h.nextAllocationIndex]
  · rw [noteDeallocation_allocations, noteDeallocation_allocations]
    exact h.rest_perm hinj ptr

theorem step (hnull : f 0 = 0) (event : Event) :
    Alike f (m.step event) (m'.step (event.rename f)) := by
  cases event with
  | allocation ptr size => exact h.noteAllocation hinj hnull ptr size
  | kernelPointers kernelName ptrs => exact h.noteKernelPointers hinj hnull kernelName ptrs
  | allocatorMetadata => exact h.noteAllocatorMetadata hinj hnull _ _ _ _ _
  | deallocation ptr => exact h.noteDeallocation hinj ptr

theorem run (hnull : f 0 = 0) (events : List Event) :
    Alike f (m.run events) (m'.run (events.map (Event.rename f))) := by
  induction events generalizing m m' with
  | nil => exact h
  | cons event events ih => exact ih (h.step hinj hnull event)

end Alike

/-! ## The ids of the second process -/

/-- A kv-cache or adapter region has the id saved for its key. -/
structure Restores (restore : KimiRegionManifest) (m : KimiConcordiaManager) : Prop where
  mirrors : Mirrors m
  restoreManifest : m.restoreManifest = some restore
  id_eq : ∀ r ∈ m.allocations, r.kind ≠ .opaqueMutable →
    ∀ id, restore.findRegionId r.kind r.stableKey r.trackedSize = some id → r.regionId = id

namespace Restores

variable {restore : KimiRegionManifest} {m m' : KimiConcordiaManager}

theorem new (config : KimiConcordiaConfig) (restore : KimiRegionManifest)
    (henabled : config.restoreEnabled = true) : Restores restore (.new config (some restore)) := by
  refine ⟨⟨nodup_nil, .refl _⟩, ?_, fun r hr => absurd hr (not_mem_nil)⟩
  simp [KimiConcordiaManager.new, henabled]

variable (h : Restores restore m)

include h

theorem puts {region : KimiTrackedRegion} (hputs : Puts m region m') (hid : region.kind ≠
      .opaqueMutable → ∀ id, restore.findRegionId region.kind region.stableKey region.trackedSize =
      some id → region.regionId = id) : Restores restore m' := by
  refine ⟨hputs.mirrors, hputs.restoreManifest.trans h.restoreManifest, ?_⟩
  intro r hr
  rcases mem_cons.mp (hputs.perm.mem_iff.mp hr) with rfl | hr
  · exact hid
  · exact h.id_eq r (mem_others.mp hr).1

theorem noteKernelPointer (kernelName : String) (kind : KimiRegionKind) (ptr : UInt64) :
    Restores restore (m.noteKernelPointer kernelName kind ptr) := by
  rcases noteKernelPointer_spec h.mirrors kernelName kind ptr with
    hsame | ⟨old, key, _, _, hputs, _⟩
  · rwa [hsame]
  refine h.puts hputs fun _ id hid => ?_
  have hsaved : m.savedRegionId kind key old.trackedSize = some id := by
    rw [savedRegionId, h.restoreManifest]
    exact hid
  show (m.savedRegionId kind key old.trackedSize).getD old.regionId = id
  rw [hsaved]
  rfl

theorem noteKernelPointers (kernelName : String) (ptrs : List UInt64) :
    Restores restore (m.noteKernelPointers kernelName ptrs) := by
  unfold KimiConcordiaManager.noteKernelPointers
  cases regionKindForKernel kernelName with
  | none => exact h
  | some kind =>
    show Restores restore ((ptrs.filter (· ≠ 0)).foldl _ m)
    generalize ptrs.filter (· ≠ 0) = ptrs
    induction ptrs generalizing m with
    | nil => exact h
    | cons ptr ptrs ih => exact ih (h.noteKernelPointer kernelName kind ptr)

theorem noteDeallocation (ptr : UInt64) : Restores restore (m.noteDeallocation ptr) := by
  rcases noteDeallocation_spec h.mirrors ptr with hsame | ⟨_, _, hmirrors, halloc, hrestore, _⟩
  · rwa [hsame]
  refine ⟨hmirrors, hrestore.trans h.restoreManifest, ?_⟩
  intro r hr
  rw [halloc] at hr
  exact h.id_eq r (mem_others.mp hr).1

theorem step (event : Event) : Restores restore (m.step event) := by
  cases event with
  | allocation ptr size =>
    show Restores restore (m.noteAllocation ptr size).2
    rcases noteAllocation_spec h.mirrors ptr size with hsame | ⟨_, hputs, _⟩
    · rwa [hsame]
    · exact h.puts hputs fun hkind => absurd rfl hkind
  | kernelPointers kernelName ptrs => exact h.noteKernelPointers kernelName ptrs
  | allocatorMetadata ptr blockTablePtr blockCount dirtyBitmapPtr dirtyBitmapBytes =>
    show Restores restore (m.noteAllocatorMetadata ptr _ _ _ _).2
    rcases noteAllocatorMetadata_spec h.mirrors ptr blockTablePtr blockCount dirtyBitmapPtr
      dirtyBitmapBytes rfl with hsame | ⟨old, allocator, hfind, hputs, _⟩
    · rwa [hsame]
    · exact h.puts hputs (h.id_eq old (mem_of_lookup hfind))
  | deallocation ptr => exact h.noteDeallocation ptr

theorem run (events : List Event) : Restores restore (m.run events) := by
  induction events generalizing m with
  | nil => exact h
  | cons event events ih => exact ih (h.step event)

end Restores

/-- With distinct keys, a live region's key finds its own id in the manifest. -/
theorem findRegionId_of_distinct {m : KimiConcordiaManager} (hmirrors : Mirrors m)
    (hdistinct : Distinct m) {r : KimiTrackedRegion} (hr : r ∈ m.allocations)
    (hkind : r.kind ≠ .opaqueMutable) :
    m.manifest.findRegionId r.kind r.stableKey r.trackedSize = some r.regionId := by
  unfold KimiRegionManifest.findRegionId
  have hmem : ∀ spec, spec ∈ m.manifest.regions ↔ ∃ r ∈ m.allocations, r.spec = spec := by
    intro spec
    rw [hmirrors.perm.mem_iff, mem_map]
  cases hfind : m.manifest.regions.find? fun region => region.kind = r.kind ∧
      region.stableKey = r.stableKey ∧ region.trackedSize = r.trackedSize with
  | none =>
    have := find?_eq_none.mp hfind r.spec ((hmem _).mpr ⟨r, hr, rfl⟩)
    simp [spec] at this
  | some spec =>
    obtain ⟨r₂, hr₂, rfl⟩ := (hmem _).mp (mem_of_find?_eq_some hfind)
    have hfound := find?_some hfind
    obtain ⟨hkind₂, hkey₂, _⟩ : r₂.kind = r.kind ∧ r₂.stableKey = r.stableKey ∧
        r₂.trackedSize = r.trackedSize := of_decide_eq_true hfound
    -- keys of a kind are distinct, so the entry found is that of `r`
    have heq : r₂ = r := inj_on_of_nodup_map (hdistinct.2 r.kind hkind)
      (mem_filter.mpr ⟨hr₂, by simpa⟩) (mem_filter.mpr ⟨hr, by simp⟩) hkey₂
    rw [heq]
    rfl

/-- An orderly run, call by call. -/
theorem Keeps.run {restore : Option KimiRegionManifest} {m last : KimiConcordiaManager}
    (h : Keeps restore m) (hsaved : SavedIds (savedIdsOf restore) (topOf restore))
    {events : List Event}
    (hrun : TSys.runSteps orderlyStep m events = some last) :
    Keeps restore last ∧ last = m.run events := by
  induction events generalizing m with
  | nil =>
    obtain rfl : m = last := by simpa [TSys.runSteps] using hrun
    exact ⟨h, rfl⟩
  | cons event events ih =>
    obtain ⟨next, hnext, hrest⟩ := Option.bind_eq_some_iff.mp hrun
    obtain ⟨horderly, hsome⟩ := Option.ite_none_right_eq_some.mp hnext
    cases hsome
    exact ih (h.step hsaved horderly) hrest

/-- **A second process finds its regions again.** After an orderly run, the same
calls at other addresses, on a manager that restores from the first one's final
manifest, give every live kv-cache or adapter region the id its counterpart had
at the end of the first run. -/
theorem relocated_ids (config : KimiConcordiaConfig) (saved : Option KimiRegionManifest)
    (hsaved : ∀ manifest, saved = some manifest →
      (manifest.regions.map KimiRegionSpec.regionId).Nodup)
    (f : UInt64 → UInt64) (hinj : Function.Injective f) (hnull : f 0 = 0) (events : List Event)
    {first : KimiConcordiaManager}
    (hfirst : TSys.runSteps orderlyStep (.new config saved) events =
      some first) :
    ∀ r' ∈ ((new { config with restoreEnabled := true }
        (some first.manifest)).run (events.map (Event.rename f))).allocations,
      r'.kind ≠ .opaqueMutable →
        ∃ r ∈ first.allocations, r'.ptr = f r.ptr ∧ r'.kind = r.kind ∧
          r'.regionId = r.regionId := by
  obtain ⟨hkeeps, hrun⟩ := (Keeps.new config saved).run
    (savedIds_of_nodup (nodup_restore config hsaved)) hfirst
  have halike := (Alike.new f config saved (some first.manifest)).run hinj hnull events
  rw [← hrun] at halike
  have hrestores := (Restores.new { config with restoreEnabled := true } first.manifest rfl).run
    (events.map (Event.rename f))
  intro r' hr' hkind
  obtain ⟨r, hr, heq⟩ := halike.exists_of_mem hr'
  obtain ⟨hptr, hkindEq, hkeyEq, hsizeEq⟩ := of_relocated_eq heq
  refine ⟨r, hr, hptr, hkindEq, hrestores.id_eq r' hr' hkind r.regionId ?_⟩
  rw [hkindEq] at hkind
  rw [hkindEq, hkeyEq, hsizeEq]
  exact findRegionId_of_distinct hkeeps.mirrors hkeeps.distinct hr hkind

/-! ## Two processes -/

/-- The first page is at another address in the second process. -/
def moved : UInt64 → UInt64 := Equiv.swap 0x1000 0x9000

/-- A manager that keeps its regions for a later process. -/
def recording : KimiConcordiaConfig := { restoring with restoreEnabled := false }

/-- A first process, and one that repeats its calls and restores from it. -/
def firstRun (events : List Event) : KimiConcordiaManager :=
  (new recording none).run events

def secondRun (events : List Event) : KimiConcordiaManager :=
  (new restoring (some (firstRun events).manifest)).run
    (events.map (Event.rename moved))

/-- Both pages find their ids again, one of them at its new address. -/
theorem relocated_ids_usePages : ∃ first : KimiConcordiaManager,
    TSys.runSteps orderlyStep (.new recording none) usePages = some first ∧
    (secondRun usePages).identities =
      [(0x2000, 2, "kv-cache:0002:4096"), (0x9000, 1, "kv-cache:0001:4096")] ∧
    ∀ r' ∈ ((new restoring (some first.manifest)).run
        (usePages.map (Event.rename moved))).allocations, r'.kind ≠ .opaqueMutable →
      ∃ r ∈ first.allocations, r'.ptr = moved r.ptr ∧ r'.kind = r.kind ∧
        r'.regionId = r.regionId := by
  have hsome : (TSys.runSteps orderlyStep (.new recording none)
      usePages).isSome := by decide +kernel
  obtain ⟨first, hfirst⟩ := Option.isSome_iff_exists.mp hsome
  exact ⟨first, hfirst, by decide +kernel, relocated_ids recording none (by simp) moved
    (Equiv.injective _) (by decide) usePages hfirst⟩

/-- **One id for two regions.** The third page takes the key of the second, so
the second process gives it the id of the second, not the third one it was logged
under. -/
theorem relocated_shares_id :
    (firstRun (usePages ++ replaceFirst)).identities =
      [(0x2000, 2, "kv-cache:0002:4096"), (0x3000, 3, "kv-cache:0002:4096")] ∧
    (secondRun (usePages ++ replaceFirst)).identities =
      [(0x2000, 2, "kv-cache:0002:4096"), (0x3000, 2, "kv-cache:0002:4096")] ∧
    ¬ ∀ r' ∈ (secondRun (usePages ++ replaceFirst)).allocations, r'.kind ≠ .opaqueMutable →
      ∃ r ∈ (firstRun (usePages ++ replaceFirst)).allocations, r'.ptr = moved r.ptr ∧
        r'.kind = r.kind ∧ r'.regionId = r.regionId := by
  decide +kernel

end Concordia.Kimi
