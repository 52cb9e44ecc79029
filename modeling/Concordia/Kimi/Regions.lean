import Concordia.Kimi.Manager

/-!
# What the calls do to the live regions

Up to order, every call of the manager leaves the live regions alone, puts one
region in the place of its pointer, or drops one, and the manifest follows
(`Mirrors`). A key determines its number (`stableKey_inj`), and the number a
region is given is one more than there are other regions of the kind
(`stableKeyForRegion_of_kind_ne`). Along every run the manifest mirrors the table,
in order (`manager_mirrors`).
-/

namespace Concordia.Kimi

open Concordia.Lib List Nat KimiConcordiaManager KimiTrackedRegion

/-! ## Keys -/

theorem toList_zeroPad (width n : Nat) : (zeroPad width n).toList =
    List.replicate (width - (Nat.toDigits 10 n).length) '0' ++ Nat.toDigits 10 n := by
  simp [zeroPad]

/-- Padding does not change the number. -/
theorem zeroPad_inj {width n n' : Nat} (h : (zeroPad width n).toList = (zeroPad width n').toList) :
    n = n' := by
  have hvalue : ∀ n, Nat.ofDigitChars 10 (zeroPad width n).toList 0 = n := by
    intro n
    rw [toList_zeroPad, ofDigitChars_append, ofDigitChars_replicate_zero, mul_zero,
      ofDigitChars_ten_toDigits]
  rw [← hvalue n, h, hvalue]

theorem colon_not_mem_toDigits (n : Nat) : ':' ∉ Nat.toDigits 10 n := by
  intro h
  exact absurd (isDigit_of_mem_toDigits (by decide) (by decide) h) (by decide)

theorem colon_not_mem_zeroPad (width n : Nat) : ':' ∉ (zeroPad width n).toList := by
  rw [toList_zeroPad, mem_append, not_or]
  refine ⟨?_, colon_not_mem_toDigits n⟩
  intro h
  exact absurd (eq_of_mem_replicate h) (by decide)

theorem toList_stableKey (kind : KimiRegionKind) (n size : Nat) :
    (stableKey kind n size).toList = kind.stablePrefix.toList ++
      (':' :: ((zeroPad 4 n).toList ++ ':' :: (toString size).toList)) := by
  have hkey : stableKey kind n size =
      kind.stablePrefix ++ ":" ++ zeroPad 4 n ++ ":" ++ toString size := rfl
  rw [hkey]
  simp only [String.toList_append, append_assoc]
  rfl

/-- A key determines its number. -/
theorem stableKey_inj {kind : KimiRegionKind} {n n' size size' : Nat}
    (h : stableKey kind n size = stableKey kind n' size') : n = n' := by
  have hlist := congrArg String.toList h
  rw [toList_stableKey, toList_stableKey, append_cancel_left_eq, cons_inj_right] at hlist
  -- the number ends at the first colon
  have hsize : ':' ∉ (toString size).toList := by
    rw [toString_eq_ofList_toDigits, String.toList_ofList]
    exact colon_not_mem_toDigits size
  exact zeroPad_inj
    ((append_cons_inj_of_notMem (colon_not_mem_zeroPad 4 n) hsize).mp hlist).1

/-! ## Entries -/

namespace KimiConcordiaManager

variable (m : KimiConcordiaManager) (ptr : UInt64)

@[simp] theorem upsertManifestForPtr_allocations :
    (m.upsertManifestForPtr ptr).allocations = m.allocations := by
  unfold upsertManifestForPtr
  split <;> rfl

@[simp] theorem upsertManifestForPtr_config : (m.upsertManifestForPtr ptr).config = m.config := by
  unfold upsertManifestForPtr
  split <;> rfl

@[simp] theorem upsertManifestForPtr_nextAllocationIndex :
    (m.upsertManifestForPtr ptr).nextAllocationIndex = m.nextAllocationIndex := by
  unfold upsertManifestForPtr
  split <;> rfl

variable {ptr} {f : KimiTrackedRegion → KimiTrackedRegion}

theorem map_updateRegion {β : Type} {g : KimiTrackedRegion → β} (hg : ∀ r, g (f r) = g r) :
    (m.updateRegion ptr f).allocations.map g = m.allocations.map g :=
  map_updateFirst ptr hg m.allocations

theorem region_updateRegion (hf : ∀ r, (f r).ptr = r.ptr) :
    (m.updateRegion ptr f).region ptr = (m.region ptr).map f :=
  lookup_updateFirst ptr hf m.allocations

theorem region_updateRegion_of_ne (hf : ∀ r, (f r).ptr = r.ptr) {p : UInt64} (hp : p ≠ ptr) :
    (m.updateRegion ptr f).region p = m.region p :=
  lookup_updateFirst_of_ne hp hf m.allocations

/-- The entry of a pointer depends on the allocations only. -/
theorem region_congr {m m' : KimiConcordiaManager} (h : m'.allocations = m.allocations)
    (p : UInt64) : m'.region p = m.region p := by
  rw [region, region, h]

end KimiConcordiaManager

/-! ## The mirror -/

/-- Pointers are distinct, and the manifest holds the entries of the live
regions. -/
structure Mirrors (m : KimiConcordiaManager) : Prop where
  nodup : (m.allocations.map ptr).Nodup
  perm : m.manifest.regions.Perm (m.allocations.map spec)

/-- The regions other than that of `ptr`. -/
def KimiConcordiaManager.rest (m : KimiConcordiaManager) (ptr : UInt64) : List KimiTrackedRegion :=
  others KimiTrackedRegion.ptr ptr m.allocations

/-- `m'` is `m` with `region` in the place of its pointer. -/
structure Puts (m : KimiConcordiaManager) (region : KimiTrackedRegion) (m' : KimiConcordiaManager) :
    Prop where
  mirrors : Mirrors m'
  perm : m'.allocations ~ region :: m.rest region.ptr
  restoreManifest : m'.restoreManifest = m.restoreManifest

namespace Mirrors

variable {m m' : KimiConcordiaManager}

theorem manifest_nodup (h : Mirrors m) : (m.manifest.regions.map KimiRegionSpec.ptr).Nodup := by
  have hperm := h.perm.map KimiRegionSpec.ptr
  rw [map_map] at hperm
  exact hperm.nodup_iff.mpr h.nodup

/-- Bringing the manifest up to date after `region` has been put in the place of
its pointer. -/
theorem upsertManifestForPtr (h : Mirrors m) {region : KimiTrackedRegion}
    (hput : m'.allocations ~ region :: m.rest region.ptr) (hmanifest : m'.manifest = m.manifest)
    (hrestore : m'.restoreManifest = m.restoreManifest) :
    Puts m region (m'.upsertManifestForPtr region.ptr) ∧
      (m'.upsertManifestForPtr region.ptr).nextRegionId = m'.nextRegionId := by
  have hnd : (m'.allocations.map ptr).Nodup :=
    (hput.map _).nodup_iff.mpr (nodup_cons_others h.nodup region)
  have hfind : m'.region region.ptr = some region :=
    lookup_of_mem hnd (hput.mem_iff.mpr mem_cons_self)
  have hmap : (m.rest region.ptr).map spec =
      others KimiRegionSpec.ptr region.ptr (m.allocations.map spec) :=
    map_others fun _ => rfl
  have hperm : (m.manifest.upsert region.spec).regions ~
      m'.allocations.map spec :=
    calc (m.manifest.upsert region.spec).regions
      _ ~ upsert KimiRegionSpec.ptr region.spec m.manifest.regions :=
        perm_insertionSort _ _
      _ ~ region.spec :: others KimiRegionSpec.ptr region.ptr m.manifest.regions :=
        upsert_perm h.manifest_nodup _
      _ ~ region.spec :: (m.rest region.ptr).map spec := by
        rw [hmap]
        exact (h.perm.filter _).cons _
      _ ~ m'.allocations.map spec := (hput.map _).symm
  rw [KimiConcordiaManager.upsertManifestForPtr, hfind]
  exact ⟨⟨⟨hnd, by rw [hmanifest]; exact hperm⟩, hput, hrestore⟩, rfl⟩

end Mirrors

section Calls

variable {m : KimiConcordiaManager}

theorem perm_of_region (h : Mirrors m) {ptr : UInt64} {old : KimiTrackedRegion}
    (hfind : m.region ptr = some old) : m.allocations ~ old :: m.rest ptr :=
  perm_of_lookup h.nodup hfind

/-- Updating the region of a pointer, and its manifest entry. -/
theorem puts_updateRegion (h : Mirrors m) {ptr : UInt64} {old : KimiTrackedRegion}
    (hfind : m.region ptr = some old) (f : KimiTrackedRegion → KimiTrackedRegion)
    (hf : (f old).ptr = old.ptr) :
    Puts m (f old) ((m.updateRegion ptr f).upsertManifestForPtr ptr) ∧
      ((m.updateRegion ptr f).upsertManifestForPtr ptr).nextRegionId = m.nextRegionId := by
  have hptr : (f old).ptr = ptr := hf.trans (key_of_lookup hfind)
  have hput : (m.updateRegion ptr f).allocations ~ f old :: m.rest (f old).ptr := by
    rw [hptr]
    exact updateFirst_perm h.nodup hfind f
  have hputs := h.upsertManifestForPtr hput rfl rfl
  rwa [hptr] at hputs

/-- A tracked allocation puts a fresh region in the place of its pointer. -/
theorem puts_noteAllocation (h : Mirrors m) {ptr : UInt64} {size : Nat}
    (htrack : ¬ (ptr = 0 ∨ m.config.shouldTrackAllocation size = false))
    (hfree : ¬ ((m.region ptr).isSome ∨ m.allocations.length ≥ m.config.maxRegions)) :
    Puts m (m.freshRegion ptr size) (m.noteAllocation ptr size).2 ∧
      (m.noteAllocation ptr size).2.nextRegionId = m.nextRegionId + 1 := by
  have hnone : m.region ptr = none := by
    rw [not_or] at hfree
    simpa using hfree.1
  have hrest : m.rest ptr = m.allocations := others_of_not_mem (not_mem_map_of_lookup hnone)
  have hput : (m.insertRegion (m.freshRegion ptr size)).allocations ~
      m.freshRegion ptr size :: m.rest ptr := by
    rw [hrest]
    exact perm_orderedInsert _ _ _
  rw [noteAllocation, if_neg htrack, if_neg hfree]
  exact h.upsertManifestForPtr hput rfl rfl

/-- A new region is opaque and has the next id. -/
theorem noteAllocation_spec (h : Mirrors m) (ptr : UInt64) (size : Nat) :
    (m.noteAllocation ptr size).2 = m ∨
      m.region ptr = none ∧ Puts m (m.freshRegion ptr size) (m.noteAllocation ptr size).2 ∧
        (m.noteAllocation ptr size).2.nextRegionId = m.nextRegionId + 1 := by
  by_cases htrack : ptr = 0 ∨ m.config.shouldTrackAllocation size = false
  · rw [noteAllocation, if_pos htrack]
    exact .inl rfl
  by_cases hfree : (m.region ptr).isSome ∨ m.allocations.length ≥ m.config.maxRegions
  · rw [noteAllocation, if_neg htrack, if_pos hfree]
    exact .inl rfl
  refine .inr ⟨?_, puts_noteAllocation h htrack hfree⟩
  rw [not_or] at hfree
  simpa using hfree.1

/-- A region used by a kernel takes its kind, a key of that kind, and the id
saved for the key, if there is one. -/
theorem noteKernelPointer_spec (h : Mirrors m) (kernelName : String) (kind : KimiRegionKind)
    (ptr : UInt64) :
    m.noteKernelPointer kernelName kind ptr = m ∨
      ∃ old key, m.region ptr = some old ∧
        key = m.stableKeyForRegion ptr kind old.trackedSize ∧
        Puts m (old.classified kernelName kind key
            ((m.savedRegionId kind key old.trackedSize).getD old.regionId))
          (m.noteKernelPointer kernelName kind ptr) ∧
        (m.noteKernelPointer kernelName kind ptr).nextRegionId = m.nextRegionId := by
  unfold noteKernelPointer
  split
  · exact .inl rfl
  · rename_i old hfind
    exact .inr ⟨old, _, hfind, rfl, puts_updateRegion h hfind (·.classified _ _ _ _) rfl⟩

theorem noteAllocatorMetadata_spec (h : Mirrors m) (ptr blockTablePtr : UInt64) (blockCount : Nat)
    (dirtyBitmapPtr : UInt64) (dirtyBitmapBytes : Nat) {m' : KimiConcordiaManager}
    (hm' : (m.noteAllocatorMetadata ptr blockTablePtr blockCount dirtyBitmapPtr
      dirtyBitmapBytes).2 = m') :
    m' = m ∨ ∃ old allocator, m.region ptr = some old ∧
      Puts m (old.withAllocator allocator) m' ∧ m'.nextRegionId = m.nextRegionId := by
  unfold noteAllocatorMetadata at hm'
  split at hm'
  · exact .inl hm'.symm
  split at hm'
  · exact .inl hm'.symm
  split at hm'
  · rename_i hsome
    obtain ⟨old, hfind⟩ := Option.isSome_iff_exists.mp hsome
    subst hm'
    exact .inr ⟨old, _, hfind, puts_updateRegion h hfind (·.withAllocator _) rfl⟩
  · exact .inl hm'.symm

theorem mirrors_noteDeallocation (h : Mirrors m) (ptr : UInt64) :
    Mirrors (m.noteDeallocation ptr) := by
  unfold noteDeallocation
  split
  · exact h
  refine ⟨(filter_sublist.map _).nodup h.nodup, ?_⟩
  have hmap : (m.rest ptr).map spec =
      others KimiRegionSpec.ptr ptr (m.allocations.map spec) :=
    map_others fun _ => rfl
  show others KimiRegionSpec.ptr ptr m.manifest.regions ~
    (m.rest ptr).map spec
  rw [hmap]
  exact h.perm.filter _

/-- Deallocation drops the region of the pointer, if there is one. -/
theorem noteDeallocation_allocations (m : KimiConcordiaManager) (ptr : UInt64) :
    (m.noteDeallocation ptr).allocations = m.rest ptr := by
  unfold noteDeallocation
  split
  · rename_i hnone
    exact (others_of_not_mem (not_mem_map_of_lookup hnone)).symm
  · rfl

/-- Deallocation drops the region of the pointer. -/
theorem noteDeallocation_spec (h : Mirrors m) (ptr : UInt64) :
    m.noteDeallocation ptr = m ∨
      ∃ old, m.region ptr = some old ∧ Mirrors (m.noteDeallocation ptr) ∧
        (m.noteDeallocation ptr).allocations = m.rest ptr ∧
        (m.noteDeallocation ptr).restoreManifest = m.restoreManifest ∧
        (m.noteDeallocation ptr).nextRegionId = m.nextRegionId := by
  cases hfind : m.region ptr with
  | none =>
    left
    rw [noteDeallocation, hfind]
  | some old =>
    refine .inr ⟨old, rfl, mirrors_noteDeallocation h ptr, noteDeallocation_allocations m ptr, ?_⟩
    rw [noteDeallocation, hfind]
    exact ⟨rfl, rfl⟩

/-! ## The key of a region -/

variable (h : Mirrors m) {ptr : UInt64} {old : KimiTrackedRegion} (hfind : m.region ptr = some old)

include h hfind

/-- The entry the manifest has for a pointer. -/
theorem mem_manifest_iff (spec : KimiRegionSpec) :
    spec ∈ m.manifest.regions ∧ spec.ptr = ptr ↔ spec = old.spec := by
  rw [h.perm.mem_iff]
  constructor
  · rintro ⟨hmem, hptr⟩
    obtain ⟨region, hregion, rfl⟩ := mem_map.mp hmem
    have hsame := lookup_of_mem h.nodup hregion
    rw [show region.ptr = ptr from hptr] at hsame
    rw [Option.some.inj (hsame.symm.trans hfind)]
  · rintro rfl
    have hptr : old.ptr = ptr := key_of_lookup hfind
    exact ⟨mem_map_of_mem (mem_of_lookup hfind), hptr⟩

/-- A region that already has the kind keeps its key. -/
theorem stableKeyForRegion_of_kind_eq (size : Nat) :
    m.stableKeyForRegion ptr old.kind size = old.stableKey := by
  unfold stableKeyForRegion
  split
  · rename_i existing hexisting
    have hprop := find?_some hexisting
    simp only [decide_eq_true_eq] at hprop
    rw [(mem_manifest_iff h hfind existing).mp ⟨mem_of_find?_eq_some hexisting, hprop.1⟩]
    rfl
  · rename_i hnone
    have hold := (mem_manifest_iff h hfind old.spec).mpr rfl
    exact absurd (find?_eq_none.mp hnone old.spec hold.1)
      (by simpa using ⟨hold.2, rfl⟩)

/-- A region that changes its kind is numbered after the others of that kind. -/
theorem stableKeyForRegion_of_kind_ne {kind : KimiRegionKind} (hkind : old.kind ≠ kind) (size :
    Nat) :
    m.stableKeyForRegion ptr kind size =
      stableKey kind ((m.rest ptr).countP (·.kind = kind) + 1) size := by
  have hnone : m.manifest.regions.find? (fun r => r.ptr = ptr ∧ r.kind = kind) = none := by
    rw [find?_eq_none]
    intro spec hspec
    simp only [decide_eq_true_eq, not_and]
    intro hptr
    rw [(mem_manifest_iff h hfind spec).mp ⟨hspec, hptr⟩]
    exact hkind
  have hcount : m.manifest.regions.countP (fun r => r.ptr ≠ ptr ∧ r.kind = kind) =
      (m.rest ptr).countP (·.kind = kind) := by
    rw [h.perm.countP_eq, countP_map, rest, others, countP_filter]
    apply countP_congr
    intro region _
    by_cases hptr : region.ptr = ptr
    · simp [spec, hptr]
    · simp only [Function.comp_apply, spec, hptr, ne_eq, not_false_eq_true,
        true_and, decide_true, Bool.and_true]
  rw [stableKeyForRegion, hnone]
  simp only [hcount]

end Calls

/-! ## Every run -/

/-- The manifest mirrors the live regions, in order, and these are not too many. -/
structure Tabulated (config : KimiConcordiaConfig) (m : KimiConcordiaManager) : Prop where
  mirrors : Mirrors m
  sorted : m.manifest.regions.Pairwise SortKeyLe
  config_eq : m.config = config
  length_le : m.allocations.length ≤ config.maxRegions

instance : Std.Total SortKeyLe where
  total a b := by
    simp only [SortKeyLe, UInt64.lt_iff_toNat_lt, UInt64.le_iff_toNat_le, ← UInt64.toNat_inj]
    omega

instance : IsTrans KimiRegionSpec SortKeyLe where
  trans a b c := by
    simp only [SortKeyLe, UInt64.lt_iff_toNat_lt, UInt64.le_iff_toNat_le, ← UInt64.toNat_inj]
    omega

theorem sorted_upsertManifestForPtr {m : KimiConcordiaManager}
    (h : m.manifest.regions.Pairwise SortKeyLe) (ptr : UInt64) :
    (m.upsertManifestForPtr ptr).manifest.regions.Pairwise SortKeyLe := by
  unfold upsertManifestForPtr
  split
  · exact h
  · exact pairwise_insertionSort _ _

namespace Tabulated

variable {config : KimiConcordiaConfig} {m : KimiConcordiaManager} (h : Tabulated config m)

include h

/-- Updating the region of a pointer, and its manifest entry. -/
theorem updateRegion {ptr : UInt64} {old : KimiTrackedRegion} (hfind : m.region ptr = some old)
    (f : KimiTrackedRegion → KimiTrackedRegion) (hf : ∀ r, (f r).ptr = r.ptr) :
    Tabulated config ((m.updateRegion ptr f).upsertManifestForPtr ptr) := by
  have hlength : ((m.updateRegion ptr f).allocations.map KimiTrackedRegion.ptr).length = _ :=
    congrArg length (m.map_updateRegion hf)
  rw [length_map, length_map] at hlength
  refine ⟨(puts_updateRegion h.mirrors hfind f (hf old)).1.mirrors, ?_, ?_, ?_⟩
  · exact sorted_upsertManifestForPtr (m := m.updateRegion ptr f) h.sorted ptr
  · rw [upsertManifestForPtr_config]
    exact h.config_eq
  · rw [upsertManifestForPtr_allocations, hlength]
    exact h.length_le

theorem noteAllocation (ptr : UInt64) (size : Nat) :
    Tabulated config (m.noteAllocation ptr size).2 := by
  by_cases htrack : ptr = 0 ∨ m.config.shouldTrackAllocation size = false
  · rwa [KimiConcordiaManager.noteAllocation, if_pos htrack]
  by_cases hfree : (m.region ptr).isSome ∨ m.allocations.length ≥ m.config.maxRegions
  · rwa [KimiConcordiaManager.noteAllocation, if_neg htrack, if_pos hfree]
  have hmirrors := (puts_noteAllocation h.mirrors htrack hfree).1.mirrors
  rw [KimiConcordiaManager.noteAllocation, if_neg htrack, if_neg hfree] at hmirrors ⊢
  rw [not_or, not_le, h.config_eq] at hfree
  refine ⟨hmirrors, ?_, ?_, ?_⟩
  · exact sorted_upsertManifestForPtr (m := m.insertRegion _) h.sorted ptr
  · rw [upsertManifestForPtr_config]
    exact h.config_eq
  · rw [upsertManifestForPtr_allocations]
    exact (orderedInsert_length _ _ _).trans_le hfree.2

theorem noteKernelPointer (kernelName : String) (kind : KimiRegionKind) (ptr : UInt64) :
    Tabulated config (m.noteKernelPointer kernelName kind ptr) := by
  unfold KimiConcordiaManager.noteKernelPointer
  split
  · exact h
  · rename_i old hfind
    exact h.updateRegion hfind _ fun _ => rfl

theorem noteKernelPointers (kernelName : String) (ptrs : List UInt64) :
    Tabulated config (m.noteKernelPointers kernelName ptrs) := by
  unfold KimiConcordiaManager.noteKernelPointers
  split
  · exact h
  · exact foldlRecOn _ _ h fun m hm ptr _ => hm.noteKernelPointer kernelName _ ptr

theorem noteAllocatorMetadata (ptr blockTablePtr : UInt64) (blockCount : Nat)
    (dirtyBitmapPtr : UInt64) (dirtyBitmapBytes : Nat) :
    Tabulated config (m.noteAllocatorMetadata ptr blockTablePtr blockCount dirtyBitmapPtr
      dirtyBitmapBytes).2 := by
  unfold KimiConcordiaManager.noteAllocatorMetadata
  split
  · exact h
  split
  · exact h
  split
  · rename_i hsome
    obtain ⟨old, hfind⟩ := Option.isSome_iff_exists.mp hsome
    exact h.updateRegion hfind _ fun _ => rfl
  · exact h

theorem noteDeallocation (ptr : UInt64) : Tabulated config (m.noteDeallocation ptr) := by
  have hmirrors := mirrors_noteDeallocation h.mirrors ptr
  unfold KimiConcordiaManager.noteDeallocation at hmirrors ⊢
  split
  · exact h
  · simp_all only
    exact ⟨hmirrors, h.sorted.filter _, h.config_eq, (length_filter_le _ _).trans h.length_le⟩

theorem step (event : Event) : Tabulated config (m.step event) := by
  cases event with
  | allocation ptr size => exact h.noteAllocation ptr size
  | kernelPointers kernelName ptrs => exact h.noteKernelPointers kernelName ptrs
  | allocatorMetadata => exact h.noteAllocatorMetadata _ _ _ _ _
  | deallocation ptr => exact h.noteDeallocation ptr

end Tabulated

/-- **The manifest mirrors the table.** In every run the manifest has exactly one
entry per live region, with the region's own data, sorted by allocation index and
region id, and there are at most `max_regions` of them. -/
theorem manager_mirrors (config : KimiConcordiaConfig) (saved : Option KimiRegionManifest)
    {m : KimiConcordiaManager} (hm : (manager config saved).Reachable m) :
    (m.allocations.map ptr).Nodup ∧
      m.manifest.regions ~ m.allocations.map spec ∧
      m.manifest.regions.Pairwise SortKeyLe ∧ m.allocations.length ≤ config.maxRegions := by
  have h : Tabulated config m := by
    refine hm.induct (P := Tabulated config) ?_ ?_
    · rintro m rfl
      exact ⟨⟨nodup_nil, .refl _⟩, .nil, rfl, Nat.zero_le _⟩
    · rintro m event _ h rfl
      exact h.step event
  exact ⟨h.mirrors.nodup, h.mirrors.perm, h.sorted, h.length_le⟩

theorem manager_mirrors_twoRegions :
    let m := ((new ⟨true, false, 4096, 8⟩ none).step
      (.allocation 4096 4096)).step (.allocation 8192 4096)
    m.manifest.regions.length = 2 ∧ m.manifest.regions ~ m.allocations.map spec :=
  ⟨by decide +kernel, (manager_mirrors ⟨true, false, 4096, 8⟩ none
    (((TSys.Reachable.init rfl).step rfl).step rfl)).2.1⟩

end Concordia.Kimi
