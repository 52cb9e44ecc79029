import Concordia.Kimi.Identity

/-!
# Orderly runs of the manager

Keys are numbered by counting the other regions of the kind, so they stay
distinct as long as a kv-cache or adapter region is only freed, or moved to the
other kind, while it has the highest number; and an id taken from the restore
manifest stays its own as long as a region that moves on takes another saved id
(`manager_identifies`). Freeing an earlier region makes the next one share the
key, and in restore mode the id, of the last (`manager_shares_identity`).
-/

namespace Concordia.Kimi

open Concordia.Lib List KimiTrackedRegion KimiConcordiaManager

/-! ## Orderly runs -/

namespace KimiConcordiaManager

variable (m : KimiConcordiaManager)

/-- The region is opaque, or has the highest number of its kind. -/
def mayLeave (region : KimiTrackedRegion) : Bool :=
  region.kind = .opaqueMutable ∨ region.stableKey =
    stableKey region.kind (countKind region.kind m.allocations) region.trackedSize

def nextKey (kind : KimiRegionKind) (size : Nat) : String :=
  stableKey kind (countKind kind m.allocations + 1) size

/-- The region of the pointer, if it changes its kind, may leave the old one;
and if the restore manifest has an id for its old key, it has one for the next
key of the new kind. -/
def mayClassify (kind : KimiRegionKind) (ptr : UInt64) : Bool :=
  match m.region ptr with
  | none => true
  | some region => region.kind = kind ∨ (m.mayLeave region = true ∧
      (region.kind = .opaqueMutable ∨
        (m.savedRegionId region.kind region.stableKey region.trackedSize).isNone ∨
        (m.savedRegionId kind (m.nextKey kind region.trackedSize) region.trackedSize).isSome))

/-- Every pointer of a launch in turn. -/
def mayClassifyAll (kernelName : String) (kind : KimiRegionKind) :
    KimiConcordiaManager → List UInt64 → Bool
  | _, [] => true
  | m, ptr :: ptrs => m.mayClassify kind ptr &&
      mayClassifyAll kernelName kind (m.noteKernelPointer kernelName kind ptr) ptrs

/-- Ids do not run out, and a kv-cache or adapter region leaves its kind only
as the last of it. -/
def orderly : Event → Bool
  | .allocation _ _ => m.nextRegionId.toNat + 1 < 2 ^ 64
  | .kernelPointers kernelName ptrs =>
    match regionKindForKernel kernelName with
    | none => true
    | some kind => mayClassifyAll kernelName kind m (ptrs.filter (· ≠ 0))
  | .allocatorMetadata _ _ _ _ _ => true
  | .deallocation ptr =>
    match m.region ptr with
    | none => true
    | some region => m.mayLeave region

end KimiConcordiaManager

/-- The first id of a restored manager is above the saved ones, unless the
counter is already at its end. -/
theorem maxRegionId_lt_succ (manifest : KimiRegionManifest) {next : UInt64}
    (hnext : next = max (saturatingSucc manifest.maxRegionId) 1) :
    manifest.maxRegionId.toNat < next.toNat ∨ next.toNat + 1 = 2 ^ 64 := by
  have hmax := UInt64.le_iff_toNat_le.mp
    (le_max_pair (saturatingSucc manifest.maxRegionId) 1).1
  rw [← hnext] at hmax
  unfold saturatingSucc at hmax
  split at hmax
  · rename_i hroom
    rw [UInt64.toNat_add, UInt64.toNat_one, Nat.mod_eq_of_lt hroom] at hmax
    exact .inl hmax
  · have := next.toNat_lt
    exact .inr (by omega)

theorem regionKindForKernel_ne_opaqueMutable {kernelName : String} {kind : KimiRegionKind}
    (h : regionKindForKernel kernelName = some kind) : kind ≠ .opaqueMutable := by
  simp only [regionKindForKernel] at h
  rintro rfl
  split at h
  · simp at h
  · split at h <;> simp at h

/-- The invariant of orderly runs. -/
structure Keeps (restore : Option KimiRegionManifest) (m : KimiConcordiaManager) : Prop where
  mirrors : Mirrors m
  restoreManifest : m.restoreManifest = restore
  top_lt : topOf restore < m.nextRegionId.toNat ∨ m.nextRegionId.toNat + 1 = 2 ^ 64
  identified : ∃ number, Identified (savedIdsOf restore) (topOf restore) m.nextRegionId.toNat
    number m.allocations

namespace Keeps

variable {restore : Option KimiRegionManifest} {m m' : KimiConcordiaManager}

section

variable (h : Keeps restore m)

include h

theorem savedRegionId_eq : m.savedRegionId = savedIdsOf restore := by
  rw [← h.restoreManifest]
  rfl

variable {old : KimiTrackedRegion}

/-- The regions told apart, with the one of a pointer in front. -/
theorem exists_identified_cons {ptr : UInt64} (hfind : m.region ptr = some old) :
    ∃ number, Identified (savedIdsOf restore) (topOf restore) m.nextRegionId.toNat number
      (old :: m.rest ptr) := by
  obtain ⟨number, hid⟩ := h.identified
  exact ⟨number, hid.perm (perm_of_region h.mirrors hfind).symm⟩

/-- Putting a region in the place of its pointer. -/
theorem puts {region : KimiTrackedRegion} (hputs : Puts m region m')
    (hnext : m'.nextRegionId = m.nextRegionId) (hid : ∃ number, Identified (savedIdsOf restore)
      (topOf restore) m.nextRegionId.toNat number (region :: m.rest region.ptr)) :
    Keeps restore m' := by
  obtain ⟨number, hid⟩ := hid
  refine ⟨hputs.mirrors, hputs.restoreManifest.trans h.restoreManifest, ?_, number, ?_⟩
  · rw [hnext]
    exact h.top_lt
  · rw [hnext]
    exact hid.perm hputs.perm

/-- A region that may leave is opaque or the last of its kind. -/
theorem last_of_mayLeave {ptr : UInt64} (hfind : m.region ptr = some old)
    (hleave : m.mayLeave old = true) :
    old.kind = .opaqueMutable ∨ old.stableKey =
      stableKey old.kind (countKind old.kind (old :: m.rest ptr)) old.trackedSize := by
  have hcount : countKind old.kind (old :: m.rest ptr) = countKind old.kind m.allocations :=
    ((perm_of_region h.mirrors hfind).countP_eq _).symm
  rw [hcount]
  exact of_decide_eq_true hleave

theorem noteAllocation (ptr : UInt64) (size : Nat)
    (hsaved : SavedIds (savedIdsOf restore) (topOf restore))
    (hfree : m.nextRegionId.toNat + 1 < 2 ^ 64) : Keeps restore (m.noteAllocation ptr size).2 := by
  rcases noteAllocation_spec h.mirrors ptr size with hsame | ⟨hnone, hputs, hnext⟩
  · rwa [hsame]
  obtain ⟨number, hid⟩ := h.identified
  have hrest : m.rest ptr = m.allocations := others_of_not_mem (not_mem_map_of_lookup hnone)
  have htop : topOf restore < m.nextRegionId.toNat := by
    have := h.top_lt
    omega
  have hnext' : (m.noteAllocation ptr size).2.nextRegionId.toNat = m.nextRegionId.toNat + 1 := by
    rw [hnext, UInt64.toNat_add, UInt64.toNat_one, Nat.mod_eq_of_lt hfree]
  -- the next id is above the counted and the saved ones
  have hnew : ∀ x ∈ m.rest ptr, x.regionId ≠ m.nextRegionId := by
    intro x hx heq
    rw [hrest] at hx
    rcases hid.id_origin x hx with ⟨_, hlt⟩ | ⟨_, hkey⟩
    · rw [heq] at hlt
      omega
    · have := hsaved.le hkey
      rw [heq] at this
      omega
  have hadd := (hrest ▸ hid : Identified _ _ _ _ (m.rest ptr)).add (r := m.freshRegion ptr size)
    (Nat.le_succ _) (fun x hx => (mem_others.mp hx).2) (fun hkind => absurd rfl hkind)
    (.inl ⟨htop, Nat.lt_succ_self _⟩) hnew
  refine ⟨hputs.mirrors, hputs.restoreManifest.trans h.restoreManifest, .inl (by omega), ?_⟩
  rw [hnext']
  exact ⟨_, hadd.perm hputs.perm⟩

/-- A region that gets its kind from a kernel. -/
theorem noteKernelPointer (kernelName : String) {kind : KimiRegionKind} (ptr : UInt64)
    (hsaved : SavedIds (savedIdsOf restore) (topOf restore)) (hclass : kind ≠ .opaqueMutable)
    (hmay : m.mayClassify kind ptr = true) :
    Keeps restore (m.noteKernelPointer kernelName kind ptr) := by
  rcases noteKernelPointer_spec h.mirrors kernelName kind ptr with
    hsame | ⟨old, key, hfind, hkey, hputs, hnext⟩
  · rwa [hsame]
  obtain ⟨number, hid⟩ := h.exists_identified_cons hfind
  have hptr : old.ptr = ptr := key_of_lookup hfind
  have hrest : ∀ x ∈ m.rest ptr, x.ptr ≠ old.ptr := fun x hx => hptr ▸ (mem_others.mp hx).2
  rw [h.savedRegionId_eq] at hputs
  refine h.puts hputs hnext ?_
  show ∃ number, Identified _ _ _ number (_ :: m.rest old.ptr)
  rw [hptr]
  by_cases hkind : old.kind = kind
  · -- the kind stays, and the key with it
    subst hkind
    rw [stableKeyForRegion_of_kind_eq h.mirrors hfind] at hkey
    refine ⟨number, hid.replace hsaved hrest rfl rfl hkey rfl ?_⟩
    cases hfound : savedIdsOf restore old.kind key old.trackedSize with
    | none => exact .inl rfl
    | some id => exact .inr ⟨hclass, hfound⟩
  · -- the region leaves its old kind and joins the new one as its last
    rw [stableKeyForRegion_of_kind_ne h.mirrors hfind hkind] at hkey
    have hcount : countKind kind m.allocations = countKind kind (m.rest ptr) := by
      rw [countKind, (perm_of_region h.mirrors hfind).countP_eq, countP_cons, if_neg (by simpa)]
      rfl
    obtain ⟨hleave, hids⟩ : m.mayLeave old = true ∧ (old.kind = .opaqueMutable ∨
        savedIdsOf restore old.kind old.stableKey old.trackedSize = none ∨
        savedIdsOf restore kind key old.trackedSize ≠ none) := by
      have hkey' : m.nextKey kind old.trackedSize = key := by
        rw [hkey, nextKey, hcount]
        rfl
      simp only [mayClassify, hfind, h.savedRegionId_eq, hkey'] at hmay
      simpa [hkind, Option.isSome_iff_ne_none] using hmay
    refine hid.move hsaved hrest rfl (h.last_of_mayLeave hfind hleave) hclass hkey ?_
    cases hfound : savedIdsOf restore kind key old.trackedSize with
    | some id => exact .inl hfound
    | none =>
      rw [← or_assoc] at hids
      exact .inr ⟨rfl, hids.resolve_right (absurd hfound)⟩

theorem noteKernelPointers (kernelName : String) (ptrs : List UInt64)
    (hsaved : SavedIds (savedIdsOf restore) (topOf restore))
    (horderly : m.orderly (.kernelPointers kernelName ptrs) = true) :
    Keeps restore (m.noteKernelPointers kernelName ptrs) := by
  unfold orderly at horderly
  unfold KimiConcordiaManager.noteKernelPointers
  cases hkind : regionKindForKernel kernelName with
  | none => exact h
  | some kind =>
    simp only [hkind] at horderly
    have hclass := regionKindForKernel_ne_opaqueMutable hkind
    generalize ptrs.filter (· ≠ 0) = ptrs at horderly
    induction ptrs generalizing m with
    | nil => exact h
    | cons ptr ptrs ih =>
      rw [mayClassifyAll, Bool.and_eq_true] at horderly
      exact ih (h.noteKernelPointer kernelName ptr hsaved hclass horderly.1) horderly.2

theorem noteAllocatorMetadata (ptr blockTablePtr : UInt64) (blockCount : Nat)
    (dirtyBitmapPtr : UInt64) (dirtyBitmapBytes : Nat)
    (hsaved : SavedIds (savedIdsOf restore) (topOf restore)) :
    Keeps restore (m.noteAllocatorMetadata ptr blockTablePtr blockCount dirtyBitmapPtr
      dirtyBitmapBytes).2 := by
  rcases noteAllocatorMetadata_spec h.mirrors ptr blockTablePtr blockCount dirtyBitmapPtr
    dirtyBitmapBytes rfl with hsame | ⟨old, allocator, hfind, hputs, hnext⟩
  · rwa [hsame]
  obtain ⟨number, hid⟩ := h.exists_identified_cons hfind
  have hptr : old.ptr = ptr := key_of_lookup hfind
  refine h.puts hputs hnext ⟨number, ?_⟩
  show Identified _ _ _ _ (_ :: m.rest old.ptr)
  rw [hptr]
  exact hid.replace hsaved (fun x hx => hptr ▸ (mem_others.mp hx).2) rfl rfl rfl rfl (.inl rfl)

theorem noteDeallocation (ptr : UInt64) (horderly : m.orderly (.deallocation ptr) = true) :
    Keeps restore (m.noteDeallocation ptr) := by
  rcases noteDeallocation_spec h.mirrors ptr with
    hsame | ⟨old, hfind, hmirrors, halloc, hrestore, hnext⟩
  · rwa [hsame]
  simp only [orderly, hfind] at horderly
  obtain ⟨number, hid⟩ := h.exists_identified_cons hfind
  refine ⟨hmirrors, hrestore.trans h.restoreManifest, ?_, number, ?_⟩
  · rw [hnext]
    exact h.top_lt
  · rw [hnext, halloc]
    have hptr : old.ptr = ptr := key_of_lookup hfind
    exact hid.drop (fun x hx => hptr ▸ (mem_others.mp hx).2) (h.last_of_mayLeave hfind horderly)

theorem step (hsaved : SavedIds (savedIdsOf restore) (topOf restore)) {event : Event}
    (horderly : m.orderly event = true) : Keeps restore (m.step event) := by
  cases event with
  | allocation ptr size => exact h.noteAllocation ptr size hsaved (of_decide_eq_true horderly)
  | kernelPointers kernelName ptrs => exact h.noteKernelPointers kernelName ptrs hsaved horderly
  | allocatorMetadata ptr blockTablePtr blockCount dirtyBitmapPtr dirtyBitmapBytes =>
    exact h.noteAllocatorMetadata _ _ _ _ _ hsaved
  | deallocation ptr => exact h.noteDeallocation ptr horderly

end

/-- A new manager counts its ids from above the saved ones. -/
theorem new (config : KimiConcordiaConfig) (saved : Option KimiRegionManifest) :
    Keeps (if config.restoreEnabled then saved else none) (.new config saved) := by
  refine ⟨⟨nodup_nil, .refl _⟩, rfl, ?_, fun _ => 0, .nil⟩
  simp only [KimiConcordiaManager.new]
  cases (if config.restoreEnabled then saved else none) with
  | none => exact .inl (by decide)
  | some manifest => exact maxRegionId_lt_succ manifest rfl

end Keeps

/-- No two live regions share an id, and no two of a kind a key. -/
def Distinct (m : KimiConcordiaManager) : Prop :=
  (m.allocations.map regionId).Nodup ∧
    ∀ kind, kind ≠ .opaqueMutable →
      ((m.allocations.filter (·.kind = kind)).map KimiTrackedRegion.stableKey).Nodup

theorem Keeps.distinct {restore : Option KimiRegionManifest} {m : KimiConcordiaManager}
    (h : Keeps restore m) : Distinct m := by
  obtain ⟨number, hid⟩ := h.identified
  have hsame : ∀ x ∈ m.allocations, ∀ y ∈ m.allocations, x.ptr = y.ptr → x = y :=
    fun x hx y hy => inj_on_of_nodup_map h.mirrors.nodup hx hy
  have hnd : m.allocations.Nodup := h.mirrors.nodup.of_map
  refine ⟨hnd.map_on fun x hx y hy heq => hsame x hx y hy (hid.id_inj x hx y hy heq), ?_⟩
  intro kind hkind
  refine (hnd.filter _).map_on fun x hx y hy heq => ?_
  obtain ⟨hx, hxkind⟩ := mem_filter.mp hx
  obtain ⟨hy, hykind⟩ := mem_filter.mp hy
  have hxkind : x.kind = kind := of_decide_eq_true hxkind
  have hykind : y.kind = kind := of_decide_eq_true hykind
  apply hsame x hx y hy
  by_contra hptr
  exact hid.key_ne hx hy hptr (hxkind.trans hykind.symm) (hxkind ▸ hkind) heq

theorem nodup_restore (config : KimiConcordiaConfig) {saved : Option KimiRegionManifest}
    (hsaved : ∀ manifest, saved = some manifest →
      (manifest.regions.map KimiRegionSpec.regionId).Nodup) (manifest : KimiRegionManifest)
    (hmanifest : (if config.restoreEnabled then saved else none) = some manifest) :
    (manifest.regions.map KimiRegionSpec.regionId).Nodup := by
  split at hmanifest
  · exact hsaved manifest hmanifest
  · cases hmanifest

/-- **The manager identifies its regions.** In every run whose calls are
orderly, from any configuration and any restore manifest with distinct ids, the
live regions have distinct ids, and those of a kind distinct keys. -/
theorem manager_identifies (config : KimiConcordiaConfig) (saved : Option KimiRegionManifest)
    (hsaved : ∀ manifest, saved = some manifest →
      (manifest.regions.map KimiRegionSpec.regionId).Nodup) {m : KimiConcordiaManager}
    (hm : ((manager config saved).restrict fun m event => m.orderly event = true).Reachable m) :
    Distinct m := by
  have hids := savedIds_of_nodup (nodup_restore config hsaved)
  have hkeeps : Keeps (if config.restoreEnabled then saved else none) m := by
    refine hm.induct ?_ ?_
    · rintro m rfl
      exact .new config saved
    · rintro m event m' hkeeps ⟨horderly, rfl⟩
      exact hkeeps.step hids horderly
  exact hkeeps.distinct

/-! ## Runs that reuse a number -/

/-- One page is worth tracking, and a saved manifest is used. -/
def restoring : KimiConcordiaConfig where
  enabled := true
  restoreEnabled := true
  minAllocationBytes := 4096
  maxRegions := 128

/-- The entry an earlier process saved for its `id`-th kv-cache page. -/
def savedPage (id : UInt64) : KimiRegionSpec where
  regionId := id
  stableKey := stableKey .kvCache id.toNat 4096
  kind := .kvCache
  ptr := id
  requestedSize := 4096
  trackedSize := 4096
  allocationIndex := id
  lastKernel := none
  allocator := none

/-- Two such pages. -/
def savedPages : Option KimiRegionManifest := some ⟨[savedPage 1, savedPage 2]⟩

/-- Two pages are allocated and used as kv cache. -/
def usePages : List Event :=
  [.allocation 0x1000 4096, .allocation 0x2000 4096,
    .kernelPointers "paged_kv_cache_update" [0x1000, 0x2000]]

/-- Then the first is freed, and a third takes its place. -/
def replaceFirst : List Event :=
  [.deallocation 0x1000, .allocation 0x3000 4096,
    .kernelPointers "paged_kv_cache_update" [0x3000]]

def KimiConcordiaManager.orderlyStep (m : KimiConcordiaManager) (event : Event) :
    Option KimiConcordiaManager :=
  if m.orderly event then some (m.step event) else none

/-- What identifies the live regions in the log. -/
def KimiConcordiaManager.identities (m : KimiConcordiaManager) : List (UInt64 × UInt64 × String) :=
  m.allocations.map fun region => (region.ptr, region.regionId, region.stableKey)

/-- Both pages find their ids again. -/
theorem manager_identifies_usePages : ∃ m : KimiConcordiaManager,
    TSys.runSteps orderlyStep (.new restoring savedPages) usePages = some m ∧
    m.identities = [(0x1000, 1, "kv-cache:0001:4096"), (0x2000, 2, "kv-cache:0002:4096")] ∧
    Distinct m := by
  have hrun : (TSys.runSteps orderlyStep (.new restoring savedPages)
      usePages).map identities =
        some [(0x1000, 1, "kv-cache:0001:4096"), (0x2000, 2, "kv-cache:0002:4096")] := by
    decide +kernel
  obtain ⟨m, hm, hidentities⟩ := Option.map_eq_some_iff.mp hrun
  have hstep : ∀ event ∈ usePages, ∀ s t : KimiConcordiaManager, s.orderlyStep event = some t →
      s.orderly event = true ∧ t = s.step event := by
    intro event _ s t h
    obtain ⟨horderly, hsome⟩ := Option.ite_none_right_eq_some.mp h
    exact ⟨horderly, (Option.some.inj hsome).symm⟩
  refine ⟨m, hm, hidentities, manager_identifies restoring savedPages ?_
    (TSys.Reachable.runSteps usePages hstep (.init rfl) hm)⟩
  rintro manifest ⟨⟩
  decide

/-- **A number given twice.** The second page keeps number 2. The third page is
the second of its kind again, so it gets the same key, and with it the same saved
id. -/
theorem manager_shares_identity : ∃ m : KimiConcordiaManager,
    (manager restoring savedPages).Reachable m ∧
    m.identities = [(0x2000, 2, "kv-cache:0002:4096"), (0x3000, 2, "kv-cache:0002:4096")] ∧
    m.allocations.map kind = [.kvCache, .kvCache] ∧ ¬ Distinct m := by
  have hrun : (TSys.runSteps (fun m event => some (step m event))
      (.new restoring savedPages) (usePages ++ replaceFirst)).map
        (fun m => (m.identities, m.allocations.map kind)) =
      some ([(0x2000, 2, "kv-cache:0002:4096"), (0x3000, 2, "kv-cache:0002:4096")],
        [.kvCache, .kvCache]) := by
    decide +kernel
  obtain ⟨m, hm, hregions⟩ := Option.map_eq_some_iff.mp hrun
  obtain ⟨hidentities, hkinds⟩ := Prod.mk.inj hregions
  refine ⟨m, ?_, hidentities, hkinds, ?_⟩
  · exact TSys.Reachable.runSteps _ (fun _ _ _ _ h => (Option.some.inj h).symm) (.init rfl) hm
  · rintro ⟨hids, _⟩
    have heq : m.allocations.map regionId = m.identities.map (·.2.1) := by
      simp [identities]
    rw [heq, hidentities] at hids
    exact absurd hids (by decide)

end Concordia.Kimi
