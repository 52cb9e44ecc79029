import Concordia.Lib.Align
import Concordia.Replay.Seek

/-!
# Remapped arguments

`remap_arguments` looks an argument's device address up among the addresses that the
allocations were recorded with. A pointer to the start of an allocation gets the start
of its buffer; a pointer further in is not found and stays as it is. The buffers
themselves are apart as long as their pages fit in the address space
(`pairwise_apart_iff`).
-/

namespace Concordia.Replay

open Concordia.Lib List Nat UInt64
open Option hiding map_map

/-! ## Buffers that are apart -/

/-- The pages that the buffers take, in bytes. -/
def extent (allocations : List TrackedAllocation) : Nat :=
  (allocations.map fun a => (pageAligned a.size).toNat).sum

/-- The address lies in the buffer; a buffer may run over the end of the address space. -/
def Placement.Covers (p : Placement) (addr : UInt64) : Prop := addr - p.newAddr < p.size

/-- No address lies in both buffers. -/
def Placement.Apart (p q : Placement) : Prop := ∀ addr, ¬ (p.Covers addr ∧ q.Covers addr)

theorem toNat_pageAligned {size : UInt64} (h : size.toNat ≤ isizeMax) :
    (pageAligned size).toNat = roundUp size.toNat 4096 := by
  have hsum : (size + 4095).toNat = size.toNat + 4095 := by
    rw [UInt64.toNat_add]
    exact mod_eq_of_lt (by simp [isizeMax] at h ⊢; omega)
  rw [pageAligned, UInt64.toNat_mul, UInt64.toNat_div, hsum, roundUp]
  refine mod_eq_of_lt ?_
  have hle := div_mul_le_self (size.toNat + 4095) 4096
  simp [isizeMax] at h ⊢
  omega

theorem extent_cons (a : TrackedAllocation) (l : List TrackedAllocation) :
    extent (a :: l) = (pageAligned a.size).toNat + extent l := rfl

theorem foldl_pageAligned (virtualAddr : UInt64) (l : List TrackedAllocation) :
    l.foldl (fun addr a => addr + pageAligned a.size) virtualAddr =
      virtualAddr + ofNat (extent l) := by
  induction l generalizing virtualAddr with
  | nil => simp [extent]
  | cons a l ih =>
    rw [foldl_cons, ih, extent_cons, UInt64.ofNat_add, UInt64.ofNat_toNat, UInt64.add_assoc]

theorem extent_append (l m : List TrackedAllocation) : extent (l ++ m) = extent l + extent m := by
  rw [extent, map_append, List.sum_append]
  rfl

theorem extent_singleton (a : TrackedAllocation) : extent [a] = (pageAligned a.size).toNat :=
  add_zero _

variable {l : List TrackedAllocation}

theorem dvd_extent (h : Allocatable l) : 4096 ∣ extent l := by
  refine dvd_sum fun n hn => ?_
  obtain ⟨a, ha, rfl⟩ := mem_map.mp hn
  rw [toNat_pageAligned (h a ha)]
  exact dvd_roundUp _ _

variable {virtualAddr : UInt64}

/-- A buffer that ends within the address space, counted from the first address. -/
theorem covers_iff {p : Placement} {offset : Nat}
    (hnew : p.newAddr = virtualAddr + ofNat offset) (hend : offset + p.size.toNat ≤ 2 ^ 64)
    (addr : UInt64) :
    p.Covers addr ↔ offset ≤ (addr - virtualAddr).toNat ∧
      (addr - virtualAddr).toNat < offset + p.size.toNat := by
  have hsub : addr - p.newAddr = addr - virtualAddr - ofNat offset := by
    rw [hnew]
    grind
  have hbound := (addr - virtualAddr).toNat_lt
  rw [Placement.Covers, hsub, UInt64.lt_iff_toNat_lt, UInt64.toNat_sub, UInt64.toNat_ofNat']
  generalize (addr - virtualAddr).toNat = y at *
  generalize p.size.toNat = n at *
  omega

/-- Where a placement is, and that its buffer ends within the pages. -/
theorem exists_offset (hall : Allocatable l) {p : Placement} (hp : p ∈ placements virtualAddr l) :
    ∃ offset, p.newAddr = virtualAddr + ofNat offset ∧
      offset + p.size.toNat ≤ extent l := by
  induction l generalizing virtualAddr with
  | nil => cases hp
  | cons a l ih =>
    obtain ⟨ha, hall⟩ := forall_mem_cons.mp hall
    have hextent := extent_cons a l
    rcases mem_cons.mp hp with rfl | hp
    · refine ⟨0, (add_zero _).symm, ?_⟩
      have hle := le_roundUp (by decide : 0 < 4096) a.size.toNat
      rw [hextent, toNat_pageAligned ha]
      dsimp only
      omega
    · obtain ⟨offset, hnew, hend⟩ := ih hall hp
      refine ⟨(pageAligned a.size).toNat + offset, ?_, by omega⟩
      rw [hnew, UInt64.ofNat_add, UInt64.ofNat_toNat, UInt64.add_assoc]

theorem pairwise_apart_of_extent_le (hall : Allocatable l) (hfits : extent l ≤ 2 ^ 64) :
    (placements virtualAddr l).Pairwise Placement.Apart := by
  induction l generalizing virtualAddr with
  | nil => exact .nil
  | cons a l ih =>
    obtain ⟨ha, hrest⟩ := forall_mem_cons.mp hall
    have hextent := extent_cons a l
    have hle := le_roundUp (by decide : 0 < 4096) a.size.toNat
    rw [← toNat_pageAligned ha] at hle
    refine .cons (fun q hq addr => ?_) (ih hrest (by omega))
    obtain ⟨offset, hnew, hend⟩ := exists_offset hrest hq
    have hq' : q.newAddr = virtualAddr + ofNat ((pageAligned a.size).toNat + offset) := by
      rw [hnew, UInt64.ofNat_add, UInt64.ofNat_toNat, UInt64.add_assoc]
    rintro ⟨hfirst, hsecond⟩
    have hstart : (⟨a.deviceAddr, a.size, virtualAddr⟩ : Placement).newAddr =
        virtualAddr + ofNat 0 := (add_zero _).symm
    have hfirst := (covers_iff hstart (by dsimp only; omega) addr).mp hfirst
    have hsecond := (covers_iff hq' (by omega) addr).mp hsecond
    dsimp only at hfirst
    omega

/-- Buffers that run over the end of the address space meet the first one. -/
theorem extent_le_of_pairwise_apart (hall : Allocatable l) (hpos : ∀ a ∈ l, 0 < a.size.toNat)
    (h : (placements virtualAddr l).Pairwise Placement.Apart) : extent l ≤ 2 ^ 64 := by
  induction l using List.reverseRecOn with
  | nil => exact zero_le _
  | append_singleton l a ih =>
    rw [placements_append, foldl_pageAligned, pairwise_append] at h
    obtain ⟨hbefore, _, hcross⟩ := h
    have hall' : Allocatable l := fun b hb => hall b (mem_append_left _ hb)
    have hle := ih hall' (fun b hb => hpos b (mem_append_left _ hb)) hbefore
    have ha : a.size.toNat ≤ isizeMax := hall a (by simp)
    -- the last buffer does not come round to the first address
    have hend : extent l + a.size.toNat ≤ 2 ^ 64 := by
      cases l with
      | nil =>
        simp [extent, isizeMax] at ha ⊢
        omega
      | cons first rest =>
        by_contra hover
        refine hcross _ mem_cons_self _ mem_cons_self virtualAddr ⟨?_, ?_⟩
        · rw [Placement.Covers, sub_self, lt_iff_toNat_lt]
          exact hpos first (by simp)
        · have hsub : virtualAddr - (virtualAddr + ofNat (extent (first :: rest))) =
              0 - ofNat (extent (first :: rest)) := by
            grind
          have hpos' : 0 < a.size.toNat := hpos a (by simp)
          rw [Placement.Covers]
          dsimp only
          rw [hsub, UInt64.lt_iff_toNat_lt, UInt64.toNat_sub, UInt64.toNat_ofNat']
          generalize extent (first :: rest) = n at *
          simp only [UInt64.toNat_zero]
          omega
    obtain ⟨pages, hpages⟩ := dvd_extent hall'
    rw [extent_append, extent_singleton, toNat_pageAligned ha, roundUp]
    omega

/-- **Apart.** -/
theorem pairwise_apart_iff (hall : Allocatable l) (hpos : ∀ a ∈ l, 0 < a.size.toNat) :
    (placements virtualAddr l).Pairwise Placement.Apart ↔ extent l ≤ 2 ^ 64 :=
  ⟨extent_le_of_pairwise_apart hall hpos, pairwise_apart_of_extent_le hall⟩

/-! ## Arguments -/

def TrackedAllocation.Contains (a : TrackedAllocation) (addr : UInt64) : Prop :=
  a.deviceAddr.toNat ≤ addr.toNat ∧ addr.toNat < a.deviceAddr.toNat + a.size.toNat

instance (a : TrackedAllocation) (addr : UInt64) : Decidable (a.Contains addr) :=
  inferInstanceAs (Decidable (_ ∧ _))

/-- Allocations that are not empty and do not overlap. -/
structure Separate (allocations : List TrackedAllocation) : Prop where
  pos : ∀ a ∈ allocations, 0 < a.size.toNat
  disjoint : allocations.Pairwise fun a b => ∀ addr, ¬ (a.Contains addr ∧ b.Contains addr)

variable {a : TrackedAllocation}

namespace Separate

variable {allocations : List TrackedAllocation} {virtualAddr : UInt64}

theorem contains_deviceAddr (h : Separate allocations) (ha : a ∈ allocations) :
    a.Contains a.deviceAddr :=
  ⟨Nat.le_refl _, Nat.lt_add_of_pos_right (h.pos a ha)⟩

/-- An address inside an allocation is the start of no other. -/
theorem deviceAddr_eq_of_contains (h : Separate allocations) {b : TrackedAllocation}
    (ha : a ∈ allocations) (hb : b ∈ allocations) (hin : a.Contains b.deviceAddr) : a = b := by
  by_contra hne
  have hsymm : Std.Symm fun a b : TrackedAllocation =>
      ∀ addr, ¬ (a.Contains addr ∧ b.Contains addr) :=
    ⟨fun a b hab addr hboth => hab addr hboth.symm⟩
  exact h.disjoint.forall ha hb hne b.deviceAddr ⟨hin, h.contains_deviceAddr hb⟩

theorem nodup_deviceAddr (h : Separate allocations) :
    (allocations.map (·.deviceAddr)).Nodup := by
  refine pairwise_map.mpr (h.disjoint.imp_of_mem ?_)
  intro a b ha hb hdisjoint hsame
  exact hdisjoint a.deviceAddr ⟨h.contains_deviceAddr ha, hsame ▸ h.contains_deviceAddr hb⟩

/-- Each placement is that of its own allocation. -/
theorem placements_eq_map (h : Separate allocations) (virtualAddr : UInt64) :
    placements virtualAddr allocations = allocations.map fun a => ⟨a.deviceAddr, a.size,
      (replayAddr (placements virtualAddr allocations) a.deviceAddr).getD 0⟩ := by
  have hnodup := h.nodup_deviceAddr
  rw [← map_deviceAddr_placements virtualAddr] at hnodup
  have hself : ∀ p ∈ placements virtualAddr allocations, (⟨p.deviceAddr, p.size,
      (replayAddr (placements virtualAddr allocations) p.deviceAddr).getD 0⟩ : Placement) = p := by
    intro p hp
    rw [replayAddr, lastWith_of_nodup hnodup hp]
    rfl
  have hrange := congrArg (List.map fun r : UInt64 × UInt64 => (⟨r.1, r.2,
    (replayAddr (placements virtualAddr allocations) r.1).getD 0⟩ : Placement))
    (map_range_placements virtualAddr allocations)
  rw [map_map, map_map] at hrange
  exact ((map_congr_left hself).trans (map_id _)).symm.trans hrange

end Separate

namespace Player

/-- Arguments inside an allocation go to the same offset of its buffer. -/
def RemapsOffsets (e : Player) (arguments : List KernelArgument) : Prop :=
  ∀ (i : Nat) (arg : KernelArgument) (addr : UInt64), arguments[i]? = some arg →
    arg.deviceAddr = some addr → ∀ a ∈ e.trace.allocations, a.Contains addr →
    ∃ newAddr, e.addressMap a.deviceAddr = some newAddr ∧ (e.remapArguments arguments)[i]? =
      some { arg with deviceAddr := some (newAddr + (addr - a.deviceAddr)) }

/-- The buffers of distinct allocations share no address. -/
def RangesApart (e : Player) : Prop :=
  e.trace.allocations.Pairwise fun a b => ∀ newAddr newAddr',
    e.addressMap a.deviceAddr = some newAddr → e.addressMap b.deviceAddr = some newAddr' →
    ∀ addr, ¬ (addr - newAddr < a.size ∧ addr - newAddr' < b.size)

section

variable {e : Player} {virtualAddr : UInt64}

theorem isSome_addressMap_of_mem
    (hplaced : e.addressMap = replayAddr (placements virtualAddr e.trace.allocations))
    (ha : a ∈ e.trace.allocations) : ∃ newAddr, e.addressMap a.deviceAddr = some newAddr := by
  refine isSome_iff_exists.mp ?_
  rw [hplaced, isSome_replayAddr_iff, map_deviceAddr_placements]
  exact mem_map_of_mem ha

theorem rangesApart_iff (hsep : Separate e.trace.allocations)
    (hall : Allocatable e.trace.allocations)
    (hplaced : e.addressMap = replayAddr (placements virtualAddr e.trace.allocations)) :
    e.RangesApart ↔ extent e.trace.allocations ≤ 2 ^ 64 := by
  have hapart : (placements virtualAddr e.trace.allocations).Pairwise Placement.Apart ↔ _ :=
    pairwise_apart_iff hall hsep.pos
  rw [← hapart]
  have hmap := hsep.placements_eq_map virtualAddr
  rw [← hplaced] at hmap
  rw [hmap, pairwise_map]
  refine List.Pairwise.iff_of_mem fun {a b} ha hb => ?_
  obtain ⟨newAddr, hnew⟩ := isSome_addressMap_of_mem hplaced ha
  obtain ⟨newAddr', hnew'⟩ := isSome_addressMap_of_mem hplaced hb
  simp only [hnew, hnew', getD_some, Option.some.injEq, forall_eq', forall_apply_eq_imp_iff]
  rfl

theorem getElem?_remapArguments (e : Player) {arguments : List KernelArgument} {i : Nat}
    {arg : KernelArgument} {addr : UInt64} (hi : arguments[i]? = some arg)
    (haddr : arg.deviceAddr = some addr) :
    (e.remapArguments arguments)[i]? =
      some { arg with deviceAddr := some ((e.addressMap addr).getD addr) } := by
  rw [remapArguments, getElem?_map, hi, map_some, haddr]
  dsimp only
  cases e.addressMap addr with
  | some newAddr => rfl
  | none =>
    rw [getD_none, ← haddr]

/-- Inside an allocation only its start is found. -/
theorem addressMap_of_contains (hsep : Separate e.trace.allocations)
    (hplaced : e.addressMap = replayAddr (placements virtualAddr e.trace.allocations))
    (ha : a ∈ e.trace.allocations) {addr : UInt64} (hin : a.Contains addr)
    (hne : addr ≠ a.deviceAddr) : e.addressMap addr = none := by
  rw [hplaced]
  refine replayAddr_eq_none fun hmem => ?_
  obtain ⟨b, hb, rfl⟩ := mem_map.mp hmem
  exact hne (congrArg _ (hsep.deviceAddr_eq_of_contains ha hb hin)).symm

theorem remapsOffsets_iff (hsep : Separate e.trace.allocations)
    (hplaced : e.addressMap = replayAddr (placements virtualAddr e.trace.allocations))
    (arguments : List KernelArgument) :
    e.RemapsOffsets arguments ↔ ∀ arg ∈ arguments, ∀ addr, arg.deviceAddr = some addr →
      ∀ a ∈ e.trace.allocations, a.Contains addr → addr = a.deviceAddr ∨
        replayAddr (placements virtualAddr e.trace.allocations) a.deviceAddr =
          some a.deviceAddr := by
  rw [← hplaced]
  constructor
  · intro h arg harg addr haddr a ha hin
    obtain ⟨i, hi⟩ := mem_iff_getElem?.mp harg
    by_cases hbase : addr = a.deviceAddr
    · exact .inl hbase
    · -- the pointer stays as it is, so the buffer must start where the allocation did
      obtain ⟨newAddr, hnew, hremap⟩ := h i arg addr hi haddr a ha hin
      rw [getElem?_remapArguments e hi haddr, addressMap_of_contains hsep hplaced ha hin hbase,
        getD_none] at hremap
      have hsame : addr = newAddr + (addr - a.deviceAddr) := by
        simpa using hremap
      have hstart : newAddr = a.deviceAddr := by grind
      exact .inr (hstart ▸ hnew)
  · intro h i arg addr hi haddr a ha hin
    obtain ⟨newAddr, hnew⟩ := isSome_addressMap_of_mem hplaced ha
    refine ⟨newAddr, hnew, ?_⟩
    rw [getElem?_remapArguments e hi haddr]
    by_cases hbase : addr = a.deviceAddr
    · rw [hbase, hnew, sub_self, add_zero]
      rfl
    · have hstart := (h arg (mem_of_getElem? hi) addr haddr a ha hin).resolve_left hbase
      have hsame : newAddr = a.deviceAddr := some.inj (hnew.symm.trans hstart)
      have hoffset : a.deviceAddr + (addr - a.deviceAddr) = addr := by grind
      rw [addressMap_of_contains hsep hplaced ha hin hbase, getD_none, hsame, hoffset]

end

/-- **Remapping.** On a trace whose allocations are not empty and do not overlap, pointers
into allocations are remapped with their offset, to buffers that are apart, exactly when
each of them points to the start of its allocation, or the buffer has the address that the
allocation had, and the pages of the buffers fit in the address space. -/
theorem remapArguments_iff {trace : ReplayTrace} {e : Player} {virtualAddr next : UInt64}
    {result : Except String Unit} (hsep : Separate trace.allocations)
    (hinit : (load trace).initializeEngine virtualAddr = some (e, next, result))
    (arguments : List KernelArgument) :
    e.RemapsOffsets arguments ∧ e.RangesApart ↔
      (∀ arg ∈ arguments, ∀ addr, arg.deviceAddr = some addr →
        ∀ a ∈ trace.allocations, a.Contains addr → addr = a.deviceAddr ∨
          replayAddr (placements virtualAddr trace.allocations) a.deviceAddr =
            some a.deviceAddr) ∧
      extent trace.allocations ≤ 2 ^ 64 := by
  obtain ⟨hall, rfl, hplaced⟩ := (known_load trace).setup rfl hinit
  exact and_congr (remapsOffsets_iff hsep hplaced arguments) (rangesApart_iff hsep hall hplaced)

/-- Two pages at 4096, and a part of one at 65536. -/
def twoBuffers : ReplayTrace :=
  ⟨[], [⟨4096, 8192, [], 0, none⟩, ⟨65536, 100, [], 0, none⟩], []⟩

def pointerTo (addr : UInt64) : KernelArgument := ⟨0, 8, .devicePointer, some addr, none⟩

theorem separate_twoBuffers : Separate twoBuffers.allocations := by
  refine ⟨by decide, pairwise_pair.mpr ?_⟩
  rintro addr ⟨⟨_, hlt⟩, hle, _⟩
  exact absurd (hle.trans_lt hlt) (by decide)

theorem isSome_initializeEngine_twoBuffers :
    ((load twoBuffers).initializeEngine firstVirtualAddr).isSome = true := by
  decide +kernel

def twoBuffersEngine : Player × UInt64 × Except String Unit :=
  ((load twoBuffers).initializeEngine firstVirtualAddr).get isSome_initializeEngine_twoBuffers

theorem initializeEngine_twoBuffers :
    (load twoBuffers).initializeEngine firstVirtualAddr = some twoBuffersEngine :=
  (some_get isSome_initializeEngine_twoBuffers).symm

theorem remapArguments_start :
    twoBuffersEngine.1.RemapsOffsets [pointerTo 65536, pointerTo 4096] ∧
      twoBuffersEngine.1.RangesApart := by
  refine (remapArguments_iff separate_twoBuffers initializeEngine_twoBuffers _).mpr ⟨?_, by decide⟩
  intro arg harg addr haddr a ha hin
  simp only [mem_cons, not_mem_nil, or_false, twoBuffers] at harg ha
  -- a pointer into the other buffer's allocation would be out of its range
  rcases harg with rfl | rfl <;> obtain rfl := some.inj haddr <;> rcases ha with rfl | rfl
  · exact absurd hin (by decide)
  · exact .inl rfl
  · exact .inl rfl
  · exact absurd hin (by decide)

/-- The buffer is elsewhere, and a pointer into the allocation still points to where the
allocation was. -/
theorem remap_interior_pointer : Separate twoBuffers.allocations ∧
    (load twoBuffers).initializeEngine firstVirtualAddr = some twoBuffersEngine ∧
    twoBuffersEngine.1.addressMap 4096 = some 0x100000000000 ∧
    twoBuffersEngine.1.remapArguments [pointerTo 4104] = [pointerTo 4104] ∧
    ¬ twoBuffersEngine.1.RemapsOffsets [pointerTo 4104] := by
  have hmap : twoBuffersEngine.1.addressMap 4096 = some 0x100000000000 := by decide +kernel
  have hremap : twoBuffersEngine.1.remapArguments [pointerTo 4104] = [pointerTo 4104] := by
    decide +kernel
  refine ⟨separate_twoBuffers, initializeEngine_twoBuffers, hmap, hremap, fun h => ?_⟩
  obtain ⟨newAddr, hnew, hoffset⟩ := h 0 (pointerTo 4104) 4104 rfl rfl ⟨4096, 8192, [], 0, none⟩
    (by decide +kernel) (by decide)
  rw [hmap] at hnew
  obtain rfl := some.inj hnew
  rw [hremap] at hoffset
  revert hoffset
  decide

end Player

end Concordia.Replay
