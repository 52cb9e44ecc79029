import Concordia.Lib.FirstFit
import Concordia.Sass.Regalloc

/-!
# What the linear scan assigns

Among the virtual registers alone the scan is the first-fit numbering of their live
ranges. The pre-coloured ones keep their number and are in nobody's way.
-/

namespace Concordia.Sass

open Concordia.Lib Nat
open List hiding lookup

/-- The first register of `0..=254` that passes is the least one that does. -/
theorem find?_physical {p : UInt8 → Bool} {r : UInt8} (h : physical.find? p = some r) :
    p r ∧ ∀ k < r.toNat, p (UInt8.ofNat k) = false := by
  unfold physical at h
  rw [find?_map, Option.map_eq_some_iff] at h
  obtain ⟨i, hi, rfl⟩ := h
  rw [find?_range_eq_some] at hi
  obtain ⟨hp, hlt, hmin⟩ := hi
  have hlt' : i < 255 := mem_range.mp hlt
  refine ⟨hp, fun k hk => ?_⟩
  rw [UInt8.toNat_ofNat', mod_eq_of_lt (by omega)] at hk
  simpa using hmin k hk

theorem remap_of_mem {mapping : List (UInt8 × UInt8)} (hnd : (mapping.map Prod.fst).Nodup)
    {n p : UInt8} (h : (n, p) ∈ mapping) : remap mapping n = p := by
  have hl : lookup Prod.fst n mapping = some (n, p) := lookup_of_mem hnd h
  rw [remap, hl]

theorem mem_of_mem_keys {mapping : List (UInt8 × UInt8)} (hnd : (mapping.map Prod.fst).Nodup)
    {n : UInt8} (h : n ∈ mapping.map Prod.fst) : (n, remap mapping n) ∈ mapping := by
  obtain ⟨⟨_, p⟩, hmem, rfl⟩ := mem_map.mp h
  rwa [remap_of_mem hnd hmem]

theorem remap_of_not_mem {mapping : List (UInt8 × UInt8)} {n : UInt8}
    (h : n ∉ mapping.map Prod.fst) : remap mapping n = n := by
  unfold remap
  split
  · rename_i entry he
    exact absurd (key_of_lookup he ▸ mem_map_of_mem (mem_of_lookup he)) h
  · rfl

/-- The active entry of a range under a mapping. -/
def LiveRange.entry (mapping : List (UInt8 × UInt8)) (r : LiveRange) : Active :=
  ⟨r.vreg, remap mapping r.vreg, r.stop⟩

open LiveRange

/-- The ranges `done` are assigned, `rest` are to come. -/
structure ScanInv (done rest : List LiveRange) (mapping : List (UInt8 × UInt8))
    (active : List Active) : Prop where
  keys : mapping.map Prod.fst = done.map vreg
  precoloured : ∀ r ∈ done, r.vreg < 128 → remap mapping r.vreg = r.vreg
  sound : ∀ a ∈ active, ∃ u ∈ done, 128 ≤ u.vreg ∧ a = u.entry mapping
  complete : ∀ u ∈ done, 128 ≤ u.vreg →
    u.entry mapping ∈ active ∨ ∀ r ∈ rest, u.stop < r.start
  fit : FirstFit (fun r => r ∈ done ∧ 128 ≤ r.vreg) start stop
    fun r => (remap mapping r.vreg).toNat

section Step

variable {done rest : List LiveRange} {r : LiveRange} {mapping : List (UInt8 × UInt8)}
  {active : List Active}

/-- A new key is pushed and disturbs no other. -/
theorem remap_append (p : UInt8) {n : UInt8} (h : n ∈ mapping.map Prod.fst) :
    remap (mapping ++ [(r.vreg, p)]) n = remap mapping n := by
  unfold remap lookup
  rw [find?_append]
  obtain ⟨entry, hmem, rfl⟩ := mem_map.mp h
  have hsome : (mapping.find? fun x => x.1 = entry.1).isSome :=
    find?_isSome.mpr ⟨entry, hmem, by simp⟩
  obtain ⟨e, he⟩ := Option.isSome_iff_exists.mp hsome
  rw [he, Option.some_or]

theorem remap_append_self {n p : UInt8} (h : n ∉ mapping.map Prod.fst) :
    remap (mapping ++ [(n, p)]) n = p := by
  have hnone : lookup Prod.fst n mapping = none := by
    unfold lookup
    rw [find?_eq_none]
    intro x hx hk
    exact h (mem_map.mpr ⟨x, hx, by simpa using hk⟩)
  unfold remap
  unfold lookup at hnone ⊢
  rw [find?_append, hnone]
  simp

/-- Entries of ranges already assigned stay what they were. -/
theorem entry_append (h : ScanInv done (r :: rest) mapping active) (p : UInt8) {u : LiveRange}
    (hu : u ∈ done) : u.entry (mapping ++ [(r.vreg, p)]) = u.entry mapping := by
  unfold entry
  rw [remap_append p (h.keys ▸ mem_map_of_mem hu)]

/-- A pre-coloured range: mapped to itself, and not active. -/
theorem ScanInv.precolour (h : ScanInv done (r :: rest) mapping active)
    (hnew : r.vreg ∉ done.map vreg) (hr : r.vreg < 128) :
    ScanInv (done ++ [r]) rest (mapping ++ [(r.vreg, r.vreg)]) active := by
  have hself : remap (mapping ++ [(r.vreg, r.vreg)]) r.vreg = r.vreg :=
    remap_append_self (h.keys ▸ hnew)
  have hvirt : ∀ u ∈ done ++ [r], 128 ≤ u.vreg → u ∈ done := by
    intro u hu hv
    rcases mem_append.mp hu with hmem | hmem
    · exact hmem
    · rw [mem_singleton] at hmem
      exact absurd (hmem ▸ hr) (by simpa using hv)
  refine ⟨by simp [h.keys], fun u hu hlt => ?_, fun a ha => ?_, fun u hu hv => ?_, ?_⟩
  · rcases mem_append.mp hu with hmem | hmem
    · rw [remap_append _ (h.keys ▸ mem_map_of_mem hmem)]
      exact h.precoloured u hmem hlt
    · rw [mem_singleton.mp hmem, hself]
  · obtain ⟨u, hu, hv, rfl⟩ := h.sound a ha
    exact ⟨u, mem_append_left _ hu, hv, (entry_append h _ hu).symm⟩
  · rw [entry_append h _ (hvirt u hu hv)]
    refine (h.complete u (hvirt u hu hv) hv).imp_right fun hlt r' hr' => ?_
    exact hlt r' (mem_cons_of_mem _ hr')
  · refine h.fit.congr (fun u => ⟨fun hu => ⟨hvirt u hu.1 hu.2, hu.2⟩, fun hu => ?_⟩) fun u hu => ?_
    · exact ⟨mem_append_left _ hu.1, hu.2⟩
    · rw [remap_append r.vreg (h.keys ▸ mem_map_of_mem hu.1)]

/-- A virtual range: the least number that no active range has. -/
theorem ScanInv.assign (h : ScanInv done (r :: rest) mapping active)
    (hnew : r.vreg ∉ done.map vreg) (hr : 128 ≤ r.vreg)
    (hsorted : ∀ r' ∈ rest, r.start ≤ r'.start)
    (hearlier : ∀ u ∈ done, 128 ≤ u.vreg → u.start < r.start) {phys : UInt8}
    (hfind : physical.find? (fun p => !((active.filter fun a => r.start ≤ a.stop).map
      Active.phys).contains p) = some phys) :
    ScanInv (done ++ [r]) rest (mapping ++ [(r.vreg, phys)])
      ((active.filter fun a => r.start ≤ a.stop) ++ [⟨r.vreg, phys, r.stop⟩]) := by
  have hself : remap (mapping ++ [(r.vreg, phys)]) r.vreg = phys :=
    remap_append_self (h.keys ▸ hnew)
  have hkeep : ∀ u ∈ done, remap (mapping ++ [(r.vreg, phys)]) u.vreg = remap mapping u.vreg :=
    fun u hu => remap_append phys (h.keys ▸ mem_map_of_mem hu)
  -- the active ranges are those assigned and still running
  have hrunning : ∀ u ∈ done, 128 ≤ u.vreg → r.start ≤ u.stop →
      u.entry mapping ∈ active.filter fun a => r.start ≤ a.stop := by
    intro u hu hv hle
    rcases h.complete u hu hv with hact | hgone
    · exact mem_filter.mpr ⟨hact, decide_eq_true hle⟩
    · exact absurd (hgone r mem_cons_self) (not_lt.mpr hle)
  refine ⟨by simp [h.keys], fun u hu hlt => ?_, fun a ha => ?_, fun u hu hv => ?_, ?_⟩
  · rcases mem_append.mp hu with hmem | hmem
    · rw [hkeep u hmem]
      exact h.precoloured u hmem hlt
    · rw [mem_singleton] at hmem
      exact absurd (hmem ▸ hlt) (by simpa using hr)
  · rcases mem_append.mp ha with hmem | hmem
    · obtain ⟨u, hu, hv, rfl⟩ := h.sound a (mem_of_mem_filter hmem)
      exact ⟨u, mem_append_left _ hu, hv, (entry_append h _ hu).symm⟩
    · refine ⟨r, by simp, hr, ?_⟩
      rw [mem_singleton.mp hmem, entry, hself]
  · rcases mem_append.mp hu with hmem | hmem
    · rw [entry_append h _ hmem]
      by_cases hle : r.start ≤ u.stop
      · exact .inl (mem_append_left _ (hrunning u hmem hv hle))
      · exact .inr fun r' hr' => (not_le.mp hle).trans_le (hsorted r' hr')
    · rw [mem_singleton.mp hmem, entry, hself]
      exact .inl (by simp)
  · obtain ⟨hfresh, hleast⟩ := find?_physical hfind
    refine h.fit.cons (fun u => ?_) (fun u hu => by rw [hkeep u hu.1])
      (fun u hu => hearlier u hu.1 hu.2) ⟨?_, fun k hk => ?_⟩
    · simp only [mem_append, mem_singleton]
      constructor
      · rintro ⟨hu | rfl, hv⟩
        · exact .inl ⟨hu, hv⟩
        · exact .inr rfl
      · rintro (⟨hu, hv⟩ | rfl)
        · exact ⟨.inl hu, hv⟩
        · exact ⟨.inr rfl, hr⟩
    · rintro u ⟨hu, hu128⟩ - hle heq
      dsimp only at heq
      rw [hself] at heq
      have hmem := mem_map_of_mem (f := Active.phys) (hrunning u hu hu128 hle)
      rw [show (u.entry mapping).phys = phys from UInt8.toNat_inj.mp heq] at hmem
      simp [hmem] at hfresh
    · rw [hself]
      by_contra hlt
      have hin := hleast k (not_le.mp hlt)
      rw [Bool.not_eq_false', contains_iff_mem, mem_map] at hin
      obtain ⟨a, ha, hak⟩ := hin
      rw [mem_filter] at ha
      obtain ⟨u, hu, hu128, rfl⟩ := h.sound a ha.1
      refine hk u ⟨hu, hu128⟩ (hearlier u hu hu128) (of_decide_eq_true ha.2) ?_
      have hp : remap mapping u.vreg = UInt8.ofNat k := hak
      have hk256 : k < 256 := (not_le.mp hlt).trans phys.toNat_lt
      dsimp only
      rw [hp, UInt8.toNat_ofNat', mod_eq_of_lt hk256]

end Step

/-- **The loop.** -/
theorem scanInv_loop {rest done : List LiveRange} {mapping m : List (UInt8 × UInt8)}
    {active : List Active} (h : ScanInv done rest mapping active)
    (hnd : ((done ++ rest).map vreg).Nodup)
    (hsorted : (done ++ rest).Pairwise fun a b => a.start ≤ b.start)
    (hdistinct : ∀ u ∈ done ++ rest, ∀ v ∈ done ++ rest, 128 ≤ u.vreg → 128 ≤ v.vreg →
      u.start = v.start → u.vreg = v.vreg)
    (hm : linearScanLoop rest mapping active = .ok m) :
    ∃ active', ScanInv (done ++ rest) [] m active' := by
  induction rest generalizing done mapping active with
  | nil =>
    rw [linearScanLoop] at hm
    cases hm
    exact ⟨active, by simpa using h⟩
  | cons r rest ih =>
    have hassoc : done ++ r :: rest = done ++ [r] ++ rest := by simp
    have hnew : r.vreg ∉ done.map vreg := by
      rw [map_append, map_cons, nodup_append] at hnd
      intro hmem
      exact hnd.2.2 _ hmem _ mem_cons_self rfl
    have hpush : ∀ p, upsert Prod.fst (r.vreg, p) mapping = mapping ++ [(r.vreg, p)] :=
      fun p => upsert_of_not_mem (h.keys ▸ hnew)
    rw [linearScanLoop] at hm
    split at hm
    · rename_i hlt
      rw [hpush] at hm
      rw [hassoc] at hnd hsorted hdistinct ⊢
      exact ih (h.precolour hnew hlt) hnd hsorted hdistinct hm
    · rename_i hge
      have hr : 128 ≤ r.vreg := by simpa using hge
      rw [pairwise_append] at hsorted
      have hearlier : ∀ u ∈ done, 128 ≤ u.vreg → u.start < r.start := by
        intro u hu hu128
        refine lt_of_le_of_ne (hsorted.2.2 u hu r mem_cons_self) fun he => ?_
        exact hnew (hdistinct u (mem_append_left _ hu) r (by simp) hu128 hr he ▸
          mem_map_of_mem hu)
      have hlater : ∀ r' ∈ rest, r.start ≤ r'.start :=
        (pairwise_cons.mp hsorted.2.1).1
      dsimp only at hm
      split at hm
      · cases hm
      · rename_i phys hfind
        rw [hpush] at hm
        rw [← pairwise_append, hassoc] at hsorted
        rw [hassoc] at hnd hdistinct ⊢
        exact ih (h.assign hnew hr hlater hearlier hfind) hnd hsorted hdistinct hm

/-! ## On the live ranges of a program -/

/-- Every virtual register is written before it is read. -/
def WrittenFirst (insts : List SassInst) : Prop :=
  ∀ (i : Nat) inst, insts[i]? = some inst → ∀ v ∈ sourceRegisters inst, 128 ≤ v →
    ∃ j < i, ∃ writer : SassInst, insts[j]? = some writer ∧ writer.dst = some (.R v)

variable {insts : List SassInst}

/-- The first use of a virtual register is a write. -/
theorem WrittenFirst.dst_firstUse (h : WrittenFirst insts) {v : UInt8} (hv : 128 ≤ v)
    (hocc : Occurs insts v) :
    ∃ inst, insts[firstUse insts v]? = some inst ∧ inst.dst = some (.R v) := by
  obtain ⟨inst, hi, ht⟩ := occursAt_firstUse hocc
  rcases SassInst.touches_iff.mp ht with hd | hs
  · exact ⟨inst, hi, hd⟩
  · obtain ⟨j, hj, writer, hdef, hdst⟩ := h _ inst hi v hs hv
    have := firstUse_le ⟨writer, hdef, SassInst.touches_iff.mpr (.inl hdst)⟩
    omega

/-- An instruction has one destination, so no two virtual ranges start together. -/
theorem WrittenFirst.firstUse_inj (h : WrittenFirst insts) {u v : UInt8} (hu : 128 ≤ u)
    (hv : 128 ≤ v) (hou : Occurs insts u) (hov : Occurs insts v)
    (he : firstUse insts u = firstUse insts v) : u = v := by
  obtain ⟨inst, hi, hd⟩ := h.dst_firstUse hu hou
  obtain ⟨inst', hi', hd'⟩ := h.dst_firstUse hv hov
  rw [← he, hi] at hi'
  cases hi'
  rw [hd] at hd'
  cases hd'
  rfl

theorem linearScan_of_sorted {ranges : List LiveRange}
    (h : ranges.Pairwise fun a b => a.start ≤ b.start) :
    linearScan id ranges = linearScanLoop ranges [] [] := by
  rw [linearScan, id, mergeSort_of_pairwise]
  simpa using h

/-- The virtual registers of a program. -/
def Virtual (insts : List SassInst) (v : UInt8) : Prop := 128 ≤ v ∧ Occurs insts v

/-- **The scan.** Pre-coloured registers keep their number, virtual ones have the
first-fit number of their live ranges, whatever the order of the walk. -/
theorem linearScan_spec {iter : List LiveRange → List LiveRange} (hiter : ∀ l, (iter l).Perm l)
    (hw : WrittenFirst insts) {m : List (UInt8 × UInt8)}
    (h : linearScan iter (computeLiveRanges insts) = .ok m) :
    (∀ n < 128, remap m n = n) ∧ (∀ n, Occurs insts n → (n, remap m n) ∈ m) ∧
      FirstFit (Virtual insts) (firstUse insts) (lastUse insts) fun v => (remap m v).toNat := by
  have hperm := (mergeSort_perm (iter (computeLiveRanges insts))
    fun a b : LiveRange => a.start ≤ b.start).trans (hiter (computeLiveRanges insts))
  set sorted := (iter (computeLiveRanges insts)).mergeSort
    fun a b : LiveRange => decide (a.start ≤ b.start) with hsorted
  have hmem : ∀ r, r ∈ sorted ↔ Occurs insts r.vreg ∧
      r = ⟨r.vreg, firstUse insts r.vreg, lastUse insts r.vreg⟩ := fun r =>
    hperm.mem_iff.trans mem_computeLiveRanges
  have hrange : ∀ n, Occurs insts n → ⟨n, firstUse insts n, lastUse insts n⟩ ∈ sorted :=
    fun n hn => (hmem _).mpr ⟨hn, rfl⟩
  have hstart : ∀ r ∈ sorted, r.start = firstUse insts r.vreg := by
    intro r hr
    rw [((hmem r).mp hr).2]
  have hnd : (([] ++ sorted).map vreg).Nodup :=
    (hperm.map _).nodup_iff.mpr (nodup_computeLiveRanges insts)
  have hpair : ([] ++ sorted).Pairwise fun a b : LiveRange => a.start ≤ b.start := by
    have hle : sorted.Pairwise fun a b : LiveRange => decide (a.start ≤ b.start) = true := by
      refine pairwise_mergeSort (fun a b c hab hbc => ?_) (fun a b => ?_) _
      · rw [decide_eq_true_eq] at hab hbc ⊢
        exact hab.trans hbc
      · simpa using le_total a.start b.start
    simpa using hle
  have hinit : ScanInv [] sorted [] [] :=
    ⟨rfl, by simp, by simp, by simp, fun v hv => absurd hv.1 (by simp)⟩
  obtain ⟨active, hinv⟩ := scanInv_loop hinit hnd hpair (by
    intro u hu v hv hu128 hv128 he
    rw [hstart u hu, hstart v hv] at he
    exact hw.firstUse_inj hu128 hv128 ((hmem u).mp hu).1 ((hmem v).mp hv).1 he) h
  have hkeys : m.map Prod.fst = sorted.map vreg := hinv.keys
  have hndm : (m.map Prod.fst).Nodup := hkeys ▸ hnd
  refine ⟨fun n hn => ?_, fun n hn => ?_, fun v hv => ?_⟩
  · by_cases hocc : n ∈ m.map Prod.fst
    · rw [hkeys, mem_map] at hocc
      obtain ⟨r, hr, rfl⟩ := hocc
      exact hinv.precoloured r hr hn
    · exact remap_of_not_mem hocc
  · exact mem_of_mem_keys hndm (hkeys ▸ mem_map_of_mem (f := vreg) (hrange n hn))
  · -- the ranges are numbered by first fit, and each register has its own
    have hfit := hinv.fit ⟨v, firstUse insts v, lastUse insts v⟩ ⟨hrange v hv.2, hv.1⟩
    refine ⟨fun u hu hlt hle => ?_, fun k hk => hfit.2 ?_⟩
    · exact hfit.1 ⟨u, firstUse insts u, lastUse insts u⟩ ⟨hrange u hu.2, hu.1⟩ hlt hle
    · rintro r ⟨hr, hr128⟩ hlt hle
      have hocc := ((hmem r).mp hr).1
      rw [((hmem r).mp hr).2] at hlt hle ⊢
      exact hk r.vreg ⟨hr128, hocc⟩ hlt hle

end Concordia.Sass
