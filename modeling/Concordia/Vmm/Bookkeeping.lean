import Concordia.Vmm.State

/-!
# The tables follow the calls

As long as every unmap takes whole ranges, the entries of the allocation map are the
mapped ranges themselves, at their addresses (`Inv`). The first unmap that takes part
of a range, or none, breaks the tables apart.
-/

namespace Concordia.Vmm

open Concordia.Lib List Reservation Extent

/-! ## Arithmetic -/

/-- Ranges clear of each other never overlap, saturated or not. -/
theorem rangesOverlap_of_clear {a b : Extent} (h : a.Clear b) :
    rangesOverlap a.start a.size b.start b.size = false := by
  unfold Extent.Clear at h
  unfold rangesOverlap saturatingAdd
  rw [decide_eq_false_iff_not]
  omega

theorem rangesOverlap_iff {a b : Extent} (ha : a.start + a.size < usizeSize)
    (hb : b.start + b.size < usizeSize) :
    rangesOverlap a.start a.size b.start b.size ↔ ¬a.Clear b := by
  unfold Extent.Clear rangesOverlap saturatingAdd
  rw [decide_eq_true_eq]
  omega

theorem contains_iff {base len addr size : Nat} : contains base len addr size ↔
    base + len < usizeSize ∧ addr + size < usizeSize ∧ base ≤ addr ∧ addr + size ≤ base + len := by
  simp [contains]

/-- **The loop of unmap** cuts the range out of every mapped one. -/
theorem unmapLoop_eq {c : Extent} (hc : c.start + c.size < usizeSize) (ms updated : List Extent)
    (removedAny : Bool) (hms : ∀ m ∈ ms, m.start + m.size < usizeSize) :
    unmapLoop c.start c.size (c.start + c.size) ms updated removedAny =
      .ok (updated ++ ms.flatMap (cut c),
        removedAny || ms.any fun m => rangesOverlap c.start c.size m.start m.size) := by
  induction ms generalizing updated removedAny with
  | nil => simp [unmapLoop]
  | cons m ms ih =>
    have hm := hms m mem_cons_self
    have hend : rangeEnd m.start m.size = .ok (m.start + m.size) := if_pos hm
    have hrest : ∀ q ∈ ms, q.start + q.size < usizeSize :=
      fun q hq => hms q (mem_cons_of_mem m hq)
    rw [unmapLoop, hend]
    show (if _ then _ else _) = _
    by_cases hclear : c.Clear m
    · have hno := rangesOverlap_of_clear hclear
      rw [if_pos (by rw [hno]; rfl), ih _ _ hrest, flatMap_cons,
        cut_of_clear hclear.symm, any_cons, hno]
      simp
    · have hyes := (rangesOverlap_iff hc hm).mpr hclear
      have hcut : cut c m = (if m.start < c.start then [⟨m.start, c.start - m.start⟩]
          else []) ++ if m.start + m.size > c.start + c.size then
            [⟨c.start + c.size, m.start + m.size - (c.start + c.size)⟩] else [] :=
        if_neg fun h => hclear h.symm
      rw [if_neg (by rw [hyes]; decide), ih _ _ hrest, flatMap_cons, hcut, any_cons, hyes]
      simp

/-! ## The invariant -/

/-- The mapped ranges of a reservation, at their addresses. -/
def Reservation.entries (r : Reservation) : List Extent :=
  r.mappedRanges.map fun m => ⟨r.base + m.start, m.size⟩

/-- A reservation on its own. -/
structure Reservation.Wf (r : Reservation) : Prop where
  pos : 0 < r.size
  disjoint : r.mappedRanges.Pairwise Extent.Clear
  nonempty : ∀ m ∈ r.mappedRanges, 0 < m.size
  inside : ∀ m ∈ r.mappedRanges, m.start + m.size ≤ r.size
  bounded : r.mappedRanges ≠ [] → r.base + r.size < usizeSize

/-- The tables agree: the allocation map lists the mapped ranges. -/
structure Inv (foreign : List Extent) (s : State) (mapped : Set Nat) : Prop where
  nodup : (s.reservations.map base).Nodup
  wf : ∀ r ∈ s.reservations, r.Wf
  apart : ∀ r ∈ s.reservations, ∀ r' ∈ s.reservations, r.base ≠ r'.base → r.block.Clear r'.block
  clear : ∀ f ∈ foreign, 0 < f.size ∧ ∀ r ∈ s.reservations, f.Clear r.block
  alloc : ∃ own, s.allocMap = foreign ++ own ∧
    ∀ e, e ∈ own ↔ ∃ r ∈ s.reservations, e ∈ r.entries
  mapped_iff : ∀ x, x ∈ mapped ↔ ∃ r ∈ s.reservations, Covered r.entries x

section Reservations

variable {r r' : Reservation} {x : Nat}

theorem mem_entries {e : Extent} :
    e ∈ r.entries ↔ ∃ m ∈ r.mappedRanges, e = ⟨r.base + m.start, m.size⟩ := by
  simp only [entries, mem_map]
  constructor <;> rintro ⟨m, hm, rfl⟩ <;> exact ⟨m, hm, rfl⟩

theorem covered_entries : Covered r.entries x ↔
    ∃ o, Covered r.mappedRanges o ∧ x = r.base + o := by
  constructor
  · rintro ⟨e, he, hx⟩
    obtain ⟨m, hm, rfl⟩ := mem_entries.mp he
    unfold Extent.Has at hx
    dsimp only at hx
    refine ⟨x - r.base, ⟨m, hm, ?_⟩, by omega⟩
    unfold Extent.Has
    omega
  · rintro ⟨o, ⟨m, hm, ho⟩, rfl⟩
    refine ⟨⟨r.base + m.start, m.size⟩, mem_entries.mpr ⟨m, hm, rfl⟩, ?_⟩
    unfold Extent.Has at ho ⊢
    dsimp only
    omega

/-- Mapped bytes lie in the block. -/
theorem Reservation.Wf.entry_inside (h : r.Wf) {e : Extent} (he : e ∈ r.entries) :
    r.base ≤ e.start ∧ e.start + e.size ≤ r.base + r.size := by
  obtain ⟨m, hm, rfl⟩ := mem_entries.mp he
  have := h.inside m hm
  dsimp only
  omega

theorem Reservation.Wf.block_has (h : r.Wf) (hx : Covered r.entries x) : r.block.Has x := by
  obtain ⟨e, he, hx⟩ := hx
  have := h.entry_inside he
  unfold Extent.Has at hx ⊢
  dsimp only [block]
  omega

end Reservations

variable {addr size : Nat}

section Inv

variable {foreign : List Extent} {s : State} {mapped : Set Nat} {r r' : Reservation} {x : Nat}

/-- Blocks that share a point are one. -/
theorem Inv.eq_of_has (h : Inv foreign s mapped) (hr : r ∈ s.reservations)
    (hr' : r' ∈ s.reservations) (hx : r.block.Has x) (hx' : r'.block.Has x) : r = r' := by
  by_cases hb : r.base = r'.base
  · exact inj_on_of_nodup_map h.nodup hr hr' hb
  · exact absurd hx' ((h.apart r hr r' hr' hb).not_has hx)

/-- **The invariant is the property**, and more. -/
theorem Inv.follows (h : Inv foreign s mapped) :
    (∀ r ∈ s.reservations, r.Follows mapped) ∧ AllocMapFollows foreign s := by
  constructor
  · intro r hr
    have hwf := h.wf r hr
    refine ⟨hwf.disjoint, hwf.nonempty, hwf.inside, fun o ho => ?_⟩
    rw [h.mapped_iff]
    constructor
    · intro hc
      exact ⟨r, hr, covered_entries.mpr ⟨o, hc, rfl⟩⟩
    · rintro ⟨r', hr', hc⟩
      have hblock : r.block.Has (r.base + o) := by
        unfold Extent.Has block
        dsimp only
        omega
      obtain rfl := h.eq_of_has hr hr' hblock ((h.wf r' hr').block_has hc)
      obtain ⟨o', hc', he⟩ := covered_entries.mp hc
      have : o = o' := by omega
      exact this ▸ hc'
  · obtain ⟨own, hown, hmem⟩ := h.alloc
    refine ⟨own, hown, fun x => ?_⟩
    constructor
    · rintro ⟨e, he, hx⟩
      obtain ⟨r, hr, her⟩ := (hmem e).mp he
      exact ⟨r, hr, covered_entries.mp ⟨e, her, hx⟩⟩
    · rintro ⟨r, hr, hc⟩
      obtain ⟨e, he, hx⟩ := covered_entries.mpr hc
      exact ⟨e, (hmem e).mpr ⟨r, hr, he⟩, hx⟩

/-- The tables other than the handles are what it is about. -/
theorem Inv.congr (h : Inv foreign s mapped) {t : State} (hres : t.reservations = s.reservations)
    (halloc : t.allocMap = s.allocMap) : Inv foreign t mapped := by
  refine ⟨hres ▸ h.nodup, hres ▸ h.wf, hres ▸ h.apart, hres ▸ h.clear, ?_, hres ▸ h.mapped_iff⟩
  rw [hres, halloc]
  exact h.alloc

theorem mem_setRanges (hnd : (s.reservations.map base).Nodup) (hr : r ∈ s.reservations)
    {ranges : List Extent} : r' ∈ (s.setRanges r.base ranges).reservations ↔
      r' = { r with mappedRanges := ranges } ∨ (r' ∈ s.reservations ∧ r'.base ≠ r.base) := by
  have hperm := updateFirst_perm hnd (lookup_of_mem hnd hr)
    fun r => { r with mappedRanges := ranges }
  rw [show (s.setRanges r.base ranges).reservations = updateFirst base r.base
    (fun r => { r with mappedRanges := ranges }) s.reservations from rfl, hperm.mem_iff,
    mem_cons, mem_others]

theorem of_find (h : s.find addr size = some r) :
    r ∈ s.reservations ∧ r.base + r.size < usizeSize ∧ addr + size < usizeSize ∧ r.base ≤ addr ∧
      addr + size ≤ r.base + r.size := by
  unfold State.find at h
  have hc := find?_some h
  exact ⟨mem_of_find?_eq_some h, contains_iff.mp hc⟩

/-! ## Steps that keep the invariant -/

/-- A reservation takes the place of the one at its base, or joins the others. -/
theorem Inv.put (h : Inv foreign s mapped) {rs : List Reservation}
    (hperm : rs.Perm (r :: others base r.base s.reservations)) (hwf : r.Wf)
    (hapart : ∀ r' ∈ s.reservations, r'.base ≠ r.base → r'.block.Clear r.block)
    (hforeign : ∀ f ∈ foreign, f.Clear r.block) (own : List Extent) (mapped' : Set Nat)
    (hown : ∀ e, e ∈ own ↔ e ∈ r.entries ∨
      ∃ r' ∈ s.reservations, r'.base ≠ r.base ∧ e ∈ r'.entries)
    (hmapped : ∀ x, x ∈ mapped' ↔ Covered r.entries x ∨
      ∃ r' ∈ s.reservations, r'.base ≠ r.base ∧ Covered r'.entries x) :
    Inv foreign { s with reservations := rs, allocMap := foreign ++ own } mapped' := by
  have hmem : ∀ r', r' ∈ rs ↔ r' = r ∨ (r' ∈ s.reservations ∧ r'.base ≠ r.base) := by
    intro r'
    rw [hperm.mem_iff, mem_cons, mem_others]
  have hsplit : ∀ P : Reservation → Prop, (∃ r' ∈ rs, P r') ↔
      P r ∨ ∃ r' ∈ s.reservations, r'.base ≠ r.base ∧ P r' := by
    intro P
    simp only [hmem, or_and_right, exists_or, exists_eq_left, and_assoc]
  refine ⟨(hperm.map _).nodup_iff.mpr (nodup_cons_others h.nodup r), fun r' hr' => ?_,
    fun a ha b hb hne => ?_, fun f hf => ⟨(h.clear f hf).1, fun r' hr' => ?_⟩,
    ⟨own, rfl, fun e => ?_⟩, fun x => ?_⟩
  · rcases (hmem r').mp hr' with rfl | ⟨hr', -⟩
    · exact hwf
    · exact h.wf r' hr'
  · rcases (hmem a).mp ha with rfl | ⟨ha, ha'⟩ <;> rcases (hmem b).mp hb with rfl | ⟨hb, hb'⟩
    · exact absurd rfl hne
    · exact (hapart b hb hb').symm
    · exact hapart a ha ha'
    · exact h.apart a ha b hb hne
  · rcases (hmem r').mp hr' with rfl | ⟨hr', -⟩
    · exact hforeign f hf
    · exact (h.clear f hf).2 r' hr'
  · rw [hown]
    exact (hsplit fun r' => e ∈ r'.entries).symm
  · rw [hmapped]
    exact (hsplit fun r' => Covered r'.entries x).symm

/-- A fresh reservation, with nothing mapped. -/
theorem Inv.reserve (h : Inv foreign s mapped) {block size align : Nat} (hsize : 0 < size)
    (hres : ∀ r ∈ s.reservations, r.block.Clear ⟨block, size⟩)
    (hforeign : ∀ f ∈ foreign, f.Clear ⟨block, size⟩) :
    Inv foreign { s with
      reservations := upsert base ⟨block, size, align, []⟩ s.reservations } mapped := by
  have hnew : ∀ r ∈ s.reservations, r.base ≠ block := by
    intro r hr heq
    have hpos := (h.wf r hr).pos
    have hclear := hres r hr
    unfold Extent.Clear Reservation.block at hclear
    dsimp only at hclear
    omega
  -- nothing new is mapped
  have hothers : ∀ P : Reservation → Prop,
      (∃ r ∈ s.reservations, P r) ↔ ∃ r ∈ s.reservations, r.base ≠ block ∧ P r :=
    fun P => exists_congr fun r => and_congr_right fun hr => (and_iff_right (hnew r hr)).symm
  obtain ⟨own, hown, hmem⟩ := h.alloc
  have hput := h.put (upsert_perm h.nodup ⟨block, size, align, []⟩)
    ⟨hsize, .nil, nofun, nofun, fun hn => absurd rfl hn⟩ (fun r hr _ => hres r hr) hforeign
    own mapped (fun e => ?_) fun x => ?_
  · rwa [← hown] at hput
  · exact ((hmem e).trans (hothers _)).trans (or_iff_right not_mem_nil).symm
  · refine ((h.mapped_iff x).trans (hothers _)).trans (or_iff_right ?_).symm
    rintro ⟨_, he, -⟩
    cases he

/-- The mapped ranges of one reservation are replaced; the rest is as it was. -/
theorem Inv.setRanges (h : Inv foreign s mapped) (hr : r ∈ s.reservations) {ranges : List Extent}
    (hwf : Reservation.Wf { r with mappedRanges := ranges }) {own : List Extent} {mapped' : Set Nat}
    (hown : ∀ e, e ∈ own ↔ e ∈ entries { r with mappedRanges := ranges } ∨
      ∃ r' ∈ s.reservations, r'.base ≠ r.base ∧ e ∈ r'.entries)
    (hmapped : ∀ x, x ∈ mapped' ↔
      Covered (entries { r with mappedRanges := ranges }) x ∨
        ∃ r' ∈ s.reservations, r'.base ≠ r.base ∧ Covered r'.entries x) :
    Inv foreign { s.setRanges r.base ranges with allocMap := foreign ++ own } mapped' :=
  h.put (updateFirst_perm h.nodup (lookup_of_mem h.nodup hr) _) hwf
    (fun r' hr' hne => h.apart r' hr' r hr hne) (fun f hf => (h.clear f hf).2 r hr) _ _ hown hmapped

/-- The entries of the reservations, one of them apart. -/
theorem exists_reservation_iff (hnd : (s.reservations.map base).Nodup)
    (hr : r ∈ s.reservations) (P : Reservation → Prop) :
    (∃ r' ∈ s.reservations, P r') ↔ P r ∨ ∃ r' ∈ s.reservations, r'.base ≠ r.base ∧ P r' := by
  constructor
  · rintro ⟨r', hr', hP⟩
    by_cases hb : r'.base = r.base
    · exact .inl (inj_on_of_nodup_map hnd hr' hr hb ▸ hP)
    · exact .inr ⟨r', hr', hb, hP⟩
  · rintro (hP | ⟨r', hr', -, hP⟩)
    · exact ⟨r, hr, hP⟩
    · exact ⟨r', hr', hP⟩

/-! ## Mapping and unmapping -/

section

variable (h : Inv foreign s mapped)

include h

/-- A range clear of the mapped ones is mapped. -/
theorem Inv.map (hfind : s.find addr size = some r) (hsize : 0 < size)
    (hclear : ∀ m ∈ r.mappedRanges, Extent.Clear ⟨addr - r.base, size⟩ m) :
    Inv foreign { s.setRanges r.base (r.mappedRanges ++ [⟨addr - r.base, size⟩]) with
      allocMap := upsert start ⟨addr, size⟩ s.allocMap }
      (mapped ∪ {x | Extent.Has ⟨addr, size⟩ x}) := by
  obtain ⟨hr, hbound, -, hbase, hend⟩ := of_find hfind
  have hwf := h.wf r hr
  have hback : r.base + (addr - r.base) = addr := by omega
  have hnew : entries { r with mappedRanges := r.mappedRanges ++
      [⟨addr - r.base, size⟩] } = r.entries ++ [⟨addr, size⟩] := by
    simp [entries, hback]
  obtain ⟨own, hown, hmem⟩ := h.alloc
  -- no entry of the allocation map starts where the new one does
  have hkey : addr ∉ s.allocMap.map start := by
    rw [hown]
    intro hin
    obtain ⟨e, he, hstart⟩ := mem_map.mp hin
    rcases mem_append.mp he with he | he
    · obtain ⟨hpos, hf⟩ := h.clear e he
      have := hf r hr
      unfold Extent.Clear block at this
      dsimp only at this
      omega
    · obtain ⟨r', hr', her⟩ := (hmem e).mp he
      obtain ⟨m, hm, rfl⟩ := mem_entries.mp her
      have hpos := (h.wf r' hr').nonempty m hm
      dsimp only at hstart
      by_cases hb : r'.base = r.base
      · obtain rfl := inj_on_of_nodup_map h.nodup hr' hr hb
        have := hclear m hm
        unfold Extent.Clear at this
        dsimp only at this
        omega
      · have hapart := h.apart r' hr' r hr hb
        have hin := (h.wf r' hr').inside m hm
        unfold Extent.Clear block at hapart
        dsimp only at hapart
        omega
  rw [upsert_of_not_mem hkey, hown, append_assoc]
  have hwf' : Reservation.Wf { r with mappedRanges := r.mappedRanges ++
      [⟨addr - r.base, size⟩] } := by
    refine ⟨hwf.pos, ?_, fun m hm => ?_, fun m hm => ?_, fun _ => hbound⟩
    · dsimp only
      rw [pairwise_append]
      refine ⟨hwf.disjoint, pairwise_singleton _ _, fun a ha b hb => ?_⟩
      rw [mem_singleton.mp hb]
      exact (hclear a ha).symm
    · rcases mem_append.mp hm with hm | hm
      · exact hwf.nonempty m hm
      · rw [mem_singleton.mp hm]
        exact hsize
    · rcases mem_append.mp hm with hm | hm
      · exact hwf.inside m hm
      · rw [mem_singleton.mp hm]
        dsimp only
        omega
  refine h.setRanges hr hwf' (fun e => ?_) fun x => ?_
  · rw [hnew, mem_append, hmem, exists_reservation_iff h.nodup hr fun r => e ∈ r.entries,
      mem_append]
    exact or_right_comm
  · have hone : Covered [⟨addr, size⟩] x ↔ Extent.Has ⟨addr, size⟩ x := by simp [Covered]
    rw [hnew, covered_append, hone, Set.mem_union, h.mapped_iff,
      exists_reservation_iff h.nodup hr fun r => Covered r.entries x]
    exact or_right_comm

/-- What lies in the block of one reservation is clear of the others. -/
theorem Inv.entry_clear (hr : r ∈ s.reservations) (hr' : r' ∈ s.reservations)
    (hne : r'.base ≠ r.base) {c e : Extent} (hbase : r.base ≤ c.start)
    (hend : c.start + c.size ≤ r.base + r.size) (he : e ∈ r'.entries) : c.Clear e := by
  obtain ⟨hs, hsize⟩ := (h.wf r' hr').entry_inside he
  exact (h.apart r hr r' hr' hne.symm).of_inside hbase hend hs hsize

/-- The entries that survive a removal inside one block: the foreign ones, those of the
other reservations, and those of this one that are clear of it. -/
theorem Inv.filter_alloc (hr : r ∈ s.reservations) {c : Extent} (hbase : r.base ≤ c.start)
    (hend : c.start + c.size ≤ r.base + r.size) :
    ∃ own, (s.allocMap.filter fun e => !rangesOverlap c.start c.size e.start e.size) =
        foreign ++ own ∧
      ∀ e, e ∈ own ↔ (e ∈ r.entries ∧ rangesOverlap c.start c.size e.start e.size = false) ∨
        ∃ r' ∈ s.reservations, r'.base ≠ r.base ∧ e ∈ r'.entries := by
  obtain ⟨own, hown, hmem⟩ := h.alloc
  refine ⟨own.filter fun e => !rangesOverlap c.start c.size e.start e.size, ?_, fun e => ?_⟩
  · rw [hown, filter_append, filter_eq_self.mpr fun f hf => ?_]
    have hclear : c.Clear f := by
      have hf' := (h.clear f hf).2 r hr
      exact (hf'.of_inside (le_refl _) (le_refl _) hbase hend).symm
    rw [rangesOverlap_of_clear hclear]
    rfl
  · rw [mem_filter, hmem, exists_reservation_iff h.nodup hr, Bool.not_eq_true']
    constructor
    · rintro ⟨he | he, hno⟩
      · exact .inl ⟨he, hno⟩
      · exact .inr he
    · rintro (⟨he, hno⟩ | ⟨r', hr', hne, he⟩)
      · exact ⟨.inl he, hno⟩
      · exact ⟨.inr ⟨r', hr', hne, he⟩,
          rangesOverlap_of_clear (h.entry_clear hr hr' hne hbase hend he)⟩

/-- The reservation and everything mapped in it goes. -/
theorem Inv.addressFree (hr : r ∈ s.reservations) :
    Inv foreign { s with
      reservations := others base r.base s.reservations
      allocMap := s.allocMap.filter fun e => !rangesOverlap r.base r.size e.start e.size }
      (mapped \ {x | Extent.Has ⟨r.base, r.size⟩ x}) := by
  have hwf := h.wf r hr
  have hsub : ∀ r' ∈ others base r.base s.reservations, r' ∈ s.reservations :=
    fun r' hr' => (mem_others.mp hr').1
  obtain ⟨own, hown, hmem⟩ := h.filter_alloc hr (c := r.block) (le_refl _) (le_refl _)
  refine ⟨?_, fun r' hr' => h.wf r' (hsub r' hr'), fun a ha b hb hne =>
      h.apart a (hsub a ha) b (hsub b hb) hne, fun f hf => ⟨(h.clear f hf).1, fun r' hr' =>
      (h.clear f hf).2 r' (hsub r' hr')⟩, ⟨own, hown, fun e => ?_⟩, fun x => ?_⟩
  · exact (filter_sublist.map _).nodup h.nodup
  · rw [hmem]
    constructor
    · rintro (⟨he, hno⟩ | ⟨r', hr', hne, he⟩)
      · -- an entry of this reservation is inside its block
        exfalso
        obtain ⟨hs, hend⟩ := hwf.entry_inside he
        obtain ⟨m, hm, rfl⟩ := mem_entries.mp he
        have hpos := hwf.nonempty m hm
        have hbound := hwf.bounded (ne_nil_of_mem hm)
        have hyes := (rangesOverlap_iff (a := r.block) (b := ⟨r.base + m.start, m.size⟩) hbound
          (by dsimp only at hend ⊢; omega)).mpr (by
            unfold Extent.Clear block
            dsimp only at hs hend ⊢
            omega)
        rw [hno] at hyes
        cases hyes
      · exact ⟨r', mem_others.mpr ⟨hr', hne⟩, he⟩
    · rintro ⟨r', hr', he⟩
      obtain ⟨hr', hne⟩ := mem_others.mp hr'
      exact .inr ⟨r', hr', hne, he⟩
  · rw [Set.mem_sdiff, h.mapped_iff, Set.mem_ofPred_eq]
    constructor
    · rintro ⟨⟨r', hr', hc⟩, hout⟩
      refine ⟨r', mem_others.mpr ⟨hr', fun hb => hout ?_⟩, hc⟩
      obtain rfl := inj_on_of_nodup_map h.nodup hr' hr hb
      exact hwf.block_has hc
    · rintro ⟨r', hr', hc⟩
      obtain ⟨hr', hne⟩ := mem_others.mp hr'
      refine ⟨⟨r', hr', hc⟩, ?_⟩
      exact (h.apart r' hr' r hr hne).not_has ((h.wf r' hr').block_has hc)

/-- The range is cut out of the reservation's ranges and its entries are dropped. -/
def State.unmapped (s : State) (r : Reservation) (addr size : Nat) : State :=
  { s.setRanges r.base (r.mappedRanges.flatMap (cut ⟨addr - r.base, size⟩)) with
    allocMap := s.allocMap.filter fun e => !rangesOverlap addr size e.start e.size }

/-- **What unmap does** inside a reservation. -/
theorem Inv.unmap_eq (haddr : addr ≠ 0) (hsize : size ≠ 0) (hfind : s.find addr size = some r) :
    unmap s addr size =
      if r.mappedRanges.any fun m => rangesOverlap (addr - r.base) size m.start m.size then
        (.ok (), s.unmapped r addr size)
      else (.error .invalidValue, s.setRanges r.base []) := by
  obtain ⟨hr, hbound, hlt, hbase, hend⟩ := of_find hfind
  have hc : addr - r.base + size < usizeSize := by omega
  have hrange : rangeEnd (addr - r.base) size = .ok (addr - r.base + size) := if_pos hc
  have hloop := unmapLoop_eq (c := ⟨addr - r.base, size⟩) hc r.mappedRanges [] false fun m hm => by
    have := (h.wf r hr).inside m hm
    omega
  rw [unmap, if_neg (by simp [haddr, hsize]), hfind]
  dsimp only at hloop ⊢
  rw [hrange]
  dsimp only
  rw [hloop, Bool.false_or, nil_append]
  dsimp only
  cases r.mappedRanges.any fun m => rangesOverlap (addr - r.base) size m.start m.size <;> rfl

/-- Addresses and offsets overlap alike. -/
theorem Inv.overlap_entry (hfind : s.find addr size = some r) {m : Extent}
    (hm : m ∈ r.mappedRanges) :
    rangesOverlap addr size (r.base + m.start) m.size =
      rangesOverlap (addr - r.base) size m.start m.size := by
  obtain ⟨hr, hbound, hlt, hbase, hend⟩ := of_find hfind
  have hin := (h.wf r hr).inside m hm
  have h1 := rangesOverlap_iff (a := ⟨addr, size⟩) (b := ⟨r.base + m.start, m.size⟩) hlt
    (by dsimp only; omega)
  have h2 := rangesOverlap_iff (a := ⟨addr - r.base, size⟩) (b := m) (by dsimp only; omega)
    (by omega)
  rw [Bool.eq_iff_iff, h1, h2]
  unfold Extent.Clear
  dsimp only
  omega

end

/-- Points of this reservation's block, as offsets. -/
theorem has_iff_offset {addr size o : Nat} (hbase : r.base ≤ addr) :
    Extent.Has ⟨addr, size⟩ (r.base + o) ↔ Extent.Has ⟨addr - r.base, size⟩ o := by
  unfold Extent.Has
  dsimp only
  omega

/-- Whole ranges are unmapped. -/
theorem Inv.unmap (h : Inv foreign s mapped) (hfind : s.find addr size = some r)
    (hwhole : ∀ m ∈ r.mappedRanges, rangesOverlap (addr - r.base) size m.start m.size →
      contains (addr - r.base) size m.start m.size) :
    Inv foreign (s.unmapped r addr size) (mapped \ {x | Extent.Has ⟨addr, size⟩ x}) := by
  obtain ⟨hr, hbound, hlt, hbase, hend⟩ := of_find hfind
  have hwf := h.wf r hr
  -- a range is kept as it is or removed as a whole
  have hkept : ∀ m, m ∈ r.mappedRanges.flatMap (cut ⟨addr - r.base, size⟩) ↔
      m ∈ r.mappedRanges ∧ rangesOverlap (addr - r.base) size m.start m.size = false := by
    have hcut : ∀ q ∈ r.mappedRanges, cut ⟨addr - r.base, size⟩ q =
        if rangesOverlap (addr - r.base) size q.start q.size then [] else [q] := by
      intro q hq
      have hin := hwf.inside q hq
      split
      · rename_i hover
        obtain ⟨-, -, hs, he⟩ := contains_iff.mp (hwhole q hq hover)
        exact cut_of_inside (hwf.nonempty q hq) hs he
      · rename_i hover
        refine cut_of_clear (Extent.Clear.symm ?_)
        by_contra hn
        exact hover ((rangesOverlap_iff (a := ⟨addr - r.base, size⟩) (b := q)
          (by dsimp only; omega) (by omega)).mpr hn)
    intro m
    rw [mem_flatMap]
    constructor
    · rintro ⟨q, hq, hm⟩
      rw [hcut q hq] at hm
      split at hm
      · cases hm
      · rename_i hover
        rw [mem_singleton.mp hm]
        exact ⟨hq, by simpa using hover⟩
    · rintro ⟨hm, hover⟩
      refine ⟨m, hm, ?_⟩
      rw [hcut m hm, hover]
      exact mem_singleton.mpr rfl
  obtain ⟨own, hown, hmem⟩ := h.filter_alloc hr (c := ⟨addr, size⟩) hbase hend
  dsimp only at hown hmem
  rw [State.unmapped, hown]
  have hwf' : Reservation.Wf { r with
      mappedRanges := r.mappedRanges.flatMap (cut ⟨addr - r.base, size⟩) } :=
    ⟨hwf.pos, pairwise_flatMap_cut hwf.disjoint hwf.nonempty,
      fun m hm => hwf.nonempty m ((hkept m).mp hm).1,
      fun m hm => hwf.inside m ((hkept m).mp hm).1, fun _ => hbound⟩
  refine h.setRanges hr hwf' (fun e => ?_) fun x => ?_
  · rw [hmem, mem_entries, mem_entries]
    refine or_congr_left ?_
    simp only [hkept]
    constructor
    · rintro ⟨⟨m, hm, rfl⟩, hno⟩
      exact ⟨m, ⟨hm, (h.overlap_entry hfind hm).symm.trans hno⟩, rfl⟩
    · rintro ⟨m, ⟨hm, hno⟩, rfl⟩
      exact ⟨⟨m, hm, rfl⟩, (h.overlap_entry hfind hm).trans hno⟩
  · rw [Set.mem_sdiff, h.mapped_iff, Set.mem_ofPred_eq,
      exists_reservation_iff h.nodup hr fun r => Covered r.entries x, covered_entries,
      covered_entries]
    simp only [covered_flatMap_cut]
    constructor
    · rintro ⟨⟨o, ho, rfl⟩ | hothers, hout⟩
      · exact .inl ⟨o, ⟨ho, fun hc => hout ((has_iff_offset hbase).mpr hc)⟩, rfl⟩
      · exact .inr hothers
    · rintro (⟨o, ⟨ho, hout⟩, rfl⟩ | ⟨r', hr', hne, e, he, hx⟩)
      · exact ⟨.inl ⟨o, ho, rfl⟩, fun hc => hout ((has_iff_offset hbase).mp hc)⟩
      · refine ⟨.inr ⟨r', hr', hne, e, he, hx⟩, fun hc => ?_⟩
        exact (h.entry_clear hr hr' hne (c := ⟨addr, size⟩) hbase hend he).not_has hc hx

end Inv

/-! ## Whole runs -/

section Runs

variable {foreign : List Extent} {s : State} {mapped : Set Nat} {c : Call}

def Keeps (foreign : List Extent) (s : State) (mapped : Set Nat) (c : Call) (result : Result) :
    Prop :=
  (∀ e, result.1 = .error e →
    result.2.reservations = s.reservations ∧ result.2.allocMap = s.allocMap) ∧
  Inv foreign result.2 (mappedAfter mapped c result.1)

theorem mappedAfter_error (e : CUerror) : mappedAfter mapped c (.error e) = mapped := by
  cases c <;> rfl

/-- An error that left both tables alone. -/
theorem Inv.keeps_error (h : Inv foreign s mapped) {e : CUerror} {t : State}
    (hres : t.reservations = s.reservations) (halloc : t.allocMap = s.allocMap) :
    Keeps foreign s mapped c (.error e, t) :=
  ⟨fun _ _ => ⟨hres, halloc⟩, (mappedAfter_error e).symm ▸ h.congr hres halloc⟩

theorem keeps_ok {t : State} (h : Inv foreign t (mappedAfter mapped c (.ok ()))) :
    Keeps foreign s mapped c (.ok (), t) :=
  ⟨nofun, h⟩

section

variable (h : Inv foreign s mapped)

include h

theorem Inv.keeps_create (handleNull propNull : Bool) (size flags : Nat) :
    Keeps foreign s mapped (.create handleNull propNull size flags)
      (create s handleNull propNull size flags) := by
  unfold create
  split
  · exact h.keeps_error rfl rfl
  · dsimp only
    split
    · exact h.keeps_error rfl rfl
    · exact keeps_ok (h.congr rfl rfl)

theorem Inv.keeps_release (handle : Nat) :
    Keeps foreign s mapped (.release handle) (release s handle) := by
  unfold release
  split
  · exact h.keeps_error rfl rfl
  · exact keeps_ok (h.congr rfl rfl)

theorem Inv.keeps_addressReserve (ptrNull : Bool) (size alignment addr flags block : Nat)
    (hhost : HostClear foreign s (.addressReserve ptrNull size alignment addr flags block)) :
    Keeps foreign s mapped (.addressReserve ptrNull size alignment addr flags block)
      (addressReserve s ptrNull size alignment addr flags block) := by
  unfold addressReserve
  split
  · exact h.keeps_error rfl rfl
  · rename_i hargs
    split
    · exact h.keeps_error rfl rfl
    · split
      · exact h.keeps_error rfl rfl
      · split
        · exact h.keeps_error rfl rfl
        · rename_i hblock
          obtain ⟨hres, hforeign⟩ := hhost.resolve_left hblock
          exact keeps_ok (h.reserve (by omega) hres hforeign)

theorem Inv.keeps_map (addr size offset handle flags : Nat) :
    Keeps foreign s mapped (.map addr size offset handle flags)
      (Vmm.map s addr size offset handle flags) := by
  unfold Vmm.map
  split
  · exact h.keeps_error rfl rfl
  rename_i hargs
  split
  · exact h.keeps_error rfl rfl
  split
  · exact h.keeps_error rfl rfl
  split
  · exact h.keeps_error rfl rfl
  rename_i r hfind
  dsimp only
  split
  · exact h.keeps_error rfl rfl
  split
  · exact h.keeps_error rfl rfl
  rename_i hno
  obtain ⟨hr, hbound, hlt, hbase, hend⟩ := of_find hfind
  refine keeps_ok (h.map hfind (by omega) fun m hm => ?_)
  -- no mapped range overlaps the new one
  have hin := (h.wf r hr).inside m hm
  by_contra hn
  refine hno (.inr (any_eq_true.mpr ⟨m, hm, ?_⟩))
  exact (rangesOverlap_iff (a := ⟨addr - r.base, size⟩) (by dsimp only; omega)
    (by omega)).mpr hn

theorem Inv.keeps_unmap (addr size : Nat) (hwhole : WholeUnmap s (.unmap addr size)) :
    Keeps foreign s mapped (.unmap addr size) (Vmm.unmap s addr size) := by
  by_cases hargs : addr = 0 ∨ size = 0
  · rw [Vmm.unmap, if_pos hargs]
    exact h.keeps_error rfl rfl
  obtain ⟨haddr, hsize⟩ := not_or.mp hargs
  cases hfind : s.find addr size with
  | none =>
    rw [Vmm.unmap, if_neg hargs, hfind]
    exact h.keeps_error rfl rfl
  | some r =>
    obtain ⟨hhit, hin⟩ := hwhole haddr hsize r hfind
    rw [h.unmap_eq haddr hsize hfind]
    split
    · exact keeps_ok (h.unmap hfind hin)
    · rename_i hno
      have hempty : r.mappedRanges = [] := by
        refine hhit.resolve_right ?_
        rintro ⟨m, hm, hover⟩
        exact hno (any_eq_true.mpr ⟨m, hm, hover⟩)
      -- there was nothing to drain
      refine h.keeps_error ?_ rfl
      have hr := (of_find hfind).1
      refine updateFirst_self fun r' hr' => ?_
      obtain rfl := Option.some.inj ((lookup_of_mem h.nodup hr).symm.trans hr')
      rw [← hempty]

theorem Inv.keeps_addressFree (addr size : Nat) :
    Keeps foreign s mapped (.addressFree addr size) (Vmm.addressFree s addr size) := by
  unfold Vmm.addressFree
  split
  · exact h.keeps_error rfl rfl
  split
  · exact h.keeps_error rfl rfl
  rename_i r hlookup
  split
  · exact h.keeps_error rfl rfl
  rename_i hsize
  obtain rfl := key_of_lookup hlookup
  obtain rfl : size = r.size := by_contra hsize
  exact keeps_ok (h.addressFree (mem_of_lookup hlookup))

/-- **One step.** A call that unmaps only whole ranges keeps the tables together. -/
theorem Inv.step (hhost : HostClear foreign s c) (hwhole : WholeUnmap s c) :
    Keeps foreign s mapped c (Vmm.step s c) := by
  cases c with
  | create handleNull propNull size flags => exact h.keeps_create handleNull propNull size flags
  | release handle => exact h.keeps_release handle
  | addressReserve ptrNull size alignment addr flags block =>
    exact h.keeps_addressReserve ptrNull size alignment addr flags block hhost
  | map addr size offset handle flags => exact h.keeps_map addr size offset handle flags
  | unmap addr size => exact h.keeps_unmap addr size hwhole
  | addressFree addr size => exact h.keeps_addressFree addr size

end

/-- A range that is hit and not contained has a byte outside. -/
theorem exists_outside {c m : Extent} (hc : c.start + c.size < usizeSize)
    (hm : m.start + m.size < usizeSize) (hpos : 0 < m.size)
    (hn : ¬contains c.start c.size m.start m.size) : ∃ o, m.Has o ∧ ¬c.Has o := by
  rw [contains_iff] at hn
  unfold Extent.Has
  by_cases hs : c.start ≤ m.start
  · exact ⟨m.start + m.size - 1, by omega⟩
  · exact ⟨m.start, by omega⟩

/-- An unmap that takes part of a range loses the entry of the rest. -/
theorem Inv.not_allocMapFollows (h : Inv foreign s mapped) {r : Reservation}
    (hfind : s.find addr size = some r) {m : Extent} (hm : m ∈ r.mappedRanges)
    (hover : rangesOverlap (addr - r.base) size m.start m.size)
    (hpart : ¬contains (addr - r.base) size m.start m.size) :
    ¬AllocMapFollows foreign (s.unmapped r addr size) := by
  obtain ⟨hr, hbound, hlt, hbase, hend⟩ := of_find hfind
  have hwf := h.wf r hr
  have hin := hwf.inside m hm
  obtain ⟨o, ho, hout⟩ := exists_outside (c := ⟨addr - r.base, size⟩) (m := m)
    (by dsimp only; omega) (by omega) (hwf.nonempty m hm) hpart
  rintro ⟨own', hown', hcovers⟩
  obtain ⟨own, hown, hmem⟩ := h.filter_alloc hr (c := ⟨addr, size⟩) hbase hend
  have hsame : own' = own := append_cancel_left (hown'.symm.trans hown)
  subst hsame
  -- the byte is still covered in the reservation
  have hkept : Covered (r.mappedRanges.flatMap (cut ⟨addr - r.base, size⟩)) o :=
    covered_flatMap_cut.mpr ⟨⟨m, hm, ho⟩, hout⟩
  obtain ⟨e, he, hx⟩ := (hcovers (r.base + o)).mpr
    ⟨_, (mem_setRanges h.nodup hr).mpr (.inl rfl), o, hkept, rfl⟩
  have hblock : r.block.Has (r.base + o) :=
    hwf.block_has (covered_entries.mpr ⟨o, ⟨m, hm, ho⟩, rfl⟩)
  rcases (hmem e).mp he with ⟨her, hno⟩ | ⟨r', hr', hne, her⟩
  · -- its only entry was the one of `m`, which went
    obtain ⟨m', hm', rfl⟩ := mem_entries.mp her
    have ho' : m'.Has o := by
      unfold Extent.Has at hx ⊢
      dsimp only at hx
      omega
    have heq : m' = m := by
      by_contra hdiff
      exact (hwf.disjoint.forall hm' hm hdiff).not_has ho' ho
    rw [heq] at hno
    dsimp only at hno
    rw [h.overlap_entry hfind hm, hover] at hno
    cases hno
  · have := h.eq_of_has hr hr' hblock ((h.wf r' hr').block_has ⟨e, her, hx⟩)
    exact hne (this ▸ rfl)

/-- **The condition is needed.** Any other unmap breaks the property. -/
theorem Inv.broken (h : Inv foreign s mapped) (hbad : ¬WholeUnmap s c) :
    ¬((∀ e, (Vmm.step s c).1 = .error e → (Vmm.step s c).2.reservations = s.reservations ∧
        (Vmm.step s c).2.allocMap = s.allocMap) ∧ AllocMapFollows foreign (Vmm.step s c).2) := by
  rintro ⟨hsame, hfollows⟩
  cases c with
  | unmap addr size =>
    unfold WholeUnmap at hbad
    push Not at hbad
    obtain ⟨haddr, hsize, r, hfind, hbad⟩ := hbad
    have hr := (of_find hfind).1
    have heq : Vmm.step s (.unmap addr size) = _ := h.unmap_eq haddr hsize hfind
    rw [heq] at hsame hfollows
    split at hsame
    · rename_i hany
      rw [if_pos hany] at hfollows
      obtain ⟨m₀, hm₀, hhit⟩ := any_eq_true.mp hany
      obtain ⟨m, hm, hover, hpart⟩ := hbad (.inr ⟨m₀, hm₀, hhit⟩)
      exact h.not_allocMapFollows hfind hm hover hpart hfollows
    · rename_i hno
      -- nothing was hit, and the ranges are gone
      have hres := (hsame _ rfl).1
      have hempty : r.mappedRanges = [] := by
        have hr' := hres ▸ hr
        rcases (mem_setRanges h.nodup hr).mp hr' with heq | ⟨-, hne⟩
        · rw [heq]
        · exact absurd rfl hne
      obtain ⟨m, hm, hover, -⟩ := hbad (.inl hempty)
      exact hno (any_eq_true.mpr ⟨m, hm, hover⟩)
  | create | release | addressReserve | map | addressFree => exact hbad trivial

theorem inv_initial (hforeign : ∀ f ∈ foreign, 0 < f.size) :
    Inv foreign (State.initial foreign) ∅ := by
  refine ⟨nodup_nil, nofun, nofun, fun f hf => ⟨hforeign f hf, nofun⟩,
    ⟨[], (append_nil _).symm, ?_⟩, ?_⟩
  · intro e
    simp [State.initial]
  · intro x
    simp [State.initial]

/-- From any state of a run that kept the invariant. -/
theorem Inv.follows_iff (h : Inv foreign s mapped) {calls : List Call}
    (hhost : HostClears foreign s calls) :
    Follows foreign s mapped calls ↔ WholeUnmaps s calls := by
  induction calls generalizing s mapped with
  | nil => exact Iff.rfl
  | cons c calls ih =>
    obtain ⟨hclear, hrest⟩ := hhost
    unfold Follows WholeUnmaps
    dsimp only
    constructor
    · rintro ⟨hsame, -, halloc, hfollows⟩
      have hwhole : WholeUnmap s c := by
        by_contra hbad
        exact h.broken hbad ⟨hsame, halloc⟩
      exact ⟨hwhole, (ih (h.step hclear hwhole).2 hrest).mp hfollows⟩
    · rintro ⟨hwhole, hwholes⟩
      obtain ⟨hsame, hinv⟩ := h.step hclear hwhole
      obtain ⟨hres, halloc⟩ := hinv.follows
      exact ⟨hsame, hres, halloc, (ih hinv hrest).mpr hwholes⟩

end Runs

/-- **The tables follow the calls** of a run exactly when every unmap takes whole ranges. -/
theorem follows_iff_wholeUnmaps (foreign : List Extent) (hforeign : ∀ f ∈ foreign, 0 < f.size)
    (calls : List Call) (hhost : HostClears foreign (State.initial foreign) calls) :
    Follows foreign (State.initial foreign) ∅ calls ↔
      WholeUnmaps (State.initial foreign) calls :=
  (inv_initial hforeign).follows_iff hhost

/-- Two ranges are mapped side by side and unmapped together. -/
theorem follows_whole_unmap : Follows [⟨4096, 16⟩] (State.initial [⟨4096, 16⟩]) ∅
    [.create false false 65536 0, .addressReserve false 131072 0 0 0 65536,
      .map 65536 65536 0 0x544d4d0000000001 0, .map 131072 65536 0 0x544d4d0000000001 0,
      .unmap 65536 131072, .addressFree 65536 131072] := by
  refine (follows_iff_wholeUnmaps [⟨4096, 16⟩] (by decide) _ ?_).mpr ?_
  · exact ⟨trivial, .inr ⟨nofun, by decide⟩, trivial, trivial, trivial, trivial, trivial⟩
  · refine ⟨trivial, trivial, trivial, trivial, fun _ _ r hr => ?_, trivial, trivial⟩
    have hfound := hr.symm.trans (show _ = some (⟨65536, 131072, 65536,
      [⟨0, 65536⟩, ⟨65536, 65536⟩]⟩ : Reservation) by decide +kernel)
    obtain rfl := Option.some.inj hfound
    decide

/-- Half of a range is unmapped: the other half stays mapped in the reservation, and the
allocation map has lost it. -/
theorem not_follows_part_unmap : ¬Follows [] (State.initial []) ∅
    [.create false false 65536 0, .addressReserve false 65536 0 0 0 65536,
      .map 65536 65536 0 0x544d4d0000000001 0, .unmap 65536 32768] := by
  rintro ⟨-, -, -, hreserve⟩
  obtain ⟨-, -, -, hmap⟩ := hreserve
  obtain ⟨-, -, -, hunmap⟩ := hmap
  obtain ⟨-, -, ⟨own, hown, hcovers⟩, -⟩ := hunmap
  have hnone : [] = [] ++ own := .trans (by decide +kernel) hown
  obtain ⟨e, he, -⟩ := (hcovers 131071).mpr ⟨⟨65536, 65536, 65536, [⟨32768, 32768⟩]⟩,
    by decide +kernel, 65535, ⟨⟨32768, 32768⟩, mem_singleton.mpr rfl, by decide, by decide⟩, rfl⟩
  rw [nil_append] at hnone
  rw [← hnone] at he
  cases he

end Concordia.Vmm
