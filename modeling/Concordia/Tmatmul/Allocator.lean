import Concordia.Tmatmul.Assembly

/-!
# Where the allocator keeps its values

No operation frees a register, so the first seven values stay in `v0` to `v6`, and all
later ones take turns in `v7`: its last occupant is there, the others are in spill slots.
-/

namespace Concordia.Tmatmul

open Concordia.Lib Concordia.Lib.Text Function RegisterAllocator Option Prod
open List hiding lookup

/-! ## Homes -/

/-- The register of a value, given the values defined so far and the occupant of `v7`. -/
def home (defined : List Value) (cur : Option Value) (v : Value) : Option Nat :=
  if v ∈ defined.take 7 then some (defined.idxOf v) else if cur = some v then some 7 else none

section Home

variable {defined : List Value} {cur : Option Value} {u v w : Value} {r : Nat}

theorem idxOf_lt_seven (h : v ∈ defined.take 7) : defined.idxOf v < 7 :=
  (mem_take_iff_idxOf_lt (mem_of_mem_take h)).mp h

theorem home_of_early (h : v ∈ defined.take 7) : home defined cur v = some (defined.idxOf v) :=
  if_pos h

theorem home_of_late (h : v ∉ defined.take 7) :
    home defined cur v = if cur = some v then some 7 else none := if_neg h

theorem home_eq_some_iff : home defined cur v = some r ↔
    v ∈ defined.take 7 ∧ defined.idxOf v = r ∨ v ∉ defined.take 7 ∧ cur = some v ∧ 7 = r := by
  unfold home
  split <;> rename_i hv
  · simp [hv]
  · simp [hv]

theorem home_eq_none_iff : home defined cur v = none ↔ v ∉ defined.take 7 ∧ cur ≠ some v := by
  unfold home
  split <;> rename_i hv
  · simp [hv]
  · simp [hv]

theorem home_lt (h : home defined cur v = some r) : r < 8 := by
  obtain ⟨hv, rfl⟩ | ⟨-, -, rfl⟩ := home_eq_some_iff.mp h
  · exact (idxOf_lt_seven hv).trans (by decide)
  · decide

/-- No two values share a register. -/
theorem home_inj (hu : home defined cur u = some r) (hv : home defined cur v = some r) : u = v := by
  obtain ⟨he, rfl⟩ | ⟨-, hc, rfl⟩ := home_eq_some_iff.mp hu
  · obtain ⟨-, hidx⟩ | ⟨-, -, hr⟩ := home_eq_some_iff.mp hv
    · exact (idxOf_inj (mem_of_mem_take he)).mp hidx.symm
    · exact absurd hr.symm (idxOf_lt_seven he).ne
  · obtain ⟨he, hidx⟩ | ⟨-, hc', -⟩ := home_eq_some_iff.mp hv
    · exact absurd hidx (idxOf_lt_seven he).ne
    · exact some.inj (hc.symm.trans hc')

/-- Only late values depend on the occupant. -/
theorem home_congr {cur' : Option Value} (h : v ∉ defined.take 7 → (cur = some v ↔ cur' = some v)) :
    home defined cur v = home defined cur' v := by
  by_cases hv : v ∈ defined.take 7
  · rw [home_of_early hv, home_of_early hv]
  · rw [home_of_late hv, home_of_late hv]
    simp only [h hv]

/-- Further values move no other. -/
theorem home_append (hlen : 7 ≤ defined.length) (later : List Value) :
    home (defined ++ later) cur v = home defined cur v := by
  unfold home
  rw [take_append_of_le_length hlen]
  split
  · rename_i hv
    rw [idxOf_append_of_mem (mem_of_mem_take hv)]
  · rfl

/-- The occupant of `v7` after a new value. -/
def newOccupant (defined : List Value) (v : Value) : Option Value :=
  if defined.length < 7 then none else some v

/-- While there are registers left, a new value takes the next one. -/
theorem home_fresh {x : Value} (hlen : defined.length < 8) (hmem : v ∉ defined) :
    home (defined ++ [v]) (newOccupant defined v) x =
      if v = x then some defined.length else home defined none x := by
  have hearly : defined.take 7 = defined := take_of_length_le (by omega)
  by_cases h7 : defined.length < 7
  · have htake : (defined ++ [v]).take 7 = defined ++ [v] :=
      take_of_length_le (by rw [length_append]; simp; omega)
    rw [newOccupant, if_pos h7]
    unfold home
    rw [htake, hearly]
    by_cases hx : v = x
    · subst hx
      rw [if_pos (by simp), if_pos rfl, idxOf_append_of_notMem hmem]
      simp
    · rw [if_neg hx]
      by_cases hxd : x ∈ defined
      · rw [if_pos (mem_append_left _ hxd), if_pos hxd, idxOf_append_of_mem hxd]
      · rw [if_neg (by simp [hxd, Ne.symm hx]), if_neg hxd]
  · rw [newOccupant, if_neg h7, home_append (by omega)]
    by_cases hx : v = x
    · subst hx
      rw [home_of_late (hearly.symm ▸ hmem), if_pos rfl, if_pos rfl]
      congr 1
      omega
    · rw [if_neg hx]
      exact home_congr fun _ => by simp [hx]

/-- A value defined later than the seventh is not early. -/
theorem not_early_of_mem_drop (hnd : defined.Nodup) (h : v ∈ defined.drop 7) :
    v ∉ defined.take 7 := by
  intro ht
  have hsplit := take_append_drop 7 defined
  rw [← hsplit, nodup_append] at hnd
  exact hnd.2.2 v ht v h rfl

end Home

/-! ## The representation -/

/-- The allocator's tables, by the values defined so far and the occupant of `v7`. -/
structure Rep (a : RegisterAllocator) (defined : List Value) (cur : Option Value) : Prop where
  nodup : defined.Nodup
  cur_mem : ∀ v, cur = some v → v ∈ defined.drop 7
  cur_some : 8 ≤ defined.length → cur.isSome
  keys : (a.valueToReg.map fst).Nodup
  reg : ∀ v, lookup fst v a.valueToReg = (home defined cur v).map fun r => (v, r)
  allocated : ∀ r < 8, a.allocatedRegs r = decide (r < defined.length)
  next : 8 ≤ defined.length → a.nextReg = 0
  slot : ∀ v, (lookup fst v a.spillSlots).isSome ↔ v ∈ defined ∧ home defined cur v = none
  slot_name : ∀ v e, lookup fst v a.spillSlots = some e →
    ∃ k < a.nextSpillSlot, e.2 = spillName k
  slot_inj : ∀ v v' e e', lookup fst v a.spillSlots = some e →
    lookup fst v' a.spillSlots = some e' → e.2 = e'.2 → v = v'

theorem spillName_inj {k k' : Nat} (h : spillName k = spillName k') : k = k' :=
  decimal_inj (append_cancel_left h)

theorem rep_new : Rep .new [] none := by
  refine ⟨nodup_nil, nofun, fun h => absurd h (by decide), nodup_nil, fun v => rfl,
    fun r _ => rfl, fun _ => rfl, fun v => ?_, nofun, nofun⟩
  simp [new, lookup]

namespace Rep

variable {a : RegisterAllocator} {defined : List Value} {cur : Option Value} {v w : Value} {r : Nat}

/-- What is queued does not matter. -/
theorem pending (h : Rep a defined cur) (spills : List (Nat × Text)) (reloads : List (Text × Nat)) :
    Rep { a with pendingSpills := spills, pendingReloads := reloads } defined cur :=
  ⟨h.nodup, h.cur_mem, h.cur_some, h.keys, h.reg, h.allocated, h.next, h.slot, h.slot_name,
    h.slot_inj⟩

theorem length_of_cur (h : Rep a defined cur) (hw : cur = some w) : 8 ≤ defined.length := by
  have hmem := h.cur_mem w hw
  have hne : defined.drop 7 ≠ [] := ne_nil_of_mem hmem
  rw [ne_eq, drop_eq_nil_iff] at hne
  omega

theorem no_cur_of_length (h : Rep a defined cur) (hlen : defined.length < 8) : cur = none := by
  by_contra hc
  obtain ⟨w, hw⟩ := ne_none_iff_exists'.mp hc
  exact absurd (h.length_of_cur hw) (by omega)

theorem early_of_no_cur (h : Rep a defined none) (hv : v ∈ defined) : v ∈ defined.take 7 := by
  have hlen : ¬8 ≤ defined.length := fun hl => Bool.false_ne_true (h.cur_some hl)
  rwa [take_of_length_le (by omega)]

/-- The register table lists the homes. -/
theorem mem_valueToReg (h : Rep a defined cur) {e : Value × Nat} :
    e ∈ a.valueToReg ↔ home defined cur e.1 = some e.2 := by
  constructor
  · intro he
    have hlook := lookup_of_mem h.keys he
    rw [h.reg] at hlook
    obtain ⟨r, hr, heq⟩ := map_eq_some_iff.mp hlook
    rw [hr, ← heq]
  · intro he
    have hlook : lookup fst e.1 a.valueToReg = some e := by
      rw [h.reg, he]
      rfl
    exact mem_of_lookup hlook

/-- A value in a register stays there. -/
theorem allocate_home (h : Rep a defined cur) (hv : home defined cur v = some r) :
    a.allocate v = (r, a) := by
  unfold allocate
  rw [h.reg, hv]
  rfl

/-- With all registers in use, `v7` is evicted. -/
theorem allocatePhysicalRegister_full (h : Rep a defined cur) (hw : cur = some w) (v : Value) :
    a.allocatePhysicalRegister v = (7, (a.evict w 7).assign v 7) := by
  have hlen := h.length_of_cur hw
  have hfull : ((range numRegisters).find? fun r => !a.allocatedRegs r) = none := by
    rw [find?_eq_none]
    intro r hr
    have hr : r < 8 := mem_range.mp hr
    rw [h.allocated r hr]
    simp
    omega
  have hhome : home defined cur w = some 7 := by
    rw [home_of_late (not_early_of_mem_drop h.nodup (h.cur_mem w hw)), if_pos hw]
  have hfind : (a.valueToReg.find? fun e => e.2 = 7) = some (w, 7) := by
    cases hf : a.valueToReg.find? fun e => e.2 = 7 with
    | none => simpa using find?_eq_none.mp hf (w, 7) (h.mem_valueToReg.mpr hhome)
    | some e =>
      -- the entry found is the occupant's
      have he : e.2 = 7 := by simpa using find?_some hf
      have hhe := h.mem_valueToReg.mp (mem_of_find?_eq_some hf)
      rw [he] at hhe
      rw [← home_inj hhe hhome, ← he]
  have hvictim : (a.nextReg + numRegisters - 1) % numRegisters = 7 := by
    rw [h.next hlen]
    rfl
  unfold allocatePhysicalRegister
  rw [hfull]
  dsimp only
  rw [hvictim, hfind]

/-! ## Eviction -/

section Evicted

variable (h : Rep a defined cur) (hw : cur = some w)

include h hw

theorem late_of_cur : w ∉ defined.take 7 := not_early_of_mem_drop h.nodup (h.cur_mem w hw)

/-- What the eviction of `w` for `v` does to the register table. -/
theorem lookup_evicted (hv : v ∉ defined.take 7) (hwv : w ≠ v) (x : Value) :
    lookup fst x ((a.evict w 7).assign v 7).valueToReg =
      (home defined (some v) x).map fun r => (x, r) := by
  show lookup fst x (upsert fst (v, 7) (others fst w a.valueToReg)) = _
  rw [lookup_upsert, lookup_others]
  split
  · rename_i hx
    obtain rfl : v = x := hx
    rw [home_of_late hv, if_pos rfl]
    rfl
  · rename_i hvx
    have hvx : v ≠ x := hvx
    split
    · rename_i hx
      rw [hx, home_of_late (h.late_of_cur hw), if_neg (by simpa using hwv.symm)]
      rfl
    · rename_i hxw
      rw [h.reg, home_congr fun _ => ?_]
      rw [hw]
      simp [hvx, Ne.symm hxw]

theorem allocated_evicted (v : Value) {r : Nat} (hr : r < 8) :
    ((a.evict w 7).assign v 7).allocatedRegs r = true := by
  have hlen := h.length_of_cur hw
  show update a.allocatedRegs 7 true r = true
  by_cases hr7 : r = 7
  · rw [hr7, update_self]
  · rw [update_of_ne hr7, h.allocated r hr]
    exact decide_eq_true (by omega)

omit hw in
/-- The new slot is a new name. -/
theorem slot_ne_next {e : Value × Text} (he : lookup fst v a.spillSlots = some e) :
    e.2 ≠ spillName a.nextSpillSlot := by
  obtain ⟨k, hk, hname⟩ := h.slot_name v e he
  intro heq
  have := spillName_inj (hname.symm.trans heq)
  omega

/-- The slots after the eviction of `w` for `v`. -/
def SlotsAfter (a : RegisterAllocator) (v w : Value) (slots : List (Value × Text)) : Prop :=
  ∀ x, lookup fst x slots = if x = v then none
    else if w = x then some (w, spillName a.nextSpillSlot) else lookup fst x a.spillSlots

/-- A value without a register takes `v7`, and the occupant goes to a new slot. -/
theorem evicted (hnone : home defined cur v = none) (later : List Value)
    (hnodup : (defined ++ later).Nodup) (hlater : ∀ x ∈ later, x = v) (hmem : v ∈ defined ++ later)
    {slots : List (Value × Text)} (hslots : SlotsAfter a v w slots) (reloads : List (Text × Nat)) :
    Rep { (a.evict w 7).assign v 7 with pendingReloads := reloads, spillSlots := slots }
      (defined ++ later) (some v) := by
  have hlen := h.length_of_cur hw
  have hwlate := h.late_of_cur hw
  obtain ⟨hvlate, hcur⟩ := home_eq_none_iff.mp hnone
  have hwv : w ≠ v := fun heq => hcur (heq ▸ hw)
  have hhome : ∀ x, home (defined ++ later) (some v) x = home defined (some v) x := fun x =>
    home_append (by omega) later
  refine ⟨hnodup, ?_, fun _ => rfl, nodup_upsert (nodup_others h.keys) (v, 7), fun x => ?_,
    fun r hr => ?_, fun _ => rfl, fun x => ?_, fun x e he => ?_, fun x x' e e' he he' heq => ?_⟩
  · intro x hx
    obtain rfl := some.inj hx
    rw [← take_append_drop 7 (defined ++ later), take_append_of_le_length (by omega)] at hmem
    exact (mem_append.mp hmem).resolve_left hvlate
  · rw [hhome]
    exact h.lookup_evicted hw hvlate hwv x
  · refine (h.allocated_evicted hw v hr).trans (decide_eq_true ?_).symm
    rw [length_append]
    omega
  · show (lookup fst x slots).isSome ↔ _
    rw [hslots, hhome]
    by_cases hxv : x = v
    · rw [if_pos hxv, hxv, home_of_late hvlate, if_pos rfl]
      simp
    · have hold : x ∈ defined ++ later ↔ x ∈ defined := by
        rw [mem_append]
        exact or_iff_left fun hx => hxv (hlater x hx)
      rw [if_neg hxv, hold]
      by_cases hwx : w = x
      · subst hwx
        rw [if_pos rfl, home_of_late hwlate, if_neg (by simpa using Ne.symm hxv)]
        simpa using mem_of_mem_drop (h.cur_mem w hw)
      · rw [if_neg hwx, h.slot, home_congr fun _ => ?_]
        rw [hw]
        simp [hwx, Ne.symm hxv]
  · rw [hslots] at he
    split at he
    · cases he
    · split at he
      · obtain rfl := some.inj he
        exact ⟨a.nextSpillSlot, Nat.lt_succ_self _, rfl⟩
      · obtain ⟨k, hk, hname⟩ := h.slot_name x e he
        exact ⟨k, Nat.lt_succ_of_lt hk, hname⟩
  · rw [hslots] at he he'
    split at he
    · cases he
    · split at he'
      · cases he'
      · split at he <;> split at he'
        · rename_i hx hx'
          exact hx.symm.trans hx'
        · obtain rfl := some.inj he
          exact absurd heq.symm (h.slot_ne_next he')
        · obtain rfl := some.inj he'
          exact absurd heq (h.slot_ne_next he)
        · exact h.slot_inj x x' e e' he he' heq

end Evicted

/-! ## The three allocations -/

/-- **A spilled value comes back** into `v7`, and the occupant goes to a new slot. -/
theorem reload (h : Rep a defined cur) (hw : cur = some w) (hmem : v ∈ defined)
    (hnone : home defined cur v = none) :
    ∃ a', a.allocate v = (7, a') ∧ Rep a' defined (some v) ∧
      a'.pendingSpills = a.pendingSpills ++ [(7, spillName a.nextSpillSlot)] ∧
      a'.nextSpillSlot = a.nextSpillSlot + 1 ∧
      (∃ e, lookup fst v a.spillSlots = some e ∧
        a'.pendingReloads = a.pendingReloads ++ [(e.2, 7)]) ∧ SlotsAfter a v w a'.spillSlots := by
  obtain ⟨e, he⟩ := Option.isSome_iff_exists.mp ((h.slot v).mpr ⟨hmem, hnone⟩)
  have hreg : lookup fst v a.valueToReg = none := by
    rw [h.reg, hnone]
    rfl
  have hslots : SlotsAfter a v w (others fst v ((a.evict w 7).assign v 7).spillSlots) := by
    intro x
    rw [lookup_others]
    exact if_congr Iff.rfl rfl (lookup_upsert x)
  have hrep := h.evicted hw hnone [] (by simpa using h.nodup) nofun (by simpa using hmem)
    hslots (a.pendingReloads ++ [(e.2, 7)])
  rw [append_nil] at hrep
  refine ⟨_, ?_, hrep, rfl, rfl, ⟨e, he, rfl⟩, hslots⟩
  unfold allocate
  rw [hreg, he, h.allocatePhysicalRegister_full hw]
  rfl

/-- **A new value with all registers in use** takes `v7`, and the occupant goes to a new slot. -/
theorem fresh_full (h : Rep a defined cur) (hw : cur = some w) (hmem : v ∉ defined) :
    ∃ a', a.allocate v = (7, a') ∧ Rep a' (defined ++ [v]) (some v) ∧
      a'.pendingSpills = a.pendingSpills ++ [(7, spillName a.nextSpillSlot)] ∧
      a'.nextSpillSlot = a.nextSpillSlot + 1 ∧ a'.pendingReloads = a.pendingReloads ∧
      SlotsAfter a v w a'.spillSlots := by
  have hwv : w ≠ v := fun he => hmem (he ▸ mem_of_mem_drop (h.cur_mem w hw))
  have hhome : home defined cur v = none :=
    home_eq_none_iff.mpr ⟨fun hv => hmem (mem_of_mem_take hv), by simpa [hw] using hwv⟩
  have hreg : lookup fst v a.valueToReg = none := by
    rw [h.reg, hhome]
    rfl
  have hslot : lookup fst v a.spillSlots = none := by
    rw [← Option.not_isSome_iff_eq_none, h.slot]
    exact fun hv => hmem hv.1
  have hslots : SlotsAfter a v w ((a.evict w 7).assign v 7).spillSlots := by
    intro x
    refine (lookup_upsert x).trans ?_
    by_cases hx : x = v
    · rw [if_pos hx, hx, if_neg hwv, hslot]
    · rw [if_neg hx]
  have hnodup : (defined ++ [v]).Nodup := by simpa using h.nodup.concat hmem
  refine ⟨(a.evict w 7).assign v 7, ?_, ?_, rfl, rfl, rfl, hslots⟩
  · unfold allocate
    rw [hreg, hslot, h.allocatePhysicalRegister_full hw]
  · exact h.evicted hw hhome [v] hnodup (fun x hx => mem_singleton.mp hx) (by simp) hslots _

/-- **A new value with a register left** takes the lowest one. -/
theorem fresh_free (h : Rep a defined cur) (hlen : defined.length < 8) (hmem : v ∉ defined) :
    ∃ a', a.allocate v = (defined.length, a') ∧
      Rep a' (defined ++ [v]) (newOccupant defined v) ∧
      a'.pendingSpills = a.pendingSpills ∧ a'.nextSpillSlot = a.nextSpillSlot ∧
      a'.pendingReloads = a.pendingReloads ∧ a'.spillSlots = a.spillSlots := by
  obtain rfl := h.no_cur_of_length hlen
  have hhere : ∀ {x}, x ∈ defined → home defined none x ≠ none :=
    fun hx hnone => (home_eq_none_iff.mp hnone).1 (h.early_of_no_cur hx)
  have hvlate : v ∉ defined.take 7 := fun hv => hmem (mem_of_mem_take hv)
  have hreg : lookup fst v a.valueToReg = none := by
    rw [h.reg, home_of_late hvlate]
    rfl
  have hslot : ∀ x, lookup fst x a.spillSlots = none := by
    intro x
    rw [← Option.not_isSome_iff_eq_none, h.slot]
    exact fun ⟨hx, hnone⟩ => hhere hx hnone
  have hfree : ((range numRegisters).find? fun r => !a.allocatedRegs r) =
      some defined.length := by
    rw [find?_range_eq_some]
    refine ⟨?_, mem_range.mpr hlen, fun j hj => ?_⟩
    · rw [h.allocated _ hlen]
      simp
    · rw [h.allocated j (by omega)]
      simpa using hj
  have hhome := fun x => home_fresh (x := x) hlen hmem
  refine ⟨a.assign v defined.length, ?_, ?_, rfl, rfl, rfl, rfl⟩
  · unfold allocate allocatePhysicalRegister
    rw [hreg, hslot, hfree]
  · refine ⟨?_, ?_, fun hl => ?_, nodup_upsert h.keys _, fun x => ?_, fun r hr => ?_, fun hl => ?_,
      fun x => ?_, fun x e he => ?_, fun x x' e e' he => ?_⟩
    · simpa using h.nodup.concat hmem
    · intro x hx
      unfold newOccupant at hx
      split at hx
      · cases hx
      · obtain rfl := some.inj hx
        rw [drop_append_of_le_length (by omega)]
        exact mem_append_right _ (mem_singleton.mpr rfl)
    · rw [length_append] at hl
      rw [newOccupant, if_neg (by simp at hl; omega)]
      rfl
    · show lookup fst x (upsert fst (v, defined.length) a.valueToReg) = _
      rw [lookup_upsert, hhome, h.reg]
      dsimp only
      split
      · rename_i hx
        rw [hx]
        rfl
      · rfl
    · show update a.allocatedRegs defined.length true r = _
      rw [length_append]
      by_cases hr' : r = defined.length
      · rw [hr', update_self]
        simp
      · rw [update_of_ne hr', h.allocated r hr]
        simp
        omega
    · rw [length_append] at hl
      show (defined.length + 1) % numRegisters = 0
      rw [show defined.length + 1 = 8 by simp at hl; omega]
      rfl
    · show (lookup fst x a.spillSlots).isSome ↔ _
      rw [hslot, hhome, mem_append, mem_singleton]
      constructor
      · exact nofun
      · rintro ⟨hx, hnone⟩
        split at hnone
        · cases hnone
        · rename_i hvx
          exact absurd hnone (hhere (hx.resolve_right (Ne.symm hvx)))
    · exact absurd ((hslot x).symm.trans he) nofun
    · exact absurd ((hslot x).symm.trans he) nofun

end Rep

end Concordia.Tmatmul
