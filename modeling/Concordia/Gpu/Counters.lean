import Concordia.Gpu.OneBlock

/-!
# Counters past `2 ^ 31`

The host and the worker read the same 32-bit counters with different signs. They
agree on slots, on a full ring and on a pending task until the `2 ^ 31`-th task is
accepted, if the capacity is a positive `int`, and no longer (`counters_iff`).
-/

namespace Concordia.Gpu.GpuPersistentKernel

open Concordia.Lib

/-- What the code computes from the counters, with `consumed` of `accepted` tasks
taken, is what they stand for. -/
structure Counts (capacity : UInt32) (consumed accepted : Nat) : Prop where
  slot : ∀ n ≤ accepted, (Int32.ofNat n % capacity.toInt32).toInt = hostSlot capacity (.ofNat n) ∧
    hostSlot capacity (.ofNat n) < capacity.toNat
  full : Int32.ofNat accepted - Int32.ofNat consumed ≥ capacity.toInt32 ↔
    accepted - consumed = capacity.toNat
  pending : Int32.ofNat consumed < Int32.ofNat accepted ↔ consumed < accepted

variable {capacity : UInt32} {consumed accepted : Nat}

theorem Counts.of_lt (hpos : 0 < capacity.toNat) (hcap : capacity.toNat < 2 ^ 31)
    (hle : consumed ≤ accepted) (hroom : accepted ≤ consumed + capacity.toNat)
    (haccepted : accepted < 2 ^ 31) : Counts capacity consumed accepted where
  slot n hn := by
    rw [hostSlot_ofNat (by omega), Int32.toInt_mod, Int32.toInt_ofNat_of_lt (by omega),
      Ring.toInt_toInt32 hcap, ← Int.ofNat_tmod]
    exact ⟨rfl, Nat.mod_lt n hpos⟩
  full := by
    rw [ge_iff_le, Int32.le_iff_toInt_le, Ring.toInt_toInt32 hcap,
      Ring.toInt_ofNat_sub_ofNat hle (by omega)]
    omega
  pending := by
    rw [Ring.ofNat_lt_ofNat_iff (by omega) (by omega)]
    omega

/-- The tail of the `2 ^ 31`-th task is negative, so the worker does not see the task. -/
theorem not_counts_wrapped : ¬ Counts capacity (2 ^ 31 - 1) (2 ^ 31) := by
  intro h
  exact absurd (h.pending.mpr (by decide)) (by decide)

/-- A capacity that is a negative `int` makes an empty ring full. -/
theorem not_counts_empty (hcap : 2 ^ 31 ≤ capacity.toNat) : ¬ Counts capacity 0 0 := by
  intro h
  have hneg := Ring.toInt_toInt32_neg hcap
  have hfull := h.full.mp (Int32.le_iff_toInt_le.mpr hneg.le)
  omega

/-- **Counters.** The counters tell slots, a full ring and a pending task rightly in
all states up to the `N`-th task exactly when the capacity and `N` are below `2 ^ 31`. -/
theorem counters_iff (B : Nat) (capacity : UInt32) (N : Nat) :
    (∀ consumed accepted, consumed ≤ accepted →
        accepted ≤ consumed + (init B capacity).capacity.toNat → accepted ≤ N →
        Counts (init B capacity).capacity consumed accepted) ↔
      (init B capacity).capacity.toNat < 2 ^ 31 ∧ N < 2 ^ 31 := by
  have hpos : 0 < (init B capacity).capacity.toNat := (init B capacity).capacity_pos
  constructor
  · intro h
    constructor
    · by_contra hcap
      exact not_counts_empty (not_lt.mp hcap) (h 0 0 le_rfl (Nat.zero_le _) (Nat.zero_le _))
    · by_contra hN
      exact not_counts_wrapped (h (2 ^ 31 - 1) (2 ^ 31) (by decide) (by omega) (not_lt.mp hN))
  · rintro ⟨hcap, hN⟩ consumed accepted hle hroom haccepted
    exact .of_lt hpos hcap hle hroom (by omega)

/-- A ring of one slot after `2 ^ 31` tasks, the last of them pending. -/
theorem not_counts_oneSlot : ¬ Counts (init 1 1).capacity (2 ^ 31 - 1) (2 ^ 31) :=
  not_counts_wrapped

end Concordia.Gpu.GpuPersistentKernel
