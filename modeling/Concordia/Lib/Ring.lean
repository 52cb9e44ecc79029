import Mathlib

/-!
# Rings with free-running counters

A ring of `capacity` slots holds the items of a history from position `lo` on:
position `p` lives in slot `p % capacity` (`Holds`). Positions less than
`capacity` apart never share a slot, so writing the next slot of a ring that is
not full disturbs nothing.

The positions are kept as 32-bit counters that wrap; the second part relates
their machine arithmetic to the positions they stand for.
-/

namespace Concordia.Lib.Ring

open Int32

/-! ## Slots -/

section Slots

variable {α : Type} {slots : Nat → α} {capacity lo : Nat} {items : List α}

/-- The slots hold the items from position `lo` on. -/
def Holds (slots : Nat → α) (capacity : Nat) (items : List α) (lo : Nat) : Prop :=
  ∀ p x, lo ≤ p → items[p]? = some x → slots (p % capacity) = x

/-- Positions less than `capacity` apart have different slots. -/
theorem slot_ne_slot {p q : Nat} (hlt : p < q) (hnear : q < p + capacity) :
    p % capacity ≠ q % capacity := by
  intro heq
  have hdvd : capacity ∣ q - p := (Nat.modEq_iff_dvd' hlt.le).mp heq
  have := Nat.le_of_dvd (by omega) hdvd
  omega

/-- Writing the slot of the next position keeps a ring that is not full. -/
theorem Holds.write (h : Holds slots capacity items lo) (hroom : items.length < lo + capacity)
    (x : α) : Holds (Function.update slots (items.length % capacity) x) capacity items lo := by
  intro p y hp hy
  have hlt : p < items.length := (List.getElem?_eq_some_iff.mp hy).1
  rw [Function.update_of_ne (slot_ne_slot hlt (by omega))]
  exact h p y hp hy

/-- Once its slot is written, the next item may join the history. -/
theorem Holds.push (h : Holds slots capacity items lo) {x : α}
    (hx : slots (items.length % capacity) = x) : Holds slots capacity (items ++ [x]) lo := by
  intro p y hp hy
  rcases Nat.lt_trichotomy p items.length with hlt | rfl | hgt
  · rw [List.getElem?_append_left hlt] at hy
    exact h p y hp hy
  · rw [List.getElem?_concat_length] at hy
    rw [hx, Option.some.inj hy]
  · rw [List.getElem?_eq_none (by simp; omega)] at hy
    cases hy

theorem Holds.mono (h : Holds slots capacity items lo) {lo' : Nat} (hle : lo ≤ lo') :
    Holds slots capacity items lo' :=
  fun p x hp => h p x (hle.trans hp)

end Slots

/-! ## Counters -/

theorem ofNat_succ (n : Nat) : ofNat n + 1 = ofNat (n + 1) := by
  rw [ofNat_add]
  rfl

/-- The distance of two counters, if it is small. -/
theorem toInt_ofNat_sub_ofNat {lo hi : Nat} (hle : lo ≤ hi) (hnear : hi < lo + 2 ^ 31) :
    (ofNat hi - ofNat lo).toInt = hi - lo := by
  rw [toInt_sub]
  simp only [toInt_ofNat', size, Int.bmod]
  omega

/-- Counters compare as their positions until the larger one wraps. -/
theorem ofNat_lt_ofNat_iff {lo hi : Nat} (hlo : lo < 2 ^ 31) (hhi : hi < 2 ^ 32) :
    ofNat lo < ofNat hi ↔ lo < hi ∧ hi < 2 ^ 31 := by
  rw [lt_iff_toInt_lt]
  simp only [toInt_ofNat', size, Int.bmod]
  omega

theorem toNat_toUInt32_ofNat {n : Nat} (h : n < 2 ^ 32) :
    (ofNat n).toUInt32.toNat = n := by
  rw [toUInt32_ofNat', UInt32.toNat_ofNat', Nat.mod_eq_of_lt h]

/-- A `u32` below `2 ^ 31` read as an `i32`. -/
theorem toInt_toInt32 {x : UInt32} (h : x.toNat < 2 ^ 31) : x.toInt32.toInt = x.toNat := by
  rw [← UInt32.ofNat_toNat (x := x), UInt32.toInt32_ofNat',
    toInt_ofNat_of_lt (by simpa using h)]
  simp

/-- A larger one reads as a negative number. -/
theorem toInt_toInt32_neg {x : UInt32} (h : 2 ^ 31 ≤ x.toNat) : x.toInt32.toInt < 0 := by
  rw [← UInt32.ofNat_toNat (x := x), UInt32.toInt32_ofNat', toInt_ofNat']
  have := x.toNat_lt
  simp only [size, Int.bmod]
  omega

end Concordia.Lib.Ring
