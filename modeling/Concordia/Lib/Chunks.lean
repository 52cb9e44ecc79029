import Mathlib

/-!
# Ranges cut into chunks

The numbers below `n`, cut into chunks of `k` of which the last may be shorter, are
`0, …, n - 1` again when the chunks are read one after the other
(`flatMap_chunks`). With `n = k * m` all chunks are full, which turns a range into
rows and columns (`map_range_mul`).
-/

namespace Concordia.Lib

open List

variable {α : Type}

/-- A loop that keeps the indices below a bound keeps the first ones. -/
theorem filterMap_range_lt (f : Nat → α) (k start n : Nat) :
    ((range k).filterMap fun i => if start + i < n then some (f i) else none) =
      (range (min k (n - start))).map f := by
  induction k with
  | zero => simp
  | succ k ih =>
    rw [range_succ, filterMap_append, ih]
    by_cases hlt : start + k < n
    · have hmin : min (k + 1) (n - start) = min k (n - start) + 1 := by omega
      have hlast : min k (n - start) = k := by omega
      rw [hmin, range_succ, map_append, hlast]
      simp [hlt]
    · have hmin : min (k + 1) (n - start) = min k (n - start) := by omega
      rw [hmin]
      simp [hlt]

/-- `m` chunks reach up to `k * m`. -/
theorem flatMap_chunks_min (f : Nat → α) (k n m : Nat) :
    ((range m).flatMap fun c => (range (min k (n - k * c))).map fun i => f (k * c + i)) =
      (range (min (k * m) n)).map f := by
  induction m with
  | zero => simp
  | succ m ih =>
    rw [range_succ, flatMap_append, ih, flatMap_singleton]
    have hmul : k * (m + 1) = k * m + k := Nat.mul_succ k m
    by_cases hle : k * m ≤ n
    · have hsum : min (k * (m + 1)) n = k * m + min k (n - k * m) := by omega
      rw [hsum, min_eq_left hle, range_add, map_append, map_map]
      rfl
    · have hnone : min k (n - k * m) = 0 := by omega
      have hall : min (k * (m + 1)) n = min (k * m) n := by omega
      rw [hnone, hall]
      simp

/-- Enough chunks give the whole range. -/
theorem flatMap_chunks (f : Nat → α) {k n m : Nat} (hm : n ≤ k * m) :
    ((range m).flatMap fun c => (range (min k (n - k * c))).map fun i => f (k * c + i)) =
      (range n).map f := by
  rw [flatMap_chunks_min, min_eq_right hm]

/-- Rows of `k`. -/
theorem map_range_mul (f : Nat → α) (k m : Nat) :
    (range (k * m)).map f =
      (range m).flatMap fun c => (range k).map fun i => f (k * c + i) := by
  rw [← flatMap_chunks f (le_refl (k * m))]
  refine flatMap_congr fun c hc => ?_
  have hlt : c + 1 ≤ m := mem_range.mp hc
  have hrow : k * c + k ≤ k * m := by
    rw [← Nat.mul_succ]
    exact Nat.mul_le_mul_left k hlt
  rw [min_eq_left (by omega)]

end Concordia.Lib
