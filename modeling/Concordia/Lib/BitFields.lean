import Mathlib

/-!
# Words made of bit fields

`place v lo` is `v` shifted to bit `lo` of a word, `field x lo w` the `w` bits of a word
from `lo` on. A word assembled by `|||` from fields that do not overlap gives each of
them back.
-/

namespace Concordia.Lib

open BitVec

variable {n w k : Nat}

/-- `(v as word) << lo`. -/
def place (v : BitVec k) (lo : Nat) : BitVec n := v.setWidth n <<< lo

/-- `(x >> lo) & mask`, for a mask of `w` ones. -/
def field (x : BitVec n) (lo w : Nat) : BitVec w := (x >>> lo).setWidth w

@[simp] theorem field_or (x y : BitVec n) (lo w : Nat) :
    field (x ||| y) lo w = field x lo w ||| field y lo w := by
  ext i hi
  simp [field]

/-- The field where the value was placed, cut to its width. -/
theorem field_place (v : BitVec k) {lo w : Nat} (h : lo + w ≤ n) :
    field (place v lo : BitVec n) lo w = v.setWidth w := by
  ext i hi
  have hlt : lo + i < n := by omega
  have hi' : i < n := by omega
  simp [field, place, hlt, hi']

/-- A field that ends before the value, or begins after it. -/
theorem field_place_of_disjoint (v : BitVec k) {lo lo' w : Nat}
    (h : lo + w ≤ lo' ∨ lo' + k ≤ lo) : field (place v lo' : BitVec n) lo w = 0#w := by
  ext i hi
  simp only [field, place, getElem_setWidth, getLsbD_ushiftRight,
    getLsbD_shiftLeft, getLsbD_setWidth]
  rcases h with h | h
  · have hlt : lo + i < lo' := by omega
    simp [hlt]
  · have hge : v.getLsbD (lo + i - lo') = false := getLsbD_of_ge _ _ (by omega)
    simp [hge]

@[simp] theorem place_zero (lo : Nat) : (place (0 : BitVec k) lo : BitVec n) = 0#n := by
  simp [place]

theorem place_or (u v : BitVec k) (lo : Nat) :
    (place (u ||| v) lo : BitVec n) = place u lo ||| place v lo := by
  ext i hi
  simp [place, Bool.and_or_distrib_left]

/-- Leading zeros do not show. -/
theorem place_setWidth (v : BitVec k) (lo : Nat) (h : v.toNat < 2 ^ w) :
    (place (v.setWidth w) lo : BitVec n) = place v lo := by
  unfold place
  congr 1
  apply eq_of_toNat_eq
  rw [toNat_setWidth, toNat_setWidth, toNat_setWidth, Nat.mod_eq_of_lt h]

/-- A field inside a field. -/
theorem place_place (v : BitVec k) {lo lo' : Nat} (h : lo' + k ≤ w) :
    (place (place v lo' : BitVec w) lo : BitVec n) = place v (lo + lo') := by
  ext i hi
  simp only [place, getElem_shiftLeft, getLsbD_setWidth, getLsbD_shiftLeft,
    getElem_setWidth]
  by_cases h1 : i < lo
  · have h2 : i < lo + lo' := by omega
    simp [h1, h2]
  · by_cases h2 : i < lo + lo'
    · have h3 : i - lo < lo' := by omega
      simp [h2, h3]
    · have hsub : i - lo - lo' = i - (lo + lo') := by omega
      by_cases h4 : i - (lo + lo') < k
      · have h5 : i - lo < w := by omega
        have h7 : i - (lo + lo') < w := by omega
        have h8 : ¬i - lo < lo' := by omega
        simp [h1, h2, hsub, h5, h7, h8]
      · have hge : v.getLsbD (i - (lo + lo')) = false := getLsbD_of_ge _ _ (by omega)
        simp [hsub, hge]

end Concordia.Lib
