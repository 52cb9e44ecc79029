import Mathlib

/-!
# Rounding up to a multiple
-/

namespace Concordia.Lib

/-- The least multiple of `align` that is at least `n`. -/
def roundUp (n align : Nat) : Nat := (n + align - 1) / align * align

theorem dvd_roundUp (n align : Nat) : align ∣ roundUp n align := Nat.dvd_mul_left align _

variable {align : Nat}

theorem le_roundUp (hpos : 0 < align) (n : Nat) : n ≤ roundUp n align := by
  have hdiv := Nat.div_add_mod (n + align - 1) align
  have hmod := Nat.mod_lt (n + align - 1) hpos
  rw [roundUp, Nat.mul_comm]
  omega

theorem roundUp_lt (hpos : 0 < align) (n : Nat) : roundUp n align < n + align := by
  have hdiv := Nat.div_mul_le_self (n + align - 1) align
  rw [roundUp]
  omega

end Concordia.Lib
