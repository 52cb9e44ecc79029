import Mathlib

/-!
# Bitmaps of 64-bit words

A set of numbers as the bits of a list of words (`marks`), as device bitmaps are
kept. Setting a bit adds that number and no other (`marks_modify`).
-/

namespace Concordia.Lib

open List

/-! ## Bits of a word -/

/-- Bit `i` of a word. -/
def wordMarks (word : UInt64) (i : Nat) : Bool := word &&& (1 <<< UInt64.ofNat i) ≠ 0

theorem wordMarks_eq_testBit (word : UInt64) {i : Nat} (hi : i < 64) :
    wordMarks word i = word.toNat.testBit i := by
  have hshift : (1 <<< UInt64.ofNat i : UInt64).toNat = 2 ^ i := by
    rw [UInt64.toNat_shiftLeft, UInt64.toNat_ofNat', UInt64.toNat_one, Nat.one_shiftLeft,
      Nat.mod_eq_of_lt (by omega : i < 2 ^ 64), Nat.mod_eq_of_lt hi,
      Nat.mod_eq_of_lt (Nat.pow_lt_pow_right (by decide) hi)]
  have hzero : (word &&& (1 <<< UInt64.ofNat i) = 0) ↔ word.toNat.testBit i = false := by
    rw [← UInt64.toNat_inj, UInt64.toNat_and, hshift, Nat.and_two_pow]
    cases word.toNat.testBit i <;> simp
  unfold wordMarks
  cases h : word.toNat.testBit i with
  | false => simp [hzero.mpr h]
  | true => simp [hzero, h]

@[simp] theorem wordMarks_zero (i : Nat) : wordMarks 0 i = false := by simp [wordMarks]

theorem wordMarks_or (word : UInt64) {i j : Nat} (hi : i < 64) (hj : j < 64) :
    wordMarks (word ||| 1 <<< UInt64.ofNat j) i = (wordMarks word i || decide (i = j)) := by
  have hone : wordMarks (1 <<< UInt64.ofNat j) i = decide (i = j) := by
    rw [wordMarks_eq_testBit _ hi, UInt64.toNat_shiftLeft, UInt64.toNat_ofNat', UInt64.toNat_one,
      Nat.one_shiftLeft, Nat.mod_eq_of_lt (by omega : j < 2 ^ 64), Nat.mod_eq_of_lt hj,
      Nat.mod_eq_of_lt (Nat.pow_lt_pow_right (by decide) hj), Nat.testBit_two_pow]
    simp [eq_comm]
  rw [← hone, wordMarks_eq_testBit _ hi, wordMarks_eq_testBit _ hi, wordMarks_eq_testBit _ hi,
    UInt64.toNat_or, Nat.testBit_or]

/-- The bitmap marks page `p`. -/
def marks (bitmap : List UInt64) (p : Nat) : Bool :=
  wordMarks (bitmap.getD (p / 64) 0) (p % 64)

theorem marks_replicate (n p : Nat) : marks (replicate n 0) p = false := by
  have hget : (replicate n (0 : UInt64)).getD (p / 64) 0 = 0 := by
    rw [getD_eq_getElem?_getD, getElem?_replicate]
    split <;> rfl
  rw [marks, hget, wordMarks_zero]

theorem marks_modify {bitmap : List UInt64} {p : Nat} (hp : p / 64 < bitmap.length) (q : Nat) :
    marks (bitmap.modify (p / 64) (· ||| 1 <<< UInt64.ofNat (p % 64))) q =
      (marks bitmap q || decide (q = p)) := by
  unfold marks
  rw [getD_eq_getElem?_getD, getD_eq_getElem?_getD, getElem?_modify]
  by_cases hword : p / 64 = q / 64
  · rw [← hword, getElem?_eq_getElem hp]
    have hbit : decide (q % 64 = p % 64) = decide (q = p) := by
      rw [decide_eq_decide]
      omega
    simp only [Option.map_eq_map, Option.map_some, Option.getD_some, if_true]
    rw [wordMarks_or _ (Nat.mod_lt _ (by decide)) (Nat.mod_lt _ (by decide)), hbit]
  · have hne : q ≠ p := fun h => hword (by rw [h])
    simp [hword, hne]

end Concordia.Lib
