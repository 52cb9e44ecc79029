import Mathlib

/-!
# LEB128 numbers

A number as bytes of seven bits each, lowest first, where every byte but the last
has its high bit set (`Chain`). The number may be padded with further groups. A
group is put into its place by a shift and an or, which add it there
(`or_shiftLeft`).
-/

namespace Concordia.Lib.Leb128

/-- Every byte but the last has its high bit set. -/
inductive Chain : List UInt8 → Prop
  | last (b : UInt8) : b.toNat < 128 → Chain [b]
  | more (b : UInt8) {bytes : List UInt8} : 128 ≤ b.toNat → Chain bytes → Chain (b :: bytes)

/-- The number the groups denote; `top` is what the last one denotes. -/
def number (top : Nat → Int) : List UInt8 → Int
  | [] => 0
  | [b] => top (b.toNat % 128)
  | b :: bytes => (b.toNat % 128 : Nat) + 128 * number top bytes

theorem Chain.number_cons {top : Nat → Int} {bytes : List UInt8} (h : Chain bytes) (b : UInt8) :
    number top (b :: bytes) = (b.toNat % 128 : Nat) + 128 * number top bytes := by
  cases h <;> rfl

/-- In two's complement the last group carries the sign. -/
def signed (g : Nat) : Int := if g < 64 then g else g - 128

/-- An encoding of `v` in at most ten bytes. -/
structure Encoding (top : Nat → Int) (v : Int) where
  bytes : List UInt8
  chain : Chain bytes
  length_le : bytes.length ≤ 10
  number_eq : number top bytes = v

/-- A word whose bits all lie below `s` takes a group at `s`. -/
theorem or_shiftLeft {word : BitVec 64} {s : Nat} (hword : word.toNat < 2 ^ s)
    (group : BitVec 64) : word ||| group <<< s = word + 2 ^ s * group := by
  have hdisj : word &&& group <<< s = 0 := by
    apply BitVec.eq_of_getLsbD_eq
    intro i hi
    by_cases his : i < s
    · simp [his]
    · have hbit : word.getLsbD i = false :=
        Nat.testBit_lt_two_pow (hword.trans_le (Nat.pow_le_pow_right two_pos (not_lt.mp his)))
      simp [hbit]
  have hpow : BitVec.twoPow 64 s = 2 ^ s := by
    apply BitVec.eq_of_toNat_eq
    rw [BitVec.toNat_twoPow, ← BitVec.toNat_ofNat, ← BitVec.natCast_eq_ofNat]
    push_cast
    rfl
  rw [← BitVec.add_eq_or_of_and_eq_zero _ _ hdisj, BitVec.shiftLeft_eq_mul_twoPow, hpow, mul_comm]

end Concordia.Lib.Leb128
