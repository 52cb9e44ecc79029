import Concordia.Lib.Leb128

/-!
# LEB128 operands of the DWARF sections

`decode_uleb128`, `decode_sleb128_usize` and `decode_sleb128` read back every
encoding of a 64-bit number of at most ten bytes, padded or not, whatever follows
it (`decode_leb128`).
-/

namespace Concordia.Debug

open Concordia.Lib.Leb128 BitVec

/-! ## The decoders -/

/-- `(byte & 0x7f) as u64`. -/
def group (byte : UInt8) : BitVec 64 := (byte &&& 0x7f).toBitVec.setWidth 64

/-- `value << shift`, as release code does it. -/
def shl (value : BitVec 64) (shift : UInt32) : BitVec 64 := value <<< (shift.toNat % 64)

/-- The loop of the decoders, an `i64` as its bits. `finish` is what is done with
the result after the last byte. -/
def leb128Loop (finish : BitVec 64 → UInt32 → UInt8 → BitVec 64) (result : BitVec 64)
    (shift : UInt32) (count : Nat) : List UInt8 → BitVec 64 × Nat
  | [] => (result, count)
  | byte :: bytes =>
    let result := result ||| shl (group byte) shift
    let shift := shift + 7
    if byte &&& 0x80 = 0 then (finish result shift byte, count + 1)
    else leb128Loop finish result shift (count + 1) bytes

def decodeUleb128 (bytes : List UInt8) : BitVec 64 × Nat :=
  leb128Loop (fun result _ _ => result) 0 0 0 bytes

def signExtend (result : BitVec 64) (shift : UInt32) (byte : UInt8) : BitVec 64 :=
  if shift < 64 ∧ byte &&& 0x40 ≠ 0 then result ||| shl (~~~0) shift else result

def decodeSleb128Usize (bytes : List UInt8) : BitVec 64 × Nat := leb128Loop signExtend 0 0 0 bytes

/-- The same loop without the count. -/
def decodeSleb128 (bytes : List UInt8) : BitVec 64 := (leb128Loop signExtend 0 0 0 bytes).1

/-! ## One byte -/

theorem group_eq (byte : UInt8) : group byte = ((byte.toNat % 128 : Nat) : BitVec 64) := by
  have hand : byte.toNat &&& 127 = byte.toNat % 128 := Nat.and_two_pow_sub_one_eq_mod byte.toNat 7
  apply eq_of_toNat_eq
  rw [group, toNat_setWidth, natCast_eq_ofNat, toNat_ofNat, ← hand]
  rfl

/-- The high bit, and the sign bit of a group. -/
theorem and_eq_zero_iff (byte : UInt8) : (byte &&& 0x80 = 0 ↔ byte.toNat < 128) ∧
    (byte &&& 0x40 = 0 ↔ byte.toNat % 128 < 64) := by
  have h : ∀ b : BitVec 8, (b &&& 0x80#8 = 0 ↔ b.toNat < 128) ∧
      (b &&& 0x40#8 = 0 ↔ b.toNat % 128 < 64) := by decide
  rw [← UInt8.toBitVec_inj, ← UInt8.toBitVec_inj]
  exact h byte.toBitVec

/-- The result before group `k`. -/
structure Read (k : Nat) (result : BitVec 64) (shift : UInt32) : Prop where
  shift_eq : shift.toNat = 7 * k
  lt : result.toNat < 2 ^ (7 * k)

variable {k : Nat} {result : BitVec 64} {shift : UInt32}

theorem Read.or_shl (h : Read k result shift) (hk : k ≤ 9) (value : BitVec 64) :
    result ||| shl value shift = result + 2 ^ (7 * k) * value := by
  rw [shl, h.shift_eq, Nat.mod_eq_of_lt (by omega), or_shiftLeft h.lt]

theorem Read.step (h : Read k result shift) (hk : k ≤ 9) (byte : UInt8) :
    Read (k + 1) (result ||| shl (group byte) shift) (shift + 7) := by
  constructor
  · rw [UInt32.toNat_add, h.shift_eq]
    show (7 * k + 7) % 2 ^ 32 = 7 * (k + 1)
    omega
  · have hgroup : (group byte).toNat < 2 ^ 7 := by
      rw [group_eq, natCast_eq_ofNat, toNat_ofNat]
      omega
    rw [toNat_or, shl, h.shift_eq, Nat.mod_eq_of_lt (by omega), toNat_shiftLeft,
      Nat.shiftLeft_eq]
    refine Nat.or_lt_two_pow (h.lt.trans_le (Nat.pow_le_pow_right two_pos (by omega))) ?_
    calc _ ≤ (group byte).toNat * 2 ^ (7 * k) := Nat.mod_le _ _
      _ < 2 ^ 7 * 2 ^ (7 * k) := Nat.mul_lt_mul_of_pos_right hgroup (Nat.two_pow_pos _)
      _ = 2 ^ (7 * (k + 1)) := by ring

/-! ## The loop -/

/-- After the last byte, at group `k`, the result is right. -/
def Finishes (top : Nat → Int) (finish : BitVec 64 → UInt32 → UInt8 → BitVec 64) : Prop :=
  ∀ {k result shift}, Read k result shift → k ≤ 9 → ∀ byte : UInt8,
    finish (result ||| shl (group byte) shift) (shift + 7) byte =
      result + 2 ^ (7 * k) * (top (byte.toNat % 128) : BitVec 64)

theorem finishes_signExtend : Finishes signed signExtend := by
  intro k result shift h hk byte
  have hstep := h.step hk byte
  have hnarrow : shift + 7 < 64 ↔ k ≠ 9 := by
    rw [UInt32.lt_iff_toNat_lt, hstep.shift_eq]
    show 7 * (k + 1) < 64 ↔ k ≠ 9
    omega
  unfold signExtend signed
  by_cases hsign : byte.toNat % 128 < 64
  · rw [if_neg fun hs => hs.2 ((and_eq_zero_iff byte).2.mpr hsign), if_pos hsign, h.or_shl hk,
      group_eq, Int.cast_natCast]
  rw [if_neg hsign, Int.cast_sub, Int.cast_natCast, Int.cast_ofNat, ← group_eq]
  by_cases hlast : k = 9
  · -- the sign bit is the lowest bit of the tenth byte
    subst hlast
    have hzero : (2 ^ (7 * 9) * 128 : BitVec 64) = 0 := by decide +kernel
    rw [if_neg fun hs => hnarrow.mp hs.1 rfl, h.or_shl hk, mul_sub, hzero, sub_zero]
  · have hones : (~~~0 : BitVec 64) = -1 := by decide
    rw [if_pos ⟨hnarrow.mpr hlast, fun hb => hsign ((and_eq_zero_iff byte).2.mp hb)⟩,
      hstep.or_shl (by omega), h.or_shl hk, hones]
    ring

/-- The loop goes over an encoding and stops at its last byte. -/
theorem leb128Loop_append {top : Nat → Int} {finish : BitVec 64 → UInt32 → UInt8 → BitVec 64}
    (hfinish : Finishes top finish) {bytes : List UInt8} (hchain : Chain bytes) (rest : List UInt8)
    (count : Nat) (h : Read k result shift) (hlen : k + bytes.length ≤ 10) :
    leb128Loop finish result shift count (bytes ++ rest) =
      (result + 2 ^ (7 * k) * (number top bytes : BitVec 64), count + bytes.length) := by
  induction hchain generalizing k result shift count with
  | last b hb =>
    simp only [List.singleton_append, leb128Loop, (and_eq_zero_iff b).1.mpr hb, if_true]
    rw [hfinish h (Nat.le_of_lt_succ hlen)]
    rfl
  | @more b bytes hb hchain ih =>
    rw [List.length_cons] at hlen
    have hmore : ¬ b &&& 0x80 = 0 := by rw [(and_eq_zero_iff b).1]; omega
    simp only [List.cons_append, leb128Loop, hmore, if_false]
    rw [ih (count + 1) (h.step (by omega) b) (by omega), h.or_shl (by omega), group_eq,
      hchain.number_cons, List.length_cons]
    refine Prod.ext ?_ (by dsimp only; omega)
    rw [Int.cast_add, Int.cast_mul, Int.cast_natCast, Int.cast_ofNat]
    ring

/-- A decoder reads back every encoding. -/
theorem leb128Loop_encoding {top : Nat → Int} {finish : BitVec 64 → UInt32 → UInt8 → BitVec 64}
    (hfinish : Finishes top finish) {v : Int} (e : Encoding top v) (rest : List UInt8) :
    leb128Loop finish 0 0 0 (e.bytes ++ rest) = ((v : BitVec 64), e.bytes.length) := by
  have hread : Read 0 0 0 := ⟨rfl, by decide⟩
  have hlen := e.length_le
  rw [leb128Loop_append hfinish e.chain rest 0 hread (by omega), e.number_eq, Nat.zero_add]
  simp

/-- **LEB128.** The decoders read back every encoding of at most ten bytes, and the
first two tell its length, whatever follows it. -/
theorem decode_leb128 :
    (∀ (u : BitVec 64) (e : Encoding Nat.cast u.toNat) (rest : List UInt8),
      decodeUleb128 (e.bytes ++ rest) = (u, e.bytes.length)) ∧
    ∀ (v : BitVec 64) (e : Encoding signed v.toInt) (rest : List UInt8),
      decodeSleb128Usize (e.bytes ++ rest) = (v, e.bytes.length) ∧
        decodeSleb128 (e.bytes ++ rest) = v := by
  constructor
  · intro u e rest
    have hfinish : Finishes Nat.cast fun result _ _ => result := by
      intro k result shift h hk byte
      rw [h.or_shl hk, group_eq]
      rfl
    refine (leb128Loop_encoding hfinish e rest).trans ?_
    simp
  · intro v e rest
    have hloop := leb128Loop_encoding finishes_signExtend e rest
    have hv : ((v.toInt : Int) : BitVec 64) = v := by
      apply eq_of_toInt_eq
      rw [toInt_intCast, toInt_bmod_cancel]
    rw [hv] at hloop
    exact ⟨hloop, congrArg Prod.fst hloop⟩

/-- The most negative number, in ten bytes. -/
def mostNegative : Encoding signed (intMin 64).toInt where
  bytes := List.replicate 9 0x80 ++ [0x7f]
  chain := by repeat first | exact .last _ (by decide) | refine .more _ (by decide) ?_
  length_le := by decide
  number_eq := by decide

theorem decode_leb128_mostNegative :
    decodeSleb128Usize (mostNegative.bytes ++ [1]) = (intMin 64, 10) :=
  (decode_leb128.2 _ mostNegative [1]).1

end Concordia.Debug
