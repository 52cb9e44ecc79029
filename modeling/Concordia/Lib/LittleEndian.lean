import Mathlib

/-!
# Little-endian byte strings

`toLe w n` lists the `w` low base-256 digits of `n`, least significant first;
`ofLe` reads such a list back. The two are inverse on `w`-byte strings, which
is all a fixed-width field codec needs. The `UInt64` instances are the
`to_le_bytes`/`from_le_bytes` pair of an eight-byte field.
-/

namespace Concordia.Lib.LittleEndian

open Nat

/-- The `w` low base-256 digits of `n`, least significant first. -/
def toLe : Nat → Nat → List UInt8
  | 0, _ => []
  | w + 1, n => UInt8.ofNat n :: toLe w (n / 256)

/-- The number a little-endian digit list denotes. -/
def ofLe : List UInt8 → Nat
  | [] => 0
  | b :: rest => b.toNat + 256 * ofLe rest

@[simp] theorem length_toLe (w n : Nat) : (toLe w n).length = w := by
  induction w generalizing n with
  | zero => rfl
  | succ w ih => simp [toLe, ih]

theorem ofLe_lt (bytes : List UInt8) : ofLe bytes < 256 ^ bytes.length := by
  induction bytes with
  | nil => simp [ofLe]
  | cons b rest ih =>
    have hb : b.toNat < 256 := b.toNat_lt
    simp only [ofLe, List.length_cons, pow_succ]
    omega

theorem ofLe_toLe (w n : Nat) : ofLe (toLe w n) = n % 256 ^ w := by
  induction w generalizing n with
  | zero => simp [toLe, ofLe, mod_one]
  | succ w ih =>
    have hpow : 256 ^ (w + 1) = 256 * 256 ^ w := by rw [pow_succ, mul_comm]
    simp only [toLe, ofLe, ih, UInt8.toNat_ofNat']
    rw [hpow, mod_mul]

theorem toLe_ofLe (bytes : List UInt8) : toLe bytes.length (ofLe bytes) = bytes := by
  induction bytes with
  | nil => rfl
  | cons b rest ih =>
    have hb : b.toNat < 256 := b.toNat_lt
    have hdiv : (b.toNat + 256 * ofLe rest) / 256 = ofLe rest := by omega
    have hhead : UInt8.ofNat (b.toNat + 256 * ofLe rest) = b := by
      apply UInt8.toNat_inj.mp
      rw [UInt8.toNat_ofNat']
      omega
    simp only [List.length_cons, ofLe, toLe, hdiv, hhead, ih]

/-! ## Eight-byte fields -/

/-- `u64::to_le_bytes`. -/
def u64ToLe (x : UInt64) : List UInt8 := toLe 8 x.toNat

/-- `u64::from_le_bytes`. -/
def u64OfLe (bytes : List UInt8) : UInt64 := UInt64.ofNat (ofLe bytes)

@[simp] theorem length_u64ToLe (x : UInt64) : (u64ToLe x).length = 8 := length_toLe 8 _

@[simp] theorem u64OfLe_u64ToLe (x : UInt64) : u64OfLe (u64ToLe x) = x := by
  have hx : x.toNat < 256 ^ 8 := x.toNat_lt
  rw [u64OfLe, u64ToLe, ofLe_toLe, mod_eq_of_lt hx, UInt64.ofNat_toNat]

theorem u64ToLe_u64OfLe (bytes : List UInt8) (h : bytes.length = 8) :
    u64ToLe (u64OfLe bytes) = bytes := by
  have hlt : ofLe bytes < 2 ^ 64 := by simpa [h] using ofLe_lt bytes
  rw [u64ToLe, u64OfLe, UInt64.toNat_ofNat', mod_eq_of_lt hlt]
  simpa [h] using toLe_ofLe bytes

theorem u64OfLe_injective {a b : List UInt8} (ha : a.length = 8) (hb : b.length = 8)
    (h : u64OfLe a = u64OfLe b) : a = b := by
  rw [← u64ToLe_u64OfLe a ha, ← u64ToLe_u64OfLe b hb, h]

end Concordia.Lib.LittleEndian
