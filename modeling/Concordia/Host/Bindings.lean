import Concordia.Lib.Text

/-!
# Buffer bindings of the SiFive backend

For each pointer of a kernel launch the backend computes how many bytes to bind, from the
extents and strides among the kernel's parameters. `bindings_cover_iff` compares the counts
with the elements that the host kernels access: the broadcast kernel stays within them; the
gated kernel does when its elements have four bytes and no full row reaches beyond the last
element of a partial one. Counts are as computed before they are limited to the allocation.
-/

namespace Concordia.Host

open Concordia.Lib Nat List

/-! ## Saturating arithmetic -/

def u64Max : Nat := 2 ^ 64 - 1

def satAdd (a b : Nat) : Nat := min (a + b) u64Max

def satMul (a b : Nat) : Nat := min (a * b) u64Max

/-! ## Broadcasts -/

/-- Four extents or strides, innermost first. -/
structure Four where
  d0 : Nat
  d1 : Nat
  d2 : Nat
  d3 : Nat

def Four.toList (v : Four) : List Nat := [v.d0, v.d1, v.d2, v.d3]

/-- The offset of an element. -/
def Four.dot (i strides : Four) : Nat :=
  i.d3 * strides.d3 + i.d2 * strides.d2 + i.d1 * strides.d1 + i.d0 * strides.d0

def sifiveStridedExtentBytes (dims strides : Four) (elemSize : Nat) : Nat :=
  if elemSize = 0 ∨ 0 ∈ dims.toList then 0
  else
    let maxElem := (dims.toList.zip strides.toList).foldl
      (fun acc (dim, stride) => satAdd acc (satMul (dim - 1) stride)) 0
    satMul (satAdd maxElem 1) elemSize

/-- The extents and strides of a broadcast: of the destination and first source, of the
second source, and the strides of all three. -/
structure BinBcast where
  ne : Four
  ne1 : Four
  dst : Four
  src0 : Four
  src1 : Four

def BinBcast.limits (b : BinBcast) : Four :=
  ⟨min b.ne.d0 b.ne1.d0, min b.ne.d1 b.ne1.d1, min b.ne.d2 b.ne1.d2, min b.ne.d3 b.ne1.d3⟩

/-- The bytes of `sifive_bin_bcast_binding_metadata`, for elements of these sizes. -/
def sifiveBinBcastBytes (b : BinBcast) (strideBase : Nat) (elems : Nat × Nat × Nat) (index : Nat) :
    Option Nat :=
  let src1Bytes := sifiveStridedExtentBytes b.limits b.src1 elems.2.1
  match index with
  | 0 => some (sifiveStridedExtentBytes b.ne b.src0 elems.1)
  | 1 => some src1Bytes
  | 2 => some (sifiveStridedExtentBytes b.ne b.dst elems.2.2)
  | i => if strideBase + 11 ≤ i then some src1Bytes else none

/-- `i1`, `i2` and `i3` of a row. -/
def BinBcast.index (b : BinBcast) (row i0 : Nat) : Four :=
  ⟨i0, row % b.ne.d1, row / b.ne.d1 % b.ne.d2, row / b.ne.d1 / b.ne.d2⟩

/-- The index into the second source. -/
def BinBcast.index1 (b : BinBcast) (i : Four) : Four :=
  ⟨i.d0 % max b.ne1.d0 1, i.d1 % max b.ne1.d1 1, i.d2 % max b.ne1.d2 1, i.d3 % max b.ne1.d3 1⟩

/-- The four-byte elements that `execute_bin_bcast_f32_fallback` accesses, as pairs of a
parameter index and an offset; with `fused` sources these are parameters 22 and up. -/
def BinBcast.Accesses (b : BinBcast) (fused index offset : Nat) : Prop :=
  ∃ row < b.ne.d1 * b.ne.d2 * max b.ne.d3 1 % 2 ^ 64, ∃ i0 < b.ne.d0,
    index = 0 ∧ offset = (b.index row i0).dot b.src0 ∨
    index = 2 ∧ offset = (b.index row i0).dot b.dst ∨
    ((index = 1 ∧ fused = 0) ∨ ∃ i < fused, index = 22 + i) ∧
      offset = (b.index1 (b.index row i0)).dot b.src1

/-! ## Gated operations -/

def sifiveRopeElementSizes (kernelName : Text) : Nat × Nat :=
  let contains (s : String) : Bool := Text.contains s.toList kernelName
  if contains "E6__halfS0_" || contains "E13__nv_bfloat16S0_" then (2, 2)
  else if contains "Ef6__half" || contains "Ef13__nv_bfloat16" then (4, 2)
  else if contains "E6__halff" || contains "E13__nv_bfloat16f" then (2, 4)
  else if contains "6__half" || contains "13__nv_bfloat16" then (2, 2)
  else (4, 4)

def sifiveRopeElementSize (kernelName : Text) : Nat :=
  max (sifiveRopeElementSizes kernelName).1 (sifiveRopeElementSizes kernelName).2

def sifiveUnaryGatedAccessBytes (k n stride elemSize : Nat) : Nat :=
  if k = 0 ∨ n = 0 ∨ elemSize = 0 then 0
  else
    let lastI := k - 1
    let lastGroup := lastI / n
    let lastCol := min (n - 1) (lastI % n)
    satMul (satAdd (satAdd (satMul lastGroup stride) lastCol) 1) elemSize

/-- The elements, the columns of a row and the row strides of the sources. -/
structure Gated where
  k : Nat
  n : Nat
  o0 : Nat
  o1 : Nat

/-- The bytes of `sifive_unary_gated_op_binding_metadata`. -/
def sifiveUnaryGatedBytes (kernelName : Text) (q : Gated) : Nat → Option Nat
  | 0 => some (sifiveUnaryGatedAccessBytes q.k q.n q.o0 (sifiveRopeElementSize kernelName))
  | 1 => some (sifiveUnaryGatedAccessBytes q.k q.n q.o1 (sifiveRopeElementSize kernelName))
  | 2 => some (satMul q.k (sifiveRopeElementSize kernelName))
  | _ => none

/-- The four-byte elements that `execute_llama_unary_gated_op_f32_host_fallback` accesses. -/
def Gated.Accesses (q : Gated) (index offset : Nat) : Prop :=
  ∃ i < q.k, index = 0 ∧ offset = i / q.n * q.o0 + i % q.n ∨
    index = 1 ∧ offset = i / q.n * q.o1 + i % q.n ∨ index = 2 ∧ offset = i

/-! ## Covering -/

/-- Every accessed element ends within the bytes of its binding. -/
def Covers (bytes : Nat → Option Nat) (accesses : Nat → Nat → Prop) : Prop :=
  ∀ index offset, accesses index offset → (offset + 1) * 4 ≤ (bytes index).getD 0

/-- The offset of the last element. -/
def Four.last (dims strides : Four) : Nat :=
  (dims.d0 - 1) * strides.d0 + (dims.d1 - 1) * strides.d1 + (dims.d2 - 1) * strides.d2 +
    (dims.d3 - 1) * strides.d3

abbrev Four.Pos (v : Four) : Prop := 0 < v.d0 ∧ 0 < v.d1 ∧ 0 < v.d2 ∧ 0 < v.d3

theorem sifiveStridedExtentBytes_eq {dims strides : Four} (hpos : dims.Pos)
    (hsat : (dims.last strides + 1) * 4 ≤ u64Max) :
    sifiveStridedExtentBytes dims strides 4 = (dims.last strides + 1) * 4 := by
  obtain ⟨h0, h1, h2, h3⟩ := hpos
  have hzero : ¬((4 : Nat) = 0 ∨ 0 ∈ dims.toList) := by
    simp [Four.toList]
    omega
  rw [sifiveStridedExtentBytes, if_neg hzero]
  unfold Four.last at hsat ⊢
  simp only [Four.toList, zip_cons_cons, zip_nil_left, foldl_cons, foldl_nil,
    satAdd, satMul]
  generalize u64Max = top at hsat ⊢
  omega

/-- The last element is the furthest. -/
theorem dot_le_last {i dims strides : Four} (h0 : i.d0 < dims.d0) (h1 : i.d1 < dims.d1)
    (h2 : i.d2 < dims.d2) (h3 : i.d3 < dims.d3) : i.dot strides ≤ dims.last strides := by
  have h0' := mul_le_mul_right strides.d0 (le_sub_one_of_lt h0)
  have h1' := mul_le_mul_right strides.d1 (le_sub_one_of_lt h1)
  have h2' := mul_le_mul_right strides.d2 (le_sub_one_of_lt h2)
  have h3' := mul_le_mul_right strides.d3 (le_sub_one_of_lt h3)
  unfold Four.dot Four.last
  omega

theorem mod_lt_min {i n m : Nat} (hi : i < n) (hm : 0 < m) : i % max m 1 < min n m := by
  rw [max_eq_left hm]
  exact lt_min ((mod_le i m).trans_lt hi) (mod_lt i hm)

/-- The arithmetic for a pointer does not saturate. -/
abbrev BinBcast.Fits (b : BinBcast) : Prop :=
  (b.ne.last b.src0 + 1) * 4 ≤ u64Max ∧ (b.limits.last b.src1 + 1) * 4 ≤ u64Max ∧
    (b.ne.last b.dst + 1) * 4 ≤ u64Max

/-- The bindings of a broadcast cover it. -/
theorem covers_binBcast {b : BinBcast} (hne : b.ne.Pos) (hne1 : b.ne1.Pos) (hfits : b.Fits)
    (fused : Nat) : Covers (sifiveBinBcastBytes b 11 (4, 4, 4)) (b.Accesses fused) := by
  obtain ⟨h0, h1, h2, h3⟩ := hne
  obtain ⟨g0, g1, g2, g3⟩ := hne1
  obtain ⟨hsrc0, hsrc1, hdst⟩ := hfits
  have hlimits : b.limits.Pos := ⟨lt_min h0 g0, lt_min h1 g1, lt_min h2 g2, lt_min h3 g3⟩
  rintro index offset ⟨row, hrow, i0, hi0, haccess⟩
  -- The index is within the extents.
  have hrow3 : row / b.ne.d1 / b.ne.d2 < b.ne.d3 := by
    rw [Nat.div_div_eq_div_mul, Nat.div_lt_iff_lt_mul (Nat.mul_pos h1 h2), Nat.mul_comm]
    rw [max_eq_left h3] at hrow
    exact hrow.trans_le (mod_le ..)
  have hrow1 : row % b.ne.d1 < b.ne.d1 := mod_lt _ h1
  have hrow2 : row / b.ne.d1 % b.ne.d2 < b.ne.d2 := mod_lt _ h2
  have hle : ∀ strides, (b.index row i0).dot strides ≤ b.ne.last strides :=
    fun _ => dot_le_last hi0 hrow1 hrow2 hrow3
  have hle1 : (b.index1 (b.index row i0)).dot b.src1 ≤ b.limits.last b.src1 :=
    dot_le_last (mod_lt_min hi0 g0) (mod_lt_min hrow1 g1) (mod_lt_min hrow2 g2)
      (mod_lt_min hrow3 g3)
  have hcover : ∀ {offset dims strides}, dims.Pos → (dims.last strides + 1) * 4 ≤ u64Max →
      offset ≤ dims.last strides →
      (offset + 1) * 4 ≤ sifiveStridedExtentBytes dims strides 4 := by
    intro offset dims strides hpos hsat hoffset
    rw [sifiveStridedExtentBytes_eq hpos hsat]
    omega
  rcases haccess with ⟨rfl, rfl⟩ | ⟨rfl, rfl⟩ | ⟨⟨rfl, -⟩ | ⟨i, -, rfl⟩, rfl⟩
  · exact hcover ⟨h0, h1, h2, h3⟩ hsrc0 (hle _)
  · exact hcover ⟨h0, h1, h2, h3⟩ hdst (hle _)
  · exact hcover hlimits hsrc1 hle1
  · rw [add_comm 22 i]
    simpa [sifiveBinBcastBytes] using hcover hlimits hsrc1 hle1

/-! ## The gated kernel -/

/-- With a partial last row, full rows do not reach beyond its last element. -/
abbrev NoOverhang (k n stride : Nat) : Prop := (k - 1) / n = 0 ∨ n - 1 ≤ stride + (k - 1) % n

/-- The furthest element is in the last row, or at the end of the row before. -/
theorem gated_le_iff {k n stride : Nat} (hk : 0 < k) (hn : 0 < n) :
    (∀ i < k, i / n * stride + i % n ≤ (k - 1) / n * stride + (k - 1) % n) ↔
      NoOverhang k n stride := by
  unfold NoOverhang
  constructor
  · intro h
    rcases Nat.eq_zero_or_pos ((k - 1) / n) with hzero | hpos
    · exact .inl hzero
    · obtain ⟨g, hg⟩ := exists_eq_succ_of_ne_zero hpos.ne'
      have hlast := div_add_mod' (k - 1) n
      rw [hg, succ_mul] at hlast
      have hend := h (g * n + (n - 1)) (by omega)
      rw [mul_comm g, mul_add_div hn, mul_add_mod, div_eq_of_lt (by omega),
        mod_eq_of_lt (by omega), hg, succ_mul, add_zero] at hend
      omega
  · intro h i hi
    have hdiv : i / n ≤ (k - 1) / n := Nat.div_le_div_right (by omega)
    rcases hdiv.lt_or_eq with hlt | heq
    · have hmod := mod_lt i hn
      obtain ⟨g, hg⟩ := exists_eq_succ_of_ne_zero (ne_zero_of_lt hlt)
      have hmul : i / n * stride ≤ g * stride := mul_le_mul_right _ (by omega)
      rw [hg, succ_mul]
      omega
    · have hi' := div_add_mod' i n
      have hk' := div_add_mod' (k - 1) n
      rw [← heq] at hk' ⊢
      omega

/-- The offset of the last element of a source. -/
def Gated.last (q : Gated) (stride : Nat) : Nat := (q.k - 1) / q.n * stride + (q.k - 1) % q.n

/-- The arithmetic does not saturate. -/
abbrev Gated.Fits (q : Gated) (elemSize : Nat) : Prop :=
  (q.last q.o0 + 1) * elemSize ≤ u64Max ∧ (q.last q.o1 + 1) * elemSize ≤ u64Max ∧
    q.k * elemSize ≤ u64Max

theorem sifiveUnaryGatedAccessBytes_eq {q : Gated} {stride elemSize : Nat} (hk : 0 < q.k)
    (hn : 0 < q.n) (helem : 0 < elemSize) (hfits : (q.last stride + 1) * elemSize ≤ u64Max) :
    sifiveUnaryGatedAccessBytes q.k q.n stride elemSize = (q.last stride + 1) * elemSize := by
  have hmod : min (q.n - 1) ((q.k - 1) % q.n) = (q.k - 1) % q.n :=
    min_eq_right (le_sub_one_of_lt (mod_lt _ hn))
  have hle := (Nat.le_mul_of_pos_right (q.last stride + 1) helem).trans hfits
  unfold Gated.last at hle hfits ⊢
  rw [sifiveUnaryGatedAccessBytes, if_neg (by omega)]
  dsimp only
  have hgroups : satMul ((q.k - 1) / q.n) stride = (q.k - 1) / q.n * stride :=
    min_eq_left (by omega)
  have hlast : satAdd ((q.k - 1) / q.n * stride) ((q.k - 1) % q.n) =
      (q.k - 1) / q.n * stride + (q.k - 1) % q.n := min_eq_left (by omega)
  rw [hmod, hgroups, hlast, satAdd, min_eq_left hle, satMul, min_eq_left hfits]

theorem sifiveRopeElementSize_cases (kernelName : Text) :
    sifiveRopeElementSize kernelName = 2 ∨ sifiveRopeElementSize kernelName = 4 := by
  unfold sifiveRopeElementSize sifiveRopeElementSizes
  dsimp only
  repeat' split
  all_goals decide

/-- **The bindings cover the accesses** of a broadcast and a gated operation exactly when
the gated operation's elements are counted with four bytes and neither source has a full row
that reaches beyond the last element. -/
theorem bindings_cover_iff (b : BinBcast) (hne : b.ne.Pos) (hne1 : b.ne1.Pos) (hfits : b.Fits)
    (fused : Nat) (kernelName : Text) (q : Gated) (hk : 0 < q.k) (hn : 0 < q.n)
    (hgated : q.Fits (sifiveRopeElementSize kernelName)) :
    Covers (sifiveBinBcastBytes b 11 (4, 4, 4)) (b.Accesses fused) ∧
        Covers (sifiveUnaryGatedBytes kernelName q) q.Accesses ↔
      sifiveRopeElementSize kernelName = 4 ∧ NoOverhang q.k q.n q.o0 ∧
        NoOverhang q.k q.n q.o1 := by
  rw [and_iff_right (covers_binBcast hne hne1 hfits fused), ← gated_le_iff hk hn,
    ← gated_le_iff hk hn]
  have hcases := sifiveRopeElementSize_cases kernelName
  obtain ⟨hx, hg, hdst⟩ := hgated
  have hx := sifiveUnaryGatedAccessBytes_eq hk hn (by omega) hx
  have hg := sifiveUnaryGatedAccessBytes_eq hk hn (by omega) hg
  unfold Gated.last at hx hg
  constructor
  · intro h
    have hlast := h 2 _ ⟨q.k - 1, by omega, .inr (.inr ⟨rfl, rfl⟩)⟩
    simp only [sifiveUnaryGatedBytes, Option.getD_some, satMul, min_eq_left hdst] at hlast
    have helem : sifiveRopeElementSize kernelName = 4 := by
      rcases hcases with h2 | h4
      · rw [h2] at hlast
        omega
      · exact h4
    refine ⟨helem, fun i hi => ?_, fun i hi => ?_⟩
    · have hle := h 0 _ ⟨i, hi, .inl ⟨rfl, rfl⟩⟩
      rw [sifiveUnaryGatedBytes, hx, helem, Option.getD_some] at hle
      omega
    · have hle := h 1 _ ⟨i, hi, .inr (.inl ⟨rfl, rfl⟩)⟩
      rw [sifiveUnaryGatedBytes, hg, helem, Option.getD_some] at hle
      omega
  · rintro ⟨helem, hle0, hle1⟩ index offset ⟨i, hi, ⟨rfl, rfl⟩ | ⟨rfl, rfl⟩ | ⟨rfl, rfl⟩⟩
    · rw [sifiveUnaryGatedBytes, hx, helem]
      exact mul_le_mul_right 4 (succ_le_succ (hle0 i hi))
    · rw [sifiveUnaryGatedBytes, hg, helem]
      exact mul_le_mul_right 4 (succ_le_succ (hle1 i hi))
    · rw [sifiveUnaryGatedBytes, satMul, min_eq_left hdst, helem]
      exact mul_le_mul_right 4 hi

/-- One row of two elements, broadcast to three. -/
def threeRows : BinBcast :=
  ⟨⟨2, 3, 1, 1⟩, ⟨2, 1, 1, 1⟩, ⟨1, 2, 6, 6⟩, ⟨1, 2, 6, 6⟩, ⟨1, 2, 2, 2⟩⟩

/-- And two whole rows of four columns. -/
theorem bindings_cover_rows :
    Covers (sifiveBinBcastBytes threeRows 11 (4, 4, 4)) (threeRows.Accesses 0) ∧
      Covers (sifiveUnaryGatedBytes "f32".toList ⟨8, 4, 1, 4⟩) (Gated.Accesses ⟨8, 4, 1, 4⟩) :=
  (bindings_cover_iff _ (by decide) (by decide) (by decide) 0 _ _ (by decide) (by decide)
    (by decide +kernel)).mpr (by decide +kernel)

/-- Five elements in rows of four that start one element apart: the last one is at offset 1,
the fourth at 3. -/
theorem not_covers_overhang :
    ¬Covers (sifiveUnaryGatedBytes "f32".toList ⟨5, 4, 1, 1⟩) (Gated.Accesses ⟨5, 4, 1, 1⟩) := by
  intro h
  have hfourth := h 0 3 ⟨3, by decide, .inl ⟨rfl, rfl⟩⟩
  revert hfourth
  decide +kernel

end Concordia.Host
