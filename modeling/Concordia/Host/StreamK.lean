import Mathlib

/-!
# The stream-K fix-up

`mul_mat_q` spreads the quantised blocks of all output tiles over `block_num_mmq` stream-K
blocks. One that stops inside a tile leaves its part of the tile in a buffer, and
`execute_tmatmul_mul_mat_q_stream_k_fixup_fallback` adds these partial tiles. Each output
tile looks at a window of stream-K blocks only; `fixup_eq` says that nothing is missed.
Sizes are numbers here: nothing overflows.
-/

namespace Concordia.Host

open Nat List

/-- The sizes of a fix-up, after the checks. -/
structure Fixup where
  blocksPerNe00 : Nat
  blocksPerIter : Nat
  ntx : Nat
  nty : Nat
  blockNumMmq : Nat
  blocksPerNe00_pos : 0 < blocksPerNe00
  ntx_pos : 0 < ntx
  nty_pos : 0 < nty
  blockNumMmq_pos : 0 < blockNumMmq

namespace Fixup

/-- `MMQ_ITER_K` and `MMQ_Y_SM120`. -/
def mmqIterK : Nat := 256
def mmqY : Nat := 128

/-- The checks on the parameters and the tile counts. -/
def ofParams (qk mmqX ne00 ne01 ne11 blockNumMmq : Nat) : Option Fixup :=
  if h : qk ≠ 0 ∧ mmqIterK % qk = 0 ∧ 0 < ne00 / qk ∧ 0 < (ne11 + (mmqX - 1)) / mmqX ∧
      0 < (ne01 + (mmqY - 1)) / mmqY ∧ 0 < blockNumMmq then
    some ⟨ne00 / qk, mmqIterK / qk, (ne11 + (mmqX - 1)) / mmqX, (ne01 + (mmqY - 1)) / mmqY,
      blockNumMmq, h.2.2.1, h.2.2.2.1, h.2.2.2.2.1, h.2.2.2.2.2⟩
  else none

variable (f : Fixup)

/-- Where stream-K block `b` starts, before rounding. -/
def kbc0 (b : Nat) : Nat := b * f.blocksPerNe00 * f.ntx * f.nty / f.blockNumMmq

/-- Rounded down to whole iterations of its tile. -/
def round (kbc : Nat) : Nat := kbc - kbc % f.blocksPerNe00 % f.blocksPerIter

section

variable {σ δ : Type} (addTile : σ → Nat → σ) (blockX blockY : Nat)

/-- The loop variables: `kbc_stop_0`, the sums and `any_fixup`. -/
structure Sums (σ : Type) where
  kbcStop0 : Nat
  sums : σ
  anyFixup : Bool

/-- One round of the loop over `bidx`. -/
def visit (s : Sums σ) (bidx : Nat) : Sums σ :=
  let kbcStop0 := f.kbc0 (bidx + 1)
  let kbc := f.round s.kbcStop0
  let kbcStop := f.round kbcStop0
  if kbc = kbcStop ∨ kbcStop % f.blocksPerNe00 = 0 then { s with kbcStop0 := kbcStop0 }
  else
    let jt := kbcStop / (f.blocksPerNe00 * f.nty)
    let it := (kbcStop - jt * (f.blocksPerNe00 * f.nty)) / f.blocksPerNe00
    if it ≠ blockX ∨ jt ≠ blockY then { s with kbcStop0 := kbcStop0 }
    else ⟨kbcStop0, addTile s.sums bidx, true⟩

/-- `bidx_start` and `bidx_stop` of an output tile. -/
def bidxStart (denom tile : Nat) : Nat := tile * f.blockNumMmq / denom
def bidxStop (denom tile : Nat) : Nat :=
  min (((tile + 1) * f.blockNumMmq + (denom - 1)) / denom) f.blockNumMmq

/-- The loop over the window of an output tile. -/
def tileSums (zero : σ) (denom : Nat) : Sums σ :=
  let start := f.bidxStart denom (blockY * f.nty + blockX)
  let stop := f.bidxStop denom (blockY * f.nty + blockX)
  (List.range' start (stop - start)).foldl (f.visit addTile blockX blockY)
    ⟨f.kbc0 start, zero, false⟩

/-- The fix-up loop; `addSums` adds the sums to an output tile of `dst`. -/
def fixup (zero : σ) (addSums : δ → Nat → Nat → σ → δ) (gridX gridY : Nat) (dst : δ) : δ :=
  (range gridY).foldl (fun dst blockY => (range gridX).foldl (fun dst blockX =>
    let s := f.tileSums addTile blockX blockY zero (gridY * gridX)
    if s.anyFixup then addSums dst blockX blockY s.sums else dst) dst) dst

end

/-! ## The partial tiles of an output tile -/

/-- Strictly inside output tile `(it, jt)`. -/
def Inside (it jt kbc : Nat) : Prop :=
  (jt * f.nty + it) * f.blocksPerNe00 < kbc ∧ kbc < (jt * f.nty + it + 1) * f.blocksPerNe00

instance (it jt kbc : Nat) : Decidable (f.Inside it jt kbc) := inferInstanceAs (Decidable (_ ∧ _))

/-- Block `b` has a non-empty range and stops strictly inside the tile. -/
def Stops (it jt b : Nat) : Prop :=
  f.round (f.kbc0 b) ≠ f.round (f.kbc0 (b + 1)) ∧ f.Inside it jt (f.round (f.kbc0 (b + 1)))

instance (it jt b : Nat) : Decidable (f.Stops it jt b) := inferInstanceAs (Decidable (_ ∧ _))

/-- The stream-K blocks whose partial tile belongs to the tile. -/
def partials (it jt : Nat) : List Nat := (range f.blockNumMmq).filter fun b => f.Stops it jt b

variable {f} {it jt b kbc : Nat}

/-- The numbers `it` and `jt` of the loop say which tile it is. -/
theorem inside_iff (hit : it < f.nty) :
    f.Inside it jt kbc ↔ kbc % f.blocksPerNe00 ≠ 0 ∧
      (kbc - kbc / (f.blocksPerNe00 * f.nty) * (f.blocksPerNe00 * f.nty)) / f.blocksPerNe00 = it ∧
      kbc / (f.blocksPerNe00 * f.nty) = jt := by
  have hpos := f.blocksPerNe00_pos
  have hcol : (kbc - kbc / (f.blocksPerNe00 * f.nty) * (f.blocksPerNe00 * f.nty)) /
      f.blocksPerNe00 = kbc / f.blocksPerNe00 % f.nty := by
    rw [← mod_eq_sub_div_mul, mod_mul_right_div_self]
  have htile : kbc / f.blocksPerNe00 % f.nty = it ∧ kbc / f.blocksPerNe00 / f.nty = jt ↔
      kbc / f.blocksPerNe00 = jt * f.nty + it := by
    constructor
    · rintro ⟨rfl, rfl⟩
      exact (Nat.div_add_mod' _ _).symm
    · intro h
      rw [h, mul_comm, mul_add_mod, mod_eq_of_lt hit, mul_add_div f.nty_pos,
        div_eq_of_lt hit]
      simp
  rw [hcol, ← Nat.div_div_eq_div_mul, htile]
  have hdivmod := Nat.div_add_mod' kbc f.blocksPerNe00
  have hmod := Nat.mod_lt kbc hpos
  constructor
  · rintro ⟨hlow, hhigh⟩
    have hdiv : kbc / f.blocksPerNe00 = jt * f.nty + it := Nat.div_eq_of_lt_le hlow.le hhigh
    rw [hdiv] at hdivmod
    exact ⟨by omega, hdiv⟩
  · rintro ⟨hne, hdiv⟩
    rw [hdiv] at hdivmod
    exact ⟨by omega, by rw [succ_mul]; omega⟩

/-- Rounding stays in the tile. -/
theorem lt_of_round_lt {t : Nat} (h : f.round kbc < t * f.blocksPerNe00) :
    kbc < t * f.blocksPerNe00 := by
  have hround : kbc / f.blocksPerNe00 * f.blocksPerNe00 ≤ f.round kbc := by
    have hmod := mod_le (kbc % f.blocksPerNe00) f.blocksPerIter
    have hdiv := Nat.div_add_mod' kbc f.blocksPerNe00
    unfold round
    omega
  exact (Nat.div_lt_iff_lt_mul f.blocksPerNe00_pos).mp
    (Nat.lt_of_mul_lt_mul_right (Nat.lt_of_le_of_lt hround h))

/-- **The window** of a tile has every block that stops inside it. -/
theorem mem_window (h : f.Stops it jt b) (hb : b < f.blockNumMmq) :
    f.bidxStart (f.ntx * f.nty) (jt * f.nty + it) ≤ b ∧
      b < f.bidxStop (f.ntx * f.nty) (jt * f.nty + it) := by
  have hdenom : 0 < f.ntx * f.nty := mul_pos f.ntx_pos f.nty_pos
  have hkbc : f.kbc0 (b + 1) = (b + 1) * (f.ntx * f.nty) * f.blocksPerNe00 / f.blockNumMmq := by
    rw [kbc0]
    ring_nf
  replace h := h.2
  unfold Inside at h
  generalize jt * f.nty + it = tile at h ⊢
  constructor
  · -- The stop is past the start of the tile.
    have hlow : tile * f.blocksPerNe00 < f.kbc0 (b + 1) := h.1.trans_le (sub_le ..)
    rw [hkbc, lt_iff_add_one_le, le_div_iff_mul_le f.blockNumMmq_pos] at hlow
    have hmul : tile * f.blockNumMmq * f.blocksPerNe00 <
        (b + 1) * (f.ntx * f.nty) * f.blocksPerNe00 := by
      nlinarith [f.blockNumMmq_pos]
    have hlt := Nat.lt_of_mul_lt_mul_right hmul
    exact Nat.le_of_lt_succ ((Nat.div_lt_iff_lt_mul hdenom).mpr hlt)
  · -- And before its end.
    have hhigh := lt_of_round_lt h.2
    rw [hkbc, Nat.div_lt_iff_lt_mul f.blockNumMmq_pos] at hhigh
    have hmul : (b + 1) * (f.ntx * f.nty) * f.blocksPerNe00 <
        (tile + 1) * f.blockNumMmq * f.blocksPerNe00 := by
      linarith [mul_right_comm (tile + 1) f.blocksPerNe00 f.blockNumMmq]
    have hlt := Nat.lt_of_mul_lt_mul_right hmul
    refine lt_min ?_ hb
    rw [lt_iff_add_one_le, le_div_iff_mul_le hdenom]
    omega

/-! ## The loops -/

section

variable {σ δ : Type} (addTile : σ → Nat → σ)

/-- A run of the loop adds the blocks that stop inside the tile, in order. -/
theorem foldl_visit (hit : it < f.nty) (n start : Nat) (sums : σ) (any : Bool) :
    (List.range' start n).foldl (f.visit addTile it jt) ⟨f.kbc0 start, sums, any⟩ =
      let blocks := (List.range' start n).filter fun b => f.Stops it jt b
      ⟨f.kbc0 (start + n), blocks.foldl addTile sums, any || !blocks.isEmpty⟩ := by
  induction n generalizing start sums any with
  | zero => simp
  | succ n ih =>
    have hvisit : f.visit addTile it jt ⟨f.kbc0 start, sums, any⟩ start =
        if f.Stops it jt start then ⟨f.kbc0 (start + 1), addTile sums start, true⟩
        else ⟨f.kbc0 (start + 1), sums, any⟩ := by
      unfold visit Stops
      simp only [inside_iff hit]
      grind
    have hnext : start + (n + 1) = start + 1 + n := by omega
    rw [range'_succ, foldl_cons, hvisit, hnext]
    by_cases hstops : f.Stops it jt start
    · rw [if_pos hstops, ih]
      simp [hstops]
    · rw [if_neg hstops, ih]
      simp [hstops]

theorem tileSums_eq (hit : it < f.nty) (zero : σ) (jt : Nat) :
    (f.tileSums addTile it jt zero (f.ntx * f.nty)).sums = (f.partials it jt).foldl addTile zero ∧
      (f.tileSums addTile it jt zero (f.ntx * f.nty)).anyFixup = !(f.partials it jt).isEmpty := by
  unfold tileSums
  generalize hstart : f.bidxStart (f.ntx * f.nty) (jt * f.nty + it) = start
  generalize hstop : f.bidxStop (f.ntx * f.nty) (jt * f.nty + it) = stop
  have hle : stop ≤ f.blockNumMmq := hstop ▸ min_le_right _ _
  -- Outside the window no block stops inside the tile.
  have hpartials : f.partials it jt =
      (List.range' start (stop - start)).filter fun b => f.Stops it jt b := by
    refine List.Perm.eq_of_pairwise' (r := (· < ·)) ?_ ?_ ?_
    · exact pairwise_lt_range.filter _
    · exact (pairwise_lt_range' ..).filter _
    · refine (perm_ext_iff_of_nodup ?_ ?_).mpr fun b => ?_
      · exact nodup_range.filter _
      · exact (nodup_range' ..).filter _
      · simp only [partials, mem_filter, mem_range, mem_range'_1, decide_eq_true_eq]
        constructor
        · rintro ⟨hb, h⟩
          have hwindow := mem_window h hb
          rw [hstart, hstop] at hwindow
          exact ⟨by omega, h⟩
        · rintro ⟨hb, h⟩
          exact ⟨by omega, h⟩
  dsimp only
  rw [foldl_visit addTile hit, hpartials]
  simp

/-- **Stream-K fix-up.** With a grid of `nty` by `ntx` output tiles, the fix-up adds to
each output tile the partial tiles of the stream-K blocks that have a non-empty range and
stop strictly inside it, each once, and no other. -/
theorem fixup_eq (f : Fixup) (zero : σ) (addSums : δ → Nat → Nat → σ → δ) (dst : δ) :
    f.fixup addTile zero addSums f.nty f.ntx dst =
        (range f.ntx).foldl (fun dst jt => (range f.nty).foldl (fun dst it =>
          if f.partials it jt = [] then dst
          else addSums dst it jt ((f.partials it jt).foldl addTile zero)) dst) dst ∧
      ∀ b < f.blockNumMmq, ∀ it < f.nty, ∀ jt, f.Stops it jt b → ∀ it' < f.nty, ∀ jt',
        (f.partials it' jt').count b = if it' = it ∧ jt' = jt then 1 else 0 := by
  constructor
  · unfold fixup
    refine foldl_ext _ _ _ fun dst jt _ => foldl_ext _ _ _ fun dst it hit => ?_
    obtain ⟨hsums, hany⟩ := f.tileSums_eq addTile (mem_range.mp hit) zero jt
    simp only [hsums, hany]
    cases f.partials it jt <;> simp
  · rintro b hb it hit jt ⟨hne, hinside⟩ it' hit' jt'
    have hmem : b ∈ f.partials it' jt' ↔ it' = it ∧ jt' = jt := by
      simp only [partials, mem_filter, mem_range, decide_eq_true_eq, Stops, hb, hne,
        true_and, ne_eq, not_false_eq_true, inside_iff hit']
      have hnumbers := (inside_iff hit).mp hinside
      grind
    have hnodup : (f.partials it' jt').Nodup := nodup_range.filter _
    rw [hnodup.count]
    simp only [hmem]

end

/-- Two stream-K blocks of three work on one tile: the one in the middle stops inside it. -/
example : (ofParams 32 64 640 128 64 3).map (fun f => f.fixup (fun sums b => sums ++ [b]) []
    (fun dst it jt sums => dst ++ [(it, jt, sums)]) f.nty f.ntx []) = some [(0, 0, [1])] := by
  decide

end Fixup

end Concordia.Host
