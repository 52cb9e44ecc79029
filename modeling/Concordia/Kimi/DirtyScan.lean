import Concordia.Kimi.Device

/-!
# Which pages a scan reports

The device scan copies every page that differs into the shadow and marks it, so
the shadow ends up equal to the region and the marks are the pages that differed
(`doDirtyScan_shadow`, `scanned_offsets`). The three decoders of a dirty bitmap
agree (`dirtyPageOffsets_agree`).
-/

namespace Concordia.Kimi

open Concordia.Lib Concordia.Lib.LittleEndian Concordia.Aof Concordia.Delta List Nat

theorem pageSize_pos : 0 < pageSize := by decide

/-! ## The device scan -/

theorem pageDirty_eq_false_iff {current shadow : List UInt8} (hlen : shadow.length = current.length)
    (p : Nat) :
    pageDirty current shadow p = false ↔ page pageSize shadow p = page pageSize current p := by
  have hpage : (page pageSize current p).length = (page pageSize shadow p).length := by
    rw [length_page, length_page, hlen]
  unfold pageDirty
  generalize page pageSize current p = a, page pageSize shadow p = b at hpage
  rw [any_eq_false]
  constructor
  · intro h
    apply ext_getElem hpage.symm
    intro i hb ha
    have hmem : (a[i], b[i]) ∈ a.zip b := by
      rw [← getElem_zip (h := by simp; omega)]
      exact getElem_mem _
    have heq : a[i] = b[i] := by simpa using h _ hmem
    exact heq.symm
  · rintro rfl ⟨v, w⟩ hmem
    obtain ⟨i, hi, heq⟩ := getElem_of_mem hmem
    rw [getElem_zip] at heq
    obtain ⟨rfl, rfl⟩ := Prod.mk.inj heq
    simp

variable {current shadow : List UInt8} {bitmap : List UInt64}

/-- The pages scanned so far are copied, and marked if they differed. -/
structure Scanned (current shadow : List UInt8) (words k : Nat) (acc : List UInt8 × List UInt64) :
    Prop where
  length : acc.1.length = current.length
  words : acc.2.length = words
  pages : ∀ p, page pageSize acc.1 p =
    if p < k then page pageSize current p else page pageSize shadow p
  marked : ∀ p, marks acc.2 p =
    decide (p < k ∧ page pageSize shadow p ≠ page pageSize current p)

theorem Scanned.step {words k : Nat} {acc : List UInt8 × List UInt64}
    (h : Scanned current shadow words k acc) (hk : k / 64 < words) :
    Scanned current shadow words (k + 1) (dirtyScanPage current acc k) := by
  have hold : page pageSize acc.1 k = page pageSize shadow k := by
    rw [h.pages k, if_neg (lt_irrefl k)]
  have hlt : ∀ p, p ≠ k → (p < k + 1 ↔ p < k) := by omega
  unfold dirtyScanPage
  cases hdirty : pageDirty current acc.1 k with
  | true =>
    have hne : page pageSize shadow k ≠ page pageSize current k := by
      rw [← hold]
      exact fun heq => absurd ((pageDirty_eq_false_iff h.length k).mpr heq) (by simp [hdirty])
    rw [if_pos rfl]
    refine ⟨by simpa using h.length, by simpa using h.words, ?_, ?_⟩
    · intro p
      rw [page_overwrite_page pageSize_pos h.length, h.pages p]
      by_cases hp : p = k
      · simp [hp]
      · simp only [hp, if_false, hlt p hp]
    · intro p
      rw [marks_modify (h.words ▸ hk), h.marked p]
      by_cases hp : p = k
      · simp [hp, hne]
      · simp only [hp, decide_false, Bool.or_false, hlt p hp]
  | false =>
    have heq : page pageSize shadow k = page pageSize current k :=
      hold ▸ (pageDirty_eq_false_iff h.length k).mp hdirty
    rw [if_neg (by simp)]
    refine ⟨h.length, h.words, ?_, ?_⟩
    · intro p
      rw [h.pages p]
      by_cases hp : p = k
      · simp [hp, heq]
      · simp only [hlt p hp]
    · intro p
      rw [h.marked p]
      by_cases hp : p = k
      · simp [hp, heq]
      · simp only [hlt p hp]

variable {pageCount words : Nat}

theorem scanned_doDirtyScan (hlen : shadow.length = current.length)
    (hwords : pageCount ≤ words * 64) :
    Scanned current shadow words pageCount
      (doDirtyScan pageCount current shadow (replicate words 0)) := by
  have hloop : ∀ k ≤ pageCount, Scanned current shadow words k
      ((range k).foldl (dirtyScanPage current) (shadow, replicate words 0)) := by
    intro k
    induction k with
    | zero =>
      intro _
      refine ⟨hlen, length_replicate, fun p => by simp, fun p => ?_⟩
      exact (marks_replicate words p).trans (by simp)
    | succ k ih =>
      intro hk
      rw [range_succ, foldl_append]
      exact (ih (by omega)).step (by omega)
  exact hloop pageCount le_rfl

/-- After a scan the shadow is the region. -/
theorem doDirtyScan_shadow (hlen : shadow.length = current.length)
    (hsize : current.length = pageCount * pageSize) (hwords : pageCount ≤ words * 64) :
    (doDirtyScan pageCount current shadow (replicate words 0)).1 = current := by
  have hscan := scanned_doDirtyScan hlen hwords
  apply eq_of_pages pageSize_pos
  intro p
  rw [hscan.pages p]
  split
  · rfl
  · rename_i hp
    refine page_eq_of_length_le hlen ?_
    rw [hsize]
    exact Nat.mul_le_mul_right _ (Nat.le_of_not_lt hp)

/-! ## From bits to offsets -/

/-- The words come back from their bytes. -/
theorem chunksExact_flatMap (words : List UInt64) :
    (chunksExact 8 (words.flatMap u64ToLe)).map u64OfLe = words := by
  have hlen : (words.flatMap u64ToLe).length = words.length * 8 := by
    simp [length_flatMap]
  have hpage : ∀ (words : List UInt64) i (hi : i < words.length),
      page 8 (words.flatMap u64ToLe) i = u64ToLe words[i] := by
    intro words
    induction words with
    | nil => intro i hi; simp at hi
    | cons w ws ih =>
      intro i hi
      cases i with
      | zero =>
        rw [page, slice, flatMap_cons, zero_mul, drop_zero,
          take_left' (by simp)]
        rfl
      | succ i =>
        have hi' : i < ws.length := by simpa using hi
        rw [getElem_cons_succ, ← ih i hi', page, page, slice, slice, flatMap_cons]
        rw [drop_take, drop_take, show (i + 1) * 8 = (u64ToLe w).length + i * 8 by
          simp; omega, drop_append, drop_eq_nil_of_le (by omega), nil_append]
        congr 1
        · omega
        · rw [Nat.add_sub_cancel_left]
  unfold chunksExact
  rw [hlen, Nat.mul_div_cancel _ (by decide), map_map]
  apply ext_getElem
  · simp
  · intro i h _
    simp only [getElem_map, getElem_range, Function.comp_apply]
    rw [hpage words i (by simpa using h), u64OfLe_u64ToLe]

/-- The offsets a device scan reports: those of the pages that differed. -/
theorem scanned_offsets (hlen : shadow.length = current.length) (hwords : pageCount ≤ words * 64) :
    dirtyPageOffsetsFromWords ((chunksExact 8
        ((doDirtyScan pageCount current shadow (replicate words 0)).2.flatMap u64ToLe)).map
          u64OfLe) pageCount =
      ((range pageCount).filter fun p =>
        decide (page pageSize shadow p ≠ page pageSize current p)).map (· * pageSize) := by
  have hscan : Scanned current shadow words pageCount _ := scanned_doDirtyScan hlen hwords
  rw [chunksExact_flatMap, dirtyPageOffsetsFromWords]
  congr 1
  apply filter_congr
  intro p hp
  have hmark := hscan.marked p
  rw [marks] at hmark
  rw [hmark]
  simp [mem_range.mp hp]

/-! ## Three readings of one bitmap -/

theorem bitmapMarks_eq_testBit (bytes : List UInt8) (p : Nat) :
    bitmapMarks bytes p = (bytes.getD (p / 8) 0).toNat.testBit (p % 8) := by
  have hshift : ∀ i < 8, (1 <<< UInt8.ofNat i : UInt8).toNat = 2 ^ i := by decide
  generalize hbyte : bytes.getD (p / 8) 0 = byte
  have hzero : (byte &&& (1 <<< UInt8.ofNat (p % 8)) = 0) ↔ byte.toNat.testBit (p % 8) = false := by
    rw [← UInt8.toNat_inj, UInt8.toNat_and, hshift _ (mod_lt _ (by decide)), and_two_pow]
    cases byte.toNat.testBit (p % 8) <;> simp
  simp only [bitmapMarks, hbyte, ne_eq, hzero]
  cases byte.toNat.testBit (p % 8) <;> rfl

/-- Byte `i` of a number holds its bits from `8 * i` on. -/
theorem testBit_toLe {w i j : Nat} (n : Nat) (hi : i < w) (hj : j < 8) :
    ((toLe w n).getD i 0).toNat.testBit j = n.testBit (8 * i + j) := by
  induction w generalizing n i with
  | zero => omega
  | succ w ih =>
    cases i with
    | zero =>
      simp [toLe, testBit_mod_two_pow n 8 j, hj]
    | succ i =>
      rw [toLe, getD_cons_succ, ih (n / 256) (by omega), show 256 = 2 ^ 8 from rfl,
        testBit_div_two_pow]
      congr 1
      omega

/-- The bytes of the words mark what the words mark. -/
theorem bitmapMarks_flatMap (words : List UInt64) (p : Nat) :
    bitmapMarks (words.flatMap u64ToLe) p = (words.getD (p / 64) 0).toNat.testBit (p % 64) := by
  rw [bitmapMarks_eq_testBit]
  induction words generalizing p with
  | nil => simp
  | cons word words ih =>
    rw [flatMap_cons]
    by_cases hp : p < 64
    · rw [getD_append _ _ _ _ (by simp; omega), u64ToLe, testBit_toLe _ (by omega) (by omega),
        div_eq_of_lt hp, getD_cons_zero, mod_eq_of_lt hp]
      congr 1
      omega
    · rw [getD_append_right _ _ _ _ (by simp; omega), length_u64ToLe,
        show p / 64 = (p - 64) / 64 + 1 by omega, getD_cons_succ,
        show p % 64 = (p - 64) % 64 by omega,
        ← ih, show p / 8 - 8 = (p - 64) / 8 by omega, show p % 8 = (p - 64) % 8 by omega]

/-- The state tracks `current`, which is `n` full pages, by an allocator bitmap. -/
structure BitmapPages (s : DeltaCheckpointState) (regionId : UInt64) (current : ByteVec) (n : Nat) :
    Prop where
  pageSize : s.pageSize = 4096
  tracked : ∃ region, s.findRegion regionId = some region ∧ region.kind = .allocatorBitmap ∧
    region.len = current.length
  length : current.length = n * 4096

/-- A bitmap delta of full pages lists the offsets of the marked pages. -/
theorem BitmapPages.offsets {s : DeltaCheckpointState} {regionId : UInt64} {current : ByteVec}
    {n : Nat} (h : BitmapPages s regionId current n) (bitmap : List UInt8) :
    ∃ delta t, s.createBitmapDelta regionId current bitmap = (.ok delta, t) ∧
      delta.dirtyPages.map (·.offset.toNat) = dirtyPageOffsetsFromBitmapBytes bitmap n := by
  obtain ⟨region, hfind, hkind, hlen⟩ := h.tracked
  have hcount : (current.length + 4096 - 1) / 4096 = n := by
    rw [h.length]
    omega
  simp only [DeltaCheckpointState.createBitmapDelta, hfind, hkind, hlen, h.pageSize, hcount,
    ne_eq, not_true_eq_false, if_false]
  refine ⟨_, _, rfl, ?_⟩
  rw [map_map, dirtyPageOffsetsFromBitmapBytes]
  apply map_congr_left
  intro p hp
  have hlt := mem_range.mp (mem_filter.mp hp).1
  have := current.length_lt
  show (UInt64.ofNat (p * 4096)).toNat = p * 4096
  rw [UInt64.toNat_ofNat', mod_eq_of_lt (by have := h.length; omega)]

/-- **Bitmap decoders.** The words of a bitmap, their bytes and a bitmap delta of
full pages give the same offsets: those of the pages whose bit is set, in order.
Up to `2 ^ 52` pages they are in the range of the source's `usize`. -/
theorem dirtyPageOffsets_agree (words : List UInt64) (n : Nat) :
    let offsets := ((List.range n).filter fun p =>
      (words.getD (p / 64) 0).toNat.testBit (p % 64)).map (· * 4096)
    offsets.Pairwise (· < ·) ∧ (n ≤ 2 ^ 52 → ∀ offset ∈ offsets, offset < 2 ^ 64) ∧
      dirtyPageOffsetsFromWords words n = offsets ∧
      dirtyPageOffsetsFromBitmapBytes (words.flatMap u64ToLe) n = offsets ∧
      ∀ s regionId current, BitmapPages s regionId current n →
        ∃ delta t, s.createBitmapDelta regionId current (words.flatMap u64ToLe) = (.ok delta, t) ∧
          delta.dirtyPages.map (·.offset.toNat) = offsets := by
  intro offsets
  have hbytes : dirtyPageOffsetsFromBitmapBytes (words.flatMap u64ToLe) n = offsets := by
    rw [dirtyPageOffsetsFromBitmapBytes, funext (bitmapMarks_flatMap words)]
    rfl
  refine ⟨?_, ?_, ?_, hbytes, fun s regionId current h => hbytes ▸ h.offsets _⟩
  · refine pairwise_map.mpr ((pairwise_lt_range.filter _).imp ?_)
    intro p q hpq
    exact mul_lt_mul_of_pos_right hpq (by decide)
  · intro hn offset hoffset
    obtain ⟨p, hp, rfl⟩ := mem_map.mp hoffset
    have hlt := mem_range.mp (mem_filter.mp hp).1
    omega
  · simp only [dirtyPageOffsetsFromWords,
      wordMarks_eq_testBit _ (mod_lt _ (by decide : 0 < 64))]
    rfl

def blankPages : ByteVec := ⟨List.replicate (3 * 4096) 0, by rw [length_replicate]; decide⟩

/-- A region of three pages, as `register_allocator_bitmap_region` leaves it. -/
def trackedPages : DeltaCheckpointState where
  pageSize := 4096
  pageSize_pos := by decide
  nextRegionId := 2
  nextEpoch := 1
  regions := [{ id := 1, baseAddr := 0, len := blankPages.length, shadow := none
                kind := .allocatorBitmap, shadow_length := nofun }]

theorem dirtyPageOffsets_agree_five :
    ∃ delta t, trackedPages.createBitmapDelta 1 blankPages ([5].flatMap u64ToLe) = (.ok delta, t) ∧
      delta.dirtyPages.map (·.offset.toNat) = [0, 8192] :=
  (dirtyPageOffsets_agree [5] 3).2.2.2.2 trackedPages 1 blankPages
    ⟨rfl, ⟨_, rfl, rfl, rfl⟩, length_replicate⟩

end Concordia.Kimi
