import Concordia.Delta.State
import Concordia.Lib.Paged

/-!
# What the page loops compute

`create_host_delta` updates the shadow while it compares against it. Since
pages do not overlap, the comparison is against the old shadow all along and
the shadow ends up equal to the current contents (`foldl_hostPageStep`).

Written into a buffer, the pages of a delta bring the current contents to the bytes
of their pages and change nothing else (`getElem?_overwriteAll_pageWrites`).
-/

namespace Concordia.Delta

open Concordia.Lib Concordia.Aof List Nat ByteVec

/-- The number of pages of a region of `len` bytes. -/
def pageCount (pageSize len : Nat) : Nat := (len + pageSize - 1) / pageSize

theorem lt_pageCount_iff {pageSize : Nat} (hpos : 0 < pageSize) (len p : Nat) :
    p < pageCount pageSize len ↔ p * pageSize < len := by
  rw [pageCount, ← succ_le_iff, le_div_iff_mul_le hpos, succ_mul]
  omega

/-- Page `p` of the two buffers differs. -/
def pageDiffers (pageSize : Nat) (v w : ByteVec) (p : Nat) : Bool :=
  pageAt pageSize v (p * pageSize) ≠ pageAt pageSize w (p * pageSize)

/-- A page in the terms of the library. -/
theorem pageAt_data (pageSize : Nat) (v : ByteVec) (p : Nat) :
    (pageAt pageSize v (p * pageSize)).data = page pageSize v.data p := slice_min_length ..

section

variable {pageSize : Nat} (hpos : 0 < pageSize) {v w : ByteVec} {p : Nat}

include hpos

/-- Two buffers agree on a page exactly when they agree on its bytes. -/
theorem pageDiffers_eq_false_iff :
    pageDiffers pageSize v w p = false ↔ ∀ i, i / pageSize = p → v.data[i]? = w.data[i]? := by
  rw [pageDiffers, decide_eq_false_iff_not, not_not, ByteVec.ext_iff, pageAt_data, pageAt_data,
    page_eq_iff hpos]

/-- Only pages of the buffer differ. -/
theorem lt_pageCount_of_differs (hlen : v.length = w.length)
    (hdiff : pageDiffers pageSize v w p = true) : p < pageCount pageSize v.length := by
  rw [lt_pageCount_iff hpos]
  by_contra hout
  have hsame : pageDiffers pageSize v w p = false := by
    rw [pageDiffers_eq_false_iff hpos, ← page_eq_iff hpos]
    exact page_eq_of_length_le hlen (hlen.symm.trans_le (not_lt.mp hout))
  rw [hsame] at hdiff
  cases hdiff

end

/-! ## The host page loop -/

def hostDirtyPages (pageSize : Nat) (shadow current : ByteVec) : List Nat :=
  (range (pageCount pageSize current.length)).filter (pageDiffers pageSize current shadow)

theorem hostDirtyPages_self (pageSize : Nat) (current : ByteVec) :
    hostDirtyPages pageSize current current = [] := by
  simp [hostDirtyPages, pageDiffers]

section

variable {pageSize : Nat} {shadow current : ByteVec}

theorem mem_hostDirtyPages_iff (hpos : 0 < pageSize) (hlen : current.length = shadow.length)
    {p : Nat} : p ∈ hostDirtyPages pageSize shadow current ↔
      pageDiffers pageSize current shadow p = true := by
  rw [hostDirtyPages, mem_filter, mem_range, and_iff_right_iff_imp]
  exact lt_pageCount_of_differs hpos hlen

/-- On a page that is not listed the buffers agree. -/
theorem eq_of_not_mem_hostDirtyPages (hpos : 0 < pageSize) (hlen : current.length = shadow.length)
    {i : Nat} (hi : i / pageSize ∉ hostDirtyPages pageSize shadow current) :
    current.data[i]? = shadow.data[i]? := by
  rw [mem_hostDirtyPages_iff hpos hlen, Bool.not_eq_true] at hi
  exact (pageDiffers_eq_false_iff hpos).mp hi i rfl

/-- A buffer agrees with `current` off the listed pages exactly when every page
on which it differs from the shadow is listed. -/
theorem eq_off_hostDirtyPages_iff (hpos : 0 < pageSize) {logged : ByteVec}
    (hlen : current.length = shadow.length) :
    (∀ i, i / pageSize ∉ hostDirtyPages pageSize shadow current →
        logged.data[i]? = current.data[i]?) ↔
      ∀ p, pageDiffers pageSize logged shadow p = true →
        pageDiffers pageSize current shadow p = true := by
  -- where `current` is the shadow, agreeing with one is agreeing with the other
  have hpage : ∀ p, pageDiffers pageSize current shadow p = false →
      (pageDiffers pageSize logged shadow p = false ↔
        ∀ i, i / pageSize = p → logged.data[i]? = current.data[i]?) := by
    intro p hsame
    rw [pageDiffers_eq_false_iff hpos]
    exact forall₂_congr fun i hi => by rw [(pageDiffers_eq_false_iff hpos).mp hsame i hi]
  simp only [mem_hostDirtyPages_iff hpos hlen, Bool.not_eq_true]
  constructor
  · intro h p
    contrapose
    simp only [Bool.not_eq_true]
    intro hsame
    refine (hpage p hsame).mpr ?_
    rintro i rfl
    exact h i hsame
  · intro h i hsame
    refine (hpage _ hsame).mp ?_ i rfl
    by_contra hdiff
    rw [h _ (by simpa using hdiff)] at hsame
    cases hsame

/-- The loop after `n` pages: the differing ones have been pushed and written to the
shadow. -/
theorem foldl_hostPageStep_range (regionId : UInt64) (hpos : 0 < pageSize)
    (hlen : shadow.length = current.length) (n : Nat) :
    let acc := ((range n).map (· * pageSize)).foldl
      (hostPageStep regionId pageSize current) ([], shadow)
    let P := (range n).filter (pageDiffers pageSize current shadow)
    acc.1 = P.map (fun p => dirtyPage regionId pageSize current (p * pageSize)) ∧
      acc.2.data = overwriteAll shadow.data (writePages pageSize current.data P) := by
  induction n with
  | zero => exact ⟨rfl, rfl⟩
  | succ n ih =>
    obtain ⟨hpages, hshadow⟩ := ih
    simp only [range_succ, map_append, map_cons, map_nil, foldl_append,
      foldl_cons, foldl_nil, filter_append]
    generalize ((range n).map (· * pageSize)).foldl
      (hostPageStep regionId pageSize current) ([], shadow) = acc at hpages hshadow ⊢
    -- page `n` of the shadow has not been touched yet
    have hold : acc.2.slice (n * pageSize) (min (n * pageSize + pageSize) current.length) =
        pageAt pageSize shadow (n * pageSize) := by
      have hlen' : current.length = acc.2.data.length := by
        rw [hshadow, length_overwriteAll]
        exact hlen.symm
      rw [ByteVec.ext_iff, pageAt_data]
      show slice acc.2.data _ _ = _
      rw [hlen', slice_min_length, ← page, hshadow, page_overwriteAll_writePages hpos hlen,
        if_neg (by simp)]
    rw [hostPageStep, hold]
    cases hdiff : pageDiffers pageSize current shadow n with
    | true =>
      have hne : pageAt pageSize current (n * pageSize) ≠
          pageAt pageSize shadow (n * pageSize) := by
        simpa [pageDiffers] using hdiff
      rw [if_pos hne]
      refine ⟨by simp [hpages, hdiff], ?_⟩
      show overwrite acc.2.data _ _ = _
      rw [hshadow, pageAt_data, filter_singleton, hdiff, writePages_append, overwriteAll_append]
      rfl
    | false =>
      have heq : pageAt pageSize current (n * pageSize) =
          pageAt pageSize shadow (n * pageSize) := by
        simpa [pageDiffers] using hdiff
      rw [if_neg (not_not_intro heq)]
      simp [hpages, hshadow, hdiff]

/-- The whole loop: the pages that differ from the old shadow, and a shadow
equal to the current contents. -/
theorem foldl_hostPageStep (regionId : UInt64) (hpos : 0 < pageSize)
    (hlen : shadow.length = current.length) :
    (stepBy current.length pageSize).foldl (hostPageStep regionId pageSize current) ([], shadow) =
      ((hostDirtyPages pageSize shadow current).map
        (fun p => dirtyPage regionId pageSize current (p * pageSize)), current) := by
  obtain ⟨hpages, hshadow⟩ := foldl_hostPageStep_range regionId hpos hlen
    (pageCount pageSize current.length)
  refine Prod.ext hpages (ByteVec.ext (hshadow.trans ?_))
  refine overwriteAll_writePages hpos hlen fun p hne => ?_
  refine (mem_hostDirtyPages_iff hpos hlen.symm).mpr ?_
  simpa [pageDiffers, ByteVec.ext_iff, pageAt_data] using hne.symm

end

/-! ## Pages as writes -/

/-- The writes a replay performs for pages `P` of `current`. -/
def pageWrites (pageSize : Nat) (current : ByteVec) (P : List Nat) : List (Nat × List UInt8) :=
  P.map fun p => (p * pageSize, (pageAt pageSize current (p * pageSize)).data)

theorem length_pageAt {pageSize : Nat} (current : ByteVec) (offset : Nat) :
    (pageAt pageSize current offset).data.length =
      min (offset + pageSize) current.length - offset := by
  show (slice current.data _ _).length = _
  rw [length_slice, ByteVec.length]
  omega

/-- Writing pages `P` of `current` into a buffer of the same length: `current`
on those pages, the old bytes elsewhere. -/
theorem getElem?_overwriteAll_pageWrites {pageSize : Nat} (hpos : 0 < pageSize)
    {t : List UInt8} {current : ByteVec} (hlen : t.length = current.length) (P : List Nat)
    (i : Nat) :
    (overwriteAll t (pageWrites pageSize current P))[i]? =
      if i / pageSize ∈ P then current.data[i]? else t[i]? := by
  have hpages : pageWrites pageSize current P = writePages pageSize current.data P :=
    map_congr_left fun p _ => by rw [pageAt_data]
  rw [hpages, getElem?_overwriteAll_writePages hpos hlen]

end Concordia.Delta
