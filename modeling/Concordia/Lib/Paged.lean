import Concordia.Lib.Overwrite

/-!
# Buffers cut into pages

`page size l p` is the `p`-th page of `l`; the last one may be short. Two buffers
of one length are equal when their pages are (`eq_of_pages`), and writing some
pages of a buffer into another gives that buffer exactly when the pages left out
agree (`overwriteAll_writePages`).
-/

namespace Concordia.Lib

open List Nat

variable {B : Type}

/-- The `p`-th page of `l`. -/
def page (size : Nat) (l : List B) (p : Nat) : List B := slice l (p * size) (p * size + size)

theorem length_page (size : Nat) (l : List B) (p : Nat) :
    (page size l p).length = min (p * size + size) l.length - p * size := by
  rw [page, length_slice]

theorem div_eq_iff_mem_page {size : Nat} (hpos : 0 < size) (i p : Nat) :
    i / size = p ↔ p * size ≤ i ∧ i < p * size + size := by
  rw [Nat.div_eq_iff hpos]
  omega

theorem page_eq_iff {size : Nat} (hpos : 0 < size) (l m : List B) (p : Nat) :
    page size l p = page size m p ↔ ∀ i, i / size = p → l[i]? = m[i]? := by
  rw [page, page, slice_eq_iff]
  constructor
  · intro h i hi
    obtain ⟨hs, ht⟩ := (div_eq_iff_mem_page hpos i p).mp hi
    exact h i hs ht
  · intro h i hs ht
    exact h i ((div_eq_iff_mem_page hpos i p).mpr ⟨hs, ht⟩)

/-- Past the last page there is nothing on either side. -/
theorem page_eq_of_length_le {size p : Nat} {l m : List B} (hlen : l.length = m.length)
    (hp : m.length ≤ p * size) : page size l p = page size m p := by
  have hnil : ∀ l : List B, l.length = m.length → page size l p = [] := by
    intro l hl
    apply eq_nil_of_length_eq_zero
    rw [length_page]
    omega
  rw [hnil l hlen, hnil m rfl]

theorem eq_of_pages {size : Nat} (hpos : 0 < size) {l m : List B}
    (h : ∀ p, page size l p = page size m p) : l = m :=
  ext_getElem? fun i => (page_eq_iff hpos l m (i / size)).mp (h _) i rfl

/-! ## Gathering pages -/

/-- The bytes of pages `P`, one page after the other. -/
def gather (size : Nat) (l : List B) (P : List Nat) : List B := P.flatMap (page size l)

theorem gather_append (size : Nat) (l : List B) (P P' : List Nat) :
    gather size l (P ++ P') = gather size l P ++ gather size l P' :=
  flatMap_append

theorem gather_range (size : Nat) (l : List B) (n : Nat) :
    gather size l (range n) = slice l 0 (n * size) := by
  induction n with
  | zero =>
    rw [zero_mul]
    exact (drop_zero ..).symm
  | succ n ih =>
    rw [range_succ, gather_append, ih, succ_mul,
      ← slice_append_slice l (zero_le (n * size)) (le_add_right _ size)]
    simp [gather, page]

/-- All pages are the whole buffer. -/
theorem gather_all {size n : Nat} {l : List B} (hn : l.length ≤ n * size) :
    gather size l (range n) = l := by
  rw [gather_range, slice, drop_zero, take_of_length_le hn]

/-! ## Writing pages -/

/-- Pages `P` of `src`, as writes. -/
def writePages (size : Nat) (src : List B) (P : List Nat) : List (Nat × List B) :=
  P.map fun p => (p * size, page size src p)

theorem writePages_append (size : Nat) (src : List B) (P P' : List Nat) :
    writePages size src (P ++ P') = writePages size src P ++ writePages size src P' :=
  map_append

theorem copiedFrom_writePages (size : Nat) (src : List B) (P : List Nat) :
    CopiedFrom src (writePages size src P) := by
  intro w hw k hk
  obtain ⟨p, _, rfl⟩ := mem_map.mp hw
  rw [length_page] at hk
  show (slice src _ _)[k]? = _
  rw [getElem?_slice, if_pos (by omega)]

theorem reached_writePages {size : Nat} (hpos : 0 < size) (src : List B) (P : List Nat) {i : Nat}
    (hi : i < src.length) : Reached (writePages size src P) i ↔ i / size ∈ P := by
  constructor
  · rintro ⟨w, hw, hs, ht⟩
    obtain ⟨p, hp, rfl⟩ := mem_map.mp hw
    rw [length_page] at ht
    rw [(div_eq_iff_mem_page hpos i p).mpr ⟨hs, by omega⟩]
    exact hp
  · intro hp
    obtain ⟨hs, ht⟩ := (div_eq_iff_mem_page hpos i _).mp rfl
    refine ⟨_, mem_map.mpr ⟨i / size, hp, rfl⟩, hs, ?_⟩
    rw [length_page]
    omega

section

variable {size : Nat} (hpos : 0 < size) {l src : List B} (hlen : l.length = src.length)

include hpos hlen

/-- Pages `P` of `src` over a buffer of its length: `src` on those pages, the old
bytes elsewhere. -/
theorem getElem?_overwriteAll_writePages (P : List Nat) (i : Nat) :
    (overwriteAll l (writePages size src P))[i]? = if i / size ∈ P then src[i]? else l[i]? := by
  by_cases hi : i < src.length
  · by_cases hp : i / size ∈ P
    · rw [if_pos hp]
      exact getElem?_overwriteAll_of_reached hlen (copiedFrom_writePages size src P)
        ((reached_writePages hpos src P hi).mpr hp)
    · rw [if_neg hp]
      exact getElem?_overwriteAll_of_not_reached l
        (fun h => hp ((reached_writePages hpos src P hi).mp h))
  · have hout : src.length ≤ i := Nat.le_of_not_lt hi
    rw [getElem?_eq_none (by rw [length_overwriteAll, hlen]; exact hout),
      getElem?_eq_none hout, getElem?_eq_none (by rw [hlen]; exact hout), ite_self]

theorem page_overwriteAll_writePages (P : List Nat) (q : Nat) :
    page size (overwriteAll l (writePages size src P)) q =
      if q ∈ P then page size src q else page size l q := by
  split
  · rename_i hq
    refine (page_eq_iff hpos _ _ q).mpr fun i hi => ?_
    rw [getElem?_overwriteAll_writePages hpos hlen, if_pos (hi ▸ hq)]
  · rename_i hq
    refine (page_eq_iff hpos _ _ q).mpr fun i hi => ?_
    rw [getElem?_overwriteAll_writePages hpos hlen, if_neg (hi ▸ hq)]

theorem page_overwrite_page (p q : Nat) :
    page size (overwrite l (p * size) (page size src p)) q =
      if q = p then page size src q else page size l q := by
  show page size (overwriteAll l (writePages size src [p])) q = _
  simp only [page_overwriteAll_writePages hpos hlen, mem_singleton]

/-- Every page that differs is written. -/
theorem overwriteAll_writePages {P : List Nat} (h : ∀ p, page size l p ≠ page size src p → p ∈ P) :
    overwriteAll l (writePages size src P) = src := by
  apply ext_getElem?
  intro i
  rw [getElem?_overwriteAll_writePages hpos hlen]
  split
  · rfl
  · rename_i hp
    exact (page_eq_iff hpos l src (i / size)).mp (not_imp_comm.mp (h _) hp) i rfl

/-- All pages are written. -/
theorem overwriteAll_writePages_range {n : Nat} (hn : src.length ≤ n * size) :
    overwriteAll l (writePages size src (range n)) = src := by
  apply overwriteAll_writePages hpos hlen
  intro p hne
  rw [mem_range]
  by_contra hp
  exact hne (page_eq_of_length_le hlen (hn.trans (mul_le_mul_right _ (by omega))))

end

/-! ## Pages at other places -/

theorem page_overwrite_full {size : Nat} (hpos : 0 < size) {l b : List B} {q : Nat}
    (hb : b.length = size) (hl : q * size + size ≤ l.length) (r : Nat) :
    page size (overwrite l (q * size) b) r = if r = q then b else page size l r := by
  split
  · rename_i hr
    subst hr
    apply ext_getElem?
    intro i
    rw [page, getElem?_slice, getElem?_overwrite]
    by_cases hi : i < size
    · rw [if_pos (by omega), if_pos (by omega), Nat.add_sub_cancel_left]
    · rw [if_neg (by omega), getElem?_eq_none (by omega)]
  · rename_i hr
    refine (page_eq_iff hpos _ _ r).mpr fun i hi => ?_
    rw [getElem?_overwrite, if_neg]
    rintro ⟨hs, ht, _⟩
    exact hr (hi.symm.trans ((div_eq_iff_mem_page hpos i q).mpr ⟨hs, by omega⟩))

/-- Writes of whole pages, each at its place. -/
def placePages (size : Nat) (place : Nat → Nat) (W : List (Nat × List B)) :
    List (Nat × List B) :=
  W.map fun w => (place w.1 * size, w.2)

/-- The same page writes at two sets of places leave the same page at the two
places of any page written. -/
theorem page_overwriteAll_placePages {size : Nat} (hpos : 0 < size) {place : Nat → Nat}
    {W : List (Nat × List B)} {l m : List B} (hsize : ∀ w ∈ W, w.2.length = size)
    (hl : ∀ w ∈ W, place w.1 * size + size ≤ l.length)
    (hm : ∀ w ∈ W, w.1 * size + size ≤ m.length) {p : Nat}
    (hinj : ∀ w ∈ W, place w.1 = place p → w.1 = p)
    (h : p ∈ W.map Prod.fst ∨ page size l (place p) = page size m p) :
    page size (overwriteAll l (placePages size place W)) (place p) =
      page size (overwriteAll m (placePages size id W)) p := by
  induction W generalizing l m with
  | nil => exact h.resolve_left (by simp)
  | cons w W ih =>
    have hhead : ∀ r, page size (overwrite l (place w.1 * size) w.2) r =
        if r = place w.1 then w.2 else page size l r :=
      page_overwrite_full hpos (hsize w mem_cons_self) (hl w mem_cons_self)
    have hhead' : ∀ r, page size (overwrite m (w.1 * size) w.2) r =
        if r = w.1 then w.2 else page size m r :=
      page_overwrite_full hpos (hsize w mem_cons_self) (hm w mem_cons_self)
    show page size (overwriteAll (overwrite l (place w.1 * size) w.2) (placePages size place W)) _ =
      page size (overwriteAll (overwrite m (w.1 * size) w.2) (placePages size id W)) p
    refine ih (fun v hv => hsize v (mem_cons_of_mem w hv))
      (fun v hv => by simpa using hl v (mem_cons_of_mem w hv))
      (fun v hv => by simpa using hm v (mem_cons_of_mem w hv))
      (fun v hv => hinj v (mem_cons_of_mem w hv)) ?_
    by_cases hp : p = w.1
    · subst hp
      exact .inr (by rw [hhead, hhead', if_pos rfl, if_pos rfl])
    · have hplace : place p ≠ place w.1 := fun heq => hp (hinj w mem_cons_self heq.symm).symm
      rw [hhead, hhead', if_neg hplace, if_neg hp]
      refine h.imp (fun hmem => ?_) id
      rw [map_cons, mem_cons] at hmem
      exact hmem.resolve_left hp

end Concordia.Lib
