import Mathlib

/-!
# In-place writes to a fixed-length buffer

`overwrite l off d` is `l[off..off + d.len()].copy_from_slice(d)`: the length
never changes. `overwriteAll` performs a list of such writes in order. The
central fact is `getElem?_overwriteAll_of_reached`: when every write carries the bytes a
source buffer `src` has at the same positions, the outcome is `src` where some
write reached and the old buffer elsewhere, in whatever order and however
often the writes overlap.
-/

namespace Concordia.Lib

open List

variable {B : Type}

/-- `l[off..off + d.length]` replaced by `d`; positions past the end of `l` are
not written. -/
def overwrite (l : List B) (off : Nat) (d : List B) : List B :=
  l.mapIdx fun i x => if off ≤ i ∧ i < off + d.length then d.getD (i - off) x else x

/-- `l[start..stop]`. -/
def slice (l : List B) (start stop : Nat) : List B := (l.take stop).drop start

@[simp] theorem length_overwrite (l : List B) (off : Nat) (d : List B) :
    (overwrite l off d).length = l.length := by
  simp [overwrite]

theorem getElem?_overwrite (l : List B) (off : Nat) (d : List B) (i : Nat) :
    (overwrite l off d)[i]? =
      if off ≤ i ∧ i < off + d.length ∧ i < l.length then d[i - off]? else l[i]? := by
  rw [overwrite, getElem?_mapIdx]
  by_cases hi : i < l.length
  · rw [getElem?_eq_getElem hi]
    by_cases hin : off ≤ i ∧ i < off + d.length
    · have hd : i - off < d.length := by omega
      simp [hi, hin, getD_eq_getElem?_getD, getElem?_eq_getElem hd]
    · simp only [Option.map_some, if_neg hin]
      rw [if_neg (by tauto)]
  · rw [getElem?_eq_none (by omega)]
    simp [hi]

theorem length_slice (l : List B) (start stop : Nat) :
    (slice l start stop).length = min stop l.length - start := by
  simp [slice]

theorem getElem?_slice (l : List B) (start stop i : Nat) :
    (slice l start stop)[i]? = if start + i < stop then l[start + i]? else none := by
  rw [slice, getElem?_drop, getElem?_take]

/-- Two buffers agree on a range exactly when their slices are equal. -/
theorem slice_eq_iff (l m : List B) (start stop : Nat) :
    slice l start stop = slice m start stop ↔ ∀ i, start ≤ i → i < stop → l[i]? = m[i]? := by
  constructor
  · intro h i hs ht
    have hi := congrArg (·[i - start]?) h
    simpa [getElem?_slice, Nat.add_sub_cancel' hs, ht] using hi
  · intro h
    apply ext_getElem?
    intro i
    rw [getElem?_slice, getElem?_slice]
    by_cases hi : start + i < stop
    · simp only [if_pos hi, h (start + i) (by omega) hi]
    · simp only [if_neg hi]

/-- A slice ends with the buffer. -/
theorem slice_min_length (l : List B) (start stop : Nat) :
    slice l start (min stop l.length) = slice l start stop := by
  rw [slice, slice, ← take_eq_take_min]

/-- Adjacent slices join. -/
theorem slice_append_slice (l : List B) {a b c : Nat} (hab : a ≤ b) (hbc : b ≤ c) :
    slice l a b ++ slice l b c = slice l a c := by
  apply ext_getElem?
  intro i
  rw [getElem?_slice, getElem?_append, length_slice]
  split
  · rw [getElem?_slice, if_pos (by omega), if_pos (by omega)]
  · rw [getElem?_slice]
    by_cases hlong : b ≤ l.length
    · rw [show b + (i - (min b l.length - a)) = a + i by omega]
    · rw [getElem?_eq_none (by omega), getElem?_eq_none (by omega)]
      simp

variable {i : Nat} {start stop : Nat}

/-- A position outside a slice may be changed without changing the slice. -/
theorem slice_set_of_not_mem (l : List B) (x : B) (h : i < start ∨ stop ≤ i) :
    slice (l.set i x) start stop = slice l start stop := by
  rw [slice_eq_iff]
  intro j hj hj'
  rw [getElem?_set_ne (by omega)]

/-- A position inside a slice is changed there, relative to its start. -/
theorem slice_set (l : List B) (x : B) (hs : start ≤ i) :
    slice (l.set i x) start stop = (slice l start stop).set (i - start) x := by
  rw [slice, slice, take_set, drop_set, if_neg (by omega)]

variable {l : List B}

/-- Changing a position inside a slice changes the slice. -/
theorem slice_set_ne {x : B} (hs : start ≤ i) (ht : i < stop) (hi : i < l.length)
    (hx : l[i]? ≠ some x) : slice (l.set i x) start stop ≠ slice l start stop := by
  intro heq
  have hat := (slice_eq_iff _ _ _ _).mp heq i hs ht
  rw [getElem?_set_self hi] at hat
  exact hx hat.symm

/-! ## Lists of writes -/

/-- Perform the writes `(offset, data)` in order. -/
def overwriteAll (l : List B) (writes : List (Nat × List B)) : List B :=
  writes.foldl (fun t w => overwrite t w.1 w.2) l

@[simp] theorem overwriteAll_nil (l : List B) : overwriteAll l [] = l := rfl

@[simp] theorem overwriteAll_cons (l : List B) (w : Nat × List B) (ws : List (Nat × List B)) :
    overwriteAll l (w :: ws) = overwriteAll (overwrite l w.1 w.2) ws := rfl

theorem overwriteAll_append (l : List B) (ws vs : List (Nat × List B)) :
    overwriteAll l (ws ++ vs) = overwriteAll (overwriteAll l ws) vs :=
  foldl_append

@[simp] theorem length_overwriteAll (l : List B) (ws : List (Nat × List B)) :
    (overwriteAll l ws).length = l.length := by
  induction ws generalizing l with
  | nil => rfl
  | cons w ws ih => rw [overwriteAll_cons, ih, length_overwrite]

/-- Position `i` lies in the range of some write. -/
def Reached (writes : List (Nat × List B)) (i : Nat) : Prop :=
  ∃ w ∈ writes, w.1 ≤ i ∧ i < w.1 + w.2.length

@[simp] theorem not_reached_nil (i : Nat) : ¬ Reached ([] : List (Nat × List B)) i := by
  simp [Reached]

variable {ws : List (Nat × List B)}

theorem reached_cons {w : Nat × List B} :
    Reached (w :: ws) i ↔ (w.1 ≤ i ∧ i < w.1 + w.2.length) ∨ Reached ws i := by
  simp [Reached]

theorem reached_append {vs : List (Nat × List B)} :
    Reached (ws ++ vs) i ↔ Reached ws i ∨ Reached vs i := by
  simp only [Reached, mem_append, or_and_right, exists_or]

/-- Every write carries the bytes `src` has at the positions it is written to. -/
def CopiedFrom (src : List B) (writes : List (Nat × List B)) : Prop :=
  ∀ w ∈ writes, ∀ k < w.2.length, w.2[k]? = src[w.1 + k]?

variable {src : List B}

theorem CopiedFrom.tail {w : Nat × List B} (h : CopiedFrom src (w :: ws)) : CopiedFrom src ws :=
  fun v hv => h v (mem_cons_of_mem w hv)

/-- Nothing is written where no write reaches. -/
theorem getElem?_overwriteAll_of_not_reached (l : List B) (h : ¬ Reached ws i) :
    (overwriteAll l ws)[i]? = l[i]? := by
  induction ws generalizing l with
  | nil => rfl
  | cons w ws ih =>
    rw [reached_cons, not_or] at h
    rw [overwriteAll_cons, ih _ h.2, getElem?_overwrite, if_neg (by tauto)]

/-- Writes copied from `src` leave `src` where they reach. -/
theorem getElem?_overwriteAll_of_reached (hlen : l.length = src.length) (hc : CopiedFrom src ws)
    (h : Reached ws i) : (overwriteAll l ws)[i]? = src[i]? := by
  induction ws generalizing l with
  | nil => exact absurd h (not_reached_nil i)
  | cons w ws ih =>
    rw [overwriteAll_cons]
    by_cases hlater : Reached ws i
    · exact ih (by simpa using hlen) hc.tail hlater
    · -- the last write to reach `i` is this one
      have hin : w.1 ≤ i ∧ i < w.1 + w.2.length := by
        rcases reached_cons.mp h with hin | hin
        · exact hin
        · exact absurd hin hlater
      rw [getElem?_overwriteAll_of_not_reached _ hlater, getElem?_overwrite]
      by_cases hi : i < l.length
      · rw [if_pos ⟨hin.1, hin.2, hi⟩, hc w mem_cons_self (i - w.1) (by omega)]
        congr 1
        omega
      · rw [if_neg (by tauto), getElem?_eq_none (by omega), getElem?_eq_none (by omega)]

/-- Writes copied from `src` that reach every position where the buffers differ. -/
theorem overwriteAll_eq_of_copiedFrom (hlen : l.length = src.length) (hc : CopiedFrom src ws)
    (h : ∀ i < src.length, ¬ Reached ws i → l[i]? = src[i]?) : overwriteAll l ws = src := by
  apply ext_getElem?
  intro i
  by_cases hi : i < src.length
  · by_cases hreached : Reached ws i
    · exact getElem?_overwriteAll_of_reached hlen hc hreached
    · rw [getElem?_overwriteAll_of_not_reached l hreached, h i hi hreached]
  · rw [getElem?_eq_none (by rw [length_overwriteAll, hlen]; omega),
      getElem?_eq_none (by omega)]

/-- The last write to reach position `i`. -/
def lastAt (writes : List (Nat × List B)) (i : Nat) : Option (Nat × List B) :=
  writes.reverse.find? fun w => w.1 ≤ i ∧ i < w.1 + w.2.length

/-- The last write to reach a position decides it. -/
theorem getElem?_overwriteAll (l : List B) (ws : List (Nat × List B)) (hi : i < l.length) :
    (overwriteAll l ws)[i]? =
      match lastAt ws i with
      | some w => w.2[i - w.1]?
      | none => l[i]? := by
  induction ws using List.reverseRecOn with
  | nil => rfl
  | append_singleton ws w ih =>
    rw [overwriteAll_append, overwriteAll_cons, overwriteAll_nil, getElem?_overwrite,
      length_overwriteAll, lastAt, reverse_append, reverse_singleton,
      singleton_append, find?_cons, ← lastAt]
    by_cases hin : w.1 ≤ i ∧ i < w.1 + w.2.length
    · rw [if_pos ⟨hin.1, hin.2, hi⟩, decide_eq_true hin]
    · rw [if_neg (by tauto), decide_eq_false hin]
      exact ih

/-- Writes that are all made again do not show. -/
theorem overwriteAll_of_subset (l : List B) {vs ws : List (Nat × List B)} (h : vs ⊆ ws) :
    overwriteAll (overwriteAll l vs) ws = overwriteAll l ws := by
  apply ext_getElem?'
  intro i hi
  have hi : i < l.length := by simpa using hi
  rw [getElem?_overwriteAll l ws hi, getElem?_overwriteAll _ ws (by simpa using hi)]
  cases hw : lastAt ws i with
  | some w => rfl
  | none =>
    apply getElem?_overwriteAll_of_not_reached
    rintro ⟨w, hv, hin⟩
    exact find?_eq_none.mp hw w (mem_reverse.mpr (h hv)) (decide_eq_true hin)

/-- The writes leave every position they reach with the value it had. -/
def Restates (l : List B) (writes : List (Nat × List B)) : Prop :=
  ∀ i < l.length, ∀ w, lastAt writes i = some w → w.2[i - w.1]? = l[i]?

theorem overwriteAll_eq_self_iff (l : List B) (ws : List (Nat × List B)) :
    overwriteAll l ws = l ↔ Restates l ws := by
  constructor
  · intro h i hi w hw
    have hlast := getElem?_overwriteAll l ws hi
    rw [h, hw] at hlast
    exact hlast.symm
  · intro h
    apply ext_getElem?
    intro i
    by_cases hi : i < l.length
    · rw [getElem?_overwriteAll l ws hi]
      cases hw : lastAt ws i with
      | none => rfl
      | some w => exact h i hi w hw
    · rw [getElem?_eq_none (by rw [length_overwriteAll]; omega),
        getElem?_eq_none (by omega)]

/-! ## Addressable byte buffers -/

/-- The largest byte size of one allocation: `isize::MAX` on a 64-bit target. -/
def isizeMax : Nat := 2 ^ 63 - 1

/-- A byte buffer that fits in one allocation (`Vec<u8>`, `&[u8]`). -/
@[ext] structure ByteVec where
  data : List UInt8
  length_le : data.length ≤ isizeMax
  deriving DecidableEq, Repr

namespace ByteVec

instance : Inhabited ByteVec := ⟨⟨[], Nat.zero_le _⟩⟩

def length (v : ByteVec) : Nat := v.data.length

theorem length_lt (v : ByteVec) : v.length < 2 ^ 64 :=
  Nat.lt_of_le_of_lt v.length_le (by decide)

/-- `v[start..stop].to_vec()`. -/
def slice (v : ByteVec) (start stop : Nat) : ByteVec where
  data := Lib.slice v.data start stop
  length_le := by
    have := v.length_le
    rw [length_slice]
    omega

/-- `v[off..off + d.len()].copy_from_slice(d)`. -/
def overwrite (v : ByteVec) (off : Nat) (d : List UInt8) : ByteVec where
  data := Lib.overwrite v.data off d
  length_le := by
    rw [length_overwrite]
    exact v.length_le

@[simp] theorem length_overwrite (v : ByteVec) (off : Nat) (d : List UInt8) :
    (v.overwrite off d).length = v.length :=
  Lib.length_overwrite v.data off d

end ByteVec

end Concordia.Lib
