import Mathlib

/-!
# Lists of extents

An extent is a start and a size. `cut` takes one extent out of another and keeps the
pieces on either side; cutting every extent of a list removes exactly those points from
what the list covers.
-/

namespace Concordia.Lib

open List

structure Extent where
  start : Nat
  size : Nat
  deriving DecidableEq, Repr

variable {x : Nat}

namespace Extent

/-- The point lies in the extent. -/
def Has (r : Extent) (x : Nat) : Prop := r.start ≤ x ∧ x < r.start + r.size

/-- One ends before the other starts. -/
def Clear (r c : Extent) : Prop := r.start + r.size ≤ c.start ∨ c.start + c.size ≤ r.start

instance (r c : Extent) : Decidable (r.Clear c) := inferInstanceAs (Decidable (_ ∨ _))

variable {r c : Extent}

theorem Clear.symm (h : r.Clear c) : c.Clear r := Or.symm h

instance : Std.Symm Clear := ⟨fun _ _ h => h.symm⟩

theorem Clear.not_has (h : r.Clear c) (hr : r.Has x) : ¬c.Has x := by
  unfold Clear at h
  unfold Has at hr ⊢
  omega

/-- What is left of `r` outside `c`. -/
def cut (c r : Extent) : List Extent :=
  if r.Clear c then [r]
  else
    (if r.start < c.start then [⟨r.start, c.start - r.start⟩] else []) ++
      (if c.start + c.size < r.start + r.size then
        [⟨c.start + c.size, r.start + r.size - (c.start + c.size)⟩] else [])

theorem cut_of_clear (h : r.Clear c) : cut c r = [r] := if_pos h

/-- Nothing is left of an extent inside `c`. -/
theorem cut_of_inside (hr : 0 < r.size) (hs : c.start ≤ r.start)
    (he : r.start + r.size ≤ c.start + c.size) : cut c r = [] := by
  have hn : ¬r.Clear c := by
    unfold Clear
    omega
  rw [cut, if_neg hn, if_neg (by omega), if_neg (by omega), nil_append]

/-- The pieces are in the extent. -/
theorem of_mem_cut {r c p : Extent} (hr : 0 < r.size) (h : p ∈ cut c r) :
    0 < p.size ∧ r.start ≤ p.start ∧ p.start + p.size ≤ r.start + r.size := by
  unfold cut at h
  split at h
  · rw [mem_singleton.mp h]
    exact ⟨hr, le_refl _, le_refl _⟩
  · rename_i hn
    unfold Clear at hn
    rcases mem_append.mp h with h | h
    · split at h
      · rw [mem_singleton.mp h]
        dsimp only
        omega
      · cases h
    · split at h
      · rw [mem_singleton.mp h]
        dsimp only
        omega
      · cases h

/-- **What a cut covers.** -/
theorem has_cut : (∃ p ∈ cut c r, p.Has x) ↔ r.Has x ∧ ¬c.Has x := by
  unfold cut
  split
  · rename_i hc
    simp only [mem_singleton, exists_eq_left]
    exact ⟨fun h => ⟨h, hc.not_has h⟩, fun h => h.1⟩
  · rename_i hn
    constructor
    · rintro ⟨p, hp, hx⟩
      unfold Clear at hn
      rcases mem_append.mp hp with hp | hp
      all_goals
        split at hp
        · rw [mem_singleton.mp hp] at hx
          unfold Has at hx ⊢
          dsimp only at hx
          omega
        · cases hp
    · rintro ⟨hr, hc⟩
      unfold Has at hr hc
      by_cases hlt : x < c.start
      · refine ⟨⟨r.start, c.start - r.start⟩, mem_append_left _ ?_, ?_⟩
        · rw [if_pos (by omega)]
          exact mem_singleton.mpr rfl
        · unfold Has
          dsimp only
          omega
      · refine ⟨⟨c.start + c.size, r.start + r.size - (c.start + c.size)⟩,
          mem_append_right _ ?_, ?_⟩
        · rw [if_pos (by omega)]
          exact mem_singleton.mpr rfl
        · unfold Has
          dsimp only
          omega

/-- Parts of extents that are clear of each other are clear of each other. -/
theorem Clear.of_inside {r r' p p' : Extent} (h : r.Clear r') (hs : r.start ≤ p.start)
    (he : p.start + p.size ≤ r.start + r.size) (hs' : r'.start ≤ p'.start)
    (he' : p'.start + p'.size ≤ r'.start + r'.size) : p.Clear p' := by
  unfold Clear at h ⊢
  omega

theorem pairwise_cut (c r : Extent) : (cut c r).Pairwise Clear := by
  unfold cut
  split
  · exact pairwise_singleton _ _
  · split <;> split <;> simp [Clear]
    omega

end Extent

/-- Some extent of the list has the point. -/
def Covered (l : List Extent) (x : Nat) : Prop := ∃ r ∈ l, r.Has x

theorem covered_append {l l' : List Extent} : Covered (l ++ l') x ↔ Covered l x ∨ Covered l' x := by
  simp only [Covered, mem_append]
  constructor
  · rintro ⟨r, hr | hr, hx⟩
    · exact .inl ⟨r, hr, hx⟩
    · exact .inr ⟨r, hr, hx⟩
  · rintro (⟨r, hr, hx⟩ | ⟨r, hr, hx⟩)
    · exact ⟨r, .inl hr, hx⟩
    · exact ⟨r, .inr hr, hx⟩

/-- **Cutting a list.** -/
theorem covered_flatMap_cut {l : List Extent} {c : Extent} :
    Covered (l.flatMap (Extent.cut c)) x ↔ Covered l x ∧ ¬c.Has x := by
  constructor
  · rintro ⟨p, hp, hx⟩
    obtain ⟨r, hr, hpr⟩ := mem_flatMap.mp hp
    obtain ⟨hrx, hcx⟩ := Extent.has_cut.mp ⟨p, hpr, hx⟩
    exact ⟨⟨r, hr, hrx⟩, hcx⟩
  · rintro ⟨⟨r, hr, hrx⟩, hcx⟩
    obtain ⟨p, hp, hpx⟩ := Extent.has_cut.mpr ⟨hrx, hcx⟩
    exact ⟨p, mem_flatMap.mpr ⟨r, hr, hp⟩, hpx⟩

theorem pairwise_flatMap_cut {l : List Extent} {c : Extent} (hl : l.Pairwise Extent.Clear)
    (hpos : ∀ r ∈ l, 0 < r.size) : (l.flatMap (Extent.cut c)).Pairwise Extent.Clear := by
  induction l with
  | nil => exact List.Pairwise.nil
  | cons r l ih =>
    obtain ⟨hr, hl⟩ := pairwise_cons.mp hl
    rw [flatMap_cons, pairwise_append]
    refine ⟨Extent.pairwise_cut c r, ih hl fun q hq => hpos q (mem_cons_of_mem r hq), ?_⟩
    intro p hp q hq
    obtain ⟨r', hr', hq'⟩ := mem_flatMap.mp hq
    obtain ⟨-, hs, he⟩ := Extent.of_mem_cut (hpos r mem_cons_self) hp
    obtain ⟨-, hs', he'⟩ := Extent.of_mem_cut (hpos r' (mem_cons_of_mem r hr')) hq'
    exact (hr r' hr').of_inside hs he hs' he'

end Concordia.Lib
