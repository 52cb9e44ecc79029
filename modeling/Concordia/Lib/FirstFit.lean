import Mathlib

/-!
# First-fit numbering of intervals

Intervals are served by their starts; each takes the least number that no interval
still running has. The numbering is unique, and intervals that meet get different
numbers.
-/

namespace Concordia.Lib

variable {ι : Type} {mem mem' : ι → Prop} {start stop num num' : ι → ℕ} {u v : ι}

/-- The numbers an interval may take: those of no earlier interval still running when it
starts. -/
def free (mem : ι → Prop) (start stop num : ι → ℕ) (v : ι) : Set ℕ :=
  {k | ∀ u, mem u → start u < start v → start v ≤ stop u → num u ≠ k}

/-- Every interval has the least number free at its start. -/
def FirstFit (mem : ι → Prop) (start stop num : ι → ℕ) : Prop :=
  ∀ v, mem v → IsLeast (free mem start stop num v) (num v)

/-- What is free at a start depends on the earlier starts only. -/
theorem free_congr (hmem : ∀ u, start u < start v → (mem' u ↔ mem u))
    (hnum : ∀ u, mem u → start u < start v → num' u = num u) :
    free mem' start stop num' v = free mem start stop num v := by
  ext k
  constructor
  · intro hk u hu hlt hle
    rw [← hnum u hu hlt]
    exact hk u ((hmem u hlt).mpr hu) hlt hle
  · intro hk u hu hlt hle
    have hu' := (hmem u hlt).mp hu
    rw [hnum u hu' hlt]
    exact hk u hu' hlt hle

/-- **There is one first-fit numbering.** -/
theorem FirstFit.unique (h : FirstFit mem start stop num) (h' : FirstFit mem start stop num')
    (hv : mem v) : num v = num' v := by
  induction hn : start v using Nat.strong_induction_on generalizing v with
  | _ n ih =>
    have hfree : free mem start stop num v = free mem start stop num' v :=
      free_congr (fun _ _ => Iff.rfl) fun u hu hlt => ih (start u) (hn ▸ hlt) hu rfl
    exact (h v hv).unique (hfree ▸ h' v hv)

theorem FirstFit.congr (h : FirstFit mem start stop num) (hmem : ∀ u, mem' u ↔ mem u)
    (hnum : ∀ u, mem u → num' u = num u) : FirstFit mem' start stop num' := by
  intro v hv
  have hv' := (hmem v).mp hv
  rw [free_congr (fun u _ => hmem u) (fun u hu _ => hnum u hu), hnum v hv']
  exact h v hv'

/-- An interval that starts after all others takes the least number free at its start. -/
theorem FirstFit.cons (h : FirstFit mem start stop num) {r : ι}
    (hmem : ∀ u, mem' u ↔ mem u ∨ u = r) (hnum : ∀ u, mem u → num' u = num u)
    (hlast : ∀ u, mem u → start u < start r) (hr : IsLeast (free mem start stop num r) (num' r)) :
    FirstFit mem' start stop num' := by
  intro v hv
  have hle : start v ≤ start r := by
    rcases (hmem v).mp hv with hv' | rfl
    · exact (hlast v hv').le
    · exact le_refl _
  have hfree : free mem' start stop num' v = free mem start stop num v := by
    refine free_congr (fun u hlt => ?_) fun u hu _ => hnum u hu
    rw [hmem u]
    refine or_iff_left ?_
    rintro rfl
    omega
  rw [hfree]
  rcases (hmem v).mp hv with hv' | rfl
  · rw [hnum v hv']
    exact h v hv'
  · exact hr

/-- Where no two start together, intervals that meet have different numbers. -/
theorem FirstFit.ne_of_overlap (h : FirstFit mem start stop num)
    (hinj : ∀ u v, mem u → mem v → start u = start v → u = v) (hu : mem u) (hv : mem v)
    (hne : u ≠ v) (huv : start u ≤ stop v) (hvu : start v ≤ stop u) : num u ≠ num v := by
  rcases Nat.lt_trichotomy (start u) (start v) with hlt | heq | hlt
  · exact (h v hv).1 u hu hlt hvu
  · exact absurd (hinj u v hu hv heq) hne
  · exact ((h u hu).1 v hv hlt huv).symm

end Concordia.Lib
