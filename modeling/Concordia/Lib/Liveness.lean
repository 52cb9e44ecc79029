import Mathlib

/-!
# Liveness in straight-line code

An instruction reads `srcs` and writes `dst`, if it has one; one without is an effect.
`liveBefore` is what the effects of a sequence depend on.
-/

namespace Concordia.Lib

open List

variable {ι ρ : Type} [DecidableEq ρ] (dst : ι → Option ρ) (srcs : ι → List ρ)

/-- The names whose contents the effects of the instructions depend on. -/
def liveBefore : List ι → List ρ
  | [] => []
  | i :: rest =>
    match dst i with
    | none => srcs i ++ liveBefore rest
    | some r =>
      (if r ∈ liveBefore rest then srcs i else []) ++ (liveBefore rest).filter fun x => x ≠ r

variable {dst srcs} {i : ι} {rest : List ι} {r x : ρ}

/-- What an effect reads is live. -/
theorem live_of_effect (hi : dst i = none) (hx : x ∈ srcs i) :
    x ∈ liveBefore dst srcs (i :: rest) := by
  unfold liveBefore
  rw [hi]
  exact mem_append_left _ hx

theorem live_of_live_effect (hi : dst i = none) (hx : x ∈ liveBefore dst srcs rest) :
    x ∈ liveBefore dst srcs (i :: rest) := by
  unfold liveBefore
  rw [hi]
  exact mem_append_right _ hx

/-- What is live after a write elsewhere was live before it. -/
theorem live_of_ne (hi : dst i = some r) (hx : x ∈ liveBefore dst srcs rest) (hne : x ≠ r) :
    x ∈ liveBefore dst srcs (i :: rest) := by
  unfold liveBefore
  rw [hi]
  exact mem_append_right _ (mem_filter.mpr ⟨hx, by simpa using hne⟩)

/-- The sources of a live result are live. -/
theorem live_of_source (hi : dst i = some r) (hr : r ∈ liveBefore dst srcs rest)
    (hx : x ∈ srcs i) : x ∈ liveBefore dst srcs (i :: rest) := by
  unfold liveBefore
  rw [hi]
  dsimp only
  rw [if_pos hr]
  exact mem_append_left _ hx

/-- Live before an instruction: one of its sources, or live after it and not written. -/
theorem live_cases (hx : x ∈ liveBefore dst srcs (i :: rest)) :
    x ∈ srcs i ∨ (x ∈ liveBefore dst srcs rest ∧ dst i ≠ some x) := by
  unfold liveBefore at hx
  cases hi : dst i with
  | none =>
    rw [hi] at hx
    rcases mem_append.mp hx with hx | hx
    · exact .inl hx
    · exact .inr ⟨hx, nofun⟩
  | some r =>
    rw [hi] at hx
    rcases mem_append.mp hx with hx | hx
    · split at hx
      · exact .inl hx
      · cases hx
    · obtain ⟨hx, hne⟩ := mem_filter.mp hx
      have hne : x ≠ r := by simpa using hne
      exact .inr ⟨hx, fun he => hne (Option.some.inj he).symm⟩

end Concordia.Lib
