import Mathlib.Order.Basic
import Mathlib.Data.List.Basic

/-!
# Accumulators that only grow

A fold whose step never goes down ends above where it started, and keeps whatever upward
closed fact one of its steps establishes.
-/

namespace Concordia.Lib

variable {α β : Type*} [Preorder α] {f : α → β → α}

theorem le_foldl (hf : ∀ a x, a ≤ f a x) (l : List β) (a : α) : a ≤ l.foldl f a := by
  induction l generalizing a with
  | nil => exact le_refl a
  | cons x l ih => exact (hf a x).trans (ih (f a x))

/-- **Growing folds.** What the step at a member establishes, and growth keeps, holds at the
end. -/
theorem foldl_of_mem (hf : ∀ a x, a ≤ f a x) {P : α → Prop} (hup : ∀ a b, a ≤ b → P a → P b)
    {l : List β} {x : β} (hx : x ∈ l) (hstep : ∀ a, P (f a x)) (a : α) : P (l.foldl f a) := by
  induction l generalizing a with
  | nil => cases hx
  | cons y l ih =>
    rcases List.mem_cons.mp hx with rfl | htail
    · exact hup _ _ (le_foldl hf l (f a x)) (hstep a)
    · exact ih htail (f a y)

end Concordia.Lib
