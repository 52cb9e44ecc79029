import Mathlib

/-!
# Fold hashes with injective rounds

A hash that folds its input into a state one symbol at a time detects every
single-symbol change as soon as each round is injective in the state (for a
fixed symbol) and in the symbol (for a fixed state): the two runs part at the
changed symbol and injectivity in the state keeps them apart for the rest of
the input, however long.
-/

namespace Concordia.Lib

/-- One round of a fold hash, injective in either argument. -/
structure InjectiveRound {S B : Type} (round : S → B → S) : Prop where
  state : ∀ b, Function.Injective (round · b)
  symbol : ∀ s, Function.Injective (round s)

namespace InjectiveRound

variable {S B : Type} {round : S → B → S}

/-- A common suffix never merges two states. -/
theorem foldl_injective (h : InjectiveRound round) (bytes : List B) :
    Function.Injective (bytes.foldl round) := by
  induction bytes with
  | nil => exact fun _ _ heq => heq
  | cons b rest ih => exact fun s t heq => h.state b (ih heq)

/-- Changing one symbol changes the hash. -/
theorem foldl_ne_of_symbol_ne (h : InjectiveRound round) (s : S) (before after : List B)
    {b b' : B} (hne : b ≠ b') :
    (before ++ b :: after).foldl round s ≠ (before ++ b' :: after).foldl round s := by
  intro heq
  simp only [List.foldl_append, List.foldl_cons] at heq
  exact hne (h.symbol _ (h.foldl_injective after heq))

/-- The same, at a position of the input. -/
theorem foldl_set_ne (h : InjectiveRound round) (s : S) (bytes : List B) {i : Nat} {b : B}
    (hi : i < bytes.length) (hne : bytes[i]? ≠ some b) :
    (bytes.set i b).foldl round s ≠ bytes.foldl round s := by
  rw [List.getElem?_eq_getElem hi, ne_eq, Option.some.injEq] at hne
  have hsplit : bytes.take i ++ bytes[i] :: bytes.drop (i + 1) = bytes := by simp
  have hparts := h.foldl_ne_of_symbol_ne s (bytes.take i) (bytes.drop (i + 1)) (Ne.symm hne)
  rw [hsplit] at hparts
  rwa [List.set_eq_take_append_cons_drop, if_pos hi]

end InjectiveRound

end Concordia.Lib
