import Mathlib

/-!
# Scanners: one output per input

`outputs step out s l` runs a machine with step function `step` over `l` and
collects what `out` says of each element in the state it is met. Output `i`
depends on the state after the first `i` elements (`getElem?_outputs`).

A flag that some elements set and others clear is on at `i` exactly when an
element up to `i` set it and none from there on cleared it (`Latched`).
-/

namespace Concordia.Lib

open List Nat

variable {S A B C : Type}

/-- The outputs along a run. -/
def outputs (step : S → A → S) (out : S → A → B) : S → List A → List B
  | _, [] => []
  | s, a :: l => out s a :: outputs step out (step s a) l

variable (step : S → A → S) (out : S → A → B)

theorem getElem?_outputs (s : S) (l : List A) (i : Nat) :
    (outputs step out s l)[i]? = l[i]?.map (out ((l.take i).foldl step s)) := by
  induction l generalizing s i with
  | nil => rfl
  | cons a l ih =>
    cases i with
    | zero => rfl
    | succ i => simpa [outputs] using ih (step s a) i

theorem map_outputs (f : B → C) (s : S) (l : List A) :
    (outputs step out s l).map f = outputs step (fun s a => f (out s a)) s l := by
  induction l generalizing s with
  | nil => rfl
  | cons a l ih => rw [outputs, map_cons, ih, outputs]

/-- What each step appends to an accumulator is the concatenation of its outputs. -/
theorem foldl_append_outputs {acc : S → List C} {out : S → A → List C}
    (hstep : ∀ s a, acc (step s a) = acc s ++ out s a) (s : S) (l : List A) :
    acc (l.foldl step s) = acc s ++ (outputs step out s l).flatten := by
  induction l generalizing s with
  | nil => simp [outputs]
  | cons a l ih => rw [foldl_cons, ih, hstep, outputs, flatten_cons, append_assoc]

/-- Outputs in two parts are, up to order, the first parts and the second parts. -/
theorem flatten_outputs_append_perm (f g : S → A → List C) (s : S) (l : List A) :
    (outputs step (fun s a => f s a ++ g s a) s l).flatten.Perm
      ((outputs step f s l).flatten ++ (outputs step g s l).flatten) := by
  induction l generalizing s with
  | nil => exact List.Perm.refl _
  | cons a l ih =>
    simp only [outputs, flatten_cons, append_assoc]
    refine List.Perm.append_left _ (((ih (step s a)).append_left _).trans ?_)
    exact perm_append_comm_assoc _ _ _

theorem foldl_take_succ {l : List A} {i : Nat} {a : A} (h : l[i]? = some a) (s : S) :
    (l.take (i + 1)).foldl step s = step ((l.take i).foldl step s) a := by
  rw [take_add_one, h, foldl_append]
  rfl

/-! ## Flags -/

/-- Set at some point up to `i`, and not cleared from there to before `i`. -/
def Latched (set clear : Nat → Prop) (i : Nat) : Prop :=
  ∃ j ≤ i, set j ∧ ∀ k, j ≤ k → k < i → ¬ clear k

variable {set clear : Nat → Prop}

theorem latched_zero : Latched set clear 0 ↔ set 0 := by
  constructor
  · rintro ⟨j, hj, hset, _⟩
    rwa [le_zero.mp hj] at hset
  · intro hset
    exact ⟨0, le_rfl, hset, fun k _ hk => absurd hk (not_lt_zero k)⟩

theorem latched_succ {i : Nat} :
    Latched set clear (i + 1) ↔ set (i + 1) ∨ Latched set clear i ∧ ¬ clear i := by
  constructor
  · rintro ⟨j, hj, hset, hclear⟩
    rcases lt_or_eq_of_le hj with hlt | rfl
    · exact .inr ⟨⟨j, by omega, hset, fun k hk hki => hclear k hk (by omega)⟩,
        hclear i (by omega) (by omega)⟩
    · exact .inl hset
  · rintro (hset | ⟨⟨j, hj, hset, hclear⟩, hi⟩)
    · exact ⟨i + 1, le_rfl, hset, fun k hk hki => by omega⟩
    · refine ⟨j, by omega, hset, fun k hk hki => ?_⟩
      rcases lt_or_eq_of_le (le_of_lt_succ hki) with hlt | rfl
      · exact hclear k hk hlt
      · exact hi

end Concordia.Lib
