import Mathlib

/-!
# Labelled transition systems

The initial states, the steps a labelled action allows, the states reachable
from there, and the invariant rule. `restrict` keeps only the steps a side
condition admits: a property of every reachable state of `M.restrict G` is a
property of every run of `M` whose steps all meet `G`.
-/

namespace Concordia.Lib

/-- Initial states and labelled steps. -/
structure TSys (S A : Type) where
  init : S → Prop
  step : S → A → S → Prop

namespace TSys

variable {S A : Type}

/-- States some run reaches. -/
inductive Reachable (M : TSys S A) : S → Prop
  | init {s} : M.init s → Reachable M s
  | step {s a t} : Reachable M s → M.step s a t → Reachable M t

/-- Only the steps whose source state and action meet `G`. -/
def restrict (M : TSys S A) (G : S → A → Prop) : TSys S A where
  init := M.init
  step s a t := G s a ∧ M.step s a t

/-- What holds initially and survives every step holds in every reachable
state. -/
theorem Reachable.induct {M : TSys S A} {P : S → Prop} (hinit : ∀ s, M.init s → P s)
    (hstep : ∀ s a t, P s → M.step s a t → P t) {s : S} (h : M.Reachable s) : P s := by
  induction h with
  | init h0 => exact hinit _ h0
  | step _ hst ih => exact hstep _ _ _ ih hst

/-! ## Runs of a step function -/

/-- The actions in turn; `none` once one of them is not possible. -/
def runSteps (f : S → A → Option S) (s : S) : List A → Option S
  | [] => some s
  | a :: rest => (f s a).bind fun t => runSteps f t rest

theorem runSteps_append (f : S → A → Option S) (s : S) (actions rest : List A) :
    runSteps f s (actions ++ rest) = (runSteps f s actions).bind (runSteps f · rest) := by
  induction actions generalizing s with
  | nil => rfl
  | cons a actions ih =>
    show (f s a).bind _ = ((f s a).bind _).bind _
    cases f s a with
    | none => rfl
    | some t => exact ih t

variable {f : S → A → Option S}

/-- What every one of the steps preserves, a run preserves. -/
theorem runSteps_induct {P : S → Prop} {G : A → Prop}
    (hstep : ∀ s a t, P s → G a → f s a = some t → P t) {actions : List A}
    (hactions : ∀ a ∈ actions, G a) {s t : S} (hs : P s) (hrun : runSteps f s actions = some t) :
    P t := by
  induction actions generalizing s with
  | nil => exact Option.some.inj hrun ▸ hs
  | cons a rest ih =>
    obtain ⟨u, hu, hrest⟩ := Option.bind_eq_some_iff.mp hrun
    exact ih (fun b hb => hactions b (List.mem_cons_of_mem a hb))
      (hstep s a u hs (hactions a List.mem_cons_self) hu) hrest

/-- A run of steps of the system stays among its reachable states. -/
theorem Reachable.runSteps {M : TSys S A} (actions : List A)
    (hf : ∀ a ∈ actions, ∀ s t, f s a = some t → M.step s a t) {s t : S} (hs : M.Reachable s)
    (hrun : TSys.runSteps f s actions = some t) : M.Reachable t := by
  induction actions generalizing s with
  | nil => exact Option.some.inj hrun ▸ hs
  | cons a rest ih =>
    obtain ⟨u, hstep, hrest⟩ := Option.bind_eq_some_iff.mp hrun
    exact ih (fun b hb => hf b (List.mem_cons_of_mem a hb))
      (.step hs (hf a List.mem_cons_self s u hstep)) hrest

end TSys

end Concordia.Lib
