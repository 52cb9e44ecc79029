import Mathlib

/-!
# Traces of systems with silent steps

A step shows an event or is silent. `Lts.Emits` is a run with the events it shows,
`Lts.Traces` what a state can show. `StutterBisim` is a relation that holds again
after matching steps, possibly with silent ones on the right before it holds; it
makes the traces of related states equal (`StutterBisim.traces_eq`). The right side
must not have a choice where it can be silent.
-/

namespace Concordia.Lib

/-- Steps, silent (`none`) or showing an event. -/
structure Lts (S E : Type) where
  step : S → Option E → S → Prop

namespace Lts

variable {S T E : Type}

/-- A run and the events it shows. -/
inductive Emits (M : Lts S E) : S → List E → S → Prop
  | refl (s) : Emits M s [] s
  | silent {s t u es} : M.step s none t → Emits M t es u → Emits M s es u
  | visible {s t u e es} : M.step s (some e) t → Emits M t es u → Emits M s (e :: es) u

/-- What a state can show. -/
def Traces (M : Lts S E) (s : S) : Set (List E) := {es | ∃ t, M.Emits s es t}

variable {s : S} {es : List E}

theorem Emits.trans {M : Lts S E} {t u : S} {es' : List E} (h : M.Emits s es t)
    (h' : M.Emits t es' u) : M.Emits s (es ++ es') u := by
  induction h with
  | refl => exact h'
  | silent hstep _ ih => exact .silent hstep (ih h')
  | visible hstep _ ih => exact .visible hstep (ih h')

theorem Emits.single {M : Lts S E} {t : S} {a : Option E} (h : M.step s a t) :
    M.Emits s a.toList t := by
  cases a with
  | none => exact .silent h (.refl t)
  | some e => exact .visible h (.refl t)

/-- A state that can be silent can do nothing else. -/
def SilentDet (M : Lts S E) : Prop :=
  ∀ s t a u, M.step s none t → M.step s a u → a = none ∧ u = t

/-- `H` holds after some silent steps on the right. -/
def Soon (N : Lts T E) (H : S → T → Prop) (s : S) (t : T) : Prop := ∃ t', N.Emits t [] t' ∧ H s t'

variable {t : T}

theorem Soon.now {N : Lts T E} {H : S → T → Prop} (h : H s t) : N.Soon H s t :=
  ⟨t, .refl t, h⟩

variable {t' : T}

theorem Soon.silent {N : Lts T E} {H : S → T → Prop} (hstep : N.step t none t')
    (h : N.Soon H s t') :
    N.Soon H s t := by
  obtain ⟨u, hemits, hu⟩ := h
  exact ⟨u, .silent hstep hemits, hu⟩

/-- Steps of related states match, up to silent steps on the right. -/
structure StutterBisim (M : Lts S E) (N : Lts T E) (H : S → T → Prop) : Prop where
  det : N.SilentDet
  forth : ∀ {s t a s'}, H s t → M.step s a s' → ∃ t', N.Emits t a.toList t' ∧ N.Soon H s' t'
  back : ∀ {s t a t'}, H s t → N.step t a t' →
    (a = none ∧ N.Soon H s t') ∨ ∃ s', M.step s a s' ∧ N.Soon H s' t'

namespace StutterBisim

variable {M : Lts S E} {N : Lts T E} {H : S → T → Prop}

theorem emits_right (h : StutterBisim M N H) {s' : S} (hrun : M.Emits s es s')
    (hst : N.Soon H s t) :
    ∃ t', N.Emits t es t' := by
  induction hrun generalizing t with
  | refl => exact ⟨t, .refl t⟩
  | silent hstep _ ih =>
    obtain ⟨t₀, hquiet, hH⟩ := hst
    obtain ⟨t₁, hmatch, hnext⟩ := h.forth hH hstep
    obtain ⟨t₂, hrest⟩ := ih hnext
    exact ⟨t₂, hquiet.trans (hmatch.trans hrest)⟩
  | visible hstep _ ih =>
    obtain ⟨t₀, hquiet, hH⟩ := hst
    obtain ⟨t₁, hmatch, hnext⟩ := h.forth hH hstep
    obtain ⟨t₂, hrest⟩ := ih hnext
    exact ⟨t₂, hquiet.trans (hmatch.trans hrest)⟩

/-- A step on the right is silent and towards `H`, or it is matched. -/
theorem step_left (h : StutterBisim M N H) {a : Option E} (hst : N.Soon H s t)
    (hstep : N.step t a t') :
    (a = none ∧ N.Soon H s t') ∨ ∃ s', M.step s a s' ∧ N.Soon H s' t' := by
  obtain ⟨t₀, hquiet, hH⟩ := hst
  cases hquiet with
  | refl => exact h.back hH hstep
  | silent hfirst hrest =>
    obtain ⟨rfl, rfl⟩ := h.det _ _ _ _ hfirst hstep
    exact .inl ⟨rfl, t₀, hrest, hH⟩

theorem emits_left (h : StutterBisim M N H) (hrun : N.Emits t es t') (hst : N.Soon H s t) :
    ∃ s', M.Emits s es s' := by
  induction hrun generalizing s with
  | refl => exact ⟨s, .refl s⟩
  | silent hstep _ ih =>
    rcases h.step_left hst hstep with ⟨_, hnext⟩ | ⟨s₁, hmatch, hnext⟩
    · exact ih hnext
    · obtain ⟨s₂, hrest⟩ := ih hnext
      exact ⟨s₂, .silent hmatch hrest⟩
  | visible hstep _ ih =>
    rcases h.step_left hst hstep with ⟨habsurd, _⟩ | ⟨s₁, hmatch, hnext⟩
    · cases habsurd
    · obtain ⟨s₂, hrest⟩ := ih hnext
      exact ⟨s₂, .visible hmatch hrest⟩

/-- Related states show the same. -/
theorem traces_eq (h : StutterBisim M N H) (hst : N.Soon H s t) : M.Traces s = N.Traces t := by
  ext es
  constructor
  · rintro ⟨s', hrun⟩
    exact h.emits_right hrun hst
  · rintro ⟨t', hrun⟩
    exact h.emits_left hrun hst

end StutterBisim

end Lts

end Concordia.Lib
