import Mathlib

/-!
# Computations that fail and keep their state

`FallibleM S` is a state computation that may stop with an error message; what
it did to the state before stays done. `wp m Q E s` says that `m` from `s` ends
in `Q`, or stops with an error in `E`. It is computed from the program by one
equation per construct, and by an invariant for a loop (`wp_foldlM`).
-/

namespace Concordia.Lib

/-- State computations that may stop with an error message. -/
abbrev FallibleM (S : Type) := ExceptT String (StateM S)

namespace FallibleM

variable {S α β : Type}

/-- The result and the state a computation leaves. -/
def exec (m : FallibleM S α) (s : S) : Except String α × S := (ExceptT.run m).run s

/-- The result as a value: the computation around goes on after an error. -/
def result (m : FallibleM S α) : FallibleM S (Except String α) := ExceptT.mk fun s =>
  (.ok (m.exec s).1, (m.exec s).2)

/-- From `s` the computation ends in `Q`, or stops with an error in `E`. -/
def wp (m : FallibleM S α) (Q : α → S → Prop) (E : String → S → Prop) (s : S) : Prop :=
  match m.exec s with
  | (.ok a, t) => Q a t
  | (.error e, t) => E e t

variable {Q : α → S → Prop} {E : String → S → Prop} {s : S}

variable {m : FallibleM S α}

theorem wp_of_ok {a : α} {t : S} (h : wp m Q E s) (hexec : m.exec s = (.ok a, t)) : Q a t := by
  rwa [wp, hexec] at h

theorem wp_of_error {e : String} {t : S} (h : wp m Q E s) (hexec : m.exec s = (.error e, t)) :
    E e t := by
  rwa [wp, hexec] at h

/-- A computation that cannot fail ends. -/
theorem exists_ok_of_wp (h : wp m Q (fun _ _ => False) s) :
    ∃ a t, m.exec s = (.ok a, t) ∧ Q a t := by
  unfold wp at h
  split at h
  · exact ⟨_, _, by assumption, h⟩
  · exact h.elim

theorem exists_error_of_wp (h : wp m (fun _ _ => False) E s) :
    ∃ e t, m.exec s = (.error e, t) ∧ E e t := by
  unfold wp at h
  split at h
  · exact h.elim
  · exact ⟨_, _, by assumption, h⟩

theorem wp_mono {Q' : α → S → Prop} {E' : String → S → Prop} (h : wp m Q E s)
    (hQ : ∀ a t, Q a t → Q' a t) (hE : ∀ e t, E e t → E' e t) : wp m Q' E' s := by
  unfold wp at h ⊢
  split at h
  · exact hQ _ _ h
  · exact hE _ _ h

@[simp] theorem wp_pure (a : α) : wp (pure a : FallibleM S α) Q E s ↔ Q a s := Iff.rfl

@[simp] theorem wp_throw (e : String) : wp (throw e : FallibleM S α) Q E s ↔ E e s := Iff.rfl

@[simp] theorem wp_get {Q : S → S → Prop} : wp (get : FallibleM S S) Q E s ↔ Q s s := Iff.rfl

@[simp] theorem wp_modify {Q : PUnit → S → Prop} (f : S → S) :
    wp (modify f : FallibleM S PUnit) Q E s ↔ Q ⟨⟩ (f s) := Iff.rfl

@[simp] theorem wp_bind {k : α → FallibleM S β} {Q : β → S → Prop} :
    wp (m >>= k) Q E s ↔ wp m (fun a t => wp (k a) Q E t) E s := by
  have hrun : (m >>= k).exec s = match m.exec s with
      | (.ok a, t) => (k a).exec t
      | (.error e, t) => (.error e, t) := by
    simp only [exec, ExceptT.run_bind, StateT.run_bind]
    cases (ExceptT.run m).run s with
    | mk result t => cases result <;> rfl
  unfold wp
  rw [hrun]
  cases m.exec s with
  | mk result t => cases result <;> rfl

@[simp] theorem wp_result {Q : Except String α → S → Prop} :
    wp m.result Q E s ↔ wp m (fun a t => Q (.ok a) t) (fun e t => Q (.error e) t) s := by
  show Q (m.exec s).1 (m.exec s).2 ↔ _
  unfold wp
  split
  · rename_i h
    rw [h]
  · rename_i h
    rw [h]

/-- A loop with an accumulator keeps an invariant of the part done so far. -/
theorem wp_foldlM {step : β → α → FallibleM S β} (Inv : List α → β → S → Prop)
    {E : String → S → Prop} {Q : β → S → Prop} (items : List α) {b : β} {s : S}
    (hstep : ∀ done a rest b s, items = done ++ a :: rest → Inv done b s →
      wp (step b a) (fun b' t => Inv (done ++ [a]) b' t) E s)
    (hinit : Inv [] b s) (hdone : ∀ b t, Inv items b t → Q b t) :
    wp (items.foldlM step b) Q E s := by
  have hloop : ∀ rest done b s, items = done ++ rest → Inv done b s →
      wp (rest.foldlM step b) Q E s := by
    intro rest
    induction rest with
    | nil =>
      intro done b s hitems hinv
      rw [List.append_nil] at hitems
      exact hdone b s (hitems ▸ hinv)
    | cons a rest ih =>
      intro done b s hitems hinv
      rw [List.foldlM_cons, wp_bind]
      refine wp_mono (hstep done a rest b s hitems hinv) ?_ (fun _ _ h => h)
      intro b' t hinv'
      exact ih (done ++ [a]) b' t (by simp [hitems]) hinv'
  exact hloop items [] b s rfl hinit

end FallibleM

/-! ## Without a state -/

/-- A sequence ends when both parts do. -/
theorem except_bind_eq_ok_iff {ε α β : Type} {x : Except ε α} {f : α → Except ε β} {b : β} :
    (x >>= f) = .ok b ↔ ∃ a, x = .ok a ∧ f a = .ok b := by
  cases x with
  | error e => simp [bind, Except.bind]
  | ok a => simp [bind, Except.bind]

end Concordia.Lib
