import Mathlib

/-!
# Maps as functions

A map from keys to values is a function into `Option`. After a list of inserts a key
has the value of the last one for it (`foldl_insert`). A map to lists, in which values are
pushed, has all of them (`foldl_pushAt`).
-/

namespace Concordia.Lib

open List Function

variable {α κ β : Type} [DecidableEq κ]

def lastWith (key : α → κ) (k : κ) (l : List α) : Option α := l.reverse.find? (key · = k)

theorem lastWith_append (key : α → κ) (k : κ) (l m : List α) :
    lastWith key k (l ++ m) = (lastWith key k m).or (lastWith key k l) := by
  rw [lastWith, reverse_append, find?_append]
  rfl

theorem lastWith_concat (key : α → κ) (k : κ) (l : List α) (a : α) :
    lastWith key k (l ++ [a]) = if key a = k then some a else lastWith key k l := by
  rw [lastWith_append]
  by_cases h : key a = k
  · simp [lastWith, h]
  · simp [lastWith, h]

variable {k : κ} {l : List α} {a : α} {key : α → κ}

theorem key_of_lastWith (h : lastWith key k l = some a) : key a = k := by
  simpa using find?_some h

theorem mem_of_lastWith (h : lastWith key k l = some a) :
    a ∈ l := mem_reverse.mp (mem_of_find?_eq_some h)

theorem lastWith_eq_none_iff : lastWith key k l = none ↔ ∀ a ∈ l, key a ≠ k := by
  simp [lastWith, find?_eq_none]

theorem lastWith_isSome_iff : (lastWith key k l).isSome = true ↔ ∃ a ∈ l, key a = k := by
  rw [← Option.ne_none_iff_isSome, ne_eq, lastWith_eq_none_iff]
  push Not
  rfl

theorem lastWith_map (key : β → κ) (f : α → β) (k : κ) (l : List α) :
    lastWith key k (l.map f) = (lastWith (fun a => key (f a)) k l).map f := by
  rw [lastWith, ← map_reverse, find?_map]
  rfl

/-- Only which elements have the key matters. -/
theorem lastWith_congr {κ' : Type} [DecidableEq κ'] {key' : α → κ'} {k' : κ'}
    (h : ∀ a ∈ l, key a = k ↔ key' a = k') : lastWith key k l = lastWith key' k' l := by
  have hsame : ∀ a ∈ l.reverse, decide (key a = k) = decide (key' a = k') := by
    intro a ha
    exact decide_eq_decide.mpr (h a (mem_reverse.mp ha))
  unfold lastWith
  generalize l.reverse = reversed at hsame ⊢
  induction reversed with
  | nil => rfl
  | cons a m ih =>
    rw [find?_cons, find?_cons, hsame a mem_cons_self,
      ih fun b hb => hsame b (mem_cons_of_mem a hb)]

/-- With distinct keys an element is the last with its own. -/
theorem lastWith_of_nodup (hnodup : (l.map key).Nodup) (ha : a ∈ l) :
    lastWith key (key a) l = some a := by
  cases h : lastWith key (key a) l with
  | none => exact absurd rfl (lastWith_eq_none_iff.mp h a ha)
  | some b =>
    exact congrArg some
      (inj_on_of_nodup_map hnodup (mem_of_lastWith h) ha (key_of_lastWith h))

/-- **Inserts.** -/
theorem foldl_insert (key : α → κ) (value : α → β) (l : List α) (f : κ → Option β) (k : κ) :
    (l.foldl (fun f a => update f (key a) (some (value a))) f) k =
      ((lastWith key k l).map value).or (f k) := by
  induction l using List.reverseRecOn with
  | nil => rfl
  | append_singleton l a ih =>
    rw [foldl_append, foldl_cons, foldl_nil, lastWith_concat]
    by_cases h : key a = k
    · rw [if_pos h, ← h, update_self]
      rfl
    · rw [if_neg h, update_of_ne (Ne.symm h), ih]

/-- `entry(k).or_insert_with(Vec::new).push(v)`. -/
def pushAt (f : κ → Option (List β)) (k : κ) (v : β) : κ → Option (List β) :=
  update f k (some ((f k).getD [] ++ [v]))

/-- **Pushes.** -/
theorem foldl_pushAt (key : α → κ) (value : α → β) (l : List α) (f : κ → Option (List β)) (k : κ) :
    ((l.foldl (fun f a => pushAt f (key a) (value a)) f) k).getD [] =
      (f k).getD [] ++ (l.filter (key · = k)).map value := by
  induction l generalizing f with
  | nil => simp
  | cons a l ih =>
    rw [foldl_cons, ih, pushAt]
    by_cases h : key a = k
    · rw [h, update_self, filter_cons_of_pos (by simpa using h)]
      simp
    · rw [update_of_ne (Ne.symm h), filter_cons_of_neg (by simpa using h)]

end Concordia.Lib
