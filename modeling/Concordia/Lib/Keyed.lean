import Mathlib

/-!
# Lists of keyed entries

`updateFirst key k f` replaces the first entry whose key is `k` by its image
under `f`: the `iter_mut().find(..)` idiom. When `f` keeps the key, keys and
lookups of the other entries are untouched.

With distinct keys the order does not matter: up to permutation every operation
is about the entry at a key and the `others`.
-/

namespace Concordia.Lib

open List Function

variable {α κ : Type} [DecidableEq κ]

/-- The first entry with key `k`. -/
def lookup (key : α → κ) (k : κ) (l : List α) : Option α := l.find? fun x => key x = k

/-- Replace the first entry with key `k` by its image under `f`. -/
def updateFirst (key : α → κ) (k : κ) (f : α → α) : List α → List α
  | [] => []
  | x :: l => if key x = k then f x :: l else x :: updateFirst key k f l

/-- Replace the first entry with the key of `x` by `x`, or push `x`. -/
def upsert (key : α → κ) (x : α) (l : List α) : List α :=
  if (lookup key (key x) l).isSome then updateFirst key (key x) (fun _ => x) l else l ++ [x]

/-- The entries with another key. -/
def others (key : α → κ) (k : κ) (l : List α) : List α := l.filter fun x => key x ≠ k

theorem lookup_cons (key : α → κ) (k : κ) (x : α) (l : List α) :
    lookup key k (x :: l) = if key x = k then some x else lookup key k l := by
  by_cases h : key x = k <;> simp [lookup, h]

variable {k : κ} {l : List α}

theorem key_of_lookup {key : α → κ} {x : α} (h : lookup key k l = some x) : key x = k := by
  simpa using find?_some h

theorem mem_of_lookup {key : α → κ} {x : α} (h : lookup key k l = some x) : x ∈ l :=
  mem_of_find?_eq_some h

/-- With distinct keys, an entry is what its key looks up. -/
theorem lookup_of_mem {key : α → κ} (hnd : (l.map key).Nodup) {x : α} (hx : x ∈ l) :
    lookup key (key x) l = some x := by
  induction l with
  | nil => cases hx
  | cons y l ih =>
    rw [map_cons, nodup_cons] at hnd
    rw [lookup_cons]
    rcases mem_cons.mp hx with rfl | hmem
    · rw [if_pos rfl]
    · have hne : key y ≠ key x := fun he => hnd.1 (he ▸ mem_map_of_mem hmem)
      rw [if_neg hne, ih hnd.2 hmem]

variable {β : Type} {f : α → α} {g : α → β}

section

variable {key : α → κ}

/-- What the update keeps of the entry it finds, it keeps of the list. -/
theorem map_updateFirst_of_lookup (hg : ∀ x, lookup key k l = some x → g (f x) = g x) :
    (updateFirst key k f l).map g = l.map g := by
  induction l with
  | nil => rfl
  | cons x l ih =>
    rw [updateFirst]
    split
    · rename_i hk
      rw [map_cons, map_cons, hg x (by rw [lookup_cons, if_pos hk])]
    · rename_i hk
      rw [map_cons, map_cons, ih fun y hy => hg y (by rw [lookup_cons, if_neg hk, hy])]

/-- An update that keeps the entry it finds keeps the list. -/
theorem updateFirst_self (hf : ∀ x, lookup key k l = some x → f x = x) :
    updateFirst key k f l = l := by
  have h := map_updateFirst_of_lookup (g := id) hf
  rwa [map_id, map_id] at h

theorem map_updateFirst (k : κ) (hg : ∀ x, g (f x) = g x) (l : List α) :
    (updateFirst key k f l).map g = l.map g :=
  map_updateFirst_of_lookup fun x _ => hg x

/-- If the update keeps its key, that key finds the image afterwards, and the others find
what they found. -/
theorem lookup_updateFirst_eq (hf : ∀ x, key x = k → key (f x) = k) (k' : κ) (l : List α) :
    lookup key k' (updateFirst key k f l) =
      if k' = k then (lookup key k l).map f else lookup key k' l := by
  induction l with
  | nil => split <;> rfl
  | cons x l ih =>
    rw [updateFirst, lookup_cons key k, lookup_cons key k' x l]
    by_cases hx : key x = k
    · rw [if_pos hx, if_pos hx, lookup_cons, hf x hx, hx, Option.map_some]
      by_cases hk : k' = k
      · rw [if_pos hk, if_pos hk.symm]
      · rw [if_neg hk, if_neg (Ne.symm hk), if_neg (Ne.symm hk)]
    · rw [if_neg hx, if_neg hx, lookup_cons, ih]
      by_cases hk : k' = k
      · rw [hk, if_neg hx, if_pos rfl, if_pos rfl]
      · rw [if_neg hk, if_neg hk]

theorem lookup_updateFirst (k : κ) (hf : ∀ x, key (f x) = key x) (l : List α) :
    lookup key k (updateFirst key k f l) = (lookup key k l).map f :=
  (lookup_updateFirst_eq (fun x hx => (hf x).trans hx) k l).trans (if_pos rfl)

theorem lookup_updateFirst_of_ne {k' : κ} (hk : k' ≠ k) (hf : ∀ x, key (f x) = key x) (l : List α) :
    lookup key k' (updateFirst key k f l) = lookup key k' l :=
  (lookup_updateFirst_eq (fun x hx => (hf x).trans hx) k' l).trans (if_neg hk)

/-- An entry after the update is an old one, or the image of the entry that was
looked up. -/
theorem mem_or_of_mem_updateFirst {x : α} (hx : x ∈ updateFirst key k f l) :
    x ∈ l ∨ ∃ y, lookup key k l = some y ∧ x = f y := by
  induction l with
  | nil => cases hx
  | cons y l ih =>
    rw [updateFirst] at hx
    rw [lookup_cons]
    split at hx
    · rename_i hk
      rcases mem_cons.mp hx with rfl | hmem
      · exact .inr ⟨y, by rw [if_pos hk], rfl⟩
      · exact .inl (mem_cons_of_mem y hmem)
    · rename_i hk
      rw [if_neg hk]
      rcases mem_cons.mp hx with rfl | hmem
      · exact .inl mem_cons_self
      · exact (ih hmem).imp_left (mem_cons_of_mem y)

theorem mem_or_of_mem_upsert {x y : α} (hx : x ∈ upsert key y l) : x ∈ l ∨ x = y := by
  unfold upsert at hx
  split at hx
  · exact (mem_or_of_mem_updateFirst hx).imp_right fun ⟨_, _, h⟩ => h
  · simpa using hx

end

/-! ## Up to permutation -/

section Others

variable {key : α → κ} {k : κ} {l : List α} {x : α}

theorem mem_others : x ∈ others key k l ↔ x ∈ l ∧ key x ≠ k := by
  simp [others]

theorem others_of_not_mem (h : k ∉ l.map key) : others key k l = l := by
  rw [others, filter_eq_self]
  intro x hx
  have hne : key x ≠ k := fun he => h (he ▸ mem_map_of_mem hx)
  simpa using hne

theorem not_mem_map_of_lookup (h : lookup key k l = none) : k ∉ l.map key := by
  intro hmem
  obtain ⟨x, hx, rfl⟩ := mem_map.mp hmem
  simpa using find?_eq_none.mp h x hx

/-- A new key is appended. -/
theorem upsert_of_not_mem (h : key x ∉ l.map key) : upsert key x l = l ++ [x] := by
  have hnone : lookup key (key x) l = none := by
    rw [lookup, find?_eq_none]
    intro y hy heq
    exact h (of_decide_eq_true heq ▸ mem_map_of_mem hy)
  simp [upsert, hnone]

theorem others_cons_of_ne {y : α} (h : key y ≠ k) :
    others key k (y :: l) = y :: others key k l := by
  simp [others, h]

theorem others_cons_self (y : α) : others key (key y) (y :: l) = others key (key y) l := by
  simp [others]

theorem lookup_others (k' : κ) :
    lookup key k' (others key k l) = if k' = k then none else lookup key k' l := by
  unfold lookup others
  rw [find?_filter]
  split
  · rename_i hk
    rw [find?_eq_none]
    intro x _
    simp [hk]
  · rename_i hk
    congr 1
    funext x
    by_cases hx : key x = k'
    · simp [hx, hk]
    · simp [hx]

/-- After an upsert its key finds the new entry, any other key what it found before. -/
theorem lookup_upsert (k : κ) :
    lookup key k (upsert key x l) = if key x = k then some x else lookup key k l := by
  unfold upsert
  split
  · rename_i hsome
    obtain ⟨y, hy⟩ := Option.isSome_iff_exists.mp hsome
    rw [lookup_updateFirst_eq (fun _ _ => rfl), hy]
    exact if_congr eq_comm rfl rfl
  · rename_i hnone
    have hnone : lookup key (key x) l = none := by simpa using hnone
    rw [lookup, find?_append]
    by_cases hk : key x = k
    · subst hk
      show (lookup key (key x) l).or _ = _
      simp [hnone]
    · simp [hk, lookup]

theorem nodup_others (hnd : (l.map key).Nodup) : ((others key k l).map key).Nodup :=
  (filter_sublist.map key).nodup hnd

/-- Replacing the entry at a key leaves the others. -/
theorem updateFirst_perm (hnd : (l.map key).Nodup) (h : lookup key k l = some x) (f : α → α) :
    (updateFirst key k f l).Perm (f x :: others key k l) := by
  induction l with
  | nil => cases h
  | cons y l ih =>
    rw [map_cons, nodup_cons] at hnd
    rw [lookup_cons] at h
    rw [updateFirst]
    split at h
    · rename_i hk
      obtain rfl := Option.some.inj h
      subst hk
      rw [if_pos rfl, others_cons_self, others_of_not_mem hnd.1]
    · rename_i hk
      rw [if_neg hk, others_cons_of_ne hk]
      exact ((ih hnd.2 h).cons y).trans (List.Perm.swap _ _ _)

theorem perm_of_lookup (hnd : (l.map key).Nodup) (h : lookup key k l = some x) :
    l.Perm (x :: others key k l) := by
  have hid : updateFirst key k id l = l := updateFirst_self fun _ _ => rfl
  have hperm := updateFirst_perm hnd h id
  rwa [hid] at hperm

/-- With distinct keys, an entry after the update is an old entry with another key,
or the image of the entry that was looked up. -/
theorem mem_updateFirst (hnd : (l.map key).Nodup) (hx : x ∈ updateFirst key k f l) :
    (x ∈ l ∧ key x ≠ k) ∨ ∃ y, lookup key k l = some y ∧ x = f y := by
  cases h : lookup key k l with
  | none =>
    rw [updateFirst_self (by simp [h])] at hx
    exact .inl ⟨hx, fun he => not_mem_map_of_lookup h (he ▸ mem_map_of_mem hx)⟩
  | some y =>
    rcases mem_cons.mp ((updateFirst_perm hnd h f).mem_iff.mp hx) with rfl | hx
    · exact .inr ⟨y, rfl, rfl⟩
    · exact .inl (mem_others.mp hx)

theorem upsert_perm (hnd : (l.map key).Nodup) (x : α) :
    (upsert key x l).Perm (x :: others key (key x) l) := by
  unfold upsert
  split
  · rename_i hsome
    obtain ⟨y, hy⟩ := Option.isSome_iff_exists.mp hsome
    exact updateFirst_perm hnd hy fun _ => x
  · rename_i hnone
    rw [others_of_not_mem (not_mem_map_of_lookup (by simpa using hnone))]
    exact perm_append_singleton x l

/-- A map that keeps the keys keeps the others. -/
theorem map_others {key' : β → κ} (hg : ∀ x, key' (g x) = key x) :
    (others key k l).map g = others key' k (l.map g) := by
  rw [others, others, filter_map]
  congr 1
  apply filter_congr
  intro x _
  simp [hg]

theorem nodup_cons_others (hnd : (l.map key).Nodup) (x : α) :
    ((x :: others key (key x) l).map key).Nodup := by
  rw [map_cons, nodup_cons]
  refine ⟨?_, (filter_sublist.map key).nodup hnd⟩
  intro hmem
  obtain ⟨y, hy, heq⟩ := mem_map.mp hmem
  exact (mem_others.mp hy).2 heq

theorem nodup_upsert (hnd : (l.map key).Nodup) (x : α) : ((upsert key x l).map key).Nodup :=
  ((upsert_perm hnd x).map key).nodup_iff.mpr (nodup_cons_others hnd x)

end Others

/-! ## Partial maps -/

variable {a : α}

/-- What is in an updated map is the new entry, or was there. -/
theorem update_eq_some [DecidableEq α] {f : α → Option β} {x : α} {b c : β}
    (h : update f a (some b) x = some c) : (x = a ∧ c = b) ∨ (x ≠ a ∧ f x = some c) := by
  by_cases hx : x = a
  · subst hx
    rw [update_self] at h
    exact .inl ⟨rfl, (Option.some.inj h).symm⟩
  · rw [update_of_ne hx] at h
    exact .inr ⟨hx, h⟩

/-- What holds of the new entry and of all others holds of the updated map. -/
theorem forall_update [DecidableEq α] {f : α → Option β} {b : β} {P : α → β → Prop} (hnew : P a b)
    (hold : ∀ x c, f x = some c → P x c) (x : α) (c : β) (h : update f a (some b) x = some c) :
    P x c := by
  rcases update_eq_some h with ⟨rfl, rfl⟩ | ⟨_, h⟩
  · exact hnew
  · exact hold x c h

/-- Updates elsewhere do not show in a list. -/
theorem filterMap_update_of_not_mem [DecidableEq α] {f : α → Option β} (ha : a ∉ l) (b : Option β) :
    l.filterMap (update f a b) = l.filterMap f :=
  filterMap_congr fun x hx =>
    update_of_ne (fun (heq : x = a) => ha (heq ▸ hx)) b f

/-- A new entry of the map adds one element to the list of entries. -/
theorem filterMap_update_perm [DecidableEq α] {f : α → Option β} (hnd : l.Nodup) (ha : a ∈ l)
    (hf : f a = none) (b : β) :
    (l.filterMap (update f a (some b))).Perm (b :: l.filterMap f) := by
  induction l with
  | nil => cases ha
  | cons x l ih =>
    rw [nodup_cons] at hnd
    by_cases hx : x = a
    · subst hx
      rw [filterMap_cons_some (update_self x (some b) f), filterMap_cons_none hf,
        filterMap_update_of_not_mem hnd.1]
    · have hmem : a ∈ l := (mem_cons.mp ha).resolve_left fun heq => hx heq.symm
      have hperm := ih hnd.2 hmem
      cases hfx : f x with
      | none =>
        rwa [filterMap_cons_none ((update_of_ne hx _ f).trans hfx),
          filterMap_cons_none hfx]
      | some c =>
        rw [filterMap_cons_some ((update_of_ne hx _ f).trans hfx),
          filterMap_cons_some hfx]
        exact (hperm.cons c).trans (List.Perm.swap b c _)

end Concordia.Lib
