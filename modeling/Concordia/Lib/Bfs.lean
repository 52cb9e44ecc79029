import Mathlib

/-!
# Searching a graph

A `Search` finds the nodes that can be reached. `breadthFirst` is one: it opens the nodes of
a queue and appends to it what they lead to and what was not discovered before.
-/

namespace Concordia.Lib

open List

/-- A search: from a list of edges and a start, the nodes that can be reached. -/
structure Search (ν : Type) where
  find : List (ν × ν) → ν → List ν
  mem_find : ∀ {edges start n},
    n ∈ find edges start ↔ Relation.ReflTransGen (fun a b => (a, b) ∈ edges) start n

variable {ν : Type} [DecidableEq ν]

/-- The nodes that this one has an edge to. -/
def outgoing (edges : List (ν × ν)) (n : ν) : List ν := (edges.filter (·.1 = n)).map Prod.snd

variable {edges : List (ν × ν)}

theorem mem_outgoing {n m : ν} : m ∈ outgoing edges n ↔ (n, m) ∈ edges := by
  simp [outgoing]

/-- The nodes with an edge to this one. -/
def incoming (edges : List (ν × ν)) (n : ν) : List ν := (edges.filter (·.2 = n)).map Prod.fst

theorem mem_incoming {n m : ν} : m ∈ incoming edges n ↔ (m, n) ∈ edges := by
  simp [incoming]

/-- The edges into what was not seen yet. -/
def ahead (edges : List (ν × ν)) (visited : List ν) : Nat := edges.countP (·.2 ∉ visited)

/-- Opening a node takes the edges into it. -/
theorem ahead_cons {visited : List ν} {n : ν} (hn : n ∉ visited) :
    ahead edges (n :: visited) + (incoming edges n).length = ahead edges visited := by
  induction edges with
  | nil => rfl
  | cons e edges ih =>
    simp only [ahead, incoming, countP_cons, filter_cons, length_map] at ih ⊢
    by_cases he : e.2 = n
    · have hv : e.2 ∉ visited := he ▸ hn
      simp [he, hn] at ih ⊢
      omega
    · by_cases hv : e.2 ∈ visited
      · simp [he, hv] at ih ⊢
        omega
      · simp [he, hv] at ih ⊢
        omega

/-- A node is put on the queue the first time it is met. -/
def discover (state : List ν × List ν) (n : ν) : List ν × List ν :=
  if n ∈ state.1 then state else (n :: state.1, state.2 ++ [n])

/-- The loop, on the nodes discovered and the queue. -/
def bfs (edges : List (ν × ν)) : Nat → List ν × List ν → List ν
  | 0, state => state.1
  | _ + 1, (discovered, []) => discovered
  | fuel + 1, (discovered, n :: queue) =>
    bfs edges fuel ((outgoing edges n).foldl discover (discovered, queue))

/-- The nodes discovered from `start`. Each one but the first takes an edge, so the edges
bound the rounds. -/
def reached (edges : List (ν × ν)) (start : ν) : List ν :=
  bfs edges (edges.length + 2) ([start], [start])

/-- What is on the queue was discovered, and what is not has been opened. -/
structure Opened (edges : List (ν × ν)) (state : List ν × List ν) : Prop where
  queue : ∀ x ∈ state.2, x ∈ state.1
  opened : ∀ x ∈ state.1, x ∉ state.2 → ∀ y, (x, y) ∈ edges → y ∈ state.1

/-- Putting nodes on the queue: what was there stays, and they are all discovered. -/
theorem foldl_discover (l : List ν) (state : List ν × List ν) :
    (∀ x, x ∈ (l.foldl discover state).1 ↔ x ∈ state.1 ∨ x ∈ l) ∧
      (∀ x ∈ state.2, x ∈ (l.foldl discover state).2) ∧
      (∀ x ∈ (l.foldl discover state).1, x ∉ state.1 → x ∈ (l.foldl discover state).2) ∧
      ∀ x ∈ (l.foldl discover state).2, x ∈ state.2 ∨ x ∈ l := by
  induction l generalizing state with
  | nil => exact ⟨by simp, fun x hx => hx, fun x hx hnot => absurd hx hnot, fun x hx => .inl hx⟩
  | cons n l ih =>
    obtain ⟨hmem, hkeep, hnew, hqueue⟩ := ih (discover state n)
    rw [foldl_cons]
    by_cases hn : n ∈ state.1
    · have hsame : discover state n = state := if_pos hn
      rw [hsame] at hmem hkeep hnew hqueue ⊢
      refine ⟨fun x => ?_, hkeep, hnew, fun x hx => ?_⟩
      · rw [hmem, mem_cons]
        constructor
        · rintro (h | h)
          · exact .inl h
          · exact .inr (.inr h)
        · rintro (h | rfl | h)
          · exact .inl h
          · exact .inl hn
          · exact .inr h
      · exact (hqueue x hx).imp_right (mem_cons_of_mem n)
    · have hadd : discover state n = (n :: state.1, state.2 ++ [n]) := if_neg hn
      rw [hadd] at hmem hkeep hnew hqueue ⊢
      simp only [mem_cons, mem_append] at hmem hkeep hnew hqueue ⊢
      refine ⟨fun x => ?_, fun x hx => hkeep x (.inl hx), fun x hx hnot => ?_, fun x hx => ?_⟩
      · rw [hmem]
        tauto
      · by_cases hxn : x = n
        · exact hkeep x (.inr (.inl hxn))
        · exact hnew x hx (by tauto)
      · have := hqueue x hx
        tauto

/-- Each node put on the queue takes the edges into it. -/
theorem ahead_foldl_discover {l : List ν} (hl : ∀ n ∈ l, ∃ m, (m, n) ∈ edges)
    (state : List ν × List ν) :
    ahead edges (l.foldl discover state).1 + (l.foldl discover state).2.length ≤
      ahead edges state.1 + state.2.length := by
  induction l generalizing state with
  | nil => exact Nat.le_refl _
  | cons n l ih =>
    refine Nat.le_trans (ih (fun m hm => hl m (mem_cons_of_mem n hm)) (discover state n)) ?_
    unfold discover
    split
    · exact Nat.le_refl _
    · rename_i hn
      obtain ⟨m, hm⟩ := hl n mem_cons_self
      have hahead : ahead edges (n :: state.1) + (incoming edges n).length = ahead edges state.1 :=
        ahead_cons hn
      have hpos : 0 < (incoming edges n).length := length_pos_of_mem (mem_incoming.mpr hm)
      simp only [length_append, length_singleton]
      omega

theorem Opened.next {discovered queue : List ν} {n : ν}
    (h : Opened edges (discovered, n :: queue)) :
    Opened edges ((outgoing edges n).foldl discover (discovered, queue)) := by
  obtain ⟨hmem, hkeep, hnew, hqueue⟩ := foldl_discover (outgoing edges n) (discovered, queue)
  refine ⟨fun x hx => ?_, fun x hx hnot y hedge => ?_⟩
  · rcases hqueue x hx with hx | hx
    · exact (hmem x).mpr (.inl (h.queue x (mem_cons_of_mem n hx)))
    · exact (hmem x).mpr (.inr hx)
  · have hold : x ∈ discovered := by
      by_contra hx'
      exact hnot (hnew x hx hx')
    by_cases hxn : x = n
    · exact (hmem y).mpr (.inr (mem_outgoing.mpr (hxn ▸ hedge)))
    · have hout : x ∉ n :: queue := by
        intro hin
        rcases mem_cons.mp hin with rfl | hin
        · exact hxn rfl
        · exact hnot (hkeep x hin)
      exact (hmem y).mpr (.inl (h.opened x hold hout y hedge))

variable {state : List ν × List ν}

/-- With fuel for the edges ahead and the queue, the loop ends with a closed set. -/
theorem bfs_closed (fuel : Nat) (hopened : Opened edges state)
    (hfuel : ahead edges state.1 + state.2.length < fuel) :
    (∀ x ∈ state.1, x ∈ bfs edges fuel state) ∧
      ∀ x ∈ bfs edges fuel state, ∀ y, (x, y) ∈ edges → y ∈ bfs edges fuel state := by
  induction fuel generalizing state with
  | zero => omega
  | succ fuel ih =>
    obtain ⟨discovered, queue⟩ := state
    cases queue with
    | nil =>
      exact ⟨fun x hx => hx, fun x hx y hedge => hopened.opened x hx not_mem_nil y hedge⟩
    | cons n queue =>
      have htargets : ∀ m ∈ outgoing edges n, ∃ k, (k, m) ∈ edges :=
        fun m hm => ⟨n, mem_outgoing.mp hm⟩
      have hless := ahead_foldl_discover htargets (discovered, queue)
      have hnext := ih hopened.next (by
        simp only [length_cons] at hfuel hless ⊢
        omega)
      refine ⟨fun x hx => hnext.1 x ?_, hnext.2⟩
      exact ((foldl_discover (outgoing edges n) (discovered, queue)).1 x).mpr (.inl hx)

/-- Only nodes that can be reached are discovered. -/
theorem bfs_sound {P : ν → Prop} (hP : ∀ x y, P x → (x, y) ∈ edges → P y) (fuel : Nat)
    (hqueue : ∀ x ∈ state.2, P x) (h : ∀ x ∈ state.1, P x) : ∀ x ∈ bfs edges fuel state, P x := by
  induction fuel generalizing state with
  | zero => exact h
  | succ fuel ih =>
    obtain ⟨discovered, queue⟩ := state
    cases queue with
    | nil => exact h
    | cons n queue =>
      obtain ⟨hmem, -, -, hin⟩ := foldl_discover (outgoing edges n) (discovered, queue)
      have hout : ∀ x ∈ outgoing edges n, P x :=
        fun x hx => hP n x (hqueue n mem_cons_self) (mem_outgoing.mp hx)
      refine ih (fun x hx => ?_) (fun x hx => ?_)
      · rcases hin x hx with hx | hx
        · exact hqueue x (mem_cons_of_mem n hx)
        · exact hout x hx
      · rcases (hmem x).mp hx with hx | hx
        · exact h x hx
        · exact hout x hx

theorem mem_reached {start n : ν} :
    n ∈ reached edges start ↔ Relation.ReflTransGen (fun a b => (a, b) ∈ edges) start n := by
  constructor
  · intro h
    refine bfs_sound (P := Relation.ReflTransGen (fun a b => (a, b) ∈ edges) start)
      (fun x y hx hedge => hx.tail hedge) _ ?_ ?_ n h
    · intro x hx
      rw [mem_singleton.mp hx]
    · intro x hx
      rw [mem_singleton.mp hx]
  · intro h
    have hopened : Opened edges ([start], [start]) :=
      ⟨fun x hx => hx, fun x hx hnot => absurd hx hnot⟩
    have hfuel : ahead edges [start] + [start].length < edges.length + 2 := by
      have hahead : ahead edges [start] ≤ edges.length := countP_le_length
      simp only [length_singleton]
      omega
    obtain ⟨hstart, hclosed⟩ := bfs_closed (edges.length + 2) hopened hfuel
    induction h with
    | refl => exact hstart start (mem_singleton.mpr rfl)
    | tail _ hedge ih => exact hclosed _ ih _ hedge

/-- **Breadth-first search.** -/
def breadthFirst : Search ν := ⟨reached, mem_reached⟩

end Concordia.Lib
