import Concordia.Ptx.NormalForm

/-!
# Normalisation keeps the program

The body that comes out runs like the one that went in: at every point it is, up to
silent steps over separators, in front of the same statement (`Matched`). Together
with the normal form this holds exactly for the bodies that start well
(`normalize_iff`).
-/

namespace Concordia.Ptx

open Concordia.Lib List Statement Exec

variable {α : Type}

/-! ## Bodies that do not start well -/

variable {l : Nat} {xs : List (Statement α)} {rest : List (Statement α)}

section

variable {currentId : Nat} {first : Statement α} {tail : List (Statement α)} {isKernel : Bool}

/-- The loop starts with the first statement of the tail, or with a jump to it. -/
theorem head_blocks_not (id : Nat) (x : Statement α) (xs : List (Statement α)) :
    ∃ y rest, blocks .not id (x :: xs) = y :: rest ∧ y.isLabel = false := by
  cases hx : x.isLabel with
  | true =>
    obtain ⟨l, rfl⟩ := exists_of_isLabel hx
    exact ⟨_, _, rfl, rfl⟩
  | false => exact ⟨_, _, blocks_not id xs hx, hx⟩

theorem not_isLabel_of_normalForm (hform : WellFormed currentId (first :: tail))
    (hnormal : NormalForm isKernel (normalized isKernel currentId first tail)) :
    first.isLabel = false := by
  cases hfirst : first.isLabel with
  | false => rfl
  | true =>
    obtain ⟨l, rfl⟩ := exists_of_isLabel hfirst
    obtain ⟨x, xs, rfl⟩ := exists_cons_of_ne_nil (hform.toEnds.ne_nil rfl)
    obtain ⟨y, rest, hblocks, hy⟩ := head_blocks_not currentId x xs
    obtain ⟨l', rest', hstarts⟩ := hnormal.starts
    -- the label is dropped, and what comes next does not start with one
    simp only [normalized, startId, opening, hblocks, nil_append, map_cons,
      cons_append, List.cons.injEq] at hstarts
    have := isLabel_mergeReturn (merge isKernel currentId (x :: xs)) y
    rw [hstarts.1, hy] at this
    cases this

theorem tail_eq_nil_of_normalForm (hfirst : first.isLabel = false)
    (hnormal : NormalForm isKernel (normalized isKernel currentId first tail))
    (hterminator : first.isTerminator = true) : tail = [] := by
  cases tail with
  | nil => rfl
  | cons x xs =>
    obtain ⟨y, rest, hblocks, hy⟩ := head_blocks_not (currentId + 1) x xs
    have hout := normalized_of_not_isLabel isKernel currentId (x :: xs) hfirst
    rw [hblocks] at hout
    have hnext := hnormal.label_next [.label currentId] first _ _ hout hterminator
    rw [isLabel_mergeReturn, hy] at hnext
    cases hnext

/-- The label after a jump is the one that follows in the body, or a new one. -/
theorem label_after_jump {id : Nat} {merge : Option Nat}
    (h : (blocks .real id xs).map (mergeReturn merge) ++ mergedBlock merge = .label l :: rest) :
    (∃ ys, xs = .label l :: ys) ∨ (l = id ∧ id < lastId .real id xs) ∨
      (xs = [] ∧ merge = some l) := by
  cases xs with
  | nil =>
    cases merge with
    | none => cases h
    | some retBb =>
      obtain rfl := label.inj (List.cons.inj h).1
      exact .inr (.inr ⟨rfl, rfl⟩)
  | cons y ys =>
    cases hy : y.isLabel with
    | true =>
      obtain ⟨l', rfl⟩ := exists_of_isLabel hy
      obtain rfl := label.inj ((mergeReturn_label merge l').symm.trans (List.cons.inj h).1)
      exact .inl ⟨ys, rfl⟩
    | false =>
      rw [blocks_real id ys hy] at h
      obtain rfl := label.inj ((mergeReturn_label merge id).symm.trans (List.cons.inj h).1)
      refine .inr (.inl ⟨rfl, ?_⟩)
      have hspent : (separators .real id y).2 = 1 := by
        cases y with
        | label l => cases hy
        | _ => rfl
      have hle := (lastId_bounds (isBlockTerminator y) (id + (separators .real id y).2) ys).1
      show id < lastId _ _ ys
      omega

theorem callStart_of_normalForm (hform : WellFormed currentId (first :: tail))
    (hfirst : first.isLabel = false)
    (hnormal : NormalForm isKernel (normalized isKernel currentId first tail))
    (hcall : first.isCall = true) : callStart tail = true := by
  obtain ⟨details, rfl⟩ : ∃ details, first = .call details := by
    cases first with
    | call details => exact ⟨details, rfl⟩
    | _ => cases hcall
  obtain ⟨x, xs, rfl⟩ := exists_cons_of_ne_nil (hform.toEnds.ne_nil rfl)
  have hout := normalized_of_not_isLabel isKernel currentId (x :: xs) hfirst
  obtain ⟨l, rest, hnext⟩ := hnormal.call_next [.label currentId] details _ hout
  cases hx : x.isLabel with
  | true =>
    obtain ⟨l', rfl⟩ := exists_of_isLabel hx
    rfl
  | false =>
    rw [blocks_not _ xs hx, map_cons, cons_append] at hnext
    obtain ⟨hhead, hafter⟩ := List.cons.inj hnext
    cases x with
    | bra l' =>
      -- a jump of the body: its label is registered, and no new one
      obtain rfl := bra.inj ((mergeReturn_bra _ l').symm.trans hhead)
      have hreg : l' < currentId :=
        hform.registered l' (hform.closed l' (by simp [Statement.targets]))
      rcases label_after_jump hafter with ⟨ys, rfl⟩ | ⟨rfl, _⟩ | ⟨rfl, hmerge⟩
      · exact decide_eq_true rfl
      · omega
      · have := eq_lastId_of_merge hmerge
        have := (lastId_bounds .not (currentId + 1) [bra (α := α) l']).1
        omega
    | ret uniform =>
      cases hmerge : merge isKernel (currentId + 1) (.ret uniform :: xs) with
      | none =>
        rw [hmerge] at hhead
        cases hhead
      | some retBb =>
        rw [hmerge] at hhead hafter
        obtain rfl := bra.inj hhead
        have hretBb := eq_lastId_of_merge hmerge
        rcases label_after_jump hafter with ⟨ys, rfl⟩ | ⟨rfl, hlt⟩ | ⟨rfl, _⟩
        · have hreg : retBb < currentId := hform.registered retBb (by simp [Statement.labels])
          have := (lastId_bounds .not (currentId + 1)
              (Statement.ret uniform :: .label retBb :: ys)).1
          omega
        · exact absurd hretBb (Nat.ne_of_lt hlt)
        · simp [merge, blocks, separators, isRet] at hmerge
    | _ =>
      rw [mergeReturn_of_not_isRet rfl] at hhead
      cases hhead

/-- Only bodies that start well come out in normal form. -/
theorem wellStarted_of_normalForm (hform : WellFormed currentId (first :: tail))
    (htail : ∀ x ∈ tail, x.isRetValue = false)
    (hnormal : NormalForm isKernel (normalized isKernel currentId first tail)) :
    WellStarted (first :: tail) := by
  have hfirst := not_isLabel_of_normalForm hform hnormal
  exact ⟨hfirst, tail_eq_nil_of_normalForm hfirst hnormal,
    callStart_of_normalForm hform hfirst hnormal, htail⟩

end

/-! ## Jumps -/

theorem labels_subset_of_suffix {l m : List (Statement α)} (h : l <:+ m) : labels l ⊆ labels m := by
  obtain ⟨before, rfl⟩ := h
  rw [labels_append]
  exact subset_append_right _ _

/-- With distinct labels there is one place to jump to. -/
theorem eq_of_label_suffix {body rest rest' : List (Statement α)} (hnd : (labels body).Nodup)
    (h : .label l :: rest <:+ body) (h' : .label l :: rest' <:+ body) : rest = rest' := by
  have hnot : ∀ {r r' : List (Statement α)}, .label l :: r' <:+ body → ¬ .label l :: r <:+ r' := by
    intro r r' hsuffix hinner
    obtain ⟨before, rfl⟩ := hsuffix
    rw [labels_append, labels_cons] at hnd
    have hdisjoint := (nodup_append'.mp (nodup_append'.mp hnd).2.1).2.2
    exact hdisjoint mem_cons_self (labels_subset_of_suffix hinner mem_cons_self)
  rcases suffix_or_suffix_of_suffix h h' with hsub | hsub
  · rcases suffix_cons_iff.mp hsub with heq | hinner
    · exact (List.cons.inj heq).2
    · exact absurd hinner (hnot h')
  · rcases suffix_cons_iff.mp hsub with heq | hinner
    · exact (List.cons.inj heq).2.symm
    · exact absurd hinner (hnot h)

/-- A defined label is somewhere. -/
theorem exists_label_suffix {body : List (Statement α)} (h : l ∈ labels body) :
    ∃ rest, .label l :: rest <:+ body := by
  induction body with
  | nil => cases h
  | cons x body ih =>
    rw [labels_cons, mem_append] at h
    rcases h with h | h
    · cases x with
      | label l' =>
        obtain rfl := mem_singleton.mp h
        exact ⟨body, suffix_refl _⟩
      | _ => cases h
    · obtain ⟨rest, hrest⟩ := ih h
      exact ⟨rest, hrest.trans (suffix_cons x body)⟩

theorem silentDet_machine {body : List (Statement α)} (hnd : (labels body).Nodup) :
    (machine body).SilentDet := by
  intro s t a u hsilent hstep
  cases hsilent with
  | label l rest =>
    cases hstep
    exact ⟨rfl, rfl⟩
  | bra rest' h =>
    cases hstep with
    | bra _ h' => exact ⟨rfl, by rw [eq_of_label_suffix hnd h h']⟩

/-! ## The simulation -/

/-- A part of the output. -/
def render (merge : Option Nat) (xs : List (Statement α)) : List (Statement α) :=
  xs.map (mergeReturn merge) ++ mergedBlock merge

theorem render_cons (merge : Option Nat) (x : Statement α) (xs : List (Statement α)) :
    render merge (x :: xs) = mergeReturn merge x :: render merge xs := rfl

theorem render_suffix {merge : Option Nat} {ys : List (Statement α)} (h : xs <:+ ys) :
    render merge xs <:+ render merge ys := by
  obtain ⟨before, rfl⟩ := h
  exact ⟨before.map (mergeReturn merge), by simp [render]⟩

variable {x : Statement α}

/-- Every statement of the body comes out, with the rest of the body after it. -/
theorem suffix_blocks {tail : List (Statement α)} (h : x :: xs <:+ tail)
    (previous : TerminatorKind) (id : Nat) :
    ∃ id', x :: blocks (isBlockTerminator x) id' xs <:+ blocks previous id tail := by
  induction tail generalizing previous id with
  | nil => cases suffix_nil.mp h
  | cons y tail ih =>
    rcases suffix_cons_iff.mp h with heq | h
    · obtain ⟨rfl, rfl⟩ := List.cons.inj heq
      exact ⟨_, suffix_append _ _⟩
    · obtain ⟨id', hid'⟩ := ih h (isBlockTerminator y) (id + (separators previous id y).2)
      refine ⟨id', hid'.trans ?_⟩
      rw [blocks]
      exact (suffix_cons y _).trans (suffix_append _ _)

/-- The output is in front of the statement that the body is in front of; or both are
in front of a return; or both have returned. -/
inductive Matched (body out : List (Statement α)) (merge : Option Nat) :
    Option (List (Statement α)) → Option (List (Statement α)) → Prop
  | front {x xs previous id} (hbody : x :: xs <:+ body)
      (hout : render merge (x :: blocks previous id xs) <:+ out) :
      Matched body out merge (some (x :: xs))
        (some (mergeReturn merge x :: render merge (blocks previous id xs)))
  | ret (uniform xs uniform' ys) :
      Matched body out merge (some (.ret uniform :: xs)) (some (.ret uniform' :: ys))
  | halted : Matched body out merge none none

open Matched

/-- What the simulation needs to know of a body and its output. -/
structure Context (body out : List (Statement α)) (merge : Option Nat) : Prop where
  ends : Ends body
  closed : ∀ l ∈ targets body, l ∈ labels body
  distinct_out : (labels out).Nodup
  merged : mergedBlock merge <:+ out
  labels_out : ∀ l rest, .label l :: rest <:+ body →
    ∃ id, render merge (.label l :: blocks .not id rest) <:+ out

namespace Context

variable {body out : List (Statement α)} {merge : Option Nat}

theorem ends_of_suffix (h : Context body out merge) (hxs : xs <:+ body) : Ends xs := by
  obtain ⟨before, rfl⟩ := hxs
  intro last hlast
  refine h.ends last ?_
  rw [getLast?_append, hlast]
  rfl

/-- In front of separators, the statement behind them comes soon. -/
theorem soon (hxs : xs <:+ body) (hne : xs ≠ []) {previous : TerminatorKind} {id : Nat}
    (hout : render merge (blocks previous id xs) <:+ out) :
    (machine out).Soon (Matched body out merge) (some xs)
      (some (render merge (blocks previous id xs))) := by
  obtain ⟨x, xs, rfl⟩ := exists_cons_of_ne_nil hne
  -- over a jump to the label in front of `rest`
  have hjump : ∀ {l rest}, render merge (.bra l :: .label l :: rest) <:+ out →
      (machine out).Soon (Matched body out merge) (some (x :: xs))
        (some (render merge (.label l :: rest))) →
      (machine out).Soon (Matched body out merge) (some (x :: xs))
        (some (render merge (.bra l :: .label l :: rest))) := by
    intro l rest hsuffix hsoon
    rw [render_cons, mergeReturn_label] at hsoon
    rw [render_cons, mergeReturn_bra]
    refine Lts.Soon.silent (bra _ ?_) hsoon
    rw [render_cons, render_cons, mergeReturn_label] at hsuffix
    exact (suffix_cons _ _).trans hsuffix
  -- over a new label
  have hlabel : ∀ {l id'},
      render merge (.label l :: x :: blocks (isBlockTerminator x) id' xs) <:+ out →
      (machine out).Soon (Matched body out merge) (some (x :: xs))
        (some (render merge (.label l :: x :: blocks (isBlockTerminator x) id' xs))) := by
    intro l id' hsuffix
    rw [render_cons, mergeReturn_label]
    refine Lts.Soon.silent (label l _) (Lts.Soon.now (front hxs ?_))
    exact (suffix_cons _ _).trans hsuffix
  cases hx : x.isLabel with
  | true =>
    obtain ⟨l, rfl⟩ := exists_of_isLabel hx
    cases previous with
    | not =>
      refine hjump hout (Lts.Soon.now (front hxs ?_))
      exact (suffix_cons _ _).trans hout
    | real => exact Lts.Soon.now (front hxs hout)
    | fake =>
      refine hjump hout (Lts.Soon.now (front hxs ?_))
      exact (suffix_cons _ _).trans hout
  | false =>
    cases previous with
    | not =>
      rw [blocks_not id xs hx] at hout ⊢
      exact Lts.Soon.now (front hxs hout)
    | real =>
      rw [blocks_real id xs hx] at hout ⊢
      exact hlabel hout
    | fake =>
      rw [blocks_fake id xs hx] at hout ⊢
      exact hjump hout (hlabel ((suffix_cons _ _).trans hout))

theorem mem_targets (hbody : x :: xs <:+ body) (hl : l ∈ x.targets) : l ∈ targets body := by
  obtain ⟨before, rfl⟩ := hbody
  rw [targets_append, targets_cons]
  exact mem_append_right _ (mem_append_left _ hl)

section

variable (h : Context body out merge)

include h

/-- After a statement that falls through. -/
theorem soon_next (hx : x.isTerminator = false) (hxs : x :: xs <:+ body)
    {previous : TerminatorKind} {id : Nat}
    (hout : render merge (x :: blocks previous id xs) <:+ out) :
    (machine out).Soon (Matched body out merge) (some xs)
      (some (render merge (blocks previous id xs))) :=
  soon ((suffix_cons x xs).trans hxs) ((h.ends_of_suffix hxs).ne_nil hx)
    ((suffix_cons _ _).trans hout)

/-- A jump of the body and the same jump of the output. -/
theorem soon_jump (hrest : .label l :: rest <:+ body) :
    ∃ rest', .label l :: rest' <:+ out ∧
      (machine out).Soon (Matched body out merge) (some (.label l :: rest))
        (some (.label l :: rest')) := by
  obtain ⟨id, hout⟩ := h.labels_out l rest hrest
  refine ⟨render merge (blocks .not id rest), ?_, Lts.Soon.now ?_⟩
  · rwa [render_cons, mergeReturn_label] at hout
  · have := front hrest hout
    rwa [mergeReturn_label] at this

/-- The jump to the merged return, and the return. -/
theorem emits_merged {retBb : Nat} (hmerge : merge = some retBb) (rest : List (Statement α)) :
    (machine out).Emits (some (.bra retBb :: rest)) [.ret] none := by
  have hmerged := h.merged
  rw [hmerge] at hmerged
  refine .silent (bra rest hmerged) (.silent (label retBb _) ?_)
  exact Lts.Emits.single (M := machine out) (ret false [])

theorem forth {s t s' : Option (List (Statement α))} {a : Option (Event α)}
    (hst : Matched body out merge s t) (hstep : (machine body).step s a s') :
    ∃ t', (machine out).Emits t a.toList t' ∧
      (machine out).Soon (Matched body out merge) s' t' := by
  cases hst with
  | halted => cases hstep
  | ret uniform xs uniform' ys =>
    cases hstep
    exact ⟨none, Lts.Emits.single (ret _ _), Lts.Soon.now .halted⟩
  | @front x xs previous id hbody hout =>
    cases hstep with
    | label l rest =>
      rw [mergeReturn_label]
      exact ⟨_, Lts.Emits.single (label l _), h.soon_next rfl hbody hout⟩
    | other details rest =>
      rw [mergeReturn_of_not_isRet rfl]
      exact ⟨_, Lts.Emits.single (other details _), h.soon_next rfl hbody hout⟩
    | call details rest =>
      rw [mergeReturn_of_not_isRet rfl]
      exact ⟨_, Lts.Emits.single (call details _), h.soon_next rfl hbody hout⟩
    | bra rest' hrest =>
      obtain ⟨rest, hout', hsoon⟩ := h.soon_jump hrest
      rw [mergeReturn_bra]
      exact ⟨_, Lts.Emits.single (bra _ hout'), hsoon⟩
    | conditional rest' value hrest =>
      obtain ⟨rest, hout', hsoon⟩ := h.soon_jump hrest
      rw [mergeReturn_of_not_isRet rfl]
      exact ⟨_, Lts.Emits.single (conditional _ value hout'), hsoon⟩
    | ret uniform rest =>
      refine ⟨none, ?_, Lts.Soon.now .halted⟩
      cases merge with
      | none => exact Lts.Emits.single (M := machine out) (ret uniform _)
      | some retBb => exact h.emits_merged rfl _
    | retValue details rest =>
      rw [mergeReturn_of_not_isRet rfl]
      exact ⟨none, Lts.Emits.single (retValue details _), Lts.Soon.now .halted⟩

/-- A jump of the output that is one of the body. -/
theorem back_jump (hl : l ∈ targets body) {rest' : List (Statement α)}
    (hrest' : .label l :: rest' <:+ out) :
    ∃ rest, .label l :: rest <:+ body ∧
      (machine out).Soon (Matched body out merge) (some (.label l :: rest))
        (some (.label l :: rest')) := by
  obtain ⟨rest, hrest⟩ := exists_label_suffix (h.closed l hl)
  obtain ⟨rest'', hout, hsoon⟩ := h.soon_jump hrest
  obtain rfl := eq_of_label_suffix h.distinct_out hout hrest'
  exact ⟨rest, hrest, hsoon⟩

theorem back {s t t' : Option (List (Statement α))} {a : Option (Event α)}
    (hst : Matched body out merge s t) (hstep : (machine out).step t a t') :
    (a = none ∧ (machine out).Soon (Matched body out merge) s t') ∨
      ∃ s', (machine body).step s a s' ∧ (machine out).Soon (Matched body out merge) s' t' := by
  cases hst with
  | halted => cases hstep
  | ret uniform xs uniform' ys =>
    cases hstep
    exact .inr ⟨none, ret uniform xs, Lts.Soon.now .halted⟩
  | @front x xs previous id hbody hout =>
    cases x with
    | label l =>
      rw [mergeReturn_label] at hstep
      cases hstep
      exact .inr ⟨some xs, label l xs, h.soon_next rfl hbody hout⟩
    | other details =>
      rw [mergeReturn_of_not_isRet rfl] at hstep
      cases hstep
      exact .inr ⟨some xs, other details xs, h.soon_next rfl hbody hout⟩
    | call details =>
      rw [mergeReturn_of_not_isRet rfl] at hstep
      cases hstep
      exact .inr ⟨some xs, call details xs, h.soon_next rfl hbody hout⟩
    | bra l =>
      rw [mergeReturn_bra] at hstep
      cases hstep with
      | bra _ hrest' =>
        obtain ⟨rest, hrest, hsoon⟩ := h.back_jump (mem_targets hbody mem_cons_self) hrest'
        exact .inr ⟨_, bra xs hrest, hsoon⟩
    | conditional predicate ifTrue ifFalse =>
      rw [mergeReturn_of_not_isRet rfl] at hstep
      cases hstep with
      | conditional _ value hrest' =>
        have hl : (if value then ifTrue else ifFalse) ∈ targets body := by
          refine mem_targets hbody ?_
          cases value <;> simp [Statement.targets]
        obtain ⟨rest, hrest, hsoon⟩ := h.back_jump hl hrest'
        exact .inr ⟨_, conditional xs value hrest, hsoon⟩
    | ret uniform =>
      cases merge with
      | none =>
        cases hstep
        exact .inr ⟨none, ret uniform xs, Lts.Soon.now .halted⟩
      | some retBb =>
        -- the jump to the merged return is silent, and the body waits
        cases hstep with
        | bra _ hrest' =>
          obtain rfl := eq_of_label_suffix h.distinct_out h.merged hrest'
          refine .inl ⟨rfl, Lts.Soon.silent (label retBb _) (Lts.Soon.now ?_)⟩
          exact .ret uniform xs false []
    | retValue details =>
      rw [mergeReturn_of_not_isRet rfl] at hstep
      cases hstep
      exact .inr ⟨none, retValue details xs, Lts.Soon.now .halted⟩

theorem stutterBisim : Lts.StutterBisim (machine body) (machine out) (Matched body out merge) :=
  ⟨silentDet_machine h.distinct_out, h.forth, h.back⟩

end

end Context

/-! ## The pass -/

section

variable {currentId : Nat} {first : Statement α} {tail : List (Statement α)}

theorem context_normalized (hform : WellFormed currentId (first :: tail))
    (h : WellStarted (first :: tail)) (isKernel : Bool) :
    Context (first :: tail) (normalized isKernel currentId first tail)
      (merge isKernel (currentId + 1) tail) := by
  have hout : render (merge isKernel (currentId + 1) tail) (core currentId first tail) <:+
      normalized isKernel currentId first tail := by
    rw [normalized_eq h]
    exact suffix_cons _ _
  refine ⟨hform.toEnds, hform.closed, nodup_labels_normalized hform h isKernel,
    ?_, ?_⟩
  · exact (suffix_append _ _).trans hout
  · intro l rest hrest
    rcases suffix_cons_iff.mp hrest with heq | hrest
    · have hfirst := h.1
      rw [← (List.cons.inj heq).1] at hfirst
      cases hfirst
    · obtain ⟨id, hblocks⟩ := suffix_blocks hrest .not (currentId + 1)
      refine ⟨id, (render_suffix ?_).trans hout⟩
      exact hblocks.trans (suffix_cons _ _)

/-- The output runs like the body. -/
theorem traces_normalized (hform : WellFormed currentId (first :: tail))
    (h : WellStarted (first :: tail)) (isKernel : Bool) :
    traces (first :: tail) = traces (normalized isKernel currentId first tail) := by
  have hcontext := context_normalized hform h isKernel
  refine hcontext.stutterBisim.traces_eq ?_
  rw [normalized_eq h]
  refine Lts.Soon.silent (label currentId _) (Lts.Soon.now ?_)
  exact front (suffix_refl _) (suffix_cons _ _)

end

/-- **Basic blocks.** A well-formed body, with ids left for the labels of its blocks, is
normalised, comes out in normal form and runs as before, exactly when it starts well. -/
theorem normalize_iff {currentId : Nat} {body : List (Statement α)}
    (hform : WellFormed currentId body) (hroom : currentId + body.length + 1 < 2 ^ 32)
    (isKernel : Bool) :
    (∃ currentId' out, normalizeBody currentId isKernel body = .ok (currentId', out) ∧
      NormalForm isKernel out ∧ traces body = traces out) ↔ WellStarted body := by
  cases body with
  | nil =>
    obtain ⟨last, hlast, _⟩ := hform.ends
    cases hlast
  | cons first tail =>
    rw [length_cons] at hroom
    constructor
    · rintro ⟨currentId', out, hout, hnormal, _⟩
      obtain ⟨htail, rfl⟩ := (normalizeBody_eq_ok_iff (by omega)).mp ⟨currentId', hout⟩
      exact wellStarted_of_normalForm hform htail hnormal
    · intro h
      obtain ⟨currentId', hout⟩ := (normalizeBody_eq_ok_iff (by omega)).mpr
        ⟨h.2.2.2, rfl (a := normalized isKernel currentId first tail)⟩
      exact ⟨currentId', _, hout, normalForm_of_wellStarted hform h isKernel,
        traces_normalized hform h isKernel⟩

/-- A branch, a call, a jump and two returns. -/
def branching : List (Statement Unit) :=
  [.other (), .conditional 9 5 6, .label 5, .call (), .ret false, .label 6, .call (), .bra 7,
    .label 7, .other (), .ret false]

theorem wellFormed_branching : WellFormed 10 branching :=
  ⟨by decide, by decide, by decide, .ret false, rfl, rfl⟩

theorem wellStarted_branching : WellStarted branching :=
  ⟨rfl, by decide, by decide, by decide⟩

theorem normalize_iff_branching :
    ∃ currentId' out, normalizeBody 10 false branching = .ok (currentId', out) ∧
      NormalForm false out ∧ traces branching = traces out :=
  (normalize_iff wellFormed_branching (by decide) false).mpr wellStarted_branching

/-- A loop whose label comes first: the label is gone, and the jump to it goes
nowhere. -/
theorem normalize_drops_label :
    WellFormed 1 [.label 0, .other (), .bra 0] ∧
      normalizeBody 1 false [.label 0, .other (), .bra 0] = .ok (1, [.other (), .bra 0]) ∧
      ¬ NormalForm false [.other (), .bra 0] := by
  refine ⟨⟨by decide, by decide, by decide, .bra 0, rfl, rfl⟩, rfl, fun h => ?_⟩
  obtain ⟨l, rest, hstarts⟩ := h.starts
  cases hstarts

/-! ## Modules -/

/-- A body that is well formed and starts well. -/
def Ready (currentId : Nat) : Directive α → Prop
  | .method _ (some body) => WellFormed currentId body ∧ WellStarted body
  | _ => True

/-- A body comes out in normal form and runs as before; the rest stays. -/
def Becomes : Directive α → Directive α → Prop
  | .method isKernel (some body), d => ∃ out, d = .method isKernel (some out) ∧
      NormalForm isKernel out ∧ traces body = traces out
  | directive, d => d = directive

/-- The labels that a directive may need. -/
def Directive.room : Directive α → Nat
  | .method _ (some body) => body.length + 1
  | _ => 0

/-- **Modules.** The pass takes every module of such bodies for which there are ids, and each
body keeps its meaning. -/
theorem run_normalForm {currentId : Nat} {directives : List (Directive α)}
    (h : ∀ d ∈ directives, Ready currentId d)
    (hroom : currentId + (directives.map Directive.room).sum < 2 ^ 32) :
    ∃ id' out, run currentId directives = .ok (id', out) ∧ Forall₂ Becomes directives out := by
  suffices ∀ id, currentId ≤ id → id + (directives.map Directive.room).sum < 2 ^ 32 →
      ∃ id' out, run id directives = .ok (id', out) ∧ Forall₂ Becomes directives out from
    this currentId (le_refl _) hroom
  clear hroom
  induction directives with
  | nil => exact fun id _ _ => ⟨id, [], rfl, .nil⟩
  | cons d directives ih =>
    intro id hle hroom
    rw [map_cons, sum_cons] at hroom
    have hd := h d mem_cons_self
    have hrest := ih fun d' hd' => h d' (mem_cons_of_mem d hd')
    match d, hd with
    | .method isKernel (some (first :: tail)), ⟨hform, hstarts⟩ =>
      simp only [Directive.room, length_cons] at hroom
      obtain ⟨id', hid, hlast, hbody⟩ :=
        normalizeBody_eq isKernel id first (by omega) hstarts.2.2.2
      obtain ⟨id'', out, hrun, hbecomes⟩ := hrest id' (hle.trans hid) (by omega)
      -- labels registered at the start are registered when the body is reached
      have hform : WellFormed id (first :: tail) :=
        { hform with registered := fun l hl => (hform.registered l hl).trans_le hle }
      refine ⟨id'', _ :: out, ?_, .cons ⟨_, rfl, normalForm_of_wellStarted hform hstarts isKernel,
        traces_normalized hform hstarts isKernel⟩ hbecomes⟩
      simp only [run, hbody, hrun, bind, Except.bind]
    | .method _ (some []), ⟨_, hstarts⟩ => exact hstarts.elim
    | .method _ none, _ | .globalVariable _, _ =>
      obtain ⟨id', out, hrun, hbecomes⟩ := hrest id hle (by omega)
      exact ⟨id', _ :: out, by simp only [run, hrun, bind, Except.bind], .cons rfl hbecomes⟩

/-- A function and a kernel with a jump of its own. -/
def twoBodies : List (Directive Unit) :=
  [.method false (some branching), .globalVariable (),
    .method true (some [.call (), .label 8, .other (), .conditional 9 8 4, .label 4, .ret true])]

theorem run_normalForm_two :
    ∃ id' out, run 10 twoBodies = .ok (id', out) ∧ Forall₂ Becomes twoBodies out := by
  refine run_normalForm (fun d hd => ?_) (by decide)
  simp only [twoBodies, mem_cons, not_mem_nil, or_false] at hd
  rcases hd with rfl | rfl | rfl
  · exact ⟨wellFormed_branching, wellStarted_branching⟩
  · trivial
  · exact ⟨⟨by decide, by decide, by decide, .ret true, rfl, rfl⟩, rfl, by decide, by decide,
      by decide⟩

end Concordia.Ptx
