import Concordia.Ptx.Predicates

/-!
# Lowering predicates keeps the traces

At every point the output is, up to silent steps, in front of what the rest of the body
becomes (`Matched.front`), or inside the group of an instruction whose predicate is true
(`Matched.inside`). Jumps to old labels lead to the same place, and the new labels lead into
or behind their group.
-/

namespace Concordia.Predicates

open Concordia.Lib List Nat Statement Instruction

variable {α σ I : Type}

/-! ## Jumps -/

theorem seek_cons (x : Statement α I) (xs : List (Statement α I)) (l : Nat) :
    seek (x :: xs) l = if x.defines l then some (x :: xs) else seek xs l := by
  unfold seek
  cases hx : x.defines l <;> simp [hx]

variable {l : Nat}

theorem defines_iff {x : Statement α I} : x.defines l = true ↔ x.label? = some l := by
  cases x <;> simp [defines, label?]

/-- What does not define the label is passed over. -/
theorem seek_append {before : List (Statement α I)} (h : l ∉ labels before)
    (rest : List (Statement α I)) : seek (before ++ rest) l = seek rest l := by
  induction before with
  | nil => rfl
  | cons x before ih =>
    rw [labels_cons, mem_append, not_or] at h
    have hx : ¬ x.defines l = true := fun hdef => h.1 (by simp [defines_iff.mp hdef])
    rw [cons_append, seek_cons, if_neg hx, ih h.2]

theorem seek_label (l : Nat) (rest : List (Statement α I)) :
    seek (.label l :: rest) l = some (.label l :: rest) := by
  rw [seek_cons, if_pos (by simp [defines])]

/-! ## The simulation -/

section

variable (M : Semantics σ α) (currentId : Nat) (src : List (NormalizedStatement α))

/-- The output is in front of what the rest of the body becomes; or it is in front of an
instruction whose predicate is true; or both have left the body. -/
inductive Matched : Config σ α (Option PredAt × Instruction α) → Config σ α (Instruction α) → Prop
  | front {rest s id before} (hsrc : rest <:+ src)
      (hout : lower currentId src = before ++ lower id rest) (hid : currentId ≤ id)
      (hbefore : ∀ l ∈ labels before, l < id) :
      Matched (some (rest, s)) (some (lower id rest, s))
  | inside {pred details rest s id before}
      (htrue : M.value s pred.label != pred.not)
      (hsrc : .instruction (some pred, .other details) :: rest <:+ src)
      (hout : lower currentId src = before ++ .instruction (.other details) :: .label (id + 1) ::
        lower (id + 2) rest)
      (hid : currentId ≤ id) (hbefore : ∀ l ∈ labels before, l < id + 1) :
      Matched (some (.instruction (some pred, .other details) :: rest, s))
        (some (.instruction (.other details) :: .label (id + 1) :: lower (id + 2) rest, s))
  | left : Matched none none

end

variable {body : List (NormalizedStatement α)}

section

variable {M : Semantics σ α} {currentId : Nat} {src : List (NormalizedStatement α)}

/-- The systems before and after. -/
abbrev machineBefore (M : Semantics σ α) (src : List (NormalizedStatement α)) :=
  machine M (guarded M) src

abbrev machineAfter (M : Semantics σ α) (currentId : Nat) (src : List (NormalizedStatement α)) :=
  machine M (fun _ => action) (lower currentId src)

/-- Both steps are the same, up to where they lead; or neither can step. -/
inductive Agree (N : Lts (Config σ α (Instruction α)) (Event σ α))
    (H : Config σ α (Option PredAt × Instruction α) → Config σ α (Instruction α) → Prop) :
    Option (Option (Event σ α) × Config σ α (Option PredAt × Instruction α)) →
      Option (Option (Event σ α) × Config σ α (Instruction α)) → Prop
  | stuck : Agree N H none none
  | step {a s t} (h : N.Soon H s t) : Agree N H (some (a, s)) (some (a, t))

namespace Agree

variable {N : Lts (Config σ α (Instruction α)) (Event σ α)}
  {H : Config σ α (Option PredAt × Instruction α) → Config σ α (Instruction α) → Prop}
  {x : Option (Option (Event σ α) × Config σ α (Option PredAt × Instruction α))}
  {y : Option (Option (Event σ α) × Config σ α (Instruction α))} {a : Option (Event σ α)}

theorem forth (h : Agree N H x y) {c : Config σ α (Option PredAt × Instruction α)}
    (hx : x = some (a, c)) : ∃ d, y = some (a, d) ∧ N.Soon H c d := by
  cases h with
  | stuck => cases hx
  | step hsoon =>
    cases hx
    exact ⟨_, rfl, hsoon⟩

theorem back (h : Agree N H x y) {d : Config σ α (Instruction α)} (hy : y = some (a, d)) :
    ∃ c, x = some (a, c) ∧ N.Soon H c d := by
  cases h with
  | stuck => cases hy
  | step hsoon =>
    cases hy
    exact ⟨_, rfl, hsoon⟩

end Agree

/-- A jump to an old label. -/
theorem seek_lower (h : Registered currentId body) {id l : Nat} (hid : currentId ≤ id)
    (hl : l < currentId) :
    (seek body l = none ∧ seek (lower id body) l = none) ∨
      ∃ rest id' before, rest <:+ body ∧ id ≤ id' ∧ lower id body = before ++ lower id' rest ∧
        (∀ l' ∈ labels before, l' < id') ∧ seek body l = some rest ∧
        seek (lower id body) l = some (lower id' rest) := by
  induction body generalizing id with
  | nil => exact .inl ⟨rfl, rfl⟩
  | cons x body ih =>
    by_cases hx : x.defines l = true
    · obtain rfl : x = .label l := by
        cases x with
        | label l' => simpa [defines] using hx
        | _ => cases hx
      exact .inr ⟨.label l :: body, id, [], suffix_refl _, le_refl id, rfl,
        by simp [labels], seek_label l body, seek_label l _⟩
    · -- The group of `x` does not define the label.
      have hgroup : l ∉ labels (lowered id x) := by
        intro hmem
        rcases mem_labels_lowered hmem with hlabel | hnew
        · exact hx (defines_iff.mpr hlabel)
        · omega
      rw [seek_cons, if_neg hx, lower, seek_append hgroup]
      have hid' : currentId ≤ id + spent x := by omega
      rcases ih h.tail hid' with hnone | hsome
      · exact .inl hnone
      · obtain ⟨rest, id', before, hrest, hle, hlower, hbefore, hseek, hseek'⟩ := hsome
        refine .inr ⟨rest, id', lowered id x ++ before, hrest.trans (suffix_cons x body),
          by omega, by rw [hlower, append_assoc], ?_, hseek, hseek'⟩
        intro l' hl'
        rw [labels_append, mem_append] at hl'
        rcases hl' with hl' | hl'
        · rcases mem_labels_lowered hl' with hlabel | hnew
          · have := h.label_lt hlabel
            omega
          · omega
        · exact hbefore l' hl'

variable (h : Registered currentId src)

include h

theorem agree_jump (hl : l < currentId) (s : σ) :
    Agree (machineAfter M currentId src) (Matched M currentId src)
      (jumpTo src l s) (jumpTo (lower currentId src) l s) := by
  rcases seek_lower h (le_refl currentId) hl with ⟨hnone, hnone'⟩ | hsome
  · rw [jumpTo, jumpTo, hnone, hnone']
    exact .stuck
  · obtain ⟨rest, id, before, hrest, hle, hlower, hbefore, hseek, hseek'⟩ := hsome
    rw [jumpTo, jumpTo, hseek, hseek']
    exact .step (.now (.front hrest hlower hle hbefore))

omit h in
/-- A jump to a new label, behind what comes before it. -/
theorem jumpTo_new {before rest : List (UnconditionalStatement α)}
    (hout : lower currentId src = before ++ .label l :: rest) (hbefore : l ∉ labels before)
    (s : σ) : jumpTo (lower currentId src) l s = some (none, some (.label l :: rest, s)) := by
  rw [jumpTo, hout, seek_append hbefore, seek_label]
  rfl

variable {rest : List (NormalizedStatement α)} {before : List (UnconditionalStatement α)}

/-- After the group of a statement. -/
theorem matched_next {x : NormalizedStatement α} {id : Nat} (hsrc : x :: rest <:+ src)
    (hout : lower currentId src = before ++ lower id (x :: rest)) (hid : currentId ≤ id)
    (hbefore : ∀ l ∈ labels before, l < id) (s : σ) :
    Matched M currentId src (some (rest, s)) (some (lower (id + spent x) rest, s)) := by
  have hout' : lower currentId src = (before ++ lowered id x) ++ lower (id + spent x) rest := by
    rw [hout, lower, append_assoc]
  refine .front ((suffix_cons x rest).trans hsrc) hout' (by omega) fun l hl => ?_
  rw [labels_append, mem_append] at hl
  rcases hl with hl | hl
  · have := hbefore l hl
    omega
  · rcases mem_labels_lowered hl with hlabel | hnew
    · have : l < currentId := by
        refine h.labels l ?_
        obtain ⟨earlier, rfl⟩ := hsrc
        simp [hlabel]
      omega
    · omega

omit h in
/-- The branch goes to `taken` when the predicate is true, negated if so marked. -/
theorem target_eq (M : Semantics σ α) (s : σ) (pred : PredAt) (taken otherwise : Nat) :
    let branch : BrachCondition :=
      if pred.not then ⟨pred.label, otherwise, taken⟩ else ⟨pred.label, taken, otherwise⟩
    (if M.value s branch.predicate then branch.ifTrue else branch.ifFalse) =
      if M.value s pred.label != pred.not then taken else otherwise := by
  cases hnot : pred.not <;> cases hvalue : M.value s pred.label <;> simp [hvalue]

omit h in
/-- The first step of a group is its branch. -/
theorem step_group (M : Semantics σ α) (out : List (UnconditionalStatement α)) (id : Nat)
    (pred : PredAt) (i : Instruction α) (rest : List (NormalizedStatement α)) (s : σ) :
    step M (fun _ => action) out
        (some (lower id (.instruction (some pred, i) :: rest), s)) =
      jumpTo out
        (if M.value s pred.label != pred.not then i.foldedBra.getD id else id + 1) s := by
  cases i with
  | bra target => exact congrArg (jumpTo out · s) (target_eq M s pred target (id + 1))
  | other details => exact congrArg (jumpTo out · s) (target_eq M s pred id (id + 1))

omit h in
/-- An instruction that is not a branch does the same in both, and then the rest follows. -/
theorem agree_exec {rest' : List (UnconditionalStatement α)}
    (hrest : ∀ s, (machineAfter M currentId src).Soon (Matched M currentId src) (some (rest, s))
      (some (rest', s))) (details : α) (s : σ) :
    Agree (machineAfter M currentId src) (Matched M currentId src)
      (some (some (.exec details s), (M.effect details s).map (rest, ·)))
      (some (some (.exec details s), (M.effect details s).map (rest', ·))) := by
  refine .step ?_
  cases M.effect details s with
  | none => exact .now .left
  | some s' => exact hrest s'

/-- The predicate is false: the branch goes behind the group. -/
theorem agree_skip {pred : PredAt} {i : Instruction α} {id : Nat}
    (hsrc : .instruction (some pred, i) :: rest <:+ src)
    (hout : lower currentId src = before ++ lower id (.instruction (some pred, i) :: rest))
    (hid : currentId ≤ id) (hbefore : ∀ l ∈ labels before, l < id)
    (group : List (UnconditionalStatement α))
    (hgroup : lowered id (.instruction (some pred, i)) = group ++ [.label (id + 1)])
    (hnew : id + 1 ∉ labels group) (s : σ) :
    Agree (machineAfter M currentId src) (Matched M currentId src)
      (some (none, some (rest, s))) (jumpTo (lower currentId src) (id + 1) s) := by
  have hsplit : lower currentId src =
      (before ++ group) ++ .label (id + 1) :: lower (id + 2) rest := by
    rw [hout, lower, hgroup]
    simp [spent]
  have hfresh : id + 1 ∉ labels (before ++ group) := by
    rw [labels_append, mem_append, not_or]
    refine ⟨fun hmem => ?_, hnew⟩
    have := hbefore _ hmem
    omega
  rw [jumpTo_new hsplit hfresh]
  exact .step (.silent rfl (.now (matched_next h hsrc hout hid hbefore s)))

theorem agree_front (hplain : ∀ x ∈ src, x.isPlain = true) {id : Nat} (hsrc : rest <:+ src)
    (hout : lower currentId src = before ++ lower id rest) (hid : currentId ≤ id)
    (hbefore : ∀ l ∈ labels before, l < id) (s : σ) :
    (∃ pred details rest', rest = .instruction (some pred, .other details) :: rest' ∧
      (M.value s pred.label != pred.not) = true) ∨
    Agree (machineAfter M currentId src) (Matched M currentId src)
      (step M (guarded M) src (some (rest, s)))
      (step M (fun _ => action) (lower currentId src) (some (lower id rest, s))) := by
  cases rest with
  | nil => exact .inr (.step (.now .left))
  | cons x rest =>
    have hmem : x ∈ src := hsrc.subset mem_cons_self
    have hnext := matched_next (M := M) h hsrc hout hid hbefore
    cases x with
    | label l => exact .inr (.step (.now (hnext s)))
    | localVariable details => exact .inr (.step (.now (hnext s)))
    | conditional branch => cases hplain _ hmem
    | other details => cases hplain _ hmem
    | instruction i =>
      obtain ⟨pred, i⟩ := i
      have htarget := h.targets _ hmem
      cases pred with
      | none =>
        right
        cases i with
        | bra target => exact agree_jump h (htarget target mem_cons_self) s
        | other details => exact agree_exec (fun s' => .now (hnext s')) details s
      | some pred =>
        cases htrue : M.value s pred.label != pred.not with
        | false =>
          right
          have hskip : step M (guarded M) src (some (.instruction (some pred, i) :: rest, s)) =
              some (none, some (rest, s)) := by
            simp [step, guarded, htrue]
          rw [hskip, step_group, htrue, if_neg Bool.false_ne_true]
          cases i with
          | bra target =>
            exact agree_skip h hsrc hout hid hbefore [_] rfl
              (by simp [labels, label?]) s
          | other details =>
            exact agree_skip h hsrc hout hid hbefore [_, _, _] rfl
              (by simp [labels, label?]) s
        | true =>
          cases i with
          | bra target =>
            right
            have htaken : step M (guarded M) src
                (some (.instruction (some pred, .bra target) :: rest, s)) =
                jumpTo src target s := by
              simp [step, guarded, htrue, action]
            rw [htaken, step_group, htrue, if_pos rfl]
            exact agree_jump h (htarget target mem_cons_self) s
          | other details => exact .inl ⟨pred, details, rest, rfl, htrue⟩

omit h in
/-- The predicate is true: the branch goes into the group. -/
theorem step_inside {pred : PredAt} {details : α} {id : Nat} {s : σ} (hout : lower currentId src =
      before ++ lower id (.instruction (some pred, .other details) :: rest))
    (hbefore : ∀ l ∈ labels before, l < id) (htrue : (M.value s pred.label != pred.not) = true) :
    step M (fun _ => action) (lower currentId src)
        (some (lower id (.instruction (some pred, .other details) :: rest), s)) =
      some (none, some (.label id :: .instruction (.other details) :: .label (id + 1) ::
        lower (id + 2) rest, s)) ∧
    ∃ before', lower currentId src = before' ++ .instruction (.other details) :: .label (id + 1) ::
        lower (id + 2) rest ∧ ∀ l ∈ labels before', l < id + 1 := by
  obtain ⟨branch, hgroup⟩ : ∃ branch, lowered id (.instruction (some pred, .other details)) =
      [.conditional branch, .label id, .instruction (.other details), .label (id + 1)] := ⟨_, rfl⟩
  have hlabel : lower currentId src = (before ++ [.conditional branch]) ++
      .label id :: .instruction (.other details) :: .label (id + 1) :: lower (id + 2) rest := by
    rw [hout, lower, hgroup]
    simp [spent]
  have hinside : lower currentId src = (before ++ [.conditional branch, .label id]) ++
      .instruction (.other details) :: .label (id + 1) :: lower (id + 2) rest := by
    rw [hlabel]
    simp
  have hfresh : id ∉ labels (before ++ [.conditional branch]) := by
    intro hmem
    have := hbefore id (by simpa [labels, label?] using hmem)
    omega
  rw [step_group, htrue, if_pos rfl]
  refine ⟨jumpTo_new hlabel hfresh s, _, hinside, fun l hl => ?_⟩
  rw [labels_append, mem_append] at hl
  rcases hl with hl | hl
  · have := hbefore l hl
    omega
  · have : id = l := by simpa [labels, label?] using hl
    omega

omit h in
theorem agree_inside {pred : PredAt} {details : α} {id : Nat} {s : σ}
    (htrue : (M.value s pred.label != pred.not) = true)
    (hsrc : .instruction (some pred, .other details) :: rest <:+ src)
    (hout : lower currentId src = before ++ .instruction (.other details) :: .label (id + 1) ::
      lower (id + 2) rest) (hid : currentId ≤ id) (hbefore : ∀ l ∈ labels before, l < id + 1) :
    Agree (machineAfter M currentId src) (Matched M currentId src)
      (step M (guarded M) src (some (.instruction (some pred, .other details) :: rest, s)))
      (step M (fun _ => action) (lower currentId src)
        (some (.instruction (.other details) :: .label (id + 1) :: lower (id + 2) rest, s))) := by
  have hexec : step M (guarded M) src (some (.instruction (some pred, .other details) :: rest, s)) =
      some (some (.exec details s), (M.effect details s).map (rest, ·)) := by
    simp [step, guarded, htrue, action]
  have hsplit : lower currentId src =
      (before ++ [.instruction (.other details), .label (id + 1)]) ++ lower (id + 2) rest := by
    rw [hout]
    simp
  have hlabels : ∀ l ∈ labels (before ++ [.instruction (.other details), .label (id + 1)]),
      l < id + 2 := by
    intro l hl
    rw [labels_append, mem_append] at hl
    rcases hl with hl | hl
    · have := hbefore l hl
      omega
    · have : id + 1 = l := by simpa [labels, label?] using hl
      omega
  have hnext : ∀ s', Matched M currentId src (some (rest, s')) (some (lower (id + 2) rest, s')) :=
    fun s' => .front ((suffix_cons _ rest).trans hsrc) hsplit (by omega) hlabels
  -- After the instruction comes the label behind the group.
  have hsoon : ∀ s', (machineAfter M currentId src).Soon (Matched M currentId src)
      (some (rest, s')) (some (.label (id + 1) :: lower (id + 2) rest, s')) :=
    fun s' => .silent rfl (.now (hnext s'))
  rw [hexec]
  exact agree_exec hsoon details s

theorem stutterBisim (hplain : ∀ x ∈ src, x.isPlain = true) :
    Lts.StutterBisim (machineBefore M src) (machineAfter M currentId src)
      (Matched M currentId src) where
  det := by
    intro c d a d' hsilent hstep
    have hsame := hsilent.symm.trans hstep
    simp only [Option.some.injEq, Prod.mk.injEq] at hsame
    exact ⟨hsame.1.symm, hsame.2.symm⟩
  forth := by
    intro c d a c' hcd hstep
    cases hcd with
    | left => cases hstep
    | inside htrue hsrc hout hid hbefore =>
      obtain ⟨d', hstep', hsoon⟩ := (agree_inside htrue hsrc hout hid hbefore).forth hstep
      exact ⟨d', .single hstep', hsoon⟩
    | @front rest s id before hsrc hout hid hbefore =>
      rcases agree_front h hplain hsrc hout hid hbefore s with hgroup | hagree
      · -- Into the group, over its label, and then the instruction.
        obtain ⟨pred, details, rest', rfl, htrue⟩ := hgroup
        obtain ⟨hbranch, before', hout', hbefore'⟩ := step_inside hout hbefore htrue
        obtain ⟨d', hstep', hsoon⟩ := (agree_inside htrue hsrc hout' hid hbefore').forth hstep
        exact ⟨d', .silent hbranch (.silent rfl (.single hstep')), hsoon⟩
      · obtain ⟨d', hstep', hsoon⟩ := hagree.forth hstep
        exact ⟨d', .single hstep', hsoon⟩
  back := by
    intro c d a d' hcd hstep
    cases hcd with
    | left => cases hstep
    | inside htrue hsrc hout hid hbefore =>
      exact .inr ((agree_inside htrue hsrc hout hid hbefore).back hstep)
    | @front rest s id before hsrc hout hid hbefore =>
      rcases agree_front h hplain hsrc hout hid hbefore s with hgroup | hagree
      · obtain ⟨pred, details, rest', rfl, htrue⟩ := hgroup
        obtain ⟨hbranch, before', hout', hbefore'⟩ := step_inside hout hbefore htrue
        have hsame := hbranch.symm.trans hstep
        simp only [Option.some.injEq, Prod.mk.injEq] at hsame
        obtain ⟨rfl, rfl⟩ := hsame
        exact .inl ⟨rfl, .silent rfl (.now (.inside htrue hsrc hout' hid hbefore'))⟩
      · exact .inr (hagree.back hstep)

end

/-! ## The pass -/

/-- The output shows what the body shows. -/
theorem tracesAfter_lower {currentId : Nat} (hbody : ∀ x ∈ body, x.isPlain = true)
    (h : Registered currentId body) (M : Semantics σ α) (s : σ) :
    tracesAfter M (lower currentId body) s = tracesBefore M body s := by
  have hstart : Matched M currentId body (some (body, s)) (some (lower currentId body, s)) :=
    .front (suffix_refl body) (nil_append _).symm (le_refl currentId)
      fun l hl => by cases hl
  exact ((stutterBisim h hbody).traces_eq (.now hstart)).symm

/-- **Lowering predicates.** With two identifiers left for every predicate, the pass
succeeds; from every state, and for every meaning of
the instructions and predicates, the output shows what the body shows; and the labels that
it introduces are fresh, and defined once if branched to. -/
theorem run_body {currentId : Nat} {body : List (NormalizedStatement α)}
    (hbody : ∀ x ∈ body, x.isPlain = true) (h : Registered currentId body)
    (hroom : lastId currentId body < 2 ^ 32) :
    ∃ currentId' out, runBody currentId body = .ok (currentId', out) ∧
      (∀ (σ : Type) (M : Semantics σ α) (s : σ), tracesAfter M out s = tracesBefore M body s) ∧
      FreshLabels currentId currentId' body out := by
  refine ⟨_, _, runBody_eq hbody hroom, fun σ M s => tracesAfter_lower hbody h M s, ?_⟩
  refine ⟨filter_labels_lower h (le_refl _), fun l hl hold => ?_, fun x hx l hl hnew => ?_⟩
  · exact (mem_labels_lower h hl).resolve_left hold
  · exact (count_labels_lower h (le_refl _) hbody hx hl hnew).2

/-- A loop that a negated predicate leaves: `L1: @p2 op; @!p2 bra L1`. -/
def guardedLoop : List (NormalizedStatement Unit) :=
  [.label 1, .instruction (some ⟨false, 2⟩, .other ()), .instruction (some ⟨true, 2⟩, .bra 1)]

theorem run_guardedLoop : ∃ currentId' out, runBody 3 guardedLoop = .ok (currentId', out) ∧
    (∀ (σ : Type) (M : Semantics σ Unit) (s : σ),
      tracesAfter M out s = tracesBefore M guardedLoop s) ∧
    FreshLabels 3 currentId' guardedLoop out :=
  run_body (by decide) ⟨by decide, by decide⟩ (by decide)

/-- `L0: @p1 op`. -/
def guardedOnce : List (NormalizedStatement Unit) :=
  [.label 0, .instruction (some ⟨false, 1⟩, .other ())]

/-- Past the last identifier the label to skip to is `L0` again. -/
theorem new_label_wraps :
    Registered (2 ^ 32 - 1) guardedOnce ∧ ∃ currentId' out,
      runBody (2 ^ 32 - 1) guardedOnce = .ok (currentId', out) ∧
      out = [.label 0, .conditional ⟨1, 2 ^ 32 - 1, 0⟩, .label (2 ^ 32 - 1),
        .instruction (.other ()), .label 0] ∧
      0 ∈ labels guardedOnce ∧ (labels out).count 0 = 2 :=
  ⟨⟨by decide, by decide⟩, _, _, rfl, rfl, by decide, by decide⟩

/-! ## Modules -/

theorem Registered.mono {currentId id : Nat} (h : Registered currentId body)
    (hle : currentId ≤ id) : Registered id body where
  labels := fun l hl => lt_of_lt_of_le (h.labels l hl) hle
  targets := fun x hx l hl => lt_of_lt_of_le (h.targets x hx l hl) hle

/-- The bodies that the pass takes, with registered labels. -/
def Ready (currentId : Nat) : Directive α (Option PredAt × Instruction α) → Prop
  | .method _ (some body) =>
    (∀ x ∈ body, NormalizedStatement.isPlain x = true) ∧ Registered currentId body
  | _ => True

/-- A directive and what becomes of it: a body keeps its traces. -/
inductive Keeps : Directive α (Option PredAt × Instruction α) → Directive α (Instruction α) → Prop
  | method {details body out}
      (h : ∀ (σ : Type) (M : Semantics σ α) (s : σ), tracesAfter M out s = tracesBefore M body s) :
      Keeps (.method details (some body)) (.method details (some out))
  | declaration (details) : Keeps (.method details none) (.method details none)
  | globalVariable (details) : Keeps (.globalVariable details) (.globalVariable details)

/-- The identifiers that a directive takes. -/
def Directive.spent : Directive α (Option PredAt × Instruction α) → Nat
  | .method _ (some body) => (body.map Predicates.spent).sum
  | _ => 0

/-- The pass goes through a module body by body. -/
theorem run_module {currentId : Nat}
    {directives : List (Directive α (Option PredAt × Instruction α))}
    (h : ∀ d ∈ directives, Ready currentId d)
    (hroom : currentId + (directives.map Directive.spent).sum < 2 ^ 32) :
    ∃ currentId' out, run currentId directives = .ok (currentId', out) ∧
      List.Forall₂ Keeps directives out := by
  suffices ∀ id, currentId ≤ id → id + (directives.map Directive.spent).sum < 2 ^ 32 →
      ∃ id' out, run id directives = .ok (id', out) ∧ List.Forall₂ Keeps directives out from
    this currentId (le_refl _) hroom
  clear hroom
  induction directives with
  | nil => exact fun id _ _ => ⟨id, [], rfl, .nil⟩
  | cons d directives ih =>
    intro id hle hroom
    rw [map_cons, sum_cons] at hroom
    have hd := h d mem_cons_self
    have hrest := ih fun d' hd' => h d' (mem_cons_of_mem d hd')
    cases d with
    | globalVariable details =>
      obtain ⟨id', out, hrun, hkeeps⟩ := hrest id hle (by omega)
      refine ⟨id', .globalVariable details :: out, ?_, .cons (.globalVariable details) hkeeps⟩
      rw [run, hrun]
      rfl
    | method details body =>
      cases body with
      | none =>
        obtain ⟨id', out, hrun, hkeeps⟩ := hrest id hle (by omega)
        refine ⟨id', .method details none :: out, ?_, .cons (.declaration details) hkeeps⟩
        rw [run, hrun]
        rfl
      | some body =>
        rw [← add_assoc] at hroom
        have hbody := runBody_eq hd.1 (lt_of_le_of_lt (le_add_right _ _) hroom)
        obtain ⟨id', out, hrun, hkeeps⟩ := hrest (lastId id body) (le_add_right_of_le hle) hroom
        refine ⟨id', .method details (some (lower id body)) :: out, ?_,
          .cons (.method fun σ M s => ?_) hkeeps⟩
        · rw [run, hbody]
          change (run (lastId id body) directives >>= fun x =>
            .ok (x.1, .method details (some (lower id body)) :: x.2)) = _
          rw [hrun]
          rfl
        · exact tracesAfter_lower hd.1 (hd.2.mono hle) M s

/-- Two functions, which share the counter. -/
def twoLoops : List (Directive Unit (Option PredAt × Instruction Unit)) :=
  [.method () (some guardedLoop), .globalVariable (), .method () (some
    [.instruction (some ⟨true, 2⟩, .bra 0), .instruction (none, .other ()), .label 0])]

theorem run_module_two : ∃ currentId' out, run 3 twoLoops = .ok (currentId', out) ∧
    List.Forall₂ Keeps twoLoops out := by
  refine run_module (fun d hd => ?_) (by decide)
  simp only [twoLoops, mem_cons, not_mem_nil, or_false] at hd
  rcases hd with rfl | rfl | rfl
  · exact ⟨by decide, by decide, by decide⟩
  · trivial
  · exact ⟨by decide, by decide, by decide⟩

end Concordia.Predicates
