import Concordia.Ptx.BasicBlocks

/-!
# Predicates

`normalize_predicates2` replaces a predicated instruction by a conditional branch around
it. A predicated `bra` becomes the branch itself, and a negated predicate swaps the two
targets. `run_body` says that the body keeps its traces from every state, and that the new
labels are fresh, as long as the resolver has identifiers.
-/

namespace Concordia.Predicates

open Concordia.Lib List
open Concordia.Ptx (TranslateError)

/-! ## The pass -/

/-- The guard of an instruction. -/
structure PredAt where
  not : Bool
  label : Nat
  deriving DecidableEq, Repr

inductive Instruction (α : Type) where
  | bra (src : Nat)
  | other (details : α)
  deriving DecidableEq, Repr

structure BrachCondition where
  predicate : Nat
  ifTrue : Nat
  ifFalse : Nat
  deriving DecidableEq, Repr

/-- A statement over instructions `I`; `other` stands for the kinds that later passes
introduce. -/
inductive Statement (α I : Type) where
  | label (l : Nat)
  | localVariable (details : α)
  | instruction (i : I)
  | conditional (branch : BrachCondition)
  | other (details : α)
  deriving DecidableEq, Repr

/-- Before the pass an instruction may have a predicate. -/
abbrev NormalizedStatement (α : Type) : Type := Statement α (Option PredAt × Instruction α)

abbrev UnconditionalStatement (α : Type) : Type := Statement α (Instruction α)

section

variable {α : Type}

/-- The target of a branch. -/
def Instruction.foldedBra : Instruction α → Option Nat
  | .bra src => some src
  | .other _ => none

def BrachCondition.swap (branch : BrachCondition) : BrachCondition :=
  { branch with ifTrue := branch.ifFalse, ifFalse := branch.ifTrue }

/-- `run_statement`, with the resolver's `current_id`, a `u32`, beside the statements so far. -/
def runStatement (state : Nat × List (UnconditionalStatement α)) :
    NormalizedStatement α → Except TranslateError (Nat × List (UnconditionalStatement α))
  | .label l => .ok (state.1, state.2 ++ [.label l])
  | .localVariable details => .ok (state.1, state.2 ++ [.localVariable details])
  | .instruction (some pred, instruction) =>
    let ifTrue := state.1
    let ifFalse := (state.1 + 1) % 2 ^ 32
    let branch : BrachCondition := ⟨pred.label, instruction.foldedBra.getD ifTrue, ifFalse⟩
    let branch := if pred.not then branch.swap else branch
    let guarded := if instruction.foldedBra.isNone then [.label ifTrue, .instruction instruction]
      else []
    .ok ((state.1 + 2) % 2 ^ 32, state.2 ++ [.conditional branch] ++ guarded ++ [.label ifFalse])
  | .instruction (none, instruction) => .ok (state.1, state.2 ++ [.instruction instruction])
  | .conditional _ | .other _ => .error .unreachable

/-- The body of one method. -/
def runBody (currentId : Nat) (body : List (NormalizedStatement α)) :
    Except TranslateError (Nat × List (UnconditionalStatement α)) :=
  body.foldlM runStatement (currentId, [])

inductive Directive (α I : Type) where
  | method (details : α) (body : Option (List (Statement α I)))
  | globalVariable (details : α)

/-- `run`. -/
def run (currentId : Nat) : List (Directive α (Option PredAt × Instruction α)) →
    Except TranslateError (Nat × List (Directive α (Instruction α)))
  | [] => .ok (currentId, [])
  | .globalVariable details :: directives => do
    let (currentId, directives) ← run currentId directives
    .ok (currentId, .globalVariable details :: directives)
  | .method details none :: directives => do
    let (currentId, directives) ← run currentId directives
    .ok (currentId, .method details none :: directives)
  | .method details (some body) :: directives => do
    let (currentId, body) ← runBody currentId body
    let (currentId, directives) ← run currentId directives
    .ok (currentId, .method details (some body) :: directives)

/-! ## Running a body -/

/-- What instructions do: the values of the predicates, and the effect of an instruction
that is not a branch. After `none` the body is left. -/
structure Semantics (σ α : Type) where
  value : σ → Nat → Bool
  effect : α → σ → Option σ

/-- What is seen of a run: the instructions with the states they ran in, and the end. -/
inductive Event (σ α : Type) where
  | exec (details : α) (state : σ)
  | finish (state : σ)

/-- What an instruction does next. -/
inductive Action (α : Type) where
  | skip
  | jump (target : Nat)
  | exec (details : α)

def Instruction.action : Instruction α → Action α
  | .bra src => .jump src
  | .other details => .exec details

variable {σ I : Type}

/-- An instruction runs when its predicate is true, negated if so marked. -/
def guarded (M : Semantics σ α) (s : σ) : Option PredAt × Instruction α → Action α
  | (some pred, i) => if M.value s pred.label != pred.not then i.action else .skip
  | (none, i) => i.action

/-- Whether the statement defines this label. -/
def Statement.defines (l : Nat) : Statement α I → Bool
  | .label l' => l' == l
  | _ => false

/-- The body from the label on. -/
def seek (body : List (Statement α I)) (l : Nat) : Option (List (Statement α I)) :=
  match body.dropWhile (! ·.defines l) with
  | [] => none
  | rest => some rest

/-- Where a run is: in front of the rest of the body, or out of it. -/
abbrev Config (σ α I : Type) : Type := Option (List (Statement α I) × σ)

/-- A jump, to a label that must be there. -/
def jumpTo (body : List (Statement α I)) (l : Nat) (s : σ) :
    Option (Option (Event σ α) × Config σ α I) :=
  (seek body l).map fun rest => (none, some (rest, s))

/-- One step, with fall-through. -/
def step (M : Semantics σ α) (action : σ → I → Action α) (body : List (Statement α I)) :
    Config σ α I → Option (Option (Event σ α) × Config σ α I)
  | none => none
  | some ([], s) => some (some (.finish s), none)
  | some (.label _ :: rest, s) => some (none, some (rest, s))
  | some (.localVariable _ :: rest, s) => some (none, some (rest, s))
  | some (.instruction i :: rest, s) =>
    match action s i with
    | .skip => some (none, some (rest, s))
    | .jump target => jumpTo body target s
    | .exec details => some (some (.exec details s), (M.effect details s).map (rest, ·))
  | some (.conditional branch :: _, s) =>
    jumpTo body (if M.value s branch.predicate then branch.ifTrue else branch.ifFalse) s
  | some (.other _ :: _, _) => none

/-- A body as a system. -/
def machine (M : Semantics σ α) (action : σ → I → Action α) (body : List (Statement α I)) :
    Lts (Config σ α I) (Event σ α) :=
  ⟨fun c a c' => step M action body c = some (a, c')⟩

/-- What a body with predicates can show from a state. -/
def tracesBefore (M : Semantics σ α) (body : List (NormalizedStatement α)) (s : σ) :
    Set (List (Event σ α)) :=
  (machine M (guarded M) body).Traces (some (body, s))

/-- What a body without predicates can show. -/
def tracesAfter (M : Semantics σ α) (body : List (UnconditionalStatement α)) (s : σ) :
    Set (List (Event σ α)) :=
  (machine M (fun _ => Instruction.action) body).Traces (some (body, s))

/-! ## Labels -/

def Statement.label? : Statement α I → Option Nat
  | .label l => some l
  | _ => none

def labels (body : List (Statement α I)) : List Nat := body.filterMap Statement.label?

/-- Where a statement may jump to. -/
def NormalizedStatement.targets : NormalizedStatement α → List Nat
  | .instruction (_, .bra src) => [src]
  | _ => []

def UnconditionalStatement.targets : UnconditionalStatement α → List Nat
  | .instruction (.bra src) => [src]
  | .conditional branch => [branch.ifTrue, branch.ifFalse]
  | _ => []

/-- The statements the pass takes. -/
def NormalizedStatement.isPlain : NormalizedStatement α → Bool
  | .conditional _ | .other _ => false
  | _ => true

/-- The labels of the body, and those it jumps to, come from the resolver. -/
structure Registered (currentId : Nat) (body : List (NormalizedStatement α)) : Prop where
  labels : ∀ l ∈ labels body, l < currentId
  targets : ∀ x ∈ body, ∀ l ∈ NormalizedStatement.targets x, l < currentId

/-- The labels of the output: the old ones are where they were, a new one is fresh, and
defined once if something branches to it. -/
structure FreshLabels (currentId currentId' : Nat) (body : List (NormalizedStatement α))
    (out : List (UnconditionalStatement α)) : Prop where
  kept : (labels out).filter (· < currentId) = labels body
  fresh : ∀ l ∈ labels out, l ∉ labels body → currentId ≤ l ∧ l < currentId'
  once : ∀ x ∈ out, ∀ l ∈ UnconditionalStatement.targets x, currentId ≤ l →
    (labels out).count l = 1

/-! ## The output -/

/-- The statements that one statement becomes, and how many labels it takes. -/
def lowered (id : Nat) : NormalizedStatement α → List (UnconditionalStatement α)
  | .label l => [.label l]
  | .localVariable details => [.localVariable details]
  | .instruction (none, i) => [.instruction i]
  | .instruction (some pred, .bra src) =>
    [.conditional (if pred.not then ⟨pred.label, id + 1, src⟩ else ⟨pred.label, src, id + 1⟩),
      .label (id + 1)]
  | .instruction (some pred, .other details) =>
    [.conditional (if pred.not then ⟨pred.label, id + 1, id⟩ else ⟨pred.label, id, id + 1⟩),
      .label id, .instruction (.other details), .label (id + 1)]
  | .conditional branch => [.conditional branch]
  | .other details => [.other details]

def spent : NormalizedStatement α → Nat
  | .instruction (some _, _) => 2
  | _ => 0

/-- The output of a body. -/
def lower (id : Nat) : List (NormalizedStatement α) → List (UnconditionalStatement α)
  | [] => []
  | x :: xs => lowered id x ++ lower (id + spent x) xs

/-- The identifier after a body. -/
def lastId (id : Nat) (body : List (NormalizedStatement α)) : Nat := id + (body.map spent).sum

variable {x : NormalizedStatement α}

theorem runStatement_eq {id : Nat} (result : List (UnconditionalStatement α))
    (hx : x.isPlain = true) (hroom : id + spent x < 2 ^ 32) :
    runStatement (id, result) x = .ok (id + spent x, result ++ lowered id x) := by
  cases x with
  | label l => rfl
  | localVariable details => rfl
  | conditional branch => cases hx
  | other details => cases hx
  | instruction i =>
    obtain ⟨pred, i⟩ := i
    cases pred with
    | none => rfl
    | some pred =>
      have hroom : id + 2 < 2 ^ 32 := hroom
      simp only [runStatement, Nat.mod_eq_of_lt (Nat.lt_of_succ_lt hroom), Nat.mod_eq_of_lt hroom]
      cases i with
      | bra src => simp [lowered, spent, Instruction.foldedBra, BrachCondition.swap]
      | other details => simp [lowered, spent, Instruction.foldedBra, BrachCondition.swap]

theorem lastId_cons (id : Nat) (body : List (NormalizedStatement α)) :
    lastId id (x :: body) = lastId (id + spent x) body := by
  simp only [lastId, map_cons, sum_cons, Nat.add_assoc]

theorem le_lastId (id : Nat) (body : List (NormalizedStatement α)) : id ≤ lastId id body :=
  Nat.le_add_right _ _

theorem foldlM_runStatement {id : Nat} (result : List (UnconditionalStatement α))
    {body : List (NormalizedStatement α)} (hbody : ∀ x ∈ body, x.isPlain = true)
    (hroom : lastId id body < 2 ^ 32) :
    body.foldlM runStatement (id, result) = .ok (lastId id body, result ++ lower id body) := by
  induction body generalizing id result with
  | nil => simp [lastId, lower, pure, Except.pure]
  | cons x body ih =>
    rw [lastId_cons] at hroom
    rw [foldlM_cons, runStatement_eq result (hbody x mem_cons_self)
      ((le_lastId _ body).trans_lt hroom)]
    change body.foldlM runStatement (id + spent x, result ++ lowered id x) = _
    rw [ih _ (fun y hy => hbody y (mem_cons_of_mem x hy)) hroom, append_assoc, lastId_cons]
    rfl

theorem runBody_eq {currentId : Nat} {body : List (NormalizedStatement α)}
    (hbody : ∀ x ∈ body, x.isPlain = true) (hroom : lastId currentId body < 2 ^ 32) :
    runBody currentId body = .ok (lastId currentId body, lower currentId body) := by
  rw [runBody, foldlM_runStatement [] hbody hroom, nil_append]

/-! ## Labels of the output -/

@[simp] theorem labels_cons (x : Statement α I) (xs : List (Statement α I)) :
    labels (x :: xs) = x.label?.toList ++ labels xs := by
  cases h : x.label? <;> simp [labels, h]

@[simp] theorem labels_append (xs ys : List (Statement α I)) :
    labels (xs ++ ys) = labels xs ++ labels ys := filterMap_append

theorem labels_guarded_bra (id : Nat) (pred : PredAt) (src : Nat) :
    labels (lowered id (.instruction (some pred, .bra src) : NormalizedStatement α)) = [id + 1] :=
  rfl

theorem labels_guarded_other (id : Nat) (pred : PredAt) (details : α) :
    labels (lowered id (.instruction (some pred, .other details))) = [id, id + 1] :=
  rfl

/-- A label of the statement, or one that it took from the resolver. -/
theorem mem_labels_lowered {id l : Nat} (h : l ∈ labels (lowered id x)) :
    x.label? = some l ∨ id ≤ l ∧ l < id + spent x := by
  cases x with
  | label l' => exact .inl (by simpa [lowered, labels, Statement.label?, eq_comm] using h)
  | localVariable details => simp [lowered, labels, Statement.label?] at h
  | conditional branch => simp [lowered, labels, Statement.label?] at h
  | other details => simp [lowered, labels, Statement.label?] at h
  | instruction i =>
    obtain ⟨pred, i⟩ := i
    cases pred with
    | none => simp [lowered, labels, Statement.label?] at h
    | some pred =>
      right
      cases i with
      | bra src =>
        rw [labels_guarded_bra, mem_singleton] at h
        simp only [spent]
        omega
      | other details =>
        rw [labels_guarded_other, mem_pair] at h
        simp only [spent]
        omega

section

variable {currentId : Nat} {body : List (NormalizedStatement α)}

theorem Registered.tail (h : Registered currentId (x :: body)) :
    Registered currentId body where
  labels := fun l hl => h.labels l (by rw [labels_cons]; exact mem_append_right _ hl)
  targets := fun y hy => h.targets y (mem_cons_of_mem x hy)

theorem Registered.label_lt (h : Registered currentId (x :: body)) {l : Nat}
    (hl : x.label? = some l) : l < currentId :=
  h.labels l (by simp [hl])

/-- The labels of the output are registered ones or taken from `id` on. -/
theorem mem_labels_lower (h : Registered currentId body) {id l : Nat}
    (hl : l ∈ labels (lower id body)) : l ∈ labels body ∨ id ≤ l ∧ l < lastId id body := by
  induction body generalizing id with
  | nil => cases hl
  | cons x body ih =>
    rw [lower, labels_append, mem_append] at hl
    have hle := le_lastId (id + spent x) body
    rw [lastId_cons, labels_cons, mem_append]
    rcases hl with hl | hl
    · rcases mem_labels_lowered hl with hl | hl
      · exact .inl (.inl (by simp [hl]))
      · exact .inr ⟨hl.1, by omega⟩
    · rcases ih h.tail hl with hl | hl
      · exact .inl (.inr hl)
      · exact .inr ⟨by omega, hl.2⟩

/-- The old labels are where they were. -/
theorem filter_labels_lower (h : Registered currentId body) {id : Nat} (hid : currentId ≤ id) :
    (labels (lower id body)).filter (· < currentId) = labels body := by
  induction body generalizing id with
  | nil => rfl
  | cons x body ih =>
    have hx : (labels (lowered id x)).filter (· < currentId) = x.label?.toList := by
      cases x with
      | label l =>
        have hl : l < currentId := h.label_lt rfl
        simp [lowered, labels, Statement.label?, hl]
      | instruction i =>
        -- Every label of the group comes from the resolver.
        refine filter_eq_nil_iff.mpr fun l hl => ?_
        rcases mem_labels_lowered hl with hl | hl
        · cases hl
        · simp only [decide_eq_true_eq]
          omega
      | localVariable | conditional | other => rfl
    rw [lower, labels_append, filter_append, hx, ih h.tail (by omega), labels_cons]

/-- A new label that a group branches to is one that it takes, and it defines it. -/
theorem count_labels_lowered (id : Nat) (hplain : x.isPlain = true)
    (hx : ∀ l ∈ NormalizedStatement.targets x, l < currentId) {y : UnconditionalStatement α}
    (hy : y ∈ lowered id x) {l : Nat} (hl : l ∈ UnconditionalStatement.targets y)
    (hnew : currentId ≤ l) : id ≤ l ∧ l < id + spent x ∧ (labels (lowered id x)).count l = 1 := by
  cases x with
  | label l' =>
    obtain rfl := mem_singleton.mp hy
    cases hl
  | localVariable details =>
    obtain rfl := mem_singleton.mp hy
    cases hl
  | conditional branch => cases hplain
  | other details => cases hplain
  | instruction i =>
    obtain ⟨pred, i⟩ := i
    cases pred with
    | none =>
      obtain rfl := mem_singleton.mp hy
      cases i with
      | bra src =>
        have := hx l hl
        omega
      | other details => cases hl
    | some pred =>
      cases i with
      | bra src =>
        have hsrc : src < currentId := hx src mem_cons_self
        have hl : l = id + 1 := by
          simp only [lowered, mem_cons, not_mem_nil, or_false] at hy
          rcases hy with rfl | rfl
          · cases hnot : pred.not <;> simp [UnconditionalStatement.targets, hnot] at hl <;> omega
          · cases hl
        subst hl
        rw [labels_guarded_bra]
        simp [spent]
      | other details =>
        have hl : l = id ∨ l = id + 1 := by
          simp only [lowered, mem_cons, not_mem_nil, or_false] at hy
          rcases hy with rfl | rfl | rfl | rfl
          · cases hnot : pred.not <;> simp [UnconditionalStatement.targets, hnot] at hl <;> omega
          all_goals cases hl
        rw [labels_guarded_other]
        rcases hl with rfl | rfl <;> simp [spent]

/-- A new label that is branched to is taken from `id` on, and defined once. -/
theorem count_labels_lower (h : Registered currentId body) {id : Nat} (hid : currentId ≤ id)
    (hplain : ∀ x ∈ body, x.isPlain = true) {y : UnconditionalStatement α} (hy : y ∈ lower id body)
    {l : Nat} (hl : l ∈ UnconditionalStatement.targets y) (hnew : currentId ≤ l) :
    id ≤ l ∧ (labels (lower id body)).count l = 1 := by
  induction body generalizing id with
  | nil => cases hy
  | cons x body ih =>
    rw [lower, mem_append] at hy
    rw [lower, labels_append, count_append]
    rcases hy with hy | hy
    · -- The group defines the label, and the rest takes others.
      have htargets := h.targets x mem_cons_self
      obtain ⟨hle, hlt, hcount⟩ :=
        count_labels_lowered id (hplain x mem_cons_self) htargets hy hl hnew
      have hzero : (labels (lower (id + spent x) body)).count l = 0 := by
        refine count_eq_zero.mpr fun hmem => ?_
        rcases mem_labels_lower h.tail hmem with hmem | hmem
        · have := h.tail.labels l hmem
          omega
        · omega
      exact ⟨hle, by omega⟩
    · obtain ⟨hle, hcount⟩ := ih h.tail (by omega)
        (fun z hz => hplain z (mem_cons_of_mem x hz)) hy
      have hzero : (labels (lowered id x)).count l = 0 := by
        refine count_eq_zero.mpr fun hmem => ?_
        rcases mem_labels_lowered hmem with hmem | hmem
        · have := h.label_lt hmem
          omega
        · omega
      exact ⟨by omega, by omega⟩

end

end

end Concordia.Predicates
