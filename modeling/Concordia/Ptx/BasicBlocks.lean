import Concordia.Lib.Lts

/-!
# Basic blocks

`normalize_basic_blocks::run` gives every basic block of a function a label and an
explicit jump into it, treats a call as the end of a block, and merges the returns
of a function that is not a kernel. Its first statement, its calls and its returns
go through code of their own.
-/

namespace Concordia.Ptx

open Concordia.Lib

/-- A statement, as this pass tells them apart. Labels are `SpirvWord`s; `α` is
whatever else a statement holds. -/
inductive Statement (α : Type) where
  | label (l : Nat)
  | bra (target : Nat)
  | conditional (predicate ifTrue ifFalse : Nat)
  | ret (uniform : Bool)
  | call (details : α)
  | retValue (details : α)
  | other (details : α)
  deriving DecidableEq, Repr

inductive TerminatorKind where
  | not
  | real
  | fake
  deriving DecidableEq, Repr

inductive TranslateError where
  | unreachable
  deriving DecidableEq, Repr

section

variable {α : Type}

/-- `is_block_terminator`. -/
def isBlockTerminator : Statement α → TerminatorKind
  | .conditional .. | .bra _ | .ret _ => .real
  | .call _ => .fake
  | _ => .not

/-- The state of the loop: the resolver's `current_id`, a `u32`, the statements so far,
what the last one was, and where the returns of a function are. -/
structure Normalizer (α : Type) where
  currentId : Nat
  result : List (Statement α)
  previous : TerminatorKind
  returnStatements : List Nat

/-- What goes between two statements, and how many labels it registers. -/
def separators (previous : TerminatorKind) (currentId : Nat) :
    Statement α → List (Statement α) × Nat
  | .label l =>
    match previous with
    | .not | .fake => ([.bra l], 0)
    | .real => ([], 0)
  | _ =>
    match previous with
    | .not => ([], 0)
    | .real => ([.label currentId], 1)
    | .fake => ([.bra currentId, .label currentId], 1)

/-- One round of the loop. -/
def Normalizer.visit (isKernel : Bool) (s : Normalizer α) (statement : Statement α) :
    Except TranslateError (Normalizer α) :=
  let (between, registered) := separators s.previous s.currentId statement
  let result := s.result ++ between
  let next : Normalizer α :=
    { currentId := (s.currentId + registered) % 2 ^ 32
      result := result ++ [statement]
      previous := isBlockTerminator statement
      returnStatements := s.returnStatements }
  match statement with
  | .retValue _ => .error .unreachable
  | .ret _ =>
    if isKernel then .ok next
    else .ok { next with returnStatements := s.returnStatements ++ [result.length] }
  | _ => .ok next

/-- `*result.get_mut(index).ok_or_else(error_unreachable)? = bra`. -/
def redirectReturn (retBb : Nat) (result : List (Statement α)) (index : Nat) :
    Except TranslateError (List (Statement α)) :=
  if index < result.length then .ok (result.set index (.bra retBb)) else .error .unreachable

/-- `convert_from_multiple_returns_to_single_return`. -/
def convertFromMultipleReturnsToSingleReturn (s : Normalizer α) :
    Except TranslateError (Nat × List (Statement α)) :=
  if s.returnStatements.length > 1 then do
    let retBb := s.currentId
    let result := s.result ++ [.label retBb, .ret false]
    let result ← s.returnStatements.foldlM (redirectReturn retBb) result
    .ok ((s.currentId + 1) % 2 ^ 32, result)
  else .ok (s.currentId, s.result)

/-- The start of the loop. A label that comes first is not kept. -/
def Normalizer.start (currentId : Nat) : Option (Statement α) → Normalizer α
  | some (.label _) => ⟨currentId, [], .not, []⟩
  | some statement => ⟨(currentId + 1) % 2 ^ 32, [.label currentId, statement], .not, []⟩
  | none => ⟨currentId, [], .not, []⟩

/-- The body of one function. -/
def normalizeBody (currentId : Nat) (isKernel : Bool) (body : List (Statement α)) :
    Except TranslateError (Nat × List (Statement α)) := do
  let s ← body.tail.foldlM (Normalizer.visit isKernel) (.start currentId body.head?)
  convertFromMultipleReturnsToSingleReturn s

/-- A directive: a function, with its body if it has one, or a variable. -/
inductive Directive (α : Type) where
  | method (isKernel : Bool) (body : Option (List (Statement α)))
  | globalVariable (details : α)

/-- `normalize_basic_blocks::run`. -/
def run (currentId : Nat) : List (Directive α) →
    Except TranslateError (Nat × List (Directive α))
  | [] => .ok (currentId, [])
  | .method isKernel (some body) :: directives => do
    let (currentId, body) ← normalizeBody currentId isKernel body
    let (currentId, directives) ← run currentId directives
    .ok (currentId, .method isKernel (some body) :: directives)
  | directive :: directives => do
    let (currentId, directives) ← run currentId directives
    .ok (currentId, directive :: directives)

/-! ## The form of a body -/

namespace Statement

def isLabel : Statement α → Bool
  | .label _ => true
  | _ => false

def isRet : Statement α → Bool
  | .ret _ => true
  | _ => false

def isCall : Statement α → Bool
  | .call _ => true
  | _ => false

def isRetValue : Statement α → Bool
  | .retValue _ => true
  | _ => false

/-- A `bra`, a conditional or a `ret`. -/
def isTerminator : Statement α → Bool
  | .bra _ | .conditional .. | .ret _ => true
  | _ => false

def labels : Statement α → List Nat
  | .label l => [l]
  | _ => []

/-- The labels that a statement may jump to. -/
def targets : Statement α → List Nat
  | .bra l => [l]
  | .conditional _ l l' => [l, l']
  | _ => []

end Statement

def labels (body : List (Statement α)) : List Nat := body.flatMap Statement.labels

/-- The labels that a body jumps to. -/
def targets (body : List (Statement α)) : List Nat := body.flatMap Statement.targets

/-- What the passes after this one rely on. -/
structure NormalForm (isKernel : Bool) (body : List (Statement α)) : Prop where
  starts : ∃ l rest, body = .label l :: rest
  label_after : ∀ before a l rest, body = before ++ a :: .label l :: rest → a.isTerminator
  label_next : ∀ before a b rest, body = before ++ a :: b :: rest → a.isTerminator → b.isLabel
  call_next : ∀ before details rest, body = before ++ .call details :: rest →
    ∃ l rest', rest = .bra l :: .label l :: rest'
  one_ret : isKernel = false → body.countP Statement.isRet ≤ 1
  defined : ∀ l ∈ targets body, (labels body).count l = 1

/-! ## Running a body -/

/-- What can be seen of a run: the statements that are not about control, the
outcomes of the conditionals, and the return. -/
inductive Event (α : Type) where
  | exec (statement : Statement α)
  | outcome (predicate : Nat) (value : Bool)
  | ret
  deriving DecidableEq, Repr

/-- Execution with fall-through. A state is the rest of the body, or `none` after a
return. -/
inductive Exec (body : List (Statement α)) :
    Option (List (Statement α)) → Option (Event α) → Option (List (Statement α)) → Prop
  | label (l rest) : Exec body (some (.label l :: rest)) none (some rest)
  | other (details rest) :
    Exec body (some (.other details :: rest)) (some (.exec (.other details))) (some rest)
  | call (details rest) :
    Exec body (some (.call details :: rest)) (some (.exec (.call details))) (some rest)
  | bra {l rest} (rest') (h : .label l :: rest <:+ body) :
    Exec body (some (.bra l :: rest')) none (some (.label l :: rest))
  | conditional {predicate ifTrue ifFalse rest} (rest') (value : Bool)
    (h : .label (if value then ifTrue else ifFalse) :: rest <:+ body) :
    Exec body (some (.conditional predicate ifTrue ifFalse :: rest'))
      (some (.outcome predicate value))
      (some (.label (if value then ifTrue else ifFalse) :: rest))
  | ret (uniform rest) : Exec body (some (.ret uniform :: rest)) (some .ret) none
  | retValue (details rest) :
    Exec body (some (.retValue details :: rest)) (some (.exec (.retValue details))) none

/-- A body as a system. -/
def machine (body : List (Statement α)) : Lts (Option (List (Statement α))) (Event α) :=
  ⟨Exec body⟩

/-- What running the body from its start can show. -/
def traces (body : List (Statement α)) : Set (List (Event α)) := (machine body).Traces (some body)

end

end Concordia.Ptx
