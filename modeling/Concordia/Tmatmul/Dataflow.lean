import Concordia.Lib.Liveness
import Concordia.Tmatmul.Allocator

/-!
# What the operations mean

The meaning of a sequence of operations on unboundedly many values, and when the generator
keeps it. A value is needed if a later write depends on it.
-/

namespace Concordia.Tmatmul

open Concordia.Lib Concordia.Lib.Text Function

namespace Operation

def operands : Operation → List Value
  | .ldv _ _ => []
  | .sv value _ => [value]
  | .binary _ _ lhs rhs => [lhs, rhs]
  | .unary _ _ operand => [operand]
  | .tmatmulImport value => [value]
  | .tmatmulGo _ => []
  | .tmatmulExport _ => []
  | .matmul _ input _ => [input]

def result : Operation → Option Value
  | .ldv result _ => some result
  | .sv _ _ => none
  | .binary _ result _ _ => some result
  | .unary _ result _ => some result
  | .tmatmulImport _ => none
  | .tmatmulGo _ => none
  | .tmatmulExport result => some result
  | .matmul result _ _ => some result

def symbol : Operation → Option Text
  | .ldv _ symbol => some symbol
  | .sv _ symbol => some symbol
  | .tmatmulGo symbol => some symbol
  | .matmul _ _ symbol => some symbol
  | _ => none

/-- The scalar interpreter has no matrix unit. -/
def isScalar : Operation → Bool
  | .tmatmulImport _ | .tmatmulGo _ | .tmatmulExport _ | .matmul _ _ _ => false
  | _ => true

end Operation

/-! ## Unboundedly many registers -/

/-- The value of every name, and the memory. -/
structure Dataflow (V H : Type) where
  values : Value → V
  memory : Memory V H

section Meaning

variable {V H : Type} (env : Env V H) (loc : Text → MemRef V)

/-- One operation; `loc` gives the location of a symbol. -/
def Operation.eval (d : Dataflow V H) : Operation → Dataflow V H
  | .ldv result symbol =>
    { d with values := update d.values result (readMemory env (loc symbol) d.memory) }
  | .sv value symbol =>
    { d with memory := writeMemory env (loc symbol) (d.values value) d.memory }
  | .binary op result lhs rhs =>
    { d with
      values := update d.values result
        (op.eval env.arith (d.values lhs) (d.values rhs)) }
  | .unary op result operand =>
    { d with
      values := update d.values result
        (op.eval env.arith env.rmsValue (d.values operand)) }
  | _ => d

def Operation.writes (d : Dataflow V H) : Operation → List (Write V)
  | .sv value symbol => [(loc symbol, d.values value)]
  | _ => []

/-- The writes of a sequence of operations, in order. -/
def dataflowWrites (d : Dataflow V H) : List Operation → List (Write V)
  | [] => []
  | op :: ops => op.writes loc d ++ dataflowWrites (op.eval env loc d) ops

end Meaning

/-! ## Premises -/

/-- Every value is defined once, and before its uses. -/
def DefinedOnce (defined : List Value) : List Operation → Prop
  | [] => True
  | op :: ops => (∀ v ∈ op.operands, v ∈ defined) ∧ (∀ v ∈ op.result, v ∉ defined) ∧
      DefinedOnce (defined ++ op.result.toList) ops

instance DefinedOnce.decidable (defined : List Value) :
    ∀ ops, Decidable (DefinedOnce defined ops)
  | [] => .isTrue trivial
  | op :: ops =>
    have := DefinedOnce.decidable (defined ++ op.result.toList) ops
    inferInstanceAs (Decidable ((∀ v ∈ op.operands, v ∈ defined) ∧ (∀ v ∈ op.result, v ∉ defined) ∧
      DefinedOnce (defined ++ op.result.toList) ops))

/-- The name of a memory location fits in the assembly and is not one of the spill slots. -/
def UserName (name : Text) : Prop := PlainSymbol name ∧ ¬"SPILL_".toList.isPrefixOf name

instance (name : Text) : Decidable (UserName name) := inferInstanceAs (Decidable (_ ∧ _))

def isSpillSlot {V : Type} : MemRef V → Bool
  | .spill name => "SPILL_".toList.isPrefixOf name
  | _ => false

/-- The writes other than spills. -/
def userWrites {V : Type} (writes : List (Write V)) : List (Write V) :=
  writes.filter fun w => !isSpillSlot w.1

/-! ## The condition -/

/-- The values that a write of these operations depends on. -/
abbrev needed (ops : List Operation) : List Value :=
  liveBefore Operation.result Operation.operands ops

theorem mem_of_needed {defined : List Value} {ops : List Operation} (h : DefinedOnce defined ops)
    {v : Value} (hv : v ∈ needed ops) : v ∈ defined := by
  induction ops generalizing defined with
  | nil => cases hv
  | cons op ops ih =>
    obtain ⟨hops, -, hrest⟩ := h
    rcases live_cases hv with hv | ⟨hv, hne⟩
    · exact hops v hv
    · rcases List.mem_append.mp (ih hrest hv) with hmem | hmem
      · exact hmem
      · exact absurd (Option.mem_toList.mp hmem) hne

/-- The occupant of `v7` after a use of `v`. -/
def occupant (early : List Value) (cur : Option Value) (v : Value) : Option Value :=
  if v ∈ early then cur else some v

/-- A use of a late value that is not in `v7` finds a value there that is not needed. -/
def FetchClean (early need : List Value) : Option Value → List Value → Prop
  | _, [] => True
  | cur, v :: vs => (v ∉ early → ∀ w ∈ cur, w ≠ v → w ∉ need) ∧
      FetchClean early need (occupant early cur v) vs

instance FetchClean.decidable (early need : List Value) :
    ∀ cur vs, Decidable (FetchClean early need cur vs)
  | _, [] => .isTrue trivial
  | cur, v :: vs =>
    have := FetchClean.decidable early need (occupant early cur v) vs
    inferInstanceAs (Decidable ((v ∉ early → ∀ w ∈ cur, w ≠ v → w ∉ need) ∧
      FetchClean early need (occupant early cur v) vs))

/-- The occupant of `v7` after an operation. -/
def occupantAfter (defined : List Value) (cur : Option Value) (op : Operation) : Option Value :=
  match op.result with
  | none => op.operands.foldl (occupant (defined.take 7)) cur
  | some r => if defined.length < 7 then none else some r

/-- **No needed value is evicted by a reload.** The first seven values are early, and each
other one takes `v7` when it is defined or used; whenever a use takes it, the value that was
there contributes to no write of this or a later operation. -/
def Clean (defined : List Value) (cur : Option Value) : List Operation → Prop
  | [] => True
  | op :: ops => FetchClean (defined.take 7) (needed (op :: ops)) cur op.operands ∧
      Clean (defined ++ op.result.toList) (occupantAfter defined cur op) ops

instance Clean.decidable : ∀ defined cur ops, Decidable (Clean defined cur ops)
  | _, _, [] => .isTrue trivial
  | defined, cur, op :: ops =>
    have := Clean.decidable (defined ++ op.result.toList) (occupantAfter defined cur op) ops
    inferInstanceAs (Decidable (FetchClean (defined.take 7) (needed (op :: ops)) cur op.operands ∧
      Clean (defined ++ op.result.toList) (occupantAfter defined cur op) ops))

end Concordia.Tmatmul
