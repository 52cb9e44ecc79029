import Concordia.Lib.Text

/-!
# The PTX that the lifter emits

The lifter prints text. Here a line is a value: its guard, its operation and its operands. The
assembler accepts a line when every operand is of a kind its operation takes; an accepted
line moves the register state.
-/

namespace Concordia.Lifter

open Concordia.Lib List Function

/-! ## Operands -/

/-- `%rN` and `%urN`. -/
inductive Reg32 where
  | r (n : Nat)
  | ur (n : Nat)
  deriving DecidableEq, Repr

/-- `%pN` and `%upN`. -/
inductive PredReg where
  | p (n : Nat)
  | up (n : Nat)
  deriving DecidableEq, Repr

/-- `%rdN`, and the two temporaries of a block. -/
inductive Reg64 where
  | rd (n : Nat)
  | imadProduct
  | imadAddend
  deriving DecidableEq, Repr

inductive PtxOperand where
  | reg32 (x : Reg32)
  | pred (x : PredReg)
  | reg64 (x : Reg64)
  | int (v : Int)
  /-- Text that is no register and no integer. -/
  | raw (text : Text)
  deriving DecidableEq, Repr

/-! ## Registers -/

@[ext] structure Regs where
  b32 : Reg32 → BitVec 32
  pred : PredReg → Bool
  b64 : Reg64 → BitVec 64

namespace Regs

variable (s : Regs)

def set32 (x : Reg32) (v : BitVec 32) : Regs := { s with b32 := update s.b32 x v }

def setPred (x : PredReg) (v : Bool) : Regs := { s with pred := update s.pred x v }

def set64 (x : Reg64) (v : BitVec 64) : Regs := { s with b64 := update s.b64 x v }

section

variable (x : Reg32) (v : BitVec 32) (p : PredReg) (b : Bool) (y : Reg64) (w : BitVec 64)

@[simp] theorem set32_b32 : (s.set32 x v).b32 = update s.b32 x v := rfl
@[simp] theorem set32_pred : (s.set32 x v).pred = s.pred := rfl
@[simp] theorem set32_b64 : (s.set32 x v).b64 = s.b64 := rfl
@[simp] theorem setPred_b32 : (s.setPred p b).b32 = s.b32 := rfl
@[simp] theorem setPred_pred : (s.setPred p b).pred = update s.pred p b := rfl
@[simp] theorem setPred_b64 : (s.setPred p b).b64 = s.b64 := rfl
@[simp] theorem set64_b32 : (s.set64 y w).b32 = s.b32 := rfl
@[simp] theorem set64_pred : (s.set64 y w).pred = s.pred := rfl
@[simp] theorem set64_b64 : (s.set64 y w).b64 = update s.b64 y w := rfl

end

end Regs

namespace PtxOperand

/-- An integer constant takes the width of its use; other operands have no value here. -/
def val32 (s : Regs) : PtxOperand → BitVec 32
  | reg32 x => s.b32 x
  | int v => BitVec.ofInt 32 v
  | _ => 0

def val64 (s : Regs) : PtxOperand → BitVec 64
  | reg64 x => s.b64 x
  | int v => BitVec.ofInt 64 v
  | _ => 0

/-- An integer constant used as a predicate is true unless it is zero. -/
def valPred (s : Regs) : PtxOperand → Bool
  | pred x => s.pred x
  | int v => v ≠ 0
  | _ => false

def is32 : PtxOperand → Bool
  | reg32 _ => true
  | int _ => true
  | _ => false

def is64 : PtxOperand → Bool
  | reg64 _ => true
  | int _ => true
  | _ => false

def isPred : PtxOperand → Bool
  | pred _ => true
  | int _ => true
  | _ => false

def isReg32 : PtxOperand → Bool
  | reg32 _ => true
  | _ => false

def isReg64 : PtxOperand → Bool
  | reg64 _ => true
  | _ => false

def isPredReg : PtxOperand → Bool
  | pred _ => true
  | _ => false

def write32 (s : Regs) (v : BitVec 32) : PtxOperand → Regs
  | reg32 x => s.set32 x v
  | _ => s

def write64 (s : Regs) (v : BitVec 64) : PtxOperand → Regs
  | reg64 x => s.set64 x v
  | _ => s

def writePred (s : Regs) (v : Bool) : PtxOperand → Regs
  | pred x => s.setPred x v
  | _ => s

section

variable (s : Regs) (x : Reg32) (p : PredReg) (y : Reg64) (n : Int)

@[simp] theorem val32_reg32 : (reg32 x).val32 s = s.b32 x := rfl
@[simp] theorem val32_int : (int n).val32 s = BitVec.ofInt 32 n := rfl
@[simp] theorem val64_reg64 : (reg64 y).val64 s = s.b64 y := rfl
@[simp] theorem val64_int : (int n).val64 s = BitVec.ofInt 64 n := rfl
@[simp] theorem valPred_pred : (pred p).valPred s = s.pred p := rfl
@[simp] theorem valPred_int : (int n).valPred s = decide (n ≠ 0) := rfl
@[simp] theorem is32_reg32 : (reg32 x).is32 = true := rfl
@[simp] theorem is32_int : (int n).is32 = true := rfl
@[simp] theorem is64_reg64 : (reg64 y).is64 = true := rfl
@[simp] theorem is64_int : (int n).is64 = true := rfl
@[simp] theorem isPred_pred : (pred p).isPred = true := rfl
@[simp] theorem isPred_int : (int n).isPred = true := rfl
@[simp] theorem isReg32_reg32 : (reg32 x).isReg32 = true := rfl
@[simp] theorem isReg64_reg64 : (reg64 y).isReg64 = true := rfl
@[simp] theorem isPredReg_pred : (pred p).isPredReg = true := rfl
@[simp] theorem write32_reg32 (v : BitVec 32) : (reg32 x).write32 s v = s.set32 x v := rfl
@[simp] theorem write64_reg64 (v : BitVec 64) : (reg64 y).write64 s v = s.set64 y v := rfl
@[simp] theorem writePred_pred (v : Bool) : (pred p).writePred s v = s.setPred p v := rfl

end

end PtxOperand

/-! ## Operations -/

/-- `SassDataType`, printed as the type of an operation. -/
inductive SassDataType where
  | u8 | u16 | u32 | u64 | u128 | s8 | s16 | s32 | s64 | f16 | f32 | f64 | bf16 | tf32
  | fp8E4M3 | fp8E5M2 | b8 | b16 | b32 | b64 | b128 | pred | unknown
  deriving DecidableEq, Repr

/-- The types of 32-bit integer arithmetic. -/
def SassDataType.isInt32 (ty : SassDataType) : Bool := ty = .u32 || ty = .s32

inductive LogicOp where
  | and | or | xor
  deriving DecidableEq, Repr

def LogicOp.bits (a b : BitVec 32) : LogicOp → BitVec 32
  | and => a &&& b
  | or => a ||| b
  | xor => a ^^^ b

def LogicOp.bool (a b : Bool) : LogicOp → Bool
  | and => a && b
  | or => a || b
  | xor => a ^^ b

inductive Comparison where
  | eq | ne | lt | le | gt | ge
  deriving DecidableEq, Repr

/-- A comparison of words, as signed or as unsigned numbers. -/
def Comparison.holds (signed : Bool) (a b : BitVec 32) : Comparison → Bool
  | eq => a == b
  | ne => a != b
  | lt => if signed then a.slt b else a.ult b
  | le => if signed then a.sle b else a.ule b
  | gt => if signed then b.slt a else b.ult a
  | ge => if signed then b.sle a else b.ule a

inductive PtxOp where
  | mov (d a : PtxOperand)
  | add (ty : SassDataType) (d a b : PtxOperand)
  | sub (ty : SassDataType) (d a b : PtxOperand)
  | logic (op : LogicOp) (d a b : PtxOperand)
  | shl (d a b : PtxOperand)
  | shr (d a b : PtxOperand)
  /-- `mov.b64 d, {lo, hi}`. -/
  | pack (d lo hi : PtxOperand)
  /-- `mov.b64 {lo, hi}, a`. -/
  | unpack (lo hi a : PtxOperand)
  | mov64 (d a : PtxOperand)
  | add64 (d a b : PtxOperand)
  | shr64 (d a b : PtxOperand)
  | mulWide (d a b : PtxOperand)
  | cvt32 (d a : PtxOperand)
  | setp (cmp : Comparison) (ty : SassDataType) (d a b : PtxOperand)
  | selp (ty : SassDataType) (d a b c : PtxOperand)
  | predLogic (op : LogicOp) (d a b : PtxOperand)
  | comment
  deriving DecidableEq, Repr

namespace PtxOp

/-- The assembler takes the operands. -/
def accepted : PtxOp → Bool
  | mov d a => d.isReg32 && a.is32
  | add ty d a b => ty.isInt32 && d.isReg32 && a.is32 && b.is32
  | sub ty d a b => ty.isInt32 && d.isReg32 && a.is32 && b.is32
  | logic _ d a b => d.isReg32 && a.is32 && b.is32
  | shl d a b => d.isReg32 && a.is32 && b.is32
  | shr d a b => d.isReg32 && a.is32 && b.is32
  | pack d lo hi => d.isReg64 && lo.is32 && hi.is32
  | unpack lo hi a => lo.isReg32 && hi.isReg32 && a.isReg64
  | mov64 d a => d.isReg64 && a.is64
  | add64 d a b => d.isReg64 && a.is64 && b.is64
  | shr64 d a b => d.isReg64 && a.is64 && b.is32
  | mulWide d a b => d.isReg64 && a.is32 && b.is32
  | cvt32 d a => d.isReg32 && a.isReg64
  | setp _ ty d a b => ty.isInt32 && d.isPredReg && a.is32 && b.is32
  | selp ty d a b c => (ty.isInt32 || ty = .b32) && d.isReg32 && a.is32 && b.is32 && c.isPred
  | predLogic _ d a b => d.isPredReg && a.isPred && b.isPred
  | comment => true

/-- The state after an accepted operation; shifts by 32 or more give zero. -/
def exec (s : Regs) : PtxOp → Regs
  | mov d a => d.write32 s (a.val32 s)
  | add _ d a b => d.write32 s (a.val32 s + b.val32 s)
  | sub _ d a b => d.write32 s (a.val32 s - b.val32 s)
  | logic op d a b => d.write32 s (op.bits (a.val32 s) (b.val32 s))
  | shl d a b => d.write32 s (a.val32 s <<< (b.val32 s).toNat)
  | shr d a b => d.write32 s (a.val32 s >>> (b.val32 s).toNat)
  | pack d lo hi => d.write64 s (hi.val32 s ++ lo.val32 s)
  | unpack lo hi a =>
    hi.write32 (lo.write32 s ((a.val64 s).extractLsb' 0 32)) ((a.val64 s).extractLsb' 32 32)
  | mov64 d a => d.write64 s (a.val64 s)
  | add64 d a b => d.write64 s (a.val64 s + b.val64 s)
  | shr64 d a b => d.write64 s (a.val64 s >>> (b.val32 s).toNat)
  | mulWide d a b => d.write64 s ((a.val32 s).setWidth 64 * (b.val32 s).setWidth 64)
  | cvt32 d a => d.write32 s ((a.val64 s).setWidth 32)
  | setp cmp ty d a b => d.writePred s (cmp.holds (ty = .s32) (a.val32 s) (b.val32 s))
  | selp _ d a b c => d.write32 s (if c.valPred s then a.val32 s else b.val32 s)
  | predLogic op d a b => d.writePred s (op.bool (a.valPred s) (b.valPred s))
  | comment => s

/-- An operation that leaves every predicate alone. -/
def keepsPreds : PtxOp → Bool
  | setp .. => false
  | predLogic .. => false
  | _ => true

end PtxOp

/-! ## Lines -/

/-- `@p` or `@!p`. -/
structure PtxGuard where
  register : PtxOperand
  negated : Bool
  deriving DecidableEq, Repr

def PtxGuard.holds (s : Regs) (g : PtxGuard) : Bool := g.register.valPred s != g.negated

structure PtxLine where
  guard : Option PtxGuard
  op : PtxOp
  deriving DecidableEq, Repr

namespace PtxLine

def accepted (l : PtxLine) : Bool := l.op.accepted && l.guard.all (·.register.isPredReg)

def exec (s : Regs) (l : PtxLine) : Regs :=
  if l.guard.all (·.holds s) then l.op.exec s else s

def execAll (lines : List PtxLine) (s : Regs) : Regs := lines.foldl exec s

end PtxLine

/-- The same guard before each operation. -/
def guarded (g : Option PtxGuard) (ops : List PtxOp) : List PtxLine := ops.map (⟨g, ·⟩)

section Guarded

variable {g : Option PtxGuard} {ops : List PtxOp} {s : Regs}

theorem PtxOp.exec_pred {op : PtxOp} (h : op.keepsPreds) (s : Regs) :
    (op.exec s).pred = s.pred := by
  have h32 : ∀ (t : Regs) (d : PtxOperand) (v : BitVec 32), (d.write32 t v).pred = t.pred := by
    intro t d v
    cases d <;> rfl
  have h64 : ∀ (d : PtxOperand) (v : BitVec 64), (d.write64 s v).pred = s.pred := by
    intro d v
    cases d <;> rfl
  cases op <;> first | exact h32 _ _ _ | exact h64 _ _ | rfl | cases h
  exact (h32 _ _ _).trans (h32 _ _ _)

theorem PtxGuard.holds_congr {g : PtxGuard} {s t : Regs} (h : t.pred = s.pred) :
    g.holds t = g.holds s := by
  unfold PtxGuard.holds PtxOperand.valPred
  cases g.register <;> simp [h]

/-- **Guarded runs.** Lines that share a guard and leave the predicates alone all run or none
does. -/
theorem execAll_guarded (hkeep : ∀ op ∈ ops, op.keepsPreds) :
    PtxLine.execAll (guarded g ops) s =
      if g.all (·.holds s) then ops.foldl PtxOp.exec s else s := by
  induction ops generalizing s with
  | nil => simp [guarded, PtxLine.execAll]
  | cons op ops ih =>
    have hstep : PtxLine.execAll (guarded g (op :: ops)) s =
        PtxLine.execAll (guarded g ops) (PtxLine.exec s ⟨g, op⟩) := rfl
    rw [hstep, ih fun o ho => hkeep o (mem_cons_of_mem _ ho)]
    -- The guard reads predicates only, and `op` writes none.
    have hguard : g.all (·.holds (op.exec s)) = g.all (·.holds s) := by
      cases g with
      | none => rfl
      | some g => exact PtxGuard.holds_congr (PtxOp.exec_pred (hkeep op mem_cons_self) s)
    by_cases hg : g.all (·.holds s) = true
    · simp [PtxLine.exec, hg, hguard]
    · simp [PtxLine.exec, hg]

theorem accepted_guarded (hg : g.all (·.register.isPredReg) = true) :
    (guarded g ops).all PtxLine.accepted = ops.all PtxOp.accepted := by
  unfold guarded
  rw [all_map]
  congr 1
  funext op
  simp [PtxLine.accepted, hg]

end Guarded

end Concordia.Lifter
