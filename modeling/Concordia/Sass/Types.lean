import Mathlib

/-!
# SASS instructions

The instruction type of `nvidia_sass`, shared by instruction selection, register
allocation, scheduling and encoding.
-/

namespace Concordia.Sass

inductive OpcodeClass where
  | alu3
  | alu2
  | fma
  | load
  | store
  | branch
  | comparison
  | sync
  | special
  | nop
  deriving DecidableEq, Repr

structure Opcode where
  mnemonic : String
  cls : OpcodeClass
  deriving DecidableEq, Repr

/-- General registers, predicates, their uniform counterparts and the two constants. -/
inductive Reg where
  | R (n : UInt8)
  | RZ
  | P (n : UInt8)
  | PT
  | UR (n : UInt8)
  | UP (n : UInt8)
  deriving DecidableEq, Repr

inductive SpecialReg where
  | tidX
  | tidY
  | tidZ
  | ctaidX
  | ctaidY
  | ctaidZ
  | nctaidX
  | nctaidY
  | nctaidZ
  | ntidX
  | ntidY
  | ntidZ
  | laneId
  | warpId
  | smId
  | clockLo
  | clockHi
  | globalTimerLo
  | globalTimerHi
  deriving DecidableEq, Repr

inductive Operand where
  | reg (r : Reg)
  | imm20 (v : Int32)
  | imm32 (v : Int32)
  | constBank (bank : UInt8) (offset : UInt16)
  | memory (base : Reg) (offset : Int32)
  | branchTarget (target : UInt32)
  | sreg (r : SpecialReg)
  deriving DecidableEq

structure Predicate where
  reg : Reg
  negated : Bool
  deriving DecidableEq, Repr

inductive DataType where
  | u8 | u16 | u32 | u64 | u128
  | s8 | s16 | s32 | s64
  | f16 | f32 | f64 | bf16 | tf32 | fp8e4m3 | fp8e5m2
  deriving DecidableEq, Repr

inductive MemScope where
  | e | strong | cta | gpu | sys
  deriving DecidableEq, Repr

inductive CacheOp where
  | ef | el | lu | eu | na
  deriving DecidableEq, Repr

inductive CmpOp where
  | lt | eq | le | gt | ne | ge
  | ltu | equ | leu | gtu | neu | geu
  deriving DecidableEq, Repr

inductive MufuOp where
  | rcp | rsq | sin | cos | ex2 | lg2 | rcp64h | rsq64h
  deriving DecidableEq, Repr

inductive Modifier where
  | dataType (t : DataType)
  | memScope (s : MemScope)
  | cacheOp (c : CacheOp)
  | cmpOp (c : CmpOp)
  | boolOp (n : UInt8)
  | mufuOp (m : MufuOp)
  | neg (n : UInt8)
  | abs (n : UInt8)
  | wide
  | hi
  deriving DecidableEq, Repr

structure ControlCodes where
  stall : UInt8
  yieldFlag : Bool
  writeBarrier : UInt8
  readBarrier : UInt8
  waitMask : UInt8
  reuse : UInt8
  deriving DecidableEq, Repr

/-- `ControlCodes::default`: the longest stall, no barrier. -/
def ControlCodes.default : ControlCodes :=
  { stall := 15, yieldFlag := false, writeBarrier := 7, readBarrier := 7, waitMask := 0,
    reuse := 0 }

/-- A SASS instruction ready for encoding. -/
structure SassInst where
  opcode : Opcode
  dst : Option Reg
  srcs : List Operand
  pred : Option Predicate
  modifiers : List Modifier
  control : ControlCodes
  deriving DecidableEq

inductive NvSassError where
  | encodingError (opcode msg : String)
  | regAllocError (msg : String)
  deriving DecidableEq, Repr

/-- How a call ends without a value: an `Err`, or a panic. -/
inductive Abort where
  | err (e : NvSassError)
  | panicked (msg : String)
  deriving DecidableEq, Repr

/-- The register an operand names (`extract_regs`): itself, or the base of an address. -/
def Operand.reg? : Operand → Option Reg
  | .reg r => some r
  | .memory base _ => some base
  | _ => none

/-- The number of a general register. -/
def Reg.gpr? : Reg → Option UInt8
  | .R n => some n
  | _ => none

/-- The general register an operand reads. -/
def Operand.gpr? (op : Operand) : Option UInt8 := op.reg?.bind Reg.gpr?

/-- `source_registers`: the general registers an instruction reads, operand by operand. -/
def sourceRegisters (inst : SassInst) : List UInt8 := inst.srcs.filterMap Operand.gpr?

@[simp] theorem Reg.gpr?_eq_some {r : Reg} {n : UInt8} : r.gpr? = some n ↔ r = .R n := by
  cases r <;> simp [Reg.gpr?]

theorem mem_sourceRegisters {inst : SassInst} {n : UInt8} :
    n ∈ sourceRegisters inst ↔ ∃ op ∈ inst.srcs, op.reg? = some (.R n) := by
  simp [sourceRegisters, Operand.gpr?, Option.bind_eq_some_iff]

/-- A walk over the code from instruction `i` on: the next instruction, and the walk
after it. -/
theorem of_drop_eq_cons {insts rest : List SassInst} {i : Nat} {inst : SassInst}
    (h : insts.drop i = inst :: rest) : insts[i]? = some inst ∧ insts.drop (i + 1) = rest := by
  constructor
  · have hhead : (insts.drop i)[0]? = some inst := by rw [h]; rfl
    rwa [List.getElem?_drop, Nat.add_zero] at hhead
  · rw [← List.drop_drop, h]
    rfl

end Concordia.Sass
