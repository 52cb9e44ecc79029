import Concordia.Lib.BitFields
import Concordia.Lib.LittleEndian
import Concordia.Sass.Types

/-!
# Encoding for SM 120

`sm120::encode`: the instruction in the low word, the control codes in the high one.
Each class of instructions has its own encoder; they share the opcode, the guard and
the destination.
-/

namespace Concordia.Sass

open Concordia.Lib Concordia.Lib.LittleEndian

/-- `OPCODE_TABLE`. -/
def opcodeTable : List (String × BitVec 16) :=
  [("LDG", 0x380), ("LDG.E", 0x381), ("STG", 0x385), ("STG.E", 0x386), ("LDS", 0x388),
    ("STS", 0x389), ("LDL", 0x38C), ("STL", 0x38D), ("LDC", 0x390),
    ("ATOMG", 0x3A8), ("ATOMS", 0x3A9), ("RED", 0x3AC),
    ("IADD", 0x210), ("IADD3", 0x211), ("IMAD", 0x214), ("IMAD.WIDE", 0x215), ("IMUL", 0x218),
    ("ISETP", 0x21C), ("ISET", 0x21D), ("IABS", 0x220), ("INEG", 0x221),
    ("FADD", 0x300), ("FMUL", 0x304), ("FFMA", 0x308), ("FSETP", 0x30C), ("FSET", 0x30D),
    ("FABS", 0x310), ("FNEG", 0x311), ("MUFU", 0x318),
    ("DADD", 0x320), ("DMUL", 0x324), ("DFMA", 0x328),
    ("LOP", 0x200), ("LOP3", 0x201), ("SHL", 0x204), ("SHR", 0x205), ("BFE", 0x208),
    ("BFI", 0x209), ("FLO", 0x20C), ("POPC", 0x20D),
    ("I2I", 0x340), ("I2F", 0x344), ("F2I", 0x348), ("F2F", 0x34C),
    ("MOV", 0x100), ("MOV32I", 0x101), ("PRMT", 0x104), ("SEL", 0x108), ("SHFL", 0x10C),
    ("S2R", 0x110), ("CS2R", 0x114),
    ("BRA", 0x000), ("BRX", 0x001), ("JMP", 0x004), ("JMX", 0x005), ("CAL", 0x008),
    ("JCAL", 0x009), ("RET", 0x00C), ("EXIT", 0x010),
    ("BAR", 0x020), ("DEPBAR", 0x024), ("MEMBAR", 0x028),
    ("PSETP", 0x180), ("PLOP3", 0x184), ("P2R", 0x188), ("R2P", 0x18C),
    ("HADD2", 0x360), ("HMUL2", 0x364), ("HFMA2", 0x368),
    ("HMMA", 0x3C0), ("IMMA", 0x3C4),
    ("TEX", 0x400), ("TLD", 0x404), ("TLD4", 0x408), ("TXQ", 0x40C),
    ("NOP", 0x7FF)]

/-- `lookup_opcode`: the mnemonic itself, or what stands before its first dot. -/
def lookupOpcode (mnemonic : String) : Except Abort (BitVec 16) :=
  match opcodeTable.lookup mnemonic with
  | some op => .ok op
  | none =>
    let unknown := Abort.err (.encodingError mnemonic "unknown opcode mnemonic")
    if '.' ∈ mnemonic.toList then
      match opcodeTable.lookup (String.ofList (mnemonic.toList.takeWhile (· ≠ '.'))) with
      | some op => .ok op
      | none => .error unknown
    else .error unknown

def Reg.encodeGpr : Reg → Except Abort (BitVec 8)
  | .R n => .ok n.toBitVec
  | .RZ => .ok 255
  | _ => .error (.panicked "not a GPR")

def Reg.encodePred : Reg → Except Abort (BitVec 8)
  | .P n => .ok n.toBitVec
  | .PT => .ok 7
  | _ => .error (.panicked "not a predicate")

def SpecialReg.encode : SpecialReg → BitVec 8
  | .laneId => 0x00
  | .warpId => 0x02
  | .smId => 0x06
  | .tidX => 0x21
  | .tidY => 0x22
  | .tidZ => 0x23
  | .ctaidX => 0x25
  | .ctaidY => 0x26
  | .ctaidZ => 0x27
  | .ntidX => 0x29
  | .ntidY => 0x2a
  | .ntidZ => 0x2b
  | .nctaidX => 0x2d
  | .nctaidY => 0x2e
  | .nctaidZ => 0x2f
  | .clockLo => 0x50
  | .clockHi => 0x51
  | .globalTimerLo => 0x58
  | .globalTimerHi => 0x59

/-! ## Fields -/

/-- `encode_predicate`, bits 19 to 16; without a guard the true predicate. -/
def encodePredicate : Option Predicate → Except Abort (BitVec 64)
  | some p => do
    let reg ← p.reg.encodePred
    return place (BitVec.ofBool p.negated) 19 ||| place reg 16
  | none => .ok (place (7 : BitVec 8) 16)

/-- `opcode_field`, bits 63 to 52. -/
def opcodeField (mnemonic : String) : Except Abort (BitVec 64) := do
  return place (← lookupOpcode mnemonic) 52

/-- `dst_field`, bits 7 to 0; `RZ` when there is none. -/
def dstField (inst : SassInst) : Except Abort (BitVec 64) :=
  match inst.dst with
  | some r => do return place (← r.encodeGpr) 0
  | none => .ok (place (255 : BitVec 8) 0)

/-- `src_reg_field`; `RZ` for an operand that is no register. -/
def srcRegField (shift : Nat) : Operand → Except Abort (BitVec 64)
  | .reg r => do return place (← r.encodeGpr) shift
  | _ => .ok (place (255 : BitVec 8) shift)

def imm20Field (val : Int32) : BitVec 64 := place (val.toBitVec.setWidth 20) 20

def imm32Field (val : Int32) : BitVec 64 := place val.toBitVec 20

/-- The field of an operand, and no bits where there is none. -/
def operandField (encodeOperand : Operand → Except Abort (BitVec 64)) :
    Option Operand → Except Abort (BitVec 64)
  | some op => encodeOperand op
  | none => .ok 0

/-- A second source: a 20-bit immediate or a register. -/
def secondField : Operand → Except Abort (BitVec 64)
  | .imm20 v => .ok (imm20Field v)
  | other => srcRegField 20 other

/-- An only source: a 32-bit or 20-bit immediate, or a register. -/
def soleField : Operand → Except Abort (BitVec 64)
  | .imm32 v => .ok (imm32Field v)
  | .imm20 v => .ok (imm20Field v)
  | other => srcRegField 8 other

/-- A memory operand: the base register and a 32-bit offset. -/
def memoryField (base : Reg) (offset : Int32) : Except Abort (BitVec 64) := do
  return place (← base.encodeGpr) 8 ||| place offset.toBitVec 20

/-- What every encoder begins with: opcode and guard. -/
def header (inst : SassInst) : Except Abort (BitVec 64) := do
  let op ← opcodeField inst.opcode.mnemonic
  let pred ← encodePredicate inst.pred
  return op ||| pred

/-! ## Encoders, by class -/

def encodeAlu3 (inst : SassInst) : Except Abort (BitVec 64) := do
  let bits ← header inst
  let dst ← dstField inst
  let src1 ← operandField (srcRegField 8) inst.srcs[0]?
  let src2 ← operandField secondField inst.srcs[1]?
  let src3 ← operandField (srcRegField 28) inst.srcs[2]?
  return bits ||| dst ||| src1 ||| src2 ||| src3

def encodeAlu2 (inst : SassInst) : Except Abort (BitVec 64) := do
  let bits ← header inst
  let dst ← dstField inst
  let src ← operandField soleField inst.srcs[0]?
  return bits ||| dst ||| src

/-- The same fields as `encode_alu3`. -/
def encodeFma (inst : SassInst) : Except Abort (BitVec 64) := encodeAlu3 inst

def encodeLoad (inst : SassInst) : Except Abort (BitVec 64) := do
  let bits ← header inst
  let dst ← dstField inst
  let src ← operandField (fun
    | .memory base offset => memoryField base offset
    | .reg r => do return place (← r.encodeGpr) 8
    | .sreg sr => .ok (place sr.encode 20)
    | _ => .ok 0) inst.srcs[0]?
  return bits ||| dst ||| src

/-- The data register is taken from the destination. -/
def encodeStore (inst : SassInst) : Except Abort (BitVec 64) := do
  let bits ← header inst
  let addr ← operandField (fun
    | .memory base offset => memoryField base offset
    | _ => .ok 0) inst.srcs[0]?
  let data ← dstField inst
  return bits ||| addr ||| data

def encodeBranch (inst : SassInst) : Except Abort (BitVec 64) := do
  let bits ← header inst
  let target ← operandField (fun
    | .branchTarget target => .ok (place target.toBitVec 20)
    | .reg r => do return place (← r.encodeGpr) 8
    | _ => .ok 0) inst.srcs[0]?
  return bits ||| target

def encodeComparison (inst : SassInst) : Except Abort (BitVec 64) := do
  let bits ← header inst
  let dst ← dstField inst
  let src1 ← operandField (srcRegField 8) inst.srcs[0]?
  let src2 ← operandField secondField inst.srcs[1]?
  return bits ||| dst ||| src1 ||| src2

def encodeSync (inst : SassInst) : Except Abort (BitVec 64) := do
  let bits ← header inst
  let dst ← dstField inst
  let src ← operandField (srcRegField 8) inst.srcs[0]?
  return bits ||| dst ||| src

def MufuOp.code : MufuOp → BitVec 8
  | .rcp => 0
  | .rsq => 1
  | .sin => 2
  | .cos => 3
  | .ex2 => 4
  | .lg2 => 5
  | .rcp64h => 6
  | .rsq64h => 7

def mufuField : Modifier → BitVec 64
  | .mufuOp op => place op.code 20
  | _ => 0

def encodeSpecial (inst : SassInst) : Except Abort (BitVec 64) := do
  let bits ← header inst
  let dst ← dstField inst
  let src1 ← operandField (fun
    | .sreg sr => .ok (place sr.encode 20)
    | .reg r => do return place (← r.encodeGpr) 8
    | .imm20 v => .ok (imm20Field v)
    | _ => .ok 0) inst.srcs[0]?
  let subop := inst.modifiers.foldl (fun bits m => bits ||| mufuField m) 0
  let src2 ← operandField (srcRegField 20) inst.srcs[1]?
  return bits ||| dst ||| src1 ||| subop ||| src2

def encodeNop (inst : SassInst) : Except Abort (BitVec 64) := header inst

def encodeInstructionBits (inst : SassInst) : Except Abort (BitVec 64) :=
  match inst.opcode.cls with
  | .alu3 => encodeAlu3 inst
  | .alu2 => encodeAlu2 inst
  | .fma => encodeFma inst
  | .load => encodeLoad inst
  | .store => encodeStore inst
  | .branch => encodeBranch inst
  | .comparison => encodeComparison inst
  | .sync => encodeSync inst
  | .special => encodeSpecial inst
  | .nop => encodeNop inst

/-- `control_codes::encode`. -/
def ControlCodes.encode (cc : ControlCodes) : BitVec 64 :=
  place (cc.stall.toBitVec.setWidth 4) 0 ||| place (BitVec.ofBool cc.yieldFlag) 4 |||
    place (cc.writeBarrier.toBitVec.setWidth 3) 5 |||
    place (cc.readBarrier.toBitVec.setWidth 3) 8 |||
    place (cc.waitMask.toBitVec.setWidth 6) 11 ||| place (cc.reuse.toBitVec.setWidth 4) 17

/-- The sixteen bytes of a low and a high word. -/
def wordBytes (lo hi : BitVec 64) : List UInt8 := u64ToLe ⟨lo⟩ ++ u64ToLe ⟨hi⟩

/-- `sm120::encode`. -/
def encode (inst : SassInst) : Except Abort (List UInt8) := do
  let lo ← encodeInstructionBits inst
  return wordBytes lo inst.control.encode

theorem wordBytes_inj {lo hi lo' hi' : BitVec 64} :
    wordBytes lo hi = wordBytes lo' hi' ↔ lo = lo' ∧ hi = hi' := by
  constructor
  · intro h
    obtain ⟨hlo, hhi⟩ := List.append_inj h (by simp)
    have hlo' := congrArg u64OfLe hlo
    have hhi' := congrArg u64OfLe hhi
    rw [u64OfLe_u64ToLe, u64OfLe_u64ToLe] at hlo' hhi'
    exact ⟨UInt64.ofBitVec.inj hlo', UInt64.ofBitVec.inj hhi'⟩
  · rintro ⟨rfl, rfl⟩
    rfl

end Concordia.Sass
