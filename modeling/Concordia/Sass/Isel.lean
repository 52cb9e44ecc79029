import Concordia.Sass.Types

/-!
# Instruction selection

The `isel::select_*` constructors. `Selection` names one of them with its arguments.
-/

namespace Concordia.Sass

/-- A fresh instruction: no guard, the default control codes. -/
def SassInst.plain (mnemonic : String) (cls : OpcodeClass) (dst : Option Reg)
    (srcs : List Operand) (modifiers : List Modifier) : SassInst :=
  { opcode := ⟨mnemonic, cls⟩, dst, srcs, pred := none, modifiers, control := .default }

def selectAddI32 (dst src1 src2 : UInt8) : SassInst :=
  .plain "IADD3" .alu3 (some (.R dst)) [.reg (.R src1), .reg (.R src2)] []

def selectFmaF32 (dst src1 src2 src3 : UInt8) : SassInst :=
  .plain "FFMA" .fma (some (.R dst)) [.reg (.R src1), .reg (.R src2), .reg (.R src3)] []

def selectAddF32 (dst src1 src2 : UInt8) : SassInst :=
  .plain "FADD" .alu3 (some (.R dst)) [.reg (.R src1), .reg (.R src2)] []

def selectMulF32 (dst src1 src2 : UInt8) : SassInst :=
  .plain "FMUL" .alu3 (some (.R dst)) [.reg (.R src1), .reg (.R src2)] []

def selectLoadGlobal (dst addr : UInt8) (offset : Int32) : SassInst :=
  .plain "LDG" .load (some (.R dst)) [.memory (.R addr) offset] [.dataType .u32]

def selectStoreGlobal (addr : UInt8) (offset : Int32) (data : UInt8) : SassInst :=
  .plain "STG" .store none [.memory (.R addr) offset, .reg (.R data)] [.dataType .u32]

def selectMov (dst src : UInt8) : SassInst :=
  .plain "MOV" .alu2 (some (.R dst)) [.reg (.R src)] []

def selectBranch (target : UInt32) : SassInst :=
  .plain "BRA" .branch none [.branchTarget target] []

def selectExit : SassInst := .plain "EXIT" .branch none [] []

/-- `barrier_id as i32`. -/
def selectBarSync (barrierId : UInt32) : SassInst :=
  .plain "BAR" .sync none [.imm20 barrierId.toInt32] []

def selectSpecialReg (dst : UInt8) (sreg : SpecialReg) : SassInst :=
  .plain "S2R" .special (some (.R dst)) [.sreg sreg] []

def selectIsetp (predDst src1 src2 : UInt8) (cmp : CmpOp) : SassInst :=
  .plain "ISETP" .comparison (some (.P predDst)) [.reg (.R src1), .reg (.R src2)] [.cmpOp cmp]

def selectNop : SassInst := .plain "NOP" .nop none [] []

/-- A call of a constructor. -/
inductive Selection where
  | addI32 (dst src1 src2 : UInt8)
  | fmaF32 (dst src1 src2 src3 : UInt8)
  | addF32 (dst src1 src2 : UInt8)
  | mulF32 (dst src1 src2 : UInt8)
  | loadGlobal (dst addr : UInt8) (offset : Int32)
  | storeGlobal (addr : UInt8) (offset : Int32) (data : UInt8)
  | mov (dst src : UInt8)
  | branch (target : UInt32)
  | exit
  | barSync (barrierId : UInt32)
  | specialReg (dst : UInt8) (sreg : SpecialReg)
  | isetp (predDst src1 src2 : UInt8) (cmp : CmpOp)
  | nop
  deriving DecidableEq

def Selection.inst : Selection → SassInst
  | .addI32 dst src1 src2 => selectAddI32 dst src1 src2
  | .fmaF32 dst src1 src2 src3 => selectFmaF32 dst src1 src2 src3
  | .addF32 dst src1 src2 => selectAddF32 dst src1 src2
  | .mulF32 dst src1 src2 => selectMulF32 dst src1 src2
  | .loadGlobal dst addr offset => selectLoadGlobal dst addr offset
  | .storeGlobal addr offset data => selectStoreGlobal addr offset data
  | .mov dst src => selectMov dst src
  | .branch target => selectBranch target
  | .exit => selectExit
  | .barSync barrierId => selectBarSync barrierId
  | .specialReg dst sreg => selectSpecialReg dst sreg
  | .isetp predDst src1 src2 cmp => selectIsetp predDst src1 src2 cmp
  | .nop => selectNop

end Concordia.Sass
