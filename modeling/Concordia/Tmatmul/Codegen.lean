import Concordia.Lib.Keyed
import Concordia.Tmatmul.Interpreter

/-!
# The TMatmul code generator

Operations on named values become assembly for eight vector registers. Values that do not
fit are spilled: the allocator queues the stores and loads, and the generator emits them
around the operand fetches of the operation at hand.
-/

namespace Concordia.Tmatmul

open Concordia.Lib Concordia.Lib.Text

/-- An SSA value name. -/
abbrev Value := String

/-! ## Register allocator -/

def numRegisters : Nat := 8

/-- Registers are numbers here; `v7` is their printed form. A queued spill is a register
and a slot name, a queued reload the other way round. -/
structure RegisterAllocator where
  valueToReg : List (Value × Nat)
  allocatedRegs : Nat → Bool
  nextReg : Nat
  spillSlots : List (Value × Text)
  nextSpillSlot : Nat
  pendingSpills : List (Nat × Text)
  pendingReloads : List (Text × Nat)

def spillName (slot : Nat) : Text := "SPILL_".toList ++ decimal slot

namespace RegisterAllocator

def new : RegisterAllocator where
  valueToReg := []
  allocatedRegs := fun _ => false
  nextReg := 0
  spillSlots := []
  nextSpillSlot := 0
  pendingSpills := []
  pendingReloads := []

/-- Register `r` now holds the value. -/
def assign (a : RegisterAllocator) (value : Value) (r : Nat) : RegisterAllocator :=
  { a with
    allocatedRegs := Function.update a.allocatedRegs r true
    valueToReg := upsert Prod.fst (value, r) a.valueToReg
    nextReg := (r + 1) % numRegisters }

/-- The victim's register is queued to be stored and its value moves to a new slot. -/
def evict (a : RegisterAllocator) (victim : Value) (r : Nat) : RegisterAllocator :=
  { a with
    nextSpillSlot := a.nextSpillSlot + 1
    pendingSpills := a.pendingSpills ++ [(r, spillName a.nextSpillSlot)]
    spillSlots := upsert Prod.fst (victim, spillName a.nextSpillSlot) a.spillSlots
    valueToReg := others Prod.fst victim a.valueToReg }

def allocatePhysicalRegister (a : RegisterAllocator) (value : Value) : Nat × RegisterAllocator :=
  match (List.range numRegisters).find? fun r => !a.allocatedRegs r with
  | some r => (r, a.assign value r)
  | none =>
    let victimReg := (a.nextReg + numRegisters - 1) % numRegisters
    match a.valueToReg.find? fun e => e.2 = victimReg with
    | some e => (victimReg, (a.evict e.1 victimReg).assign value victimReg)
    | none => (victimReg, a.assign value victimReg)

def allocate (a : RegisterAllocator) (value : Value) : Nat × RegisterAllocator :=
  match lookup Prod.fst value a.valueToReg with
  | some e => (e.2, a)
  | none =>
    match lookup Prod.fst value a.spillSlots with
    | some slot =>
      let (r, a) := a.allocatePhysicalRegister value
      (r, { a with
        pendingReloads := a.pendingReloads ++ [(slot.2, r)]
        spillSlots := others Prod.fst value a.spillSlots })
    | none => a.allocatePhysicalRegister value

end RegisterAllocator

/-! ## Assembly -/

inductive MemoryLocation where
  | x
  | wg
  | wf
  | wc
  | wo
  | wu1
  | wu2
  | wn
  | oh
  | b
  | o
  | tempVec
  | custom (name : Text)
  deriving DecidableEq, Repr

def MemoryLocation.display : MemoryLocation → Text
  | .x => "X".toList
  | .wg => "WG".toList
  | .wf => "WF".toList
  | .wc => "WC".toList
  | .wo => "WO".toList
  | .wu1 => "WU1".toList
  | .wu2 => "WU2".toList
  | .wn => "WN".toList
  | .oh => "oH".toList
  | .b => "B".toList
  | .o => "O".toList
  | .tempVec => "TEMP_VEC".toList
  | .custom name => name

inductive TMatmulInstruction where
  | loadVector (dst : Nat) (src : MemoryLocation)
  | storeVector (src : Nat) (dst : MemoryLocation)
  | binary (op : BinOp) (dst src1 src2 : Nat)
  | unary (op : UnOp) (dst src : Nat)
  | tmatmulImport (src : Nat)
  | tmatmulGo (weights : MemoryLocation)
  | tmatmulExport (dst : Nat)
  | comment (text : Text)
  deriving DecidableEq, Repr

/-- `v0` to `v7`. -/
def regName (r : Nat) : Text := 'v' :: decimal r

/-- An instruction line: opcode and operands, four blanks before each. -/
def instructionLine (opcode : String) (operands : List Text) : Text :=
  "    ".toList ++ opcode.toList ++ "    ".toList ++ [','].intercalate operands

def TMatmulInstruction.display : TMatmulInstruction → Text
  | .loadVector dst src => instructionLine "ldv" [regName dst, src.display]
  | .storeVector src dst => instructionLine "sv" [regName src, dst.display]
  | .binary op dst src1 src2 =>
    instructionLine op.mnemonic [regName dst, regName src1, regName src2]
  | .unary op dst src => instructionLine op.mnemonic [regName dst, regName src]
  | .tmatmulImport src => instructionLine "tmatmul_import" [regName src]
  | .tmatmulGo weights => instructionLine "tmatmul_go" [weights.display]
  | .tmatmulExport dst => instructionLine "tmatmul_export" [regName dst]
  | .comment text => "    ; ".toList ++ text

def assemblyHeader : List String :=
  [";-------------------------------------------------------",
    "; vector registers: v0..v7",
    ";",
    "; DDR: X, WG, WF, WC, WO, WU1, WU2, WN, oH, B, O, TEMP_VEC",
    ";",
    "; instructions:",
    "; memory: ldv sv",
    "; operations: add sub mul div sig csig silu",
    "; misc: norm tmatmul_import tmatmul_go tmatmul_export",
    ";-------------------------------------------------------",
    ""]

/-- `writeln!` of each line. -/
def writeLines (lines : List Text) : Text := lines.flatMap fun line => line ++ ['\n']

def toAssembly (program : List TMatmulInstruction) : Text :=
  writeLines (assemblyHeader.map String.toList ++ program.map TMatmulInstruction.display)

/-! ## Code generator -/

structure TMatmulCodegen where
  program : List TMatmulInstruction
  regAllocator : RegisterAllocator
  memMap : List (Text × MemoryLocation)

namespace TMatmulCodegen

def new : TMatmulCodegen := ⟨[], .new, []⟩

def addInstruction (g : TMatmulCodegen) (inst : TMatmulInstruction) : TMatmulCodegen :=
  { g with program := g.program ++ [inst] }

def addComment (g : TMatmulCodegen) (text : Text) : TMatmulCodegen :=
  g.addInstruction (.comment text)

/-- The location of a symbol: what it is mapped to, or its own name. -/
def location (g : TMatmulCodegen) (symbol : Text) : MemoryLocation :=
  ((lookup Prod.fst symbol g.memMap).map Prod.snd).getD (.custom symbol)

def emitSpill (g : TMatmulCodegen) (spill : Nat × Text) : TMatmulCodegen :=
  (g.addComment ("Spill ".toList ++ regName spill.1 ++ " to ".toList ++ spill.2)).addInstruction
    (.storeVector spill.1 (.custom spill.2))

def emitReload (g : TMatmulCodegen) (reload : Text × Nat) : TMatmulCodegen :=
  (g.addComment ("Reload ".toList ++ regName reload.2 ++ " from ".toList ++
    reload.1)).addInstruction (.loadVector reload.2 (.custom reload.1))

def emitPendingSpills (g : TMatmulCodegen) : TMatmulCodegen :=
  g.regAllocator.pendingSpills.foldl emitSpill
    { g with regAllocator := { g.regAllocator with pendingSpills := [] } }

def emitPendingReloads (g : TMatmulCodegen) : TMatmulCodegen :=
  g.regAllocator.pendingReloads.foldl emitReload
    { g with regAllocator := { g.regAllocator with pendingReloads := [] } }

def allocate (g : TMatmulCodegen) (value : Value) : Nat × TMatmulCodegen :=
  let (r, a) := g.regAllocator.allocate value
  (r, { g with regAllocator := a })

/-- Reloads are emitted at once, spills are left in the queue. -/
def ensureInRegister (g : TMatmulCodegen) (value : Value) : Nat × TMatmulCodegen :=
  let (r, g) := g.allocate value
  (r, g.emitPendingReloads)

/-- Allocate the register of a result and emit the spill that makes room for it. -/
def allocateResult (g : TMatmulCodegen) (value : Value) : Nat × TMatmulCodegen :=
  let (r, g) := g.emitPendingSpills.allocate value
  (r, g.emitPendingSpills)

end TMatmulCodegen

/-- The operations of the dialect. -/
inductive Operation where
  | ldv (result : Value) (symbol : Text)
  | sv (value : Value) (symbol : Text)
  | binary (op : BinOp) (result lhs rhs : Value)
  | unary (op : UnOp) (result operand : Value)
  | tmatmulImport (value : Value)
  | tmatmulGo (symbol : Text)
  | tmatmulExport (result : Value)
  | matmul (result input : Value) (symbol : Text)
  deriving DecidableEq, Repr

namespace TMatmulCodegen

def emitOperation (g : TMatmulCodegen) : Operation → TMatmulCodegen
  | .ldv result symbol =>
    let (dst, g) := g.allocateResult result
    g.addInstruction (.loadVector dst (g.location symbol))
  | .sv value symbol =>
    let (src, g) := g.ensureInRegister value
    let g := g.emitPendingSpills
    g.addInstruction (.storeVector src (g.location symbol))
  | .binary op result lhs rhs =>
    let (src1, g) := g.ensureInRegister lhs
    let (src2, g) := g.ensureInRegister rhs
    let (dst, g) := g.allocateResult result
    g.addInstruction (.binary op dst src1 src2)
  | .unary op result operand =>
    let (src, g) := g.ensureInRegister operand
    let (dst, g) := g.allocateResult result
    g.addInstruction (.unary op dst src)
  | .tmatmulImport value =>
    let (src, g) := g.ensureInRegister value
    g.emitPendingSpills.addInstruction (.tmatmulImport src)
  | .tmatmulGo symbol => g.addInstruction (.tmatmulGo (g.location symbol))
  | .tmatmulExport result =>
    let (dst, g) := g.allocateResult result
    g.addInstruction (.tmatmulExport dst)
  | .matmul result input symbol =>
    let (inputReg, g) := g.ensureInRegister input
    let (outputReg, g) := g.allocateResult result
    ((g.addInstruction (.tmatmulImport inputReg)).addInstruction
      (.tmatmulGo (g.location symbol))).addInstruction (.tmatmulExport outputReg)

def emitOperations (g : TMatmulCodegen) (ops : List Operation) : TMatmulCodegen :=
  ops.foldl emitOperation g

def getAssembly (g : TMatmulCodegen) : Text := toAssembly g.program

end TMatmulCodegen

end Concordia.Tmatmul
