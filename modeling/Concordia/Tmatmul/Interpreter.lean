import Concordia.Lib.Text

/-!
# The TMatmul assembly interpreter

Assembly text is parsed line by line and executed on eight scalar registers, a memory of
named slots, and the host buffers behind the kernel parameters. The arithmetic and the
host memory are parameters: nothing here depends on what they do.
-/

namespace Concordia.Tmatmul

open Concordia.Lib Concordia.Lib.Text Function

/-! ## Arithmetic -/

/-- `f32` and its operations, uninterpreted. -/
structure Arith (V : Type) where
  zero : V
  one : V
  /-- `str::parse`. -/
  parse : Text → Option V
  fromBits : Nat → V
  add : V → V → V
  sub : V → V → V
  mul : V → V → V
  div : V → V → V
  neg : V → V
  exp : V → V
  isZero : V → Bool
  isPositive : V → Bool

inductive BinOp where
  | add
  | sub
  | mul
  | div
  deriving DecidableEq, Repr

inductive UnOp where
  | sigmoid
  | complementSigmoid
  | siLU
  | norm
  deriving DecidableEq, Repr

section Eval

variable {V : Type} (f : Arith V)

/-- Division by zero gives zero. -/
def BinOp.eval (op : BinOp) (x y : V) : V :=
  match op with
  | .add => f.add x y
  | .sub => f.sub x y
  | .mul => f.mul x y
  | .div => if !f.isZero y then f.div x y else f.zero

/-- `1.0 / (1.0 + (-x).exp())`. -/
def Arith.sigmoid (x : V) : V := f.div f.one (f.add f.one (f.exp (f.neg x)))

def UnOp.eval (rmsValue : V) (op : UnOp) (x : V) : V :=
  match op with
  | .sigmoid => f.sigmoid x
  | .complementSigmoid => f.sub f.one (f.sigmoid x)
  | .siLU => f.mul x (f.sigmoid x)
  | .norm => if !f.isZero rmsValue then f.div x rmsValue else x

end Eval

/-! ## Instructions -/

inductive MemRef (V : Type) where
  /-- `PARAM_N`. -/
  | param (idx : Nat)
  | spill (name : Text)
  | const (value : V)
  deriving DecidableEq, Repr

/-- Parsed instructions; register numbers are any `u8`. -/
inductive Instruction (V : Type) where
  | loadVector (dst : Nat) (mem : MemRef V)
  | storeVector (src : Nat) (mem : MemRef V)
  | binary (op : BinOp) (dst src1 src2 : Nat)
  | unary (op : UnOp) (dst src : Nat)
  | reLU (dst src : Nat)
  | tmatmulImport (src : Nat)
  | tmatmulGo (weights : MemRef V)
  | tmatmulExport (dst : Nat)
  deriving DecidableEq, Repr

/-! ## Parsing -/

def usizeSize : Nat := 2 ^ 64

def parseRegister (s : Text) : Option Nat :=
  match trim s with
  | 'v' :: rest => parseUnsigned 256 rest
  | _ => none

/-- The value after `CONST_`; what cannot be read is zero. -/
def parseConst {V : Type} (f : Arith V) (s : Text) : V :=
  if s ∈ ["0".toList, "0.0".toList, "0f00000000".toList] then f.zero
  else if s ∈ ["1".toList, "1.0".toList, "0f3f800000".toList] then f.one
  else
    match f.parse s with
    | some v => v
    | none =>
      if "0f".toList.isPrefixOf s ∨ "0F".toList.isPrefixOf s then
        match parseHex (2 ^ 32) (s.drop 2) with
        | some bits => f.fromBits bits
        | none => f.zero
      else f.zero

/-- A name that is neither a parameter nor a constant is a slot of its own. -/
def parseMemref {V : Type} (f : Arith V) (s : Text) : MemRef V :=
  let s := trim s
  match if "PARAM_".toList.isPrefixOf s then parseUnsigned usizeSize (s.drop 6) else none with
  | some idx => .param idx
  | none =>
    if "SPILL_".toList.isPrefixOf s then .spill s
    else if "CONST_".toList.isPrefixOf s then .const (parseConst f (s.drop 6))
    else
      match parseUnsigned usizeSize s with
      | some idx => .param idx
      | none => .spill s

/-- The opcode and the operands of a line; none for blank lines, comments and labels. -/
def lineFields (line : Text) : Option (Text × List Text) :=
  let trimmed := trim line
  if trimmed = [] ∨ trimmed.head? = some ';' then none
  else if trimmed.getLast? = some ':' then none
  else
    let (opcode, rest) := splitOnce trimmed
    let operands := trim (rest.getD [])
    some (trim opcode, if operands = [] then [] else (fields operands).map trim)

def BinOp.mnemonic : BinOp → String
  | .add => "add"
  | .sub => "sub"
  | .mul => "mul"
  | .div => "div"

def UnOp.mnemonic : UnOp → String
  | .sigmoid => "sig"
  | .complementSigmoid => "csig"
  | .siLU => "silu"
  | .norm => "norm"

section Parse

variable {V : Type} (f : Arith V)

def parseBinary (op : BinOp) : List Text → Option (Instruction V)
  | dst :: src1 :: src2 :: _ => do
    return .binary op (← parseRegister dst) (← parseRegister src1) (← parseRegister src2)
  | _ => none

def parseUnary (op : UnOp) : List Text → Option (Instruction V)
  | dst :: src :: _ => do return .unary op (← parseRegister dst) (← parseRegister src)
  | _ => none

/-- What each opcode does with its operands. Unknown opcodes are skipped. -/
def parsers : List (String × (List Text → Option (Instruction V))) :=
  [("ldv", fun operands => match operands with
      | dst :: mem :: _ => do return .loadVector (← parseRegister dst) (parseMemref f mem)
      | _ => none),
    ("sv", fun operands => match operands with
      | src :: mem :: _ => do return .storeVector (← parseRegister src) (parseMemref f mem)
      | _ => none),
    (BinOp.mnemonic .add, parseBinary .add),
    (BinOp.mnemonic .sub, parseBinary .sub),
    (BinOp.mnemonic .mul, parseBinary .mul),
    (BinOp.mnemonic .div, parseBinary .div),
    (UnOp.mnemonic .sigmoid, parseUnary .sigmoid),
    (UnOp.mnemonic .complementSigmoid, parseUnary .complementSigmoid),
    (UnOp.mnemonic .siLU, parseUnary .siLU),
    ("relu", fun operands => match operands with
      | dst :: src :: _ => do return .reLU (← parseRegister dst) (← parseRegister src)
      | _ => none),
    (UnOp.mnemonic .norm, parseUnary .norm),
    ("tmatmul_import", fun operands => match operands with
      | src :: _ => do return .tmatmulImport (← parseRegister src)
      | _ => none),
    ("tmatmul_go", fun operands => match operands with
      | weights :: _ => some (.tmatmulGo (parseMemref f weights))
      | _ => none),
    ("tmatmul_export", fun operands => match operands with
      | dst :: _ => do return .tmatmulExport (← parseRegister dst)
      | _ => none)]

/-- The arm for an opcode. -/
def parseOperands (opcode : Text) (operands : List Text) : Option (Instruction V) :=
  ((parsers f).find? fun p => p.1.toList = opcode).bind fun p => p.2 operands

def parseLine (line : Text) : Option (Instruction V) :=
  (lineFields line).bind fun (opcode, operands) => parseOperands f opcode operands

def parseAssembly (asm : Text) : List (Instruction V) := (lines asm).filterMap (parseLine f)

end Parse

/-! ## Execution -/

/-- A kernel parameter: its buffer's address, 0 for null, and size. -/
structure Param where
  ptr : Nat
  size : Nat
  deriving DecidableEq, Repr

/-- What one element is executed with. The host memory is read and written through
addresses by `load` and `store`. -/
structure Env (V H : Type) where
  arith : Arith V
  load : Nat → H → V
  store : Nat → V → H → H
  params : List Param
  byteOffset : Nat
  rmsValue : V

/-- Named slots and host memory. -/
structure Memory (V H : Type) where
  named : Text → Option V
  host : H

structure Machine (V H : Type) where
  registers : Fin 8 → V
  memory : Memory V H

section Execute

variable {V H : Type} (env : Env V H)

/-- The address a parameter is accessed at, if the access is made. -/
def Env.address (idx : Nat) : Option Nat :=
  match env.params[idx]? with
  | none => none
  | some p =>
    if p.ptr = 0 then none
    else if env.byteOffset + 4 > p.size then none
    else some (p.ptr + env.byteOffset)

def readMemory (mem : MemRef V) (memory : Memory V H) : V :=
  match mem with
  | .param idx =>
    match env.address idx with
    | none => env.arith.zero
    | some addr => env.load addr memory.host
  | .spill name => (memory.named name).getD env.arith.zero
  | .const value => value

def writeMemory (mem : MemRef V) (value : V) (memory : Memory V H) : Memory V H :=
  match mem with
  | .param idx =>
    match env.address idx with
    | none => memory
    | some addr => { memory with host := env.store addr value memory.host }
  | .spill name => { memory with named := update memory.named name (some value) }
  | .const _ => memory

/-- Array access; an index out of bounds panics. -/
def register (r : Nat) : Option (Fin 8) := if h : r < 8 then some ⟨r, h⟩ else none

namespace Machine

variable (m : Machine V H)

def set (r : Fin 8) (value : V) : Machine V H :=
  { m with registers := update m.registers r value }

@[simp] theorem set_registers_self (r : Fin 8) (value : V) :
    (m.set r value).registers r = value := by
  simp [Machine.set]

@[simp] theorem set_registers_of_ne {r r' : Fin 8} (h : r' ≠ r) (value : V) :
    (m.set r value).registers r' = m.registers r' := by
  simp [Machine.set, h]

@[simp] theorem set_memory (r : Fin 8) (value : V) : (m.set r value).memory = m.memory := rfl

end Machine

/-- None where the code panics. -/
def executeInstruction (inst : Instruction V) (m : Machine V H) : Option (Machine V H) :=
  match inst with
  | .loadVector dst mem => do
    return m.set (← register dst) (readMemory env mem m.memory)
  | .storeVector src mem => do
    return { m with memory := writeMemory env mem (m.registers (← register src)) m.memory }
  | .binary op dst src1 src2 => do
    let x := m.registers (← register src1)
    let y := m.registers (← register src2)
    return m.set (← register dst) (op.eval env.arith x y)
  | .unary op dst src => do
    let x := m.registers (← register src)
    return m.set (← register dst) (op.eval env.arith env.rmsValue x)
  | .reLU dst src => do
    let x := m.registers (← register src)
    return m.set (← register dst) (if env.arith.isPositive x then x else env.arith.zero)
  -- not supported in scalar mode
  | .tmatmulImport _ => some m
  | .tmatmulGo _ => some m
  | .tmatmulExport _ => some m

section Registers

variable {env} {r r₁ r₂ : Nat} (m : Machine V H)

theorem register_of_lt (h : r < 8) : register r = some ⟨r, h⟩ := dif_pos h

theorem executeInstruction_load (h : r < 8) (mem : MemRef V) :
    executeInstruction env (.loadVector r mem) m =
      some (m.set ⟨r, h⟩ (readMemory env mem m.memory)) := by
  simp [executeInstruction, register_of_lt h]

theorem executeInstruction_store (h : r < 8) (mem : MemRef V) :
    executeInstruction env (.storeVector r mem) m =
      some { m with memory := writeMemory env mem (m.registers ⟨r, h⟩) m.memory } := by
  simp [executeInstruction, register_of_lt h]

theorem executeInstruction_binary (h : r < 8) (h₁ : r₁ < 8) (h₂ : r₂ < 8) (op : BinOp) :
    executeInstruction env (.binary op r r₁ r₂) m =
      some (m.set ⟨r, h⟩ (op.eval env.arith (m.registers ⟨r₁, h₁⟩) (m.registers ⟨r₂, h₂⟩))) := by
  simp [executeInstruction, register_of_lt h, register_of_lt h₁, register_of_lt h₂]

theorem executeInstruction_unary (h : r < 8) (h₁ : r₁ < 8) (op : UnOp) :
    executeInstruction env (.unary op r r₁) m =
      some (m.set ⟨r, h⟩ (op.eval env.arith env.rmsValue (m.registers ⟨r₁, h₁⟩))) := by
  simp [executeInstruction, register_of_lt h, register_of_lt h₁]

end Registers

/-- A write to memory: where, and which value. -/
abbrev Write (V : Type) := MemRef V × V

def instructionWrites (inst : Instruction V) (m : Machine V H) : List (Write V) :=
  match inst with
  | .storeVector src mem =>
    match register src with
    | some r => [(mem, m.registers r)]
    | none => []
  | _ => []

theorem instructionWrites_store {r : Nat} (h : r < 8) (mem : MemRef V) (m : Machine V H) :
    instructionWrites (.storeVector r mem) m = [(mem, m.registers ⟨r, h⟩)] := by
  simp [instructionWrites, register_of_lt h]

/-- One element: the instructions in order, and the writes they made. -/
def execute (m : Machine V H) : List (Instruction V) → Option (Machine V H × List (Write V))
  | [] => some (m, [])
  | inst :: rest => do
    let m' ← executeInstruction env inst m
    let (last, writes) ← execute m' rest
    return (last, instructionWrites inst m ++ writes)

end Execute

end Concordia.Tmatmul
