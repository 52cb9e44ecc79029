import Concordia.Sass.Encoding

/-!
# The disassembler

`SassDisassembler` of the `ptx` crate: its own opcode table and its own reading of the
bit layout. An absent source is register 255 to it.
-/

namespace Concordia.Sass

open Concordia.Lib Concordia.Lib.LittleEndian

inductive SmVersion where
  | sm50 | sm52 | sm53 | sm60 | sm61 | sm62 | sm70 | sm72 | sm75
  | sm80 | sm86 | sm87 | sm89 | sm90 | sm100 | sm120 | sm120a
  deriving DecidableEq, Repr

namespace SmVersion

def fromVersion : Nat → Option SmVersion
  | 50 => some sm50
  | 52 => some sm52
  | 53 => some sm53
  | 60 => some sm60
  | 61 => some sm61
  | 62 => some sm62
  | 70 => some sm70
  | 72 => some sm72
  | 75 => some sm75
  | 80 => some sm80
  | 86 => some sm86
  | 87 => some sm87
  | 89 => some sm89
  | 90 => some sm90
  | 100 => some sm100
  | 120 => some sm120
  | 121 => some sm120a
  | _ => none

def uses128bit : SmVersion → Bool
  | sm50 | sm52 | sm53 | sm60 | sm61 | sm62 => false
  | _ => true

/-- In bytes. -/
def instructionSize : SmVersion → Nat
  | sm50 | sm52 | sm53 | sm60 | sm61 | sm62 => 8
  | _ => 16

end SmVersion

/-- The entries of `OpcodeTable::new`. -/
def opcodeNames : List (BitVec 16 × String) :=
  [(0x380, "LDG"), (0x381, "LDG.E"), (0x385, "STG"), (0x386, "STG.E"), (0x388, "LDS"),
    (0x389, "STS"), (0x38C, "LDL"), (0x38D, "STL"), (0x390, "LDC"),
    (0x3A8, "ATOMG"), (0x3A9, "ATOMS"), (0x3AC, "RED"),
    (0x210, "IADD"), (0x211, "IADD3"), (0x214, "IMAD"), (0x215, "IMAD.WIDE"), (0x218, "IMUL"),
    (0x21C, "ISETP"), (0x21D, "ISET"), (0x220, "IABS"), (0x221, "INEG"),
    (0x300, "FADD"), (0x304, "FMUL"), (0x308, "FFMA"), (0x30C, "FSETP"), (0x30D, "FSET"),
    (0x310, "FABS"), (0x311, "FNEG"), (0x318, "MUFU"),
    (0x320, "DADD"), (0x324, "DMUL"), (0x328, "DFMA"),
    (0x200, "LOP"), (0x201, "LOP3"), (0x204, "SHL"), (0x205, "SHR"), (0x208, "BFE"),
    (0x209, "BFI"), (0x20C, "FLO"), (0x20D, "POPC"),
    (0x340, "I2I"), (0x344, "I2F"), (0x348, "F2I"), (0x34C, "F2F"),
    (0x100, "MOV"), (0x101, "MOV32I"), (0x104, "PRMT"), (0x108, "SEL"), (0x10C, "SHFL"),
    (0x110, "S2R"), (0x114, "CS2R"),
    (0x000, "BRA"), (0x001, "BRX"), (0x004, "JMP"), (0x005, "JMX"), (0x008, "CAL"),
    (0x009, "JCAL"), (0x00C, "RET"), (0x010, "EXIT"),
    (0x020, "BAR"), (0x024, "DEPBAR"), (0x028, "MEMBAR"),
    (0x180, "PSETP"), (0x184, "PLOP3"), (0x188, "P2R"), (0x18C, "R2P"),
    (0x400, "TEX"), (0x404, "TLD"), (0x408, "TLD4"), (0x40C, "TXQ"),
    (0x360, "HADD2"), (0x364, "HMUL2"), (0x368, "HFMA2"),
    (0x3C0, "HMMA"), (0x3C4, "IMMA"),
    (0x7FF, "NOP")]

/-- `OpcodeTable::lookup`. -/
def opcodeName (opcodeBits : BitVec 16) : String := (opcodeNames.lookup opcodeBits).getD "UNK"

/-- `SassRegister`; `kind` is its `prefix`. -/
structure SassRegister where
  kind : String
  number : Nat
  isUniform : Bool
  isZero : Bool
  deriving DecidableEq, Repr

/-- `SassRegister::new`. -/
def SassRegister.new (kind : String) (number : Nat) : SassRegister :=
  { kind, number
    isUniform := kind.startsWith "UR" || kind.startsWith "UP"
    isZero := kind == "RZ" || kind == "URZ" || kind == "PT" }

/-- The operands the decoders build. -/
inductive SassOperand where
  | register (r : SassRegister)
  | predicate (r : SassRegister) (negated : Bool)
  deriving DecidableEq, Repr

structure SassControlCodes where
  stallCount : UInt8
  yieldFlag : Bool
  writeBarrier : UInt8
  readBarrier : UInt8
  waitBarrierMask : UInt8
  reuseFlags : UInt8
  deriving DecidableEq, Repr

/-- The decoded parts of an `EnhancedSassInstruction`. -/
structure EnhancedSassInstruction where
  opcode : String
  address : Nat
  size : Nat
  encodingLo : BitVec 64
  encodingHi : Option (BitVec 64)
  predicate : Option SassOperand
  destOperands : List SassOperand
  srcOperands : List SassOperand
  controlCodes : SassControlCodes

/-- `PT` and its negation both read as no predicate. -/
def decodePredicate (lo : BitVec 64) : Option SassOperand :=
  if (field lo 16 3).toNat < 7 then
    some (.predicate (.new "P" (field lo 16 3).toNat) (field lo 19 1 ≠ 0))
  else none

def decodeDest (lo : BitVec 64) : List SassOperand :=
  if (field lo 0 8).toNat < 255 then [.register (.new "R" (field lo 0 8).toNat)]
  else [.register (.new "RZ" 255)]

/-- A source that may be absent. -/
def decodeOptional (reg : BitVec 8) : List SassOperand :=
  if reg.toNat < 255 then [.register (.new "R" reg.toNat)] else []

def decodeControl (hi : BitVec 64) : SassControlCodes :=
  { stallCount := ⟨(field hi 0 4).setWidth 8⟩
    yieldFlag := field hi 4 1 ≠ 0
    writeBarrier := ⟨(field hi 5 3).setWidth 8⟩
    readBarrier := ⟨(field hi 8 3).setWidth 8⟩
    waitBarrierMask := ⟨(field hi 11 6).setWidth 8⟩
    reuseFlags := ⟨(field hi 17 4).setWidth 8⟩ }

/-- `SassControlCodes::default`. -/
def SassControlCodes.zero : SassControlCodes := ⟨0, false, 0, 0, 0, 0⟩

def createInvalidInstruction (version : SmVersion) (address : Nat) : EnhancedSassInstruction :=
  ⟨"???", address, version.instructionSize, 0, none, none, [], [], .zero⟩

def decode64bit (version : SmVersion) (bytes : List UInt8) (address : Nat) :
    EnhancedSassInstruction :=
  if bytes.length < 8 then createInvalidInstruction version address
  else
    let encoding := (u64OfLe (bytes.take 8)).toBitVec
    { opcode := opcodeName ((field encoding 52 12).setWidth 16)
      address
      size := 8
      encodingLo := encoding
      encodingHi := none
      predicate := decodePredicate encoding
      destOperands := decodeDest encoding
      srcOperands := [.register (.new "R" (field encoding 8 8).toNat),
        .register (.new "R" (field encoding 20 8).toNat)]
      controlCodes := .zero }

def decode128bit (version : SmVersion) (bytes : List UInt8) (address : Nat) :
    EnhancedSassInstruction :=
  if bytes.length < 16 then createInvalidInstruction version address
  else
    let lo := (u64OfLe (bytes.take 8)).toBitVec
    let hi := (u64OfLe ((bytes.drop 8).take 8)).toBitVec
    { opcode := opcodeName ((field lo 52 12).setWidth 16)
      address
      size := 16
      encodingLo := lo
      encodingHi := some hi
      predicate := decodePredicate lo
      destOperands := decodeDest lo
      srcOperands := .register (.new "R" (field lo 8 8).toNat) ::
        (decodeOptional (field lo 20 8) ++ decodeOptional (field lo 28 8))
      controlCodes := decodeControl hi }

def decodeInstruction (version : SmVersion) (bytes : List UInt8) (address : Nat) :
    EnhancedSassInstruction :=
  if version.uses128bit then decode128bit version bytes address
  else decode64bit version bytes address

theorem SmVersion.instructionSize_pos (version : SmVersion) : 0 < version.instructionSize := by
  cases version <;> decide

/-- `disassemble`: one instruction after another while a whole one is left. -/
def disassemble (version : SmVersion) (code : List UInt8) (address : Nat) :
    List EnhancedSassInstruction :=
  if version.instructionSize ≤ code.length then
    decodeInstruction version code address ::
      disassemble version (code.drop version.instructionSize) (address + version.instructionSize)
  else []
termination_by code.length
decreasing_by
  have := version.instructionSize_pos
  simp only [List.length_drop]
  omega

end Concordia.Sass
