import Concordia.Lifter.Operand
import Concordia.Lifter.Ptx

/-!
# Lowering SASS instructions to PTX

The integer and predicate instructions of `lift_instruction`, and what `emit_entry` settles
for a whole function before it lowers the first of them: how many registers of each kind
are declared, and which registers beyond those are used as scratch.
-/

namespace Concordia.Lifter

open Concordia.Lib Concordia.Lib.Text

/-! ## Instructions -/

inductive SassMemorySpace where
  | global | shared | local | constant | texture | surface | generic
  deriving DecidableEq, Repr

/-- The fields of `EnhancedSassInstruction` that the lifter reads. -/
structure EnhancedSassInstruction where
  opcode : String
  address : Nat
  memorySpace : Option SassMemorySpace
  dataType : Option SassDataType
  predicate : Option SassOperand
  destOperands : List SassOperand
  srcOperands : List SassOperand
  modifiers : List String
  deriving DecidableEq, Repr

def eqIgnoreAsciiCase (a b : String) : Bool :=
  a.toList.map Char.toUpper == b.toList.map Char.toUpper

/-- `SassDataType::from_modifier`. -/
def SassDataType.fromModifier (modifier : String) : Option SassDataType :=
  [("U8", u8), ("U16", u16), ("U32", u32), ("U64", u64), ("U128", u128), ("S8", s8), ("S16", s16),
   ("S32", s32), ("S64", s64), ("F16", f16), ("H", f16), ("F32", f32), ("F", f32), ("F64", f64),
   ("D", f64), ("BF16", bf16), ("TF32", tf32), ("B8", b8), ("B16", b16), ("B32", b32),
   ("B64", b64), ("B128", b128)].findSome? fun entry =>
    if eqIgnoreAsciiCase (String.ofList (modifier.toList.dropWhile (· == '.'))) entry.1 then
      some entry.2
    else none

def getMemorySpace (opcode : String) : Option SassMemorySpace :=
  let isOneOf (names : List String) : Bool := names.any (eqIgnoreAsciiCase opcode)
  if isOneOf ["LDG", "STG", "ATOMG", "RED"] then some .global
  else if isOneOf ["LDS", "STS", "ATOMS"] then some .shared
  else if isOneOf ["LDL", "STL"] then some .local
  else if isOneOf ["LDC"] then some .constant
  else if isOneOf ["TEX", "TLD", "TLD4", "TXQ"] then some .texture
  else if isOneOf ["SULD", "SUST", "SUATOM"] then some .surface
  else none

namespace EnhancedSassInstruction

/-- The instruction that `parse_instruction_line` builds from the parts of a line. -/
def ofParts (address : Nat) (guard : Option SassOperand) (opcode : String)
    (modifiers : List String) (operands : List Text) : EnhancedSassInstruction where
  opcode
  address
  memorySpace := getMemorySpace opcode
  dataType := modifiers.findSome? SassDataType.fromModifier
  predicate := guard
  destOperands := (operands.head?.bind SassOperand.parse).toList
  srcOperands := operands.tail.filterMap SassOperand.parse
  modifiers

variable (inst : EnhancedSassInstruction)

def hasModifier (modifier : String) : Bool :=
  inst.modifiers.any (eqIgnoreAsciiCase · modifier)

def dataTypeSuffix (default : SassDataType) : SassDataType := inst.dataType.getD default

def is64bitModifier : Bool :=
  inst.hasModifier "64" ||
    [some SassDataType.u64, some .s64, some .b64].contains inst.dataType

def operands : List SassOperand := inst.destOperands ++ inst.srcOperands

def src (i : Nat) : Option SassOperand := inst.srcOperands[i]?

/-- `branch_target`. -/
def branchTarget : Option Nat :=
  inst.operands.findSome? fun operand =>
    match operand with
    | .immediate value => if 0 ≤ value then some value.toNat else none
    | .address address => some address
    | _ => none

end EnhancedSassInstruction

/-! ## Operands as they are printed -/

def SassRegister.isPlain (reg : SassRegister) (kind : Text) : Bool :=
  reg.kind == kind && !reg.isZero

def formatRegister (reg : SassRegister) : PtxOperand :=
  if reg.isZero then .int 0
  else if reg.kind = ['R'] then .reg32 (.r reg.number)
  else if reg.kind = ['P'] then .pred (.p reg.number)
  else if reg.kind = ['U', 'R'] then .reg32 (.ur reg.number)
  else if reg.kind = ['U', 'P'] then .pred (.up reg.number)
  else .reg32 (.r reg.number)

def hexText (n : Nat) : Text := ['0', 'x'] ++ Nat.toDigits 16 n

def staticBoolLiteral (value : Bool) : PtxOperand := .int (if value then 1 else 0)

/-- What is left of a reversed label when `.reuse` is taken off as often as it is there. -/
def stripReuseReversed : Text → Text
  | 'e' :: 's' :: 'u' :: 'e' :: 'r' :: '.' :: rest => stripReuseReversed rest
  | s => s

def stripSassOperandSuffixes (label : Text) : Text := (stripReuseReversed label.reverse).reverse

/-- What stands between the bars of `|R5|`. -/
def absoluteLabelInner (label : Text) : Option Text :=
  match stripSassOperandSuffixes label with
  | '|' :: rest => if rest.getLast? = some '|' then some rest.dropLast else none
  | _ => none

def parseAnnotatedSassOperand (label : Text) : Option SassOperand :=
  let normalized := stripSassOperandSuffixes label
  match SassOperand.parse normalized with
  | some (.label parsed) => if parsed = normalized then none else some (.label parsed)
  | operand => operand

/-- `format_operand` on everything but labels. -/
def formatUnlabelled : SassOperand → PtxOperand
  | .register reg => formatRegister reg
  | .predicate reg negated =>
    if reg.kind = ['P', 'T'] ∨ reg.kind = ['U', 'P', 'T'] then staticBoolLiteral !negated
    else if negated then .raw ['!'] else formatRegister reg
  | .immediate value => .int value
  | .floatImmediate literal => .raw literal
  | .constantBank bank offset =>
    .raw (['c', '['] ++ hexText bank ++ [']', '['] ++ hexText offset ++ [']'])
  | .memory .. => .raw ['[', ']']
  | .barrier id => .int id
  | .specialRegister name =>
    if name ∈ [['S', 'R', 'Z'], ['S', 'R', '_', 'Z'], "SR_CgaCtaId".toList,
      "SR_CGACTAID".toList] then
      .int 0
    else .raw name
  | .label name => .raw name
  | .address addr => .raw (['L', '_'] ++ Nat.toDigits 16 addr)

/-- `format_operand` on a label. A label inside bars is shorter than the whole, so its length
bounds the depth. -/
def formatLabel : Nat → Text → PtxOperand
  | 0, label => .raw label
  | depth + 1, label =>
    if label = ['S', 'R', 'Z'] ∨ label = ['S', 'R', '_', 'Z'] then .int 0
    else if label = ['P', 'T'] ∨ label = ['U', 'P', 'T'] then staticBoolLiteral true
    else if label = ['!', 'P', 'T'] ∨ label = ['!', 'U', 'P', 'T'] then staticBoolLiteral false
    else
      match (absoluteLabelInner label).bind parseAnnotatedSassOperand <|>
        parseAnnotatedSassOperand label with
      | some (.label inner) => formatLabel depth inner
      | some operand => formatUnlabelled operand
      | none => .raw label

def formatOperand : SassOperand → PtxOperand
  | .label name => formatLabel (name.length + 1) name
  | operand => formatUnlabelled operand

def formatOr (default : PtxOperand) (operand : Option SassOperand) : PtxOperand :=
  (operand.map formatOperand).getD default

def formatRegisterWithoutNegation (reg : SassRegister) : PtxOperand :=
  let kind := reg.kind.dropWhile (· == '-')
  if reg.isZero then .raw ['%', 'r', 'z']
  else if kind = ['R'] then .reg32 (.r reg.number)
  else if kind = ['U', 'R'] then .reg32 (.ur reg.number)
  else if kind = ['P'] then .pred (.p reg.number)
  else if kind = ['U', 'P'] then .pred (.up reg.number)
  else formatRegister reg

/-- An operand without its sign, and whether it has one. -/
def formatSignedOperand : SassOperand → PtxOperand × Bool
  | .register reg =>
    if reg.kind.head? = some '-' then (formatRegisterWithoutNegation reg, true)
    else (formatRegister reg, false)
  | .immediate value => if value < 0 then (.int (-value), true) else (.int value, false)
  | operand => (formatOperand operand, false)

def formatIntegerDataOperand : SassOperand → Option PtxOperand
  | .register reg =>
    if reg.kind ∈ [['R'], ['U', 'R'], ['R', 'Z'], ['U', 'R', 'Z']] ∨ reg.isZero then
      some (formatRegister reg)
    else none
  | .immediate value => some (.int value)
  | _ => none

def formatPredicateLogicOperand : SassOperand → PtxOperand
  | .register reg =>
    if reg.kind = ['P', 'T'] then .int 1
    else if reg.kind = ['P'] then .pred (.p reg.number)
    else if reg.kind = ['U', 'P'] then .pred (.up reg.number)
    else formatRegister reg
  | operand => formatOperand operand

/-- The number of a label such as `P3`. -/
def predicateLabel (letters : Text) (label : Text) : Option Nat :=
  let digits := label.drop letters.length
  if letters.isPrefixOf label ∧ digits ≠ [] ∧ digits.all Char.isDigit then
    some (Nat.ofDigitChars 10 digits 0)
  else none

/-- `format_sel_predicate_operand` on a label. -/
def formatSelLabel (label : Text) : PtxOperand × Bool :=
  if label = ['P', 'T'] ∨ label = ['U', 'P', 'T'] then (.int 1, false)
  else if label = ['!', 'P', 'T'] ∨ label = ['!', 'U', 'P', 'T'] then (.int 1, true)
  else
    match predicateLabel ['P'] label, predicateLabel ['!', 'P'] label,
      predicateLabel ['U', 'P'] label, predicateLabel ['!', 'U', 'P'] label with
    | some n, _, _, _ => (.pred (.p n), false)
    | _, some n, _, _ => (.pred (.p n), true)
    | _, _, some n, _ => (.pred (.up n), false)
    | _, _, _, some n => (.pred (.up n), true)
    | _, _, _, _ => (formatOperand (.label label), false)

/-- The predicate of a selection, and whether the two sources are swapped. -/
def formatSelPredicateOperand : SassOperand → PtxOperand × Bool
  | .predicate reg negated => (formatRegister reg, negated)
  | .register reg =>
    if reg.kind = ['P'] then (formatRegister reg, false)
    else if reg.kind = ['!', 'P'] then (.pred (.p reg.number), true)
    else if reg.kind = ['U', 'P'] then (formatRegister reg, false)
    else if reg.kind = ['!', 'U', 'P'] then (.pred (.up reg.number), true)
    else (formatRegister reg, false)
  | .label label => formatSelLabel label
  | operand => (formatOperand operand, false)

def formatRdOperand : SassOperand → PtxOperand
  | .register reg => if reg.isPlain ['R'] then .reg64 (.rd reg.number) else formatRegister reg
  | .label label => .raw label
  | operand => formatOperand operand

/-! ## Tests on operands -/

def isZeroRegisterOperand : SassOperand → Bool
  | .register reg => reg.isZero
  | _ => false

def isPtRegisterOperand : SassOperand → Bool
  | .register reg => reg.kind = ['P', 'T']
  | _ => false

def isPredicateOperand : SassOperand → Bool
  | .predicate .. => true
  | .register reg => [['P'], ['P', 'T'], ['U', 'P'], ['U', 'P', 'T']].contains reg.kind
  | .label label =>
    [['P', '0'], ['P', '1'], ['P', '2'], ['P', '3'], ['P', '4'], ['P', '5'], ['P', '6'], ['P', 'T'],
     ['U', 'P', '0'], ['U', 'P', '1'], ['U', 'P', '2'], ['U', 'P', '3'], ['U', 'P', 'T']].contains
      label
  | _ => false

def isHalf2ZeroOperand : SassOperand → Bool
  | .register reg => reg.isZero
  | .immediate value => value = 0
  | .label label =>
    [['R', 'Z'], ['-', 'R', 'Z'], ['U', 'R', 'Z'], ['-', 'U', 'R', 'Z']].contains label
  | _ => false

/-- `abs_float_operand(operand).is_some()`. -/
def isAbsFloatOperand : SassOperand → Bool
  | .label label => ((absoluteLabelInner label).bind parseAnnotatedSassOperand).isSome
  | _ => false

def hasPlainComponent (reg : SassRegister) : Bool :=
  reg.component = none || reg.component = some reuseMark

/-- Two ordinary, aligned words. -/
def supportedPairRegister (reg : SassRegister) : Bool :=
  !reg.isZero && reg.number % 2 == 0 &&
    ((reg.kind == ['R'] && decide (reg.number < 254)) ||
      (reg.kind == ['U', 'R'] && decide (reg.number < 62))) &&
    hasPlainComponent reg

def supportedU32Multiplicand : SassOperand → Bool
  | .register reg =>
    ((reg.kind == ['R'] && decide (reg.number < 255) && !reg.isZero) ||
      (reg.kind == ['U', 'R'] && decide (reg.number < 63) && !reg.isZero) ||
      ((reg.kind == ['R', 'Z'] || reg.kind == ['U', 'R', 'Z']) && reg.isZero)) &&
      hasPlainComponent reg
  | .immediate value => 0 ≤ value && value < 2 ^ 32
  | _ => false

def imadHiPairRegister (reg : SassRegister) : Bool :=
  reg.kind == ['R'] && !reg.isZero && reg.component == none && decide (reg.number ≤ 252) &&
    reg.number % 2 == 0

/-- An operand that is a register with a property. -/
def isRegisterWith (test : SassRegister → Bool) : Option SassOperand → Bool
  | some (.register reg) => test reg
  | _ => false

section

variable (inst : EnhancedSassInstruction)

def supportedImadWidePairForm : Bool :=
  inst.modifiers.length == 2 && inst.hasModifier "WIDE" && inst.hasModifier "U32" &&
    inst.destOperands.length == 1 && inst.srcOperands.length == 3 &&
    isRegisterWith (fun reg => reg.kind == ['R'] && supportedPairRegister reg &&
      reg.component == none) inst.destOperands.head? &&
    (inst.srcOperands.take 2).all supportedU32Multiplicand &&
    isRegisterWith (fun reg => (reg.kind == ['R'] && supportedPairRegister reg) ||
      (reg.kind == ['R', 'Z'] && reg.isZero && reg.component == none)) (inst.src 2)

/-- `setp_compare_operand_refs`. -/
def setpCompareOperandRefs : Option SassOperand × Option SassOperand :=
  if inst.srcOperands.length ≥ 4 ∧ inst.srcOperands.head?.any isPtRegisterOperand then
    (inst.src 1, inst.src 2)
  else (inst.src 0, inst.src 1)

def absSetpCompareOperandCount : Nat :=
  let (src0, src1) := setpCompareOperandRefs inst
  (src0.toList ++ src1.toList).countP isAbsFloatOperand

def hasAbsFloatOperand : Bool :=
  if inst.opcode ∈ ["FADD", "FMUL", "FMNMX"] then (inst.srcOperands.take 2).any isAbsFloatOperand
  else if inst.opcode = "FFMA" then (inst.srcOperands.take 3).any isAbsFloatOperand
  else if inst.opcode = "FSETP" then 0 < absSetpCompareOperandCount inst
  else false

def isLop3OddPredicate : Bool :=
  inst.opcode == "LOP3" && decide (5 ≤ inst.srcOperands.length) &&
    isRegisterWith (·.kind == ['P']) inst.destOperands.head? &&
    inst.srcOperands.head?.any isZeroRegisterOperand &&
    inst.src 2 == some (.immediate 1) && inst.src 4 == some (.immediate 0xc0)

def isLop3PredicateLut : Bool :=
  inst.opcode == "LOP3" && decide (5 ≤ inst.srcOperands.length) &&
    (match inst.src 4 with
      | some (.immediate _) => true
      | _ => false) &&
    isRegisterWith (fun reg => reg.kind == ['P'] || reg.kind == ['U', 'P']) inst.destOperands.head?

def shiftAmountImmediate : Option Int :=
  match inst.src 1 with
  | some (.immediate amount) => some amount
  | _ => none

def operandsSameRegister : Option SassOperand → Option SassOperand → Bool
  | some (.register a), some (.register b) => a = b
  | _, _ => false

def isShfLeftRotate : Bool :=
  inst.opcode == "SHF" && inst.hasModifier "HI" && !inst.hasModifier "R" &&
    (shiftAmountImmediate inst).any (fun amount => 1 ≤ amount && amount < 32) &&
    operandsSameRegister (inst.src 0) (inst.src 2)

/-- `r2p_mask`. -/
def r2pMask : Option Nat :=
  match inst.src 1 with
  | some (.immediate value) => if 0 ≤ value then some (value.toNat % 2 ^ 32) else none
  | _ => none

def cs2rSrzPairDestination : Option SassRegister :=
  let readsSrz : Bool :=
    match inst.srcOperands with
    | [.specialRegister name] => name == ['S', 'R', 'Z'] || name == ['S', 'R', '_', 'Z']
    | [.label name] => name == ['S', 'R', 'Z'] || name == ['S', 'R', '_', 'Z']
    | _ => false
  if inst.opcode = "CS2R" ∧ inst.modifiers = [] ∧ readsSrz then
    match inst.destOperands with
    | [.register reg] =>
      if reg.kind = ['R'] ∧ ¬ reg.isZero ∧ reg.number % 2 = 0 ∧ reg.number < 254 ∧
        reg.component = none then some reg
      else none
    | _ => none
  else none

end

/-! ## Register declarations -/

/-- `RegisterDecls`: for each kind of register, a bound on the numbers in use. -/
structure RegisterDecls where
  maxGpr : Nat
  maxPred : Nat
  maxUniformGpr : Nat
  maxUniformPred : Nat
  maxB64 : Nat
  deriving DecidableEq, Repr

namespace RegisterDecls

def empty : RegisterDecls := ⟨0, 0, 0, 0, 0⟩

variable (decls : RegisterDecls)

def raiseGpr (n : Nat) : RegisterDecls := { decls with maxGpr := max decls.maxGpr n }

def raisePred (n : Nat) : RegisterDecls := { decls with maxPred := max decls.maxPred n }

def raiseUniformGpr (n : Nat) : RegisterDecls :=
  { decls with maxUniformGpr := max decls.maxUniformGpr n }

def raiseUniformPred (n : Nat) : RegisterDecls :=
  { decls with maxUniformPred := max decls.maxUniformPred n }

/-- `collect_register`: only the four plain prefixes are counted. -/
def collectRegister (reg : SassRegister) : RegisterDecls :=
  if reg.isZero ∨ 2 ^ 32 ≤ reg.number + 1 then decls
  else if reg.kind = ['R'] then decls.raiseGpr (reg.number + 1)
  else if reg.kind = ['P'] then decls.raisePred (reg.number + 1)
  else if reg.kind = ['U', 'R'] then decls.raiseUniformGpr (reg.number + 1)
  else if reg.kind = ['U', 'P'] then decls.raiseUniformPred (reg.number + 1)
  else decls

def collectOptional : Option SassRegister → RegisterDecls
  | some reg => decls.collectRegister reg
  | none => decls

/-- `collect_register_decl`. -/
def collectOperand : SassOperand → RegisterDecls
  | .register reg => decls.collectRegister reg
  | .predicate reg _ => decls.collectRegister reg
  | .memory base _ index _ => (decls.collectOptional base).collectOptional index
  | _ => decls

/-- The upper word of a pair. -/
def collectPair : SassOperand → RegisterDecls
  | .register reg =>
    if reg.isZero then decls
    else if reg.kind = ['R'] ∧ reg.number < 254 then decls.raiseGpr (reg.number + 2)
    else if reg.kind = ['U', 'R'] ∧ reg.number < 62 then decls.raiseUniformGpr (reg.number + 2)
    else decls
  | _ => decls

/-- The upper word of the addend of `IMAD.HI.U32`. -/
def collectImadHiAddend (inst : EnhancedSassInstruction) : RegisterDecls :=
  if inst.opcode = "IMAD" ∧ inst.hasModifier "HI" ∧ inst.hasModifier "U32" then
    match inst.src 2 with
    | some (.register reg) =>
      if imadHiPairRegister reg then decls.raiseGpr (reg.number + 2) else decls
    | _ => decls
  else decls

def pairOperands (inst : EnhancedSassInstruction) : List SassOperand :=
  if supportedImadWidePairForm inst then inst.destOperands ++ inst.srcOperands.drop 2
  else if inst.is64bitModifier then inst.operands
  else []

def collectImplicitRegisterPair (inst : EnhancedSassInstruction) : RegisterDecls :=
  (pairOperands inst).foldl collectPair (decls.collectImadHiAddend inst)

def collectImplicitCs2rSrzPair (inst : EnhancedSassInstruction) : RegisterDecls :=
  match cs2rSrzPairDestination inst with
  | some dst => decls.raiseGpr (dst.number + 2)
  | none => decls

/-- The register after `][R`. -/
def descAddressRegisterNumber (label : Text) : Option Nat :=
  ((label.tails.find? ([']', '[', 'R'].isPrefixOf ·)).map (·.drop 3)).bind fun rest =>
    parseUnsigned (2 ^ 32) (rest.takeWhile Char.isDigit)

def collectDescAddress : SassOperand → RegisterDecls
  | .label label =>
    if Text.contains ['.', '6', '4'] label then
      match descAddressRegisterNumber label with
      | some n => if n < 254 ∧ n % 2 = 0 then decls.raiseGpr (n + 2) else decls
      | none => decls
    else decls
  | _ => decls

def collectImplicitR2pPredicate (inst : EnhancedSassInstruction) : RegisterDecls :=
  if inst.opcode = "R2P" then
    match r2pMask inst with
    | some mask => if mask = 0 then decls else decls.raisePred (Nat.log2 mask + 1)
    | none => decls
  else decls

def collectInstruction (inst : EnhancedSassInstruction) : RegisterDecls :=
  let decls := inst.operands.foldl collectOperand decls
  let decls := inst.predicate.toList.foldl collectOperand decls
  let decls := decls.collectImplicitRegisterPair inst
  let decls := decls.collectImplicitCs2rSrzPair inst
  let decls := inst.operands.foldl collectDescAddress decls
  decls.collectImplicitR2pPredicate inst

def fromInstructions (instructions : List EnhancedSassInstruction) : RegisterDecls :=
  instructions.foldl collectInstruction empty

end RegisterDecls

/-! ## The context of a function -/

def needsGprScratch (instructions : List EnhancedSassInstruction) : Bool :=
  instructions.any fun inst =>
    (inst.opcode == "IADD3" && inst.srcOperands.length == 3) || isLop3OddPredicate inst ||
      isLop3PredicateLut inst ||
      (inst.opcode == "HADD2" && inst.srcOperands.any isHalf2ZeroOperand) ||
      inst.opcode == "R2P" || isShfLeftRotate inst || hasAbsFloatOperand inst

def needsSecondGprScratch (instructions : List EnhancedSassInstruction) : Bool :=
  instructions.any fun inst =>
    inst.opcode == "FSETP" && decide (1 < absSetpCompareOperandCount inst)

def isLocalCall (inst : EnhancedSassInstruction) : Bool :=
  (inst.opcode == "CALL" || inst.opcode == "CAL" || inst.opcode == "JCAL") &&
    (inst.hasModifier "REL" || inst.branchTarget.isSome)

/-- The address and the target of each local call. -/
def localCallSites (instructions : List EnhancedSassInstruction) : List (Nat × Nat) :=
  (instructions.filter isLocalCall).filterMap fun inst =>
    inst.branchTarget.map (inst.address, ·)

/-- `cuda_param_decls` is not empty. -/
def usesCudaParamAbi (instructions : List EnhancedSassInstruction) : Bool :=
  instructions.any fun inst => inst.operands.any fun operand =>
    match operand with
    | .constantBank 0 offset => 0x380 ≤ offset
    | _ => false

def usesSharedMemory (instructions : List EnhancedSassInstruction) : Bool :=
  instructions.any fun inst =>
    inst.memorySpace == some .shared || inst.opcode == "LDS" || inst.opcode == "STS"

def needsB64Scratch (instructions : List EnhancedSassInstruction) : Bool :=
  instructions.any fun inst =>
    (inst.opcode == "IADD" && inst.is64bitModifier) ||
      (inst.opcode == "IMAD" && inst.hasModifier "WIDE")

section

variable (instructions : List EnhancedSassInstruction)

/-- The number of `%r` registers with the first scratch register. -/
def gprWithScratch : Nat :=
  (RegisterDecls.fromInstructions instructions).maxGpr +
    if needsGprScratch instructions then 1 else 0

/-- The first `%r` register that the call lowering may take. -/
def callBase : Nat :=
  gprWithScratch instructions + if needsSecondGprScratch instructions then 1 else 0

/-- Stack pointer, return id and one slot for each call site. -/
def callGprCount : Nat :=
  if localCallSites instructions = [] then 0 else 2 + (localCallSites instructions).length

/-- The number of `%rd` registers before the scratch pair. -/
def b64Base : Nat :=
  let gprs := callBase instructions + callGprCount instructions
  let b64 := max (RegisterDecls.fromInstructions instructions).maxB64 gprs
  if 0 < gprs ∨ usesCudaParamAbi instructions ∨ usesSharedMemory instructions then max b64 16
  else b64

end

/-- What `emit_entry` fixes before it lowers the instructions. -/
structure LiftContext where
  scratchGpr : Option Nat
  scratchGpr2 : Option Nat
  scratchB64 : Option Nat
  deriving DecidableEq, Repr

/-- `none` when a count of registers leaves `u32`. -/
def LiftContext.ofEntry (instructions : List EnhancedSassInstruction) : Option LiftContext :=
  if b64Base instructions + 1 < 2 ^ 32 ∧
      (RegisterDecls.fromInstructions instructions).maxPred + 1 < 2 ^ 32 then
    some
      { scratchGpr :=
          if needsGprScratch instructions then
            some (RegisterDecls.fromInstructions instructions).maxGpr
          else none
        scratchGpr2 :=
          if needsSecondGprScratch instructions then some (gprWithScratch instructions) else none
        scratchB64 := if needsB64Scratch instructions then some (b64Base instructions) else none }
  else none

/-- The scratch register, or `%r0`. -/
def LiftContext.scratch (ctx : LiftContext) : PtxOperand := .reg32 (.r (ctx.scratchGpr.getD 0))

/-! ## Pairs of words -/

/-- `{%rN, %rN+1}`. -/
def wordPair (word : Nat → Reg32) (n : Nat) : PtxOperand × PtxOperand :=
  (.reg32 (word n), .reg32 (word (n + 1)))

def packPair (d : Reg64) (word : Nat → Reg32) (n : Nat) : PtxOp :=
  .pack (.reg64 d) (wordPair word n).1 (wordPair word n).2

def pairRead (urScratch : Nat) : SassOperand → Option (List PtxOp × PtxOperand)
  | .register reg =>
    if reg.isZero then some ([], .int 0)
    else if reg.kind = ['R'] then
      some ([packPair (.rd reg.number) .r reg.number], .reg64 (.rd reg.number))
    else if reg.kind = ['U', 'R'] then
      some ([packPair (.rd urScratch) .ur reg.number], .reg64 (.rd urScratch))
    else none
  | _ => none

def pairWrite : SassOperand → Option PtxOp
  | .register reg =>
    if reg.kind = ['R'] ∧ ¬ reg.isZero then
      some (.unpack (wordPair .r reg.number).1 (wordPair .r reg.number).2 (.reg64 (.rd reg.number)))
    else none
  | _ => none

section

variable (inst : EnhancedSassInstruction)

/-- The checks of `iadd_64_op`. -/
def iadd64Supported : Bool :=
  inst.modifiers.length == 1 && inst.hasModifier "64" && inst.destOperands.length == 1 &&
    inst.srcOperands.length == 2 && isRegisterWith (·.isPlain ['R']) inst.destOperands.head? &&
    isRegisterWith (·.isPlain ['R']) (inst.src 0) &&
    isRegisterWith (fun reg => reg.isPlain ['R'] || reg.isPlain ['U', 'R']) (inst.src 1) &&
    inst.operands.all (fun operand => match operand with
      | .register reg => supportedPairRegister reg
      | _ => true) &&
    decide ((inst.srcOperands.take 2).countP
      (fun operand => isRegisterWith (·.isPlain ['U', 'R']) (some operand)) ≤ 1)

def iadd64Op (urScratch : Nat) : Option (List PtxOp) :=
  if iadd64Supported inst then do
    let dst ← inst.destOperands.head?
    let (setup0, wide0) ← (inst.src 0).bind (pairRead urScratch)
    let (setup1, wide1) ← (inst.src 1).bind (pairRead urScratch)
    let output ← pairWrite dst
    return setup0 ++ setup1 ++ [.add64 (formatRdOperand dst) wide0 wide1, output]
  else none

/-- `wide_pair_base_operand_setup`. -/
def widePairBaseOperandSetup : SassOperand → List PtxOp × PtxOperand
  | .register reg =>
    if reg.isPlain ['U', 'R'] then
      ([packPair (.rd reg.number) .ur reg.number], .reg64 (.rd reg.number))
    else if reg.isPlain ['R'] then
      ([packPair (.rd reg.number) .r reg.number], .reg64 (.rd reg.number))
    else ([], formatRdOperand (.register reg))
  | operand => ([], formatRdOperand operand)

def imadWideOp (productScratch : Nat) : List PtxOp :=
  let dst := (inst.destOperands.head?.map formatRdOperand).getD (.reg64 (.rd 0))
  let data := (inst.srcOperands.filter fun o => (formatIntegerDataOperand o).isSome).take 3
  let src0 := formatOr (.int 0) data[0]?
  let src1 := formatOr (.int 0) data[1]?
  let (setup, base) := (data[2]?.map widePairBaseOperandSetup).getD ([], .int 0)
  .mulWide (.reg64 (.rd productScratch)) src0 src1 ::
    (setup ++ .add64 dst base (.reg64 (.rd productScratch)) ::
      (inst.destOperands.head?.bind pairWrite).toList)

def imadHiU32Source : SassOperand → Option PtxOperand
  | .register reg =>
    if reg.component = none ∧
        ((reg.isPlain ['R'] ∧ reg.number < 255) ∨ reg.kind = ['R', 'Z']) then
      some (formatRegister reg)
    else none
  | .immediate value => if 0 ≤ value ∧ value < 2 ^ 32 then some (.int value) else none
  | _ => none

def imadHiAddend : SassOperand → Option PtxOp
  | .register reg =>
    if reg.kind = ['R', 'Z'] ∧ reg.component = none then some (.mov64 (.reg64 .imadAddend) (.int 0))
    else if imadHiPairRegister reg then some (packPair .imadAddend .r reg.number)
    else none
  | _ => none

def imadHiU32Op : Option (List PtxOp) :=
  match inst.destOperands, inst.srcOperands with
  | [.register dst], [src0, src1, src2] =>
    if inst.modifiers.all (fun m => eqIgnoreAsciiCase m "HI" || eqIgnoreAsciiCase m "U32") ∧
        dst.isPlain ['R'] ∧ dst.number < 255 ∧ dst.component = none then do
      let src0 ← imadHiU32Source src0
      let src1 ← imadHiU32Source src1
      let addend ← imadHiAddend src2
      let product : PtxOperand := .reg64 .imadProduct
      return [.mulWide product src0 src1, addend, .add64 product product (.reg64 .imadAddend),
        .shr64 product product (.int 32), .cvt32 (formatRegister dst) product]
    else none
  | _, _ => none

/-! ## Sums -/

def destOperand (default : PtxOperand) : PtxOperand := formatOr default inst.destOperands.head?

/-- The first three integer operands, with zeros for those that are missing. -/
def integerValues : PtxOperand × PtxOperand × PtxOperand :=
  let values := (inst.srcOperands.filterMap formatIntegerDataOperand).take 3
  (values[0]?.getD (.int 0), values[1]?.getD (.int 0), values[2]?.getD (.int 0))

def binaryAdd (ty : SassDataType) : List PtxOp :=
  [.add ty (destOperand inst (.reg32 (.r 0))) (formatOr (.int 0) (inst.src 0))
    (formatOr (.int 0) (inst.src 1))]

def iadd3Op (ty : SassDataType) (scratch : PtxOperand) : List PtxOp :=
  let dst := destOperand inst (.reg32 (.r 0))
  let (src0, src1, src2) := integerValues inst
  [.add ty scratch src0 src1, .add ty dst scratch src2]

/-- The operands that `iadd3_extended_op` adds. -/
def extendedTerms : List (PtxOperand × Bool) :=
  (inst.srcOperands.filter fun o => !isZeroRegisterOperand o && !isPredicateOperand o).map
    formatSignedOperand

/-- Each further term is added to the destination. -/
def accumulate (ty : SassDataType) (dst : PtxOperand) (term : PtxOperand × Bool) : PtxOp :=
  if term.2 then .sub ty dst dst term.1 else .add ty dst dst term.1

def sumTerms (ty : SassDataType) (dst : PtxOperand) : List (PtxOperand × Bool) → List PtxOp
  | [] => [.mov dst (.int 0)]
  | [(src, false)] => [.mov dst src]
  | [(src, true)] => [.sub ty dst (.int 0) src]
  | [(src0, false), (src1, false)] => [.add ty dst src0 src1]
  | [(src0, false), (src1, true)] => [.sub ty dst src0 src1]
  | [(src0, true), (src1, false)] => [.sub ty dst src1 src0]
  | [(src0, true), (src1, true)] => [.sub ty dst (.int 0) src0, .sub ty dst dst src1]
  | (src0, negated) :: rest =>
    (if negated then .sub ty dst (.int 0) src0 else .mov dst src0) ::
      rest.map (accumulate ty dst)

def iadd3ExtendedOp (ty : SassDataType) : List PtxOp :=
  sumTerms ty (destOperand inst (.reg32 (.r 0))) (extendedTerms inst)

/-- The order in which `uiadd3_op` takes three values: one that is the destination first. -/
def uniformOrder (dst : PtxOperand) (values : PtxOperand × PtxOperand × PtxOperand) :
    PtxOperand × PtxOperand × PtxOperand :=
  let (v0, v1, v2) := values
  if v0 = dst then (v0, v1, v2)
  else if v1 = dst then (v1, v0, v2)
  else if v2 = dst then (v2, v0, v1)
  else (v0, v1, v2)

def uiadd3Op : List PtxOp :=
  let dst := destOperand inst (.reg32 (.ur 0))
  let (first, second, third) := uniformOrder dst (integerValues inst)
  [.add .u32 dst first second, .add .u32 dst dst third]

/-! ## Rotation and predicates -/

/-- The rotate case of `shf_op`. -/
def rotateOp (scratch : PtxOperand) : List PtxOp :=
  let dst := destOperand inst (.reg32 (.r 0))
  let amount := formatOr (.int 0) (inst.src 1)
  let value := formatOr (.int 0) (inst.src 0)
  let rightAmount := ((shiftAmountImmediate inst).map (32 - ·)).getD 0
  [.shl dst value amount, .shr scratch value (.int rightAmount), .logic .or dst dst scratch]

/-- The two lines for one predicate of `r2p_op`. -/
def r2pBit (scratch src : PtxOperand) (bit : Nat) : List PtxOp :=
  [.logic .and scratch src (.int (2 ^ bit)), .setp .ne .u32 (.pred (.p bit)) scratch (.int 0)]

def r2pOp (scratch : PtxOperand) : List PtxOp :=
  let src := formatOr (.int 0) (inst.src 0)
  let mask := (r2pMask inst).getD 0
  let bits := (List.range 8).filter (Nat.testBit mask ·)
  if bits = [] then [.comment] else bits.flatMap (r2pBit scratch src)

def comparisonOf (modifier : String) : Option Comparison :=
  let named (name : String) :=
    eqIgnoreAsciiCase (String.ofList (modifier.toList.dropWhile (· == '.'))) name
  if named "EQ" then some .eq
  else if named "NE" || named "NEU" then some .ne
  else if named "LT" || named "LO" then some .lt
  else if named "LE" || named "LS" then some .le
  else if named "GT" || named "HI" then some .gt
  else if named "GE" || named "HS" then some .ge
  else none

/-- `comparison_suffix`. -/
def comparisonSuffix : Comparison := (inst.modifiers.findSome? comparisonOf).getD .eq

/-- `setp_data_type_suffix`; no printed operand is a `%rd` register. -/
def setpDataTypeSuffix (default : SassDataType) (src0 src1 : PtxOperand) : SassDataType :=
  let suffix := inst.dataTypeSuffix default
  if src0.isReg64 && src1.isReg64 then suffix
  else if suffix = .u64 then .u32
  else if suffix = .s64 then .s32
  else suffix

/-- `setp_op` for `ISETP`. -/
def setpOp : List PtxOp :=
  let (ref0, ref1) := setpCompareOperandRefs inst
  let src0 := formatOr (.int 0) ref0
  let src1 := formatOr (.int 0) ref1
  [.setp (comparisonSuffix inst) (setpDataTypeSuffix inst .s32 src0 src1)
    (destOperand inst (.pred (.p 0))) src0 src1]

def selOp : List PtxOp :=
  let src0 := formatOr (.int 0) (inst.src 0)
  let src1 := formatOr (.int 0) (inst.src 1)
  let (predicate, negated) :=
    ((inst.src 2).map formatSelPredicateOperand).getD (.pred (.p 0), false)
  let ty := inst.dataTypeSuffix .u32
  let dst := destOperand inst (.reg32 (.r 0))
  if negated then [.selp ty dst src1 src0 predicate] else [.selp ty dst src0 src1 predicate]

/-- Bit `index` of a truth table. -/
def lutBit (lut : Int) (index : Nat) : Bool := (lut / 2 ^ index) % 2 ≠ 0

/-- The operation of a truth table whose third input is true. -/
def reducedOperator (lut : Int) : Option LogicOp :=
  let entry (lhs rhs : Nat) : Nat :=
    if lutBit lut (1 ||| lhs <<< 1 ||| rhs <<< 2) then 2 ^ (lhs ||| rhs <<< 1) else 0
  let reduced := entry 0 0 + entry 0 1 + entry 1 0 + entry 1 1
  if reduced = 0x8 then some .and
  else if reduced = 0xe then some .or
  else if reduced = 0x6 then some .xor
  else none

def plop3BinaryLutOperator : Option LogicOp :=
  if inst.opcode = "PLOP3" ∧ 5 ≤ inst.srcOperands.length ∧
      inst.srcOperands.head?.any isPtRegisterOperand then
    match inst.src 4 with
    | some (.immediate lut) => reducedOperator lut
    | _ => none
  else none

def plop3BinaryLutOp : List PtxOp :=
  let source (i : Nat) :=
    ((inst.src i).map formatPredicateLogicOperand).getD (.pred (.p 0))
  [.predLogic ((plop3BinaryLutOperator inst).getD .or) (destOperand inst (.pred (.p 0)))
    (source 1) (source 2)]

/-! ## One instruction -/

/-- `predicate_prefix`. -/
def predicatePrefix : Option PtxGuard :=
  match inst.predicate with
  | some (.predicate reg negated) => some ⟨formatRegister reg, negated⟩
  | _ => none

end

/-- What `lift_instruction` does with an instruction: it emits lines, or it reports a
diagnostic. Lowerings that are not modelled are `other`. -/
inductive Lifted where
  | lines (ops : List PtxOp)
  | unsupported (message : String)
  | other
  deriving DecidableEq, Repr

/-- `lift_instruction`; every operation gets the guard of the instruction. -/
def liftInstruction (ctx : LiftContext) (inst : EnhancedSassInstruction) : Lifted :=
  if inst.opcode = "IADD" then
    if inst.is64bitModifier then
      match ctx.scratchB64.bind (iadd64Op inst) with
      | some ops => .lines ops
      | none => .unsupported "IADD.64 register-pair form is not supported"
    else .lines (binaryAdd inst (inst.dataTypeSuffix .s32))
  else if inst.opcode = "IADD3" then
    if 3 < inst.srcOperands.length then .lines (iadd3ExtendedOp inst (inst.dataTypeSuffix .u32))
    else if inst.srcOperands.length = 3 then
      .lines (iadd3Op inst (inst.dataTypeSuffix .s32) ctx.scratch)
    else .lines (binaryAdd inst (inst.dataTypeSuffix .s32))
  else if inst.opcode = "IMAD" then
    if inst.hasModifier "HI" then
      if ¬ inst.hasModifier "U32" then
        .unsupported "IMAD.HI form other than U32 is not supported"
      else
        match imadHiU32Op inst with
        | some ops => .lines ops
        | none => .unsupported "unsupported IMAD.HI.U32 modifiers or operand layout"
    else if inst.hasModifier "WIDE" then
      if ¬ supportedImadWidePairForm inst then
        .unsupported "IMAD.WIDE operand form is not supported by pair repair"
      else
        match ctx.scratchB64 with
        | some scratch => .lines (imadWideOp inst scratch)
        | none => .unsupported "IMAD.WIDE pair scratch is unavailable"
    else .other
  else if inst.opcode = "SHF" then
    if isShfLeftRotate inst then .lines (rotateOp inst ctx.scratch) else .other
  else if inst.opcode = "UIADD3" then .lines (uiadd3Op inst)
  else if inst.opcode = "ISETP" then .lines (setpOp inst)
  else if inst.opcode = "SEL" then .lines (selOp inst)
  else if inst.opcode = "PLOP3" then
    if (plop3BinaryLutOperator inst).isSome then .lines (plop3BinaryLutOp inst)
    else .unsupported "predicate LOP3 lifting is not implemented"
  else if inst.opcode = "R2P" then .lines (r2pOp inst ctx.scratch)
  else .other

end Concordia.Lifter
