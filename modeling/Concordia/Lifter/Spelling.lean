import Concordia.Lifter.Pairs

/-!
# Operands as the disassembler spells them

The integer and predicate operands of `cuobjdump`'s text, what they mean, the record that
`SassOperand::parse` makes of them and the PTX operand that the lifter prints for that record.
Where the record and the meaning part ways, the lifter goes wrong.
-/

namespace Concordia.Lifter

open Concordia.Lib Concordia.Lib.Text SassOperand

/-! ## Guards -/

/-- `@Pn` or `@!Pn`. -/
structure Guard where
  negated : Bool
  n : Fin 7
  deriving DecidableEq, Repr

namespace Guard

variable (g : Guard)

def text : Text := '@' :: ((if g.negated then ['!'] else []) ++ registerText ['P'] g.n false)

def operand : SassOperand := .predicate (registerOf ['P'] g.n false) g.negated

theorem parse_text : parse g.text = some g.operand := by
  have hkind : IsKind ['P'] := isKind_of_mem (by decide)
  have hnum : g.n.val < 2 ^ 32 := by omega
  have hparse := SassRegister.parse_registerText g.n.val false hkind hnum
  have hsolid : Solid g.text := by
    unfold text
    cases g.negated
    · exact Solid.append (s := ['@']) (by decide) (solid_registerText _ _ hkind)
    · exact Solid.append (s := ['@', '!']) (by decide) (solid_registerText _ _ hkind)
  unfold parse
  simp only [hsolid.trimmed.trim_eq]
  unfold text operand
  have hhead : (registerText ['P'] g.n false).head? = some 'P' := rfl
  cases hneg : g.negated with
  | false => simp [hhead, hparse]
  | true => simp [hparse]

def holds (s : Regs) : Bool := s.pred (.p g.n) != g.negated

end Guard

/-- The operand that guards an instruction, if there is one. -/
def guardOperand (g : Option Guard) : Option SassOperand := g.bind (parse ·.text)

theorem guardOperand_eq (g : Option Guard) : guardOperand g = g.map Guard.operand := by
  cases g with
  | none => rfl
  | some g => exact g.parse_text

variable {inst : EnhancedSassInstruction}

theorem guardedByPredicate_of {g : Option Guard} (h : inst.predicate = guardOperand g) :
    inst.GuardedByPredicate := by
  rw [guardOperand_eq] at h
  cases g with
  | none => exact .inl h
  | some g => exact .inr ⟨g.n, Nat.lt_succ_iff.mp g.n.isLt, g.negated, h⟩

theorem guardHolds_of {g : Option Guard} (h : inst.predicate = guardOperand g) (s : Regs) :
    inst.guardHolds s = g.all (·.holds s) := by
  rw [guardOperand_eq] at h
  unfold EnhancedSassInstruction.guardHolds
  rw [h]
  cases g <;> rfl

/-! ## Integer operands -/

/-- A text that is read as an integer. -/
structure ImmText where
  text : Text
  value : Int
  parses : parse text = some (.immediate value)

/-- A text that is read as a place in a constant bank. -/
structure BankText where
  text : Text
  bank : Nat
  offset : Nat
  parses : parse text = some (.constantBank bank offset)

/-- An integer operand without a sign. -/
inductive WordOperand where
  | r (n : Fin 255) (reuse : Bool)
  | ur (n : Fin 63) (reuse : Bool)
  | rz
  | urz
  | imm (i : ImmText)
  | bank (c : BankText)

namespace WordOperand

def text : WordOperand → Text
  | r n reuse => registerText ['R'] n reuse
  | ur n reuse => registerText ['U', 'R'] n reuse
  | rz => ['R', 'Z']
  | urz => ['U', 'R', 'Z']
  | imm i => i.text
  | bank c => c.text

/-- The record that the text is read as. -/
def operand : WordOperand → SassOperand
  | r n reuse => .register (registerOf ['R'] n reuse)
  | ur n reuse => .register (registerOf ['U', 'R'] n reuse)
  | rz => .register ⟨['R', 'Z'], 255, false, true, none⟩
  | urz => .register ⟨['U', 'R', 'Z'], 63, true, true, none⟩
  | imm i => .immediate i.value
  | bank c => .constantBank c.bank c.offset

theorem parse_text (o : WordOperand) : parse o.text = some o.operand := by
  cases o with
  | r n reuse => exact parse_registerText _ _ (by decide) (by omega)
  | ur n reuse => exact parse_registerText _ _ (by decide) (by omega)
  | rz => decide +kernel
  | urz => decide +kernel
  | imm i => exact i.parses
  | bank c => exact c.parses

/-- The word an operand stands for, with the constant banks given. -/
def value (banks : Nat → Nat → BitVec 32) (s : Regs) : WordOperand → BitVec 32
  | r n _ => s.b32 (.r n)
  | ur n _ => s.b32 (.ur n)
  | rz => 0
  | urz => 0
  | imm i => BitVec.ofInt 32 i.value
  | bank c => banks c.bank c.offset

def isBank : WordOperand → Bool
  | bank _ => true
  | _ => false

/-- What the lifter prints. -/
def printed (o : WordOperand) : PtxOperand := formatOperand o.operand

variable {banks : Nat → Nat → BitVec 32} {o : WordOperand}

theorem printed_is32 : o.printed.is32 = !o.isBank := by
  cases o <;> rfl

theorem printed_val32 (h : o.isBank = false) (s : Regs) : o.printed.val32 s = o.value banks s := by
  cases o with
  | bank c => cases h
  | _ => rfl

theorem printed_not_reg64 : o.printed.isReg64 = false := by
  cases o <;> rfl

/-- The values depend on the 32-bit registers only. -/
theorem value_congr {s t : Regs} (h : s.b32 = t.b32) : o.value banks s = o.value banks t := by
  cases o <;> simp [value, h]

end WordOperand

/-! ## Predicate operands -/

inductive PredName where
  | p (n : Fin 7)
  | up (n : Fin 7)
  | pt
  | upt
  deriving DecidableEq, Repr

/-- A predicate that is read, perhaps negated. -/
structure PredOperand where
  negated : Bool
  name : PredName
  deriving DecidableEq, Repr

namespace PredOperand

def mark (negated : Bool) : Text := if negated then ['!'] else []

def text (o : PredOperand) : Text :=
  match o.name with
  | .p n => registerText (mark o.negated ++ ['P']) n false
  | .up n => registerText (mark o.negated ++ ['U', 'P']) n false
  | .pt => mark o.negated ++ ['P', 'T']
  | .upt => mark o.negated ++ ['U', 'P', 'T']

/-- Only the plain `PT` is read as a register without a number. -/
def operand (o : PredOperand) : SassOperand :=
  match o.name with
  | .p n => .register (registerOf (mark o.negated ++ ['P']) n false)
  | .up n => .register (registerOf (mark o.negated ++ ['U', 'P']) n false)
  | .pt =>
    if o.negated then .label ['!', 'P', 'T']
    else .register ⟨['P', 'T'], 7, false, true, none⟩
  | .upt => .label (mark o.negated ++ ['U', 'P', 'T'])

theorem parse_text (o : PredOperand) : parse o.text = some o.operand := by
  obtain ⟨negated, name⟩ := o
  have hkinds :
      mark negated ++ ['P'] ∈ printedKinds ∧ mark negated ++ ['U', 'P'] ∈ printedKinds := by
    cases negated <;> decide
  cases name with
  | p n => exact parse_registerText _ _ hkinds.1 (by omega)
  | up n => exact parse_registerText _ _ hkinds.2 (by omega)
  | pt => cases negated <;> decide +kernel
  | upt => cases negated <;> decide +kernel

def value (s : Regs) (o : PredOperand) : Bool :=
  (match o.name with
    | .p n => s.pred (.p n)
    | .up n => s.pred (.up n)
    | .pt => true
    | .upt => true) != o.negated

/-- A negated register, which the lifter prints as a 32-bit register. -/
def isNegatedRegister (o : PredOperand) : Bool :=
  o.negated && match o.name with
    | .p _ => true
    | .up _ => true
    | _ => false

variable {o : PredOperand}

theorem logic_isPred :
    (formatPredicateLogicOperand o.operand).isPred = !o.isNegatedRegister := by
  obtain ⟨negated, name⟩ := o
  cases name <;> cases negated <;> rfl

theorem logic_valPred (h : o.isNegatedRegister = false) (s : Regs) :
    (formatPredicateLogicOperand o.operand).valPred s = o.value s := by
  obtain ⟨negated, name⟩ := o
  cases negated with
  | false =>
    cases name <;> simp [formatPredicateLogicOperand, operand, value, mark, registerOf,
      formatOperand, formatLabel, staticBoolLiteral]
  | true =>
    cases name with
    | p n => cases h
    | up n => cases h
    | pt => rfl
    | upt => rfl

theorem value_congr {s t : Regs} (h : s.pred = t.pred) : o.value s = o.value t := by
  unfold value
  rw [h]

end PredOperand

/-- A predicate that is written: a register, or `PT` to drop the result. -/
inductive PredDest where
  | p (n : Fin 7)
  | pt
  deriving DecidableEq, Repr

namespace PredDest

def text : PredDest → Text
  | p n => registerText ['P'] n false
  | pt => ['P', 'T']

def operand : PredDest → SassOperand
  | p n => .register (registerOf ['P'] n false)
  | pt => .register ⟨['P', 'T'], 7, false, true, none⟩

theorem parse_text (d : PredDest) : parse d.text = some d.operand := by
  cases d with
  | p n => exact parse_registerText _ _ (by decide) (by omega)
  | pt => decide +kernel

/-- The predicates after a write. -/
def write (d : PredDest) (v : Bool) (preds : PredReg → Bool) : PredReg → Bool :=
  match d with
  | p n => Function.update preds (.p n) v
  | pt => preds

end PredDest

end Concordia.Lifter
