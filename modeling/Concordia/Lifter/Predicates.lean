import Concordia.Lifter.Spelling

/-!
# Predicate computation

`ISETP`, `PLOP3` and `SEL` as the disassembler prints them. Each becomes one line of PTX, and
the line leaves out part of what the instruction reads: `ISETP` its combining predicate,
`PLOP3` its third input, and `SEL` takes `PT` for false. The main result says exactly when
that makes no difference.
-/

namespace Concordia.Lifter

open Concordia.Lib Concordia.Lib.Text Option EnhancedSassInstruction PredOperand SassDataType
open PtxLine

/-! ## The instructions -/

/-- A general register that is written, or `RZ` to drop the result. -/
inductive WordDest where
  | r (n : Fin 255)
  | rz
  deriving DecidableEq, Repr

namespace WordDest

def text : WordDest → Text
  | r n => registerText ['R'] n false
  | rz => ['R', 'Z']

def operand : WordDest → SassOperand
  | r n => .register (registerOf ['R'] n false)
  | rz => .register ⟨['R', 'Z'], 255, false, true, none⟩

theorem parse_text (d : WordDest) : SassOperand.parse d.text = some d.operand := by
  cases d with
  | r n => exact SassOperand.parse_registerText _ _ (by decide) (by omega)
  | rz => decide +kernel

def write (d : WordDest) (v : BitVec 32) (words : Reg32 → BitVec 32) : Reg32 → BitVec 32 :=
  match d with
  | r n => Function.update words (.r n) v
  | rz => words

end WordDest

/-- The three instructions with their operands. -/
inductive PredicateInstruction where
  /-- `ISETP.cmp.bop pd, pe, a, b, pc`, perhaps with `.U32`. -/
  | isetp (cmp : Comparison) (unsigned : Bool) (bop : LogicOp) (pd pe : PredDest)
      (a b : WordOperand) (pc : PredOperand)
  /-- `PLOP3.LUT pd, pe, pa, pb, pc, lut`, perhaps with `lut2`. -/
  | plop3 (pd pe : PredDest) (pa pb pc : PredOperand) (lut : ImmText) (lut2 : Option ImmText)
  /-- `SEL d, a, b, p`. -/
  | sel (d : WordDest) (a b : WordOperand) (p : PredOperand)

open PredicateInstruction

def Comparison.name : Comparison → String
  | eq => "EQ"
  | ne => "NE"
  | lt => "LT"
  | le => "LE"
  | gt => "GT"
  | ge => "GE"

def LogicOp.name : LogicOp → String
  | and => "AND"
  | or => "OR"
  | xor => "XOR"

def setpModifiers (cmp : Comparison) (unsigned : Bool) (bop : LogicOp) : List String :=
  cmp.name :: ((if unsigned then ["U32"] else []) ++ [bop.name])

/-- The instruction that is read from the text. -/
def PredicateInstruction.instruction (g : Option Guard) (address : Nat) :
    PredicateInstruction → EnhancedSassInstruction
  | isetp cmp unsigned bop pd pe a b pc =>
    .ofParts address (guardOperand g) "ISETP" (setpModifiers cmp unsigned bop)
      [pd.text, pe.text, a.text, b.text, pc.text]
  | plop3 pd pe pa pb pc lut lut2 =>
    .ofParts address (guardOperand g) "PLOP3" ["LUT"]
      ([pd.text, pe.text, pa.text, pb.text, pc.text, lut.text] ++ (lut2.map ImmText.text).toList)
  | sel d a b p => .ofParts address (guardOperand g) "SEL" [] [d.text, a.text, b.text, p.text]

/-! ## What they mean -/

/-- The lines are accepted, write the value to `d` where the guard holds, and write nothing
else. -/
def WritesPredicate (inst : EnhancedSassInstruction) (ops : List PtxOp) (d : PredDest)
    (value : Regs → Bool) : Prop :=
  (guarded (predicatePrefix inst) ops).all accepted = true ∧
    ∀ s, let t := execAll (guarded (predicatePrefix inst) ops) s
      t.b32 = s.b32 ∧ t.pred = if inst.guardHolds s then d.write (value s) s.pred else s.pred

def WritesRegister (inst : EnhancedSassInstruction) (ops : List PtxOp) (d : WordDest)
    (value : Regs → BitVec 32) : Prop :=
  (guarded (predicatePrefix inst) ops).all accepted = true ∧
    ∀ s, let t := execAll (guarded (predicatePrefix inst) ops) s
      t.pred = s.pred ∧ t.b32 = if inst.guardHolds s then d.write (value s) s.b32 else s.b32

/-- The index into a table of three inputs. -/
def lutIndex (a b c : Bool) : Nat := 4 * a.toNat + 2 * b.toNat + c.toNat

/-- The lines compute what the instruction means, and write its destination only. -/
def PredicateInstruction.Exact (banks : Nat → Nat → BitVec 32) (inst : EnhancedSassInstruction)
    (ops : List PtxOp) : PredicateInstruction → Prop
  | isetp cmp unsigned bop pd _ a b pc =>
    WritesPredicate inst ops pd fun s =>
      bop.bool (cmp.holds (!unsigned) (a.value banks s) (b.value banks s)) (pc.value s)
  | plop3 pd _ pa pb pc lut _ =>
    WritesPredicate inst ops pd fun s =>
      lutBit lut.value (lutIndex (pa.value s) (pb.value s) (pc.value s))
  | sel d a b p =>
    WritesRegister inst ops d fun s => if p.value s then a.value banks s else b.value banks s

/-! ## Predicates that are settled by the guard -/

/-- The predicate is `PT`, or it is the guard. -/
def AlwaysTrue (g : Option Guard) (pc : PredOperand) : Prop :=
  (pc.negated = false ∧ (pc.name = .pt ∨ pc.name = .upt)) ∨
    ∃ n, g = some ⟨pc.negated, n⟩ ∧ pc.name = .p n

/-- The predicate is `!PT`, or it is the negated guard. -/
def AlwaysFalse (g : Option Guard) (pc : PredOperand) : Prop :=
  AlwaysTrue g { pc with negated := !pc.negated }

/-- A state with the given predicates. -/
def Regs.ofPreds (preds : PredReg → Bool) : Regs := ⟨fun _ => 0, preds, fun _ => 0⟩

section Settled

variable {g : Option Guard} {pc : PredOperand}

theorem exists_guard_holds (g : Option Guard) : ∃ s, g.all (·.holds s) = true := by
  cases g with
  | none => exact ⟨.ofPreds fun _ => false, rfl⟩
  | some g =>
    refine ⟨.ofPreds fun _ => !g.negated, ?_⟩
    cases h : g.negated <;> simp [Guard.holds, Regs.ofPreds, h]

/-- A register that is not the guard's can have any value while the guard holds. -/
theorem exists_guard_holds_with (g : Option Guard) (x : PredReg) (b : Bool)
    (hx : ∀ guard, g = some guard → x ≠ .p guard.n) :
    ∃ s, g.all (·.holds s) = true ∧ s.pred x = b := by
  obtain ⟨s, hs⟩ := exists_guard_holds g
  refine ⟨s.setPred x b, ?_, by simp⟩
  cases g with
  | none => rfl
  | some guard =>
    have hne := (hx guard rfl).symm
    simpa [Guard.holds, Function.update_of_ne hne] using hs

/-- **Settled predicates.** -/
theorem alwaysTrue_iff :
    AlwaysTrue g pc ↔ ∀ s, g.all (·.holds s) = true → pc.value s = true := by
  obtain ⟨negated, name⟩ := pc
  constructor
  · rintro (⟨hneg, hname⟩ | ⟨n, rfl, hname⟩) s hs
    · dsimp only at hneg hname
      subst hneg
      rcases hname with rfl | rfl <;> rfl
    · dsimp only at hname
      subst hname
      exact hs
  · intro h
    have hfree : ∀ x, (∀ s, value s ⟨negated, name⟩ = (s.pred x != negated)) →
        ∃ guard, g = some guard ∧ x = .p guard.n := by
      intro x hx
      by_contra hnone
      obtain ⟨s, hs, hval⟩ := exists_guard_holds_with g x negated
        fun guard hg heq => hnone ⟨guard, hg, heq⟩
      simpa [hx, hval] using h s hs
    cases name with
    | pt =>
      obtain ⟨s, hs⟩ := exists_guard_holds g
      exact .inl ⟨by simpa [value] using h s hs, .inl rfl⟩
    | upt =>
      obtain ⟨s, hs⟩ := exists_guard_holds g
      exact .inl ⟨by simpa [value] using h s hs, .inr rfl⟩
    | up n =>
      obtain ⟨guard, -, heq⟩ := hfree (.up n) fun s => rfl
      cases heq
    | p n =>
      obtain ⟨⟨m, k⟩, rfl, heq⟩ := hfree (.p n) fun s => rfl
      obtain rfl : n = k := Fin.ext (PredReg.p.inj heq)
      -- Both read the same register, so they must agree on the sign.
      obtain ⟨s, hs⟩ := exists_guard_holds (some ⟨m, n⟩)
      have hval := h s hs
      simp only [all_some, Guard.holds, value] at hs hval
      have hsign : m = negated := by
        cases m <;> cases negated <;> cases hp : s.pred (.p n) <;> simp [hp] at hs hval ⊢
      exact .inr ⟨n, by rw [hsign], rfl⟩

theorem alwaysFalse_iff :
    AlwaysFalse g pc ↔ ∀ s, g.all (·.holds s) = true → pc.value s = false := by
  have hflip : ∀ s, value s { pc with negated := !pc.negated } = !pc.value s := by
    intro s
    unfold value
    cases pc.negated <;> simp
  unfold AlwaysFalse
  rw [alwaysTrue_iff]
  simp only [hflip, Bool.not_eq_true']

end Settled

/-! ## Instructions of one line -/

section OneLine

variable {inst : EnhancedSassInstruction} {op : PtxOp}

variable (hguard : inst.GuardedByPredicate)

include hguard

theorem execAll_one (op : PtxOp) (s : Regs) :
    execAll (guarded (predicatePrefix inst) [op]) s =
      if inst.guardHolds s then op.exec s else s := by
  rw [← guard_holds hguard]
  rfl

theorem accepted_one (op : PtxOp) :
    (guarded (predicatePrefix inst) [op]).all accepted = op.accepted := by
  rw [accepted_guarded (guard_isPredReg hguard)]
  simp

theorem WritesPredicate.accepted {d : PredDest} {value : Regs → Bool}
    (h : WritesPredicate inst [op] d value) : op.accepted = true :=
  (accepted_one hguard op).symm.trans h.1

theorem WritesRegister.accepted {d : WordDest} {value : Regs → BitVec 32}
    (h : WritesRegister inst [op] d value) : op.accepted = true :=
  (accepted_one hguard op).symm.trans h.1

/-- A line that sets the predicate is right when it sets it to the value under the guard. -/
theorem writesPredicate_one_iff {n : Fin 7} {emitted value : Regs → Bool}
    (hexec : ∀ s, op.exec s = s.setPred (.p n) (emitted s)) :
    WritesPredicate inst [op] (.p n) value ↔
      op.accepted = true ∧ ∀ s, inst.guardHolds s = true → emitted s = value s := by
  unfold WritesPredicate
  rw [accepted_one hguard]
  refine and_congr_right fun _ => forall_congr' fun s => ?_
  dsimp only
  rw [execAll_one hguard, hexec]
  cases inst.guardHolds s with
  | false => simp
  | true =>
    simp only [if_true, Regs.setPred_b32, Regs.setPred_pred, true_and, PredDest.write, forall_const]
    exact ⟨fun h => by simpa using congrFun h (.p n), fun h => by rw [h]⟩

theorem writesRegister_one_iff {n : Fin 255} {emitted value : Regs → BitVec 32}
    (hexec : ∀ s, op.exec s = s.set32 (.r n) (emitted s)) :
    WritesRegister inst [op] (.r n) value ↔
      op.accepted = true ∧ ∀ s, inst.guardHolds s = true → emitted s = value s := by
  unfold WritesRegister
  rw [accepted_one hguard]
  refine and_congr_right fun _ => forall_congr' fun s => ?_
  dsimp only
  rw [execAll_one hguard, hexec]
  cases inst.guardHolds s with
  | false => simp
  | true =>
    simp only [if_true, Regs.set32_b32, Regs.set32_pred, true_and, WordDest.write, forall_const]
    exact ⟨fun h => by simpa using congrFun h (.r n), fun h => by rw [h]⟩

end OneLine

/-! ## The lines -/

section Lines

variable (g : Option Guard) (address : Nat)

def setpType (unsigned : Bool) : SassDataType := if unsigned then .u32 else .s32

theorem setpModifiers_comparison (cmp : Comparison) (unsigned : Bool) (bop : LogicOp) :
    (setpModifiers cmp unsigned bop).findSome? comparisonOf = some cmp := by
  have hcmp : comparisonOf cmp.name = some cmp := by cases cmp <;> decide +kernel
  simp [setpModifiers, hcmp]

theorem setpModifiers_dataType (cmp : Comparison) (unsigned : Bool) (bop : LogicOp) :
    ((setpModifiers cmp unsigned bop).findSome? fromModifier).getD .s32 =
      setpType unsigned := by
  have hcmp : fromModifier cmp.name = none := by cases cmp <;> decide +kernel
  have hbop : fromModifier bop.name = none := by cases bop <;> decide +kernel
  have hu32 : fromModifier "U32" = some .u32 := by decide +kernel
  cases unsigned <;> simp [setpModifiers, setpType, hcmp, hbop, hu32]

section Isetp

variable (cmp : Comparison) (unsigned : Bool) (bop : LogicOp) (pd pe : PredDest) (a b : WordOperand)
  (pc : PredOperand)

def isetpInstruction : EnhancedSassInstruction :=
  (isetp cmp unsigned bop pd pe a b pc).instruction g address

variable {g address cmp unsigned bop pd pe a b pc} {inst : EnhancedSassInstruction}
  (hinst : inst = isetpInstruction g address cmp unsigned bop pd pe a b pc)

include hinst

/-- A second destination other than `PT` is taken for the first compared operand. -/
theorem isetp_refs : setpCompareOperandRefs inst =
    if pe = .pt then (some a.operand, some b.operand) else (some pe.operand, some a.operand) := by
  have hsrcs : inst.srcOperands = [pe.operand, a.operand, b.operand, pc.operand] := by
    simp [hinst, isetpInstruction, instruction, ofParts, PredDest.parse_text,
      WordOperand.parse_text, parse_text]
  unfold setpCompareOperandRefs src
  rw [hsrcs]
  cases pe <;> rfl

theorem isetp_type (x y : PtxOperand) (hxy : (x.isReg64 && y.isReg64) = false) :
    setpDataTypeSuffix inst .s32 x y = setpType unsigned := by
  have hsuffix := setpModifiers_dataType cmp unsigned bop
  unfold setpDataTypeSuffix dataTypeSuffix
  simp only [hinst, isetpInstruction, instruction, ofParts, hsuffix, hxy]
  cases unsigned <;> rfl

theorem isetp_ops :
    setpOp inst =
      [if pe = .pt then .setp cmp (setpType unsigned) (formatOperand pd.operand) a.printed b.printed
        else .setp cmp (setpType unsigned) (formatOperand pd.operand) (formatOperand pe.operand)
          a.printed] := by
  have hdest : destOperand inst (.pred (.p 0)) = formatOperand pd.operand := by
    simp [hinst, destOperand, isetpInstruction, instruction, ofParts, PredDest.parse_text, formatOr]
  have hcmp : comparisonSuffix inst = cmp :=
    hinst ▸ congrArg (·.getD .eq) (setpModifiers_comparison cmp unsigned bop)
  unfold setpOp
  rw [isetp_refs hinst, hdest, hcmp]
  by_cases hpe : pe = .pt
  · simp only [hpe, if_true, formatOr, map_some, getD_some]
    rw [isetp_type (hpe ▸ hinst)]
    · rfl
    · exact (Bool.and_eq_false_iff).mpr (.inl WordOperand.printed_not_reg64)
  · simp only [hpe, if_false, formatOr, map_some, getD_some]
    rw [isetp_type hinst]
    · rfl
    · exact (Bool.and_eq_false_iff).mpr (.inr WordOperand.printed_not_reg64)

end Isetp

section Plop

variable (pd pe : PredDest) (pa pb pc : PredOperand) (lut : ImmText) (lut2 : Option ImmText)

def plop3Instruction : EnhancedSassInstruction :=
  (plop3 pd pe pa pb pc lut lut2).instruction g address

variable {g address pd pe pa pb pc lut lut2} {inst : EnhancedSassInstruction}
  (hinst : inst = plop3Instruction g address pd pe pa pb pc lut lut2)

include hinst

theorem plop3_srcOperands : inst.srcOperands =
    [pe.operand, pa.operand, pb.operand, pc.operand, .immediate lut.value] ++
      (lut2.map fun i => .immediate i.value).toList := by
  cases lut2 <;>
    simp [hinst, plop3Instruction, instruction, ofParts, PredDest.parse_text, parse_text,
      ImmText.parses]

theorem plop3_operator :
    plop3BinaryLutOperator inst = if pe = .pt then reducedOperator lut.value else none := by
  have hop : inst.opcode = "PLOP3" := hinst ▸ rfl
  unfold plop3BinaryLutOperator src
  rw [plop3_srcOperands hinst, hop]
  cases pe <;> cases lut2 <;> simp [PredDest.operand, isPtRegisterOperand, registerOf]

theorem plop3_ops {op : LogicOp} (hop : plop3BinaryLutOperator inst = some op) :
    plop3BinaryLutOp inst =
      [.predLogic op (formatOperand pd.operand) (formatPredicateLogicOperand pa.operand)
        (formatPredicateLogicOperand pb.operand)] := by
  have hdest : destOperand inst (.pred (.p 0)) = formatOperand pd.operand := by
    simp [hinst, destOperand, plop3Instruction, instruction, ofParts, PredDest.parse_text, formatOr]
  unfold plop3BinaryLutOp src
  rw [hop, hdest, plop3_srcOperands hinst]
  rfl

end Plop

section Sel

variable (d : WordDest) (a b : WordOperand) (p : PredOperand)

def selInstruction : EnhancedSassInstruction :=
  (sel d a b p).instruction g address

/-- The line of a selection: a negated predicate swaps the sources. -/
def selLine : PtxOp :=
  if (formatSelPredicateOperand p.operand).2 then
    .selp .u32 (formatOperand d.operand) b.printed a.printed (formatSelPredicateOperand p.operand).1
  else
    .selp .u32 (formatOperand d.operand) a.printed b.printed (formatSelPredicateOperand p.operand).1

theorem sel_ops {inst : EnhancedSassInstruction} (hinst : inst = selInstruction g address d a b p) :
    selOp inst = [selLine d a b p] := by
  have hsrcs : inst.srcOperands = [a.operand, b.operand, p.operand] := by
    simp [hinst, selInstruction, instruction, ofParts, WordOperand.parse_text, parse_text]
  have hdest : destOperand inst (.reg32 (.r 0)) = formatOperand d.operand := by
    simp [hinst, destOperand, selInstruction, instruction, ofParts, WordDest.parse_text, formatOr]
  have hty : inst.dataTypeSuffix .u32 = .u32 := hinst ▸ rfl
  unfold selOp src
  rw [hsrcs, hdest, hty]
  cases h : (formatSelPredicateOperand p.operand).2 <;>
    simp [selLine, h, formatOr, WordOperand.printed]

/-- The predicate that a selection prints, with the swap undone. -/
def selectedBy (s : Regs) (p : PredOperand) : Bool :=
  (formatSelPredicateOperand p.operand).1.valPred s != (formatSelPredicateOperand p.operand).2

/-- **`PT` selects the second source**; every other predicate is printed as it is. -/
theorem selectedBy_eq (s : Regs) :
    selectedBy s p = if p = ⟨false, .pt⟩ then false else p.value s := by
  obtain ⟨negated, name⟩ := p
  cases name <;> cases negated <;>
    simp [selectedBy, formatSelPredicateOperand, operand, mark, registerOf,
      formatRegister, formatSelLabel, value]

theorem selLine_exec (s : Regs) :
    (selLine d a b p).exec s = (formatOperand d.operand).write32 s
      (if selectedBy s p then a.printed.val32 s else b.printed.val32 s) := by
  unfold selLine selectedBy
  cases (formatSelPredicateOperand p.operand).2 <;>
    cases h : (formatSelPredicateOperand p.operand).1.valPred s <;> simp [PtxOp.exec, h]

theorem selLine_accepted :
    (selLine d a b p).accepted = (decide (d ≠ .rz) && !a.isBank && !b.isBank) := by
  have hpred : (formatSelPredicateOperand p.operand).1.isPred = true := by
    obtain ⟨negated, name⟩ := p
    cases name <;> cases negated <;> rfl
  have hd : (formatOperand d.operand).isReg32 = decide (d ≠ .rz) := by cases d <;> rfl
  unfold selLine
  cases (formatSelPredicateOperand p.operand).2 <;>
    simp only [if_true, if_false, Bool.false_eq_true, PtxOp.accepted, hpred, hd,
      WordOperand.printed_is32] <;>
    cases a.isBank <;> cases b.isBank <;> simp [isInt32]

end Sel

end Lines

/-! ## When the lines are right -/

/-- The comparison of an `ISETP`. -/
def compares (banks : Nat → Nat → BitVec 32) (cmp : Comparison) (unsigned : Bool)
    (a b : WordOperand) (s : Regs) : Bool :=
  cmp.holds (!unsigned) (a.value banks s) (b.value banks s)

/-- The combination with the predicate changes nothing. -/
def CombinesTrivially (g : Option Guard) (bop : LogicOp) (pc : PredOperand)
    (compared : Regs → Bool) : Prop :=
  match bop with
  | .and => AlwaysTrue g pc ∨ ∀ s, compared s = false
  | .or => AlwaysFalse g pc ∨ ∀ s, compared s = true
  | .xor => AlwaysFalse g pc

/-- What the instruction reads beyond its line makes no difference: the destination is a
register, no source lies in a constant bank, and

* `ISETP` has no second destination and combines trivially;
* `PLOP3` reads no negated register, and its table does not depend on the third input where
  that is false;
* `SEL` is not by `PT`, unless its sources are always equal. -/
def PredicateInstruction.Faithful (banks : Nat → Nat → BitVec 32) (g : Option Guard) :
    PredicateInstruction → Prop
  | isetp cmp unsigned bop pd pe a b pc =>
    pd ≠ .pt ∧ pe = .pt ∧ a.isBank = false ∧ b.isBank = false ∧
      CombinesTrivially g bop pc (compares banks cmp unsigned a b)
  | plop3 pd _ pa pb pc lut _ =>
    pd ≠ .pt ∧ pa.isNegatedRegister = false ∧ pb.isNegatedRegister = false ∧
      ∀ s, g.all (·.holds s) = true → pc.value s = true ∨
        lutBit lut.value (lutIndex (pa.value s) (pb.value s) false) =
          lutBit lut.value (lutIndex (pa.value s) (pb.value s) true)
  | sel d a b p =>
    d ≠ .rz ∧ a.isBank = false ∧ b.isBank = false ∧
      (p ≠ ⟨false, .pt⟩ ∨ ∀ s, a.value banks s = b.value banks s)

section Combine

variable {g : Option Guard} {pc : PredOperand} {compared : Regs → Bool}

theorem guard_congr {s t : Regs} (h : s.pred = t.pred) : g.all (·.holds s) = g.all (·.holds t) := by
  cases g with
  | none => rfl
  | some guard => simp [Guard.holds, h]

/-- Comparisons read words and guards read predicates, so the two are independent. -/
theorem forall_independent (hwords : ∀ s t, s.b32 = t.b32 → compared s = compared t) (c b : Bool) :
    (∀ s, g.all (·.holds s) = true → compared s = c ∨ pc.value s = b) ↔
      (∀ s, compared s = c) ∨ ∀ s, g.all (·.holds s) = true → pc.value s = b := by
  constructor
  · intro h
    by_contra hnot
    obtain ⟨⟨s, hs⟩, t, hguard, ht⟩ : (∃ s, compared s ≠ c) ∧
        ∃ t, g.all (·.holds t) = true ∧ pc.value t ≠ b := by
      simpa [not_or] using hnot
    let mixed : Regs := { s with pred := t.pred }
    have hmixed := h mixed ((guard_congr (show mixed.pred = t.pred from rfl)).trans hguard)
    rw [hwords mixed s rfl, value_congr (show mixed.pred = t.pred from rfl)] at hmixed
    exact hmixed.elim hs ht
  · rintro (h | h) s hs
    · exact .inl (h s)
    · exact .inr (h s hs)

/-- **Combining.** Leaving the predicate out is right exactly when it combines trivially. -/
theorem combinesTrivially_iff (hwords : ∀ s t, s.b32 = t.b32 → compared s = compared t)
    (bop : LogicOp) :
    (∀ s, g.all (·.holds s) = true → compared s = bop.bool (compared s) (pc.value s)) ↔
      CombinesTrivially g bop pc compared := by
  cases bop with
  | and =>
    have hpoint : ∀ s, compared s = (compared s && pc.value s) ↔
        compared s = false ∨ pc.value s = true := by
      intro s
      cases compared s <;> cases pc.value s <;> simp
    simp only [LogicOp.bool, CombinesTrivially, hpoint]
    rw [forall_independent hwords, alwaysTrue_iff, or_comm]
  | or =>
    have hpoint : ∀ s, compared s = (compared s || pc.value s) ↔
        compared s = true ∨ pc.value s = false := by
      intro s
      cases compared s <;> cases pc.value s <;> simp
    simp only [LogicOp.bool, CombinesTrivially, hpoint]
    rw [forall_independent hwords, alwaysFalse_iff, or_comm]
  | xor =>
    have hpoint : ∀ s, compared s = (compared s ^^ pc.value s) ↔ pc.value s = false := by
      intro s
      cases compared s <;> cases pc.value s <;> simp
    simp only [LogicOp.bool, CombinesTrivially, hpoint]
    rw [alwaysFalse_iff]

end Combine

/-- A table whose third input is true is the operation it is reduced to. -/
theorem reducedOperator_spec {lut : Int} {op : LogicOp} (h : reducedOperator lut = some op)
    (a b : Bool) : op.bool a b = lutBit lut (lutIndex a b true) := by
  have hindex : lutIndex false false true = 1 ∧ lutIndex false true true = 3 ∧
      lutIndex true false true = 5 ∧ lutIndex true true true = 7 := by decide
  obtain ⟨h1, h3, h5, h7⟩ := hindex
  unfold reducedOperator at h
  simp only [Nat.reduceShiftLeft, Nat.reduceOr] at h
  cases a <;> cases b <;> simp only [h1, h3, h5, h7] <;> revert h <;>
    cases lutBit lut 1 <;> cases lutBit lut 3 <;> cases lutBit lut 5 <;> cases lutBit lut 7 <;>
    simp <;> rintro rfl <;> rfl

section Main

variable {banks : Nat → Nat → BitVec 32} {g : Option Guard} {address : Nat}

theorem setp_accepted (cmp : Comparison) (unsigned : Bool) (d x y : PtxOperand) :
    (PtxOp.setp cmp (setpType unsigned) d x y).accepted = (d.isPredReg && x.is32 && y.is32) := by
  cases unsigned <;> rfl

theorem PredDest.printed_isPredReg (d : PredDest) :
    (formatOperand d.operand).isPredReg = decide (d ≠ .pt) := by
  cases d <;> rfl

theorem compares_congr (cmp : Comparison) (unsigned : Bool) (a b : WordOperand) (s t : Regs)
    (h : s.b32 = t.b32) :
    compares banks cmp unsigned a b s = compares banks cmp unsigned a b t := by
  unfold compares
  rw [WordOperand.value_congr h, WordOperand.value_congr h]

variable {inst : EnhancedSassInstruction}

theorem isetp_exact_iff {cmp : Comparison} {unsigned : Bool} {bop : LogicOp} {pd pe : PredDest}
    {a b : WordOperand} {pc : PredOperand}
    (hinst : inst = isetpInstruction g address cmp unsigned bop pd pe a b pc) :
    WritesPredicate inst (setpOp inst) pd
        (fun s => bop.bool (compares banks cmp unsigned a b s) (pc.value s)) ↔
      (isetp cmp unsigned bop pd pe a b pc).Faithful banks g := by
  have hpred : inst.predicate = guardOperand g := hinst ▸ rfl
  have hguard := guardedByPredicate_of hpred
  have hholds := guardHolds_of hpred
  rw [isetp_ops hinst]
  cases pd with
  | pt =>
    refine ⟨fun h => ?_, fun h => absurd rfl h.1⟩
    have hacc := h.accepted hguard
    split_ifs at hacc <;> rw [setp_accepted, PredDest.printed_isPredReg] at hacc <;> simp at hacc
  | p n =>
    have hd : formatOperand (PredDest.p n).operand = .pred (.p n) := rfl
    cases pe with
    | p m =>
      refine ⟨fun h => ?_, fun h => PredDest.noConfusion h.2.1⟩
      have hm : (formatOperand (PredDest.p m).operand).is32 = false := rfl
      have hacc := h.accepted hguard
      rw [if_neg (by simp), setp_accepted, hm] at hacc
      simp at hacc
    | pt =>
      rw [if_pos rfl, hd, writesPredicate_one_iff hguard fun s => rfl, setp_accepted]
      simp only [PtxOperand.isPredReg_pred, WordOperand.printed_is32, Bool.true_and,
        Bool.and_eq_true, Bool.not_eq_true', hholds]
      have hsigned : decide (setpType unsigned = .s32) = !unsigned := by cases unsigned <;> rfl
      have hwords : ∀ s t : Regs, s.b32 = t.b32 →
          compares banks cmp unsigned a b s = compares banks cmp unsigned a b t :=
        compares_congr cmp unsigned a b
      have hemitted : a.isBank = false → b.isBank = false → ∀ s,
          cmp.holds (setpType unsigned = .s32) (a.printed.val32 s) (b.printed.val32 s) =
            compares banks cmp unsigned a b s := by
        intro ha hb s
        rw [hsigned, WordOperand.printed_val32 ha, WordOperand.printed_val32 hb]
        rfl
      constructor
      · rintro ⟨⟨ha, hb⟩, h⟩
        refine ⟨by simp, rfl, ha, hb, (combinesTrivially_iff hwords bop).mp fun s hs => ?_⟩
        exact (hemitted ha hb s).symm.trans (h s hs)
      · rintro ⟨-, -, ha, hb, h⟩
        refine ⟨⟨ha, hb⟩, fun s hs => (hemitted ha hb s).trans ?_⟩
        exact (combinesTrivially_iff hwords bop).mpr h s hs

theorem plop3_exact_iff {pd pe : PredDest} {pa pb pc : PredOperand} {lut : ImmText}
    {lut2 : Option ImmText} {op : LogicOp}
    (hinst : inst = plop3Instruction g address pd pe pa pb pc lut lut2)
    (hop : plop3BinaryLutOperator inst = some op) :
    WritesPredicate inst (plop3BinaryLutOp inst) pd
        (fun s => lutBit lut.value (lutIndex (pa.value s) (pb.value s) (pc.value s))) ↔
      (plop3 pd pe pa pb pc lut lut2).Faithful banks g := by
  have hpred : inst.predicate = guardOperand g := hinst ▸ rfl
  have hguard := guardedByPredicate_of hpred
  have hholds := guardHolds_of hpred
  have hreduced : reducedOperator lut.value = some op := by
    rw [plop3_operator hinst] at hop
    split_ifs at hop
    exact hop
  have hspec := reducedOperator_spec hreduced
  rw [plop3_ops hinst hop]
  cases pd with
  | pt =>
    refine ⟨fun h => ?_, fun h => absurd rfl h.1⟩
    have hacc := h.accepted hguard
    simp [PtxOp.accepted, PredDest.printed_isPredReg] at hacc
  | p n =>
    have hd : formatOperand (PredDest.p n).operand = .pred (.p n) := rfl
    rw [hd, writesPredicate_one_iff hguard fun s => rfl]
    simp only [PtxOp.accepted, PtxOperand.isPredReg_pred, logic_isPred, Bool.true_and,
      Bool.and_eq_true, Bool.not_eq_true', hholds]
    -- The line takes the third input for true.
    have hpoint : ∀ s, pa.isNegatedRegister = false → pb.isNegatedRegister = false →
        (op.bool ((formatPredicateLogicOperand pa.operand).valPred s)
            ((formatPredicateLogicOperand pb.operand).valPred s) =
          lutBit lut.value (lutIndex (pa.value s) (pb.value s) (pc.value s)) ↔
        pc.value s = true ∨ lutBit lut.value (lutIndex (pa.value s) (pb.value s) false) =
          lutBit lut.value (lutIndex (pa.value s) (pb.value s) true)) := by
      intro s ha hb
      rw [logic_valPred ha, logic_valPred hb, hspec]
      cases pc.value s with
      | true => simp
      | false => simp [eq_comm]
    constructor
    · rintro ⟨⟨ha, hb⟩, h⟩
      exact ⟨by simp, ha, hb, fun s hs => (hpoint s ha hb).mp (h s hs)⟩
    · rintro ⟨-, ha, hb, h⟩
      exact ⟨⟨ha, hb⟩, fun s hs => (hpoint s ha hb).mpr (h s hs)⟩

theorem sel_exact_iff {d : WordDest} {a b : WordOperand} {p : PredOperand}
    (hinst : inst = selInstruction g address d a b p) :
    WritesRegister inst (selOp inst) d
        (fun s => if p.value s then a.value banks s else b.value banks s) ↔
      (sel d a b p).Faithful banks g := by
  have hpred : inst.predicate = guardOperand g := hinst ▸ rfl
  have hguard := guardedByPredicate_of hpred
  have hholds := guardHolds_of hpred
  rw [sel_ops g address d a b p hinst]
  cases d with
  | rz =>
    refine ⟨fun h => ?_, fun h => absurd rfl h.1⟩
    have hacc := h.accepted hguard
    simp [selLine_accepted] at hacc
  | r n =>
    have hd : formatOperand (WordDest.r n).operand = .reg32 (.r n) := rfl
    have hexec : ∀ s, (selLine (.r n) a b p).exec s =
        s.set32 (.r n) (if selectedBy s p then a.printed.val32 s else b.printed.val32 s) := by
      intro s
      rw [selLine_exec, hd]
      rfl
    rw [writesRegister_one_iff hguard hexec, selLine_accepted]
    simp only [Bool.and_eq_true, Bool.not_eq_true', hholds, selectedBy_eq]
    constructor
    · rintro ⟨⟨⟨-, ha⟩, hb⟩, h⟩
      refine ⟨by simp, ha, hb, ?_⟩
      by_cases hp : p = ⟨false, .pt⟩
      · refine .inr fun s => ?_
        -- Sources do not read predicates, so the guard can be made to hold.
        obtain ⟨t, ht⟩ := exists_guard_holds g
        let mixed : Regs := { s with pred := t.pred }
        have hmixed := h mixed ((guard_congr (show mixed.pred = t.pred from rfl)).trans ht)
        have hselect : value mixed p = true := by rw [hp]; rfl
        rw [if_pos hp, if_neg (by simp), if_pos hselect, WordOperand.printed_val32 hb] at hmixed
        exact hmixed.symm
      · exact .inl hp
    · rintro ⟨-, ha, hb, h⟩
      refine ⟨⟨⟨by simp, ha⟩, hb⟩, fun s _ => ?_⟩
      have hA : a.printed.val32 s = a.value banks s := WordOperand.printed_val32 ha s
      have hB : b.printed.val32 s = b.value banks s := WordOperand.printed_val32 hb s
      rw [hA, hB]
      by_cases hp : p = ⟨false, .pt⟩
      · have heq := h.resolve_left (not_not_intro hp) s
        simp [hp, heq]
      · rw [if_neg hp]

/-- **Lifted predicate computation.** For every `ISETP`, `PLOP3` and `SEL` that is lifted
without a diagnostic: the line computes the instruction in every state exactly when the
instruction is faithful. -/
theorem predicate_lines_exact_iff (x : PredicateInstruction) (ctx : LiftContext) {ops : List PtxOp}
    (hlift : liftInstruction ctx (x.instruction g address) = .lines ops) :
    x.Exact banks (x.instruction g address) ops ↔ x.Faithful banks g := by
  cases x with
  | isetp cmp unsigned bop pd pe a b pc =>
    obtain rfl := Lifted.lines.inj hlift
    exact isetp_exact_iff rfl
  | plop3 pd pe pa pb pc lut lut2 =>
    generalize hinst : (plop3 pd pe pa pb pc lut lut2).instruction g address = inst at hlift ⊢
    have hform : liftInstruction ctx inst = if (plop3BinaryLutOperator inst).isSome then
        .lines (plop3BinaryLutOp inst)
        else .unsupported "predicate LOP3 lifting is not implemented" := hinst ▸ rfl
    rw [hform] at hlift
    split_ifs at hlift with hsome
    obtain rfl := Lifted.lines.inj hlift
    obtain ⟨op, hop⟩ := isSome_iff_exists.mp hsome
    exact plop3_exact_iff hinst.symm hop
  | sel d a b p =>
    obtain rfl := Lifted.lines.inj hlift
    exact sel_exact_iff rfl

/-- `@P1 ISETP.GE.U32.AND P0, PT, R3, R4, P1`. -/
theorem predicate_lines_exact_guarded :
    (isetp .ge true .and (.p 0) .pt (.r 3 false) (.r 4 false)
        ⟨false, .p 1⟩).Exact (fun _ _ => 0)
      ((isetp .ge true .and (.p 0) .pt (.r 3 false) (.r 4 false)
        ⟨false, .p 1⟩).instruction (some ⟨false, 1⟩) 0)
      (setpOp (isetpInstruction (some ⟨false, 1⟩) 0 .ge true .and (.p 0) .pt (.r 3 false)
        (.r 4 false) ⟨false, .p 1⟩)) :=
  (predicate_lines_exact_iff
    (.isetp .ge true .and (.p 0) .pt (.r 3 false) (.r 4 false) ⟨false, .p 1⟩)
    ⟨none, none, none⟩ rfl).mpr ⟨by decide, rfl, rfl, rfl, .inl (.inr ⟨1, rfl, rfl⟩)⟩

/-- `ISETP.EQ.AND P0, PT, R1, R2, P3` with `R1 = R2` and `P3` false: `P0` becomes true. -/
theorem not_predicate_lines_exact :
    ∃ ops, liftInstruction ⟨none, none, none⟩
        ((isetp .eq false .and (.p 0) .pt (.r 1 false) (.r 2 false)
          ⟨false, .p 3⟩).instruction none 0) = .lines ops ∧
      ¬ (isetp .eq false .and (.p 0) .pt (.r 1 false) (.r 2 false)
          ⟨false, .p 3⟩).Exact (fun _ _ => 0)
        ((isetp .eq false .and (.p 0) .pt (.r 1 false) (.r 2 false)
          ⟨false, .p 3⟩).instruction none 0) ops := by
  refine ⟨_, rfl, fun h => ?_⟩
  obtain ⟨-, -, -, -, hcombine⟩ := (isetp_exact_iff rfl).mp h
  rcases hcombine with htrue | hfalse
  · have := alwaysTrue_iff.mp htrue (.ofPreds fun _ => false) rfl
    simp [value, Regs.ofPreds] at this
  · have := hfalse (.ofPreds fun _ => false)
    simp [compares, Comparison.holds, WordOperand.value, Regs.ofPreds] at this

end Main

end Concordia.Lifter
