import Concordia.Lifter.Declared

/-!
# 64-bit arithmetic on pairs of words

`IADD.64`, `IMAD.WIDE.U32` and `IMAD.HI.U32` work on pairs of registers. Their lowering packs
each pair into the `%rd` register of the same number, computes there and unpacks the
result. Whatever registers coincide, the sources are read before the destination is written,
because the scratch pair lies above every register of the function.
-/

namespace Concordia.Lifter

open Concordia.Lib List Option Bool PtxOp RegisterDecls LiftContext Function EnhancedSassInstruction

/-! ## The SASS side -/

def SassOperand.word (s : Regs) : SassOperand → BitVec 32
  | .register reg =>
    if reg.isZero then 0
    else if reg.kind = ['U', 'R'] then s.b32 (.ur reg.number)
    else s.b32 (.r reg.number)
  | .immediate value => BitVec.ofInt 32 value
  | _ => 0

open SassOperand

/-- The pair that an operand stands for: the register is the low word. -/
def SassOperand.wide (s : Regs) : SassOperand → BitVec 64
  | .register reg =>
    if reg.isZero then 0
    else if reg.kind = ['U', 'R'] then s.b32 (.ur (reg.number + 1)) ++ s.b32 (.ur reg.number)
    else s.b32 (.r (reg.number + 1)) ++ s.b32 (.r reg.number)
  | _ => 0

namespace EnhancedSassInstruction

variable (inst : EnhancedSassInstruction)

/-- The guard is one of `P0` to `P6`, negated or not, or there is none. -/
def GuardedByPredicate : Prop :=
  inst.predicate = none ∨
    ∃ n ≤ 6, ∃ negated, inst.predicate = some (.predicate (registerOf ['P'] n false) negated)

def guardHolds (s : Regs) : Bool :=
  match inst.predicate with
  | some (.predicate reg negated) => s.pred (.p reg.number) != negated
  | _ => true

/-- A register called `RZ` is the zero register. -/
def ZeroNamed : Prop :=
  ∀ reg, register reg ∈ inst.srcOperands → reg.kind = ['R', 'Z'] → reg.isZero = true

end EnhancedSassInstruction

section Guard

variable {inst : EnhancedSassInstruction}

theorem guard_isPredReg (h : inst.GuardedByPredicate) :
    (predicatePrefix inst).all (·.register.isPredReg) = true := by
  unfold predicatePrefix
  rcases h with h | ⟨n, -, negated, h⟩ <;> rw [h] <;> rfl

theorem guard_holds (h : inst.GuardedByPredicate) (s : Regs) :
    (predicatePrefix inst).all (·.holds s) = inst.guardHolds s := by
  unfold predicatePrefix guardHolds
  rcases h with h | ⟨n, -, negated, h⟩ <;> rw [h] <;> rfl

end Guard

/-! ## What the lines must do -/

/-- The assembler accepts the lines; where the guard holds they leave a value in the pair of
`d`, and they change no other 32-bit register and no predicate. -/
def LeavesPair (inst : EnhancedSassInstruction) (ops : List PtxOp) (d : Nat)
    (value : Regs → BitVec 64) : Prop :=
  (guarded (predicatePrefix inst) ops).all PtxLine.accepted = true ∧
    ∀ s, let t := PtxLine.execAll (guarded (predicatePrefix inst) ops) s
      t.pred = s.pred ∧
        t.b32 = if inst.guardHolds s then
          update (update s.b32 (.r d) ((value s).extractLsb' 0 32))
            (.r (d + 1)) ((value s).extractLsb' 32 32)
        else s.b32

/-- The same for a single word. -/
def LeavesWord (inst : EnhancedSassInstruction) (ops : List PtxOp) (d : Nat)
    (value : Regs → BitVec 32) : Prop :=
  (guarded (predicatePrefix inst) ops).all PtxLine.accepted = true ∧
    ∀ s, let t := PtxLine.execAll (guarded (predicatePrefix inst) ops) s
      t.pred = s.pred ∧
        t.b32 = if inst.guardHolds s then update s.b32 (.r d) (value s) else s.b32

section Straight

variable {inst : EnhancedSassInstruction} {ops : List PtxOp}

theorem foldl_exec_pred (hkeep : ∀ op ∈ ops, op.keepsPreds) (s : Regs) :
    (ops.foldl exec s).pred = s.pred := by
  induction ops generalizing s with
  | nil => rfl
  | cons op ops ih =>
    exact (ih (fun o ho => hkeep o (mem_cons_of_mem _ ho)) _).trans
      (exec_pred (hkeep op mem_cons_self) s)

/-- Without the guard, it is enough to follow the operations. -/
theorem leaves_intro {words : Regs → Reg32 → BitVec 32} (hguard : inst.GuardedByPredicate)
    (hkeep : ∀ op ∈ ops, op.keepsPreds) (haccept : ops.all accepted = true)
    (hrun : ∀ s, (ops.foldl exec s).b32 = words s) :
    (guarded (predicatePrefix inst) ops).all PtxLine.accepted = true ∧
      ∀ s, let t := PtxLine.execAll (guarded (predicatePrefix inst) ops) s
        t.pred = s.pred ∧ t.b32 = if inst.guardHolds s then words s else s.b32 := by
  refine ⟨(accepted_guarded (guard_isPredReg hguard)).trans haccept, fun s => ?_⟩
  dsimp only
  rw [execAll_guarded hkeep, guard_holds hguard]
  cases inst.guardHolds s with
  | true => exact ⟨foldl_exec_pred hkeep s, hrun s⟩
  | false => exact ⟨rfl, rfl⟩

end Straight

/-! ## `IADD.64` -/

variable {reg : SassRegister}

section Iadd

variable {inst : EnhancedSassInstruction}

/-- The shape of the instructions that `iadd_64_op` takes. -/
structure IaddForm (inst : EnhancedSassInstruction) (dst a b : SassRegister) : Prop where
  dest : inst.destOperands = [.register dst]
  srcs : inst.srcOperands = [.register a, .register b]
  is64 : inst.hasModifier "64" = true
  dst_plain : dst.isPlain ['R'] = true
  a_plain : a.isPlain ['R'] = true
  b_plain : b.isPlain ['R'] = true ∨ b.isPlain ['U', 'R'] = true
  dst_pair : supportedPairRegister dst = true
  a_pair : supportedPairRegister a = true
  b_pair : supportedPairRegister b = true

theorem isPlain_iff {kind : Text} :
    reg.isPlain kind = true ↔ reg.kind = kind ∧ reg.isZero = false := by
  simp [SassRegister.isPlain]

theorem isRegisterWith_iff {test : SassRegister → Bool} {operand : Option SassOperand} :
    isRegisterWith test operand = true ↔
      ∃ reg, operand = some (.register reg) ∧ test reg = true := by
  unfold isRegisterWith
  constructor
  · intro h
    split at h
    · exact ⟨_, rfl, h⟩
    · cases h
  · rintro ⟨reg, rfl, h⟩
    exact h

theorem IaddForm.of_supported (h : iadd64Supported inst = true) :
    ∃ dst a b, IaddForm inst dst a b := by
  simp only [iadd64Supported, and_eq_true, isRegisterWith_iff, beq_iff_eq] at h
  obtain ⟨⟨⟨⟨⟨⟨⟨⟨-, h64⟩, hlen⟩, hlens⟩, d, hd, hdR⟩, a, ha, haR⟩, b, hb, hbR⟩, hall⟩, -⟩ := h
  obtain ⟨x, hx⟩ := length_eq_one_iff.mp hlen
  obtain ⟨y, z, hyz⟩ := length_eq_two.mp hlens
  rw [hx] at hd
  rw [src, hyz] at ha hb
  obtain rfl := some.inj hd
  obtain rfl := some.inj ha
  obtain rfl := some.inj hb
  rw [operands, hx, hyz] at hall
  simp only [cons_append, nil_append, all_cons, all_nil, Bool.and_true,
    and_eq_true] at hall
  exact ⟨d, a, b, hx, hyz, h64, hdR, haR, by simpa using hbR, hall.1, hall.2.1, hall.2.2⟩

theorem supportedPairRegister_iff (hkind : reg.kind = ['R']) :
    supportedPairRegister reg = true →
      reg.isZero = false ∧ reg.number % 2 = 0 ∧ reg.number < 254 := by
  intro h
  simp only [supportedPairRegister, hkind, and_eq_true, or_eq_true, not_eq_true',
    beq_iff_eq, decide_eq_true_eq] at h
  obtain ⟨⟨⟨hzero, heven⟩, hbound⟩, -⟩ := h
  refine ⟨hzero, heven, ?_⟩
  rcases hbound with ⟨-, hlt⟩ | ⟨hne, -⟩
  · exact hlt
  · exact absurd hne (by decide)

/-- The second source: its pair is packed into its own register, or into the scratch pair. -/
def secondPair (b : SassRegister) (scratch : Nat) : Reg64 × (Nat → Reg32) :=
  if b.kind = ['R'] then (.rd b.number, .r) else (.rd scratch, .ur)

def iaddOps (dst a b : SassRegister) (scratch : Nat) : List PtxOp :=
  [packPair (.rd a.number) .r a.number,
   packPair (secondPair b scratch).1 (secondPair b scratch).2 b.number,
   .add64 (.reg64 (.rd dst.number)) (.reg64 (.rd a.number)) (.reg64 (secondPair b scratch).1),
   .unpack (.reg32 (.r dst.number)) (.reg32 (.r (dst.number + 1))) (.reg64 (.rd dst.number))]

theorem IaddForm.pairRead_b {dst a b : SassRegister} (hform : IaddForm inst dst a b)
    (scratch : Nat) :
    pairRead scratch (.register b) =
      some ([packPair (secondPair b scratch).1 (secondPair b scratch).2 b.number],
        .reg64 (secondPair b scratch).1) := by
  rcases hform.b_plain with hb | hb <;> obtain ⟨hkind, hzero⟩ := isPlain_iff.mp hb <;>
    simp [pairRead, secondPair, hkind, hzero]

theorem IaddForm.ops_eq {dst a b : SassRegister} (hform : IaddForm inst dst a b)
    (h : iadd64Supported inst = true) (scratch : Nat) :
    iadd64Op inst scratch = some (iaddOps dst a b scratch) := by
  obtain ⟨hdR, hdZ⟩ := isPlain_iff.mp hform.dst_plain
  obtain ⟨haR, haZ⟩ := isPlain_iff.mp hform.a_plain
  have hread : pairRead scratch (.register a) =
      some ([packPair (.rd a.number) .r a.number], .reg64 (.rd a.number)) := by
    simp [pairRead, haR, haZ]
  have hsrc0 : inst.src 0 = some (.register a) := by simp [src, hform.srcs]
  have hsrc1 : inst.src 1 = some (.register b) := by simp [src, hform.srcs]
  simp [iadd64Op, h, hform.dest, hsrc0, hsrc1, hread, hform.pairRead_b scratch, pairWrite, hdR, hdZ,
    formatRdOperand, hform.dst_plain, iaddOps, wordPair]

/-- **`IADD.64` is exact**, whichever of its registers coincide. -/
theorem IaddForm.leavesPair {dst a b : SassRegister} (hform : IaddForm inst dst a b)
    (hguard : inst.GuardedByPredicate) {scratch : Nat} (hscratch : a.number < scratch) :
    LeavesPair inst (iaddOps dst a b scratch) dst.number
      fun s => (register a).wide s + (register b).wide s := by
  obtain ⟨haR, haZ⟩ := isPlain_iff.mp hform.a_plain
  refine leaves_intro hguard (by simp [iaddOps, packPair, keepsPreds]) rfl fun s => ?_
  rcases hform.b_plain with hb | hb <;> obtain ⟨hbK, hbZ⟩ := isPlain_iff.mp hb
  · -- Two pairs of `%r`: if they share a register they are the same pair.
    by_cases hab : a.number = b.number
    · simp [iaddOps, secondPair, packPair, wordPair, exec, wide, haR, haZ, hbK, hbZ,
        hab]
    · simp [iaddOps, secondPair, packPair, wordPair, exec, wide, haR, haZ, hbK, hbZ,
        hab]
  · have hne : a.number ≠ scratch := hscratch.ne
    simp [iaddOps, secondPair, packPair, wordPair, exec, wide, haR, haZ, hbK, hbZ,
      hne]

end Iadd

/-! ## `IMAD.WIDE.U32` -/

variable {operand : SassOperand}

section Wide

variable {inst : EnhancedSassInstruction}

/-- An operand that is printed as the word it stands for. -/
structure PrintsWord (operand : SassOperand) (printed : PtxOperand) : Prop where
  is32 : printed.is32 = true
  value : ∀ s, printed.val32 s = operand.word s

theorem printsWord_zero (hzero : reg.isZero = true) :
    PrintsWord (.register reg) (formatRegister reg) := by
  have hprint : formatRegister reg = .int 0 := by simp [formatRegister, hzero]
  rw [hprint]
  exact ⟨rfl, fun s => by simp [word, hzero]⟩

theorem printsWord_register (hkind : reg.kind = ['R'] ∨ reg.kind = ['U', 'R'])
    (hzero : reg.isZero = false) : PrintsWord (.register reg) (formatRegister reg) := by
  rcases hkind with hkind | hkind
  · have hprint : formatRegister reg = .reg32 (.r reg.number) := by
      simp [formatRegister, hzero, hkind]
    rw [hprint]
    exact ⟨rfl, fun s => by simp [word, hzero, hkind]⟩
  · have hprint : formatRegister reg = .reg32 (.ur reg.number) := by
      simp [formatRegister, hzero, hkind]
    rw [hprint]
    exact ⟨rfl, fun s => by simp [word, hzero, hkind]⟩

theorem printsWord_immediate (v : Int) : PrintsWord (.immediate v) (.int v) := ⟨rfl, fun _ => rfl⟩

theorem multiplicand_printsWord (h : supportedU32Multiplicand operand = true) :
    PrintsWord operand (formatOperand operand) ∧
      (formatIntegerDataOperand operand).isSome = true := by
  cases operand with
  | register reg =>
    simp only [supportedU32Multiplicand, and_eq_true, or_eq_true, beq_iff_eq,
      not_eq_true', decide_eq_true_eq] at h
    have hprint : formatOperand (.register reg) = formatRegister reg := rfl
    rw [hprint]
    rcases h.1 with (⟨⟨hkind, -⟩, hzero⟩ | ⟨⟨hkind, -⟩, hzero⟩) | ⟨-, hzero⟩
    · exact ⟨printsWord_register (.inl hkind) hzero, by simp [formatIntegerDataOperand, hkind]⟩
    · exact ⟨printsWord_register (.inr hkind) hzero, by simp [formatIntegerDataOperand, hkind]⟩
    · exact ⟨printsWord_zero hzero, by simp [formatIntegerDataOperand, hzero]⟩
  | immediate v => exact ⟨printsWord_immediate v, rfl⟩
  | _ => cases h

/-- The shape of the instructions that `supported_imad_wide_pair_form` accepts. -/
structure WideForm (inst : EnhancedSassInstruction) (dst : SassRegister) (a b : SassOperand)
    (c : SassRegister) : Prop where
  dest : inst.destOperands = [.register dst]
  srcs : inst.srcOperands = [a, b, .register c]
  dst_kind : dst.kind = ['R']
  dst_pair : supportedPairRegister dst = true
  a_word : supportedU32Multiplicand a = true
  b_word : supportedU32Multiplicand b = true
  c_pair : (c.kind = ['R'] ∧ supportedPairRegister c = true) ∨
    (c.kind = ['R', 'Z'] ∧ c.isZero = true)

theorem WideForm.of_supported (h : supportedImadWidePairForm inst = true) :
    ∃ dst a b c, WideForm inst dst a b c := by
  simp only [supportedImadWidePairForm, and_eq_true, isRegisterWith_iff, beq_iff_eq,
    or_eq_true] at h
  obtain ⟨⟨⟨⟨⟨-, hlen⟩, hlens⟩, d, hd, ⟨hdK, hdP⟩, -⟩, hall⟩, c, hc, hcP⟩ := h
  obtain ⟨x, hx⟩ := length_eq_one_iff.mp hlen
  obtain ⟨u, v, w, huvw⟩ := length_eq_three.mp hlens
  rw [hx] at hd
  rw [src, huvw] at hc
  obtain rfl := some.inj hd
  obtain rfl := some.inj hc
  rw [huvw] at hall
  simp only [take_succ_cons, take_zero, all_cons, all_nil, Bool.and_true,
    and_eq_true] at hall
  exact ⟨d, u, v, c, hx, huvw, hdK, hdP, hall.1, hall.2, hcP.imp id fun hz => hz.1⟩

def wideOps (dst : SassRegister) (a b : SassOperand) (c : SassRegister) (scratch : Nat) :
    List PtxOp :=
  .mulWide (.reg64 (.rd scratch)) (formatOperand a) (formatOperand b) ::
    ((widePairBaseOperandSetup (.register c)).1 ++
      [.add64 (.reg64 (.rd dst.number)) (widePairBaseOperandSetup (.register c)).2
        (.reg64 (.rd scratch)),
       .unpack (.reg32 (.r dst.number)) (.reg32 (.r (dst.number + 1))) (.reg64 (.rd dst.number))])

theorem WideForm.ops_eq {dst c : SassRegister} {a b : SassOperand} (hform : WideForm inst dst a b c)
    (scratch : Nat) : imadWideOp inst scratch = wideOps dst a b c scratch := by
  have hdZ := (supportedPairRegister_iff hform.dst_kind hform.dst_pair).1
  have hdP : dst.isPlain ['R'] = true := isPlain_iff.mpr ⟨hform.dst_kind, hdZ⟩
  have hc : (formatIntegerDataOperand (.register c)).isSome = true := by
    rcases hform.c_pair with ⟨hkind, -⟩ | ⟨-, hzero⟩
    · simp [formatIntegerDataOperand, hkind]
    · simp [formatIntegerDataOperand, hzero]
  simp [imadWideOp, hform.dest, hform.srcs, (multiplicand_printsWord hform.a_word).2,
    (multiplicand_printsWord hform.b_word).2, hc, formatOr, formatRdOperand, hdP, pairWrite,
    hform.dst_kind, hdZ, wideOps, wordPair]

/-- **`IMAD.WIDE.U32` is exact.** -/
theorem WideForm.leavesPair {dst c : SassRegister} {a b : SassOperand}
    (hform : WideForm inst dst a b c) (hguard : inst.GuardedByPredicate) {scratch : Nat}
    (hscratch : c.isZero = false → c.number < scratch) :
    LeavesPair inst (wideOps dst a b c scratch) dst.number fun s =>
      (a.word s).setWidth 64 * (b.word s).setWidth 64 + (register c).wide s := by
  have ha := (multiplicand_printsWord hform.a_word).1
  have hb := (multiplicand_printsWord hform.b_word).1
  rcases hform.c_pair with ⟨hcK, hcP⟩ | ⟨hcK, hcZ⟩
  · have hcZ := (supportedPairRegister_iff hcK hcP).1
    have hsetup : widePairBaseOperandSetup (.register c) =
        ([packPair (.rd c.number) .r c.number], .reg64 (.rd c.number)) := by
      simp [widePairBaseOperandSetup, SassRegister.isPlain, hcK, hcZ]
    have hne : scratch ≠ c.number := (hscratch hcZ).ne'
    refine leaves_intro hguard ?_ ?_ fun s => ?_
    · simp [wideOps, hsetup, packPair, keepsPreds]
    · simp [wideOps, hsetup, packPair, wordPair, accepted, ha.is32, hb.is32]
    · simp [wideOps, hsetup, packPair, wordPair, exec, ha.value, hb.value, wide, hcK,
        hcZ, hne, add_comm]
  · have hsetup : widePairBaseOperandSetup (.register c) = ([], .int 0) := by
      simp [widePairBaseOperandSetup, SassRegister.isPlain, hcZ, formatRdOperand, formatRegister]
    refine leaves_intro hguard ?_ ?_ fun s => ?_
    · simp [wideOps, hsetup, keepsPreds]
    · simp [wideOps, hsetup, accepted, ha.is32, hb.is32]
    · simp [wideOps, hsetup, exec, ha.value, hb.value, wide, hcZ]

end Wide

/-! ## `IMAD.HI.U32` -/

section High

variable {inst : EnhancedSassInstruction}

theorem imadHiU32Source_printsWord {printed : PtxOperand}
    (hzero : ∀ reg, operand = .register reg → reg.kind = ['R', 'Z'] → reg.isZero = true)
    (h : imadHiU32Source operand = some printed) : PrintsWord operand printed := by
  cases operand with
  | register reg =>
    simp only [imadHiU32Source, ite_none_right_eq_some, Option.some.injEq] at h
    obtain ⟨⟨-, hkind⟩, rfl⟩ := h
    rcases hkind with ⟨hplain, -⟩ | hkind
    · obtain ⟨hkind, hz⟩ := isPlain_iff.mp hplain
      exact printsWord_register (.inl hkind) hz
    · exact printsWord_zero (hzero reg rfl hkind)
  | immediate v =>
    simp only [imadHiU32Source, ite_none_right_eq_some, Option.some.injEq] at h
    obtain ⟨-, rfl⟩ := h
    exact printsWord_immediate v
  | _ => cases h

/-- The addend is set to the pair that the operand stands for. -/
theorem imadHiAddend_spec {op : PtxOp}
    (hzero : ∀ reg, operand = .register reg → reg.kind = ['R', 'Z'] → reg.isZero = true)
    (h : imadHiAddend operand = some op) :
    op.accepted = true ∧ op.keepsPreds = true ∧
      ∀ s, op.exec s = s.set64 .imadAddend (operand.wide s) := by
  cases operand with
  | register reg =>
    simp only [imadHiAddend] at h
    split_ifs at h with hrz hpair
    · obtain rfl := some.inj h
      exact ⟨rfl, rfl, fun s => by simp [exec, wide, hzero reg rfl hrz.1]⟩
    · obtain rfl := some.inj h
      simp only [imadHiPairRegister, and_eq_true, beq_iff_eq, not_eq_true'] at hpair
      obtain ⟨⟨⟨⟨hkind, hz⟩, -⟩, -⟩, -⟩ := hpair
      exact ⟨rfl, rfl, fun s => by simp [packPair, wordPair, exec, wide, hkind, hz]⟩
  | _ => cases h

theorem extract_high (v : BitVec 64) : (v >>> 32).setWidth 32 = v.extractLsb' 32 32 := by
  ext i hi
  simp

/-- **`IMAD.HI.U32` is exact.** -/
theorem imadHi_leavesWord (hguard : inst.GuardedByPredicate) (hzero : inst.ZeroNamed)
    {ops : List PtxOp} (h : imadHiU32Op inst = some ops) :
    ∃ dst a b c, inst.destOperands = [.register dst] ∧ inst.srcOperands = [a, b, c] ∧
      LeavesWord inst ops dst.number fun s =>
        ((a.word s).setWidth 64 * (b.word s).setWidth 64 + c.wide s).extractLsb' 32 32 := by
  unfold imadHiU32Op at h
  split at h
  · rename_i dst a b c hdest hsrcs
    split_ifs at h with hform
    simp only [bind_eq_bind, bind_eq_some_iff, Option.pure_def, Option.some.injEq] at h
    obtain ⟨x, hx, y, hy, addend, haddend, rfl⟩ := h
    have hnamed : ∀ o ∈ [a, b, c], ∀ reg, o = .register reg → reg.kind = ['R', 'Z'] →
        reg.isZero = true := by
      rintro o ho reg rfl hkind
      exact hzero reg (hsrcs ▸ ho) hkind
    have hX := imadHiU32Source_printsWord (hnamed a (by simp)) hx
    have hY := imadHiU32Source_printsWord (hnamed b (by simp)) hy
    obtain ⟨hacc, hkeep, hexec⟩ := imadHiAddend_spec (hnamed c (by simp)) haddend
    obtain ⟨hkind, hz⟩ := isPlain_iff.mp hform.2.1
    have hdst : formatRegister dst = .reg32 (.r dst.number) := by simp [formatRegister, hkind, hz]
    refine ⟨dst, a, b, c, hdest, hsrcs, leaves_intro hguard ?_ ?_ fun s => ?_⟩
    · simp only [forall_mem_cons]
      exact ⟨rfl, hkeep, rfl, rfl, rfl, by simp⟩
    · have hmul : (mulWide (.reg64 .imadProduct) x y).accepted = true := by
        simp [accepted, hX.is32, hY.is32]
      rw [hdst, all_cons, all_cons, hmul, hacc]
      rfl
    · have hwide : ∀ t v, (c.wide (t.set64 .imadProduct v)) = c.wide t := by
        intro t v
        cases c <;> rfl
      simp only [foldl_cons, foldl_nil, hexec, hdst]
      simp [exec, hX.value, hY.value, hwide, ← extract_high]
  · cases h

end High

/-! ## In the context of a function -/

section Function

variable {instructions : List EnhancedSassInstruction} {ctx : LiftContext}
  {inst : EnhancedSassInstruction}

/-- A function with a wide instruction has a scratch pair above all its registers. -/
theorem scratchB64_eq (hctx : ofEntry instructions = some ctx)
    (hneeds : needsB64Scratch instructions = true) :
    ctx.scratchB64 = some (b64Base instructions) := by
  simp only [ofEntry, ite_none_right_eq_some, Option.some.injEq] at hctx
  obtain ⟨-, rfl⟩ := hctx
  exact if_pos hneeds

theorem needsB64Scratch_of_mem (hmem : inst ∈ instructions)
    (h : (inst.opcode = "IADD" ∧ inst.is64bitModifier = true) ∨
      (inst.opcode = "IMAD" ∧ inst.hasModifier "WIDE" = true)) :
    needsB64Scratch instructions = true := by
  refine any_eq_true.mpr ⟨inst, hmem, ?_⟩
  simpa using h

theorem eqIgnoreAsciiCase_trans {m a b : String} (ha : eqIgnoreAsciiCase m a = true)
    (hb : eqIgnoreAsciiCase m b = true) : eqIgnoreAsciiCase a b = true := by
  simp only [eqIgnoreAsciiCase, beq_iff_eq] at *
  exact ha.symm.trans hb

/-- The two modifiers of the supported form leave no room for a third. -/
theorem WideForm.not_hi (h : supportedImadWidePairForm inst = true) :
    inst.hasModifier "WIDE" = true ∧ inst.hasModifier "HI" = false := by
  simp only [supportedImadWidePairForm, and_eq_true, beq_iff_eq] at h
  obtain ⟨⟨⟨⟨⟨⟨⟨hlen, hwide⟩, hu32⟩, -⟩, -⟩, -⟩, -⟩, -⟩ := h
  refine ⟨hwide, ?_⟩
  obtain ⟨m, n, hmods⟩ := length_eq_two.mp hlen
  have hWH : eqIgnoreAsciiCase "WIDE" "HI" = false := by decide +kernel
  have hUH : eqIgnoreAsciiCase "U32" "HI" = false := by decide +kernel
  have hWU : eqIgnoreAsciiCase "WIDE" "U32" = false := by decide +kernel
  have hclash : ∀ x a b : String, eqIgnoreAsciiCase a b = false → eqIgnoreAsciiCase x a = true →
      eqIgnoreAsciiCase x b = false := by
    intro x a b hab ha
    by_contra hb
    simp [eqIgnoreAsciiCase_trans ha (by simpa using hb)] at hab
  simp only [hasModifier, hmods, any_cons, any_nil, Bool.or_false,
    or_eq_true, or_eq_false_iff] at *
  rcases hwide with hm | hn
  · have hnU := hu32.resolve_left (by simp [hclash m _ _ hWU hm])
    exact ⟨hclash m _ _ hWH hm, hclash n _ _ hUH hnU⟩
  · have hmU := hu32.resolve_right (by simp [hclash n _ _ hWU hn])
    exact ⟨hclash m _ _ hUH hmU, hclash n _ _ hWH hn⟩

theorem pair_lt_b64Base (hmem : inst ∈ instructions)
    (hpair : .register reg ∈ pairOperands inst) (hkind : reg.kind = ['R'])
    (hsupported : supportedPairRegister reg = true) : reg.number < b64Base instructions := by
  obtain ⟨hzero, -, hnum⟩ := supportedPairRegister_iff hkind hsupported
  have hgpr := pair_lt_maxGpr hmem hpair hkind hzero hnum
  have hbase := maxGpr_le_b64Base instructions
  omega

/-- **Lifted pair arithmetic is exact.** In every function, whatever the guard and whichever
registers coincide: the lines of `IADD.64`, `IMAD.WIDE.U32` and `IMAD.HI.U32` leave the sum,
the product with addend, and its high word, and change nothing else. -/
theorem pair_arithmetic_exact (hctx : ofEntry instructions = some ctx)
    (hmem : inst ∈ instructions) (hguard : inst.GuardedByPredicate) (hzero : inst.ZeroNamed) :
    (inst.opcode = "IADD" → ∀ scratch, (iadd64Op inst scratch).isSome = true →
      ∃ ops dst a b, liftInstruction ctx inst = .lines ops ∧
        inst.destOperands = [.register dst] ∧ inst.srcOperands = [a, b] ∧ dst.number % 2 = 0 ∧
        LeavesPair inst ops dst.number fun s => a.wide s + b.wide s) ∧
    (inst.opcode = "IMAD" → supportedImadWidePairForm inst = true →
      ∃ ops dst a b c, liftInstruction ctx inst = .lines ops ∧
        inst.destOperands = [.register dst] ∧ inst.srcOperands = [a, b, c] ∧ dst.number % 2 = 0 ∧
        LeavesPair inst ops dst.number fun s =>
          (a.word s).setWidth 64 * (b.word s).setWidth 64 + c.wide s) ∧
    (inst.opcode = "IMAD" → inst.hasModifier "HI" = true → inst.hasModifier "U32" = true →
      (imadHiU32Op inst).isSome = true →
      ∃ ops dst a b c, liftInstruction ctx inst = .lines ops ∧
        inst.destOperands = [.register dst] ∧ inst.srcOperands = [a, b, c] ∧
        LeavesWord inst ops dst.number fun s =>
          ((a.word s).setWidth 64 * (b.word s).setWidth 64 + c.wide s).extractLsb' 32 32) := by
  refine ⟨fun hop scratch hsome => ?_, fun hop hform => ?_, fun hop hhi hu32 hsome => ?_⟩
  · have hsupported : iadd64Supported inst = true := by
      by_contra hnot
      simp [iadd64Op, hnot] at hsome
    obtain ⟨dst, a, b, hform⟩ := IaddForm.of_supported hsupported
    have h64 : inst.is64bitModifier = true := by
      simp [is64bitModifier, hform.is64]
    have hscratch := scratchB64_eq hctx (needsB64Scratch_of_mem hmem (.inl ⟨hop, h64⟩))
    have hlift : liftInstruction ctx inst = .lines (iaddOps dst a b (b64Base instructions)) := by
      simp [liftInstruction, hop, h64, hscratch, hform.ops_eq hsupported]
    have hnotwide : supportedImadWidePairForm inst = false := by
      simp [supportedImadWidePairForm, hform.srcs]
    have hpairs : pairOperands inst = inst.operands := by
      simp [pairOperands, hnotwide, h64]
    have ha : a.number < b64Base instructions :=
      pair_lt_b64Base hmem (hpairs ▸ by simp [operands, hform.srcs])
        (isPlain_iff.mp hform.a_plain).1 hform.a_pair
    have heven := (supportedPairRegister_iff (isPlain_iff.mp hform.dst_plain).1 hform.dst_pair).2.1
    exact ⟨_, dst, _, _, hlift, hform.dest, hform.srcs, heven, hform.leavesPair hguard ha⟩
  · obtain ⟨dst, a, b, c, hwide⟩ := WideForm.of_supported hform
    obtain ⟨hW, hHI⟩ := WideForm.not_hi hform
    have hscratch := scratchB64_eq hctx (needsB64Scratch_of_mem hmem (.inr ⟨hop, hW⟩))
    have hlift : liftInstruction ctx inst = .lines (wideOps dst a b c (b64Base instructions)) := by
      simp [liftInstruction, hop, hW, hHI, hform, hscratch, hwide.ops_eq]
    have hpairs : pairOperands inst = [.register dst, .register c] := by
      simp [pairOperands, hform, hwide.dest, hwide.srcs]
    have hc : c.isZero = false → c.number < b64Base instructions := by
      intro hcZ
      rcases hwide.c_pair with ⟨hcK, hcP⟩ | ⟨-, hcZ'⟩
      · exact pair_lt_b64Base hmem (hpairs ▸ by simp) hcK hcP
      · exact absurd hcZ' (by simp [hcZ])
    have heven := (supportedPairRegister_iff hwide.dst_kind hwide.dst_pair).2.1
    exact ⟨_, dst, a, b, _, hlift, hwide.dest, hwide.srcs, heven, hwide.leavesPair hguard hc⟩
  · obtain ⟨ops, hops⟩ := isSome_iff_exists.mp hsome
    have hlift : liftInstruction ctx inst = .lines ops := by
      simp [liftInstruction, hop, hhi, hu32, hops]
    obtain ⟨dst, a, b, c, hdest, hsrcs, hleaves⟩ := imadHi_leavesWord hguard hzero hops
    exact ⟨ops, dst, a, b, c, hlift, hdest, hsrcs, hleaves⟩

end Function

/-- `@!P1 IADD.64 R4, R6, UR4`. -/
def iaddSample : EnhancedSassInstruction :=
  .ofParts 0 (some (.predicate (registerOf ['P'] 1 false) true)) "IADD" ["64"]
    ["R4".toList, "R6".toList, "UR4".toList]

/-- `IMAD.WIDE.U32 R6, R6, R7, R6`. -/
def wideSample : EnhancedSassInstruction :=
  .ofParts 16 none "IMAD" ["WIDE", "U32"] ["R6".toList, "R6".toList, "R7".toList, "R6".toList]

/-- `@P0 IMAD.HI.U32 R6, R7, 0x3, R6`. -/
def highSample : EnhancedSassInstruction :=
  .ofParts 32 (some (.predicate (registerOf ['P'] 0 false) false)) "IMAD" ["HI", "U32"]
    ["R6".toList, "R7".toList, "0x3".toList, "R6".toList]

theorem pair_arithmetic_exact_samples :
    (∃ ops, LeavesPair iaddSample ops 4 fun s =>
      (s.b32 (.r 7) ++ s.b32 (.r 6)) + (s.b32 (.ur 5) ++ s.b32 (.ur 4))) ∧
    (∃ ops, LeavesPair wideSample ops 6 fun s =>
      (s.b32 (.r 6)).setWidth 64 * (s.b32 (.r 7)).setWidth 64 + (s.b32 (.r 7) ++ s.b32 (.r 6))) ∧
    ∃ ops, LeavesWord highSample ops 6 fun s =>
      ((s.b32 (.r 7)).setWidth 64 * (BitVec.ofInt 32 3).setWidth 64 +
        (s.b32 (.r 7) ++ s.b32 (.r 6))).extractLsb' 32 32 := by
  have hctx : ofEntry [iaddSample, wideSample, highSample] =
      some ⟨none, none, some 16⟩ := by decide +kernel
  have hsources : iaddSample.srcOperands =
        [.register (registerOf ['R'] 6 false), .register (registerOf ['U', 'R'] 4 false)] ∧
      wideSample.srcOperands = [.register (registerOf ['R'] 6 false),
        .register (registerOf ['R'] 7 false), .register (registerOf ['R'] 6 false)] ∧
      highSample.srcOperands = [.register (registerOf ['R'] 7 false), .immediate 3,
        .register (registerOf ['R'] 6 false)] := by decide +kernel
  have hdests : iaddSample.destOperands = [.register (registerOf ['R'] 4 false)] ∧
      wideSample.destOperands = [.register (registerOf ['R'] 6 false)] ∧
      highSample.destOperands = [.register (registerOf ['R'] 6 false)] := by decide +kernel
  obtain ⟨hsrc0, hsrc1, hsrc2⟩ := hsources
  obtain ⟨hdst0, hdst1, hdst2⟩ := hdests
  have hzero0 : iaddSample.ZeroNamed := by
    simp [EnhancedSassInstruction.ZeroNamed, hsrc0, registerOf]
  have hzero1 : wideSample.ZeroNamed := by
    simp [EnhancedSassInstruction.ZeroNamed, hsrc1, registerOf]
  have hzero2 : highSample.ZeroNamed := by
    simp [EnhancedSassInstruction.ZeroNamed, hsrc2, registerOf]
  refine ⟨?_, ?_, ?_⟩
  · obtain ⟨ops, dst, a, b, -, hdst, hsrc, -, hleaves⟩ :=
      (pair_arithmetic_exact hctx (by simp) (.inr ⟨1, by decide, true, rfl⟩) hzero0).1 rfl 0
        (by decide +kernel)
    rw [hdst0] at hdst
    rw [hsrc0] at hsrc
    cases hdst
    cases hsrc
    exact ⟨ops, hleaves⟩
  · obtain ⟨ops, dst, a, b, c, -, hdst, hsrc, -, hleaves⟩ :=
      (pair_arithmetic_exact hctx (by simp) (.inl rfl) hzero1).2.1 rfl (by decide +kernel)
    rw [hdst1] at hdst
    rw [hsrc1] at hsrc
    cases hdst
    cases hsrc
    exact ⟨ops, hleaves⟩
  · obtain ⟨ops, dst, a, b, c, -, hdst, hsrc, hleaves⟩ :=
      (pair_arithmetic_exact hctx (by simp) (.inr ⟨0, by decide, false, rfl⟩) hzero2).2.2 rfl
        (by decide +kernel) (by decide +kernel) (by decide +kernel)
    rw [hdst2] at hdst
    rw [hsrc2] at hsrc
    cases hdst
    cases hsrc
    exact ⟨ops, hleaves⟩

end Concordia.Lifter
