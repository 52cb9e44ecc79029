import Concordia.Lib.Accumulate
import Concordia.Lifter.Lower

/-!
# What the register declarations cover

The counts of `RegisterDecls` only grow, so they cover every register that some instruction
of the function had counted.
-/

namespace Concordia.Lifter

open Concordia.Lib

namespace RegisterDecls

/-- Count by count. -/
instance : Preorder RegisterDecls :=
  Preorder.lift fun d => (d.maxGpr, d.maxPred, d.maxUniformGpr, d.maxUniformPred, d.maxB64)

section Growth

variable (d : RegisterDecls) (n : Nat)

theorem le_raiseGpr : d ≤ d.raiseGpr n :=
  ⟨le_max_left _ _, le_refl _, le_refl _, le_refl _, le_refl _⟩

theorem le_raisePred : d ≤ d.raisePred n :=
  ⟨le_refl _, le_max_left _ _, le_refl _, le_refl _, le_refl _⟩

theorem le_raiseUniformGpr : d ≤ d.raiseUniformGpr n :=
  ⟨le_refl _, le_refl _, le_max_left _ _, le_refl _, le_refl _⟩

theorem le_raiseUniformPred : d ≤ d.raiseUniformPred n :=
  ⟨le_refl _, le_refl _, le_refl _, le_max_left _ _, le_refl _⟩

theorem le_collectRegister (reg : SassRegister) : d ≤ d.collectRegister reg := by
  unfold collectRegister
  split_ifs
  · exact le_refl d
  · exact le_raiseGpr d _
  · exact le_raisePred d _
  · exact le_raiseUniformGpr d _
  · exact le_raiseUniformPred d _
  · exact le_refl d

theorem le_collectOptional (reg : Option SassRegister) : d ≤ d.collectOptional reg := by
  cases reg with
  | none => exact le_refl d
  | some reg => exact le_collectRegister d reg

theorem le_collectOperand (operand : SassOperand) : d ≤ d.collectOperand operand := by
  unfold collectOperand
  split
  · exact le_collectRegister d _
  · exact le_collectRegister d _
  · exact (le_collectOptional d _).trans (le_collectOptional _ _)
  · exact le_refl d

theorem le_collectPair (operand : SassOperand) : d ≤ d.collectPair operand := by
  unfold collectPair
  split
  · split_ifs
    · exact le_refl d
    · exact le_raiseGpr d _
    · exact le_raiseUniformGpr d _
    · exact le_refl d
  · exact le_refl d

theorem le_collectImadHiAddend (inst : EnhancedSassInstruction) :
    d ≤ d.collectImadHiAddend inst := by
  unfold collectImadHiAddend
  split_ifs
  · split
    · split_ifs
      · exact le_raiseGpr d _
      · exact le_refl d
    · exact le_refl d
  · exact le_refl d

theorem le_collectImplicitRegisterPair (inst : EnhancedSassInstruction) :
    d ≤ d.collectImplicitRegisterPair inst :=
  (le_collectImadHiAddend d inst).trans (le_foldl le_collectPair _ _)

theorem le_collectImplicitCs2rSrzPair (inst : EnhancedSassInstruction) :
    d ≤ d.collectImplicitCs2rSrzPair inst := by
  unfold collectImplicitCs2rSrzPair
  split
  · exact le_raiseGpr d _
  · exact le_refl d

theorem le_collectDescAddress (operand : SassOperand) : d ≤ d.collectDescAddress operand := by
  unfold collectDescAddress
  split
  · split_ifs
    · split
      · split_ifs
        · exact le_raiseGpr d _
        · exact le_refl d
      · exact le_refl d
    · exact le_refl d
  · exact le_refl d

theorem le_collectImplicitR2pPredicate (inst : EnhancedSassInstruction) :
    d ≤ d.collectImplicitR2pPredicate inst := by
  unfold collectImplicitR2pPredicate
  split_ifs
  · split
    · split_ifs
      · exact le_refl d
      · exact le_raisePred d _
    · exact le_refl d
  · exact le_refl d

/-- The collectors that run after the pairs of an instruction. -/
theorem le_after_pairs (inst : EnhancedSassInstruction) :
    d ≤ (inst.operands.foldl collectDescAddress
      (d.collectImplicitCs2rSrzPair inst)).collectImplicitR2pPredicate inst :=
  ((le_collectImplicitCs2rSrzPair d inst).trans (le_foldl le_collectDescAddress _ _)).trans
    (le_collectImplicitR2pPredicate _ inst)

theorem le_collectInstruction (inst : EnhancedSassInstruction) : d ≤ d.collectInstruction inst := by
  have hoperands : d ≤ inst.operands.foldl collectOperand d := le_foldl le_collectOperand _ _
  have hguard := le_foldl le_collectOperand inst.predicate.toList
      (inst.operands.foldl collectOperand d)
  have hpairs := le_collectImplicitRegisterPair
    (inst.predicate.toList.foldl collectOperand (inst.operands.foldl collectOperand d)) inst
  exact ((hoperands.trans hguard).trans hpairs).trans (le_after_pairs _ inst)

end Growth

/-! ## Counted registers -/

section Counted

variable {instructions : List EnhancedSassInstruction} {inst : EnhancedSassInstruction}

/-- An upward closed fact that the step of one instruction establishes. -/
theorem fromInstructions_of_mem {P : RegisterDecls → Prop} (hup : ∀ a b, a ≤ b → P a → P b)
    (hmem : inst ∈ instructions) (hstep : ∀ d : RegisterDecls, P (d.collectInstruction inst)) :
    P (fromInstructions instructions) :=
  foldl_of_mem le_collectInstruction hup hmem hstep empty

/-- **The upper word of a pair is declared.** -/
theorem pair_lt_maxGpr (hmem : inst ∈ instructions) {reg : SassRegister}
    (hpair : .register reg ∈ pairOperands inst) (hkind : reg.kind = ['R'])
    (hzero : reg.isZero = false)
    (hnum : reg.number < 254) : reg.number + 2 ≤ (fromInstructions instructions).maxGpr := by
  have hup : ∀ a b : RegisterDecls, a ≤ b → reg.number + 2 ≤ a.maxGpr → reg.number + 2 ≤ b.maxGpr :=
    fun a b hab ha => ha.trans hab.1
  refine fromInstructions_of_mem (P := fun d => reg.number + 2 ≤ d.maxGpr) hup hmem fun d => ?_
  have hstep : ∀ d : RegisterDecls, reg.number + 2 ≤ (d.collectPair (.register reg)).maxGpr := by
    intro d
    have hraise : d.collectPair (.register reg) = d.raiseGpr (reg.number + 2) := by
      simp [collectPair, hzero, hkind, hnum]
    rw [hraise]
    exact le_max_right _ _
  have hfold := foldl_of_mem le_collectPair hup hpair hstep
  exact (hfold _).trans (le_after_pairs _ inst).1

end Counted

end RegisterDecls

/-- The `%rd` registers named after pairs lie below the scratch pair. -/
theorem maxGpr_le_b64Base (instructions : List EnhancedSassInstruction) :
    (RegisterDecls.fromInstructions instructions).maxGpr ≤ b64Base instructions := by
  unfold b64Base callBase gprWithScratch
  dsimp only
  split_ifs <;> omega

end Concordia.Lifter
