import Mathlib

/-!
# Modules with floating-point modes

The statements of a module after its blocks were normalised. An instruction asks for
denormal and rounding modes, and a function starts with some.
-/

namespace Concordia.Modes

/-- A `SpirvWord`, as the name of a label or of a function. -/
abbrev Label := Nat

/-! ## Modes -/

inductive DenormalMode where
  | flushToZero
  | preserve
  deriving DecidableEq, Repr

inductive RoundingMode where
  | nearestEven
  | zero
  | negativeInf
  | positiveInf
  deriving DecidableEq, Repr

instance : Inhabited DenormalMode := ⟨.flushToZero⟩

instance : Inhabited RoundingMode := ⟨.nearestEven⟩

/-- The two registers with modes. -/
inductive Family where
  | denormal
  | rounding
  deriving DecidableEq, Repr

/-- Each of them has a mode for `f32` and one for the other float types. -/
inductive Width where
  | f32
  | f16f64
  deriving DecidableEq, Repr

abbrev Family.Value : Family → Type
  | .denormal => DenormalMode
  | .rounding => RoundingMode

instance : (F : Family) → DecidableEq F.Value
  | .denormal => inferInstanceAs (DecidableEq DenormalMode)
  | .rounding => inferInstanceAs (DecidableEq RoundingMode)

instance : (F : Family) → Inhabited F.Value
  | .denormal => inferInstanceAs (Inhabited DenormalMode)
  | .rounding => inferInstanceAs (Inhabited RoundingMode)

/-- Something for each of the four modes (`denormal_f32`, `denormal_f16f64`,
`rounding_f32`, `rounding_f16f64`). -/
abbrev PerMode (β : Type → Type) : Type := (F : Family) → Width → β F.Value

/-- `InstructionModes`: the modes that a statement asks for. -/
abbrev InstructionModes : Type := PerMode Option

/-! ## Statements -/

/-- A mode register with the values it is set to. -/
structure ModeRegister where
  family : Family
  value : Width → family.Value

/-- A statement, as the pass tells them apart. `ι` is what else a statement holds; an
instruction comes with what `get_modes` says of it. -/
inductive Statement (ι : Type) where
  | label (l : Label)
  | bra (target : Label)
  | conditional (predicate ifTrue ifFalse : Label)
  | call (func : Label) (details : ι)
  | ret (details : ι)
  | retValue (details : ι)
  | instruction (details : ι) (modes : InstructionModes)
  | fpModeRequired (ftzF32 : Option Bool) (rndF32 : Option RoundingMode)
  | setMode (register : ModeRegister)
  | functionPointer (details : ι)
  | other (details : ι)

/-- `Function2`, with the four mode fields together. -/
structure Method (ι : Type) where
  name : Label
  isKernel : Bool
  modes : (F : Family) → Width → F.Value
  body : Option (List (Statement ι))

inductive Directive (ι : Type) where
  | method (m : Method ι)
  | globalVariable (details : ι)

/-- What ends a pass early: `error_unreachable`, `error_todo`, an `unwrap` or an
`assert`. -/
inductive Failure where
  | unreachable
  | todo
  | panicked
  deriving DecidableEq, Repr

end Concordia.Modes
