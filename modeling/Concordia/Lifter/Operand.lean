import Concordia.Lib.Text

/-!
# The operands of a disassembled instruction

`SassOperand::parse` reads an operand of the disassembler's text. It tries one form after
the other, and what it does not know becomes a label: `-R5` is a register whose prefix is
`-R`, `!P1` one whose prefix is `!P`, while `-RZ` and `!PT`, which have no number, are labels.
-/

namespace Concordia.Lifter

open Concordia.Lib Concordia.Lib.Text List

/-! ## Registers and operands -/

/-- `SassRegister`; `kind` is its `prefix`. -/
structure SassRegister where
  kind : Text
  number : Nat
  isUniform : Bool
  isZero : Bool
  component : Option Text
  deriving DecidableEq, Repr

/-- `SassOperand`; a floating-point literal is kept as it is written. -/
inductive SassOperand where
  | register (reg : SassRegister)
  | immediate (value : Int)
  | floatImmediate (literal : Text)
  | constantBank (bank offset : Nat)
  | memory (base : Option SassRegister) (offset : Int) (index : Option SassRegister) (scale : Nat)
  | predicate (register : SassRegister) (negated : Bool)
  | barrier (id : Nat)
  | specialRegister (name : Text)
  | label (name : Text)
  | address (addr : Nat)
  deriving DecidableEq, Repr

open SassOperand

/-! ## Numbers -/

/-- Whether a minus sign is in front, and what follows the sign. -/
def splitSign : Text → Bool × Text
  | '-' :: rest => (true, rest)
  | '+' :: rest => (false, rest)
  | s => (false, s)

/-- `i64::from_str_radix`. -/
def parseI64 (radix : Nat) (s : Text) : Option Int :=
  (parseDigits radix (splitSign s).2).bind fun n =>
    let v : Int := if (splitSign s).1 then -n else n
    if -2 ^ 63 ≤ v ∧ v < 2 ^ 63 then some v else none

/-- Negation of an `i64`, with wrapping. -/
def negI64 (v : Int) : Int := if v = -2 ^ 63 then v else -v

def parseHexOrDec (s : Text) : Option Int :=
  let s := trim s
  if ['0', 'x'].isPrefixOf s ∨ ['0', 'X'].isPrefixOf s then parseI64 16 (s.drop 2)
  else if ['-', '0', 'x'].isPrefixOf s ∨ ['-', '0', 'X'].isPrefixOf s then
    (parseI64 16 (s.drop 3)).map negI64
  else parseI64 10 s

/-- The part after the mantissa of a floating-point number. -/
def isExponent : Text → Bool
  | [] => true
  | c :: rest =>
    (c == 'e' || c == 'E') && (splitSign rest).2 ≠ [] && (splitSign rest).2.all Char.isDigit

/-- A mantissa has a digit before or after its point. -/
def isDecimalFloat (s : Text) : Bool :=
  match s.dropWhile Char.isDigit with
  | '.' :: rest =>
    ((s.head?.any Char.isDigit) || (rest.head?.any Char.isDigit)) &&
      isExponent (rest.dropWhile Char.isDigit)
  | rest => (s.head?.any Char.isDigit) && isExponent rest

/-- Whether `s.parse::<f64>()` succeeds. -/
def isFloat (s : Text) : Bool :=
  let unsigned := (splitSign s).2
  [['i', 'n', 'f'], ['i', 'n', 'f', 'i', 'n', 'i', 't', 'y'], ['n', 'a', 'n']].any
    (· == unsigned.map Char.toLower) || isDecimalFloat unsigned

/-! ## Parsing -/

/-- `SassRegister::parse`. -/
def SassRegister.parse (s : Text) : Option SassRegister :=
  let s := trim s
  if s = ['R', 'Z'] then
    some
      { kind := ['R', 'Z'], number := 255, isUniform := false, isZero := true, component := none }
  else if s = ['U', 'R', 'Z'] then
    some { kind := ['U', 'R', 'Z'], number := 63, isUniform := true, isZero := true,
           component := none }
  else if s = ['P', 'T'] then
    some { kind := ['P', 'T'], number := 7, isUniform := false, isZero := true, component := none }
  else
    let base := s.takeWhile (· != '.')
    let component :=
      match s.dropWhile (· != '.') with
      | _ :: rest => some rest
      | [] => none
    let kind := base.takeWhile (!Char.isDigit ·)
    match base.dropWhile (!Char.isDigit ·) with
    | [] => none
    | digits =>
      (parseUnsigned (2 ^ 32) digits).map fun number =>
        { kind, number
          isUniform := ['U', 'R'].isPrefixOf kind || ['U', 'P'].isPrefixOf kind
          isZero := false
          component }

def parseMemoryOperand (inner : Text) : SassOperand :=
  let parts := inner.splitOn '+'
  let upToDot (part : Text) := part.takeWhile (· != '.')
  .memory ((parts.head?.map upToDot).bind SassRegister.parse)
    (((parts[1]?.map upToDot).bind parseHexOrDec).getD 0) none 1

/-- The bank and the offset of `c[bank][offset]`. -/
def parseConstantBank (s : Text) : Option (Option SassOperand) :=
  match s.splitOn '[' with
  | _ :: bank :: offset :: _ => some (do
    let bank ← parseHexOrDec (bank.rdropWhile (· == ']'))
    let offset ← parseHexOrDec (offset.rdropWhile (· == ']'))
    -- `as u32`
    return .constantBank (bank % 2 ^ 32).toNat (offset % 2 ^ 32).toNat)
  | _ => none

/-- The forms after the bracketed ones. -/
def parsePlain (s : Text) : SassOperand :=
  match (if ['0', 'x'].isPrefixOf s ∨ ['-', '0', 'x'].isPrefixOf s then parseHexOrDec s
    else none) <|> parseI64 10 s with
  | some v => .immediate v
  | none =>
    if isFloat s then .floatImmediate s
    else
      match SassRegister.parse s with
      | some reg => .register reg
      | none => if ['S', 'R', '_'].isPrefixOf s then .specialRegister s else .label s

/-- `SassOperand::parse`. -/
def SassOperand.parse (s : Text) : Option SassOperand :=
  let s := trim s
  match s with
  | [] => none
  | '@' :: rest =>
    let negated := rest.head? = some '!'
    (SassRegister.parse (if negated then rest.drop 1 else rest)).map
      fun reg => .predicate reg negated
  | _ =>
    match if ['c', '['].isPrefixOf s then parseConstantBank s else none with
    | some result => result
    | none =>
      if s.head? = some '[' ∧ s.getLast? = some ']' then
        some (parseMemoryOperand (s.drop 1).dropLast)
      else some (parsePlain s)

example : parse "-R5".toList
    = some (.register ⟨['-', 'R'], 5, false, false, none⟩) := by decide +kernel
example : parse "-0x10".toList = some (.immediate (-16)) := by decide +kernel
example : parse "c[0x0][0x160]".toList = some (.constantBank 0 352) := by decide +kernel

/-! ## Registers as the disassembler prints them -/

/-- The prefixes of numbered registers, with a sign or a negation. -/
def printedKinds : List Text :=
  [['R'], ['U', 'R'], ['-', 'R'], ['-', 'U', 'R'], ['P'], ['U', 'P'], ['!', 'P'], ['!', 'U', 'P']]

def reuseMark : Text := ['r', 'e', 'u', 's', 'e']

def registerText (kind : Text) (number : Nat) (reuse : Bool) : Text :=
  kind ++ (decimal number ++ if reuse then '.' :: reuseMark else [])

def registerOf (kind : Text) (number : Nat) (reuse : Bool) : SassRegister :=
  { kind, number
    isUniform := ['U', 'R'].isPrefixOf kind || ['U', 'P'].isPrefixOf kind
    isZero := false
    component := if reuse then some reuseMark else none }

section Printed

variable {kind : Text} (number : Nat) (reuse : Bool)

/-- No character that ends a prefix, or that is trimmed. -/
def IsKind (kind : Text) : Prop :=
  ∀ c ∈ kind, c.isDigit = false ∧ c ≠ '.' ∧ isWhitespace c = false

theorem isKind_of_mem (hkind : kind ∈ printedKinds) : IsKind kind := by
  intro c hc
  have hall : ∀ k ∈ printedKinds,
      k.all (fun c => !c.isDigit && c != '.' && !isWhitespace c) = true := by decide
  have hchar := all_eq_true.mp (hall kind hkind) c hc
  simpa [and_assoc] using hchar

theorem decimal_ne_nil (n : Nat) : decimal n ≠ [] := Nat.toDigits_ne_nil

theorem solid_registerText (hkind : IsKind kind) : Solid (registerText kind number reuse) := by
  apply Solid.append
  · intro c hc
    exact (hkind c hc).2.2
  · apply Solid.append (solid_decimal number)
    cases reuse with
    | false => intro c hc; exact absurd hc (by simp)
    | true => decide +kernel

/-- A prefix, a text that starts with a digit, and perhaps a component. -/
theorem SassRegister.parse_append (hkind : IsKind kind) {d : Char} {rest : Text}
    (hdigit : d.isDigit) (hsolid : Solid (d :: rest)) (hdot : '.' ∉ d :: rest)
    (component : Option Text) (hcomponent : ∀ c ∈ component, Solid c) :
    SassRegister.parse (kind ++ (d :: rest) ++ component.elim [] ('.' :: ·)) =
      (parseUnsigned (2 ^ 32) (d :: rest)).map fun number =>
        { kind, number
          isUniform := ['U', 'R'].isPrefixOf kind || ['U', 'P'].isPrefixOf kind
          isZero := false
          component } := by
  have hnodot : ∀ c ∈ kind ++ d :: rest, (c != '.') = true := by
    intro c hc
    rw [bne_iff_ne]
    rcases mem_append.mp hc with hk | hd
    · exact (hkind c hk).2.1
    · rintro rfl
      exact hdot hd
  have hkinds : ∀ c ∈ kind, (!c.isDigit) = true := fun c hc => by simp [(hkind c hc).1]
  have htrim : trim (kind ++ (d :: rest) ++ component.elim [] ('.' :: ·)) =
      kind ++ (d :: rest) ++ component.elim [] ('.' :: ·) := by
    refine (Solid.append (.append (fun c hc => (hkind c hc).2.2) hsolid) ?_).trimmed.trim_eq
    cases component with
    | none => nofun
    | some c => exact .append (s := ['.']) (by decide) (hcomponent c rfl)
  -- No zero register has a digit in its name.
  have hnamed : ∀ name : Text, name.all (!Char.isDigit ·) →
      kind ++ (d :: rest) ++ component.elim [] ('.' :: ·) ≠ name := by
    rintro name hname rfl
    have := all_eq_true.mp hname d (by simp)
    simp [hdigit] at this
  have hbase : (kind ++ (d :: rest) ++ component.elim [] ('.' :: ·)).takeWhile (· != '.') =
      kind ++ d :: rest := by
    rw [takeWhile_append_of_pos hnodot]
    cases component <;> simp
  have hfrom : (kind ++ (d :: rest) ++ component.elim [] ('.' :: ·)).dropWhile (· != '.') =
      component.elim [] ('.' :: ·) := by
    rw [dropWhile_append_of_pos hnodot]
    cases component <;> simp
  unfold SassRegister.parse
  simp only [htrim, hnamed _ (by decide : (['R', 'Z'] : Text).all (!Char.isDigit ·)),
    hnamed _ (by decide : (['U', 'R', 'Z'] : Text).all (!Char.isDigit ·)),
    hnamed _ (by decide : (['P', 'T'] : Text).all (!Char.isDigit ·)), if_false, hbase, hfrom,
    takeWhile_append_of_pos hkinds, dropWhile_append_of_pos hkinds]
  cases component <;> simp [hdigit]

/-- **A numbered register is read with its prefix.** -/
theorem SassRegister.parse_registerText (hkind : IsKind kind) (hnum : number < 2 ^ 32) :
    SassRegister.parse (registerText kind number reuse) = some (registerOf kind number reuse) := by
  have hnumber := parseUnsigned_decimal hnum
  have hsolid := solid_decimal number
  have hdot : '.' ∉ decimal number := not_mem_decimal (by decide)
  obtain ⟨d, rest, hd⟩ := exists_cons_of_ne_nil (decimal_ne_nil number)
  have hdigit : d.isDigit := isDigit_of_mem_decimal (hd ▸ mem_cons_self)
  rw [hd] at hnumber hsolid hdot
  have hparse := parse_append hkind hdigit hsolid hdot (if reuse then some reuseMark else none)
    (by cases reuse <;> decide)
  rw [hnumber] at hparse
  cases reuse <;> simpa [registerText, registerOf, hd] using hparse

def registerLetters : Text := ['R', 'U', 'P', '!']

theorem registerLetter_no_number {s : Text} {c : Char} {rest : Text} (hc : c ∈ registerLetters)
    (hs : (splitSign s).2 = c :: rest) : parseI64 10 s = none ∧ isFloat s = false := by
  simp only [registerLetters, mem_cons, not_mem_nil, or_false] at hc
  have hdigit : (hexDigit c).filter (· < 10) = none := by
    rcases hc with rfl | rfl | rfl | rfl <;> decide
  refine ⟨?_, ?_⟩
  · simp [parseI64, hs, parseDigits, hdigit]
  · unfold isFloat
    rw [hs]
    rcases hc with rfl | rfl | rfl | rfl <;> simp [isDecimalFloat]

/-- A printed register is no number. -/
theorem parsePlain_registerText (hkind : kind ∈ printedKinds) (hnum : number < 2 ^ 32) :
    parsePlain (registerText kind number reuse) = .register (registerOf kind number reuse) := by
  have hparse := SassRegister.parse_registerText number reuse (isKind_of_mem hkind) hnum
  have hforms : ∀ tail : Text, (['0', 'x'].isPrefixOf (kind ++ tail) = false ∧
      ['-', '0', 'x'].isPrefixOf (kind ++ tail) = false) ∧ parseI64 10 (kind ++ tail) = none ∧
      isFloat (kind ++ tail) = false := by
    intro tail
    simp only [printedKinds, mem_cons, not_mem_nil, or_false] at hkind
    rcases hkind with rfl | rfl | rfl | rfl | rfl | rfl | rfl | rfl <;>
      refine ⟨⟨rfl, rfl⟩, ?_⟩
    · exact registerLetter_no_number (c := 'R') (by decide) rfl
    · exact registerLetter_no_number (c := 'U') (by decide) rfl
    · exact registerLetter_no_number (c := 'R') (by decide) rfl
    · exact registerLetter_no_number (c := 'U') (by decide) rfl
    · exact registerLetter_no_number (c := 'P') (by decide) rfl
    · exact registerLetter_no_number (c := 'U') (by decide) rfl
    · exact registerLetter_no_number (c := '!') (by decide) rfl
    · exact registerLetter_no_number (c := '!') (by decide) rfl
  obtain ⟨hhex, hint, hfloat⟩ := hforms (decimal number ++ if reuse then '.' :: reuseMark else [])
  unfold parsePlain
  rw [hparse]
  unfold registerText
  simp only [hhex.1, hhex.2, hint, hfloat]
  rfl

theorem SassOperand.parse_registerText (hkind : kind ∈ printedKinds) (hnum : number < 2 ^ 32) :
    parse (registerText kind number reuse) =
      some (.register (registerOf kind number reuse)) := by
  have hsolid := (solid_registerText number reuse (isKind_of_mem hkind)).trimmed.trim_eq
  have hplain := parsePlain_registerText number reuse hkind hnum
  unfold parse
  simp only [hsolid]
  rw [← hplain]
  unfold registerText
  simp only [printedKinds, mem_cons, not_mem_nil, or_false] at hkind
  rcases hkind with rfl | rfl | rfl | rfl | rfl | rfl | rfl | rfl <;> simp

end Printed

end Concordia.Lifter
