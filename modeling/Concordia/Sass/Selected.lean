import Concordia.Sass.Encoding
import Concordia.Sass.Isel

/-!
# Selected instructions and their encodings

Which arguments of the `select_*` constructors reach the sixteen bytes. A predicate
comparison cannot be encoded, a store loses the register it stores and a barrier its
number; everything else can be read back from the word.
-/

namespace Concordia.Sass

open Concordia.Lib BitVec

/-- Arguments in the range of the instruction set. -/
def Selection.InRange : Selection → Prop
  | .addI32 dst src1 src2 | .addF32 dst src1 src2 | .mulF32 dst src1 src2 =>
    dst < 255 ∧ src1 < 255 ∧ src2 < 255
  | .fmaF32 dst src1 src2 src3 => dst < 255 ∧ src1 < 255 ∧ src2 < 255 ∧ src3 < 255
  | .loadGlobal dst addr _ => dst < 255 ∧ addr < 255
  | .storeGlobal addr _ data => addr < 255 ∧ data < 255
  | .mov dst src => dst < 255 ∧ src < 255
  | .barSync barrierId => barrierId < 16
  | .specialReg dst _ => dst < 255
  | .isetp predDst src1 src2 _ => predDst < 7 ∧ src1 < 255 ∧ src2 < 255
  | .branch _ | .exit | .nop => True

open Selection

/-- Both are encoded, and differently if they differ. -/
def Survives (x y : Selection) : Prop :=
  ∃ a b, encode x.inst = .ok a ∧ encode y.inst = .ok b ∧ (x ≠ y → a ≠ b)

/-- The constructors whose encoder panics on the destination. -/
def Selection.IsIsetp : Selection → Prop
  | .isetp .. => True
  | _ => False

/-- Two stores of different registers to one address, or two different barriers. -/
def Confused : Selection → Selection → Prop
  | .storeGlobal addr offset data, .storeGlobal addr' offset' data' =>
    addr = addr' ∧ offset = offset' ∧ data ≠ data'
  | .barSync barrierId, .barSync barrierId' => barrierId ≠ barrierId'
  | _, _ => False

/-! ## Words -/

/-- The fields of the low word: opcode, the true predicate, and three operand fields. -/
def word (op : BitVec 16) (low : BitVec 8) (next : BitVec 8) (high : BitVec 32) : BitVec 64 :=
  place op 52 ||| place (7 : BitVec 3) 16 ||| place low 0 ||| place next 8 ||| place high 20

section Fields

variable {op op' : BitVec 16} {low low' next next' : BitVec 8} {high high' : BitVec 32}

theorem word_op : field (word op low next high) 52 12 = op.setWidth 12 := by
  simp [word, field_place, field_place_of_disjoint]

theorem word_low : field (word op low next high) 0 8 = low := by
  simp [word, field_place, field_place_of_disjoint]

theorem word_next : field (word op low next high) 8 8 = next := by
  simp [word, field_place, field_place_of_disjoint]

theorem word_high : field (word op low next high) 20 32 = high := by
  simp [word, field_place, field_place_of_disjoint]

/-- The word determines its fields. -/
theorem word_inj (h : word op low next high = word op' low' next' high') :
    op.setWidth 12 = op'.setWidth 12 ∧ low = low' ∧ next = next' ∧ high = high' := by
  have hop := congrArg (field · 52 12) h
  have hlow := congrArg (field · 0 8) h
  have hnext := congrArg (field · 8 8) h
  have hhigh := congrArg (field · 20 32) h
  simp only [word_op] at hop
  simp only [word_low] at hlow
  simp only [word_next] at hnext
  simp only [word_high] at hhigh
  exact ⟨hop, hlow, hnext, hhigh⟩

end Fields

/-- The low word of a selected instruction. -/
def Selection.word : Selection → BitVec 64
  | .addI32 dst src1 src2 => Sass.word 0x211 dst.toBitVec src1.toBitVec (src2.toBitVec.setWidth 32)
  | .fmaF32 dst src1 src2 src3 =>
    Sass.word 0x308 dst.toBitVec src1.toBitVec
      (src2.toBitVec.setWidth 32 ||| place src3.toBitVec 8)
  | .addF32 dst src1 src2 => Sass.word 0x300 dst.toBitVec src1.toBitVec (src2.toBitVec.setWidth 32)
  | .mulF32 dst src1 src2 => Sass.word 0x304 dst.toBitVec src1.toBitVec (src2.toBitVec.setWidth 32)
  | .loadGlobal dst addr offset => Sass.word 0x380 dst.toBitVec addr.toBitVec offset.toBitVec
  | .storeGlobal addr offset _ => Sass.word 0x385 255 addr.toBitVec offset.toBitVec
  | .mov dst src => Sass.word 0x100 dst.toBitVec src.toBitVec 0
  | .branch target => Sass.word 0x000 0 0 target.toBitVec
  | .exit => Sass.word 0x010 0 0 0
  | .barSync _ => Sass.word 0x020 255 255 0
  | .specialReg dst sreg => Sass.word 0x110 dst.toBitVec 0 (sreg.encode.setWidth 32)
  | .isetp .. => 0
  | .nop => Sass.word 0x7FF 0 0 0

theorem place_byte_setWidth (v : BitVec 8) (lo : Nat) :
    (place (v.setWidth 32) lo : BitVec 64) = place v lo :=
  place_setWidth v lo (v.isLt.trans (by decide))

theorem aluBits_eq_word (op : BitVec 16) (dst src1 src2 : UInt8) :
    place op 52 ||| place (7 : BitVec 8) 16 ||| place dst.toBitVec 0 ||| place src1.toBitVec 8 |||
      place src2.toBitVec 20 ||| 0#64 =
      Sass.word op dst.toBitVec src1.toBitVec (src2.toBitVec.setWidth 32) := by
  rw [Sass.word, place_byte_setWidth, or_zero]
  rfl

/-- **The encoders.** -/
theorem encodeInstructionBits_inst {x : Selection} (hx : ¬x.IsIsetp) :
    encodeInstructionBits x.inst = .ok x.word := by
  cases x with
  | addI32 dst src1 src2 => exact congrArg Except.ok (aluBits_eq_word 0x211 dst src1 src2)
  | fmaF32 dst src1 src2 src3 =>
    show Except.ok (place (0x308 : BitVec 16) 52 ||| place (7 : BitVec 8) 16 |||
      place dst.toBitVec 0 ||| place src1.toBitVec 8 ||| place src2.toBitVec 20 |||
      place src3.toBitVec 28) = _
    rw [Selection.word, Sass.word, place_or, place_byte_setWidth, place_place _ (by decide),
      ← BitVec.or_assoc]
    rfl
  | addF32 dst src1 src2 => exact congrArg Except.ok (aluBits_eq_word 0x300 dst src1 src2)
  | mulF32 dst src1 src2 => exact congrArg Except.ok (aluBits_eq_word 0x304 dst src1 src2)
  | loadGlobal dst addr offset =>
    show Except.ok (place (0x380 : BitVec 16) 52 ||| place (7 : BitVec 8) 16 |||
      place dst.toBitVec 0 ||| (place addr.toBitVec 8 ||| place offset.toBitVec 20)) = _
    rw [Selection.word, Sass.word, ← BitVec.or_assoc]
    rfl
  | storeGlobal addr offset data =>
    show Except.ok (place (0x385 : BitVec 16) 52 ||| place (7 : BitVec 8) 16 |||
      (place addr.toBitVec 8 ||| place offset.toBitVec 20) ||| place (255 : BitVec 8) 0) = _
    rw [Selection.word, Sass.word, BitVec.or_assoc, or_comm (_ ||| _) (place 255 0)]
    simp only [BitVec.or_assoc]
    rfl
  | mov dst src =>
    show Except.ok (place (0x100 : BitVec 16) 52 ||| place (7 : BitVec 8) 16 |||
      place dst.toBitVec 0 ||| place src.toBitVec 8) = _
    rw [Selection.word, Sass.word, place_zero, or_zero]
    rfl
  | branch target =>
    show Except.ok (place (0x000 : BitVec 16) 52 ||| place (7 : BitVec 8) 16 |||
      place target.toBitVec 20) = _
    simp only [Selection.word, Sass.word, place_zero, or_zero]
    rfl
  | specialReg dst sreg =>
    show Except.ok (place (0x110 : BitVec 16) 52 ||| place (7 : BitVec 8) 16 |||
      place dst.toBitVec 0 ||| place sreg.encode 20 ||| 0#64 ||| 0#64) = _
    rw [Selection.word, Sass.word, place_zero, place_byte_setWidth, or_zero, or_zero,
      or_zero]
    rfl
  | isetp => exact absurd trivial hx
  | exit | nop | barSync => rfl

theorem encode_inst {x : Selection} (hx : ¬x.IsIsetp) :
    encode x.inst = .ok (wordBytes x.word ControlCodes.default.encode) := by
  unfold encode
  rw [encodeInstructionBits_inst hx]
  cases x <;> rfl

/-- The destination of `ISETP` is a predicate, which `dst_field` takes for a general
register. -/
theorem encode_isetp (predDst src1 src2 : UInt8) (cmp : CmpOp) :
    encode (isetp predDst src1 src2 cmp).inst = .error (.panicked "not a GPR") :=
  rfl

/-! ## What the words determine -/

theorem SpecialReg.encode_inj {a b : SpecialReg} (h : a.encode = b.encode) : a = b := by
  revert h
  cases a <;> cases b <;> decide

theorem byte_eq_of_setWidth {a b : UInt8}
    (h : a.toBitVec.setWidth 32 = b.toBitVec.setWidth 32) : a = b := by
  have hbyte := congrArg (BitVec.setWidth 8) h
  rw [setWidth_setWidth_of_le _ (by decide), setWidth_setWidth_of_le _ (by decide),
    setWidth_eq, setWidth_eq] at hbyte
  exact UInt8.toBitVec_inj.mp hbyte

/-- The two sources of `FFMA` that share the upper field. -/
theorem bytes_eq_of_high {a b c d : UInt8}
    (h : a.toBitVec.setWidth 32 ||| place b.toBitVec 8 =
      c.toBitVec.setWidth 32 ||| place d.toBitVec 8) : a = c ∧ b = d := by
  have hcast : ∀ x : UInt8, x.toBitVec.setWidth 32 = place x.toBitVec 0 := by
    intro x
    simp [place]
  rw [hcast, hcast] at h
  have hlow := congrArg (field · 0 8) h
  have hhigh := congrArg (field · 8 8) h
  simp only [field_or, field_place_of_disjoint _ (by decide : 0 + 8 ≤ 8 ∨ 8 + 8 ≤ 0),
    field_place_of_disjoint _ (by decide : 8 + 8 ≤ 0 ∨ 0 + 8 ≤ 8),
    field_place _ (by decide : 0 + 8 ≤ 32), field_place _ (by decide : 8 + 8 ≤ 32),
    setWidth_eq, or_zero, zero_or] at hlow hhigh
  exact ⟨UInt8.toBitVec_inj.mp hlow, UInt8.toBitVec_inj.mp hhigh⟩

/-- **The word determines the selection**, up to what the encoders drop. -/
theorem eq_or_confused_of_word_eq {x y : Selection} (hx : ¬x.IsIsetp) (hy : ¬y.IsIsetp)
    (h : x.word = y.word) : x = y ∨ Confused x y := by
  cases x <;> cases y
  case isetp.isetp => exact absurd trivial hx
  case addI32.addI32 | addF32.addF32 | mulF32.mulF32 =>
    obtain ⟨-, hd, h1, h2⟩ := word_inj h
    rw [UInt8.toBitVec_inj.mp hd, UInt8.toBitVec_inj.mp h1, byte_eq_of_setWidth h2]
    exact .inl rfl
  case fmaF32.fmaF32 =>
    obtain ⟨-, hd, h1, hhigh⟩ := word_inj h
    obtain ⟨h2, h3⟩ := bytes_eq_of_high hhigh
    rw [UInt8.toBitVec_inj.mp hd, UInt8.toBitVec_inj.mp h1, h2, h3]
    exact .inl rfl
  case loadGlobal.loadGlobal =>
    obtain ⟨-, hd, ha, ho⟩ := word_inj h
    rw [UInt8.toBitVec_inj.mp hd, UInt8.toBitVec_inj.mp ha, Int32.toBitVec_inj.mp ho]
    exact .inl rfl
  case storeGlobal.storeGlobal addr offset data addr' offset' data' =>
    obtain ⟨-, -, ha, ho⟩ := word_inj h
    rw [UInt8.toBitVec_inj.mp ha, Int32.toBitVec_inj.mp ho]
    by_cases hdata : data = data'
    · exact .inl (by rw [hdata])
    · exact .inr ⟨rfl, rfl, hdata⟩
  case mov.mov =>
    obtain ⟨-, hd, hs, -⟩ := word_inj h
    rw [UInt8.toBitVec_inj.mp hd, UInt8.toBitVec_inj.mp hs]
    exact .inl rfl
  case branch.branch =>
    obtain ⟨-, -, -, ht⟩ := word_inj h
    rw [UInt32.toBitVec_inj.mp ht]
    exact .inl rfl
  case barSync.barSync id id' =>
    by_cases hid : id = id'
    · exact .inl (by rw [hid])
    · exact .inr hid
  case specialReg.specialReg =>
    obtain ⟨-, hd, -, hs⟩ := word_inj h
    have hcode := congrArg (BitVec.setWidth 8) hs
    rw [setWidth_setWidth_of_le _ (by decide), setWidth_setWidth_of_le _ (by decide),
      setWidth_eq, setWidth_eq] at hcode
    rw [UInt8.toBitVec_inj.mp hd, SpecialReg.encode_inj hcode]
    exact .inl rfl
  case exit.exit | nop.nop => exact .inl rfl
  -- different constructors have different opcodes
  all_goals first
    | exact absurd trivial hx
    | exact absurd trivial hy
    | exact absurd (word_inj h).1 (by decide)

theorem Confused.word_eq {x y : Selection} (h : Confused x y) : x.word = y.word ∧ x ≠ y := by
  cases x <;> cases y
  case storeGlobal.storeGlobal =>
    obtain ⟨rfl, rfl, hdata⟩ := h
    exact ⟨rfl, fun he => hdata (storeGlobal.inj he).2.2⟩
  case barSync.barSync => exact ⟨rfl, fun he => h (barSync.inj he)⟩
  all_goals exact absurd h id

/-- **Encoding of selected instructions.** Two of them are encoded, and differently if
they differ, if and only if neither compares into a predicate and they are not two
stores of different registers to one address or two different barriers. -/
theorem encode_survives_iff (x y : Selection) :
    Survives x y ↔ ¬x.IsIsetp ∧ ¬y.IsIsetp ∧ ¬Confused x y := by
  constructor
  · rintro ⟨a, b, ha, hb, hne⟩
    have hok : ∀ z : Selection, (∃ bytes, encode z.inst = .ok bytes) → ¬z.IsIsetp := by
      rintro z ⟨bytes, hz⟩ hs
      cases z with
      | isetp predDst src1 src2 cmp =>
        rw [encode_isetp] at hz
        cases hz
      | _ => exact hs
    refine ⟨hok x ⟨a, ha⟩, hok y ⟨b, hb⟩, fun hc => ?_⟩
    obtain ⟨hword, hxy⟩ := hc.word_eq
    rw [encode_inst (hok x ⟨a, ha⟩)] at ha
    rw [encode_inst (hok y ⟨b, hb⟩), ← hword] at hb
    exact hne hxy (Except.ok.inj (ha.symm.trans hb))
  · rintro ⟨hix, hiy, hc⟩
    refine ⟨_, _, encode_inst hix, encode_inst hiy, fun hxy heq => ?_⟩
    exact (eq_or_confused_of_word_eq hix hiy (wordBytes_inj.mp heq).1).elim hxy hc

/-- `STG [R1], R2` and `STG [R1], R3` have the same bytes. -/
theorem encode_store_drops_data :
    (storeGlobal 1 0 2).InRange ∧ (storeGlobal 1 0 3).InRange ∧
      ¬Survives (.storeGlobal 1 0 2) (.storeGlobal 1 0 3) := by
  refine ⟨⟨by decide, by decide⟩, ⟨by decide, by decide⟩, ?_⟩
  rintro ⟨a, b, ha, hb, hne⟩
  have hsame : encode (storeGlobal 1 0 2).inst =
      encode (storeGlobal 1 0 3).inst := rfl
  rw [hsame, hb] at ha
  exact hne (by decide) (Except.ok.inj ha).symm

end Concordia.Sass
