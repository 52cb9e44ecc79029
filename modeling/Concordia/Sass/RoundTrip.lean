import Concordia.Lib.Fallible
import Concordia.Sass.Disassembler

/-!
# Assembling and disassembling register ALU code

The encoder leaves the field of an absent source zero, the disassembler takes a zero
for `R0`: only instructions with all three sources come back. A guard `!PT` comes back
as no guard.
-/

namespace Concordia.Sass

open Concordia.Lib Concordia.Lib.LittleEndian List UInt8

/-! ## The property -/

/-- How many sources a class takes at most. -/
def OpcodeClass.maxSources : OpcodeClass → Nat
  | .alu2 => 1
  | _ => 3

/-- A guard the instruction set has. -/
def Predicate.InRange (p : Predicate) : Prop := p.reg = .PT ∨ ∃ n < 7, p.reg = .P n

/-- Control codes within their bit widths. -/
structure ControlCodes.InRange (cc : ControlCodes) : Prop where
  stall : cc.stall < 16
  writeBarrier : cc.writeBarrier < 8
  readBarrier : cc.readBarrier < 8
  waitMask : cc.waitMask < 64
  reuse : cc.reuse < 16

/-- Register ALU code: the instruction is `mnemonic dst, sources`. -/
structure RegisterAlu (inst : SassInst) (dst : UInt8) (sources : List UInt8) : Prop where
  cls : inst.opcode.cls = .alu2 ∨ inst.opcode.cls = .alu3 ∨ inst.opcode.cls = .fma
  mnemonic : inst.opcode.mnemonic ∈ opcodeTable.map Prod.fst
  noDot : '.' ∉ inst.opcode.mnemonic.toList
  dst_eq : inst.dst = some (.R dst)
  dst_lt : dst < 255
  srcs_eq : inst.srcs = sources.map fun n => .reg (.R n)
  srcs_lt : ∀ n ∈ sources, n < 255
  srcs_pos : sources ≠ []
  srcs_le : sources.length ≤ inst.opcode.cls.maxSources
  pred : ∀ p, inst.pred = some p → p.InRange
  control : inst.control.InRange

/-- Whether a guard lets the instruction run, for given predicate registers. -/
def guardHolds (preds : Nat → Bool) : Option Predicate → Bool
  | none => true
  | some ⟨.P n, negated⟩ => preds n.toNat != negated
  | some ⟨_, negated⟩ => !negated

def decodedGuardHolds (preds : Nat → Bool) : Option SassOperand → Bool
  | some (.predicate r negated) => preds r.number != negated
  | _ => true

/-- The control codes under the disassembler's names. -/
def ControlCodes.renamed (cc : ControlCodes) : SassControlCodes :=
  ⟨cc.stall, cc.yieldFlag, cc.writeBarrier, cc.readBarrier, cc.waitMask, cc.reuse⟩

/-- Disassembling what was assembled gives one instruction: the same mnemonic, an
equivalent guard, the same destination, sources and control codes. -/
def RoundTrips (inst : SassInst) (dst : UInt8) (sources : List UInt8) : Prop :=
  ∃ version bytes decoded, SmVersion.fromVersion 120 = some version ∧
    encode inst = .ok bytes ∧ disassemble version bytes 0 = [decoded] ∧
    decoded.opcode = inst.opcode.mnemonic ∧
    (∀ preds, decodedGuardHolds preds decoded.predicate = guardHolds preds inst.pred) ∧
    decoded.destOperands = [.register (.new "R" dst.toNat)] ∧
    decoded.srcOperands = sources.map (fun n => .register (.new "R" n.toNat)) ∧
    decoded.controlCodes = inst.control.renamed

/-! ## The tables -/

/-- **The two opcode tables are inverse.** -/
theorem opcodeName_of_mem : ∀ e ∈ opcodeTable,
    opcodeTable.lookup e.1 = some e.2 ∧ opcodeName ((e.2.setWidth 12).setWidth 16) = e.1 := by
  decide +kernel

/-! ## The word -/

/-- The low word of register ALU code. -/
def aluWord (op : BitVec 16) (guard : BitVec 3) (negated : Bool) (dst src1 src2 src3 : BitVec 8) :
    BitVec 64 :=
  place op 52 ||| (place (BitVec.ofBool negated) 19 ||| place guard 16) ||| place dst 0 |||
    place src1 8 ||| place src2 20 ||| place src3 28

section Fields

variable {op : BitVec 16} {guard : BitVec 3} {negated : Bool} {dst src1 src2 src3 : BitVec 8}

theorem aluWord_op :
    field (aluWord op guard negated dst src1 src2 src3) 52 12 = op.setWidth 12 := by
  simp [aluWord, field_place, field_place_of_disjoint]

theorem aluWord_guard : field (aluWord op guard negated dst src1 src2 src3) 16 3 = guard := by
  simp [aluWord, field_place, field_place_of_disjoint]

theorem aluWord_negated :
    field (aluWord op guard negated dst src1 src2 src3) 19 1 = BitVec.ofBool negated := by
  simp [aluWord, field_place, field_place_of_disjoint]

theorem aluWord_dst : field (aluWord op guard negated dst src1 src2 src3) 0 8 = dst := by
  simp [aluWord, field_place, field_place_of_disjoint]

theorem aluWord_src1 : field (aluWord op guard negated dst src1 src2 src3) 8 8 = src1 := by
  simp [aluWord, field_place, field_place_of_disjoint]

theorem aluWord_src2 : field (aluWord op guard negated dst src1 src2 src3) 20 8 = src2 := by
  simp [aluWord, field_place, field_place_of_disjoint]

theorem aluWord_src3 : field (aluWord op guard negated dst src1 src2 src3) 28 8 = src3 := by
  simp [aluWord, field_place, field_place_of_disjoint]

end Fields

/-! ## Encoding -/

/-- The number of the guard, and whether it is negated. -/
def guardBits : Option Predicate → BitVec 3 × Bool
  | some ⟨.P n, negated⟩ => (n.toBitVec.setWidth 3, negated)
  | some ⟨_, negated⟩ => (7, negated)
  | none => (7, false)

variable {pred : Option Predicate}

theorem encodePredicate_eq (h : ∀ p, pred = some p → p.InRange) :
    encodePredicate pred =
      .ok (place (BitVec.ofBool (guardBits pred).2) 19 ||| place (guardBits pred).1 16) := by
  match pred with
  | none => rfl
  | some ⟨reg, negated⟩ =>
    rcases h _ rfl with rfl | ⟨n, hn, rfl⟩
    · rfl
    · have hlt : n.toBitVec.toNat < 2 ^ 3 := by
        have : n.toNat < 7 := lt_iff_toNat_lt.mp hn
        rw [toNat_toBitVec]
        omega
      rw [guardBits, place_setWidth _ _ hlt]
      rfl

/-- The bits of source `k`: zero where there is none. -/
def srcBits (sources : List UInt8) (k : Nat) : BitVec 8 := (sources[k]?.map toBitVec).getD 0

/-- A register operand in its field, whichever way the class reads the operand. -/
theorem operandField_eq (encodeOperand : Operand → Except Abort (BitVec 64)) (shift : Nat)
    (h : ∀ r, encodeOperand (.reg r) = srcRegField shift (.reg r)) (sources : List UInt8)
    (k : Nat) :
    operandField encodeOperand (sources.map fun n => Operand.reg (.R n))[k]? =
      .ok (place (srcBits sources k) shift) := by
  rw [getElem?_map, srcBits]
  cases sources[k]? with
  | none =>
    show Except.ok (0#64) = Except.ok (place (0 : BitVec 8) shift)
    rw [place_zero]
  | some n =>
    show encodeOperand (.reg (.R n)) = _
    rw [h]
    rfl

variable {sources : List UInt8}

theorem srcBits_of_length_le {k : Nat} (h : sources.length ≤ k) : srcBits sources k = 0 := by
  rw [srcBits, getElem?_eq_none h]
  rfl

/-- **Encoding.** -/
theorem RegisterAlu.encode_eq {inst : SassInst} {dst : UInt8} (h : RegisterAlu inst dst sources) :
    ∃ op, opcodeName ((op.setWidth 12).setWidth 16) =
        inst.opcode.mnemonic ∧
      encode inst = .ok (wordBytes (aluWord op (guardBits inst.pred).1 (guardBits inst.pred).2
        dst.toBitVec (srcBits sources 0) (srcBits sources 1) (srcBits sources 2))
        inst.control.encode) := by
  obtain ⟨e, hmem, hname⟩ := mem_map.mp h.mnemonic
  obtain ⟨hfind, hback⟩ := opcodeName_of_mem e hmem
  refine ⟨e.2, hback.trans hname, ?_⟩
  have hop : lookupOpcode inst.opcode.mnemonic = .ok e.2 := by
    rw [← hname, lookupOpcode, hfind]
  have hheader : header inst = .ok (place e.2 52 |||
      (place (BitVec.ofBool (guardBits inst.pred).2) 19 ||| place (guardBits inst.pred).1 16)) := by
    rw [header, opcodeField, hop, encodePredicate_eq h.pred]
    rfl
  have hdst : dstField inst = .ok (place dst.toBitVec 0) := by
    rw [dstField, h.dst_eq]
    rfl
  have halu3 : encodeAlu3 inst = .ok (aluWord e.2 (guardBits inst.pred).1 (guardBits inst.pred).2
      dst.toBitVec (srcBits sources 0) (srcBits sources 1) (srcBits sources 2)) := by
    rw [encodeAlu3, hheader, hdst, h.srcs_eq, operandField_eq (srcRegField 8) 8 fun r => rfl,
      operandField_eq secondField 20 fun r => rfl, operandField_eq (srcRegField 28) 28 fun r => rfl]
    rfl
  have hbits : encodeInstructionBits inst = .ok (aluWord e.2 (guardBits inst.pred).1
      (guardBits inst.pred).2 dst.toBitVec (srcBits sources 0) (srcBits sources 1)
      (srcBits sources 2)) := by
    rcases h.cls with hc | hc | hc
    · have hle : sources.length ≤ 1 := by
        have := h.srcs_le
        rwa [hc] at this
      have hsrc1 : srcBits sources 1 = 0 := srcBits_of_length_le hle
      have hsrc2 : srcBits sources 2 = 0 := srcBits_of_length_le (by omega)
      rw [encodeInstructionBits, hc]
      dsimp only
      rw [encodeAlu2, hheader, hdst, h.srcs_eq, operandField_eq soleField 8 fun r => rfl, hsrc1,
        hsrc2, aluWord, place_zero, place_zero, BitVec.or_zero, BitVec.or_zero]
      rfl
    · rw [encodeInstructionBits, hc]
      exact halu3
    · rw [encodeInstructionBits, hc]
      exact halu3
  rw [encode, hbits]
  rfl

/-! ## Decoding -/

theorem disassemble_wordBytes (lo hi : BitVec 64) :
    disassemble .sm120 (wordBytes lo hi) 0 = [decode128bit .sm120 (wordBytes lo hi) 0] := by
  have hlen : (wordBytes lo hi).length = 16 := by simp [wordBytes]
  rw [disassemble, if_pos (by rw [hlen]; decide), disassemble, if_neg (by
    rw [length_drop, hlen]; decide)]
  rfl

/-- Both words come back from the bytes. -/
theorem decode128bit_wordBytes (lo hi : BitVec 64) (address : Nat) :
    decode128bit .sm120 (wordBytes lo hi) address =
      { opcode := opcodeName ((field lo 52 12).setWidth 16)
        address
        size := 16
        encodingLo := lo
        encodingHi := some hi
        predicate := decodePredicate lo
        destOperands := decodeDest lo
        srcOperands := .register (.new "R" (field lo 8 8).toNat) ::
          (decodeOptional (field lo 20 8) ++ decodeOptional (field lo 28 8))
        controlCodes := decodeControl hi } := by
  have hlen : (wordBytes lo hi).length = 16 := by simp [wordBytes]
  have hlo : (wordBytes lo hi).take 8 = u64ToLe ⟨lo⟩ := by
    rw [wordBytes, take_left' (by simp)]
  have hhi : ((wordBytes lo hi).drop 8).take 8 = u64ToLe ⟨hi⟩ := by
    rw [wordBytes, drop_left' (by simp), take_of_length_le (by simp)]
  rw [decode128bit, if_neg (by rw [hlen]; decide), hlo, hhi, u64OfLe_u64ToLe, u64OfLe_u64ToLe]

/-- A byte cut to the width of its field and widened again. -/
theorem byte_of_field {v : UInt8} {w : Nat} (h : v.toNat < 2 ^ w) :
    (⟨(v.toBitVec.setWidth w).setWidth 8⟩ : UInt8) = v := by
  apply UInt8.toNat_inj.mp
  show ((v.toBitVec.setWidth w).setWidth 8).toNat = v.toNat
  rw [BitVec.toNat_setWidth, BitVec.toNat_setWidth, toNat_toBitVec, Nat.mod_eq_of_lt h,
    Nat.mod_eq_of_lt v.toNat_lt]

theorem ofBool_ne_zero (b : Bool) : decide (BitVec.ofBool b ≠ 0) = b := by
  cases b <;> decide

/-- **Control codes.** -/
theorem decodeControl_encode {cc : ControlCodes} (h : cc.InRange) :
    decodeControl cc.encode = cc.renamed := by
  have hstall : field cc.encode 0 4 = cc.stall.toBitVec.setWidth 4 := by
    simp [ControlCodes.encode, field_place, field_place_of_disjoint]
  have hyield : field cc.encode 4 1 = BitVec.ofBool cc.yieldFlag := by
    simp [ControlCodes.encode, field_place, field_place_of_disjoint]
  have hwrite : field cc.encode 5 3 = cc.writeBarrier.toBitVec.setWidth 3 := by
    simp [ControlCodes.encode, field_place, field_place_of_disjoint]
  have hread : field cc.encode 8 3 = cc.readBarrier.toBitVec.setWidth 3 := by
    simp [ControlCodes.encode, field_place, field_place_of_disjoint]
  have hwait : field cc.encode 11 6 = cc.waitMask.toBitVec.setWidth 6 := by
    simp [ControlCodes.encode, field_place, field_place_of_disjoint]
  have hreuse : field cc.encode 17 4 = cc.reuse.toBitVec.setWidth 4 := by
    simp [ControlCodes.encode, field_place, field_place_of_disjoint]
  rw [decodeControl, hstall, hyield, hwrite, hread, hwait, hreuse,
    byte_of_field (lt_iff_toNat_lt.mp h.stall),
    byte_of_field (lt_iff_toNat_lt.mp h.writeBarrier),
    byte_of_field (lt_iff_toNat_lt.mp h.readBarrier),
    byte_of_field (lt_iff_toNat_lt.mp h.waitMask),
    byte_of_field (lt_iff_toNat_lt.mp h.reuse), ofBool_ne_zero]
  rfl

/-! ## The round trip -/

/-- A guard survives unless it is `!PT`. -/
theorem guard_iff (h : ∀ p, pred = some p → p.InRange) {lo : BitVec 64}
    (hg : field lo 16 3 = (guardBits pred).1)
    (hn : field lo 19 1 = BitVec.ofBool (guardBits pred).2) :
    (∀ preds, decodedGuardHolds preds (decodePredicate lo) = guardHolds preds pred) ↔
      pred ≠ some ⟨.PT, true⟩ := by
  rw [decodePredicate, hg, hn, ofBool_ne_zero]
  match pred with
  | none => simp [guardBits, decodedGuardHolds, guardHolds]
  | some ⟨reg, negated⟩ =>
    rcases h _ rfl with hr | ⟨n, hlt, hr⟩
    · cases hr
      simp [guardBits, decodedGuardHolds, guardHolds]
    · cases hr
      have hn7 : n.toNat < 7 := lt_iff_toNat_lt.mp hlt
      have hval : (n.toBitVec.setWidth 3).toNat = n.toNat := by
        rw [BitVec.toNat_setWidth, toNat_toBitVec, Nat.mod_eq_of_lt (by omega)]
      simp [guardBits, decodedGuardHolds, guardHolds, hval, hn7, SassRegister.new]

theorem decodeOptional_of_lt {reg : BitVec 8} (h : reg.toNat < 255) :
    decodeOptional reg = [.register (.new "R" reg.toNat)] := by
  rw [decodeOptional, if_pos h]

theorem srcBits_lt (h : ∀ n ∈ sources, n < 255) (k : Nat) : (srcBits sources k).toNat < 255 := by
  unfold srcBits
  cases hk : sources[k]? with
  | none => decide
  | some n => exact lt_iff_toNat_lt.mp (h n (mem_of_getElem? hk))

/-- Three sources are decoded, whatever was encoded. -/
theorem sources_iff :
    [SassOperand.register (.new "R" (srcBits sources 0).toNat),
        .register (.new "R" (srcBits sources 1).toNat),
        .register (.new "R" (srcBits sources 2).toNat)] =
      sources.map (fun n => .register (.new "R" n.toNat)) ↔ sources.length = 3 := by
  constructor
  · intro h
    simpa using (congrArg List.length h).symm
  · intro h
    match sources, h with
    | [a, b, c], _ => rfl

/-- **Assembler and disassembler.** Register ALU code comes back if and only if it has
three sources and its guard is not `!PT`. -/
theorem roundTrips_iff {inst : SassInst} {dst : UInt8} {sources : List UInt8}
    (h : RegisterAlu inst dst sources) :
    RoundTrips inst dst sources ↔ sources.length = 3 ∧ inst.pred ≠ some ⟨.PT, true⟩ := by
  obtain ⟨op, hname, henc⟩ := h.encode_eq
  have hdst : (dst.toBitVec).toNat < 255 := lt_iff_toNat_lt.mp h.dst_lt
  set lo := aluWord op (guardBits inst.pred).1 (guardBits inst.pred).2 dst.toBitVec
    (srcBits sources 0) (srcBits sources 1) (srcBits sources 2) with hlo
  have hsrcs : (decode128bit .sm120 (wordBytes lo inst.control.encode) 0).srcOperands =
      [.register (.new "R" (srcBits sources 0).toNat),
        .register (.new "R" (srcBits sources 1).toNat),
        .register (.new "R" (srcBits sources 2).toNat)] := by
    rw [decode128bit_wordBytes, hlo]
    simp only [aluWord_src1, aluWord_src2, aluWord_src3,
      decodeOptional_of_lt (srcBits_lt h.srcs_lt _), cons_append, nil_append]
  have hguard : (∀ preds, decodedGuardHolds preds (decodePredicate lo) =
      guardHolds preds inst.pred) ↔ inst.pred ≠ some ⟨.PT, true⟩ :=
    guard_iff h.pred aluWord_guard aluWord_negated
  constructor
  · rintro ⟨version, bytes, decoded, hv, hb, hdis, -, hpred, -, hsrc, -⟩
    cases hv
    rw [henc] at hb
    cases hb
    rw [disassemble_wordBytes] at hdis
    cases hdis
    rw [hsrcs] at hsrc
    rw [decode128bit_wordBytes] at hpred
    exact ⟨sources_iff.mp hsrc, hguard.mp hpred⟩
  · rintro ⟨hlen, hpt⟩
    refine ⟨.sm120, _, _, rfl, henc, disassemble_wordBytes lo _, ?_, ?_, ?_, ?_, ?_⟩
    · rw [decode128bit_wordBytes, hlo]
      simp only [aluWord_op]
      exact hname
    · rw [decode128bit_wordBytes]
      exact hguard.mpr hpt
    · rw [decode128bit_wordBytes, hlo]
      dsimp only
      rw [decodeDest, aluWord_dst, if_pos hdst, toNat_toBitVec]
    · rw [hsrcs]
      exact sources_iff.mpr hlen
    · rw [decode128bit_wordBytes]
      exact decodeControl_encode h.control

/-- `@P2 FFMA R0, R1, R2, R3` comes back. -/
theorem roundTrips_fma : RoundTrips ⟨⟨"FFMA", .fma⟩, some (.R 0),
    [.reg (.R 1), .reg (.R 2), .reg (.R 3)], some ⟨.P 2, false⟩, [], .default⟩ 0 [1, 2, 3] := by
  refine (roundTrips_iff ⟨.inr (.inr rfl), by decide +kernel, by decide +kernel, rfl, by decide,
    rfl, by simp, by simp, by decide, fun p hp => ?_, ?_⟩).mpr ⟨rfl, by decide⟩
  · cases hp
    exact .inr ⟨2, by decide, rfl⟩
  · exact ⟨by decide, by decide, by decide, by decide, by decide⟩

/-- `IADD3 R0, R1, R2` comes back with a third source `R0`. -/
theorem roundTrips_two_sources : RegisterAlu ⟨⟨"IADD3", .alu3⟩, some (.R 0),
      [.reg (.R 1), .reg (.R 2)], none, [], .default⟩ 0 [1, 2] ∧
    ¬RoundTrips ⟨⟨"IADD3", .alu3⟩, some (.R 0), [.reg (.R 1), .reg (.R 2)], none, [], .default⟩
      0 [1, 2] := by
  have h : RegisterAlu ⟨⟨"IADD3", .alu3⟩, some (.R 0), [.reg (.R 1), .reg (.R 2)], none, [],
      .default⟩ 0 [1, 2] :=
    ⟨.inr (.inl rfl), by decide +kernel, by decide +kernel, rfl, by decide, rfl, by simp, by simp,
      by decide, fun p hp => absurd hp (by simp),
      ⟨by decide, by decide, by decide, by decide, by decide⟩⟩
  refine ⟨h, ?_⟩
  rintro ⟨version, bytes, decoded, hv, hb, hdis, -, -, -, hsrc, -⟩
  obtain ⟨op, -, henc⟩ := h.encode_eq
  cases hv
  rw [henc] at hb
  cases hb
  rw [disassemble_wordBytes] at hdis
  cases hdis
  rw [decode128bit_wordBytes] at hsrc
  simp only [aluWord_src2, aluWord_src3] at hsrc
  have hlen := congrArg List.length hsrc
  rw [decodeOptional_of_lt (srcBits_lt h.srcs_lt 1), decodeOptional_of_lt (srcBits_lt h.srcs_lt 2)]
    at hlen
  simp at hlen

end Concordia.Sass
