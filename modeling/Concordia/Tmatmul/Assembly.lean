import Concordia.Tmatmul.Codegen

/-!
# Reading the assembly back

The interpreter parses a printed program into the instructions it was printed from, as
long as its memory symbols have no comma or line end in them, no whitespace around
them and no colon behind them.
-/

namespace Concordia.Tmatmul

open Concordia.Lib Concordia.Lib.Text List Instruction

/-! ## Printed lines -/

/-- A symbol the assembly can hold: one operand of one line, not taken for a label. -/
def PlainSymbol (s : Text) : Prop :=
  Trimmed s ∧ '\n' ∉ s ∧ ',' ∉ s ∧ s.getLast? ≠ some ':'

instance (s : Text) : Decidable (PlainSymbol s) := inferInstanceAs (Decidable (_ ∧ _))

theorem plainSymbol_of_digits {s : Text} (h : ∀ c ∈ s, c.isDigit) : PlainSymbol s := by
  refine ⟨Solid.trimmed fun c hc => isWhitespace_of_isDigit (h c hc), fun hc => ?_, fun hc => ?_,
    fun hlast => ?_⟩
  · exact absurd (h _ hc) (by decide)
  · exact absurd (h _ hc) (by decide)
  · exact absurd (h _ (mem_of_getLast? hlast)) (by decide)

theorem PlainSymbol.append {s t : Text} (hs : PlainSymbol s) (ht : PlainSymbol t) :
    PlainSymbol (s ++ t) := by
  obtain ⟨hs, hsline, hscomma, hslast⟩ := hs
  obtain ⟨ht, htline, htcomma, htlast⟩ := ht
  refine ⟨hs.append ht, by simp [hsline, htline], by simp [hscomma, htcomma], ?_⟩
  rw [getLast?_append, Ne, Option.or_eq_some_iff]
  exact not_or.mpr ⟨htlast, fun h => hslast h.2⟩

theorem plainSymbol_regName (r : Nat) : PlainSymbol (regName r) :=
  .append (s := ['v']) (by decide +kernel)
    (plainSymbol_of_digits fun _ hc => isDigit_of_mem_decimal hc)

theorem plainSymbol_spillName (k : Nat) : PlainSymbol (spillName k) :=
  .append (by decide +kernel) (plainSymbol_of_digits fun _ hc => isDigit_of_mem_decimal hc)

/-- An opcode the line parser finds again. -/
def PlainOpcode (s : String) : Prop :=
  Solid s.toList ∧ s.toList ≠ [] ∧ s.toList.head? ≠ some ';'

instance (s : String) : Decidable (PlainOpcode s) := inferInstanceAs (Decidable (_ ∧ _))

theorem BinOp.plainOpcode (op : BinOp) : PlainOpcode op.mnemonic := by
  cases op <;> decide +kernel

theorem UnOp.plainOpcode (op : UnOp) : PlainOpcode op.mnemonic := by
  cases op <;> decide +kernel

/-- The operands joined are on one line and do not look like a label. -/
theorem trimmed_intercalate {parts : List Text} (h : ∀ p ∈ parts, PlainSymbol p) :
    Trimmed ([','].intercalate parts) ∧ '\n' ∉ [','].intercalate parts ∧
      ([','].intercalate parts).getLast? ≠ some ':' := by
  induction parts with
  | nil => exact ⟨by decide, by decide, by decide⟩
  | cons p rest ih =>
    obtain ⟨hp, hline, -, hlast⟩ := h p mem_cons_self
    obtain ⟨htrim, hlines, hrest⟩ := ih fun q hq => h q (mem_cons_of_mem p hq)
    cases rest with
    | nil =>
      rw [intercalate_singleton]
      exact ⟨hp, hline, hlast⟩
    | cons q rest =>
      rw [intercalate_cons_cons]
      refine ⟨(hp.append (by decide +kernel)).append htrim, by simp [hline, hlines], ?_⟩
      rw [getLast?_append, Ne, Option.or_eq_some_iff]
      exact not_or.mpr ⟨hrest, by simp⟩

theorem intercalate_ne_nil {first : Text} (rest : List Text) (hfirst : first ≠ []) :
    [','].intercalate (first :: rest) ≠ [] := by
  cases rest with
  | nil =>
    rw [intercalate_singleton]
    exact hfirst
  | cons q rest =>
    rw [intercalate_cons_cons]
    simp

theorem newline_not_mem {s : Text} (h : Solid s) : '\n' ∉ s := by
  intro hc
  exact absurd (h _ hc) (by decide)

section Line

variable {opcode : String} {first : Text} {rest : List Text} (hop : PlainOpcode opcode)
  (hfirst : first ≠ []) (hparts : ∀ p ∈ first :: rest, PlainSymbol p)

include hop hfirst hparts

/-- It is one line, with no carriage return at its end. -/
theorem instructionLine_line : '\n' ∉ instructionLine opcode (first :: rest) ∧
    stripReturn (instructionLine opcode (first :: rest)) =
      instructionLine opcode (first :: rest) := by
  obtain ⟨htrimmed, hline, -⟩ := trimmed_intercalate hparts
  have hargs := intercalate_ne_nil rest hfirst
  unfold instructionLine
  constructor
  · simp only [mem_append, not_or]
    exact ⟨⟨⟨by simp, newline_not_mem hop.1⟩, by simp⟩, hline⟩
  · refine if_neg fun hlast => ?_
    rw [getLast?_append_of_ne_nil _ hargs] at hlast
    exact absurd (htrimmed.2 _ hlast) (by decide)

/-- **A printed instruction line** has its opcode and its operands. -/
theorem lineFields_instructionLine :
    lineFields (instructionLine opcode (first :: rest)) =
      some (opcode.toList, first :: rest) := by
  obtain ⟨hop, hne, hhead⟩ := hop
  obtain ⟨htrimmed, -, hlast⟩ := trimmed_intercalate hparts
  have hargs := intercalate_ne_nil rest hfirst
  have htrim : trim (instructionLine opcode (first :: rest)) =
      opcode.toList ++ "    ".toList ++ [','].intercalate (first :: rest) := by
    unfold instructionLine
    rw [append_assoc, append_assoc, ← append_assoc opcode.toList]
    have hpad : ∀ c ∈ "    ".toList, isWhitespace c = true := by
      simp
      decide
    exact trim_pad hpad hop.trimmed htrimmed hne hargs
  have hsplit : splitOnce (opcode.toList ++ "    ".toList ++ [','].intercalate (first :: rest)) =
      (opcode.toList, some ("   ".toList ++ [','].intercalate (first :: rest))) := by
    rw [append_assoc]
    exact splitOnce_append hop (by decide +kernel)
  have hpad : trim ("   ".toList ++ [','].intercalate (first :: rest)) =
      [','].intercalate (first :: rest) := by
    rw [trim, dropWhile_append_of_pos (by simp; decide)]
    exact htrimmed.trim_eq
  have hmap : (first :: rest).map trim = first :: rest :=
    (map_congr_left fun p hp => (hparts p hp).1.trim_eq).trans (map_id _)
  unfold lineFields
  dsimp only
  rw [htrim, hsplit]
  dsimp only
  rw [Option.getD_some, hpad, if_neg hargs, fields_intercalate (fun p hp => (hparts p hp).2.2.1)
    (cons_ne_nil _ _), hmap, hop.trimmed.trim_eq, if_neg, if_neg]
  · rw [getLast?_append]
    cases hl : ([','].intercalate (first :: rest)).getLast? with
    | none => exact absurd (getLast?_eq_none_iff.mp hl) hargs
    | some c =>
      rw [hl] at hlast
      exact hlast
  · rw [append_assoc, head?_append]
    obtain ⟨c, cs, hc⟩ := exists_cons_of_ne_nil hne
    rw [hc] at hhead ⊢
    simpa using hhead

end Line

/-- A comment line is skipped, whatever its text. -/
theorem lineFields_comment (text : Text) : lineFields ("    ; ".toList ++ text) = none := by
  have hdrop : ("    ; ".toList ++ text).dropWhile isWhitespace = ';' :: ' ' :: text := by
    rw [show "    ; ".toList ++ text = "    ".toList ++ (';' :: ' ' :: text) from rfl,
      dropWhile_append_of_pos (by simp; decide), dropWhile_cons,
      if_neg (by decide)]
  obtain ⟨c, rest, htrim⟩ : ∃ c rest, trim ("    ; ".toList ++ text) = c :: rest := by
    refine exists_cons_of_ne_nil fun hnil => ?_
    rw [trim, hdrop, rdropWhile_eq_nil_iff] at hnil
    exact absurd (hnil ';' mem_cons_self) (by decide)
  have hpre : c :: rest <+: ';' :: ' ' :: text := by
    rw [← htrim, trim, hdrop]
    exact List.rdropWhile_prefix _ _
  have hc : c = ';' := (cons_prefix_cons.mp hpre).1
  unfold lineFields
  dsimp only
  rw [htrim, hc, if_pos (.inr rfl)]

/-! ## Instructions -/

section Parse

variable {V : Type} (f : Arith V)

theorem parseRegister_regName {r : Nat} (h : r < 256) : parseRegister (regName r) = some r := by
  unfold parseRegister
  rw [(plainSymbol_regName r).1.trim_eq]
  exact parseUnsigned_decimal h

theorem parseMemref_spillName (k : Nat) : parseMemref f (spillName k) = .spill (spillName k) := by
  unfold parseMemref
  dsimp only
  rw [(plainSymbol_spillName k).1.trim_eq]
  rfl

/-- The instruction a printed line stands for. -/
def lower : TMatmulInstruction → Option (Instruction V)
  | .loadVector dst src => some (.loadVector dst (parseMemref f src.display))
  | .storeVector src dst => some (.storeVector src (parseMemref f dst.display))
  | .binary op dst src1 src2 => some (.binary op dst src1 src2)
  | .unary op dst src => some (.unary op dst src)
  | .tmatmulImport src => some (.tmatmulImport src)
  | .tmatmulGo weights => some (.tmatmulGo (parseMemref f weights.display))
  | .tmatmulExport dst => some (.tmatmulExport dst)
  | .comment _ => none

/-- Its registers exist and its texts fit on a line. -/
def Printable : TMatmulInstruction → Prop
  | .loadVector r loc => r < 8 ∧ PlainSymbol loc.display
  | .storeVector r loc => r < 8 ∧ PlainSymbol loc.display
  | .binary _ dst src1 src2 => dst < 8 ∧ src1 < 8 ∧ src2 < 8
  | .unary _ dst src => dst < 8 ∧ src < 8
  | .tmatmulImport src => src < 8
  | .tmatmulGo weights => PlainSymbol weights.display ∧ weights.display ≠ []
  | .tmatmulExport dst => dst < 8
  | .comment text => '\n' ∉ text

theorem parseLine_instructionLine {opcode : String} {first : Text} (rest : List Text)
    (hop : PlainOpcode opcode) (hfirst : first ≠ []) (hparts : ∀ p ∈ first :: rest, PlainSymbol p) :
    '\n' ∉ instructionLine opcode (first :: rest) ∧
      parseLine f (stripReturn (instructionLine opcode (first :: rest))) =
        ((parsers f).find? fun p => p.1 = opcode).bind fun p => p.2 (first :: rest) := by
  obtain ⟨hline, hstrip⟩ := instructionLine_line hop hfirst hparts
  refine ⟨hline, ?_⟩
  unfold parseLine
  rw [hstrip, lineFields_instructionLine hop hfirst hparts]
  show parseOperands f opcode.toList (first :: rest) = _
  unfold parseOperands
  simp only [String.toList_inj]

theorem regName_ne_nil (r : Nat) : regName r ≠ [] := cons_ne_nil _ _

/-- A line that starts with a register, whose parser reads only that one as such. -/
theorem parseLine_register {opcode : String} {r : Nat} {rest : List Text} (hr : r < 8)
    (hop : PlainOpcode opcode) (hrest : ∀ p ∈ rest, PlainSymbol p) {i : Nat → Instruction V}
    (hparse : (((parsers f).find? fun p => p.1 = opcode).bind fun p => p.2 (regName r :: rest)) =
      (parseRegister (regName r)).bind fun r => some (i r)) :
    '\n' ∉ instructionLine opcode (regName r :: rest) ∧
      parseLine f (stripReturn (instructionLine opcode (regName r :: rest))) = some (i r) := by
  obtain ⟨hline, hread⟩ := parseLine_instructionLine f rest hop (regName_ne_nil r)
    (forall_mem_cons.mpr ⟨plainSymbol_regName r, hrest⟩)
  refine ⟨hline, hread.trans (hparse.trans ?_)⟩
  rw [parseRegister_regName (by omega), Option.bind_some]

theorem parseLine_comment (text : Text) :
    parseLine f (stripReturn ("    ; ".toList ++ text)) = none := by
  have hskip : ∀ t, parseLine f ("    ; ".toList ++ t) = none := by
    intro t
    unfold parseLine
    rw [lineFields_comment]
    rfl
  unfold stripReturn
  split
  · by_cases hnil : text = []
    · rw [hnil]
      exact hskip []
    · rw [dropLast_append_of_ne_nil hnil]
      exact hskip _
  · exact hskip text

/-- **One line**, read back. -/
theorem parseLine_display {i : TMatmulInstruction} (h : Printable i) :
    '\n' ∉ i.display ∧ parseLine f (stripReturn i.display) = lower f i := by
  have hreg : ∀ {r : Nat}, r < 8 → parseRegister (regName r) = some r :=
    fun hr => parseRegister_regName (by omega)
  have hname := plainSymbol_regName
  cases i with
  | loadVector dst src =>
    exact parseLine_register f h.1 (show PlainOpcode "ldv" by decide +kernel)
      (forall_mem_singleton.mpr h.2) rfl
  | storeVector src dst =>
    exact parseLine_register f h.1 (show PlainOpcode "sv" by decide +kernel)
      (forall_mem_singleton.mpr h.2) rfl
  | binary op dst src1 src2 =>
    obtain ⟨hdst, hsrc1, hsrc2⟩ := h
    obtain ⟨hline, hparse⟩ := parseLine_instructionLine f [regName src1, regName src2]
      op.plainOpcode (regName_ne_nil dst) (by simpa using ⟨hname dst, hname src1, hname src2⟩)
    have hfind : ((parsers f).find? fun p => p.1 = op.mnemonic) =
        some (op.mnemonic, parseBinary op) := by
      cases op <;> rfl
    refine ⟨hline, hparse.trans ?_⟩
    rw [hfind, Option.bind_some]
    unfold parseBinary
    dsimp only
    rw [hreg hdst, hreg hsrc1, hreg hsrc2]
    rfl
  | unary op dst src =>
    obtain ⟨hline, hparse⟩ := parseLine_instructionLine f [regName src] op.plainOpcode
      (regName_ne_nil dst) (by simpa using ⟨hname dst, hname src⟩)
    have hfind : ((parsers f).find? fun p => p.1 = op.mnemonic) =
        some (op.mnemonic, parseUnary op) := by
      cases op <;> rfl
    refine ⟨hline, hparse.trans ?_⟩
    rw [hfind, Option.bind_some]
    unfold parseUnary
    dsimp only
    rw [hreg h.1, hreg h.2]
    rfl
  | tmatmulImport src =>
    exact parseLine_register f h (show PlainOpcode "tmatmul_import" by decide +kernel)
      (forall_mem_nil _) rfl
  | tmatmulGo weights =>
    obtain ⟨hline, hparse⟩ := parseLine_instructionLine f []
      (show PlainOpcode "tmatmul_go" by decide +kernel) h.2 (by simpa using h.1)
    exact ⟨hline, hparse⟩
  | tmatmulExport dst =>
    exact parseLine_register f h (show PlainOpcode "tmatmul_export" by decide +kernel)
      (forall_mem_nil _) rfl
  | comment text =>
    refine ⟨?_, parseLine_comment f text⟩
    show '\n' ∉ "    ; ".toList ++ text
    rw [mem_append, not_or]
    exact ⟨by simp, h⟩

/-! ## Programs -/

theorem lines_writeLines {ls : List Text} (h : ∀ l ∈ ls, '\n' ∉ l) :
    lines (writeLines ls) = ls.map stripReturn := by
  induction ls with
  | nil => rfl
  | cons l ls ih =>
    unfold writeLines at ih ⊢
    rw [flatMap_cons, append_assoc, singleton_append,
      lines_append (h l mem_cons_self), ih fun l' hl' => h l' (mem_cons_of_mem l hl'),
      map_cons]

theorem assemblyHeader_skipped : ∀ l ∈ assemblyHeader,
    '\n' ∉ l.toList ∧ lineFields (stripReturn l.toList) = none := by
  decide +kernel

/-- **The assembly text** parses to the instructions of the program. -/
theorem parseAssembly_toAssembly {program : List TMatmulInstruction}
    (h : ∀ i ∈ program, Printable i) :
    parseAssembly f (toAssembly program) = program.filterMap (lower f) := by
  have hline : ∀ l ∈ assemblyHeader.map String.toList ++ program.map TMatmulInstruction.display,
      '\n' ∉ l := by
    intro l hl
    rcases mem_append.mp hl with hl | hl
    · obtain ⟨s, hs, rfl⟩ := mem_map.mp hl
      exact (assemblyHeader_skipped s hs).1
    · obtain ⟨i, hi, rfl⟩ := mem_map.mp hl
      exact (parseLine_display f (h i hi)).1
  have hheader : (assemblyHeader.map String.toList).filterMap (parseLine f ∘ stripReturn) = [] := by
    rw [filterMap_eq_nil_iff]
    intro l hl
    obtain ⟨s, hs, rfl⟩ := mem_map.mp hl
    show (lineFields (stripReturn s.toList)).bind _ = none
    rw [(assemblyHeader_skipped s hs).2]
    rfl
  unfold parseAssembly toAssembly
  rw [lines_writeLines hline, filterMap_map, filterMap_append, hheader, nil_append,
    filterMap_map]
  exact filterMap_congr fun i hi => (parseLine_display f (h i hi)).2

end Parse

end Concordia.Tmatmul
