import Concordia.Lifter.Lower

/-!
# Basic blocks of a disassembled function

`find_basic_blocks` starts a block after every control-flow instruction, and at the branch
targets that it collects: the `Address` operands of control-flow instructions. The operand
parser makes no such operand, so it collects none (`branchTargets_parse`), and the blocks are
right exactly when every target follows a control-flow instruction (`findBasicBlocks_iff`).
-/

namespace Concordia.Lifter

open Concordia.Lib Concordia.Lib.Text List
open Option hiding guard

/-! ## Reading the disassembler's text -/

def bracketDepth (depth : Nat) (c : Char) : Nat :=
  if c = '[' then depth + 1 else if c = ']' then depth - 1 else depth

/-- Up to the metadata after an instruction; `boundary` says that a token may start here. -/
def beforeMetadata (boundary : Bool) (depth : Nat) : Text → Text
  | [] => []
  | c :: rest =>
    if depth = 0 ∧ (c = ';' ∨ ['/', '*'].isPrefixOf (c :: rest) ∨
        (c = '&' ∨ c = '?') ∧ boundary) then []
    else c :: beforeMetadata (isWhitespace c) (bracketDepth depth c) rest

def stripCuobjdumpTrailingMetadata (line : Text) : Text :=
  (beforeMetadata true 0 line).rdropWhile isWhitespace

/-- The parts between commas outside brackets; `part` is the current one, reversed. -/
def topLevelParts (part : Text) (depth : Nat) : Text → List Text
  | [] => [trim part.reverse]
  | c :: rest =>
    if c = ',' ∧ depth = 0 then trim part.reverse :: topLevelParts [] 0 rest
    else topLevelParts (c :: part) (bracketDepth depth c) rest

def splitTopLevelOperands (operands : Text) : List Text :=
  (topLevelParts [] 0 operands).filter (· ≠ [])

/-- The guard in front of an instruction, and the rest of it. -/
def splitGuard (s : Text) : Option (Option SassOperand × Text) :=
  if s.head? = some '@' then
    (SassOperand.parse (s.takeWhile (· != ' '))).map fun guard =>
      (some guard, trim (s.dropWhile (· != ' ')))
  else some (none, s)

def parseInstructionLine (line : Text) : Option EnhancedSassInstruction := do
  let line := trim line
  if ['/', '*'].isPrefixOf line then
    let (comment, rest) ← breakOn ['*', '/'] line
    -- in `/*/` the end of the comment is before its text
    if comment.length < 2 then none
    let address ← parseHex (2 ^ 64) (trim (comment.drop 2))
    let (guard, instruction) ← splitGuard (trim (stripCuobjdumpTrailingMetadata (trim rest)))
    match words instruction with
    | [] => none
    | opcode :: operands =>
      let parts := (opcode.splitOn '.').map String.ofList
      some (.ofParts address guard (parts.headD "") parts.tail
        (splitTopLevelOperands ([' '].intercalate operands)))
  else none

/-- `parse_cuobjdump_output`, without the source positions and names that it notes. -/
def parseCuobjdumpOutput (output : Text) : List EnhancedSassInstruction :=
  (lines output).filterMap fun line =>
    if Text.contains "## File".toList line then none else parseInstructionLine line

/-! ## Blocks -/

/-- `classify_opcode(..).is_control_flow()`. -/
def EnhancedSassInstruction.isControlFlow (inst : EnhancedSassInstruction) : Bool :=
  ["BRA", "JMP", "JMXU", "BRX", "JMX", "CAL", "JCAL", "RET", "EXIT"].any
    (eqIgnoreAsciiCase inst.opcode)

def branchTargets (insts : List EnhancedSassInstruction) : List Nat :=
  (insts.filter (·.isControlFlow)).flatMap fun inst => inst.srcOperands.filterMap fun operand =>
    match operand with
    | .address addr => some addr
    | _ => none

/-- The block of each instruction, from `current_block` and `new_block_next` on. -/
def assignBlocks (targets : List Nat) (current : UInt32) (startNew : Bool) :
    List EnhancedSassInstruction → List UInt32
  | [] => []
  | inst :: insts =>
    let block := if startNew || targets.contains inst.address then current + 1 else current
    block :: assignBlocks targets block inst.isControlFlow insts

/-- The `basic_block_id`s that `find_basic_blocks` sets. -/
def findBasicBlocks (insts : List EnhancedSassInstruction) : List UInt32 :=
  assignBlocks (branchTargets insts) 0 true insts

/-! ## No target is found -/

theorem parsePlain_ne_address (s : Text) (addr : Nat) : parsePlain s ≠ .address addr := by
  unfold parsePlain
  repeat' split
  all_goals nofun

theorem parseConstantBank_ne_address (s : Text) (addr : Nat) :
    parseConstantBank s ≠ some (some (.address addr)) := by
  unfold parseConstantBank
  split
  · intro h
    obtain ⟨bank, -, h⟩ := bind_eq_some_iff.mp (some.inj h)
    obtain ⟨offset, -, h⟩ := bind_eq_some_iff.mp h
    cases h
  · nofun

theorem parse_ne_address (s : Text) (addr : Nat) : SassOperand.parse s ≠ some (.address addr) := by
  intro h
  unfold SassOperand.parse at h
  dsimp only at h
  split at h
  · cases h
  · obtain ⟨reg, -, h⟩ := map_eq_some_iff.mp h
    cases h
  · split at h
    · rename_i hbank
      split at hbank
      · exact parseConstantBank_ne_address _ addr (hbank.trans (congrArg some h))
      · cases hbank
    · split at h
      · cases h
      · exact parsePlain_ne_address _ addr (some.inj h)

theorem exists_ofParts {line : Text} {inst : EnhancedSassInstruction}
    (h : parseInstructionLine line = some inst) : ∃ address guard opcode modifiers operands,
      inst = .ofParts address guard opcode modifiers operands := by
  unfold parseInstructionLine at h
  simp only [bind_eq_bind] at h
  split at h
  · obtain ⟨comment, -, h⟩ := bind_eq_some_iff.mp h
    split at h
    · cases h
    · obtain ⟨address, -, h⟩ := bind_eq_some_iff.mp h
      obtain ⟨guard, -, h⟩ := bind_eq_some_iff.mp h
      split at h
      · cases h
      · exact ⟨_, _, _, _, _, (some.inj h).symm⟩
  · cases h

/-- **No branch target is found** in a function that was read from text. -/
theorem branchTargets_parse (output : Text) : branchTargets (parseCuobjdumpOutput output) = [] := by
  refine flatMap_eq_nil_iff.mpr fun inst hinst => filterMap_eq_nil_iff.mpr fun operand hmem => ?_
  obtain ⟨line, -, hline⟩ := mem_filterMap.mp (mem_of_mem_filter hinst)
  split at hline
  · cases hline
  · obtain ⟨address, guard, opcode, modifiers, operands, rfl⟩ := exists_ofParts hline
    obtain ⟨text, -, hparse⟩ := mem_filterMap.mp hmem
    split
    · exact absurd hparse (parse_ne_address text _)
    · rfl

/-! ## The numbering -/

section

variable (targets : List Nat) {insts : List EnhancedSassInstruction} (current : UInt32)
  (startNew : Bool)

theorem length_assignBlocks :
    (assignBlocks targets current startNew insts).length = insts.length := by
  induction insts generalizing current startNew with
  | nil => rfl
  | cons inst insts ih => simp [assignBlocks, ih]

theorem toNat_add_one_le (n : UInt32) : (n + 1).toNat ≤ n.toNat + 1 := by
  rw [UInt32.toNat_add]
  exact Nat.mod_le _ _

/-- The next instruction is in the next block, if it starts one. There are no more blocks
than instructions. -/
theorem getElem?_assignBlocks {i : Nat} {a b : EnhancedSassInstruction}
    (ha : insts[i]? = some a) (hb : insts[i + 1]? = some b) :
    ∃ m, (assignBlocks targets current startNew insts)[i]? = some m ∧
      m.toNat ≤ current.toNat + i + 1 ∧
      (assignBlocks targets current startNew insts)[i + 1]? =
        some (if a.isControlFlow || targets.contains b.address then m + 1 else m) := by
  induction insts generalizing current startNew i with
  | nil => cases ha
  | cons inst insts ih =>
    cases i with
    | zero =>
      obtain rfl := some.inj ha
      cases insts with
      | nil => cases hb
      | cons next insts =>
        obtain rfl := some.inj hb
        refine ⟨_, rfl, ?_, rfl⟩
        split
        · exact toNat_add_one_le current
        · exact Nat.le_succ _
    | succ i =>
      obtain ⟨m, hm, hle, hnext⟩ := ih _ _ ha hb
      refine ⟨m, hm, ?_, hnext⟩
      have hblock := toNat_add_one_le current
      split at hle <;> omega

end

/-- Consecutive instructions are in one block exactly when the first is no control flow and
the second no target; the blocks count from one. -/
def Respects (insts : List EnhancedSassInstruction) (ids : List UInt32)
    (targets : Nat → Prop) : Prop :=
  ids.length = insts.length ∧ (∀ id ∈ ids.head?, id = 1) ∧
    ∀ i a b, insts[i]? = some a → insts[i + 1]? = some b →
      ∃ m n, ids[i]? = some m ∧ ids[i + 1]? = some n ∧ (n = m ∨ n.toNat = m.toNat + 1) ∧
        (m = n ↔ ¬a.isControlFlow ∧ ¬targets b.address)

/-- **Blocks and targets.** Whatever addresses the branches, calls and jumps of the function
go to, its blocks respect them exactly when each that is not the first comes after a
control-flow instruction. The `u32` must be able to count the instructions. -/
theorem findBasicBlocks_iff {output : Text} (hroom : (parseCuobjdumpOutput output).length < 2 ^ 32)
    (targets : Nat → Prop) :
    Respects (parseCuobjdumpOutput output) (findBasicBlocks (parseCuobjdumpOutput output)) targets ↔
      ∀ i a b, (parseCuobjdumpOutput output)[i]? = some a →
        (parseCuobjdumpOutput output)[i + 1]? = some b → targets b.address → a.isControlFlow := by
  unfold findBasicBlocks
  rw [branchTargets_parse]
  generalize parseCuobjdumpOutput output = insts at hroom
  have hhead : ∀ id ∈ (assignBlocks [] 0 true insts).head?, id = 1 := by
    cases insts with
    | nil => nofun
    | cons inst insts =>
      intro id hid
      exact (some.inj hid).symm
  constructor
  · rintro ⟨-, -, h⟩ i a b ha hb htarget
    obtain ⟨m, n, hm, hn, -, hiff⟩ := h i a b ha hb
    obtain ⟨m', hm', -, hn'⟩ := getElem?_assignBlocks [] 0 true ha hb
    by_contra hcontrol
    have hsame : m = n := by
      rw [some.inj (hm.symm.trans hm'), some.inj (hn.symm.trans hn')]
      simp [hcontrol]
    exact (hiff.mp hsame).2 htarget
  · intro h
    refine ⟨length_assignBlocks [] 0 true, hhead, fun i a b ha hb => ?_⟩
    have htarget := h i a b ha hb
    obtain ⟨m, hm, hle, hn⟩ := getElem?_assignBlocks [] 0 true ha hb
    obtain ⟨hlt, -⟩ := List.getElem?_eq_some_iff.mp hb
    have hnext : (m + 1).toNat = m.toNat + 1 := by
      rw [UInt32.toNat_add]
      exact Nat.mod_eq_of_lt (by
        simp only [UInt32.toNat_zero, UInt32.toNat_one] at hle ⊢
        omega)
    refine ⟨m, _, hm, hn, ?_, ?_⟩
    · split <;> simp [hnext]
    · have hne : m ≠ m + 1 := fun heq => by
        rw [← heq] at hnext
        omega
      cases hcontrol : a.isControlFlow <;> simp_all

/-- An exit, and then a loop of two instructions. -/
def loopAndExit : Text :=
  "/*0000*/ MOV R0, R1 ;\n/*0010*/ EXIT ;\n/*0020*/ MOV R1, R2 ;\n/*0030*/ BRA 0x20 ;".toList

theorem findBasicBlocks_loopAndExit :
    Respects (parseCuobjdumpOutput loopAndExit)
      (findBasicBlocks (parseCuobjdumpOutput loopAndExit)) (· = 32) := by
  refine (findBasicBlocks_iff (by decide +kernel) _).mpr fun i a b ha hb htarget => ?_
  have hall : ∀ i < 3, ∀ a ∈ (parseCuobjdumpOutput loopAndExit)[i]?,
      ∀ b ∈ (parseCuobjdumpOutput loopAndExit)[i + 1]?, b.address = 32 → a.isControlFlow := by
    decide +kernel
  have hlength : (parseCuobjdumpOutput loopAndExit).length = 4 := by decide +kernel
  obtain ⟨hlt, -⟩ := List.getElem?_eq_some_iff.mp hb
  exact hall i (by omega) a ha b hb htarget

/-- A loop of one instruction after another one. -/
def selfLoop : Text := "/*0000*/ MOV R0, R1 ;\n/*0010*/ BRA 0x10 ;".toList

/-- The branch is its own target, and in the block of the move before it. -/
theorem not_respects_selfLoop :
    ¬Respects (parseCuobjdumpOutput selfLoop) (findBasicBlocks (parseCuobjdumpOutput selfLoop))
      fun addr => ∃ inst ∈ parseCuobjdumpOutput selfLoop,
        inst.isControlFlow ∧ inst.branchTarget = some addr := by
  rintro ⟨-, -, h⟩
  obtain ⟨move, branch, hparse, hmove, htarget, hids⟩ : ∃ move branch,
      parseCuobjdumpOutput selfLoop = [move, branch] ∧ move.isControlFlow = false ∧
      (branch.isControlFlow ∧ branch.branchTarget = some branch.address) ∧
      findBasicBlocks [move, branch] = [1, 1] :=
    ⟨.ofParts 0 none "MOV" [] ["R0".toList, "R1".toList],
      .ofParts 16 none "BRA" [] ["0x10".toList], by decide +kernel, by decide +kernel,
      by decide +kernel, by decide +kernel⟩
  rw [hparse] at h
  obtain ⟨m, n, hm, hn, -, hiff⟩ := h 0 move branch rfl rfl
  rw [hids] at hm hn
  have hsame : m = n := some.inj (hm.symm.trans hn)
  exact (hiff.mp hsame).2 ⟨branch, by simp, htarget⟩

end Concordia.Lifter
