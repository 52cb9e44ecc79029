import Concordia.Lib.FnMap
import Concordia.Lib.Text

/-!
# The SASS to PTX tables

`SassPtxMapper` keeps two tables: from a SASS address to its PTX location, and from a file
and line to the addresses. Listings, single mappings and disassembled instructions are
entered into both. The first table overwrites and the second appends, so they are inverse
exactly when no address is entered twice (`inverse_iff`).
-/

namespace Concordia.Debug

open Concordia.Lib List Text Function

/-! ## The tables -/

structure PtxSourceLocation where
  file : Text
  line : UInt32
  column : UInt32
  instructionOffset : UInt64

structure SassInstruction where
  opcode : Text
  instruction : Text
  address : UInt64
  predicate : Option Text
  destOperands : List Text
  srcOperands : List Text
  controlCodes : List Text
  stallCount : Option UInt8
  waitBarrier : Option UInt8
  readBarrier : Option UInt8
  writeBarrier : Option UInt8

structure SassLineMapping where
  sassAddress : UInt64
  sassOffset : Text
  sassInstruction : SassInstruction
  ptxFile : Text
  ptxLine : UInt32
  ptxColumn : UInt32
  functionName : Option Text

open SassLineMapping

structure SassPtxMapper where
  sassToPtx : UInt64 → Option PtxSourceLocation
  ptxToSass : Text → Option (List UInt64)
  lineMappings : List SassLineMapping
  functionRanges : Text → Option (UInt64 × UInt64)

/-- `format!("{}:{}", file, line)`. -/
def mappingKey (file : Text) (line : UInt32) : Text := file ++ ':' :: decimal line.toNat

/-- `format!("0x{:04x}", address)`. -/
def sassOffset (address : UInt64) : Text :=
  let digits := Nat.toDigits 16 address.toNat
  "0x".toList ++ List.replicate (4 - digits.length) '0' ++ digits

def SassLineMapping.location (mapping : SassLineMapping) : PtxSourceLocation :=
  ⟨mapping.ptxFile, mapping.ptxLine, mapping.ptxColumn, mapping.sassAddress⟩

def SassLineMapping.key (mapping : SassLineMapping) : Text :=
  mappingKey mapping.ptxFile mapping.ptxLine

namespace SassPtxMapper

def new : SassPtxMapper := ⟨fun _ => none, fun _ => none, [], fun _ => none⟩

/-- What every loader does with a mapping. -/
def enter (m : SassPtxMapper) (mapping : SassLineMapping) : SassPtxMapper :=
  { m with
    sassToPtx := update m.sassToPtx mapping.sassAddress (some mapping.location)
    ptxToSass := pushAt m.ptxToSass mapping.key mapping.sassAddress
    lineMappings := m.lineMappings ++ [mapping] }

def sassToPtxLocation (m : SassPtxMapper) (sassAddress : UInt64) : Option PtxSourceLocation :=
  m.sassToPtx sassAddress

def ptxToSassAddresses (m : SassPtxMapper) (file : Text) (line : UInt32) : Option (List UInt64) :=
  m.ptxToSass (mappingKey file line)

end SassPtxMapper

/-! ## Listings -/

/-- `parse_operands`: the first one is the destination. -/
def parseOperands (operands : Text) : List Text × List Text :=
  let parts := (fields operands).map trim
  (parts.take 1, parts.drop 1)

/-- The predicate in front of an instruction. -/
def splitPredicate (rest : Text) : Option Text × Text :=
  if rest.head? = some '@' then
    (some (rest.takeWhile (· != ' ')), trim (rest.dropWhile (· != ' ')))
  else (none, rest)

/-- `parse_sass_instruction_line`. -/
def parseSassInstructionLine (line : Text) : Option SassInstruction := do
  let (before, after) ← breakOn "*/".toList line
  -- The address is the slice from the third character on, which must not be reversed.
  let addrStr ← if 2 ≤ before.length then some (trim (before.drop 2)) else none
  let address ← parseHex (2 ^ 64) addrStr
  let rest := trim ((trim after).rdropWhile (· == ';'))
  let (predicate, instructionPart) := splitPredicate rest
  match words instructionPart with
  | [] => none
  | opcodeFull :: operands =>
    let opcodeParts := opcodeFull.splitOn '.'
    let (destOperands, srcOperands) := parseOperands ([' '].intercalate operands)
    some
      { opcode := opcodeParts.headD []
        instruction := line
        address := .ofNat address
        predicate := predicate
        destOperands := destOperands
        srcOperands := srcOperands
        controlCodes := opcodeParts.tail.map ('.' :: ·)
        stallCount := none
        waitBarrier := none
        readBarrier := none
        writeBarrier := none }

/-- The state of the loop over the lines of a listing. -/
structure Listing where
  currentFile : Text
  currentFunction : Text
  pendingLine : Option UInt32
  mapper : SassPtxMapper

def isFunctionHeader (line : Text) : Bool :=
  "Function :".toList.isPrefixOf line || "function :".toList.isPrefixOf line

def isFileReference (line : Text) : Bool := contains "## File".toList line

def isLineMarker (line : Text) : Bool := "## Line ".toList.isPrefixOf line

/-- A line number, if it is one. -/
def Listing.setPending (l : Listing) (number : Text) : Listing :=
  match parseUnsigned (2 ^ 32) number with
  | some n => { l with pendingLine := some (.ofNat n) }
  | none => l

/-- The file in quotes. -/
def Listing.setFile (l : Listing) (line : Text) : Listing :=
  match (line.splitOn '\x22')[1]? with
  | some file => { l with currentFile := file }
  | none => l

def Listing.mapping (l : Listing) (inst : SassInstruction) : SassLineMapping where
  sassAddress := inst.address
  sassOffset := sassOffset inst.address
  sassInstruction := inst
  ptxFile := l.currentFile
  ptxLine := l.pendingLine.getD 0
  ptxColumn := 0
  functionName := if l.currentFunction = [] then none else some l.currentFunction

/-- One round of the loop, on a trimmed line. -/
def Listing.visit (l : Listing) (line : Text) : Listing :=
  if isFunctionHeader line then
    match (line.splitOn ':')[1]? with
    | some name => { l with currentFunction := trim name }
    | none => l
  else if isFileReference line then
    match secondPart "line ".toList line with
    | some part => (l.setFile line).setPending (part.rdropWhile fun c => !c.isDigit)
    | none => l.setFile line
  else if isLineMarker line then l.setPending (trim (line.drop 8))
  else if "/*".toList.isPrefixOf line then
    match parseSassInstructionLine line with
    | some inst => { l with mapper := l.mapper.enter (l.mapping inst) }
    | none => l
  else l

/-- `parse_cuobjdump_output`. -/
def SassPtxMapper.parseCuobjdumpOutput (m : SassPtxMapper) (output : Text) : SassPtxMapper :=
  let lines := (lines output).map trim
  (lines.foldl Listing.visit ⟨"kernel.ptx".toList, [], none, m⟩).mapper

/-! ## The other loaders -/

/-- `add_mapping`. -/
def SassPtxMapper.addMapping (m : SassPtxMapper) (sassAddr : UInt64) (ptxFile : Text)
    (ptxLine : UInt32) (instruction : Text) : SassPtxMapper :=
  m.enter
    { sassAddress := sassAddr
      sassOffset := sassOffset sassAddr
      sassInstruction :=
        { opcode := (words instruction).headD []
          instruction := instruction
          address := sassAddr
          predicate := none
          destOperands := []
          srcOperands := []
          controlCodes := []
          stallCount := none
          waitBarrier := none
          readBarrier := none
          writeBarrier := none }
      ptxFile := ptxFile
      ptxLine := ptxLine
      ptxColumn := 0
      functionName := none }

/-- An `EnhancedSassInstruction`, as far as it is read here; operands are given as they are
printed. -/
structure EnhancedSassInstruction where
  opcode : Text
  instructionText : Text
  address : UInt64
  size : UInt8
  predicate : Option Text
  destOperands : List Text
  srcOperands : List Text
  modifiers : List Text
  stallCount : UInt8
  waitBarrierMask : UInt8
  readBarrier : UInt8
  writeBarrier : UInt8
  ptxFile : Option Text
  ptxLine : Option UInt32
  ptxColumn : Option UInt32

/-- The mapping of an instruction that has a file and a line. -/
def EnhancedSassInstruction.mapping (kernelName : Text) (inst : EnhancedSassInstruction) :
    Option SassLineMapping := do
  let file ← inst.ptxFile
  let line ← inst.ptxLine
  some
    { sassAddress := inst.address
      sassOffset := sassOffset inst.address
      sassInstruction :=
        { opcode := inst.opcode
          instruction := inst.instructionText
          address := inst.address
          predicate := inst.predicate
          destOperands := inst.destOperands
          srcOperands := inst.srcOperands
          controlCodes := inst.modifiers
          stallCount := some inst.stallCount
          waitBarrier := some inst.waitBarrierMask
          readBarrier := some inst.readBarrier
          writeBarrier := some inst.writeBarrier }
      ptxFile := file
      ptxLine := line
      ptxColumn := inst.ptxColumn.getD 0
      functionName := some kernelName }

/-- The range of a function is from its first instruction to the end of its last one. -/
def SassPtxMapper.setRange (m : SassPtxMapper) (kernelName : Text)
    (instructions : List EnhancedSassInstruction) : SassPtxMapper :=
  match instructions.head?, instructions.getLast? with
  | some first, some last =>
    let range := (first.address, last.address + last.size.toUInt64)
    { m with functionRanges := update m.functionRanges kernelName (some range) }
  | _, _ => m

/-- `load_from_enhanced_instructions`. -/
def SassPtxMapper.loadFromEnhancedInstructions (m : SassPtxMapper) (kernelName : Text)
    (instructions : List EnhancedSassInstruction) : SassPtxMapper :=
  let mappings := instructions.filterMap (EnhancedSassInstruction.mapping kernelName)
  (mappings.foldl enter m).setRange kernelName instructions

/-! ## Runs -/

inductive Call where
  | parseCuobjdumpOutput (output : Text)
  | addMapping (sassAddr : UInt64) (ptxFile : Text) (ptxLine : UInt32) (instruction : Text)
  | loadFromEnhancedInstructions (kernelName : Text) (instructions : List EnhancedSassInstruction)

def SassPtxMapper.apply (m : SassPtxMapper) : Call → SassPtxMapper
  | .parseCuobjdumpOutput output => m.parseCuobjdumpOutput output
  | .addMapping sassAddr ptxFile ptxLine instruction =>
    m.addMapping sassAddr ptxFile ptxLine instruction
  | .loadFromEnhancedInstructions kernelName instructions =>
    m.loadFromEnhancedInstructions kernelName instructions

/-- The mapper after some calls. -/
def run (calls : List Call) : SassPtxMapper := calls.foldl SassPtxMapper.apply .new

def lineAddress (line : Text) : Option UInt64 :=
  if isFunctionHeader line || isFileReference line || isLineMarker line ||
    !"/*".toList.isPrefixOf line then none
  else (parseSassInstructionLine line).map SassInstruction.address

/-- The addresses that a call brings: those of the instruction lines, and those of the
instructions with a file and a line. -/
def Call.addresses : Call → List UInt64
  | .parseCuobjdumpOutput output => ((lines output).map trim).filterMap lineAddress
  | .addMapping sassAddr _ _ _ => [sassAddr]
  | .loadFromEnhancedInstructions _ instructions =>
    (instructions.filter fun inst => inst.ptxFile.isSome && inst.ptxLine.isSome).map
      EnhancedSassInstruction.address

/-- **The tables are inverse**: a line has an address, once, when the location of the
address is that line. -/
def Inverse (m : SassPtxMapper) : Prop :=
  ∀ (a : UInt64) (f : Text) (n : UInt32),
    (a ∈ (m.ptxToSassAddresses f n).getD [] ↔
      ∃ location, m.sassToPtxLocation a = some location ∧ location.file = f ∧ location.line = n) ∧
    ((m.ptxToSassAddresses f n).getD []).count a ≤ 1

/-! ## What a call enters -/

/-- The two tables, after some mappings have been entered. -/
structure Entered (m m' : SassPtxMapper) (mappings : List SassLineMapping) : Prop where
  sassToPtx : m'.sassToPtx = mappings.foldl
    (fun (f : UInt64 → Option PtxSourceLocation) x =>
      update f x.sassAddress (some x.location)) m.sassToPtx
  ptxToSass : m'.ptxToSass = mappings.foldl
    (fun (f : Text → Option (List UInt64)) x => pushAt f x.key x.sassAddress) m.ptxToSass

namespace Entered

variable {m m' m'' : SassPtxMapper} {xs ys : List SassLineMapping}

theorem nil (m : SassPtxMapper) : Entered m m [] := ⟨rfl, rfl⟩

theorem enter (m : SassPtxMapper) (x : SassLineMapping) : Entered m (m.enter x) [x] := ⟨rfl, rfl⟩

theorem append (h : Entered m m' xs) (h' : Entered m' m'' ys) : Entered m m'' (xs ++ ys) := by
  refine ⟨?_, ?_⟩
  · rw [foldl_append, ← h.sassToPtx, h'.sassToPtx]
  · rw [foldl_append, ← h.ptxToSass, h'.ptxToSass]

theorem foldl_enter (m : SassPtxMapper) (xs : List SassLineMapping) :
    Entered m (xs.foldl SassPtxMapper.enter m) xs := by
  induction xs generalizing m with
  | nil => exact nil m
  | cons x xs ih => exact (enter m x).append (ih (m.enter x))

end Entered

/-- A line enters the mapping of its instruction, if it has one. -/
theorem entered_visit (l : Listing) (line : Text) :
    ∃ mappings, Entered l.mapper (l.visit line).mapper mappings ∧
      mappings.map sassAddress = (lineAddress line).toList := by
  have hpending : ∀ (l : Listing) number, (l.setPending number).mapper = l.mapper := by
    intro l number
    unfold Listing.setPending
    split <;> rfl
  have hsetFile : (l.setFile line).mapper = l.mapper := by
    unfold Listing.setFile
    split <;> rfl
  have hquiet : ∀ l' : Listing, l'.mapper = l.mapper → lineAddress line = none →
      ∃ mappings, Entered l.mapper l'.mapper mappings ∧
        mappings.map sassAddress = (lineAddress line).toList := by
    intro l' hmapper hnone
    rw [hmapper, hnone]
    exact ⟨[], .nil _, rfl⟩
  unfold Listing.visit
  by_cases hheader : isFunctionHeader line = true
  · rw [if_pos hheader]
    refine hquiet _ ?_ (by simp [lineAddress, hheader])
    split <;> rfl
  rw [if_neg hheader]
  by_cases hfile : isFileReference line = true
  · rw [if_pos hfile]
    refine hquiet _ ?_ (by simp [lineAddress, hfile])
    split
    · rw [hpending, hsetFile]
    · exact hsetFile
  rw [if_neg hfile]
  by_cases hmarker : isLineMarker line = true
  · rw [if_pos hmarker]
    exact hquiet _ (hpending l _) (by simp [lineAddress, hmarker])
  rw [if_neg hmarker]
  by_cases hcomment : "/*".toList.isPrefixOf line = true
  · -- The line of an instruction.
    have haddress : lineAddress line =
        (parseSassInstructionLine line).map SassInstruction.address := by
      simp only [lineAddress, hheader, hfile, hmarker, hcomment]
      rfl
    rw [if_pos hcomment, haddress]
    cases parseSassInstructionLine line with
    | none => exact ⟨[], .nil _, rfl⟩
    | some inst => exact ⟨[l.mapping inst], .enter _ _, rfl⟩
  · rw [if_neg hcomment]
    exact hquiet l rfl (by simp only [lineAddress, hcomment]; simp)

theorem entered_lines (lines : List Text) (l : Listing) :
    ∃ mappings, Entered l.mapper (lines.foldl Listing.visit l).mapper mappings ∧
      mappings.map sassAddress = lines.filterMap lineAddress := by
  induction lines generalizing l with
  | nil => exact ⟨[], .nil _, rfl⟩
  | cons line lines ih =>
    obtain ⟨xs, hxs, hline⟩ := entered_visit l line
    obtain ⟨ys, hys, hlines⟩ := ih (l.visit line)
    refine ⟨xs ++ ys, hxs.append hys, ?_⟩
    rw [map_append, hline, hlines]
    cases h : lineAddress line <;> simp [h]

theorem map_address_mapping (kernelName : Text) (instructions : List EnhancedSassInstruction) :
    (instructions.filterMap (EnhancedSassInstruction.mapping kernelName)).map
        sassAddress =
      (instructions.filter fun inst => inst.ptxFile.isSome && inst.ptxLine.isSome).map
        EnhancedSassInstruction.address := by
  induction instructions with
  | nil => rfl
  | cons inst instructions ih =>
    cases hfile : inst.ptxFile with
    | none =>
      have hmapping : inst.mapping kernelName = none := by
        simp [EnhancedSassInstruction.mapping, hfile]
      rw [filterMap_cons_none hmapping, ih, filter_cons_of_neg (by simp [hfile])]
    | some file =>
      cases hline : inst.ptxLine with
      | none =>
        have hmapping : inst.mapping kernelName = none := by
          simp [EnhancedSassInstruction.mapping, hfile, hline]
        rw [filterMap_cons_none hmapping, ih, filter_cons_of_neg (by simp [hline])]
      | some line =>
        obtain ⟨mapping, hmapping, haddress⟩ : ∃ mapping,
            inst.mapping kernelName = some mapping ∧ mapping.sassAddress = inst.address := by
          simp [EnhancedSassInstruction.mapping, hfile, hline]
        rw [filterMap_cons_some hmapping, map_cons, ih, haddress,
          filter_cons_of_pos (by simp [hfile, hline]), map_cons]

/-- Each call enters mappings for its addresses, in order. -/
theorem entered_apply (m : SassPtxMapper) (call : Call) :
    ∃ mappings, Entered m (m.apply call) mappings ∧
      mappings.map sassAddress = call.addresses := by
  cases call with
  | parseCuobjdumpOutput output =>
    exact entered_lines _ ⟨"kernel.ptx".toList, [], none, m⟩
  | addMapping sassAddr ptxFile ptxLine instruction => exact ⟨_, .enter m _, rfl⟩
  | loadFromEnhancedInstructions kernelName instructions =>
    refine ⟨_, ?_, map_address_mapping kernelName instructions⟩
    have hentered := Entered.foldl_enter m
      (instructions.filterMap (EnhancedSassInstruction.mapping kernelName))
    have hrange : ∀ m' : SassPtxMapper,
        (m'.setRange kernelName instructions).sassToPtx = m'.sassToPtx ∧
          (m'.setRange kernelName instructions).ptxToSass = m'.ptxToSass := by
      intro m'
      unfold SassPtxMapper.setRange
      split <;> exact ⟨rfl, rfl⟩
    exact ⟨(hrange _).1.trans hentered.sassToPtx, (hrange _).2.trans hentered.ptxToSass⟩

theorem entered_run (calls : List Call) :
    ∃ mappings, Entered .new (run calls) mappings ∧
      mappings.map sassAddress = calls.flatMap Call.addresses := by
  suffices ∀ m, ∃ mappings, Entered m (calls.foldl SassPtxMapper.apply m) mappings ∧
      mappings.map sassAddress = calls.flatMap Call.addresses from this .new
  induction calls with
  | nil => exact fun m => ⟨[], .nil m, rfl⟩
  | cons call calls ih =>
    intro m
    obtain ⟨xs, hxs, hcall⟩ := entered_apply m call
    obtain ⟨ys, hys, hcalls⟩ := ih (m.apply call)
    exact ⟨xs ++ ys, hxs.append hys, by rw [map_append, hcall, hcalls, flatMap_cons]⟩

/-! ## The tables after a run -/

/-- The digits of a line number hold no colon, so a key has one file and one line. -/
theorem mappingKey_inj {f f' : Text} {n n' : UInt32} :
    mappingKey f n = mappingKey f' n' ↔ f = f' ∧ n = n' := by
  have hcolon : ∀ n : UInt32, ':' ∉ decimal n.toNat := fun n => not_mem_decimal rfl
  rw [mappingKey, mappingKey, append_cons_inj (hcolon n) (hcolon n')]
  refine and_congr_right fun _ => ⟨fun h => ?_, fun h => by rw [h]⟩
  exact UInt32.toNat_inj.mp (decimal_inj h)

section

variable {m : SassPtxMapper} {mappings : List SassLineMapping} (h : Entered .new m mappings)

include h

theorem sassToPtxLocation_eq (a : UInt64) :
    m.sassToPtxLocation a =
      (lastWith sassAddress a mappings).map location := by
  rw [SassPtxMapper.sassToPtxLocation, h.sassToPtx, foldl_insert, SassPtxMapper.new, Option.or_none]

theorem ptxToSassAddresses_eq (f : Text) (n : UInt32) :
    (m.ptxToSassAddresses f n).getD [] =
      (mappings.filter fun x => x.ptxFile = f ∧ x.ptxLine = n).map sassAddress := by
  rw [SassPtxMapper.ptxToSassAddresses, h.ptxToSass, foldl_pushAt]
  have hkey : ∀ x : SassLineMapping, x.key = mappingKey f n ↔ x.ptxFile = f ∧ x.ptxLine = n :=
    fun x => mappingKey_inj
  simp only [hkey]
  rfl

theorem inverse_of_nodup (hnodup : (mappings.map sassAddress).Nodup) :
    Inverse m := by
  intro a f n
  rw [ptxToSassAddresses_eq h, sassToPtxLocation_eq h]
  constructor
  · constructor
    · intro hmem
      obtain ⟨x, hx, rfl⟩ := mem_map.mp hmem
      rw [mem_filter, decide_eq_true_iff] at hx
      exact ⟨x.location, by rw [lastWith_of_nodup hnodup hx.1]; rfl, hx.2⟩
    · rintro ⟨location, hlocation, hfile, hline⟩
      obtain ⟨x, hx, rfl⟩ := Option.map_eq_some_iff.mp hlocation
      refine mem_map.mpr ⟨x, mem_filter.mpr ⟨mem_of_lastWith hx, ?_⟩, key_of_lastWith hx⟩
      exact decide_eq_true ⟨hfile, hline⟩
  · refine nodup_iff_count_le_one.mp ?_ a
    exact hnodup.sublist (filter_sublist.map _)

/-- An address that is entered twice is in the second table twice, or at two lines. -/
theorem nodup_of_inverse (hinverse : Inverse m) :
    (mappings.map sassAddress).Nodup := by
  refine nodup_iff_count_le_one.mpr fun a => ?_
  cases hlast : lastWith sassAddress a mappings with
  | none =>
    have hnot : a ∉ mappings.map sassAddress := by
      intro hmem
      obtain ⟨x, hx, hxa⟩ := mem_map.mp hmem
      exact lastWith_eq_none_iff.mp hlast x hx hxa
    rw [count_eq_zero.mpr hnot]
    exact Nat.zero_le 1
  | some last =>
    -- All mappings of the address are at the line where the last one is.
    have hsame : ∀ x ∈ mappings, x.sassAddress = a →
        x.ptxFile = last.ptxFile ∧ x.ptxLine = last.ptxLine := by
      intro x hx hxa
      have hmem : a ∈ (m.ptxToSassAddresses x.ptxFile x.ptxLine).getD [] := by
        rw [ptxToSassAddresses_eq h]
        exact mem_map.mpr ⟨x, mem_filter.mpr ⟨hx, by simp⟩, hxa⟩
      obtain ⟨location, hlocation, hfile, hline⟩ := (hinverse a x.ptxFile x.ptxLine).1.mp hmem
      rw [sassToPtxLocation_eq h, hlast] at hlocation
      cases hlocation
      exact ⟨hfile.symm, hline.symm⟩
    have hcount := (hinverse a last.ptxFile last.ptxLine).2
    rw [ptxToSassAddresses_eq h] at hcount
    refine Nat.le_trans (Nat.le_of_eq ?_) hcount
    rw [List.count, countP_map, countP_map, countP_filter]
    refine countP_congr fun x hx => ?_
    simp only [Function.comp_apply, beq_iff_eq, Bool.and_eq_true, decide_eq_true_iff]
    exact ⟨fun hxa => ⟨hxa, hsame x hx hxa⟩, fun hxa => hxa.1⟩

end

/-- **Inverse tables.** After any calls the tables are inverse exactly when the calls bring
no address twice. -/
theorem inverse_iff (calls : List Call) :
    Inverse (run calls) ↔ (calls.flatMap Call.addresses).Nodup := by
  obtain ⟨mappings, hentered, haddresses⟩ := entered_run calls
  rw [← haddresses]
  exact ⟨nodup_of_inverse hentered, inverse_of_nodup hentered⟩

/-- A listing with two functions, both of which start at address 0. -/
def twoFunctions : Text :=
  "Function : f\n## File \x22k.ptx\x22, line 5\n/*0000*/ MOV R1, R2 ;\n".toList ++
    "Function : g\n## File \x22k.ptx\x22, line 9\n/*0000*/ EXIT ;\n".toList

/-- The first line still has the address, whose location is the second line. -/
theorem second_function_takes_address :
    ¬ Inverse (run [.parseCuobjdumpOutput twoFunctions]) := by
  intro h
  have hmem : 0 ∈ ((run [.parseCuobjdumpOutput twoFunctions]).ptxToSassAddresses
      "k.ptx".toList 5).getD [] := by
    decide +kernel
  have hline : ((run [.parseCuobjdumpOutput twoFunctions]).sassToPtxLocation 0).map
      PtxSourceLocation.line = some 9 := by
    decide +kernel
  obtain ⟨location, hlocation, -, hfive⟩ := (h 0 "k.ptx".toList 5).1.mp hmem
  rw [hlocation, Option.map_some, hfive] at hline
  exact absurd hline (by decide)

end Concordia.Debug
