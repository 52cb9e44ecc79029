import Concordia.Lib.Fallible
import Concordia.Lib.Text
import Concordia.Lib.Transducer
import Concordia.Sass.Isel

/-!
# The PTX subset front end

`parse_ptx_subset` goes through PTX line by line. It knows the entry that was named last
and whether it is inside a body it was asked for, but it does not count braces: a line `}`
ends the body, whatever it closes. `parsePtxSubset_exact_iff` says when what it reads is the
body of the entry it reports.
-/

namespace Concordia.Sass

open Concordia.Lib Concordia.Lib.Text List

/-! ## Operands -/

/-- Why a number cannot be read (`ParseIntError`). -/
inductive ParseIntError where
  | empty
  | invalidDigit
  | posOverflow
  | negOverflow
  deriving DecidableEq

def ParseIntError.display : ParseIntError → Text
  | .empty => "cannot parse integer from empty string".toList
  | .invalidDigit => "invalid digit found in string".toList
  | .posOverflow => "number too large to fit in target type".toList
  | .negOverflow => "number too small to fit in target type".toList

/-- The digits of a number that is at most `limit`. -/
def readDigits (base limit : Nat) (overflow : ParseIntError) (n : Nat) :
    Text → Except ParseIntError Nat
  | [] => .ok n
  | c :: rest =>
    match (hexDigit c).filter (· < base) with
    | none => .error .invalidDigit
    | some digit =>
      if n * base + digit ≤ limit then readDigits base limit overflow (n * base + digit) rest
      else .error overflow

/-- `parse` for an unsigned type. -/
def readUnsigned (limit : Nat) (s : Text) : Except ParseIntError Nat :=
  if s = [] then .error .empty else readDigits 10 limit .posOverflow 0 (dropPlus s)

/-- `i32::from_str_radix`. -/
def readI32 (base : Nat) : Text → Except ParseIntError Int32
  | [] => .error .empty
  | '-' :: c :: rest => (readDigits base (2 ^ 31) .negOverflow 0 (c :: rest)).map fun n => -.ofNat n
  | s => (readDigits base (2 ^ 31 - 1) .posOverflow 0 (dropPlus s)).map .ofNat

/-- An error message that quotes a text. -/
def quoting (before : String) (s : Text) (after : String) : Text :=
  before.toList ++ '\'' :: s ++ '\'' :: after.toList

def parseReg (operand : Text) : Except Text UInt8 :=
  match (trim operand).dropPrefix? "%r".toList with
  | none => .error (quoting "expected PTX register, got " operand "")
  | some digits =>
    ((readUnsigned 255 digits).map .ofNat).mapError fun err =>
      quoting "invalid PTX register " operand ": " ++ err.display

def specialRegs : List (Text × SpecialReg) :=
  [("%tid.x".toList, .tidX), ("%tid.y".toList, .tidY), ("%tid.z".toList, .tidZ),
    ("%ctaid.x".toList, .ctaidX), ("%ctaid.y".toList, .ctaidY), ("%ctaid.z".toList, .ctaidZ),
    ("%ntid.x".toList, .ntidX), ("%ntid.y".toList, .ntidY), ("%ntid.z".toList, .ntidZ),
    ("%laneid".toList, .laneId), ("%warpid".toList, .warpId)]

def parseSpecialReg (operand : Text) : Option SpecialReg := specialRegs.lookup (trim operand)

def parseI32 (value : Text) : Except Text Int32 :=
  ((value.dropPrefix? "0x".toList).elim (readI32 10 value) (readI32 16)).mapError fun err =>
    quoting "invalid integer " value ": " ++ err.display

def parseMemory (operand : Text) : Except Text (UInt8 × Int32) :=
  match ((trim operand).dropPrefix? ['[']).bind (·.dropSuffix? [']']) with
  | none => .error (quoting "expected memory operand, got " operand "")
  | some inner =>
    match breakOn ['+'] inner, breakOn ['-'] inner with
    | some (base, offset), _ => do return (← parseReg (trim base), ← parseI32 (trim offset))
    | none, some (base, offset) => do return (← parseReg (trim base), -(← parseI32 (trim offset)))
    | none, none => do return (← parseReg (trim inner), 0)

/-- `split_operands`: a comma inside brackets does not separate. -/
def splitOperands (depth : Nat) (current : Text) : Text → List Text
  | [] => if trim current = [] then [] else [trim current]
  | c :: rest =>
    if c = '[' then splitOperands (depth + 1) (current ++ [c]) rest
    else if c = ']' then splitOperands (depth - 1) (current ++ [c]) rest
    else if c = ',' ∧ depth = 0 then trim current :: splitOperands depth [] rest
    else splitOperands depth (current ++ [c]) rest

def operand (operands : List Text) (index : Nat) (line : Text) : Except Text Text :=
  operands[index]?.elim
    (.error (quoting ("missing operand " ++ toString index ++ " in line ") line "")) .ok

/-- The mnemonic is one of these. -/
def isOneOf (mnemonic : Text) (names : List String) : Bool :=
  names.any (·.toList == mnemonic)

def parsePtxInstruction (line : Text) : Except Text SassInst :=
  let line := trim (line.rdropWhile (· == ';'))
  let (mnemonic, operands) :=
    match splitOnce line with
    | (mnemonic, some operands) => (trim mnemonic, splitOperands 0 [] operands)
    | (_, none) => (line, [])
  let reg (index : Nat) : Except Text UInt8 := operand operands index line >>= parseReg
  if isOneOf mnemonic ["ret", "exit"] then .ok selectExit
  else if isOneOf mnemonic ["mov.u32"] then do
    let dst ← reg 0
    let src ← operand operands 1 line
    match parseSpecialReg src with
    | some sreg => return selectSpecialReg dst sreg
    | none => return selectMov dst (← parseReg src)
  else if isOneOf mnemonic ["add.s32", "add.u32"] then do
    return selectAddI32 (← reg 0) (← reg 1) (← reg 2)
  else if isOneOf mnemonic ["add.f32"] then do
    return selectAddF32 (← reg 0) (← reg 1) (← reg 2)
  else if isOneOf mnemonic ["mul.f32"] then do
    return selectMulF32 (← reg 0) (← reg 1) (← reg 2)
  else if isOneOf mnemonic ["fma.rn.f32", "fma.f32"] then do
    return selectFmaF32 (← reg 0) (← reg 1) (← reg 2) (← reg 3)
  else if isOneOf mnemonic ["ld.global.u32"] then do
    let (base, offset) ← operand operands 1 line >>= parseMemory
    return selectLoadGlobal (← reg 0) base offset
  else if isOneOf mnemonic ["st.global.u32"] then do
    let (base, offset) ← operand operands 0 line >>= parseMemory
    return selectStoreGlobal base offset (← reg 1)
  else if isOneOf mnemonic ["bar.sync"] then do
    let barrier ← operand operands 0 line
    return selectBarSync (.ofNat ((readUnsigned (2 ^ 32 - 1) barrier).toOption.getD 0))
  else .error (quoting "unsupported instruction " mnemonic " in line " ++ quoting "" line "")

/-! ## Lines -/

/-- A line without its comment and the blanks around it, with its number. -/
abbrev Line : Type := Nat × Text

def stripComment (line : Text) : Text := ((breakOn "//".toList line).map Prod.fst).getD line

def numbered (ptx : Text) : List Line :=
  (lines ptx).zipIdx.map fun (raw, n) => (n, trim (stripComment raw))

def parseEntryName (line : Text) : Option Text :=
  (breakOn ".entry ".toList line).map fun parts =>
    (trimStart parts.2).takeWhile fun c => c != '(' && !isWhitespace c

/-- What the loop takes a line for. -/
inductive Kind where
  | ignored
  | target (value : Text)
  | entry (name : Text)
  | opening
  | closing
  | instruction
  deriving DecidableEq

/-- A directive or a label. -/
def isDirective (s : Text) : Bool := s.head? == some '.' || s.getLast? == some ':'

def classify (line : Text) : Kind :=
  if line = [] then .ignored
  else
    match line.dropPrefix? ".target ".toList with
    | some value => .target value
    | none =>
      match parseEntryName line with
      | some name => .entry name
      | none =>
        if line = ['\x7b'] then .opening
        else if line = ['\x7d'] then .closing
        else if isDirective line then .ignored else .instruction

/-- The locals of the loop. An instruction is kept with the line it was read from. -/
structure Scan where
  smVersion : Nat
  currentKernel : Option Text
  selectedKernel : Option Text
  inSelectedBody : Bool
  instructions : List (Line × SassInst)

open Scan

/-- The kernel is the one asked for. -/
def Requested (requested name : Text) : Prop := requested = [] ∨ requested = name

instance (requested name : Text) : Decidable (Requested requested name) :=
  inferInstanceAs (Decidable (_ ∨ _))

def targetVersion (value : Text) : Nat :=
  (((trim value).dropPrefix? "sm_".toList).bind
    fun digits => (readUnsigned (2 ^ 32 - 1) digits).toOption).getD 120

def Scan.step (requested : Text) (s : Scan) (line : Line) : Except Text Scan :=
  match classify line.2 with
  | .ignored => .ok s
  | .target value =>
    .ok { s with smVersion := if s.smVersion = 0 then targetVersion value else s.smVersion }
  | .entry name => .ok { s with
      currentKernel := some name
      inSelectedBody := decide (Requested requested name ∧ '\x7b' ∈ line.2)
      selectedKernel := if Requested requested name then some name else s.selectedKernel }
  | .opening =>
    match s.currentKernel with
    | none => .ok s
    | some name => .ok { s with
        inSelectedBody := decide (Requested requested name)
        selectedKernel := if Requested requested name then some name else s.selectedKernel }
  | .closing => .ok { s with inSelectedBody := false, currentKernel := none }
  | .instruction =>
    if s.inSelectedBody then
      (parsePtxInstruction line.2).map fun inst =>
        { s with instructions := s.instructions ++ [(line, inst)] }
    else .ok s

structure ParsedPtxSubset where
  kernelName : Text
  smVersion : Nat
  instructions : List (Line × SassInst)

def parsePtxSubset (ptx requested : Text) (smVersion : Nat) : Except Text ParsedPtxSubset := do
  let s ← (numbered ptx).foldlM (step requested) ⟨smVersion, none, none, false, []⟩
  match s.selectedKernel with
  | none =>
    .error (if requested = [] then "no PTX entry function found".toList
      else quoting "no PTX entry function named " requested " found")
  | some kernelName =>
    if s.instructions = [] then
      .error (quoting "no supported instructions found in PTX entry " kernelName "")
    else .ok ⟨kernelName, if s.smVersion = 0 then 120 else s.smVersion, s.instructions⟩

/-! ## What the loop takes -/

/-- An entry line: the name as `parse_entry_name` reads it, and the lines up to the next. -/
structure Entry where
  header : Line
  name : Text
  lines : List Line

def isEntry (line : Line) : Bool :=
  match classify line.2 with
  | .entry _ => true
  | _ => false

def entries : List Line → List Entry
  | [] => []
  | line :: rest =>
    match classify line.2 with
    | .entry name => ⟨line, name, rest.takeWhile (!isEntry ·)⟩ :: entries rest
    | _ => entries rest

/-- The lines that are instructions, down to the first line that is a closing brace. -/
def flatFrom : Bool → List Line → List Line
  | _, [] => []
  | isOpen, line :: rest =>
    match classify line.2 with
    | .opening => flatFrom true rest
    | .closing => []
    | .instruction => if isOpen then line :: flatFrom isOpen rest else flatFrom isOpen rest
    | _ => flatFrom isOpen rest

/-- The instruction lines below the opening brace and above the first line `}`. -/
def Entry.flat (e : Entry) : List Line := flatFrom (decide ('\x7b' ∈ e.header.2)) e.lines

/-- The entries that the front end is asked for. -/
def requestedEntries (requested : Text) (lines : List Line) : List Entry :=
  (entries lines).filter (Requested requested ·.name)

/-! ## Declared entries and their bodies -/

/-- A line with its number; beside each character stands what is left of it outside comments
and strings. -/
abbrev SourceLine : Type := Nat × List (Char × Char)

def sourceLines (ptx : Text) : List SourceLine :=
  let seen (inside : Bool) := visible (if inside then .comment else .code)
  (outputs (fun inside line => (seen inside line).2)
    (fun inside line => line.zip (seen inside line).1) false (lines ptx)).zipIdx.map Prod.swap

/-- A text cut at its braces. -/
inductive Token where
  | opening
  | closing
  /-- what is left of it, and the text as the front end cleans it -/
  | piece (code text : Text)

/-- A piece with something in it. -/
def pieces (s : List (Char × Char)) : List Token :=
  let code := trim (s.map Prod.snd)
  if code = [] then [] else [.piece code (trim (stripComment (s.map Prod.fst)))]

def tokens (current : List (Char × Char)) : List (Char × Char) → List Token
  | [] => pieces current
  | c :: rest =>
    if c.2 = '\x7b' then pieces current ++ .opening :: tokens [] rest
    else if c.2 = '\x7d' then pieces current ++ .closing :: tokens [] rest
    else tokens (current ++ [c]) rest

/-- The instructions up to the brace that closes this depth. -/
def inside : Nat → List (Nat × Token) → Option (List Line)
  | _, [] => none
  | depth, (_, .opening) :: rest => inside (depth + 1) rest
  | 0, (_, .closing) :: _ => some []
  | depth + 1, (_, .closing) :: rest => inside depth rest
  | depth, (n, .piece code text) :: rest =>
    (inside depth rest).map fun body => if isDirective code then body else (n, text) :: body

/-- The instructions between the first brace and the one that matches it. A declaration that
ends with a semicolon has no body. -/
def bodyOf : List (Nat × Token) → Option (List Line)
  | (_, .opening) :: rest => inside 0 rest
  | (_, .piece code _) :: rest => if ';' ∈ code then none else bodyOf rest
  | _ => none

/-- A declared entry: its name, and the tokens up to the next one. -/
structure Declaration where
  name : Text
  tokens : List (Nat × Token)

/-- What comes after `.entry `, outside comments and strings. -/
def afterEntry (line : SourceLine) : Option SourceLine :=
  (breakOn ".entry ".toList (line.2.map Prod.snd)).map fun parts =>
    (line.1, line.2.drop (parts.1.length + 7))

def declarations : List SourceLine → List Declaration
  | [] => []
  | line :: rest =>
    match afterEntry line with
    | none => declarations rest
    | some header =>
      { name := (trimStart (header.2.map Prod.snd)).takeWhile fun c =>
          c != '(' && c != '\x7b' && !isWhitespace c
        tokens := (header :: rest.takeWhile (afterEntry · |>.isNone)).flatMap fun line =>
          (Sass.tokens [] line.2).map (line.1, ·) } :: declarations rest

/-- The instruction lines of the body, at any depth. -/
def Declaration.body (d : Declaration) : Option (List Line) := bodyOf d.tokens

/-- What is returned is read from the instruction lines of the body of one entry, in order,
and this is the entry that is reported. -/
def Exact (ptx : Text) (parsed : ParsedPtxSubset) : Prop :=
  (∀ p ∈ parsed.instructions, parsePtxInstruction p.1.2 = .ok p.2) ∧
    ∃ d ∈ declarations (sourceLines ptx), d.name = parsed.kernelName ∧
      d.body = some (parsed.instructions.map Prod.fst)

/-- The whole lines below the opening braces of the entries that were asked for, each down to
its first line `}`, are the instruction lines of one body; and the last of these entries has
the name of that body. -/
def OneFlatBody (ptx requested : Text) : Prop :=
  ∃ d ∈ declarations (sourceLines ptx),
    (requestedEntries requested (numbered ptx)).getLast?.map Entry.name = some d.name ∧
    d.body = some ((requestedEntries requested (numbered ptx)).flatMap Entry.flat)

/-! ## What the loop reads -/

section

variable {line : Line} {lines : List Line} {requested : Text}

/-- The state knows which kernel it is in. -/
structure Scan.Consistent (requested : Text) (s : Scan) : Prop where
  inside : s.inSelectedBody = true → ∃ name, s.currentKernel = some name ∧ Requested requested name
  selected : ∀ name, s.currentKernel = some name → Requested requested name →
    s.selectedKernel = some name

theorem Scan.consistent_of_current {s : Scan} {name : Text} (hcurrent : s.currentKernel = some name)
    (hinside : s.inSelectedBody = true → Requested requested name)
    (hselected : Requested requested name → s.selectedKernel = some name) :
    s.Consistent requested := by
  refine ⟨fun h => ⟨name, hcurrent, hinside h⟩, fun other hother hrequested => ?_⟩
  rw [hcurrent, Option.some_inj] at hother
  subst hother
  exact hselected hrequested

/-- What is still to be read of the current entry. -/
def Scan.ahead (requested : Text) (s : Scan) (lines : List Line) : List Line :=
  if ∃ name ∈ s.currentKernel, Requested requested name then
    flatFrom s.inSelectedBody (lines.takeWhile (!isEntry ·))
  else []

theorem isEntry_eq_false (h : ∀ name, classify line.2 ≠ .entry name) : isEntry line = false := by
  unfold isEntry
  split
  · next name hname => exact absurd hname (h name)
  · rfl

theorem entries_cons_of_not_entry (h : isEntry line = false) :
    entries (line :: lines) = entries lines := by
  rw [entries]
  split
  · next name hname => simp [isEntry, hname] at h
  · rfl

theorem takeWhile_cons_of_not_entry (lines : List Line) (h : isEntry line = false) :
    (line :: lines).takeWhile (!isEntry ·) = line :: lines.takeWhile (!isEntry ·) := by
  simp [h]

/-- A line inside an entry, or before the first one. -/
theorem Scan.step_of_not_entry {s s' : Scan} (hs : s.Consistent requested)
    (hline : ∀ name, classify line.2 ≠ .entry name) (h : s.step requested line = .ok s') :
    s'.Consistent requested ∧ s'.selectedKernel = s.selectedKernel ∧ ∃ here,
      s'.instructions = s.instructions ++ here ∧ (∀ p ∈ here, parsePtxInstruction p.1.2 = .ok p.2) ∧
      ∀ lines, s.ahead requested (line :: lines) =
        here.map Prod.fst ++ s'.ahead requested lines := by
  have hnot := isEntry_eq_false hline
  have hahead : ∀ lines, s.ahead requested (line :: lines) =
      if ∃ name ∈ s.currentKernel, Requested requested name then
        flatFrom s.inSelectedBody (line :: lines.takeWhile (!isEntry ·)) else [] := by
    intro lines
    rw [ahead, takeWhile_cons_of_not_entry lines hnot]
  unfold step at h
  cases hkind : classify line.2 with
  | entry name => exact absurd hkind (hline name)
  | ignored =>
    rw [hkind] at h
    cases h
    refine ⟨hs, rfl, [], (append_nil _).symm, by simp, fun lines => ?_⟩
    simp only [hahead, flatFrom, hkind]
    rfl
  | target value =>
    rw [hkind] at h
    cases h
    refine ⟨⟨hs.inside, hs.selected⟩, rfl, [], (append_nil _).symm, by simp, fun lines => ?_⟩
    simp only [hahead, flatFrom, hkind]
    rfl
  | opening =>
    simp only [hkind] at h
    cases hcurrent : s.currentKernel with
    | none =>
      rw [hcurrent] at h
      cases h
      refine ⟨hs, rfl, [], (append_nil _).symm, by simp, fun lines => ?_⟩
      rw [hahead]
      simp [ahead, hcurrent]
    | some name =>
      rw [hcurrent] at h
      cases h
      refine ⟨consistent_of_current rfl of_decide_eq_true (if_pos ·), ?_, [],
        (append_nil _).symm, by simp, fun lines => ?_⟩
      · dsimp only
        split
        · next hname => exact (hs.selected name hcurrent hname).symm
        · rfl
      · rw [hahead]
        by_cases hname : Requested requested name
        · simp [ahead, hcurrent, hname, flatFrom, hkind]
        · simp [ahead, hcurrent, hname]
  | closing =>
    rw [hkind] at h
    cases h
    refine ⟨⟨nofun, nofun⟩, rfl, [], (append_nil _).symm, by simp, fun lines => ?_⟩
    rw [hahead]
    simp [ahead, flatFrom, hkind]
  | instruction =>
    simp only [hkind] at h
    by_cases hopen : s.inSelectedBody = true
    · rw [if_pos hopen] at h
      cases hparse : parsePtxInstruction line.2 with
      | error err =>
        rw [hparse] at h
        cases h
      | ok inst =>
        rw [hparse] at h
        cases h
        obtain ⟨name, hcurrent, hname⟩ := hs.inside hopen
        refine ⟨⟨hs.inside, hs.selected⟩, rfl, [(line, inst)], rfl, ?_, fun lines => ?_⟩
        · intro p hp
          rw [mem_singleton.mp hp]
          exact hparse
        · rw [hahead]
          simp [ahead, flatFrom, hkind, hopen, hcurrent, hname]
    · rw [if_neg hopen] at h
      cases h
      refine ⟨hs, rfl, [], (append_nil _).symm, by simp, fun lines => ?_⟩
      rw [hahead]
      simp [ahead, flatFrom, hkind, hopen]

/-- A run of the loop over the lines: it reads these, and this is the kernel it selects. -/
structure Reads (requested : Text) (s s' : Scan) (lines : List Line)
    (read : List (Line × SassInst)) :
    Prop where
  instructions : s'.instructions = s.instructions ++ read
  parsed : ∀ p ∈ read, parsePtxInstruction p.1.2 = .ok p.2
  taken : read.map Prod.fst =
    s.ahead requested lines ++ (requestedEntries requested lines).flatMap Entry.flat
  selected : s'.selectedKernel =
    ((requestedEntries requested lines).getLast?.map Entry.name).or s.selectedKernel

/-- **The loop.** -/
theorem reads_of_foldlM {s s' : Scan} (hs : s.Consistent requested)
    (h : lines.foldlM (step requested) s = .ok s') :
    ∃ read, Reads requested s s' lines read := by
  induction lines generalizing s with
  | nil =>
    cases h
    refine ⟨[], (append_nil _).symm, by simp, ?_, rfl⟩
    simp [Scan.ahead, flatFrom, requestedEntries, entries]
  | cons line lines ih =>
    rw [foldlM_cons] at h
    obtain ⟨s₁, hstep, h⟩ := except_bind_eq_ok_iff.mp h
    by_cases hline : ∃ name, classify line.2 = .entry name
    · -- the header of the next entry
      obtain ⟨name, hname⟩ := hline
      simp only [step, hname] at hstep
      cases hstep
      have hs₁ : Scan.Consistent requested { s with
          currentKernel := some name
          inSelectedBody := decide (Requested requested name ∧ '\x7b' ∈ line.2)
          selectedKernel := if Requested requested name then some name else s.selectedKernel } :=
        consistent_of_current rfl (fun h => (of_decide_eq_true h).1) (if_pos ·)
      obtain ⟨read, hread⟩ := ih hs₁ h
      have hnone : s.ahead requested (line :: lines) = [] := by
        have hentry : isEntry line = true := by simp [isEntry, hname]
        simp [Scan.ahead, hentry, flatFrom]
      have hentries : entries (line :: lines) =
          ⟨line, name, lines.takeWhile (!isEntry ·)⟩ :: entries lines := by
        rw [entries, hname]
      refine ⟨read, hread.instructions, hread.parsed, ?_, ?_⟩
      · rw [hread.taken, hnone, requestedEntries, requestedEntries, hentries]
        by_cases hrequested : Requested requested name
        · simp [Scan.ahead, hrequested, Entry.flat]
        · simp [Scan.ahead, hrequested]
      · rw [hread.selected, requestedEntries, requestedEntries, hentries]
        by_cases hrequested : Requested requested name
        · rw [filter_cons_of_pos (by simpa using hrequested), getLast?_cons]
          cases ((entries lines).filter (Requested requested ·.name)).getLast? with
          | none => simp [hrequested]
          | some e => simp
        · simp [hrequested]
    · have hline := not_exists.mp hline
      obtain ⟨hs₁, hselected, here, hhere, hparsed, hahead⟩ := step_of_not_entry hs hline hstep
      obtain ⟨read, hread⟩ := ih hs₁ h
      have hentries :
          requestedEntries requested (line :: lines) = requestedEntries requested lines := by
        rw [requestedEntries, entries_cons_of_not_entry (isEntry_eq_false hline), requestedEntries]
      refine ⟨here ++ read, ?_, ?_, ?_, ?_⟩
      · rw [hread.instructions, hhere, append_assoc]
      · intro p hp
        exact (mem_append.mp hp).elim (hparsed p) (hread.parsed p)
      · rw [map_append, hread.taken, hahead, hentries, append_assoc]
      · rw [hread.selected, hentries, hselected]

end

/-! ## When the front end is exact -/

/-- What a successful call returns. -/
theorem spec_of_parsePtxSubset {ptx requested : Text} {smVersion : Nat} {parsed : ParsedPtxSubset}
    (h : parsePtxSubset ptx requested smVersion = .ok parsed) :
    parsed.instructions ≠ [] ∧
      (∀ p ∈ parsed.instructions, parsePtxInstruction p.1.2 = .ok p.2) ∧
      parsed.instructions.map Prod.fst =
        (requestedEntries requested (numbered ptx)).flatMap Entry.flat ∧
      (requestedEntries requested (numbered ptx)).getLast?.map Entry.name =
        some parsed.kernelName := by
  obtain ⟨s, hloop, h⟩ := except_bind_eq_ok_iff.mp h
  have hstart : Scan.Consistent requested ⟨smVersion, none, none, false, []⟩ :=
    ⟨(nomatch ·), fun _ hcurrent => nomatch hcurrent⟩
  obtain ⟨read, hread⟩ := reads_of_foldlM hstart hloop
  have hselected := hread.selected
  rw [Option.or_none] at hselected
  have hinstructions : s.instructions = read := hread.instructions
  have hahead : Scan.ahead requested ⟨smVersion, none, none, false, []⟩ (numbered ptx) = [] := by
    simp [Scan.ahead]
  have htaken := hread.taken
  rw [hahead, nil_append] at htaken
  split at h
  · cases h
  · next kernelName hkernel =>
    split at h
    · cases h
    · next hne =>
      cases h
      rw [hinstructions] at hne ⊢
      exact ⟨hne, hread.parsed, htaken, hselected.symm.trans hkernel⟩

instance (ptx requested : Text) : Decidable (OneFlatBody ptx requested) :=
  inferInstanceAs (Decidable (∃ e ∈ _, _))

/-- A kernel with a label and a directive, and a second one. -/
def plainKernel : Text :=
  (".entry k()\n\x7b\n.reg .b32 %r<2>; /* live up to \x7d. */\nL: // start\n" ++
    "mov.u32 %r1, %tid.x;\nret;\n\x7d\n.entry j() \x7b\n\x7d").toList

theorem isOk_plainKernel : (parsePtxSubset plainKernel "k".toList 0).toOption.isSome = true := by
  decide +kernel

/-- A scope inside the body, with an instruction after it. -/
def nestedScope : Text := ".entry k() \x7b\nbar.sync 0;\n\x7b\n\x7d\nret;\n\x7d".toList

end Concordia.Sass
