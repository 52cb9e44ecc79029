import Concordia.Lib.Text
import Concordia.Lib.Transducer

/-!
# Safe points in PTX text

Two scanners over the lines of a module. `discover_ptx_safe_points` reports
where safe points are; `annotate_ptx_with_concordia_safe_points` writes a label
for each into the text. Both keep a flag for being inside an entry, set by a
line that looks like an entry header and cleared by a line that starts with a
closing brace (`entered_iff`). The annotator holds an entry label back until a
line with an opening brace (`awaiting_iff`).
-/

namespace Concordia.Instrument

open Concordia.Lib Text

inductive SafePointKind where
  | entry
  | barrier
  | exit
  deriving DecidableEq, Repr

/-- What a label is named after. -/
structure Label where
  kind : SafePointKind
  index : Nat
  deriving DecidableEq, Repr

def SafePointKind.stem : SafePointKind → Text
  | .entry => "__concordia_safe_entry_".toList
  | .barrier => "__concordia_safe_barrier_".toList
  | .exit => "__concordia_safe_exit_".toList

def Label.name (label : Label) : Text := label.kind.stem ++ decimal label.index

structure SafePoint where
  kind : SafePointKind
  line : Nat
  label : Text
  deriving DecidableEq, Repr

/-! ## What a line looks like -/

/-- `trimmed.contains(".entry ") || trimmed.starts_with(".entry")`. -/
def looksEntry (text : Text) : Bool :=
  contains ".entry ".toList (trimStart text) ||
    ".entry".toList.isPrefixOf (trimStart text)

/-- `trimmed.starts_with("bar.") || trimmed.contains("bar.sync")`. -/
def looksBarrier (text : Text) : Bool :=
  "bar.".toList.isPrefixOf (trimStart text) ||
    contains "bar.sync".toList (trimStart text)

/-- `trimmed.starts_with("ret")`. -/
def looksReturn (text : Text) : Bool := "ret".toList.isPrefixOf (trimStart text)

/-- `trimmed.starts_with('}')`. -/
def looksClosing (text : Text) : Bool := ['\x7d'].isPrefixOf (trimStart text)

/-- `text.contains('{')`. -/
def hasBrace (text : Text) : Bool := text.any (· == '\x7b')

/-! ## Discovery -/

structure Discovery where
  safePoints : List SafePoint
  inEntry : Bool
  entryIndex : Nat
  barrierIndex : Nat
  exitIndex : Nat

namespace Discovery

def start : Discovery where
  safePoints := []
  inEntry := false
  entryIndex := 0
  barrierIndex := 0
  exitIndex := 0

def push (d : Discovery) (line : Nat) (label : Label) : Discovery :=
  { d with safePoints := d.safePoints ++
      [{ kind := label.kind, line := line, label := label.name }] }

/-- One line. -/
def step (d : Discovery) (numbered : Text × Nat) : Discovery :=
  let (text, line) := numbered
  let d := if looksEntry text then
      { d.push line ⟨.entry, d.entryIndex⟩ with inEntry := true, entryIndex := d.entryIndex + 1 }
    else d
  if d.inEntry then
    let d := if looksBarrier text then
        { d.push line ⟨.barrier, d.barrierIndex⟩ with barrierIndex := d.barrierIndex + 1 }
      else d
    let d := if looksReturn text then
        { d.push line ⟨.exit, d.exitIndex⟩ with exitIndex := d.exitIndex + 1 }
      else d
    if looksClosing text then { d with inEntry := false } else d
  else d

end Discovery

/-- `discover_ptx_safe_points`. -/
def discoverPtxSafePoints (ptx : Text) : List SafePoint :=
  ((lines ptx).zipIdx.foldl Discovery.step .start).safePoints

/-! ## Annotation -/

structure Annotator where
  annotated : Text
  inEntry : Bool
  pendingEntryLabel : Option Label
  entryIndex : Nat
  barrierIndex : Nat
  exitIndex : Nat

def labelLine (indent : Text) (label : Label) : Text := indent ++ label.name ++ [':', '\n']

namespace Annotator

def start : Annotator where
  annotated := []
  inEntry := false
  pendingEntryLabel := none
  entryIndex := 0
  barrierIndex := 0
  exitIndex := 0

/-- One line. -/
def step (a : Annotator) (text : Text) : Annotator :=
  let indent := text.takeWhile isWhitespace
  let a := if looksEntry text then
      { a with inEntry := true, pendingEntryLabel := some ⟨.entry, a.entryIndex⟩
               entryIndex := a.entryIndex + 1 }
    else a
  let a := if a.inEntry && looksBarrier text then
      { a with annotated := a.annotated ++ labelLine indent ⟨.barrier, a.barrierIndex⟩
               barrierIndex := a.barrierIndex + 1 }
    else a
  let a := if a.inEntry && looksReturn text then
      { a with annotated := a.annotated ++ labelLine indent ⟨.exit, a.exitIndex⟩
               exitIndex := a.exitIndex + 1 }
    else a
  let a := { a with annotated := a.annotated ++ text ++ ['\n'] }
  let a := match a.pendingEntryLabel with
    | some label =>
      if hasBrace text then
        { a with annotated := a.annotated ++ labelLine indent label, pendingEntryLabel := none }
      else a
    | none => a
  if a.inEntry && looksClosing text then
    { a with inEntry := false, pendingEntryLabel := none }
  else a

end Annotator

/-- `annotate_ptx_with_concordia_safe_points`. -/
def annotatePtxWithConcordiaSafePoints (ptx : Text) : Text :=
  ((lines ptx).foldl Annotator.step .start).annotated

/-! ## What is inserted -/

/-- A line with the labels inserted before and after it. -/
structure MarkedLine where
  before : List Label
  text : Text
  after : List Label
  deriving DecidableEq, Repr

def MarkedLine.labels (m : MarkedLine) : List Label := m.before ++ m.after

def MarkedLine.render (m : MarkedLine) : Text :=
  let indent := m.text.takeWhile isWhitespace
  m.before.flatMap (labelLine indent) ++ m.text ++ ['\n'] ++ m.after.flatMap (labelLine indent)

namespace Annotator

/-- The flag a line sees. -/
def entered (a : Annotator) (text : Text) : Bool := a.inEntry || looksEntry text

/-- The entry label held back when a line is met. -/
def held (a : Annotator) (text : Text) : Option Label :=
  if looksEntry text then some ⟨.entry, a.entryIndex⟩ else a.pendingEntryLabel

/-- The labels a line gets. -/
def mark (a : Annotator) (text : Text) : MarkedLine where
  before :=
    (if a.entered text && looksBarrier text then [⟨.barrier, a.barrierIndex⟩] else []) ++
      (if a.entered text && looksReturn text then [⟨.exit, a.exitIndex⟩] else [])
  text := text
  after := if hasBrace text then (a.held text).toList else []

variable (a : Annotator) (text : Text)

/-- What a line does to the state. -/
theorem step_eq :
    a.step text =
      { annotated := a.annotated ++ (a.mark text).render
        inEntry := a.entered text && !looksClosing text
        pendingEntryLabel :=
          if hasBrace text || (a.entered text && looksClosing text) then none else a.held text
        entryIndex := a.entryIndex + (looksEntry text).toNat
        barrierIndex := a.barrierIndex + (a.entered text && looksBarrier text).toNat
        exitIndex := a.exitIndex + (a.entered text && looksReturn text).toNat } := by
  cases hentry : looksEntry text <;> cases hbarrier : looksBarrier text <;>
    cases hreturn : looksReturn text <;> cases hbrace : hasBrace text <;>
    cases hclosing : looksClosing text <;> cases hin : a.inEntry <;>
    cases hpending : a.pendingEntryLabel <;>
    simp [step, mark, entered, held, MarkedLine.render, hentry, hbarrier, hreturn, hbrace,
      hclosing, hin, hpending]

theorem step_pending :
    (a.step text).pendingEntryLabel =
      if hasBrace text || (a.entered text && looksClosing text) then none else a.held text := by
  rw [step_eq]

end Annotator

open Annotator

/-- The lines of the annotated text with the labels inserted. -/
def markedLines (lines : List Text) : List MarkedLine :=
  outputs step mark .start lines

/-- The annotated text is the marked lines, printed. -/
theorem annotate_eq (ptx : Text) :
    annotatePtxWithConcordiaSafePoints ptx =
      (markedLines (lines ptx)).flatMap MarkedLine.render := by
  have happend := foldl_append_outputs step
    (fun a text => congrArg annotated (a.step_eq text)) .start (lines ptx)
  rw [annotatePtxWithConcordiaSafePoints, happend, List.flatMap, markedLines, map_outputs]
  rfl

theorem map_text_markedLines (lines : List Text) : (markedLines lines).map (·.text) = lines := by
  rw [markedLines, map_outputs]
  generalize start = a
  induction lines generalizing a with
  | nil => rfl
  | cons text lines ih =>
    rw [outputs, ih]
    rfl

/-! ## What the scanners see -/

/-- The state in which line `i` is met. -/
def stateAt (lines : List Text) (i : Nat) : Annotator := (lines.take i).foldl step .start

variable {lines : List Text} {i : Nat}

theorem stateAt_succ {text : Text} (h : lines[i]? = some text) :
    stateAt lines (i + 1) = (stateAt lines i).step text := foldl_take_succ step h _

theorem getElem?_markedLines (lines : List Text) (i : Nat) :
    (markedLines lines)[i]? = lines[i]?.map (stateAt lines i).mark :=
  getElem?_outputs step mark .start lines i

/-- Line `i` exists and is of kind `p`. -/
def LineIs (p : Text → Bool) (lines : List Text) (i : Nat) : Prop :=
  ∃ text, lines[i]? = some text ∧ p text = true

theorem lineIs_iff {p : Text → Bool} {text : Text} (h : lines[i]? = some text) :
    LineIs p lines i ↔ p text = true := by
  constructor
  · rintro ⟨text', h', hp⟩
    obtain rfl := Option.some.inj (h.symm.trans h')
    exact hp
  · exact fun hp => ⟨text, h, hp⟩

/-- A line up to `i` looks like an entry header, and no line from there to
before `i` starts with a closing brace. -/
def Entered (lines : List Text) : Nat → Prop :=
  Latched (LineIs looksEntry lines) (LineIs looksClosing lines)

/-- A line up to `i` looks like an entry header, and no line from there to
before `i` starts with a closing brace or has an opening one. -/
def Awaiting (lines : List Text) : Nat → Prop :=
  Latched (LineIs looksEntry lines)
    (fun k => LineIs looksClosing lines k ∨ LineIs hasBrace lines k)

theorem entered_iff {text : Text} (h : lines[i]? = some text) :
    (stateAt lines i).entered text = true ↔ Entered lines i := by
  induction i generalizing text with
  | zero =>
    rw [Entered, latched_zero, lineIs_iff h]
    simp [entered, stateAt, start]
  | succ i ih =>
    obtain ⟨before, hbefore⟩ : ∃ before, lines[i]? = some before := by
      have := (List.getElem?_eq_some_iff.mp h).1
      exact ⟨_, List.getElem?_eq_getElem (by omega)⟩
    rw [Entered, latched_succ, lineIs_iff h, lineIs_iff hbefore, ← Entered, ← ih hbefore,
      stateAt_succ hbefore, entered, step_eq]
    simp [or_comm]

/-- An entry label is held back only inside an entry. -/
theorem inEntry_of_pending (lines : List Text) (a : Annotator)
    (h : a.pendingEntryLabel ≠ none → a.inEntry = true) :
    (lines.foldl step a).pendingEntryLabel ≠ none →
      (lines.foldl step a).inEntry = true := by
  induction lines generalizing a with
  | nil => exact h
  | cons text lines ih =>
    apply ih
    rw [step_eq]
    cases hentry : looksEntry text <;> cases hclosing : looksClosing text <;>
      cases hin : a.inEntry <;> simp_all [entered, held]

theorem awaiting_iff {text : Text} (h : lines[i]? = some text) :
    ((stateAt lines i).held text).isSome = true ↔ Awaiting lines i := by
  induction i generalizing text with
  | zero =>
    rw [Awaiting, latched_zero, lineIs_iff h]
    simp [held, stateAt, start, apply_ite]
  | succ i ih =>
    obtain ⟨before, hbefore⟩ : ∃ before, lines[i]? = some before := by
      have := (List.getElem?_eq_some_iff.mp h).1
      exact ⟨_, List.getElem?_eq_getElem (by omega)⟩
    have hpending : (stateAt lines i).pendingEntryLabel ≠ none → (stateAt lines i).inEntry = true :=
      inEntry_of_pending (lines.take i) .start (by simp [start])
    rw [Awaiting, latched_succ, lineIs_iff h, lineIs_iff hbefore, lineIs_iff hbefore, ← Awaiting,
      ← ih hbefore, stateAt_succ hbefore, held, step_eq]
    cases hentry : looksEntry before <;> cases hclosing : looksClosing before <;>
      cases hin : (stateAt lines i).inEntry <;> cases hbrace : hasBrace before <;>
      simp_all [entered, held, apply_ite]

end Concordia.Instrument
