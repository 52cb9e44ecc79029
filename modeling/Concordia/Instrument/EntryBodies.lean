import Concordia.Instrument.Agreement

/-!
# Safe points and entry bodies

What the labels are for: every barrier and return inside the body of an entry.
The bodies are found here as PTX has them, by matching braces outside comments
and strings (`Braces`). The annotator has only a flag, which the first line that
starts with a closing brace clears, so that what follows a nested scope stays
without labels; and it recognises a return only at the start of its line.
-/

namespace Concordia.Instrument

open Concordia.Lib List Text

/-! ## Bodies by matching braces -/

def identifierChar (c : Char) : Bool := c.isAlphanum || c == '_' || c == '$'

/-- The text starts with this directive. -/
def directive (name text : Text) : Bool :=
  name.isPrefixOf text && !(text.drop name.length).head?.any identifierChar

/-- Open braces, and whether the body that is open or opens next is an entry's.
`sound` tells that no brace closed that was not open and no entry went without
a body. -/
structure Braces where
  depth : Nat
  entry : Bool
  sound : Bool
  deriving DecidableEq, Repr

namespace Braces

def start : Braces where
  depth := 0
  entry := false
  sound := true

/-- The character at the head of the text. -/
def next (b : Braces) (text : Text) : Braces :=
  if text.head? = some '\x7b' then { b with depth := b.depth + 1 }
  else if text.head? = some '\x7d' then
    { depth := b.depth - 1, entry := b.entry && 1 < b.depth, sound := b.sound && 0 < b.depth }
  else if b.depth ≠ 0 then b
  else if directive ".entry".toList text then
    { b with entry := true, sound := b.sound && !b.entry }
  else if directive ".func".toList text || text.head? = some ';' then
    { b with entry := false, sound := b.sound && !b.entry }
  else b

def scan (b : Braces) : Text → Braces
  | [] => b
  | c :: rest => scan (b.next (c :: rest)) rest

/-- How many entry bodies open in the text. -/
def openings (b : Braces) : Text → Nat
  | [] => 0
  | c :: rest =>
    (if c = '\x7b' ∧ b.depth = 0 ∧ b.entry then 1 else 0) + openings (b.next (c :: rest)) rest

def inBody (b : Braces) : Bool := b.entry && 0 < b.depth

end Braces

/-- The opcode a line starts with, after an optional predicate. -/
def opcode (text : Text) : Text :=
  let text := trimStart text
  let text := if text.head? = some '@' then
      trimStart (text.dropWhile fun c => !isWhitespace c)
    else text
  text.takeWhile fun c => !isWhitespace c && c ≠ ';'

/-- `name`, perhaps with further modifiers. -/
def isOpcode (name op : Text) : Bool := op == name || (name ++ ['.']).isPrefixOf op

/-- What stands on a line. -/
structure LineScope where
  start : Braces
  stop : Braces
  openings : Nat
  opcode : Text

/-- Braces and an open block comment. -/
def scopeStep (s : Braces × Bool) (text : Text) : Braces × Bool :=
  let (code, inside) := visible (if s.2 then .comment else .code) text
  (s.1.scan code, inside)

def scopeOut (s : Braces × Bool) (text : Text) : LineScope :=
  let code := (visible (if s.2 then .comment else .code) text).1
  { start := s.1, stop := s.1.scan code, openings := s.1.openings code, opcode := opcode code }

def lineScopes (lines : List Text) : List LineScope :=
  outputs scopeStep scopeOut (.start, false) lines

/-- Braces match and every entry has a body. -/
def WellBraced (ptx : Text) : Prop :=
  ((lines ptx).foldl scopeStep (.start, false)).1 = .start

instance (ptx : Text) : Decidable (WellBraced ptx) := inferInstanceAs (Decidable (_ = _))

/-! ## Labels are distinct -/

/-- The next number of a kind of label. -/
def Annotator.counter (a : Annotator) : SafePointKind → Nat
  | .entry => a.entryIndex
  | .barrier => a.barrierIndex
  | .exit => a.exitIndex

open Annotator

/-- A line's labels are new, and the counters pass them. -/
theorem Annotator.counter_found (a : Annotator) (text : Text) :
    (a.found text).Nodup ∧ (∀ label ∈ a.found text, label.index = a.counter label.kind ∧
      a.counter label.kind < (a.step text).counter label.kind) ∧
      ∀ kind, a.counter kind ≤ (a.step text).counter kind := by
  rw [step_eq]
  refine ⟨?_, ?_, ?_⟩
  · unfold found opened mark
    cases looksEntry text <;> cases a.entered text && looksBarrier text <;>
      cases a.entered text && looksReturn text <;> simp
  · unfold found opened mark
    cases looksEntry text <;> cases a.entered text && looksBarrier text <;>
      cases a.entered text && looksReturn text <;> simp [counter]
  · intro kind
    cases kind <;> simp [counter]

theorem nodup_found (a : Annotator) (lines : List Text) :
    (outputs step found a lines).flatten.Nodup ∧
      ∀ label ∈ (outputs step found a lines).flatten,
        a.counter label.kind ≤ label.index := by
  induction lines generalizing a with
  | nil => simp [outputs]
  | cons text lines ih =>
    obtain ⟨hnodup, hbound⟩ := ih (a.step text)
    obtain ⟨hline, hnew, hmono⟩ := a.counter_found text
    rw [outputs, flatten_cons]
    constructor
    · rw [nodup_append]
      refine ⟨hline, hnodup, ?_⟩
      rintro label hlabel _ hrest rfl
      have := hnew label hlabel
      have := hbound label hrest
      omega
    · intro label hlabel
      rcases mem_append.mp hlabel with hlabel | hlabel
      · exact (hnew label hlabel).1.ge
      · exact (hmono label.kind).trans (hbound label hlabel)

/-- All labels inserted are distinct. -/
theorem nodup_labels (lines : List Text) :
    (((markedLines lines).flatMap MarkedLine.labels).map Label.name).Nodup := by
  refine List.Nodup.map Label.name_injective ?_
  have hmarked := flatten_outputs_append_perm step
    (fun a text => (a.mark text).before) (fun a text => (a.mark text).after) .start lines
  have hfound := flatten_outputs_append_perm step opened
    (fun a text => (a.mark text).before) .start lines
  have hsub : (insertedEntries .start lines).Sublist (reportedEntries .start lines) :=
    insertedEntries_sublist .start lines
  rw [List.flatMap, markedLines, map_outputs]
  refine hmarked.nodup_iff.mpr (perm_append_comm.nodup_iff.mp ?_)
  exact ((hfound.nodup_iff.mp (nodup_found .start lines).1).sublist (hsub.append_right _))

/-- Only entry labels are held back. -/
theorem kind_of_pending (lines : List Text) (a : Annotator)
    (h : ∀ label ∈ a.pendingEntryLabel, label.kind = .entry) :
    ∀ label ∈ (lines.foldl step a).pendingEntryLabel, label.kind = .entry := by
  induction lines generalizing a with
  | nil => exact h
  | cons text lines ih =>
    apply ih
    intro label hlabel
    rw [step_pending] at hlabel
    split at hlabel
    · cases hlabel
    · unfold held at hlabel
      split at hlabel
      · rw [← Option.some.inj hlabel]
      · exact h label hlabel

theorem kind_of_held (lines : List Text) (i : Nat) (text : Text) :
    ∀ label ∈ (stateAt lines i).held text, label.kind = .entry := by
  intro label hlabel
  unfold held at hlabel
  split at hlabel
  · rw [← Option.some.inj hlabel]
  · exact kind_of_pending (lines.take i) .start (by simp [start]) label hlabel

/-! ## Main result -/

/-- A line of an entry body that is a barrier or a return has its label, an
entry label follows a line for every body it opens, and labels stand inside
bodies. -/
structure LineLabelled (marked : MarkedLine) (scope : LineScope) : Prop where
  barrier : scope.start.inBody = true → isOpcode "bar.sync".toList scope.opcode = true →
    ∃ label, marked.before.getLast? = some label ∧ label.kind = .barrier
  exit : scope.start.inBody = true → isOpcode "ret".toList scope.opcode = true →
    ∃ label, marked.before.getLast? = some label ∧ label.kind = .exit
  entry : marked.after.length = scope.openings ∧ ∀ label ∈ marked.after, label.kind = .entry
  before_inside : marked.before ≠ [] → scope.start.inBody = true
  after_inside : marked.after ≠ [] → scope.stop.inBody = true

/-- Every line is labelled as it should be, the labels are distinct, and without
them the text is as it was. -/
structure Labelled (ptx : Text) : Prop where
  lines : ∀ (i : Nat) (marked : MarkedLine) (scope : LineScope),
    (markedLines (lines ptx))[i]? = some marked →
    (lineScopes (lines ptx))[i]? = some scope → LineLabelled marked scope
  distinct : (((markedLines (Text.lines ptx)).flatMap MarkedLine.labels).map Label.name).Nodup
  original : (markedLines (Text.lines ptx)).map (·.text) = Text.lines ptx ∧
    annotatePtxWithConcordiaSafePoints ptx =
      (markedLines (Text.lines ptx)).flatMap MarkedLine.render

/-- The code's line tests find the bodies of entries and what is in them. -/
structure LineRecognised (lines : List Text) (i : Nat) (text : Text) (scope : LineScope) :
    Prop where
  barrier : scope.start.inBody = true → isOpcode "bar.sync".toList scope.opcode = true →
    Entered lines i ∧ looksBarrier text = true ∧ looksReturn text = false
  exit : scope.start.inBody = true → isOpcode "ret".toList scope.opcode = true →
    Entered lines i ∧ looksReturn text = true
  opens : (scope.openings = 1 ∧ Awaiting lines i ∧ hasBrace text = true) ∨
    (scope.openings = 0 ∧ ¬ (Awaiting lines i ∧ hasBrace text = true))
  inside : Entered lines i → looksBarrier text = true ∨ looksReturn text = true →
    scope.start.inBody = true
  stays : Awaiting lines i → hasBrace text = true → scope.stop.inBody = true

def Recognised (ptx : Text) : Prop :=
  ∀ (i : Nat) (text : Text) (scope : LineScope), (lines ptx)[i]? = some text →
    (lineScopes (lines ptx))[i]? = some scope → LineRecognised (lines ptx) i text scope

section

variable {lines : List Text} {i : Nat} {text : Text} (htext : lines[i]? = some text)

include htext

/-- The labels before a line, by the flag and the line's tests. -/
theorem before_mark_cases :
    ((∃ label, ((stateAt lines i).mark text).before.getLast? = some label ∧
        label.kind = .barrier) ↔
      Entered lines i ∧ looksBarrier text = true ∧ looksReturn text = false) ∧
    ((∃ label, ((stateAt lines i).mark text).before.getLast? = some label ∧
        label.kind = .exit) ↔ Entered lines i ∧ looksReturn text = true) ∧
    (((stateAt lines i).mark text).before ≠ [] ↔
      Entered lines i ∧ (looksBarrier text = true ∨ looksReturn text = true)) := by
  rw [← entered_iff htext]
  unfold mark
  cases (stateAt lines i).entered text <;> cases looksBarrier text <;>
    cases looksReturn text <;> simp

/-- The labels after a line. -/
theorem after_mark_cases :
    (((stateAt lines i).mark text).after.length = 1 ∧ Awaiting lines i ∧ hasBrace text = true) ∨
      (((stateAt lines i).mark text).after = [] ∧
        ¬ (Awaiting lines i ∧ hasBrace text = true)) := by
  rw [← awaiting_iff htext]
  unfold mark
  cases hbrace : hasBrace text <;> cases hheld : (stateAt lines i).held text <;> simp

theorem lineLabelled_iff (scope : LineScope) :
    LineLabelled ((stateAt lines i).mark text) scope ↔ LineRecognised lines i text scope := by
  obtain ⟨hbarrier, hexit, hbefore⟩ := before_mark_cases htext
  have hkinds : ∀ label ∈ ((stateAt lines i).mark text).after, label.kind = .entry := by
    intro label hlabel
    unfold mark at hlabel
    dsimp only at hlabel
    split at hlabel
    · exact kind_of_held lines i text label (by simpa using hlabel)
    · cases hlabel
  constructor
  · intro h
    refine ⟨fun hin hop => hbarrier.mp (h.barrier hin hop),
      fun hin hop => hexit.mp (h.exit hin hop), ?_, ?_, ?_⟩
    · have hlen := h.entry.1
      rcases after_mark_cases htext with ⟨hone, hyes⟩ | ⟨hnil, hno⟩
      · exact .inl ⟨by rw [← hlen, hone], hyes⟩
      · exact .inr ⟨by rw [← hlen, hnil]; rfl, hno⟩
    · exact fun hentered hlooks => h.before_inside (hbefore.mpr ⟨hentered, hlooks⟩)
    · intro hawaiting hbrace
      refine h.after_inside fun hnil => ?_
      rcases after_mark_cases htext with ⟨hone, _⟩ | ⟨_, hno⟩
      · rw [hnil] at hone
        cases hone
      · exact hno ⟨hawaiting, hbrace⟩
  · intro h
    refine ⟨fun hin hop => hbarrier.mpr (h.barrier hin hop),
      fun hin hop => hexit.mpr (h.exit hin hop), ⟨?_, hkinds⟩, ?_, ?_⟩
    · rcases after_mark_cases htext with ⟨hone, hyes⟩ | ⟨hnil, hno⟩
      · rcases h.opens with ⟨hopen, _⟩ | ⟨_, hnot⟩
        · rw [hone, hopen]
        · exact absurd hyes hnot
      · rcases h.opens with ⟨_, hyes⟩ | ⟨hopen, _⟩
        · exact absurd hyes hno
        · rw [hnil, hopen]
          rfl
    · intro hne
      obtain ⟨hentered, hlooks⟩ := hbefore.mp hne
      exact h.inside hentered hlooks
    · intro hne
      rcases after_mark_cases htext with ⟨_, hawaiting, hbrace⟩ | ⟨hnil, _⟩
      · exact h.stays hawaiting hbrace
      · exact absurd hnil hne

end

/-- A kernel with a nested scope before its barrier and its return. -/
def nestedScope : Text :=
  ".visible .entry k() \x7b\n  \x7b\n    call f;\n  \x7d\n  bar.sync 0;\n  ret;\n\x7d\n".toList

end Concordia.Instrument
