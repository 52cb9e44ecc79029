import Concordia.Instrument.SafePoints

/-!
# Discovery and annotation

Both scanners number the labels alike, and give barriers and exits the same
lines (`discover_eq`). They part on entry labels: discovery reports one for
every header, the annotator drops one that meets another header, a closing
brace or the end of the text before an opening brace.
-/

namespace Concordia.Instrument

open Concordia.Lib List Nat Text

/-! ## Label names -/

theorem Label.name_injective : Function.Injective name := by
  intro first second h
  obtain ⟨kind, index⟩ := first
  obtain ⟨kind', index'⟩ := second
  -- the stems differ within their first 19 characters
  have htake : ∀ kind index, (name ⟨kind, index⟩).take 19 = kind.stem.take 19 := by
    intro kind index
    have hlen : 19 ≤ kind.stem.length := by cases kind <;> decide +kernel
    rw [name, take_append_of_le_length hlen]
  have hstem : kind.stem.take 19 = kind'.stem.take 19 := by
    rw [← htake kind index, h, htake]
  have hkind : kind = kind' := by
    cases kind <;> cases kind' <;> first | rfl | exact absurd hstem (by decide +kernel)
  subst hkind
  have hindex : index = index' := decimal_inj (append_cancel_left h)
  rw [hindex]

open Label

/-! ## What discovery reports -/

/-- A reported label. -/
def Label.at (line : Nat) (label : Label) : SafePoint where
  kind := label.kind
  line := line
  label := label.name

/-- The entry label of a header. -/
def Annotator.opened (a : Annotator) (text : Text) : List Label :=
  if looksEntry text then [⟨.entry, a.entryIndex⟩] else []

open Annotator

/-- The labels reported for a line. -/
def Annotator.found (a : Annotator) (text : Text) : List Label :=
  a.opened text ++ (a.mark text).before

/-- The two scanners are in the same place. -/
structure InStep (d : Discovery) (a : Annotator) : Prop where
  inEntry : d.inEntry = a.inEntry
  entryIndex : d.entryIndex = a.entryIndex
  barrierIndex : d.barrierIndex = a.barrierIndex
  exitIndex : d.exitIndex = a.exitIndex

theorem InStep.step {d : Discovery} {a : Annotator} (h : InStep d a) (text : Text) (line : Nat) :
    InStep (d.step (text, line)) (a.step text) ∧
      (d.step (text, line)).safePoints = d.safePoints ++ (a.found text).map (Label.at line) := by
  obtain ⟨hin, hentry, hbarrier, hexit⟩ := h
  rw [step_eq]
  cases hlooks : looksEntry text <;> cases hbar : looksBarrier text <;>
    cases hret : looksReturn text <;> cases hclosing : looksClosing text <;>
    cases hflag : a.inEntry <;>
    exact ⟨⟨by simp [Discovery.step, Discovery.push, entered, *],
        by simp [Discovery.step, Discovery.push, *],
        by simp [Discovery.step, Discovery.push, entered, *],
        by simp [Discovery.step, Discovery.push, entered, *]⟩,
      by simp [Discovery.step, Discovery.push, found, opened, mark,
        entered, Label.at, *]⟩

/-- The reports for the lines from number `line` on. -/
def reports (a : Annotator) (line : Nat) (lines : List Text) : List SafePoint :=
  ((outputs step found a lines).zipIdx line).flatMap fun entry =>
    entry.1.map (Label.at entry.2)

theorem InStep.foldl {d : Discovery} {a : Annotator} (h : InStep d a) (line : Nat)
    (lines : List Text) :
    ((lines.zipIdx line).foldl Discovery.step d).safePoints =
      d.safePoints ++ reports a line lines := by
  induction lines generalizing d a line with
  | nil => simp [reports, outputs]
  | cons text lines ih =>
    obtain ⟨hstep, hpoints⟩ := h.step text line
    rw [zipIdx_cons, foldl_cons, ih hstep, hpoints, append_assoc]
    rfl

/-- Discovery reports, line by line, the entry label of a header and the labels
that the annotator inserts before the line. -/
theorem discover_eq (ptx : Text) :
    discoverPtxSafePoints ptx = reports .start 0 (lines ptx) :=
  InStep.foldl ⟨rfl, rfl, rfl, rfl⟩ 0 (lines ptx)

theorem mem_discover_iff (ptx : Text) (point : SafePoint) :
    point ∈ discoverPtxSafePoints ptx ↔ ∃ i text, (lines ptx)[i]? = some text ∧
      ∃ label ∈ (stateAt (lines ptx) i).found text, point = label.at i := by
  rw [discover_eq, reports, mem_flatMap]
  constructor
  · rintro ⟨⟨labels, i⟩, hmem, hpoint⟩
    obtain ⟨label, hlabel, rfl⟩ := mem_map.mp hpoint
    have hget := mem_zipIdx_iff_getElem?.mp hmem
    rw [getElem?_outputs] at hget
    obtain ⟨text, htext, hlabels⟩ := Option.map_eq_some_iff.mp hget
    exact ⟨i, text, htext, label, hlabels.symm ▸ hlabel, rfl⟩
  · rintro ⟨i, text, htext, label, hlabel, rfl⟩
    refine ⟨((stateAt (lines ptx) i).found text, i), ?_, mem_map_of_mem hlabel⟩
    rw [mem_zipIdx_iff_getElem?, getElem?_outputs, htext]
    rfl

theorem map_label_reports (a : Annotator) (line : Nat) (lines : List Text) :
    (reports a line lines).map (·.label) =
      (outputs step found a lines).flatten.map name := by
  induction lines generalizing a line with
  | nil => rfl
  | cons text lines ih =>
    have hcons : reports a line (text :: lines) =
        (a.found text).map (Label.at line) ++ reports (a.step text) (line + 1) lines := rfl
    rw [hcons, map_append, ih, outputs, flatten_cons, map_append, map_map]
    rfl

/-! ## Entry labels -/

/-- The entry labels reported from here on. -/
def reportedEntries (a : Annotator) (lines : List Text) : List Label :=
  (outputs step opened a lines).flatten

/-- The entry labels inserted from here on. -/
def insertedEntries (a : Annotator) (lines : List Text) : List Label :=
  (outputs step (fun a text => (a.mark text).after) a lines).flatten

theorem insertedEntries_cons (a : Annotator) (text : Text) (lines : List Text) :
    insertedEntries a (text :: lines) =
      (if hasBrace text then (a.held text).toList else []) ++
        insertedEntries (a.step text) lines := rfl

theorem reportedEntries_cons (a : Annotator) (text : Text) (lines : List Text) :
    reportedEntries a (text :: lines) =
      a.opened text ++ reportedEntries (a.step text) lines := rfl

theorem held_sublist (a : Annotator) (text : Text) :
    (a.held text).toList.Sublist (a.pendingEntryLabel.toList ++ a.opened text) := by
  unfold held opened
  split
  · exact sublist_append_right _ _
  · exact sublist_append_left _ _

/-- Only labels held back or reported are inserted, in this order. -/
theorem insertedEntries_sublist (a : Annotator) (lines : List Text) :
    (insertedEntries a lines).Sublist (a.pendingEntryLabel.toList ++ reportedEntries a lines) := by
  induction lines generalizing a with
  | nil => exact nil_sublist _
  | cons text lines ih =>
    rw [insertedEntries_cons, reportedEntries_cons, ← append_assoc]
    have hrest := ih (a.step text)
    rw [step_pending] at hrest
    cases hbrace : hasBrace text with
    | true =>
      simp only [hbrace, Bool.true_or, if_true, Option.toList_none, nil_append] at hrest ⊢
      exact (held_sublist a text).append hrest
    | false =>
      simp only [hbrace, Bool.false_or, Bool.false_eq_true, if_false, nil_append] at hrest ⊢
      split at hrest
      · exact hrest.trans (sublist_append_right _ _)
      · exact hrest.trans ((held_sublist a text).append_right _)

/-- A line with an opening brace comes before any that starts with a closing
one, and no header up to it. -/
def OpensNext (lines : List Text) : Prop :=
  ∃ k, LineIs hasBrace lines k ∧ (∀ m, m < k → ¬ LineIs looksClosing lines m) ∧
    ∀ m, m ≤ k → ¬ LineIs looksEntry lines m

/-- After the header at `j` a line with an opening brace comes before any other
header and any line that starts with a closing brace. -/
def OpensAfter (lines : List Text) (j : Nat) : Prop :=
  ∃ k, j ≤ k ∧ LineIs hasBrace lines k ∧
    (∀ m, j ≤ m → m < k → ¬ LineIs looksClosing lines m) ∧
    ∀ m, j < m → m ≤ k → ¬ LineIs looksEntry lines m

theorem lineIs_zero (p : Text → Bool) (text : Text) (lines : List Text) :
    LineIs p (text :: lines) 0 ↔ p text = true := lineIs_iff rfl

theorem lineIs_succ (p : Text → Bool) (text : Text) (lines : List Text) (i : Nat) :
    LineIs p (text :: lines) (i + 1) ↔ LineIs p lines i := by
  simp [LineIs]

theorem opensAfter_zero (text : Text) (lines : List Text) :
    OpensAfter (text :: lines) 0 ↔
      hasBrace text = true ∨ looksClosing text = false ∧ OpensNext lines := by
  constructor
  · rintro ⟨k, _, hbrace, hclosing, hentry⟩
    cases k with
    | zero => exact .inl ((lineIs_zero _ _ _).mp hbrace)
    | succ k =>
      refine .inr ⟨?_, k, (lineIs_succ _ _ _ k).mp hbrace, ?_, ?_⟩
      · have := hclosing 0 le_rfl (succ_pos k)
        rw [lineIs_zero] at this
        simpa using this
      · intro m hm
        rw [← lineIs_succ _ text]
        exact hclosing (m + 1) (zero_le _) (by omega)
      · intro m hm
        rw [← lineIs_succ _ text]
        exact hentry (m + 1) (succ_pos m) (by omega)
  · rintro (hbrace | ⟨hnot, k, hbrace, hclosing, hentry⟩)
    · exact ⟨0, le_rfl, (lineIs_zero _ _ _).mpr hbrace, fun m _ hm => absurd hm (not_lt_zero m),
        fun m hm hm' => by omega⟩
    · refine ⟨k + 1, zero_le _, (lineIs_succ _ _ _ k).mpr hbrace, ?_, ?_⟩
      · intro m _ hm
        cases m with
        | zero => rw [lineIs_zero, hnot]; exact Bool.false_ne_true
        | succ m => rw [lineIs_succ]; exact hclosing m (by omega)
      · intro m hm hm'
        obtain ⟨m, rfl⟩ := exists_eq_succ_of_ne_zero (by omega : m ≠ 0)
        rw [lineIs_succ]
        exact hentry m (by omega)

theorem opensNext_cons (text : Text) (lines : List Text) :
    OpensNext (text :: lines) ↔ looksEntry text = false ∧ OpensAfter (text :: lines) 0 := by
  constructor
  · rintro ⟨k, hbrace, hclosing, hentry⟩
    have h0 := hentry 0 (zero_le k)
    rw [lineIs_zero] at h0
    exact ⟨by simpa using h0, k, zero_le k, hbrace, fun m _ => hclosing m,
      fun m _ => hentry m⟩
  · rintro ⟨h0, k, _, hbrace, hclosing, hentry⟩
    refine ⟨k, hbrace, fun m => hclosing m (zero_le m), fun m hm => ?_⟩
    cases m with
    | zero => rw [lineIs_zero, h0]; exact Bool.false_ne_true
    | succ m => exact hentry (m + 1) (succ_pos m) hm

theorem opensAfter_succ (text : Text) (lines : List Text) (j : Nat) :
    OpensAfter (text :: lines) (j + 1) ↔ OpensAfter lines j := by
  constructor
  · rintro ⟨k, hk, hbrace, hclosing, hentry⟩
    obtain ⟨k, rfl⟩ := exists_eq_succ_of_ne_zero (by omega : k ≠ 0)
    refine ⟨k, by omega, (lineIs_succ _ text _ k).mp hbrace, fun m hm hm' => ?_,
      fun m hm hm' => ?_⟩
    · rw [← lineIs_succ _ text]
      exact hclosing (m + 1) (by omega) (by omega)
    · rw [← lineIs_succ _ text]
      exact hentry (m + 1) (by omega) (by omega)
  · rintro ⟨k, hk, hbrace, hclosing, hentry⟩
    refine ⟨k + 1, by omega, (lineIs_succ _ text _ k).mpr hbrace, fun m hm hm' => ?_,
      fun m hm hm' => ?_⟩ <;> obtain ⟨m, rfl⟩ := exists_eq_succ_of_ne_zero (by omega : m ≠ 0)
    · rw [lineIs_succ]
      exact hclosing m (by omega) (by omega)
    · rw [lineIs_succ]
      exact hentry m (by omega) (by omega)

/-- No label is dropped exactly when the one held back and every header meet an
opening brace in time. -/
theorem length_insertedEntries_iff (a : Annotator)
    (hin : a.pendingEntryLabel ≠ none → a.inEntry = true) (lines : List Text) :
    (insertedEntries a lines).length =
        (a.pendingEntryLabel.toList ++ reportedEntries a lines).length ↔
      (a.pendingEntryLabel ≠ none → OpensNext lines) ∧
        ∀ j, LineIs looksEntry lines j → OpensAfter lines j := by
  induction lines generalizing a with
  | nil =>
    cases a.pendingEntryLabel <;>
      simp [insertedEntries, reportedEntries, outputs, OpensNext, LineIs]
  | cons text lines ih =>
    have hin' := inEntry_of_pending [text] a hin
    have hrest := ih (a.step text) hin'
    have hle := (insertedEntries_sublist (a.step text) lines).length_le
    have hheaders : (∀ j, LineIs looksEntry (text :: lines) j → OpensAfter (text :: lines) j) ↔
        (looksEntry text = true → OpensAfter (text :: lines) 0) ∧
          ∀ j, LineIs looksEntry lines j → OpensAfter lines j := by
      constructor
      · intro h
        refine ⟨fun h0 => h 0 ((lineIs_zero _ _ _).mpr h0), fun j hj => ?_⟩
        exact (opensAfter_succ text lines j).mp (h (j + 1) ((lineIs_succ _ text _ j).mpr hj))
      · rintro ⟨h0, h⟩ j hj
        cases j with
        | zero => exact h0 ((lineIs_zero _ _ _).mp hj)
        | succ j => exact (opensAfter_succ text lines j).mpr (h j ((lineIs_succ _ text _ j).mp hj))
    rw [insertedEntries_cons, reportedEntries_cons, hheaders, opensNext_cons, opensAfter_zero]
    rw [step_pending] at hrest hle
    generalize insertedEntries (a.step text) lines = inserted at hrest hle ⊢
    generalize reportedEntries (a.step text) lines = reported at hrest hle ⊢
    cases hentry : looksEntry text <;> cases hbrace : hasBrace text <;>
      cases hclosing : looksClosing text <;> cases hpending : a.pendingEntryLabel <;>
      cases hflag : a.inEntry <;>
      simp_all [held, opened, entered] <;> omega

/-! ## Main result -/

/-- The labels inserted are those reported, and each barrier and exit label
stands immediately before the line it is reported for. -/
structure Agrees (ptx : Text) : Prop where
  labels : ((discoverPtxSafePoints ptx).map (·.label)).Perm
    (((markedLines (lines ptx)).flatMap MarkedLine.labels).map name)
  places : ∀ point ∈ discoverPtxSafePoints ptx, point.kind ≠ .entry →
    ∃ marked, (markedLines (lines ptx))[point.line]? = some marked ∧
      ∃ label, marked.before.getLast? = some label ∧ label.kind = point.kind ∧
        label.name = point.label

/-- Reported and inserted labels differ in the entry labels only. -/
theorem labels_perm_iff (lines : List Text) :
    ((outputs step found .start lines).flatten.map name).Perm
        (((markedLines lines).flatMap MarkedLine.labels).map name) ↔
      (reportedEntries .start lines).Perm (insertedEntries .start lines) := by
  rw [map_perm_map_iff name_injective, List.flatMap, markedLines, map_outputs]
  have hfound := flatten_outputs_append_perm step opened
    (fun a text => (a.mark text).before) .start lines
  have hmarked := (flatten_outputs_append_perm step
    (fun a text => (a.mark text).before) (fun a text => (a.mark text).after) .start lines).trans
      perm_append_comm
  constructor
  · intro h
    exact (perm_append_right_iff _).mp (hfound.symm.trans (h.trans hmarked))
  · intro h
    exact hfound.trans ((h.append_right _).trans hmarked.symm)

theorem entries_perm_iff (lines : List Text) :
    (reportedEntries .start lines).Perm (insertedEntries .start lines) ↔
      ∀ j, LineIs looksEntry lines j → OpensAfter lines j := by
  have hsub := insertedEntries_sublist .start lines
  have hlen := length_insertedEntries_iff .start (by simp [start]) lines
  have hnone : start.pendingEntryLabel = none := rfl
  simp only [hnone, Option.toList_none, nil_append, ne_eq, not_true_eq_false,
    false_implies, true_and] at hsub hlen
  rw [← hlen]
  constructor
  · exact fun h => h.length_eq.symm
  · intro h
    rw [hsub.eq_of_length h]

/-- The label immediately before a line is the exit label if there is one. -/
theorem places_iff (ptx : Text) :
    (∀ point ∈ discoverPtxSafePoints ptx, point.kind ≠ .entry →
      ∃ marked, (markedLines (lines ptx))[point.line]? = some marked ∧
        ∃ label, marked.before.getLast? = some label ∧ label.kind = point.kind ∧
          label.name = point.label) ↔
      ∀ i, Entered (lines ptx) i → LineIs looksBarrier (lines ptx) i →
        ¬ LineIs looksReturn (lines ptx) i := by
  constructor
  · intro h i hentered hbarrier hreturn
    obtain ⟨text, htext, hbar⟩ := hbarrier
    have hflag := (entered_iff htext).mpr hentered
    have hret := (lineIs_iff htext).mp hreturn
    have hbefore : ((stateAt (lines ptx) i).mark text).before =
        [⟨.barrier, (stateAt (lines ptx) i).barrierIndex⟩,
          ⟨.exit, (stateAt (lines ptx) i).exitIndex⟩] := by
      simp [mark, hflag, hbar, hret]
    have hpoint := (mem_discover_iff ptx _).mpr ⟨i, text, htext,
      ⟨.barrier, (stateAt (lines ptx) i).barrierIndex⟩,
      by simp [found, hbefore], rfl⟩
    obtain ⟨marked, hmarked, label, hlast, hkind, _⟩ := h _ hpoint (by simp [Label.at])
    rw [show (Label.at i _).line = i from rfl, getElem?_markedLines, htext] at hmarked
    obtain rfl := Option.some.inj hmarked
    rw [hbefore] at hlast
    obtain rfl := Option.some.inj hlast
    cases hkind
  · intro h point hpoint hkind
    obtain ⟨i, text, htext, label, hlabel, rfl⟩ := (mem_discover_iff ptx point).mp hpoint
    refine ⟨(stateAt (lines ptx) i).mark text, ?_, label, ?_, rfl, rfl⟩
    · rw [show (Label.at i label).line = i from rfl, getElem?_markedLines, htext]
      rfl
    · have hnot : (stateAt (lines ptx) i).entered text = true → looksBarrier text = true →
          looksReturn text ≠ true := by
        intro hflag hbar hret
        exact h i ((entered_iff htext).mp hflag) ((lineIs_iff htext).mpr hbar)
          ((lineIs_iff htext).mpr hret)
      have hbefore : label ∈ ((stateAt (lines ptx) i).mark text).before := by
        rcases mem_append.mp hlabel with hopened | hbefore
        · unfold opened at hopened
          split at hopened
          · rw [mem_singleton.mp hopened] at hkind
            exact absurd rfl hkind
          · cases hopened
        · exact hbefore
      unfold mark at hbefore ⊢
      cases hflag : (stateAt (lines ptx) i).entered text <;>
        cases hbar : looksBarrier text <;> cases hret : looksReturn text <;> simp_all

/-- **Discovery and annotation.** They agree exactly when after every line that
looks like an entry header a line with an opening brace comes before another
header and before a line that starts with a closing brace, and no line that
counts as inside an entry looks like a barrier and like a return. -/
theorem discover_annotate_agree_iff (ptx : Text) :
    Agrees ptx ↔
      (∀ j, LineIs looksEntry (lines ptx) j → OpensAfter (lines ptx) j) ∧
      ∀ i, Entered (lines ptx) i → LineIs looksBarrier (lines ptx) i →
        ¬ LineIs looksReturn (lines ptx) i := by
  rw [← places_iff, ← entries_perm_iff, ← labels_perm_iff, ← map_label_reports .start 0,
    ← discover_eq]
  constructor
  · exact fun h => ⟨h.labels, h.places⟩
  · exact fun h => ⟨h.1, h.2⟩

/-- A module whose comment mentions an entry. -/
def commentedModule : Text :=
  "// .entry follows\n.visible .entry k() \x7b\n    ret;\n\x7d\n".toList

/-- Two entry labels are reported, one is inserted. -/
theorem not_agrees_commentedModule : ¬ Agrees commentedModule := by
  intro h
  have hlen := h.labels.length_eq
  revert hlen
  decide +kernel

end Concordia.Instrument
