import Concordia.GpuRr.Replayer

/-!
# Continuing to breakpoints

`continue_execution` steps until a step does not just move on. A step that meets a
breakpoint returns before it moves, so the next one meets it again: once a breakpoint is
reached, every further call returns it.
-/

namespace Concordia.GpuRr

open List Nat Bool GpuReplayer

variable {ι ρ : Type}

/-! ## The loop -/

/-- `continue_execution`, with as many rounds as there is fuel. -/
def GpuReplayer.continueFor (g : GpuReplayer ι ρ) : Nat → ReplayResult × GpuReplayer ι ρ
  | 0 => (.stepped, g)
  | n + 1 =>
    match g.step with
    | (.stepped, next) => next.continueFor n
    | other => other

/-- `continue_execution`. Every round that goes on passes a record. -/
def GpuReplayer.continueExecution (g : GpuReplayer ι ρ) : ReplayResult × GpuReplayer ι ρ :=
  g.continueFor (g.recording.records.length + 1)

/-- The replayer before the call with this number. -/
def GpuReplayer.afterContinues (g : GpuReplayer ι ρ) : Nat → GpuReplayer ι ρ
  | 0 => g
  | n + 1 => (g.afterContinues n).continueExecution.2

/-! ## Breakpoints that match -/

/-- Two ranges of bytes have a byte in common. -/
def overlaps (a s b t : Nat) : Bool := max a b < min (a + s) (b + t)

theorem overlaps_iff (a s b t : Nat) :
    overlaps a s b t = true ↔ ∃ x, (a ≤ x ∧ x < a + s) ∧ b ≤ x ∧ x < b + t := by
  rw [overlaps, decide_eq_true_iff]
  constructor
  · intro h
    exact ⟨max a b, by omega⟩
  · rintro ⟨x, hx⟩
    omega

/-- A record that the breakpoint is about: a memory breakpoint is about accesses to its
range. -/
def BreakpointType.matches (bp : BreakpointType) (record : InstructionRecord ρ) : Bool :=
  match bp with
  | .address addr => record.address = addr
  | .sequence seq => record.sequence = seq
  | .memoryAccess memAddr size =>
    match record.memoryAccess with
    | some access =>
      overlaps access.address.toNat access.size.toNat memAddr.toNat size.toNat
    | none => false
  | .condition _ => false

/-- Some enabled breakpoint is about the record. -/
def matching (breakpoints : List Breakpoint) (record : InstructionRecord ρ) : Bool :=
  breakpoints.any fun bp => bp.enabled && bp.bpType.matches record

/-- Some enabled breakpoint stops at the record. -/
def stopping (breakpoints : List Breakpoint) (record : InstructionRecord ρ) : Bool :=
  breakpoints.any fun bp => bp.enabled && bp.bpType.hit record

/-- The calls from the start stop at every record that matches, in order, and then at the
end. -/
def VisitsInOrder (g : GpuReplayer ι ρ) : Prop :=
  let found := g.recording.records.filter (matching g.breakpoints)
  (∀ i, i < found.length → ∃ id, (g.afterContinues i).continueExecution.1 = .breakpoint id ∧
    (g.afterContinues (i + 1)).currentRecord = found[i]?) ∧
  (g.afterContinues found.length).continueExecution.1 = .endOfRecording

/-- No enabled memory breakpoint of size zero lies in the bytes accessed by a record that
steps come to. -/
def NoEmptyRange (breakpoints : List Breakpoint) (records : List (InstructionRecord ρ)) : Prop :=
  ∀ bp ∈ breakpoints, bp.enabled = true → ∀ memAddr, bp.bpType = .memoryAccess memAddr 0 →
    ∀ record ∈ records, bp.bpType.hit record = false

/-- A breakpoint that stops is about the record, unless its range is empty. -/
theorem matches_of_hit {bp : BreakpointType} {record : InstructionRecord ρ}
    (h : bp.hit record = true) :
    bp.matches record = true ∨ ∃ memAddr, bp = .memoryAccess memAddr 0 := by
  cases bp with
  | address addr => exact .inl h
  | sequence seq => exact .inl h
  | memoryAccess memAddr size =>
    by_cases hsize : size = 0
    · exact .inr ⟨memAddr, by rw [hsize]⟩
    · refine .inl ?_
      simp only [BreakpointType.hit, BreakpointType.matches] at h ⊢
      cases haccess : record.memoryAccess with
      | none =>
        rw [haccess] at h
        cases h
      | some access =>
        rw [haccess] at h
        simp only [and_eq_true, decide_eq_true_eq, UInt64.le_iff_toNat_le,
          UInt64.lt_iff_toNat_lt, UInt64.toNat_add] at h
        -- the sum may wrap, which only makes the test stricter
        have hwrap := mod_le (access.address.toNat + access.size.toUInt64.toNat) (2 ^ 64)
        have hpos : 0 < size.toNat := pos_of_ne_zero fun h0 => hsize (UInt32.toNat_inj.mp h0)
        rw [UInt32.toNat_toUInt64] at h hwrap
        exact (overlaps_iff _ _ _ _).mpr ⟨memAddr.toNat, by omega⟩
  | condition text => cases h

variable {breakpoints : List Breakpoint}

/-- Apart from empty ranges, the records that stop are among those that match. -/
theorem not_stopping_iff {records all : List (InstructionRecord ρ)}
    (hsub : ∀ record ∈ records, record ∈ all) :
    ((∀ record ∈ all, matching breakpoints record = false) ∧
      ∀ record ∈ records, stopping breakpoints record = false) ↔
    (∀ record ∈ all, matching breakpoints record = false) ∧
      NoEmptyRange breakpoints records := by
  refine and_congr_right fun hnone => ⟨?_, ?_⟩
  · intro h bp hbp henabled memAddr _ record hrecord
    have hstop := any_eq_false.mp (h record hrecord) bp hbp
    simpa [henabled] using hstop
  · intro h record hrecord
    rw [stopping, any_eq_false]
    intro bp hbp hboth
    obtain ⟨henabled, hhit⟩ := and_eq_true_iff.mp hboth
    rcases matches_of_hit hhit with hmatch | ⟨memAddr, hempty⟩
    · have hno := any_eq_false.mp (hnone record (hsub record hrecord)) bp hbp
      exact hno (and_eq_true_iff.mpr ⟨henabled, hmatch⟩)
    · rw [h bp hbp henabled memAddr hempty record hrecord] at hhit
      cases hhit

/-! ## What a step does -/

theorem checkBreakpoints_of_not_stopping {record : InstructionRecord ρ}
    (h : stopping breakpoints record = false) : checkBreakpoints record breakpoints = none := by
  induction breakpoints with
  | nil => rfl
  | cons bp rest ih =>
    rw [stopping, any_cons, or_eq_false_iff] at h
    rw [checkBreakpoints, h.1, ih h.2]
    rfl

/-- A breakpoint that is met only changes a count. -/
theorem checkBreakpoints_of_stopping {record : InstructionRecord ρ}
    (h : stopping breakpoints record = true) :
    ∃ id after, checkBreakpoints record breakpoints = some (id, after) ∧
      ∀ other : InstructionRecord ρ, stopping after other = stopping breakpoints other := by
  induction breakpoints with
  | nil => cases h
  | cons bp rest ih =>
    rw [checkBreakpoints]
    by_cases hbp : (bp.enabled && bp.bpType.hit record) = true
    · rw [if_pos hbp]
      exact ⟨_, _, rfl, fun _ => rfl⟩
    · rw [if_neg hbp]
      have hrest : stopping rest record = true := by
        rw [stopping, any_cons, or_eq_true] at h
        exact h.resolve_left hbp
      obtain ⟨id, after, hcheck, hsame⟩ := ih hrest
      refine ⟨id, bp :: after, by rw [hcheck]; rfl, fun other => ?_⟩
      have hother := hsame other
      simp only [stopping, any_cons] at hother ⊢
      rw [hother]

section

variable {g : GpuReplayer ι ρ} {record : InstructionRecord ρ}

/-- A step at a record that stops stays there. -/
theorem step_of_stopping (h : g.currentRecord = some record)
    (hstop : stopping g.breakpoints record = true) :
    ∃ id next, g.step = (.breakpoint id, next) ∧ next.recording = g.recording ∧
      next.position = g.position ∧
      ∀ other : InstructionRecord ρ,
        stopping next.breakpoints other = stopping g.breakpoints other := by
  obtain ⟨id, after, hcheck, hsame⟩ := checkBreakpoints_of_stopping hstop
  have hcheck : checkBreakpoints record (g.setRegisters record.registersAfter).breakpoints =
      some (id, after) := hcheck
  refine ⟨id, { g.setRegisters record.registersAfter with breakpoints := after }, ?_, rfl, rfl,
    hsame⟩
  rw [step, h]
  simp only [hcheck]

/-- A step at another record passes it, and ends the recording only when nothing is
ahead. -/
theorem step_of_not_stopping (h : g.currentRecord = some record)
    (hgo : stopping g.breakpoints record = false) :
    g.step.2.recording = g.recording ∧ g.step.2.breakpoints = g.breakpoints ∧
      g.ahead = record :: g.step.2.ahead ∧
      (g.step.1 = .stepped ∨ g.step.1 = .endOfRecording ∧ g.step.2.ahead = []) := by
  rw [step_of_check h (checkBreakpoints_of_not_stopping hgo)]
  refine ⟨rfl, rfl, ahead_advance h record.sequence, ?_⟩
  simp only [advance]
  split
  · simp only
    split
    · rename_i hlast
      refine .inr ⟨rfl, ?_⟩
      simp only [GpuReplayer.ahead, ahead, GpuReplayer.setRegisters]
      rw [drop_eq_nil_of_le hlast]
    · exact .inl rfl
  · exact .inl rfl

end

/-! ## What a call returns -/

/-- With nothing to stop at, a call comes to the end. -/
theorem continueFor_end {g : GpuReplayer ι ρ} {n : Nat} (hn : g.ahead.length < n)
    (hgo : ∀ record ∈ g.ahead, stopping g.breakpoints record = false) :
    (g.continueFor n).1 = .endOfRecording := by
  induction n generalizing g with
  | zero => omega
  | succ n ih =>
    rw [continueFor]
    cases hrecord : g.currentRecord with
    | none => rw [step_of_no_record hrecord]
    | some record =>
      have hmem : record ∈ g.ahead := mem_of_mem_head? (head?_ahead_eq g ▸ hrecord)
      obtain ⟨_, hbps, hahead, hresult⟩ := step_of_not_stopping hrecord (hgo record hmem)
      rcases hstep : g.step with ⟨result, next⟩
      rw [hstep] at hbps hahead hresult
      rcases hresult with rfl | ⟨rfl, _⟩
      · refine ih ?_ ?_
        · rw [hahead, length_cons] at hn
          exact lt_of_succ_lt_succ hn
        · intro other hother
          rw [hbps]
          exact hgo other (hahead ▸ mem_cons_of_mem record hother)
      · rfl

/-- With something to stop at, a call returns a breakpoint, and there is still something
to stop at. -/
theorem continueFor_breakpoint {g : GpuReplayer ι ρ} {n : Nat} (hn : g.ahead.length < n)
    (hstop : ∃ record ∈ g.ahead, stopping g.breakpoints record = true) :
    (∃ id, (g.continueFor n).1 = .breakpoint id) ∧
      (g.continueFor n).2.recording = g.recording ∧
      ∃ record ∈ (g.continueFor n).2.ahead,
        stopping (g.continueFor n).2.breakpoints record = true := by
  induction n generalizing g with
  | zero => omega
  | succ n ih =>
    obtain ⟨target, htarget, hstop⟩ := hstop
    rw [continueFor]
    cases hrecord : g.currentRecord with
    | none =>
      rw [GpuReplayer.ahead, ahead_of_no_record hrecord] at htarget
      cases htarget
    | some record =>
      cases hhere : stopping g.breakpoints record with
      | true =>
        obtain ⟨id, next, hstep, hrecording, hposition, hsame⟩ := step_of_stopping hrecord hhere
        rw [hstep]
        refine ⟨⟨id, rfl⟩, hrecording, record, ?_, by rw [hsame, hhere]⟩
        have hahead : next.ahead = g.ahead := by
          rw [GpuReplayer.ahead, GpuReplayer.ahead, hrecording, hposition]
        rw [hahead]
        exact mem_of_mem_head? (head?_ahead_eq g ▸ hrecord)
      | false =>
        obtain ⟨hrecording, hbps, hahead, hresult⟩ := step_of_not_stopping hrecord hhere
        have hlater : target ∈ g.step.2.ahead := by
          rw [hahead] at htarget
          rcases mem_cons.mp htarget with rfl | hlater
          · rw [hhere] at hstop
            cases hstop
          · exact hlater
        rcases hstep : g.step with ⟨result, next⟩
        rw [hstep] at hrecording hbps hahead hresult hlater
        rcases hresult with rfl | ⟨rfl, hnil⟩
        · rw [← hrecording]
          refine ih ?_ ⟨target, hlater, hbps ▸ hstop⟩
          rw [hahead, length_cons] at hn
          exact lt_of_succ_lt_succ hn
        · rw [show next.ahead = [] from hnil] at hlater
          cases hlater

/-- The fuel of a call is enough. -/
theorem length_ahead_lt (g : GpuReplayer ι ρ) :
    g.ahead.length < g.recording.records.length + 1 := by
  have hfront : ∀ kernels : List (KernelRecording ι ρ),
      (front kernels).length ≤ (kernels.flatMap (·.executionRecords)).length := by
    intro kernels
    induction kernels with
    | nil => exact le_refl _
    | cons k kernels ih =>
      by_cases hk : k.executionRecords = []
      · rw [front_cons_of_empty hk]
        exact zero_le _
      · rw [front_cons_of_records hk, flatMap_cons, length_append, length_append]
        omega
  have hdrop : ((g.recording.kernels.drop g.position.kernelIndex).flatMap
      (·.executionRecords)).length ≤ g.recording.records.length := by
    have hsplit := congrArg (List.flatMap (·.executionRecords))
      (take_append_drop g.position.kernelIndex g.recording.kernels)
    rw [flatMap_append] at hsplit
    rw [GpuRecording.records, ← hsplit, length_append]
    omega
  refine lt_succ_of_le (le_trans ?_ hdrop)
  simp only [GpuReplayer.ahead, ahead]
  cases g.recording.kernels.drop g.position.kernelIndex with
  | nil => exact zero_le _
  | cons kernel later =>
    have hlater := hfront later
    have hrest := length_drop (l := kernel.executionRecords) (i := g.position.recordIndex)
    simp only [flatMap_cons, length_append]
    split
    · exact zero_le _
    · simp only [length_append]
      omega

/-- Once something stops the replay, every call returns a breakpoint. -/
theorem always_breakpoint {g : GpuReplayer ι ρ}
    (hstop : ∃ record ∈ g.ahead, stopping g.breakpoints record = true) (i : Nat) :
    (∃ record ∈ (g.afterContinues i).ahead,
      stopping (g.afterContinues i).breakpoints record = true) ∧
    ∃ id, (g.afterContinues i).continueExecution.1 = .breakpoint id := by
  induction i with
  | zero => exact ⟨hstop, (continueFor_breakpoint (length_ahead_lt _) hstop).1⟩
  | succ i ih =>
    have hnext := (continueFor_breakpoint (length_ahead_lt _) ih.1).2.2
    exact ⟨hnext, (continueFor_breakpoint (length_ahead_lt _) hnext).1⟩

/-- The records that steps come to are records of the recording. -/
theorem mem_records_of_mem_front {recording : GpuRecording ι ρ} {record : InstructionRecord ρ}
    (h : record ∈ front recording.kernels) : record ∈ recording.records := by
  obtain ⟨kernel, hkernel, hrecord⟩ := mem_flatMap.mp h
  exact mem_flatMap.mpr ⟨kernel, takeWhile_subset _ hkernel, hrecord⟩

/-- **Continuing.** The calls visit the matching records in order and end exactly when no
record matches a breakpoint, and no memory breakpoint with an empty range lies in the
bytes of an access that steps come to. -/
theorem visitsInOrder_iff (recording : GpuRecording ι ρ) (breakpoints : List Breakpoint)
    (registerState : ρ) :
    VisitsInOrder (load recording breakpoints registerState) ↔
      (∀ record ∈ recording.records, matching breakpoints record = false) ∧
        NoEmptyRange breakpoints (front recording.kernels) := by
  have hahead : (load recording breakpoints registerState).ahead =
      front recording.kernels := by
    rw [GpuReplayer.ahead, GpuReplayer.load, ReplayPosition.start, ahead_zero, drop_zero]
  rw [← not_stopping_iff fun record hrecord => mem_records_of_mem_front hrecord]
  constructor
  · rintro ⟨hvisits, hend⟩
    have hgo : ∀ record ∈ front recording.kernels, stopping breakpoints record = false := by
      intro record hrecord
      by_contra hstop
      obtain ⟨-, id, hid⟩ := always_breakpoint
        (g := load recording breakpoints registerState)
        ⟨record, hahead ▸ hrecord, eq_true_of_not_eq_false hstop⟩
        (recording.records.filter (matching breakpoints)).length
      have hboth := hid.symm.trans hend
      cases hboth
    refine ⟨?_, hgo⟩
    -- the first call comes to the end, so nothing may match
    have hfirst := continueFor_end (length_ahead_lt _) (hahead ▸ hgo)
    have hnone : recording.records.filter (matching breakpoints) = [] := by
      by_contra hsome
      obtain ⟨id, hid, -⟩ := hvisits 0 (length_pos_iff.mpr hsome)
      have hboth := hid.symm.trans hfirst
      cases hboth
    intro record hrecord
    have hno := filter_eq_nil_iff.mp hnone record hrecord
    exact eq_false_iff.mpr hno
  · rintro ⟨hnone, hgo⟩
    have hfound : (load recording breakpoints registerState).recording.records.filter
        (matching breakpoints) = [] :=
      filter_eq_nil_iff.mpr fun record hrecord => eq_false_iff.mp (hnone record hrecord)
    have hend := continueFor_end (length_ahead_lt _) (hahead ▸ hgo)
    refine ⟨fun i hi => ?_, ?_⟩
    · change i < (recording.records.filter (matching breakpoints)).length at hi
      rw [show recording.records.filter (matching breakpoints) = [] from hfound] at hi
      cases hi
    · change ((load recording breakpoints registerState).afterContinues
        (recording.records.filter (matching breakpoints)).length).continueExecution.1 = _
      rw [show recording.records.filter (matching breakpoints) = [] from hfound]
      exact hend

/-- One record and a breakpoint on it: the second call does not come to the end. -/
theorem breakpoint_returned_twice :
    ((load ⟨[bareKernel [0]], [], 0⟩ [⟨7, .sequence 0, true, 0⟩] ()).afterContinues
      0).continueExecution.1 = .breakpoint 7 ∧
    ((load ⟨[bareKernel [0]], [], 0⟩ [⟨7, .sequence 0, true, 0⟩] ()).afterContinues
      1).continueExecution.1 = .breakpoint 7 := by
  decide

end Concordia.GpuRr
