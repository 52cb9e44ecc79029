import Concordia.GpuRr.Recorder

/-!
# The GPU replayer

`GpuReplayer` walks through a recording by a kernel index and a record index. A step
forward that finds no record under the position stops there, also when later kernels hold
records; and it sets the position's sequence number from the record it leaves, while a
step backward reads it from the record it comes to.
-/

namespace Concordia.GpuRr

open List Option GpuRecording

/-- `ReplayPosition`. -/
structure ReplayPosition where
  kernelIndex : Nat
  recordIndex : Nat
  sequence : UInt64
  deriving DecidableEq, Repr

inductive BreakpointType where
  | address (address : UInt64)
  | sequence (sequence : UInt64)
  | memoryAccess (address : UInt64) (size : UInt32)
  | condition (text : String)
  deriving DecidableEq, Repr

structure Breakpoint where
  id : UInt32
  bpType : BreakpointType
  enabled : Bool
  hitCount : Nat
  deriving DecidableEq, Repr

inductive ReplayResult where
  | endOfRecording
  | breakpoint (id : UInt32)
  | stepped
  | startOfRecording
  | error (message : String)
  deriving DecidableEq, Repr

structure GpuReplayer (ι ρ : Type) where
  recording : GpuRecording ι ρ
  position : ReplayPosition
  breakpoints : List Breakpoint
  registerState : ρ

open GpuReplayer

variable {ι ρ : Type}

/-- `ReplayPosition::default`. -/
def ReplayPosition.start : ReplayPosition := ⟨0, 0, 0⟩

def GpuReplayer.load (recording : GpuRecording ι ρ) (breakpoints : List Breakpoint)
    (registerState : ρ) : GpuReplayer ι ρ := ⟨recording, .start, breakpoints, registerState⟩

/-- The record under a pair of indices. -/
def recordAt (kernels : List (KernelRecording ι ρ)) (k r : Nat) : Option (InstructionRecord ρ) :=
  kernels[k]?.bind (·.executionRecords[r]?)

/-- `current_record`. -/
def GpuReplayer.currentRecord (g : GpuReplayer ι ρ) : Option (InstructionRecord ρ) :=
  recordAt g.recording.kernels g.position.kernelIndex g.position.recordIndex

/-- Whether a breakpoint matches a record. The size of a memory breakpoint is not used. -/
def BreakpointType.hit (bp : BreakpointType) (record : InstructionRecord ρ) : Bool :=
  match bp with
  | .address addr => record.address = addr
  | .sequence seq => record.sequence = seq
  | .memoryAccess memAddr _ =>
    match record.memoryAccess with
    | some access => access.address ≤ memAddr && memAddr < access.address + access.size.toUInt64
    | none => false
  | .condition _ => false

/-- The first enabled breakpoint that matches, with its count raised. -/
def checkBreakpoints (record : InstructionRecord ρ) :
    List Breakpoint → Option (UInt32 × List Breakpoint)
  | [] => none
  | bp :: rest =>
    if bp.enabled && bp.bpType.hit record then
      some (bp.id, { bp with hitCount := bp.hitCount + 1 } :: rest)
    else (checkBreakpoints record rest).map fun p => (p.1, bp :: p.2)

/-- The registers, if the record has them. -/
def GpuReplayer.setRegisters (g : GpuReplayer ι ρ) (registers : Option ρ) : GpuReplayer ι ρ :=
  { g with registerState := registers.getD g.registerState }

/-- The position after the record with this sequence number. -/
def advance (kernels : List (KernelRecording ι ρ)) (position : ReplayPosition) (sequence : UInt64) :
    ReplayResult × ReplayPosition :=
  let kernelLen := (kernels[position.kernelIndex]?.map (·.executionRecords.length)).getD 0
  if kernelLen ≤ position.recordIndex + 1 then
    let next : ReplayPosition := ⟨position.kernelIndex + 1, 0, sequence + 1⟩
    (if kernels.length ≤ next.kernelIndex then .endOfRecording else .stepped, next)
  else (.stepped, ⟨position.kernelIndex, position.recordIndex + 1, sequence + 1⟩)

/-- `step`. -/
def GpuReplayer.step (g : GpuReplayer ι ρ) : ReplayResult × GpuReplayer ι ρ :=
  match g.currentRecord with
  | none => (.endOfRecording, g)
  | some record =>
    let g := g.setRegisters record.registersAfter
    match checkBreakpoints record g.breakpoints with
    | some (id, breakpoints) => (.breakpoint id, { g with breakpoints := breakpoints })
    | none =>
      let (result, position) := advance g.recording.kernels g.position record.sequence
      (result, { g with position := position })

/-- The position a step backward comes to, but for its sequence number. -/
def retreat (kernels : List (KernelRecording ι ρ)) (position : ReplayPosition) :
    Option ReplayPosition :=
  if position.recordIndex = 0 then
    if position.kernelIndex = 0 then none
    else
      let k := position.kernelIndex - 1
      let kernelLen := (kernels[k]?.map (·.executionRecords.length)).getD 1
      some ⟨k, kernelLen - 1, position.sequence⟩
  else some { position with recordIndex := position.recordIndex - 1 }

/-- `reverse_step`. -/
def GpuReplayer.reverseStep (g : GpuReplayer ι ρ) : ReplayResult × GpuReplayer ι ρ :=
  match retreat g.recording.kernels g.position with
  | none => (.startOfRecording, g)
  | some position =>
    let g := { g with position := position }
    match g.currentRecord with
    | none => (.stepped, g)
    | some record =>
      let g := g.setRegisters record.registersBefore
      (.stepped, { g with position.sequence := record.sequence })

/-- The first record with the sequence number, with its indices. -/
def findSequence (kernels : List (KernelRecording ι ρ)) (target : UInt64) :
    Option (Nat × Nat × InstructionRecord ρ) :=
  kernels.zipIdx.findSome? fun k =>
    (k.1.executionRecords.zipIdx.find? fun r => r.1.sequence = target).map fun r => (k.2, r.2, r.1)

/-- `goto_sequence`. -/
def GpuReplayer.gotoSequence (g : GpuReplayer ι ρ) (target : UInt64) :
    ReplayResult × GpuReplayer ι ρ :=
  match findSequence g.recording.kernels target with
  | some (k, r, record) =>
    let g := { g with position := ⟨k, r, target⟩ }
    (.stepped, g.setRegisters record.registersBefore)
  | none =>
    (.error ("Sequence " ++ toString target.toNat ++ " not found"), { g with position := .start })

/-! ## Walking forward -/

/-- The records that `n` steps move through. -/
def GpuReplayer.passed (g : GpuReplayer ι ρ) : Nat → List (InstructionRecord ρ)
  | 0 => []
  | n + 1 =>
    match g.currentRecord, g.step with
    | none, (_, next) => next.passed n
    | some _, (.breakpoint _, next) => next.passed n
    | some record, (_, next) => record :: next.passed n

/-- The records of all kernels, in order. -/
def GpuRecording.records (recording : GpuRecording ι ρ) : List (InstructionRecord ρ) :=
  recording.kernels.flatMap (·.executionRecords)

/-- The records of the kernels before the first one without any. -/
def front (kernels : List (KernelRecording ι ρ)) : List (InstructionRecord ρ) :=
  (kernels.takeWhile fun k => !k.executionRecords.isEmpty).flatMap (·.executionRecords)

/-- What steps still move through from a pair of indices. -/
def ahead (kernels : List (KernelRecording ι ρ)) (k r : Nat) : List (InstructionRecord ρ) :=
  match kernels.drop k with
  | [] => []
  | kernel :: later =>
    match kernel.executionRecords.drop r with
    | [] => []
    | rest => rest ++ front later

theorem front_cons_of_records {k : KernelRecording ι ρ} (h : k.executionRecords ≠ [])
    (kernels : List (KernelRecording ι ρ)) :
    front (k :: kernels) = k.executionRecords ++ front kernels := by
  simp [front, h]

theorem front_cons_of_empty {k : KernelRecording ι ρ} (h : k.executionRecords = [])
    (kernels : List (KernelRecording ι ρ)) : front (k :: kernels) = [] := by
  simp [front, h]

/-- At the start of a kernel. -/
theorem ahead_zero (kernels : List (KernelRecording ι ρ)) (k : Nat) :
    ahead kernels k 0 = front (kernels.drop k) := by
  unfold ahead
  cases kernels.drop k with
  | nil => rfl
  | cons kernel later =>
    cases h : kernel.executionRecords with
    | nil =>
      rw [front_cons_of_empty h]
      simp only [drop_zero, h]
    | cons record rest =>
      rw [front_cons_of_records (by simp [h])]
      simp only [drop_zero, h]

variable {k : Nat} {record : InstructionRecord ρ} {kernels : List (KernelRecording ι ρ)} {r : Nat}

/-- A record under the position splits the recording there. -/
theorem exists_split (h : recordAt kernels k r = some record) :
    ∃ kernel later rest, kernels[k]? = some kernel ∧ kernels.drop k = kernel :: later ∧
      kernel.executionRecords.drop r = record :: rest := by
  obtain ⟨kernel, hk, hr⟩ := bind_eq_some_iff.mp h
  obtain ⟨hklt, hkeq⟩ := List.getElem?_eq_some_iff.mp hk
  obtain ⟨hrlt, hreq⟩ := List.getElem?_eq_some_iff.mp hr
  refine ⟨kernel, kernels.drop (k + 1), kernel.executionRecords.drop (r + 1), hk, ?_, ?_⟩
  · rw [drop_eq_getElem_cons hklt, hkeq]
  · rw [drop_eq_getElem_cons hrlt, hreq]

theorem ahead_of_no_record (h : recordAt kernels k r = none) : ahead kernels k r = [] := by
  unfold ahead
  cases hd : kernels.drop k with
  | nil => rfl
  | cons kernel later =>
    have hk : kernels[k]? = some kernel := by
      rw [← head?_drop, hd]
      rfl
    rw [recordAt, hk, bind_some, getElem?_eq_none_iff] at h
    simp only [drop_eq_nil_of_le h]

/-- Moving on leaves what is ahead of the record. -/
theorem ahead_advance {p : ReplayPosition}
    (h : recordAt kernels p.kernelIndex p.recordIndex = some record) (sequence : UInt64) :
    ahead kernels p.kernelIndex p.recordIndex = record ::
      ahead kernels (advance kernels p sequence).2.kernelIndex
        (advance kernels p sequence).2.recordIndex := by
  obtain ⟨kernel, later, rest, hk, hdrop, hrest⟩ := exists_split h
  have hlater : kernels.drop (p.kernelIndex + 1) = later := by
    rw [← drop_drop, hdrop]
    rfl
  have hnext : kernel.executionRecords.drop (p.recordIndex + 1) = rest := by
    rw [← drop_drop, hrest]
    rfl
  have hlength : kernel.executionRecords.length = p.recordIndex + 1 + rest.length := by
    have := congrArg List.length hrest
    simp only [length_drop, length_cons] at this
    omega
  unfold advance
  simp only [hk, map_some, getD_some, hlength]
  cases rest with
  | nil =>
    rw [if_pos (by simp), ahead_zero, hlater]
    simp only [ahead, hdrop, hrest]
    rfl
  | cons record' rest =>
    rw [if_neg (by simp)]
    simp only [ahead, hdrop, hrest, hnext]
    rfl

/-! ## Steps without breakpoints -/

/-- No breakpoint is enabled. -/
def Unbroken (breakpoints : List Breakpoint) : Prop := ∀ bp ∈ breakpoints, bp.enabled = false

theorem checkBreakpoints_of_unbroken {breakpoints : List Breakpoint} (h : Unbroken breakpoints)
    (record : InstructionRecord ρ) : checkBreakpoints record breakpoints = none := by
  induction breakpoints with
  | nil => rfl
  | cons bp rest ih =>
    have hbp := h bp mem_cons_self
    rw [checkBreakpoints, hbp, ih fun b hb => h b (mem_cons_of_mem bp hb)]
    rfl

variable {g : GpuReplayer ι ρ}

theorem step_of_no_record (h : g.currentRecord = none) : g.step = (.endOfRecording, g) := by
  rw [step, h]

/-- A step that meets no breakpoint moves on. -/
theorem step_of_check (h : g.currentRecord = some record)
    (hcheck : checkBreakpoints record g.breakpoints = none) :
    g.step = ((advance g.recording.kernels g.position record.sequence).1,
      { g.setRegisters record.registersAfter with
        position := (advance g.recording.kernels g.position record.sequence).2 }) := by
  have hcheck : checkBreakpoints record (g.setRegisters record.registersAfter).breakpoints = none :=
    hcheck
  rw [step, h]
  simp only [hcheck]
  rfl

theorem step_of_record (hfree : Unbroken g.breakpoints) (h : g.currentRecord = some record) :
    g.step = ((advance g.recording.kernels g.position record.sequence).1,
      { g.setRegisters record.registersAfter with
        position := (advance g.recording.kernels g.position record.sequence).2 }) :=
  step_of_check h (checkBreakpoints_of_unbroken hfree record)

/-- A move forward is no breakpoint. -/
theorem advance_ne_breakpoint (kernels : List (KernelRecording ι ρ)) (p : ReplayPosition)
    (sequence : UInt64) (id : UInt32) : (advance kernels p sequence).1 ≠ .breakpoint id := by
  simp only [advance]
  split
  · split <;> simp
  · simp

/-- **Walking forward** passes what is ahead, up to the first kernel without records. -/
theorem passed_eq_ahead (hfree : Unbroken g.breakpoints) (n : Nat) :
    g.passed n =
      (ahead g.recording.kernels g.position.kernelIndex g.position.recordIndex).take n := by
  induction n generalizing g with
  | zero => rfl
  | succ n ih =>
    rw [passed]
    cases hrecord : g.currentRecord with
    | none =>
      rw [step_of_no_record hrecord]
      change g.passed n = _
      rw [ih hfree, ahead_of_no_record hrecord, take_nil, take_nil]
    | some record =>
      have hstep := step_of_record hfree hrecord
      have hne := advance_ne_breakpoint g.recording.kernels g.position record.sequence
      rw [hstep, ahead_advance hrecord record.sequence, take_succ_cons]
      generalize hresult : (advance g.recording.kernels g.position record.sequence).1 = result
        at hne ⊢
      cases result with
      | breakpoint id => exact absurd rfl (hne id)
      | _ => exact congrArg (record :: ·) (ih hfree)

/-! ## Kernels without records -/

/-- No kernel without records stands before one that has some. -/
def Solid (kernels : List (KernelRecording ι ρ)) : Prop :=
  kernels.Pairwise fun k k' => k.executionRecords = [] → k'.executionRecords = []

theorem front_eq_iff (kernels : List (KernelRecording ι ρ)) :
    front kernels = kernels.flatMap (·.executionRecords) ↔ Solid kernels := by
  induction kernels with
  | nil => exact ⟨fun _ => List.Pairwise.nil, fun _ => rfl⟩
  | cons k kernels ih =>
    rw [flatMap_cons, Solid, pairwise_cons]
    by_cases hk : k.executionRecords = []
    · have hflat : kernels.flatMap (·.executionRecords) = [] ↔
          ∀ k' ∈ kernels, k'.executionRecords = [] := flatMap_eq_nil_iff
      rw [front_cons_of_empty hk, hk, nil_append, eq_comm, hflat]
      constructor
      · intro h
        refine ⟨fun k' hk' _ => h k' hk', pairwise_of_forall_mem_list ?_⟩
        intro a _ b hb _
        exact h b hb
      · intro h k' hk'
        exact h.1 k' hk' rfl
    · rw [front_cons_of_records hk, append_cancel_left_eq, ih]
      exact ⟨fun h => ⟨fun _ _ hempty => absurd hempty hk, h⟩, fun h => h.2⟩

/-- In a solid recording what is ahead of a record is the end of all records. -/
theorem exists_prefix_ahead (hsolid : Solid kernels) (h : recordAt kernels k r = some record) :
    ∃ before, kernels.flatMap (·.executionRecords) = before ++ ahead kernels k r := by
  obtain ⟨kernel, later, rest, _, hdrop, hrest⟩ := exists_split h
  have hkernels : kernels = kernels.take k ++ kernel :: later := by
    rw [← hdrop, take_append_drop]
  have hlater : Solid later := by
    have hsub : later.Sublist kernels := by
      rw [hkernels]
      exact (sublist_cons_self kernel later).trans (sublist_append_right _ _)
    exact List.Pairwise.sublist hsub hsolid
  have hahead : ahead kernels k r = kernel.executionRecords.drop r ++
      later.flatMap (·.executionRecords) := by
    rw [← (front_eq_iff later).mpr hlater]
    simp only [ahead, hdrop, hrest]
  refine ⟨(kernels.take k).flatMap (·.executionRecords) ++ kernel.executionRecords.take r, ?_⟩
  rw [hahead, append_assoc, ← append_assoc (kernel.executionRecords.take r),
    take_append_drop]
  nth_rewrite 1 [hkernels]
  rw [flatMap_append, flatMap_cons]

/-! ## Stepping back -/

/-- A move forward onto another record is undone by a move backward, but for the sequence
number. -/
theorem retreat_advance {p : ReplayPosition}
    (h : recordAt kernels p.kernelIndex p.recordIndex = some record) (sequence : UInt64) :
    retreat kernels (advance kernels p sequence).2 =
      some ⟨p.kernelIndex, p.recordIndex, sequence + 1⟩ := by
  obtain ⟨kernel, hk, hr⟩ := bind_eq_some_iff.mp h
  obtain ⟨hlt, -⟩ := List.getElem?_eq_some_iff.mp hr
  simp only [advance, hk, map_some, getD_some]
  split
  · -- the record was the last one of its kernel
    rename_i hle
    have hlast : kernel.executionRecords.length - 1 = p.recordIndex := by omega
    simp [retreat, hk, hlast]
  · simp [retreat]

/-- A step and a step back: the same indices, the sequence number and the registers of the
record. -/
theorem reverseStep_step (hfree : Unbroken g.breakpoints) (h : g.currentRecord = some record) :
    g.step.2.reverseStep.2.position =
        ⟨g.position.kernelIndex, g.position.recordIndex, record.sequence⟩ ∧
      ∀ registers, record.registersBefore = some registers →
        g.step.2.reverseStep.2.registerState = registers := by
  have hretreat := retreat_advance h record.sequence
  have hback : recordAt g.recording.kernels g.position.kernelIndex g.position.recordIndex =
      some record := h
  rw [step_of_record hfree h]
  simp only [reverseStep, setRegisters, hretreat, currentRecord,
    hback]
  refine ⟨trivial, fun registers hregisters => ?_⟩
  rw [hregisters]
  rfl

inductive Op where
  | step
  | reverseStep
  | gotoSequence (target : UInt64)

def GpuReplayer.perform (g : GpuReplayer ι ρ) : Op → GpuReplayer ι ρ
  | .step => g.step.2
  | .reverseStep => g.reverseStep.2
  | .gotoSequence target => (g.gotoSequence target).2

/-- A step from here onto another record is undone by a step back. -/
def Undone (g : GpuReplayer ι ρ) : Prop :=
  ∀ record, g.currentRecord = some record → g.step.2.currentRecord.isSome = true →
    g.step.2.reverseStep.2.position = g.position ∧
      ∀ registers, record.registersBefore = some registers →
        g.step.2.reverseStep.2.registerState = registers

/-- The position has the sequence number of its record, when a step leads to another. -/
def InSequence (g : GpuReplayer ι ρ) : Prop :=
  ∀ record, g.currentRecord = some record → g.step.2.currentRecord.isSome = true →
    g.position.sequence = record.sequence

theorem undone_iff (hfree : Unbroken g.breakpoints) : Undone g ↔ InSequence g := by
  constructor
  · intro h record hrecord hnext
    have hposition := (h record hrecord hnext).1
    rw [(reverseStep_step hfree hrecord).1] at hposition
    exact (congrArg ReplayPosition.sequence hposition).symm
  · intro h record hrecord hnext
    obtain ⟨hposition, hregisters⟩ := reverseStep_step hfree hrecord
    refine ⟨?_, hregisters⟩
    rw [hposition, ← h record hrecord hnext]

/-- All records but the last are numbered from zero. -/
def Consecutive (records : List (InstructionRecord ρ)) : Prop :=
  ∀ i (record : InstructionRecord ρ), i + 1 < records.length → records[i]? = some record →
    record.sequence = UInt64.ofNat i

section

variable {g : GpuReplayer ι ρ}

theorem recording_perform (g : GpuReplayer ι ρ) (op : Op) :
    (g.perform op).recording = g.recording := by
  cases op with
  | step =>
    simp only [perform, step, setRegisters]
    split
    · rfl
    · split <;> rfl
  | reverseStep =>
    simp only [perform, reverseStep, setRegisters]
    split
    · rfl
    · split <;> rfl
  | gotoSequence target =>
    simp only [perform, gotoSequence, setRegisters]
    split <;> rfl

theorem unbroken_perform (hfree : Unbroken g.breakpoints) (op : Op) :
    Unbroken (g.perform op).breakpoints := by
  cases op with
  | step =>
    rw [perform]
    cases hrecord : g.currentRecord with
    | none =>
      rw [step_of_no_record hrecord]
      exact hfree
    | some record =>
      rw [step_of_record hfree hrecord]
      exact hfree
  | reverseStep =>
    simp only [perform, reverseStep, setRegisters]
    split
    · exact hfree
    · split <;> exact hfree
  | gotoSequence target =>
    simp only [perform, gotoSequence, setRegisters]
    split <;> exact hfree

theorem recordAt_of_findSequence {target : UInt64}
    (h : findSequence kernels target = some (k, r, record)) :
    recordAt kernels k r = some record ∧ record.sequence = target := by
  obtain ⟨⟨kernel, k'⟩, hmem, hfound⟩ := exists_of_findSome?_eq_some h
  obtain ⟨⟨record', r'⟩, hfind, heq⟩ := map_eq_some_iff.mp hfound
  obtain ⟨rfl, rfl, rfl⟩ : k' = k ∧ r' = r ∧ record' = record := by simpa using heq
  have hsequence : record'.sequence = target := by simpa using find?_some hfind
  have hkernel := mk_mem_zipIdx_iff_getElem?.mp hmem
  have hrecord := mk_mem_zipIdx_iff_getElem?.mp (mem_of_find?_eq_some hfind)
  exact ⟨by rw [recordAt, hkernel]; exact hrecord, hsequence⟩

/-- The record here is the first one ahead. -/
theorem head?_ahead (kernels : List (KernelRecording ι ρ)) (k r : Nat) :
    (ahead kernels k r).head? = recordAt kernels k r := by
  cases h : recordAt kernels k r with
  | none => rw [ahead_of_no_record h, head?_nil]
  | some record => rw [ahead_advance (p := ⟨k, r, 0⟩) h 0, head?_cons]

/-- What is ahead of the position. -/
def GpuReplayer.ahead (g : GpuReplayer ι ρ) : List (InstructionRecord ρ) :=
  GpuRr.ahead g.recording.kernels g.position.kernelIndex g.position.recordIndex

theorem head?_ahead_eq (g : GpuReplayer ι ρ) : g.ahead.head? = g.currentRecord :=
  head?_ahead g.recording.kernels g.position.kernelIndex g.position.recordIndex

theorem ahead_step (hfree : Unbroken g.breakpoints) (h : g.currentRecord = some record) :
    g.ahead = record :: g.step.2.ahead := by
  rw [step_of_record hfree h]
  exact ahead_advance h record.sequence

/-- A step at place `n` that is not the last. -/
theorem ahead_drop (hfree : Unbroken g.breakpoints) {records : List (InstructionRecord ρ)} {n : Nat}
    (hahead : g.ahead = records.drop n) (hn : n + 1 < records.length) :
    ∃ record, records[n]? = some record ∧ g.currentRecord = some record ∧
      g.step.2.ahead = records.drop (n + 1) ∧ g.step.2.currentRecord.isSome = true := by
  have hlt : n < records.length := by omega
  have hrecord : g.currentRecord = some records[n] := by
    rw [← head?_ahead_eq, hahead, head?_drop, getElem?_eq_getElem hlt]
  have hnext : g.step.2.ahead = records.drop (n + 1) := by
    have hcons := ahead_step hfree hrecord
    rw [hahead, drop_eq_getElem_cons hlt] at hcons
    exact (List.cons.inj hcons).2.symm
  refine ⟨_, getElem?_eq_getElem hlt, hrecord, hnext, ?_⟩
  rw [← head?_ahead_eq, hnext, head?_drop, getElem?_eq_getElem hn]
  rfl

/-- A step leaves the number after that of its record. -/
theorem sequence_step (hfree : Unbroken g.breakpoints) (h : g.currentRecord = some record) :
    g.step.2.position.sequence = record.sequence + 1 := by
  rw [step_of_record hfree h]
  simp only [advance]
  split <;> rfl

variable (hsolid : Solid g.recording.kernels)

include hsolid

/-- The number of a record that is not the last one, by what is ahead of it. -/
theorem sequence_of_consecutive (hcons : Consecutive g.recording.records)
    (hfree : Unbroken g.breakpoints) (hrecord : g.currentRecord = some record)
    (hnext : g.step.2.currentRecord.isSome = true) :
    g.ahead.length ≤ g.recording.records.length ∧
      record.sequence = UInt64.ofNat (g.recording.records.length - g.ahead.length) := by
  obtain ⟨before, hbefore⟩ := exists_prefix_ahead hsolid hrecord
  have hsplit : g.recording.records = before ++ g.ahead := hbefore
  have hahead := ahead_step hfree hrecord
  obtain ⟨next, hnext⟩ := isSome_iff_exists.mp hnext
  have hmore : g.step.2.ahead ≠ [] := by
    intro hnil
    rw [← head?_ahead_eq, hnil] at hnext
    cases hnext
  have hlength : g.recording.records.length = before.length + g.ahead.length := by
    rw [hsplit, length_append]
  have hindex : g.recording.records.length - g.ahead.length = before.length := by omega
  refine ⟨by omega, ?_⟩
  rw [hindex]
  refine hcons before.length record ?_ ?_
  · have := length_pos_iff.mpr hmore
    rw [hahead, length_cons] at hlength
    omega
  · rw [hsplit, hahead]
    simp

theorem ahead_start (h : g.position = .start) : g.ahead = g.recording.records := by
  rw [GpuReplayer.ahead, h, ReplayPosition.start, ahead_zero, drop_zero,
    (front_eq_iff _).mpr hsolid, records]

theorem inSequence_start (hcons : Consecutive g.recording.records) (hfree : Unbroken g.breakpoints)
    (h : g.position = .start) : InSequence g := by
  intro record hrecord hnext
  rw [(sequence_of_consecutive hsolid hcons hfree hrecord hnext).2, ahead_start hsolid h,
    Nat.sub_self, h]
  rfl

/-- Every operation keeps the position in sequence. -/
theorem inSequence_perform (hcons : Consecutive g.recording.records)
    (hfree : Unbroken g.breakpoints) (h : InSequence g) (op : Op) : InSequence (g.perform op) := by
  have hrecording := recording_perform g op
  have hfree' := unbroken_perform hfree op
  cases op with
  | step =>
    cases hrecord : g.currentRecord with
    | none =>
      rw [perform, step_of_no_record hrecord]
      exact h
    | some record =>
      intro next hnext hmore
      -- both records have one after them, so both are numbered by their place
      have hhere := sequence_of_consecutive hsolid hcons hfree hrecord
        (isSome_iff_exists.mpr ⟨next, hnext⟩)
      have hthere := sequence_of_consecutive (g := g.perform .step) (by rwa [hrecording])
        (by rwa [hrecording]) hfree' hnext hmore
      have hahead := congrArg List.length (ahead_step hfree hrecord)
      rw [length_cons] at hahead
      rw [hthere.2, hrecording]
      change g.step.2.position.sequence = _
      rw [sequence_step hfree hrecord, hhere.2]
      have hindex : g.recording.records.length - (g.perform .step).ahead.length =
          g.recording.records.length - g.ahead.length + 1 := by
        have hlen : (g.perform .step).ahead.length = g.step.2.ahead.length := rfl
        have hle := hhere.1
        omega
      rw [hindex, UInt64.ofNat_add]
      rfl
  | reverseStep =>
    cases hretreat : retreat g.recording.kernels g.position with
    | none =>
      simp only [perform, reverseStep, hretreat]
      exact h
    | some position =>
      intro record hrecord _
      simp only [perform, reverseStep, hretreat] at hrecord ⊢
      split at hrecord
      · rename_i hnone
        rw [hnone] at hrecord
        cases hrecord
      · rename_i found hfound
        rw [show found = record from some.inj (hfound.symm.trans hrecord)]
  | gotoSequence target =>
    cases hfind : findSequence g.recording.kernels target with
    | none =>
      have hstart : (g.perform (.gotoSequence target)).position = .start := by
        simp only [perform, gotoSequence, hfind]
      exact inSequence_start (by rwa [hrecording]) (by rwa [hrecording]) hfree' hstart
    | some found =>
      obtain ⟨k, r, record⟩ := found
      obtain ⟨hat, hsequence⟩ := recordAt_of_findSequence hfind
      intro record' hrecord' _
      simp only [perform, gotoSequence, hfind, setRegisters,
        currentRecord] at hrecord' ⊢
      rw [← hsequence, some.inj (hat.symm.trans hrecord')]

end

/-! ## Whole runs -/

/-- Steps from the start move through the records of all kernels, in order. -/
def PassesAll (g : GpuReplayer ι ρ) : Prop := ∀ n, g.passed n = g.recording.records.take n

/-- The operations, one after the other. -/
def GpuReplayer.performAll (g : GpuReplayer ι ρ) (ops : List Op) : GpuReplayer ι ρ :=
  ops.foldl perform g

section

variable (hfree : Unbroken g.breakpoints)

include hfree

theorem unbroken_performAll (ops : List Op) :
    Unbroken (g.performAll ops).breakpoints := by
  induction ops generalizing g with
  | nil => exact hfree
  | cons op ops ih => exact ih (unbroken_perform hfree op)

theorem inSequence_performAll (hsolid : Solid g.recording.kernels)
    (hcons : Consecutive g.recording.records) (h : InSequence g) (ops : List Op) :
    InSequence (g.performAll ops) := by
  induction ops generalizing g with
  | nil => exact h
  | cons op ops ih =>
    have hrecording := recording_perform g op
    exact ih (unbroken_perform hfree op) (by rwa [hrecording]) (by rwa [hrecording])
      (inSequence_perform hsolid hcons hfree h op)

variable (hstart : g.position = .start)

include hstart

/-- After `n` steps from the start, as long as every position is in sequence. -/
theorem steps_from_start (hsolid : Solid g.recording.kernels)
    (hall : ∀ ops, InSequence (g.performAll ops)) (n : Nat)
    (hn : n < g.recording.records.length) :
    (g.performAll (replicate n .step)).ahead = g.recording.records.drop n ∧
      (g.performAll (replicate n .step)).position.sequence = UInt64.ofNat n := by
  induction n with
  | zero =>
    refine ⟨ahead_start hsolid hstart, ?_⟩
    change g.position.sequence = _
    rw [hstart]
    rfl
  | succ n ih =>
    obtain ⟨hahead, hsequence⟩ := ih (by omega)
    have hrun : g.performAll (replicate (n + 1) .step) =
        (g.performAll (replicate n .step)).step.2 := by
      rw [replicate_succ', performAll, foldl_append]
      rfl
    have hfree' := unbroken_performAll hfree (replicate n .step)
    have hinseq := hall (replicate n .step)
    generalize g.performAll (replicate n .step) = now at *
    obtain ⟨record, -, hrecord, hnext, hmore⟩ := ahead_drop hfree' hahead hn
    rw [hrun]
    refine ⟨hnext, ?_⟩
    rw [sequence_step hfree' hrecord, ← hinseq _ hrecord hmore, hsequence, UInt64.ofNat_add]
    rfl

theorem passesAll_iff : PassesAll g ↔ Solid g.recording.kernels := by
  have hpassed : ∀ n, g.passed n = (front g.recording.kernels).take n := by
    intro n
    rw [passed_eq_ahead hfree, hstart, ReplayPosition.start, ahead_zero, drop_zero]
  rw [← front_eq_iff]
  constructor
  · intro h
    have hlong := h ((front g.recording.kernels).length + g.recording.records.length)
    rw [hpassed, take_of_length_le (by omega), take_of_length_le (by omega)] at hlong
    exact hlong
  · intro h n
    rw [hpassed, h, records]

theorem consecutive_of_inSequence (hsolid : Solid g.recording.kernels)
    (hall : ∀ ops, InSequence (g.performAll ops)) : Consecutive g.recording.records := by
  intro i record hi hrecord
  obtain ⟨hahead, hsequence⟩ := steps_from_start hfree hstart hsolid hall i (by omega)
  obtain ⟨record', hat, hhere, -, hmore⟩ :=
    ahead_drop (unbroken_performAll hfree (replicate i .step)) hahead hi
  obtain rfl : record' = record := some.inj (hat.symm.trans hrecord)
  rw [← hall (replicate i .step) record' hhere hmore, hsequence]

end

/-- **Walking forward and back.** Without breakpoints, the steps move through all records
and a step back undoes a step from every position reached, exactly when no kernel without
records stands before one that has some and all records but the last are numbered from
zero. -/
theorem replay_both_ways_iff (recording : GpuRecording ι ρ) (breakpoints : List Breakpoint)
    (registerState : ρ) (hfree : Unbroken breakpoints) :
    (PassesAll (load recording breakpoints registerState) ∧
      ∀ ops, Undone ((load recording breakpoints registerState).performAll ops)) ↔
    Solid recording.kernels ∧ Consecutive recording.records := by
  have hundone : ∀ ops, Undone ((load recording breakpoints registerState).performAll
      ops) ↔ InSequence ((load recording breakpoints registerState).performAll ops) :=
    fun ops => undone_iff (unbroken_performAll hfree ops)
  rw [passesAll_iff hfree rfl]
  constructor
  · rintro ⟨hsolid, hall⟩
    exact ⟨hsolid, consecutive_of_inSequence hfree rfl hsolid fun ops =>
      (hundone ops).mp (hall ops)⟩
  · rintro ⟨hsolid, hcons⟩
    refine ⟨hsolid, fun ops => (hundone ops).mpr ?_⟩
    exact inSequence_performAll hfree hsolid hcons (inSequence_start hsolid hcons hfree rfl) ops

/-- A record with nothing but a sequence number. -/
def bareRecord (sequence : UInt64) : InstructionRecord Unit :=
  newRecord 0 sequence 0 1 none none

def bareKernel (sequences : List UInt64) : KernelRecording Unit Unit :=
  ⟨"k", 0, [], sequences.map bareRecord, .zero⟩

/-- A recording of two kernels that starts with number zero. -/
theorem replay_both_ways_two :
    PassesAll (load ⟨[bareKernel [0], bareKernel [1, 2]], [], 0⟩ [] ()) ∧
      ∀ ops, Undone ((load ⟨[bareKernel [0], bareKernel [1, 2]], [], 0⟩ [] ()).performAll ops) := by
  refine (replay_both_ways_iff _ [] () fun _ hbp => absurd hbp not_mem_nil).mpr ⟨?_, ?_⟩
  · simp [Solid, bareKernel]
  · intro i record hi hrecord
    have hall : ∀ i < 2, ∀ record ∈ [bareRecord 0, bareRecord 1, bareRecord 2][i]?,
        record.sequence = UInt64.ofNat i := by
      decide
    exact hall i (Nat.lt_of_succ_lt_succ hi) record hrecord

/-- An empty first kernel ends the walk before it begins, and a recording that starts with
number five is not undone to the position it started from. -/
theorem replay_stops_and_renumbers :
    (load ⟨[bareKernel [], bareKernel [0]], [], 0⟩ [] ()).passed 1 = [] ∧
      (records ⟨[bareKernel [], bareKernel [0]], [], 0⟩).take 1 = [bareRecord 0] ∧
      (load ⟨[bareKernel [5, 6]], [], 0⟩ [] ()).position = ⟨0, 0, 0⟩ ∧
      (load ⟨[bareKernel [5, 6]], [], 0⟩ [] ()).step.2.reverseStep.2.position =
        ⟨0, 0, 5⟩ := by
  decide

/-! ## Seeking -/

/-- Where no two records share a number, the search finds the record. -/
theorem findSequence_eq
    (hone : ((kernels.flatMap (·.executionRecords)).map (·.sequence)).Nodup)
    (h : record ∈ kernels.flatMap (·.executionRecords)) :
    ∃ k r, findSequence kernels record.sequence = some (k, r, record) ∧
      recordAt kernels k r = some record := by
  cases hfind : findSequence kernels record.sequence with
  | none =>
    obtain ⟨kernel, hkernel, hmem⟩ := mem_flatMap.mp h
    obtain ⟨k, hk⟩ := mem_iff_getElem?.mp hkernel
    obtain ⟨r, hr⟩ := mem_iff_getElem?.mp hmem
    have hnone := findSome?_eq_none_iff.mp hfind _ (mk_mem_zipIdx_iff_getElem?.mpr hk)
    have hnot := find?_eq_none.mp (map_eq_none_iff.mp hnone) _ (mk_mem_zipIdx_iff_getElem?.mpr hr)
    exact absurd (decide_eq_true rfl) hnot
  | some found =>
    obtain ⟨k, r, found⟩ := found
    obtain ⟨hat, hsequence⟩ := recordAt_of_findSequence hfind
    obtain ⟨kernel, hk, hr⟩ := bind_eq_some_iff.mp hat
    have hmem := mem_flatMap.mpr ⟨kernel, mem_of_getElem? hk, mem_of_getElem? hr⟩
    obtain rfl := inj_on_of_nodup_map hone hmem h hsequence
    exact ⟨k, r, rfl, hat⟩

/-- **Seeking in a recorded run.** From every position, the number of an instruction that
was recorded leads to it. -/
theorem gotoSequence_recorded (calls : List (Call ι ρ)) (now : UInt64)
    (hcount : calls.countP Call.isRecord ≤ 2 ^ 64)
    (h : g.recording = (GpuRecorder.new.run calls).finalize now) :
    ∀ record ∈ g.recording.records, (g.gotoSequence record.sequence).1 = .stepped ∧
      (g.gotoSequence record.sequence).2.currentRecord = some record := by
  intro record hrecord
  have hsorted := h ▸ increasing_of_numbered (numbered_new.run calls (by omega)) now
  obtain ⟨k, r, hfind, hat⟩ := findSequence_eq (List.Pairwise.imp UInt64.ne_of_lt hsorted) hrecord
  simp only [gotoSequence, hfind]
  exact ⟨trivial, hat⟩

/-- A run that records three instructions in two kernels. -/
def twoKernels : List (Call Unit Unit) :=
  [.startKernel "a" [] 0, .recordInstruction 16 0 1 none none, .completeKernel 1,
    .startKernel "b" [] 2, .recordInstruction 8 0 1 none none,
    .recordInstruction 24 0 1 none none, .completeKernel 3]

/-- From the last instruction to the second. -/
theorem gotoSequence_recorded_back :
    let g := ((load ((GpuRecorder.new.run twoKernels).finalize 4) [] ()).gotoSequence 2).2
    g.currentRecord = some (newRecord 24 2 0 1 none none) ∧
      (g.gotoSequence 1).2.currentRecord = some (newRecord 8 1 0 1 none none) :=
  ⟨by decide, (gotoSequence_recorded twoKernels 4 (by decide) rfl (newRecord 8 1 0 1 none none)
    (by decide)).2⟩

end Concordia.GpuRr
