import Concordia.Lib.Keyed
import Concordia.Lib.TSys
import Concordia.Replay.Snapshot

/-!
# Recording launches from several threads

`record_pre_launch` takes a sequence number and then, under the lock of
`current_launch`, stores the launch in that one slot; `record_post_launch` ignores
the sequence number it is given, takes whatever is in the slot and pushes it to the
trace with its own execution time. A run in which all pairs have finished records
every one of them exactly when no launch was stored into a full slot
(`recording_complete_iff`).
-/

namespace Concordia.Replay

open Concordia.Lib List Function TSys Option

/-- What one pair of calls passes in. -/
structure LaunchCall where
  kernelName : String
  moduleHandle : UInt64
  functionHandle : UInt64
  gridDim : UInt32 × UInt32 × UInt32
  blockDim : UInt32 × UInt32 × UInt32
  sharedMemBytes : UInt32
  streamHandle : UInt64
  arguments : List KernelArgument
  executionTimeNs : UInt64
  deriving DecidableEq, Repr

namespace LaunchCall

/-- The launch that `record_pre_launch` builds. -/
def launch (call : LaunchCall) (sequenceId timestampNs : UInt64) : RecordedKernelLaunch where
  sequenceId := sequenceId
  timestampNs := timestampNs
  kernelName := call.kernelName
  moduleHandle := call.moduleHandle
  functionHandle := call.functionHandle
  gridDim := call.gridDim
  blockDim := call.blockDim
  sharedMemBytes := call.sharedMemBytes
  streamHandle := call.streamHandle
  arguments := call.arguments

/-- The entry that belongs to the pair: its launch, with its own execution time. -/
def entry (call : LaunchCall) (sequenceId timestampNs : UInt64) : RecordedKernelLaunch :=
  { call.launch sequenceId timestampNs with executionDurationNs := some call.executionTimeNs }

end LaunchCall

/-- How far a pair has come, with the sequence number that its first call took and
returns. -/
inductive CallPhase where
  | idle
  | sequenced (sequenceId timestampNs : UInt64)
  | stored (sequenceId timestampNs : UInt64)
  | finished (sequenceId timestampNs : UInt64)
  deriving DecidableEq, Repr

/-- Between the calls. -/
def CallPhase.isStored : CallPhase → Bool
  | .stored .. => true
  | _ => false

/-- `RecordingSession`: the counter, the slot and the trace; and the pairs. -/
structure Session where
  sequence : UInt64
  currentLaunch : Option RecordedKernelLaunch
  totalKernels : UInt64
  kernelLaunches : List RecordedKernelLaunch
  phase : Nat → CallPhase

inductive SessionAction where
  /-- `next_sequence` and `elapsed_ns` -/
  | nextSequence (pair : Nat) (elapsedNs : UInt64)
  /-- the rest of `record_pre_launch`, under the lock -/
  | storeLaunch (pair : Nat)
  /-- `record_post_launch`, under the lock -/
  | postLaunch (pair : Nat)

namespace Session

def start : Session := ⟨0, none, 0, [], fun _ => .idle⟩

/-- `record_post_launch`. -/
def recordPostLaunch (s : Session) (executionTimeNs : UInt64) : Session :=
  match s.currentLaunch with
  | some launch =>
    { s with
      currentLaunch := none
      totalKernels := s.totalKernels + 1
      kernelLaunches :=
        s.kernelLaunches ++ [{ launch with executionDurationNs := some executionTimeNs }] }
  | none => s

def setPhase (s : Session) (pair : Nat) (phase : CallPhase) : Session :=
  { s with phase := update s.phase pair phase }

section

variable (calls : Nat → LaunchCall) (n : Nat)

/-- One step of one of the `n` pairs. -/
def step (s : Session) : SessionAction → Option Session
  | .nextSequence pair elapsedNs =>
    match s.phase pair with
    | .idle =>
      if pair < n then
        some ({ s with sequence := s.sequence + 1 }.setPhase pair (.sequenced s.sequence elapsedNs))
      else none
    | _ => none
  | .storeLaunch pair =>
    match s.phase pair with
    | .sequenced sequenceId timestampNs =>
      some ({ s with
        currentLaunch := some ((calls pair).launch sequenceId timestampNs) }.setPhase pair
          (.stored sequenceId timestampNs))
    | _ => none
  | .postLaunch pair =>
    match s.phase pair with
    | .stored sequenceId timestampNs =>
      some ((s.recordPostLaunch (calls pair).executionTimeNs).setPhase pair
        (.finished sequenceId timestampNs))
    | _ => none

/-- The same, but a launch is stored only into an empty slot. -/
def exclusiveStep (s : Session) (action : SessionAction) : Option Session :=
  match action, s.currentLaunch with
  | .storeLaunch _, some _ => none
  | _, _ => step calls n s action

def finishedEntry (pair : Nat) : CallPhase → Option RecordedKernelLaunch
  | .finished sequenceId timestampNs => some ((calls pair).entry sequenceId timestampNs)
  | _ => none

/-- One entry per finished pair, and nothing else. -/
structure Recorded (s : Session) : Prop where
  entries : s.kernelLaunches.Perm
    ((range n).filterMap fun pair => finishedEntry calls pair (s.phase pair))
  total : s.totalKernels = UInt64.ofNat s.kernelLaunches.length

def Finished (s : Session) : Prop :=
  ∀ pair < n, ∃ sequenceId timestampNs, s.phase pair = .finished sequenceId timestampNs

end

variable {calls : Nat → LaunchCall} {n : Nat} {s t : Session} {action : SessionAction}

/-- What a step can be. -/
theorem step_cases (h : s.step calls n action = some t) :
    (∃ pair elapsedNs, action = .nextSequence pair elapsedNs ∧ s.phase pair = .idle ∧ pair < n ∧
      t = { s with sequence := s.sequence + 1 }.setPhase pair (.sequenced s.sequence elapsedNs)) ∨
    (∃ pair sequenceId timestampNs, action = .storeLaunch pair ∧
      s.phase pair = .sequenced sequenceId timestampNs ∧
      t = { s with
        currentLaunch := some ((calls pair).launch sequenceId timestampNs) }.setPhase pair
          (.stored sequenceId timestampNs)) ∨
    (∃ pair sequenceId timestampNs, action = .postLaunch pair ∧
      s.phase pair = .stored sequenceId timestampNs ∧
      t = (s.recordPostLaunch (calls pair).executionTimeNs).setPhase pair
        (.finished sequenceId timestampNs)) := by
  cases action with
  | nextSequence pair elapsedNs =>
    cases hphase : s.phase pair with
    | idle =>
      simp only [step, hphase] at h
      obtain ⟨hlt, heq⟩ := Option.ite_none_right_eq_some.mp h
      exact .inl ⟨pair, elapsedNs, rfl, hphase, hlt, (some.inj heq).symm⟩
    | _ => simp [step, hphase] at h
  | storeLaunch pair =>
    cases hphase : s.phase pair with
    | sequenced sequenceId timestampNs =>
      simp only [step, hphase] at h
      exact .inr (.inl ⟨pair, sequenceId, timestampNs, rfl, hphase, (some.inj h).symm⟩)
    | _ => simp [step, hphase] at h
  | postLaunch pair =>
    cases hphase : s.phase pair with
    | stored sequenceId timestampNs =>
      simp only [step, hphase] at h
      exact .inr (.inr ⟨pair, sequenceId, timestampNs, rfl, hphase, (some.inj h).symm⟩)
    | _ => simp [step, hphase] at h

theorem exclusiveStep_eq_some (h : s.exclusiveStep calls n action = some t) :
    s.step calls n action = some t ∧ ∀ pair, action = .storeLaunch pair →
      s.currentLaunch = none := by
  unfold exclusiveStep at h
  split at h
  · cases h
  · rename_i hnot
    refine ⟨h, fun pair heq => ?_⟩
    cases hslot : s.currentLaunch with
    | none => rfl
    | some launch => exact absurd hslot (hnot pair launch heq)

theorem exclusiveStep_of_none (h : s.step calls n action = some t)
    (hslot : s.currentLaunch = none) :
    s.exclusiveStep calls n action = some t := by
  unfold exclusiveStep
  rw [hslot]
  split
  · contradiction
  · exact h

@[simp] theorem phase_recordPostLaunch (time : UInt64) :
    (s.recordPostLaunch time).phase = s.phase := by
  unfold recordPostLaunch
  split <;> rfl

theorem phase_setPhase (pair : Nat) (phase : CallPhase) (i : Nat) :
    (s.setPhase pair phase).phase i = if i = pair then phase else s.phase i :=
  update_apply s.phase pair phase i

variable {β : Type}

/-- A list made from the phases, after one of them has changed. -/
theorem filterMap_setPhase (f : Nat → CallPhase → Option β) (pair : Nat) (phase : CallPhase) :
    (range n).filterMap (fun i => f i ((s.setPhase pair phase).phase i)) =
      (range n).filterMap
        (update (fun i => f i (s.phase i)) pair (f pair phase)) :=
  filterMap_congr fun i _ => apply_update f s.phase pair phase i

variable {f : Nat → CallPhase → Option β} {pair : Nat} {phase : CallPhase}

theorem filterMap_setPhase_eq (heq : f pair phase = f pair (s.phase pair)) :
    (range n).filterMap (fun i => f i ((s.setPhase pair phase).phase i)) =
      (range n).filterMap fun i => f i (s.phase i) := by
  rw [filterMap_setPhase, heq]
  exact congrArg (List.filterMap · _) (update_eq_self pair fun i => f i (s.phase i))

theorem filterMap_setPhase_perm {b : β} (hlt : pair < n) (hnone : f pair (s.phase pair) = none)
    (hsome : f pair phase = some b) :
    ((range n).filterMap fun i => f i ((s.setPhase pair phase).phase i)).Perm
      (b :: (range n).filterMap fun i => f i (s.phase i)) := by
  rw [filterMap_setPhase, hsome]
  exact filterMap_update_perm nodup_range (mem_range.mpr hlt) hnone b

/-! ## Pairs that keep out of each other's way -/

/-- Only the `n` pairs are ever under way. -/
def InRange (n : Nat) (s : Session) : Prop := ∀ pair, n ≤ pair → s.phase pair = .idle

theorem InRange.lt (h : InRange n s) (hphase : s.phase pair ≠ .idle) : pair < n := by
  by_contra hge
  exact hphase (h pair (by omega))

theorem InRange.setPhase (h : InRange n s) (hlt : pair < n) {t : Session} (ht : t.phase = s.phase)
    (phase : CallPhase) : InRange n (t.setPhase pair phase) := by
  intro i hi
  have hne : i ≠ pair := by omega
  exact (update_of_ne hne phase t.phase).trans (ht ▸ h i hi)

theorem InRange.step (h : InRange n s) (hstep : s.step calls n action = some t) : InRange n t := by
  rcases step_cases hstep with ⟨pair, _, _, _, hlt, rfl⟩ | ⟨pair, _, _, _, hphase, rfl⟩ |
    ⟨pair, _, _, _, hphase, rfl⟩
  · exact h.setPhase hlt rfl _
  · have hlt : pair < n := h.lt (by simp [hphase])
    exact h.setPhase hlt rfl _
  · have hlt : pair < n := h.lt (by simp [hphase])
    exact h.setPhase hlt (phase_recordPostLaunch _) _

/-- At most one pair is between its calls, and the slot holds its launch. -/
structure Inv (calls : Nat → LaunchCall) (n : Nat) (s : Session) : Prop
    extends Recorded calls n s where
  inRange : InRange n s
  slot : ∀ pair sequenceId timestampNs, s.phase pair = .stored sequenceId timestampNs →
    s.currentLaunch = some ((calls pair).launch sequenceId timestampNs)
  alone : ∀ pair pair', (s.phase pair).isStored → (s.phase pair').isStored → pair = pair'

theorem inv_start : Inv calls n start := by
  refine ⟨⟨?_, rfl⟩, fun _ _ => rfl, fun _ _ _ h => ?_, fun _ _ h => ?_⟩
  · have hnil : (range n).filterMap (fun pair => finishedEntry calls pair (start.phase pair)) =
        [] := filterMap_eq_nil_iff.mpr fun _ _ => rfl
    rw [hnil]
    exact .nil
  · cases h
  · cases h

theorem Inv.nextSequence (h : Inv calls n s) (hphase : s.phase pair = .idle) (hlt : pair < n)
    (sequence elapsedNs : UInt64) :
    Inv calls n ({ s with sequence := s.sequence + 1 }.setPhase pair
      (.sequenced sequence elapsedNs)) := by
  refine ⟨⟨?_, h.total⟩, h.inRange.setPhase hlt rfl _, fun i q ts hi => ?_, fun i j hi hj => ?_⟩
  · rw [filterMap_setPhase_eq (by rw [hphase]; rfl)]
    exact h.entries
  · rw [phase_setPhase] at hi
    split at hi
    · cases hi
    · exact h.slot i q ts hi
  · rw [phase_setPhase] at hi hj
    split at hi
    · cases hi
    · split at hj
      · cases hj
      · exact h.alone i j hi hj

/-- With the slot empty nobody is between the calls. -/
theorem Inv.not_isStored (h : Inv calls n s) (hslot : s.currentLaunch = none) (pair : Nat) :
    (s.phase pair).isStored = false := by
  cases hphase : s.phase pair with
  | stored sequenceId timestampNs =>
    have hsome := h.slot pair sequenceId timestampNs hphase
    rw [hslot] at hsome
    cases hsome
  | _ => rfl

variable {sequenceId timestampNs : UInt64}

theorem Inv.storeLaunch (h : Inv calls n s)
    (hphase : s.phase pair = .sequenced sequenceId timestampNs) (hslot : s.currentLaunch = none) :
    Inv calls n ({ s with
      currentLaunch := some ((calls pair).launch sequenceId timestampNs) }.setPhase pair
        (.stored sequenceId timestampNs)) := by
  have hlt : pair < n := h.inRange.lt (by simp [hphase])
  have hnone := h.not_isStored hslot
  refine ⟨⟨?_, h.total⟩, h.inRange.setPhase hlt rfl _, fun i q ts hi => ?_, fun i j hi hj => ?_⟩
  · rw [filterMap_setPhase_eq (by rw [hphase]; rfl)]
    exact h.entries
  · rw [phase_setPhase] at hi
    split at hi
    · rename_i heq
      obtain ⟨rfl, rfl⟩ := CallPhase.stored.inj hi
      rw [heq]
      rfl
    · exact absurd (hnone i) (by simp [show s.phase i = _ from hi, CallPhase.isStored])
  · rw [phase_setPhase] at hi hj
    split at hi
    · split at hj
      · simp only [*]
      · exact absurd hj (by simp [hnone j])
    · exact absurd hi (by simp [hnone i])

theorem Inv.postLaunch (h : Inv calls n s)
    (hphase : s.phase pair = .stored sequenceId timestampNs) :
    Inv calls n ((s.recordPostLaunch (calls pair).executionTimeNs).setPhase pair
      (.finished sequenceId timestampNs)) := by
  have hlt : pair < n := h.inRange.lt (by simp [hphase])
  have hrest : ∀ i, i ≠ pair → (s.phase i).isStored = false := fun i hi => by
    by_contra hstored
    exact hi (h.alone i pair (by simpa using hstored) (by rw [hphase]; rfl))
  have hpost : s.recordPostLaunch (calls pair).executionTimeNs = { s with
      currentLaunch := none
      totalKernels := s.totalKernels + 1
      kernelLaunches := s.kernelLaunches ++ [(calls pair).entry sequenceId timestampNs] } := by
    simp only [recordPostLaunch, h.slot pair sequenceId timestampNs hphase]
    rfl
  rw [hpost]
  refine ⟨⟨?_, ?_⟩, h.inRange.setPhase hlt rfl _, fun i q ts hi => ?_, fun i j hi hj => ?_⟩
  · refine (perm_append_singleton _ _).trans (((h.entries).cons _).trans ?_)
    exact (filterMap_setPhase_perm hlt (by rw [hphase]; rfl) rfl).symm
  · show s.totalKernels + 1 = UInt64.ofNat (s.kernelLaunches ++ [_]).length
    rw [h.total, length_append, UInt64.ofNat_add]
    rfl
  · rw [phase_setPhase] at hi
    split at hi
    · cases hi
    · rename_i hne
      exact absurd (hrest i hne) (by simp [show s.phase i = _ from hi, CallPhase.isStored])
  · rw [phase_setPhase] at hi hj
    split at hi
    · cases hi
    · rename_i hne
      exact absurd hi (by simp [hrest i hne])

theorem Inv.exclusiveStep (h : Inv calls n s) (hstep : s.exclusiveStep calls n action = some t) :
    Inv calls n t := by
  obtain ⟨hstep, hslot⟩ := exclusiveStep_eq_some hstep
  rcases step_cases hstep with ⟨pair, _, _, hphase, hlt, rfl⟩ | ⟨pair, _, _, heq, hphase, rfl⟩ |
    ⟨pair, _, _, _, hphase, rfl⟩
  · exact h.nextSequence hphase hlt _ _
  · exact h.storeLaunch hphase (hslot pair heq)
  · exact h.postLaunch hphase

/-! ## Launches that are lost -/

/-- The launches in the trace and in the slot. -/
def held (s : Session) : Nat := s.kernelLaunches.length + s.currentLaunch.toList.length

/-- A pair whose launch has been stored. -/
def issuedMark (_ : Nat) : CallPhase → Option Unit
  | .stored .. | .finished .. => some ()
  | _ => none

/-- The pairs whose launch has been stored. -/
def issued (n : Nat) (s : Session) : Nat :=
  ((range n).filterMap fun pair => issuedMark pair (s.phase pair)).length

theorem issued_setPhase_eq (s : Session)
    (heq : issuedMark pair phase = issuedMark pair (s.phase pair)) :
    (s.setPhase pair phase).issued n = s.issued n :=
  congrArg List.length (filterMap_setPhase_eq heq)

theorem issued_setPhase_succ (s : Session) (hlt : pair < n)
    (hnone : issuedMark pair (s.phase pair) = none) (hsome : issuedMark pair phase = some ()) :
    (s.setPhase pair phase).issued n = s.issued n + 1 :=
  (filterMap_setPhase_perm hlt hnone hsome).length_eq

theorem held_recordPostLaunch (s : Session) (time : UInt64) :
    (s.recordPostLaunch time).held = s.held := by
  cases hslot : s.currentLaunch with
  | none => simp [recordPostLaunch, hslot]
  | some launch => simp [recordPostLaunch, held, hslot]

/-- A step loses no more than it stores, and nothing if the slot was empty. -/
theorem step_balance (h : InRange n s) (hstep : s.step calls n action = some t) :
    t.held + s.issued n ≤ s.held + t.issued n ∧
      (t.held + s.issued n = s.held + t.issued n → s.exclusiveStep calls n action = some t) := by
  rcases step_cases hstep with ⟨pair, elapsedNs, rfl, hphase, _, rfl⟩ |
    ⟨pair, sequenceId, timestampNs, rfl, hphase, rfl⟩ |
    ⟨pair, sequenceId, timestampNs, rfl, hphase, rfl⟩
  · rw [issued_setPhase_eq _ (by rw [hphase]; rfl)]
    exact ⟨Nat.le_refl _, fun _ => hstep⟩
  · have hlt : pair < n := h.lt (by simp [hphase])
    rw [issued_setPhase_succ _ hlt (by rw [hphase]; rfl) rfl]
    show s.kernelLaunches.length + 1 + s.issued n ≤ s.held + (s.issued n + 1) ∧
      (s.kernelLaunches.length + 1 + s.issued n = s.held + (s.issued n + 1) → _)
    cases hslot : s.currentLaunch with
    | none =>
      have hheld : s.held = s.kernelLaunches.length := by simp [held, hslot]
      exact ⟨by omega, fun _ => exclusiveStep_of_none hstep hslot⟩
    | some launch =>
      -- what was in the slot is lost, and the balance is strict
      have hheld : s.held = s.kernelLaunches.length + 1 := by simp [held, hslot]
      exact ⟨by omega, fun heq => by omega⟩
  · rw [issued_setPhase_eq _ (by rw [phase_recordPostLaunch, hphase]; rfl)]
    have hissued : (s.recordPostLaunch (calls pair).executionTimeNs).issued n = s.issued n := by
      simp only [issued, phase_recordPostLaunch]
    have hheld := held_recordPostLaunch s (calls pair).executionTimeNs
    rw [hissued]
    exact ⟨Nat.le_of_eq (congrArg (· + s.issued n) hheld), fun _ => hstep⟩

variable {actions : List SessionAction}

theorem run_balance (h : InRange n s) (hrun : runSteps (step calls n) s actions = some t) :
    t.held + s.issued n ≤ s.held + t.issued n ∧
      (t.held + s.issued n = s.held + t.issued n →
        runSteps (exclusiveStep calls n) s actions = some t) := by
  induction actions generalizing s with
  | nil =>
    obtain rfl := some.inj hrun
    exact ⟨Nat.le_refl _, fun _ => rfl⟩
  | cons action actions ih =>
    obtain ⟨u, hstep, hrest⟩ := Option.bind_eq_some_iff.mp hrun
    obtain ⟨hle, hfirst⟩ := step_balance h hstep
    obtain ⟨hle', hrun'⟩ := ih (h.step hstep) hrest
    refine ⟨by omega, fun heq => ?_⟩
    show (s.exclusiveStep calls n action).bind _ = some t
    rw [hfirst (by omega)]
    exact hrun' (by omega)

theorem Inv.exclusiveRun (h : Inv calls n s)
    (hrun : runSteps (Session.exclusiveStep calls n) s actions = some t) : Inv calls n t :=
  runSteps_induct (G := fun _ => True) (fun _ _ _ h _ hstep => h.exclusiveStep hstep)
    (fun _ _ => trivial) h hrun

/-- What is there for every finished pair is there `n` times. -/
theorem length_of_finished (h : s.Finished n)
    (hf : ∀ pair sequenceId timestampNs, (f pair (.finished sequenceId timestampNs)).isSome) :
    ((range n).filterMap fun pair => f pair (s.phase pair)).length = n := by
  have hlength := filterMap_length_eq_length (f := fun pair => f pair (s.phase pair))
    (l := range n)
  rw [length_range] at hlength
  refine hlength.mpr fun pair hpair => ?_
  obtain ⟨sequenceId, timestampNs, hphase⟩ := h pair (mem_range.mp hpair)
  rw [hphase]
  exact hf pair sequenceId timestampNs

end Session

/-- **Recording launches.** When every pair has finished, the trace holds exactly one
entry per pair, with its sequence number, arguments and execution time, and the
header counts them, exactly when every launch was stored into an empty slot. -/
theorem recording_complete_iff {calls : Nat → LaunchCall} {n : Nat} {actions : List SessionAction}
    {s : Session} (hrun : runSteps (Session.step calls n) .start actions = some s)
    (hfinished : s.Finished n) :
    s.Recorded calls n ↔ runSteps (Session.exclusiveStep calls n) .start actions = some s := by
  constructor
  · intro hrecorded
    obtain ⟨hle, hexclusive⟩ := Session.run_balance (fun _ _ => rfl) hrun
    have hissued : s.issued n = n := Session.length_of_finished hfinished fun _ _ _ => rfl
    have hentries : s.kernelLaunches.length = n :=
      hrecorded.entries.length_eq.trans
        (Session.length_of_finished hfinished fun _ _ _ => rfl)
    have hnone : Session.start.issued n = 0 := by
      simp [Session.issued, Session.start, Session.issuedMark]
    have hempty : Session.start.held = 0 := rfl
    have hheld : s.held = s.kernelLaunches.length + s.currentLaunch.toList.length := rfl
    exact hexclusive (by omega)
  · intro hexclusive
    exact (Session.inv_start.exclusiveRun hexclusive).toRecorded

/-- Two kernels, told apart by their names and times. -/
def twoCalls (pair : Nat) : LaunchCall where
  kernelName := if pair = 0 then "first" else "second"
  moduleHandle := 0
  functionHandle := 0
  gridDim := (1, 1, 1)
  blockDim := (1, 1, 1)
  sharedMemBytes := 0
  streamHandle := 0
  arguments := []
  executionTimeNs := if pair = 0 then 10 else 20

/-- One pair after the other. -/
theorem recording_complete_iff_serial :
    ∃ s, runSteps (Session.step twoCalls 2) .start
        [.nextSequence 0 1, .storeLaunch 0, .postLaunch 0,
          .nextSequence 1 2, .storeLaunch 1, .postLaunch 1] = some s ∧
      (s.Recorded twoCalls 2 ↔ runSteps (Session.exclusiveStep twoCalls 2) .start
        [.nextSequence 0 1, .storeLaunch 0, .postLaunch 0,
          .nextSequence 1 2, .storeLaunch 1, .postLaunch 1] = some s) := by
  refine ⟨_, rfl, recording_complete_iff rfl fun pair hlt => ?_⟩
  rcases (by omega : pair = 0 ∨ pair = 1) with rfl | rfl
  · exact ⟨0, 1, rfl⟩
  · exact ⟨1, 2, rfl⟩

/-- The second launch is stored before the first is posted: one entry for two
pairs, with the arguments of the second and the time of the first. -/
theorem recording_overlap_lost :
    ∃ s, runSteps (Session.step twoCalls 2) .start
        [.nextSequence 0 1, .storeLaunch 0, .nextSequence 1 2, .storeLaunch 1, .postLaunch 0,
          .postLaunch 1] = some s ∧
      s.Finished 2 ∧ s.totalKernels = 1 ∧
      s.kernelLaunches =
        [{ (twoCalls 1).launch 1 2 with executionDurationNs := some 10 }] ∧
      ¬ s.Recorded twoCalls 2 := by
  refine ⟨_, rfl, fun pair hlt => ?_, rfl, rfl, fun h => ?_⟩
  · rcases (by omega : pair = 0 ∨ pair = 1) with rfl | rfl
    · exact ⟨0, 1, rfl⟩
    · exact ⟨1, 2, rfl⟩
  · exact absurd h.entries.length_eq (by decide)

end Concordia.Replay
