import Concordia.Replay.ReplayAll

/-!
# Debug sessions

A session replays until a breakpoint stops it. Breakpoints are looked at before a launch
and again on the next call, at the same position, so a session that is continued from a
breakpoint stays there (`progresses_iff_clear`).
-/

namespace Concordia.Replay

open Concordia.Lib Nat

/-! ## Sessions -/

inductive BreakpointType where
  | kernelSequence (seq : UInt64)
  | kernelName (name : String)
  | memoryAccess (addr : UInt64)
  | kernelCount (count : UInt64)
  deriving DecidableEq, Repr

structure Breakpoint where
  /-- not in the source: tells apart breakpoints that are alike -/
  id : Nat
  bpType : BreakpointType
  enabled : Bool
  hitCount : UInt64
  deriving DecidableEq, Repr

structure DebugSession where
  engine : Player
  breakpoints : List Breakpoint
  paused : Bool
  lastResult : Option ValidationResult
  /-- not in the source: the number of the next breakpoint -/
  nextId : Nat
  /-- not in the source: the breakpoints that were reported, and where -/
  reported : List (Nat × Nat)

/-- The breakpoint is enabled and matches the launch at the position. -/
def Breakpoint.hits (position : Nat) (launch : RecordedKernelLaunch) (bp : Breakpoint) : Bool :=
  bp.enabled && match bp.bpType with
    | .kernelSequence seq => launch.sequenceId == seq
    | .kernelName name => Text.contains name.toList launch.kernelName.toList
    | .kernelCount count => UInt64.ofNat position ≥ count
    | .memoryAccess addr => launch.arguments.any fun arg => arg.deviceAddr.any (· == addr)

/-- How a call of `continue_execution` ends; `report` is the breakpoint that stopped it. -/
inductive SessionOutcome where
  /-- the rounds it was given are over -/
  | outOfRounds
  | returned (s : DebugSession) (report : Option Breakpoint)
      (result : Except String (Option ValidationResult))

namespace DebugSession

/-- `DebugSession::new`. -/
def new (engine : Player) : DebugSession := ⟨engine, [], false, none, 0, []⟩

/-- `add_breakpoint`. -/
def addBreakpoint (s : DebugSession) (bpType : BreakpointType) : DebugSession × Nat :=
  ({ s with
    breakpoints := s.breakpoints ++ [⟨s.nextId, bpType, true, 0⟩]
    nextId := s.nextId + 1 }, s.breakpoints.length)

/-- The loop of `should_break`: the first breakpoint that hits is counted. -/
def hitFirst (position : Nat) (launch : RecordedKernelLaunch) :
    List Breakpoint → List Breakpoint × Option Breakpoint
  | [] => ([], none)
  | bp :: rest =>
    if bp.hits position launch then ({ bp with hitCount := bp.hitCount + 1 } :: rest, some bp)
    else
      let (rest, hit) := hitFirst position launch rest
      (bp :: rest, hit)

/-- `should_break`, with the breakpoint that hits. -/
def shouldBreak (s : DebugSession) : DebugSession × Option Breakpoint :=
  match s.engine.trace.kernelLaunches[s.engine.currentPosition]? with
  | none => (s, none)
  | some launch =>
    let (breakpoints, hit) := hitFirst s.engine.currentPosition launch s.breakpoints
    ({ s with
      breakpoints := breakpoints
      reported := (hit.toList.map fun bp => (bp.id, s.engine.currentPosition)) ++ s.reported }, hit)

/-- `should_break_post`. -/
def shouldBreakPost (result : ValidationResult) : Bool := !result.passed

/-- `continue_execution`, with a bound on its rounds. -/
def continueExecution (w : World) : Nat → DebugSession → SessionOutcome
  | 0, _ => .outOfRounds
  | rounds + 1, s =>
    if s.engine.isComplete then .returned s none (.ok none)
    else
      match s.shouldBreak with
      | (s, some bp) => .returned { s with paused := true } (some bp) (.ok s.lastResult)
      | (s, none) =>
        match s.engine.replayNext w with
        | (engine, .error err) => .returned { s with engine := engine } none (.error err)
        | (engine, .ok none) => .returned { s with engine := engine } none (.ok none)
        | (engine, .ok (some result)) =>
          let s := { s with engine := engine, lastResult := some result }
          if shouldBreakPost result then
            .returned { s with paused := true } none (.ok (some result))
          else continueExecution w rounds s

/-! ## One round -/

open Player

variable {w : World} {s : DebugSession}

theorem shouldBreak_engine (s : DebugSession) : s.shouldBreak.1.engine = s.engine := by
  unfold shouldBreak
  split <;> rfl

theorem continueExecution_of_hit {bp : Breakpoint} (hopen : s.engine.isComplete = false)
    (hhit : s.shouldBreak.2 = some bp) (rounds : Nat) :
    continueExecution w (rounds + 1) s =
      .returned { s.shouldBreak.1 with paused := true } (some bp)
        (.ok s.shouldBreak.1.lastResult) := by
  rw [continueExecution, if_neg (by rw [hopen]; exact Bool.false_ne_true)]
  rcases hbreak : s.shouldBreak with ⟨s', hit⟩
  rw [hbreak] at hhit
  obtain rfl : hit = some bp := hhit
  rfl

/-- A round without one: it returns where `replay_next` leaves the engine, or goes on from
there. -/
theorem continueExecution_of_no_hit (hopen : s.engine.isComplete = false)
    (hhit : s.shouldBreak.2 = none) (rounds : Nat) :
    ∃ s', s'.engine = (s.engine.replayNext w).1 ∧
      ((∃ result, continueExecution w (rounds + 1) s = .returned s' none result) ∨
        (∃ v, (s.engine.replayNext w).2 = .ok (some v)) ∧
          continueExecution w (rounds + 1) s = continueExecution w rounds s') := by
  rw [continueExecution, if_neg (by rw [hopen]; exact Bool.false_ne_true)]
  have hengine := s.shouldBreak_engine
  rcases hbreak : s.shouldBreak with ⟨s', hit⟩
  rw [hbreak] at hhit hengine
  obtain rfl : hit = none := hhit
  dsimp only at hengine ⊢
  rw [hengine]
  rcases s.engine.replayNext w with ⟨engine, result⟩
  cases result with
  | error err => exact ⟨{ s' with engine := engine }, rfl, .inl ⟨_, rfl⟩⟩
  | ok validation =>
    cases validation with
    | none => exact ⟨{ s' with engine := engine }, rfl, .inl ⟨_, rfl⟩⟩
    | some validation =>
      dsimp only
      by_cases hfailed : shouldBreakPost validation = true
      · exact ⟨{ s' with engine := engine, lastResult := some validation, paused := true }, rfl,
          .inl ⟨_, if_pos hfailed⟩⟩
      · exact ⟨{ s' with engine := engine, lastResult := some validation }, rfl,
          .inr ⟨⟨_, rfl⟩, if_neg hfailed⟩⟩

/-! ## Progress -/

theorem replayNext_of_not_initialized {e : Player} (h : e.initialized = false) :
    e.replayNext w = (e, .error "Replay engine not initialized. Call initialize() first.") := by
  rw [replayNext, if_pos (by rw [h]; exact Bool.false_ne_true)]

theorem currentPosition_le_next (w : World) (e : Player) :
    e.currentPosition ≤ (e.replayNext w).1.currentPosition := by
  cases hinit : e.initialized with
  | true => exact currentPosition_le_replayNext w hinit
  | false => rw [replayNext_of_not_initialized hinit]

theorem quiet_replayNext (h : Quiet w s.engine) : Quiet w (s.engine.replayNext w).1 := by
  cases hinit : s.engine.initialized with
  | false => rwa [replayNext_of_not_initialized hinit]
  | true =>
    rcases replayNext_cases hinit w with
      ⟨_, hcall⟩ | ⟨launch, _, ⟨engine, err, _, hcall⟩ | ⟨engine, _, hcall⟩⟩
    all_goals
      rw [hcall]
      exact h

/-- A replay that is not declined advances. -/
theorem currentPosition_lt_of_ok {e : Player} {v : ValidationResult} (hquiet : Quiet w e)
    (hok : (e.replayNext w).2 = .ok (some v)) :
    e.currentPosition < (e.replayNext w).1.currentPosition := by
  cases hinit : e.initialized with
  | false =>
    rw [replayNext_of_not_initialized hinit] at hok
    cases hok
  | true =>
    rcases replayNext_cases hinit w with
      ⟨_, hcall⟩ | ⟨launch, _, ⟨engine, err, _, hcall⟩ | ⟨engine, _, hcall⟩⟩
    · rw [hcall] at hok
      cases hok
    · rw [hcall] at hok
      cases hok
    · rw [hcall, hquiet.currentPosition_afterLaunch]
      exact lt_succ_of_le e.le_nextPosition

/-- While no callback declines, a call returns, at the same position or further on. -/
theorem continueExecution_returns {rounds : Nat} (hquiet : Quiet w s.engine)
    (hrounds : s.engine.totalKernels - s.engine.currentPosition < rounds) :
    ∃ s' report result, continueExecution w rounds s = .returned s' report result ∧
      s.engine.currentPosition ≤ s'.engine.currentPosition := by
  induction rounds generalizing s with
  | zero => exact absurd hrounds (not_lt_zero _)
  | succ rounds ih =>
    cases hopen : s.engine.isComplete with
    | true =>
      refine ⟨s, none, .ok none, ?_, le_refl _⟩
      rw [continueExecution, if_pos hopen]
    | false =>
      cases hhit : s.shouldBreak.2 with
      | some bp =>
        refine ⟨_, _, _, continueExecution_of_hit hopen hhit rounds, ?_⟩
        rw [shouldBreak_engine]
      | none =>
        obtain ⟨s', hengine, ⟨result, hreturned⟩ | ⟨⟨v, hok⟩, hnext⟩⟩ :=
          continueExecution_of_no_hit (w := w) hopen hhit rounds
        · refine ⟨s', none, result, hreturned, ?_⟩
          rw [hengine]
          exact currentPosition_le_next w s.engine
        · -- the next round has fewer launches before it
          have hadvance := currentPosition_lt_of_ok hquiet hok
          have htrace := (sameSetup_replayNext w s.engine).trace_eq
          have hlt : s.engine.currentPosition < s.engine.totalKernels := by
            simpa [isComplete, totalKernels] using hopen
          have hfewer : s'.engine.totalKernels - s'.engine.currentPosition < rounds := by
            rw [hengine, totalKernels, htrace]
            change s.engine.totalKernels - _ < _
            omega
          obtain ⟨s'', report, result, hreturned, hle⟩ := ih (s := s')
            (by rw [hengine]; exact quiet_replayNext hquiet) hfewer
          refine ⟨s'', report, result, hnext.trans hreturned, ?_⟩
          rw [hengine] at hle
          omega

/-- Every input of the launch has a buffer. -/
def Buffered (e : Player) (launch : RecordedKernelLaunch) : Prop :=
  ∀ input ∈ launch.inputMemory, (e.readMemory input.deviceAddr).isSome = true

/-- The next round leaves the position, or reports a breakpoint for the first time there:
the breakpoint that hits has not been reported at the position; if none hits, the engine
is initialised, and the filter skips the launch or its inputs have buffers. -/
def Clear (s : DebugSession) : Prop :=
  match s.shouldBreak.2 with
  | some bp => (bp.id, s.engine.currentPosition) ∉ s.reported
  | none => s.engine.initialized = true ∧
      (s.engine.currentPosition < s.engine.nextPosition ∨
        ∀ launch, s.engine.trace.kernelLaunches[s.engine.currentPosition]? = some launch →
          Buffered s.engine launch)

/-- The call returns, and it advances or is the first to report a breakpoint there. -/
def Progresses (w : World) (s : DebugSession) : Prop :=
  ∃ rounds s' report result, continueExecution w rounds s = .returned s' report result ∧
    (s.engine.currentPosition < s'.engine.currentPosition ∨
      ∃ bp, report = some bp ∧ (bp.id, s.engine.currentPosition) ∉ s.reported)

theorem applySnapshots_ok_iff_buffered (e : Player) (launch : RecordedKernelLaunch) :
    (e.applySnapshots launch.inputMemory).2 = none ↔ Buffered e launch := by
  rw [ReplayEngine.applySnapshots_ok_iff]
  simp only [Buffered, readMemory, Option.isSome_map]

/-- Where the engine is after the first replay of a call. -/
theorem currentPosition_lt_next_iff (hopen : s.engine.isComplete = false)
    (hquiet : Quiet w s.engine) :
    s.engine.currentPosition < (s.engine.replayNext w).1.currentPosition ↔
      s.engine.initialized = true ∧
      (s.engine.currentPosition < s.engine.nextPosition ∨
        ∀ launch, s.engine.trace.kernelLaunches[s.engine.currentPosition]? = some launch →
          Buffered s.engine launch) := by
  cases hinit : s.engine.initialized with
  | false =>
    rw [replayNext_of_not_initialized hinit]
    simp
  | true =>
    have hle := s.engine.le_nextPosition
    have hlt : s.engine.currentPosition < s.engine.trace.kernelLaunches.length := by
      simpa [isComplete] using hopen
    rcases replayNext_cases hinit w with
      ⟨hnone, hcall⟩ | ⟨launch, hlaunch, ⟨engine, err, happly, hcall⟩ | ⟨engine, happly, hcall⟩⟩
    · have hend := List.getElem?_eq_none_iff.mp hnone
      rw [hcall]
      exact iff_of_true (hlt.trans_le hend) ⟨rfl, .inl (hlt.trans_le hend)⟩
    · rw [hcall]
      refine ⟨fun hskip => ⟨rfl, .inl hskip⟩, ?_⟩
      rintro ⟨_, hskip | hbuffered⟩
      · exact hskip
      · -- were nothing skipped, the launch with the missing buffer would be this one
        refine lt_of_le_of_ne hle fun hsame => ?_
        have hok := (applySnapshots_ok_iff_buffered _ launch).mpr
          (hbuffered launch (by rw [hsame]; exact hlaunch))
        rw [happly] at hok
        cases hok
    · rw [hcall, hquiet.currentPosition_afterLaunch]
      refine iff_of_true (lt_succ_of_le hle) ⟨rfl, ?_⟩
      refine hle.lt_or_eq.imp_right fun hsame launch' hlaunch' => ?_
      rw [hsame] at hlaunch'
      obtain rfl := Option.some.inj (hlaunch.symm.trans hlaunch')
      exact (applySnapshots_ok_iff_buffered _ launch).mp (by rw [happly])

/-- **Progress.** While no callback declines, a call on an engine that is not complete
progresses exactly when the session is clear. -/
theorem progresses_iff_clear (hopen : s.engine.isComplete = false) (hquiet : Quiet w s.engine) :
    Progresses w s ↔ Clear s := by
  unfold Clear
  cases hhit : s.shouldBreak.2 with
  | some bp =>
    dsimp only
    constructor
    · rintro ⟨rounds, s', report, result, hreturned, hprogress⟩
      cases rounds with
      | zero => cases hreturned
      | succ rounds =>
        rw [continueExecution_of_hit hopen hhit] at hreturned
        obtain ⟨rfl, rfl, _⟩ := SessionOutcome.returned.inj hreturned
        rcases hprogress with hadvance | ⟨bp', hbp, hfirst⟩
        · rw [shouldBreak_engine] at hadvance
          exact absurd hadvance (lt_irrefl _)
        · obtain rfl := Option.some.inj hbp
          exact hfirst
    · intro hfirst
      exact ⟨1, _, _, _, continueExecution_of_hit hopen hhit 0, .inr ⟨bp, rfl, hfirst⟩⟩
  | none =>
    dsimp only
    rw [← currentPosition_lt_next_iff hopen hquiet]
    constructor
    · rintro ⟨rounds, s', report, result, hreturned, hprogress⟩
      cases rounds with
      | zero => cases hreturned
      | succ rounds =>
        obtain ⟨t, hengine, ⟨result', hreturned'⟩ | ⟨⟨v, hok⟩, _⟩⟩ :=
          continueExecution_of_no_hit (w := w) hopen hhit rounds
        · obtain ⟨rfl, rfl, _⟩ := SessionOutcome.returned.inj (hreturned'.symm.trans hreturned)
          rcases hprogress with hadvance | ⟨bp, hbp, _⟩
          · rwa [hengine] at hadvance
          · cases hbp
        · exact currentPosition_lt_of_ok hquiet hok
    · intro hadvance
      obtain ⟨t, hengine, ⟨result, hreturned⟩ | ⟨_, hnext⟩⟩ :=
        continueExecution_of_no_hit (w := w) hopen hhit
          ((s.engine.replayNext w).1.totalKernels + 1)
      · exact ⟨_, t, none, result, hreturned, .inl (by rwa [hengine])⟩
      · obtain ⟨s', report, result, hreturned, hle⟩ := continueExecution_returns (s := t)
          (by rw [hengine]; exact quiet_replayNext hquiet)
          (by rw [hengine]; exact lt_succ_of_le (sub_le _ _))
        rw [hengine] at hle
        exact ⟨_, s', report, result, hnext.trans hreturned, .inl (hadvance.trans_le hle)⟩

/-- One launch without snapshots. -/
def loneLaunch : ReplayTrace where
  ptxSources := []
  allocations := []
  kernelLaunches := [launchOf [] []]

/-- The loaded engine, with a step callback set. -/
def steppedEngine : Player :=
  { load loneLaunch with config := { stepMode := true }, stepCallback := true }

/-- A callback that always declines. -/
def decliningWorld : World := ⟨fun _ => 0, fun _ _ _ => false⟩

/-- The engine after `initialize`, which finds nothing to do. -/
def readyEngine : Player := { load loneLaunch with initialized := true }

/-- A session that stops at the first launch. -/
def stoppingSession : DebugSession := ((new readyEngine).addBreakpoint (.kernelCount 0)).1

/-- After the first report. -/
def stoppedSession : DebugSession := { stoppingSession.shouldBreak.1 with paused := true }

end DebugSession

end Concordia.Replay
