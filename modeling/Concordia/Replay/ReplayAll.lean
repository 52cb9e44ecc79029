import Concordia.Replay.Seek

/-!
# Replaying a whole trace

`replay_all` replays the launches that the filter lets through, up to the limit, and
stops at the first one with an input snapshot that has no buffer. While no callback
declines, it returns after at most one round for each launch, and the results it leaves
are a function of the trace, the configuration and the memory it starts with
(`replayLoop_verdicts`).
-/

namespace Concordia.Replay

open List Nat Bool Option

namespace Player

/-! ## One call of `replay_next` -/

/-- The validation of a launch whose inputs left the buffers `engine`. -/
def validationAt (w : World) (e : Player) (launch : RecordedKernelLaunch) (engine : ReplayEngine) :
    ValidationResult :=
  Player.validation { e with toReplayEngine := engine } launch (w.time e.executed)

/-- The callback is asked about it, and declines. -/
def declines (w : World) (e : Player) (launch : RecordedKernelLaunch) (engine : ReplayEngine) :
    Bool :=
  e.config.stepMode && e.stepCallback && !w.answer e.executed launch
    (e.validationAt w launch engine)

def afterLaunch (w : World) (e : Player) (launch : RecordedKernelLaunch) (engine : ReplayEngine) :
    Player :=
  { e with
    toReplayEngine := engine
    validationResults := e.validationResults ++ [e.validationAt w launch engine]
    executed := e.executed + 1
    currentPosition := if e.declines w launch engine then e.nextPosition else e.nextPosition + 1 }

/-- What `replay_next` does on an initialised engine. -/
theorem replayNext_cases {e : Player} (hinit : e.initialized = true) (w : World) :
    (e.trace.kernelLaunches[e.nextPosition]? = none ∧
      e.replayNext w = ({ e with currentPosition := e.nextPosition }, .ok none)) ∨
    ∃ launch, e.trace.kernelLaunches[e.nextPosition]? = some launch ∧
      ((∃ engine err, e.applySnapshots launch.inputMemory = (engine, some err) ∧
          e.replayNext w = ({ e with
            toReplayEngine := engine, currentPosition := e.nextPosition }, .error err)) ∨
        ∃ engine, e.applySnapshots launch.inputMemory = (engine, none) ∧
          e.replayNext w =
            (e.afterLaunch w launch engine, .ok (some (e.validationAt w launch engine)))) := by
  unfold replayNext
  rw [if_neg (by simp [hinit])]
  dsimp only
  cases hlaunch : e.trace.kernelLaunches[e.nextPosition]? with
  | none => exact .inl ⟨rfl, rfl⟩
  | some launch =>
    refine .inr ⟨launch, rfl, ?_⟩
    unfold replayLaunch
    dsimp only
    rcases e.applySnapshots launch.inputMemory with ⟨engine, err⟩
    cases err with
    | some err => exact .inl ⟨engine, err, rfl, rfl⟩
    | none =>
      refine .inr ⟨engine, rfl, ?_⟩
      dsimp only
      split
      · next h =>
        have hdeclines : e.declines w launch engine = true := h
        rw [afterLaunch, if_pos hdeclines]
        rfl
      · next h =>
        have haccepts : ¬ e.declines w launch engine = true := h
        rw [afterLaunch, if_neg haccepts]
        rfl

/-- No step callback that would be asked declines. -/
def Quiet (w : World) (e : Player) : Prop :=
  ∀ n launch validation,
    (e.config.stepMode && e.stepCallback && !w.answer n launch validation) = false

theorem Quiet.currentPosition_afterLaunch {w : World} {e : Player} (h : Quiet w e)
    (launch : RecordedKernelLaunch) (engine : ReplayEngine) :
    (e.afterLaunch w launch engine).currentPosition = e.nextPosition + 1 :=
  if_neg (by rw [declines, h]; exact false_ne_true)

/-! ## The launches that are replayed -/

def belowLimit (config : ReplayConfig) (position : Nat) : Bool :=
  config.maxKernels.all (position < ·)

/-- Of the launches from the position on, those that pass the filter. The limit is looked
at before each round, not while the filter skips. -/
def selectedFrom (config : ReplayConfig) : Nat → List RecordedKernelLaunch →
    List RecordedKernelLaunch
  | _, [] => []
  | position, launch :: rest =>
    if passesFilter config launch then
      launch :: if belowLimit config (position + 1) then selectedFrom config (position + 1) rest
        else []
    else selectedFrom config (position + 1) rest

/-- The launches that `replay_all` replays from the position on, if it meets no error. -/
def selected (config : ReplayConfig) (launches : List RecordedKernelLaunch) (position : Nat) :
    List RecordedKernelLaunch :=
  if belowLimit config position then selectedFrom config position (launches.drop position) else []

/-- The filter skips to the next launch that passes. -/
theorem selectedFrom_eq (config : ReplayConfig) (position : Nat) (l : List RecordedKernelLaunch) :
    selectedFrom config position l =
      match l[(l.takeWhile (!passesFilter config ·)).length]? with
      | none => []
      | some launch => launch ::
          if belowLimit config (position + (l.takeWhile (!passesFilter config ·)).length + 1) then
            selectedFrom config (position + (l.takeWhile (!passesFilter config ·)).length + 1)
              (l.drop ((l.takeWhile (!passesFilter config ·)).length + 1))
          else [] := by
  induction l generalizing position with
  | nil => rfl
  | cons launch rest ih =>
    rw [selectedFrom, List.takeWhile_cons]
    by_cases hpass : passesFilter config launch = true
    · simp [hpass]
    · have hskip : (!passesFilter config launch) = true := by simpa using hpass
      rw [if_neg hpass, if_pos hskip, ih, length_cons, getElem?_cons_succ,
        drop_succ_cons]
      have hshift : position + 1 + (rest.takeWhile (!passesFilter config ·)).length =
          position + ((rest.takeWhile (!passesFilter config ·)).length + 1) := by omega
      rw [hshift]

/-- One round of the selection, at an engine. -/
theorem selected_eq (e : Player) (hbelow : belowLimit e.config e.currentPosition = true) :
    selected e.config e.trace.kernelLaunches e.currentPosition =
      match e.trace.kernelLaunches[e.nextPosition]? with
      | none => []
      | some launch => launch :: selected e.config e.trace.kernelLaunches (e.nextPosition + 1) := by
  rw [selected, if_pos hbelow, selectedFrom_eq, getElem?_drop, drop_drop]
  unfold nextPosition
  cases e.trace.kernelLaunches[e.currentPosition +
    ((e.trace.kernelLaunches.drop e.currentPosition).takeWhile
      (!passesFilter e.config ·)).length]? with
  | none => rfl
  | some launch => rfl

/-! ## Results -/

/-- What is compared of a validation. -/
def verdict (validation : ValidationResult) : Bool × List MemoryMismatch :=
  (validation.passed, validation.mismatches)

/-- The verdicts of launches that are replayed in turn; an error ends it. -/
def verdicts (e : Player) : List RecordedKernelLaunch → List (Bool × List MemoryMismatch)
  | [] => []
  | launch :: rest =>
    match e.applySnapshots launch.inputMemory with
    | (_, some _) => []
    | (engine, none) =>
      verdict (Player.validation { e with toReplayEngine := engine } launch 0) ::
        verdicts { e with toReplayEngine := engine } rest

/-- The verdict does not depend on the time. -/
theorem verdict_validation (e : Player) (launch : RecordedKernelLaunch) (time : UInt64) :
    verdict (e.validation launch time) = verdict (e.validation launch 0) := by
  unfold validation
  dsimp only
  split
  · rfl
  · rfl

/-- Verdicts look at the memory, the compiled modules and the configuration only. -/
theorem verdicts_congr {e e' : Player} (hengine : e.toReplayEngine = e'.toReplayEngine)
    (hmodules : e.compiledModules = e'.compiledModules) (hconfig : e.config = e'.config)
    (launches : List RecordedKernelLaunch) : e.verdicts launches = e'.verdicts launches := by
  induction launches generalizing e e' with
  | nil => rfl
  | cons launch rest ih =>
    unfold verdicts
    rw [hengine]
    rcases e'.applySnapshots launch.inputMemory with ⟨engine, err⟩
    cases err with
    | some err => rfl
    | none =>
      dsimp only
      have hrest : verdicts { e with toReplayEngine := engine } rest =
          verdicts { e' with toReplayEngine := engine } rest := by
        refine ih ?_ hmodules hconfig
        rfl
      rw [hrest]
      unfold validation executeKernel
      dsimp only
      rw [hmodules, hconfig]

/-- **Rounds.** While no callback declines, the loop returns, and it adds the verdicts
of the selected launches. -/
theorem replayLoop_verdicts {w : World} {rounds : Nat} {e : Player} (results : ReplayResults)
    (hinit : e.initialized = true) (hquiet : Quiet w e)
    (hrounds : e.totalKernels - e.currentPosition < rounds) :
    ∃ e' result, replayLoop w rounds e results = .returned e' result ∧
      e'.validationResults.map verdict = e.validationResults.map verdict ++
        e.verdicts (selected e.config e.trace.kernelLaunches e.currentPosition) := by
  induction rounds generalizing e results with
  | zero => exact absurd hrounds (not_lt_zero _)
  | succ rounds ih =>
    unfold replayLoop
    by_cases hmore : e.more = true
    · rw [if_neg (by simpa using hmore)]
      have hincomplete : e.currentPosition < e.totalKernels := by
        simpa [more, isComplete, totalKernels] using (and_eq_true_iff.mp hmore).1
      have hbelow : belowLimit e.config e.currentPosition = true :=
        (and_eq_true_iff.mp hmore).2
      rw [selected_eq e hbelow]
      have hnext : e.currentPosition ≤ e.nextPosition := le_add_right _ _
      rcases replayNext_cases hinit w with
        ⟨hnone, hcall⟩ | ⟨launch, hlaunch, ⟨engine, err, happly, hcall⟩ | ⟨engine, happly, hcall⟩⟩
      · rw [hcall, hnone]
        exact ⟨_, _, rfl, (append_nil _).symm⟩
      · rw [hcall, hlaunch]
        refine ⟨_, _, rfl, ?_⟩
        simp only [verdicts, happly, append_nil]
      · rw [hcall, hlaunch]
        -- the round after this one starts further on
        have hfewer : (e.afterLaunch w launch engine).totalKernels -
            (e.afterLaunch w launch engine).currentPosition < rounds := by
          rw [hquiet.currentPosition_afterLaunch]
          show e.totalKernels - (e.nextPosition + 1) < rounds
          omega
        obtain ⟨e', result, hloop, hverdicts⟩ := ih (e := e.afterLaunch w launch engine)
          (results.add (e.validationAt w launch engine)) hinit hquiet hfewer
        refine ⟨e', result, hloop, ?_⟩
        rw [hquiet.currentPosition_afterLaunch] at hverdicts
        have hfirst : verdict (e.validationAt w launch engine) = verdict
            (Player.validation { e with toReplayEngine := engine } launch 0) :=
          verdict_validation _ launch _
        have hrest : (e.afterLaunch w launch engine).verdicts
            (selected e.config e.trace.kernelLaunches (e.nextPosition + 1)) =
            verdicts { e with toReplayEngine := engine }
              (selected e.config e.trace.kernelLaunches (e.nextPosition + 1)) := by
          refine verdicts_congr ?_ ?_ ?_ _ <;> rfl
        calc e'.validationResults.map verdict
            = (e.validationResults ++ [e.validationAt w launch engine]).map verdict ++
                (e.afterLaunch w launch engine).verdicts
                  (selected e.config e.trace.kernelLaunches (e.nextPosition + 1)) := hverdicts
          _ = e.validationResults.map verdict ++ e.verdicts (launch ::
                selected e.config e.trace.kernelLaunches (e.nextPosition + 1)) := by
              rw [map_append, append_assoc, hrest, verdicts, happly]
              dsimp only
              rw [← hfirst]
              rfl
    · rw [if_pos (by simpa using hmore)]
      refine ⟨_, _, rfl, ?_⟩
      -- at the end of the trace or at the limit nothing is selected
      have hnone : selected e.config e.trace.kernelLaunches e.currentPosition = [] := by
        rw [selected]
        split
        · next hbelow =>
          have hcomplete : e.trace.kernelLaunches.length ≤ e.currentPosition := by
            by_contra hlt
            refine hmore (and_eq_true_iff.mpr ⟨?_, hbelow⟩)
            simpa [isComplete] using hlt
          rw [drop_eq_nil_of_le hcomplete]
          rfl
        · rfl
      rw [hnone]
      exact (append_nil _).symm

/-- `replay_all` on an initialised engine. -/
theorem replayAll_verdicts {w : World} {rounds : Nat} {e : Player} (virtualAddr : UInt64)
    (hinit : e.initialized = true) (hquiet : Quiet w e) (hrounds : e.totalKernels < rounds) :
    ∃ e' result, replayAll w virtualAddr rounds e = .returned e' result ∧
      e'.validationResults.map verdict = e.validationResults.map verdict ++
        e.verdicts (selected e.config e.trace.kernelLaunches e.currentPosition) := by
  have hready : e.initializeEngine virtualAddr = some (e, virtualAddr, .ok ()) := by
    rw [initializeEngine, if_pos hinit]
  unfold replayAll
  rw [hready]
  exact replayLoop_verdicts _ hinit hquiet (by omega)

/-! ## When it returns -/

/-- The loop ends in this round: there is nothing left, or the next launch has an input
without a buffer. -/
def Halts (e : Player) : Prop :=
  e.more = false ∨ ∀ launch, e.trace.kernelLaunches[e.nextPosition]? = some launch →
    (e.applySnapshots launch.inputMemory).2 ≠ none

/-- The callback declines the launch that the loop replays in this round. -/
def DeclinesNow (w : World) (e : Player) : Prop :=
  e.more = true ∧ ∃ launch engine, e.trace.kernelLaunches[e.nextPosition]? = some launch ∧
    e.applySnapshots launch.inputMemory = (engine, none) ∧ e.declines w launch engine = true

variable {w : World} {e : Player}

/-- One round: the loop ends, or goes on with the next state. -/
theorem replayLoop_succ (w : World) (hinit : e.initialized = true) (results : ReplayResults) :
    (Halts e ∧ ∀ rounds, ∃ e' result,
        replayLoop w (rounds + 1) e results = .returned e' result) ∨
      (¬ Halts e ∧ ∃ results', ∀ rounds, replayLoop w (rounds + 1) e results =
        replayLoop w rounds (e.replayNext w).1 results') := by
  by_cases hmore : e.more = true
  · have hgo : ¬ ¬ e.more = true := not_not.mpr hmore
    rcases replayNext_cases hinit w with
      ⟨hnone, hcall⟩ | ⟨launch, hlaunch, ⟨engine, err, happly, hcall⟩ | ⟨engine, happly, hcall⟩⟩
    · refine .inl ⟨.inr fun launch hlaunch => ?_, fun _ => ?_⟩
      · rw [hnone] at hlaunch
        cases hlaunch
      · rw [replayLoop, if_neg hgo, hcall]
        exact ⟨_, _, rfl⟩
    · refine .inl ⟨.inr fun launch' hlaunch' => ?_, fun _ => ?_⟩
      · obtain rfl := some.inj (hlaunch.symm.trans hlaunch')
        rw [happly]
        exact Option.some_ne_none err
      · rw [replayLoop, if_neg hgo, hcall]
        exact ⟨_, _, rfl⟩
    · refine .inr ⟨?_, results.add (e.validationAt w launch engine), fun _ => ?_⟩
      · rintro (hdone | hfails)
        · rw [hmore] at hdone
          cases hdone
        · exact hfails launch hlaunch (by rw [happly])
      · rw [replayLoop, if_neg hgo, hcall]
  · refine .inl ⟨.inl (by simpa using hmore), fun _ => ?_⟩
    rw [replayLoop, if_pos hmore]
    exact ⟨_, _, rfl⟩

theorem steps_replayNext (w : World) (n : Nat) (e : Player) :
    steps w n (e.replayNext w).1 = steps w (n + 1) e := by
  induction n with
  | zero => rfl
  | succ n ih =>
    rw [steps, ih]
    rfl

theorem sameSetup_steps (w : World) (n : Nat) (e : Player) : SameSetup e (steps w n e) := by
  induction n with
  | zero => exact ⟨rfl, rfl, rfl⟩
  | succ n ih =>
    have hlast := sameSetup_replayNext w (steps w n e)
    exact ⟨hlast.trace_eq.trans ih.trace_eq, hlast.addressMap_eq.trans ih.addressMap_eq,
      hlast.initialized_eq.trans ih.initialized_eq⟩

theorem initialized_replayNext (w : World) (hinit : e.initialized = true) :
    (e.replayNext w).1.initialized = true :=
  (sameSetup_replayNext w e).initialized_eq.trans hinit

theorem initialized_steps (w : World) (hinit : e.initialized = true) (n : Nat) :
    (steps w n e).initialized = true :=
  (sameSetup_steps w n e).initialized_eq.trans hinit

/-- The loop returns exactly when it comes to a state in which it ends. -/
theorem exists_returned_iff_halts (hinit : e.initialized = true) (results : ReplayResults) :
    (∃ rounds, ∃ e' result, replayLoop w rounds e results = .returned e' result) ↔
      ∃ n, Halts (steps w n e) := by
  constructor
  · rintro ⟨rounds, e', result, hloop⟩
    induction rounds generalizing e results with
    | zero => cases hloop
    | succ rounds ih =>
      rcases replayLoop_succ w hinit results with ⟨hhalts, _⟩ | ⟨_, results', hnext⟩
      · exact ⟨0, hhalts⟩
      · rw [hnext] at hloop
        obtain ⟨n, hn⟩ := ih (initialized_replayNext w hinit) results' hloop
        rw [steps_replayNext] at hn
        exact ⟨n + 1, hn⟩
  · rintro ⟨n, hn⟩
    induction n generalizing e results with
    | zero =>
      rcases replayLoop_succ w hinit results with ⟨_, hreturned⟩ | ⟨hnot, _⟩
      · exact ⟨1, hreturned 0⟩
      · exact absurd hn hnot
    | succ n ih =>
      rcases replayLoop_succ w hinit results with ⟨_, hreturned⟩ | ⟨_, results', hnext⟩
      · exact ⟨1, hreturned 0⟩
      · rw [← steps_replayNext] at hn
        obtain ⟨rounds, hreturned⟩ := ih (initialized_replayNext w hinit) results' hn
        refine ⟨rounds + 1, ?_⟩
        rwa [hnext]

theorem le_nextPosition (e : Player) : e.currentPosition ≤ e.nextPosition := le_add_right _ _

/-- The position never goes back. -/
theorem currentPosition_le_replayNext (w : World) (hinit : e.initialized = true) :
    e.currentPosition ≤ (e.replayNext w).1.currentPosition := by
  have hnext := e.le_nextPosition
  rcases replayNext_cases hinit w with
    ⟨_, hcall⟩ | ⟨launch, _, ⟨engine, err, _, hcall⟩ | ⟨engine, _, hcall⟩⟩
  · rw [hcall]
    exact hnext
  · rw [hcall]
    exact hnext
  · rw [hcall]
    show e.currentPosition ≤ if e.declines w launch engine then e.nextPosition else _
    split <;> omega

theorem currentPosition_steps_le (w : World) (hinit : e.initialized = true) {m n : Nat}
    (hmn : m ≤ n) : (steps w m e).currentPosition ≤ (steps w n e).currentPosition := by
  induction n, hmn using le_induction with
  | base => exact le_refl _
  | succ n _ ih =>
    exact ih.trans (currentPosition_le_replayNext w (initialized_steps w hinit n))

variable {launch : RecordedKernelLaunch}

/-- The launch that the filter arrives at passes it. -/
theorem passesFilter_of_nextPosition (h : e.trace.kernelLaunches[e.nextPosition]? = some launch) :
    passesFilter e.config launch = true := by
  have hskip : ∀ l : List RecordedKernelLaunch,
      l[(l.takeWhile (!passesFilter e.config ·)).length]? = some launch →
      passesFilter e.config launch = true := by
    intro l
    induction l with
    | nil => exact fun h => nomatch h
    | cons first rest ih =>
      by_cases hpass : passesFilter e.config first = true
      · intro hfirst
        simp only [List.takeWhile_cons, hpass, Bool.not_true, false_eq_true, if_false,
          length_nil, getElem?_cons_zero, Option.some.injEq] at hfirst
        exact hfirst ▸ hpass
      · have hnot : (!passesFilter e.config first) = true := by simpa using hpass
        rw [List.takeWhile_cons, if_pos hnot, length_cons, getElem?_cons_succ]
        exact ih
  rw [nextPosition, ← getElem?_drop] at h
  exact hskip _ h

theorem nextPosition_of_passes (h : e.trace.kernelLaunches[e.currentPosition]? = some launch)
    (hpass : passesFilter e.config launch = true) : e.nextPosition = e.currentPosition := by
  obtain ⟨hlt, hget⟩ := List.getElem?_eq_some_iff.mp h
  rw [nextPosition, List.drop_eq_getElem_cons hlt, hget, List.takeWhile_cons, hpass]
  rfl

theorem config_replayNext (w : World) (hinit : e.initialized = true) :
    (e.replayNext w).1.config = e.config := by
  rcases replayNext_cases hinit w with
    ⟨_, hcall⟩ | ⟨launch, _, ⟨engine, err, _, hcall⟩ | ⟨engine, _, hcall⟩⟩
  all_goals rw [hcall]
  rfl

theorem more_eq_false_iff :
    e.more = false ↔ e.trace.kernelLaunches.length ≤ e.currentPosition ∨
      ∃ max ∈ e.config.maxKernels, max ≤ e.currentPosition := by
  rw [more, isComplete]
  cases e.config.maxKernels with
  | none => simp
  | some max => simp [or_iff_not_imp_left]

/-- A round that ends the loop would end it again. -/
theorem Halts.replayNext (w : World) (hinit : e.initialized = true) (h : Halts e) :
    Halts (e.replayNext w).1 := by
  have hsetup := sameSetup_replayNext w e
  have hle := currentPosition_le_replayNext w hinit
  rcases h with hdone | hfails
  · refine .inl (more_eq_false_iff.mpr ?_)
    rw [hsetup.trace_eq, config_replayNext w hinit]
    rcases more_eq_false_iff.mp hdone with hend | ⟨max, hmax, hlimit⟩
    · exact .inl (hend.trans hle)
    · exact .inr ⟨max, hmax, hlimit.trans hle⟩
  · rcases replayNext_cases hinit w with
      ⟨hnone, hcall⟩ | ⟨launch, hlaunch, ⟨engine, err, happly, hcall⟩ | ⟨engine, happly, hcall⟩⟩
    · rw [hcall]
      exact .inl (more_eq_false_iff.mpr (.inl (getElem?_eq_none_iff.mp hnone)))
    · rw [hcall]
      refine .inr fun launch' hlaunch' => ?_
      have hpass := passesFilter_of_nextPosition hlaunch
      have hsame : Player.nextPosition { e with
          toReplayEngine := engine, currentPosition := e.nextPosition } = e.nextPosition :=
        nextPosition_of_passes (e := { e with
          toReplayEngine := engine, currentPosition := e.nextPosition }) hlaunch hpass
      rw [hsame] at hlaunch'
      obtain rfl := some.inj (hlaunch.symm.trans hlaunch')
      -- the snapshot without a buffer still has none
      have hengine : (e.applySnapshots launch.inputMemory).1 = engine := by rw [happly]
      intro hok
      refine hfails launch hlaunch ((e.applySnapshots_ok_iff _).mpr fun snapshot hmem => ?_)
      have hsome := (engine.applySnapshots_ok_iff _).mp hok snapshot hmem
      rwa [← hengine, ReplayEngine.isSome_memory_applySnapshots] at hsome
    · exact absurd (by rw [happly]) (hfails launch hlaunch)

/-- A round that goes on without a decline advances. -/
theorem currentPosition_lt_replayNext (hinit : e.initialized = true) (hgoes : ¬ Halts e)
    (haccepts : ¬ DeclinesNow w e) : e.currentPosition < (e.replayNext w).1.currentPosition := by
  have hmore : e.more = true := by
    by_contra hdone
    exact hgoes (.inl (by simpa using hdone))
  rcases replayNext_cases hinit w with
    ⟨hnone, _⟩ | ⟨launch, hlaunch, ⟨engine, err, happly, _⟩ | ⟨engine, happly, hcall⟩⟩
  · refine absurd (.inr fun launch hlaunch => ?_) hgoes
    rw [hnone] at hlaunch
    cases hlaunch
  · refine absurd (.inr fun launch' hlaunch' => ?_) hgoes
    obtain rfl := some.inj (hlaunch.symm.trans hlaunch')
    rw [happly]
    exact Option.some_ne_none err
  · have hdeclines : ¬ e.declines w launch engine = true := fun hdeclines =>
      haccepts ⟨hmore, launch, engine, hlaunch, happly, hdeclines⟩
    rw [hcall, afterLaunch, if_neg hdeclines]
    exact lt_succ_of_le e.le_nextPosition

/-- **Termination.** The loop returns exactly when the callback does not, from some round
on, decline in every one. -/
theorem exists_returned_iff (hinit : e.initialized = true) (results : ReplayResults) :
    (∃ rounds, ∃ e' result, replayLoop w rounds e results = .returned e' result) ↔
      ∀ n, ∃ m, n ≤ m ∧ ¬ DeclinesNow w (steps w m e) := by
  rw [exists_returned_iff_halts hinit]
  constructor
  · rintro ⟨n, hn⟩ k
    have hstays : ∀ m, n ≤ m → Halts (steps w m e) := by
      intro m hm
      induction m, hm using le_induction with
      | base => exact hn
      | succ m _ ih => exact ih.replayNext w (initialized_steps w hinit m)
    refine ⟨max n k, le_max_right n k, ?_⟩
    rintro ⟨hmore, launch, engine, hlaunch, happly, _⟩
    rcases hstays _ (le_max_left n k) with hdone | hfails
    · rw [hmore] at hdone
      cases hdone
    · exact hfails launch hlaunch (by rw [happly])
  · intro h
    -- each round that is not declined comes closer to the end of the trace
    have hreach : ∀ k n, e.totalKernels - (steps w n e).currentPosition ≤ k →
        ∃ m, Halts (steps w m e) := by
      intro k
      induction k with
      | zero =>
        intro n hn
        refine ⟨n, .inl (more_eq_false_iff.mpr (.inl ?_))⟩
        rw [(sameSetup_steps w n e).trace_eq]
        show e.totalKernels ≤ _
        omega
      | succ k ih =>
        intro n hn
        obtain ⟨m, hnm, hm⟩ := h n
        by_cases hhalts : Halts (steps w m e)
        · exact ⟨m, hhalts⟩
        · have hinit' := initialized_steps w hinit m
          have hmono := currentPosition_steps_le w hinit hnm
          have hadvance := currentPosition_lt_replayNext hinit' hhalts hm
          refine ih (m + 1) ?_
          rw [steps]
          omega
    exact hreach _ 0 (le_refl _)

theorem replayLoop_ne_panicked (w : World) (rounds : Nat) (e : Player) (results : ReplayResults) :
    replayLoop w rounds e results ≠ .panicked := by
  induction rounds generalizing e results with
  | zero => exact fun h => nomatch h
  | succ rounds ih =>
    rw [replayLoop]
    split
    · exact fun h => nomatch h
    · split
      · exact fun h => nomatch h
      · exact fun h => nomatch h
      · exact ih _ _

variable {virtualAddr next : UInt64}

theorem initialized_of_initializeEngine {e' : Player}
    (h : e.initializeEngine virtualAddr = some (e', next, .ok ())) : e'.initialized = true := by
  cases hinit : e.initialized with
  | true =>
    rw [initializeEngine, if_pos hinit] at h
    obtain ⟨rfl, _⟩ := Prod.mk.inj (some.inj h)
    exact hinit
  | false =>
    cases hall : e.allocateMemory virtualAddr with
    | none =>
      rw [initializeEngine, if_neg (by rw [hinit]; exact false_ne_true), hall] at h
      cases h
    | some t =>
      obtain ⟨result, hcall, hresult⟩ := initializeEngine_of_allocateMemory hinit hall
      obtain ⟨rfl, hrest⟩ := Prod.mk.inj (some.inj (hcall.symm.trans h))
      show (t.1.applySnapshots (firstInputs e.trace)).2.isNone = true
      rw [hresult.mp (Prod.mk.inj hrest).2]
      rfl

/-- `replay_all` comes to an end, also by a panic. -/
def Returns (w : World) (virtualAddr : UInt64) (e : Player) : Prop :=
  ∃ rounds, replayAll w virtualAddr rounds e ≠ .outOfRounds

theorem returns_iff (w : World) (virtualAddr : UInt64) (e : Player) :
    Returns w virtualAddr e ↔ ∀ e' next,
      e.initializeEngine virtualAddr = some (e', next, .ok ()) →
      ∀ n, ∃ m, n ≤ m ∧ ¬ DeclinesNow w (steps w m e') := by
  unfold Returns replayAll
  rcases hcall : e.initializeEngine virtualAddr with _ | ⟨e', next, _ | _⟩
  · simp
  · simp
  · have hinit := initialized_of_initializeEngine hcall
    have hreturned : ∀ rounds results, replayLoop w rounds e' results ≠ .outOfRounds ↔
        ∃ e'' result, replayLoop w rounds e' results = .returned e'' result := by
      intro rounds results
      have hpanic := replayLoop_ne_panicked w rounds e' results
      cases hloop : replayLoop w rounds e' results with
      | panicked => exact absurd hloop hpanic
      | outOfRounds => simp
      | returned e'' result => simp
    simp only [hreturned]
    rw [exists_returned_iff hinit]
    refine ⟨fun h e'' next' heq => ?_, fun h => h e' next rfl⟩
    obtain ⟨rfl, _⟩ := Prod.mk.inj (some.inj heq)
    exact h

/-- A callback that always declines is asked about the same launch again. -/
theorem DeclinesNow.replayNext (hinit : e.initialized = true)
    (hno : ∀ n launch validation, w.answer n launch validation = false)
    (hat : e.nextPosition = e.currentPosition) (h : DeclinesNow w e) :
    DeclinesNow w (e.replayNext w).1 ∧
      (e.replayNext w).1.nextPosition = (e.replayNext w).1.currentPosition := by
  obtain ⟨hmore, launch, engine, hlaunch, happly, hdeclines⟩ := h
  rcases replayNext_cases hinit w with
    ⟨hnone, _⟩ | ⟨launch', hlaunch', ⟨engine', err, happly', _⟩ | ⟨engine', happly', hcall⟩⟩
  · rw [hnone] at hlaunch
    cases hlaunch
  · obtain rfl := some.inj (hlaunch.symm.trans hlaunch')
    rw [happly] at happly'
    cases happly'
  · obtain rfl := some.inj (hlaunch.symm.trans hlaunch')
    obtain ⟨rfl, _⟩ := Prod.mk.inj (happly.symm.trans happly')
    have hposition : (e.afterLaunch w launch engine).currentPosition = e.currentPosition := by
      rw [afterLaunch, if_pos hdeclines]
      exact hat
    have hnext : (e.afterLaunch w launch engine).nextPosition = e.nextPosition := by
      rw [nextPosition, hposition]
      rfl
    rw [hcall]
    refine ⟨⟨?_, launch, engine, ?_, ReplayEngine.applySnapshots_again happly, ?_⟩, ?_⟩
    · rw [more, isComplete, hposition]
      exact hmore
    · rw [hnext]
      exact hlaunch
    · have hasked := (and_eq_true_iff.mp hdeclines).1
      exact and_eq_true_iff.mpr ⟨hasked, by rw [hno]; rfl⟩
    · rw [hnext, hposition, hat]

/-- **Declined forever.** -/
theorem not_returns_of_declines {e' : Player}
    (hinit : e.initializeEngine virtualAddr = some (e', next, .ok ()))
    (hno : ∀ n launch validation, w.answer n launch validation = false)
    (hat : e'.nextPosition = e'.currentPosition) (h : DeclinesNow w e') :
    ¬ Returns w virtualAddr e := by
  have hready := initialized_of_initializeEngine hinit
  have hforever : ∀ m, DeclinesNow w (steps w m e') ∧
      (steps w m e').nextPosition = (steps w m e').currentPosition := by
    intro m
    induction m with
    | zero => exact ⟨h, hat⟩
    | succ m ih => exact ih.1.replayNext (initialized_steps w hready m) hno ih.2
  intro hreturns
  obtain ⟨m, _, hm⟩ := (returns_iff w virtualAddr e).mp hreturns e' next hinit 0
  exact hm (hforever m).1

end Player

end Concordia.Replay
