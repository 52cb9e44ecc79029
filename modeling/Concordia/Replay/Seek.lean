import Concordia.Lib.TSys
import Concordia.Replay.Buffers

/-!
# Seeking and stepping

`seek` clears the buffers, makes them again from the recorded allocations and applies
the input snapshots of all launches up to the position. A fresh engine applies the
same snapshots one launch at a time, those of the first launch twice. Both leave, for
every recorded address, the zeroed buffer of its size with the snapshots written in
turn (`replayed`), provided the rebuilt buffers have the sizes of the first ones
(`Rebuilds`).
-/

namespace Concordia.Replay

open Concordia.Lib DirtyPageTracker Option ReplayEngine Nat Function
open List hiding map_map

/-! ## Sizes of buffers -/

/-- The size of the buffer that an address has after `allocate_memory`. -/
def allocatedSize (virtualAddr : UInt64) (allocations : List TrackedAllocation) (addr : UInt64) :
    Option UInt64 :=
  (replayAddr (placements virtualAddr allocations) addr).bind fun newAddr =>
    (lastWith Placement.newAddr newAddr (placements virtualAddr allocations)).map (·.size)

/-- The size of the buffer that an address has once `seek` has made them again. -/
def rebuiltSize (virtualAddr : UInt64) (allocations : List TrackedAllocation) (addr : UInt64) :
    Option UInt64 :=
  (replayAddr (placements virtualAddr allocations) addr).bind fun newAddr =>
    (lastWith (fun a => replayAddr (placements virtualAddr allocations) a.deviceAddr)
      (some newAddr) allocations).map (·.size)

/-- Every recorded address gets a buffer of the same size again. Where the buffers
start does not matter. -/
def Rebuilds (allocations : List TrackedAllocation) : Prop :=
  ∀ a ∈ allocations, rebuiltSize 0 allocations a.deviceAddr =
    allocatedSize 0 allocations a.deviceAddr

instance (allocations : List TrackedAllocation) : Decidable (Rebuilds allocations) :=
  inferInstanceAs (Decidable (∀ a ∈ allocations, _))

section

variable {allocations : List TrackedAllocation} {virtualAddr addr : UInt64}

theorem placements_shift (virtualAddr : UInt64) (allocations : List TrackedAllocation) :
    placements virtualAddr allocations =
      (placements 0 allocations).map fun p => { p with newAddr := p.newAddr + virtualAddr } := by
  rw [← placements_add, UInt64.zero_add]

theorem replayAddr_shift (virtualAddr : UInt64) (allocations : List TrackedAllocation)
    (addr : UInt64) :
    replayAddr (placements virtualAddr allocations) addr =
      (replayAddr (placements 0 allocations) addr).map (· + virtualAddr) := by
  rw [placements_shift, replayAddr, lastWith_map, replayAddr, map_map, map_map]
  rfl

theorem map_add_injective (delta : UInt64) :
    Function.Injective (Option.map (· + delta) : Option UInt64 → Option UInt64) :=
  map_injective fun _ _ h => (UInt64.add_left_inj delta).mp h

section

variable (virtualAddr : UInt64) (allocations : List TrackedAllocation)

/-- Which addresses share a buffer does not depend on where the buffers start. -/
theorem replayAddr_eq_iff (addr other : UInt64) :
    replayAddr (placements virtualAddr allocations) addr =
        replayAddr (placements virtualAddr allocations) other ↔
      replayAddr (placements 0 allocations) addr = replayAddr (placements 0 allocations) other := by
  rw [replayAddr_shift virtualAddr allocations addr, replayAddr_shift virtualAddr allocations other]
  exact (map_add_injective virtualAddr).eq_iff

theorem allocatedSize_shift :
    allocatedSize virtualAddr allocations = allocatedSize 0 allocations := by
  funext addr
  rw [allocatedSize, replayAddr_shift, allocatedSize]
  cases replayAddr (placements 0 allocations) addr with
  | none => rfl
  | some newAddr =>
    rw [map_some, bind_some, bind_some, placements_shift, lastWith_map,
      map_map]
    have hkey : lastWith (fun p : Placement => p.newAddr + virtualAddr) (newAddr + virtualAddr)
        (placements 0 allocations) =
          lastWith Placement.newAddr newAddr (placements 0 allocations) :=
      lastWith_congr fun p _ => UInt64.add_left_inj virtualAddr
    rw [hkey]
    rfl

theorem rebuiltSize_shift : rebuiltSize virtualAddr allocations = rebuiltSize 0 allocations := by
  funext addr
  rw [rebuiltSize, replayAddr_shift, rebuiltSize]
  cases replayAddr (placements 0 allocations) addr with
  | none => rfl
  | some newAddr =>
    rw [map_some, bind_some, bind_some]
    refine congrArg _ (lastWith_congr fun a _ => ?_)
    rw [replayAddr_shift]
    exact (map_add_injective virtualAddr).eq_iff (b := some newAddr)

end

theorem replayAddr_eq_none (h : addr ∉ allocations.map (·.deviceAddr)) :
    replayAddr (placements virtualAddr allocations) addr = none := by
  rw [← not_isSome_iff_eq_none, isSome_replayAddr_iff, map_deviceAddr_placements]
  exact h

/-- Exactly the recorded addresses have a buffer. -/
theorem isSome_allocatedSize_iff :
    (allocatedSize virtualAddr allocations addr).isSome = true ↔
      addr ∈ allocations.map (·.deviceAddr) := by
  rw [← map_deviceAddr_placements virtualAddr, ← isSome_replayAddr_iff, allocatedSize]
  cases h : replayAddr (placements virtualAddr allocations) addr with
  | none => simp
  | some newAddr =>
    obtain ⟨p, hp, hnew⟩ := map_eq_some_iff.mp h
    have hlast : (lastWith Placement.newAddr newAddr
        (placements virtualAddr allocations)).isSome = true :=
      lastWith_isSome_iff.mpr ⟨p, mem_of_lastWith hp, hnew⟩
    simp [hlast]

/-- The sizes agree at every address. -/
theorem Rebuilds.rebuiltSize_eq (h : Rebuilds allocations) (addr : UInt64) :
    rebuiltSize virtualAddr allocations addr = allocatedSize 0 allocations addr := by
  rw [rebuiltSize_shift]
  by_cases hmem : addr ∈ allocations.map (·.deviceAddr)
  · obtain ⟨a, ha, rfl⟩ := mem_map.mp hmem
    exact h a ha
  · rw [rebuiltSize, allocatedSize, replayAddr_eq_none hmem]
    rfl

end

/-! ## Zeroed buffers and the snapshots written to them -/

/-- What an address reads once the snapshots are written to zeroed buffers. -/
def replayed (allocations : List TrackedAllocation) (snapshots : List MemorySnapshot)
    (addr : UInt64) : Option ByteVec :=
  (allocatedSize 0 allocations addr).map fun size => writeAll (zeroData size.toNat)
    (snapshots.filter fun snapshot => replayAddr (placements 0 allocations) snapshot.deviceAddr =
      replayAddr (placements 0 allocations) addr)

structure Zeroed (allocations : List TrackedAllocation) (e : ReplayEngine) : Prop where
  placed : ∃ virtualAddr, e.addressMap = replayAddr (placements virtualAddr allocations)
  zero : ∀ addr, e.contents addr =
    (allocatedSize 0 allocations addr).map fun size => zeroData size.toNat

/-- Every snapshot is of a recorded allocation. -/
def Recorded (allocations : List TrackedAllocation) (snapshots : List MemorySnapshot) : Prop :=
  ∀ snapshot ∈ snapshots, snapshot.deviceAddr ∈ allocations.map (·.deviceAddr)

instance (allocations : List TrackedAllocation) (snapshots : List MemorySnapshot) :
    Decidable (Recorded allocations snapshots) :=
  inferInstanceAs (Decidable (∀ snapshot ∈ snapshots, _))

namespace Zeroed

variable {allocations : List TrackedAllocation} {e : ReplayEngine}
  {snapshots : List MemorySnapshot}

theorem isSome_memory_iff (h : Zeroed allocations e) (addr : UInt64) :
    (e.memory addr).isSome = true ↔ addr ∈ allocations.map (·.deviceAddr) := by
  have hzero := congrArg Option.isSome (h.zero addr)
  rw [contents, isSome_map, isSome_map] at hzero
  rw [hzero, isSome_allocatedSize_iff]

theorem applySnapshots_ok (h : Zeroed allocations e) (hrec : Recorded allocations snapshots) :
    (e.applySnapshots snapshots).2 = none :=
  (e.applySnapshots_ok_iff snapshots).mpr fun snapshot hmem =>
    (h.isSome_memory_iff snapshot.deviceAddr).mpr (hrec snapshot hmem)

/-- **Written in turn.** -/
theorem contents_applySnapshots (h : Zeroed allocations e) (hrec : Recorded allocations snapshots)
    (addr : UInt64) :
    (e.applySnapshots snapshots).1.contents addr = replayed allocations snapshots addr := by
  obtain ⟨virtualAddr, hplaced⟩ := h.placed
  rw [ReplayEngine.contents_applySnapshots (h.applySnapshots_ok hrec), h.zero, map_map,
    replayed]
  have hsharing : e.sharing addr snapshots = snapshots.filter fun snapshot =>
      replayAddr (placements 0 allocations) snapshot.deviceAddr =
        replayAddr (placements 0 allocations) addr := by
    rw [sharing, hplaced]
    simp only [replayAddr_eq_iff]
  rw [hsharing]
  rfl

end Zeroed

/-- What a caller does with an engine; `others` is another engine that takes addresses. -/
inductive PlayerOp where
  | setConfig (config : ReplayConfig)
  | setStepCallback
  | initialization
  | replayNext
  | seek (position : Nat)
  | reset
  | others (size : UInt64)

namespace Player

/-- A fresh engine allocates buffers of zeros. -/
theorem zeroed_allocateMemory {e : Player} {virtualAddr : UInt64} {t : Player × UInt64}
    (hmap : ∀ addr, e.addressMap addr = none) (hmem : ∀ newAddr, e.memoryState newAddr = none)
    (h : e.allocateMemory virtualAddr = some t) :
    Zeroed e.trace.allocations t.1.toReplayEngine := by
  have hplaced : ∀ addr, t.1.addressMap addr =
      replayAddr (placements virtualAddr e.trace.allocations) addr := by
    intro addr
    rw [addressMap_allocateMemory h, hmap, or_none]
  refine ⟨⟨virtualAddr, funext hplaced⟩, fun addr => ?_⟩
  rw [contents, memory, hplaced,
    ← allocatedSize_shift virtualAddr, allocatedSize]
  cases replayAddr (placements virtualAddr e.trace.allocations) addr with
  | none => rfl
  | some newAddr =>
    simp only [bind_some]
    rw [memoryState_allocateMemory h, hmem, or_none, map_map, map_map]
    rfl

/-- The loop of `seek` over the allocations, all of them mapped. -/
theorem foldlM_rebuilt {addressMap : UInt64 → Option UInt64} {allocations : List TrackedAllocation}
    (hall : Allocatable allocations)
    (hmap : ∀ a ∈ allocations, (addressMap a.deviceAddr).isSome = true)
    (memory : UInt64 → Option ReconstructedMemory) :
    allocations.foldlM (fun memory allocation =>
        match addressMap allocation.deviceAddr with
        | none => some memory
        | some newAddr => do
          let data ← zeros allocation.size.toNat
          some (update memory newAddr
            (some { deviceAddr := newAddr, data := data, lastSnapshotId := 0 }))) memory =
      some (allocations.foldl (fun memory a => update memory
        ((addressMap a.deviceAddr).getD 0)
        (some ⟨(addressMap a.deviceAddr).getD 0, zeroData a.size.toNat, 0⟩)) memory) := by
  induction allocations generalizing memory with
  | nil => rfl
  | cons a allocations ih =>
    obtain ⟨ha, hall⟩ := forall_mem_cons.mp hall
    obtain ⟨hsome, hmap⟩ := forall_mem_cons.mp hmap
    obtain ⟨newAddr, hnew⟩ := isSome_iff_exists.mp hsome
    rw [foldlM_cons, foldl_cons, ← ih hall hmap]
    simp only [hnew, zeros_of_le ha, getD_some]
    rfl

/-- `seek` makes buffers of zeros again. -/
theorem zeroed_rebuiltMemory {e : Player} {virtualAddr : UInt64}
    (hall : Allocatable e.trace.allocations) (hrebuilds : Rebuilds e.trace.allocations)
    (hplaced : e.addressMap = replayAddr (placements virtualAddr e.trace.allocations)) :
    ∃ memory, e.rebuiltMemory = some memory ∧
      Zeroed e.trace.allocations { e.toReplayEngine with memoryState := memory } := by
  have hmap : ∀ a ∈ e.trace.allocations, (e.addressMap a.deviceAddr).isSome = true := by
    intro a ha
    rw [hplaced, isSome_replayAddr_iff, map_deviceAddr_placements]
    exact mem_map_of_mem ha
  refine ⟨_, foldlM_rebuilt hall hmap _, ⟨virtualAddr, hplaced⟩, fun addr => ?_⟩
  rw [← hrebuilds.rebuiltSize_eq addr, contents, memory, rebuiltSize,
    ← hplaced]
  cases e.addressMap addr with
  | none => rfl
  | some newAddr =>
    simp only [bind_some]
    -- a recorded address is mapped, so its default does not matter
    have hkey : ∀ a ∈ e.trace.allocations, (e.addressMap a.deviceAddr).getD 0 = newAddr ↔
        e.addressMap a.deviceAddr = some newAddr := by
      intro a ha
      obtain ⟨other, hother⟩ := isSome_iff_exists.mp (hmap a ha)
      rw [hother, getD_some, some_inj]
    rw [foldl_insert, or_none, map_map, lastWith_congr hkey, map_map]
    rfl

/-! ## Runs of an engine -/

/-- One call, with the next free address; `none` where it panics. -/
def perform (w : World) (s : Player × UInt64) : PlayerOp → Option (Player × UInt64)
  | .setConfig config => some ({ s.1 with config := config }, s.2)
  | .setStepCallback => some ({ s.1 with stepCallback := true }, s.2)
  | .initialization => (s.1.initializeEngine s.2).map fun r => (r.1, r.2.1)
  | .replayNext => some ((s.1.replayNext w).1, s.2)
  | .seek position => (s.1.seek position).map fun r => (r.1, s.2)
  | .reset => some (s.1.reset, s.2)
  | .others size => some (s.1, s.2 + size)

/-- The runs of an engine from when the trace is loaded. -/
def runs (w : World) (trace : ReplayTrace) : TSys (Player × UInt64) PlayerOp where
  init s := s.1 = load trace
  step s op t := perform w s op = some t

/-- What is known of an engine: the trace is the one loaded, only recorded addresses
are mapped, and an initialised engine has the buffers of `allocate_memory`. -/
structure Known (trace : ReplayTrace) (e : Player) : Prop where
  trace_eq : e.trace = trace
  recorded : ∀ addr, (e.addressMap addr).isSome = true → addr ∈ trace.allocations.map (·.deviceAddr)
  placed : e.initialized = true → Allocatable trace.allocations ∧
    ∃ virtualAddr, e.addressMap = replayAddr (placements virtualAddr trace.allocations)

/-- What replaying and seeking leave alone. -/
structure SameSetup (e e' : Player) : Prop where
  trace_eq : e'.trace = e.trace
  addressMap_eq : e'.addressMap = e.addressMap
  initialized_eq : e'.initialized = e.initialized

variable {trace : ReplayTrace} {e e' : Player}

theorem Known.of_sameSetup (h : Known trace e) (hsame : SameSetup e e') : Known trace e' := by
  refine ⟨hsame.trace_eq.trans h.trace_eq, ?_, ?_⟩
  · rw [hsame.addressMap_eq]
    exact h.recorded
  · rw [hsame.initialized_eq, hsame.addressMap_eq]
    exact h.placed

/-- `initialize` on an engine that is not initialised, buffers allocated. -/
theorem initializeEngine_of_allocateMemory {e : Player} {virtualAddr : UInt64}
    {t : Player × UInt64} (hinit : e.initialized = false)
    (h : e.allocateMemory virtualAddr = some t) :
    ∃ result, e.initializeEngine virtualAddr = some
      ({ t.1.compileModules with
        toReplayEngine := (t.1.applySnapshots (firstInputs e.trace)).1
        initialized := (t.1.applySnapshots (firstInputs e.trace)).2.isNone }, t.2, result) ∧
      (result = .ok () ↔ (t.1.applySnapshots (firstInputs e.trace)).2 = none) := by
  obtain ⟨_, ht⟩ := foldlM_allocate h
  have htrace : t.1.trace = e.trace := by rw [ht]
  have hnot : t.1.initialized = false := by
    rw [ht]
    exact hinit
  have hengine : t.1.compileModules.applySnapshots (firstInputs t.1.compileModules.trace) =
      t.1.applySnapshots (firstInputs e.trace) := by
    rw [← htrace]
    rfl
  unfold initializeEngine
  rw [hinit, h]
  simp only [Bool.false_eq_true, if_false, bind_eq_bind, bind_some,
    reconstructInitialMemory, hengine]
  cases (t.1.applySnapshots (firstInputs e.trace)).2 with
  | none => exact ⟨.ok (), rfl, iff_of_true rfl rfl⟩
  | some err =>
    refine ⟨.error err, ?_, by simp⟩
    simp only [compileModules, hnot, isNone_some]

variable {result : Except String Unit} {virtualAddr next : UInt64}

/-- What `initialize` sets up, also where it fails at the first inputs. -/
theorem Known.setup (h : Known trace e) (hinit : e.initialized = false)
    (hstep : e.initializeEngine virtualAddr = some (e', next, result)) :
    Allocatable trace.allocations ∧ e'.trace = trace ∧
      e'.addressMap = replayAddr (placements virtualAddr trace.allocations) := by
  cases hall : e.allocateMemory virtualAddr with
  | none =>
    unfold Player.initializeEngine at hstep
    rw [if_neg (by simp [hinit]), hall] at hstep
    cases hstep
  | some t =>
    obtain ⟨_, hok, _⟩ := initializeEngine_of_allocateMemory hinit hall
    obtain ⟨rfl, _⟩ := Prod.mk.inj (some.inj (hok.symm.trans hstep))
    obtain ⟨hsizes, ht⟩ := foldlM_allocate hall
    rw [h.trace_eq] at hsizes
    refine ⟨hsizes, ?_, funext fun addr => ?_⟩
    · show t.1.trace = trace
      rw [ht]
      exact h.trace_eq
    · show (t.1.applySnapshots (firstInputs e.trace)).1.addressMap addr = _
      rw [applySnapshots_addressMap, addressMap_allocateMemory hall, h.trace_eq]
      -- an address mapped before is recorded, so it is mapped anew
      cases hold : e.addressMap addr with
      | none => exact or_none
      | some newAddr =>
        refine or_of_isSome (isSome_replayAddr_iff.mpr ?_)
        rw [map_deviceAddr_placements]
        exact h.recorded addr (by rw [hold]; rfl)

theorem Known.initializeEngine (h : Known trace e)
    (hstep : e.initializeEngine virtualAddr = some (e', next, result)) : Known trace e' := by
  cases hinit : e.initialized with
  | true =>
    unfold Player.initializeEngine at hstep
    rw [if_pos hinit] at hstep
    obtain ⟨rfl, _⟩ := Prod.mk.inj (some.inj hstep)
    exact h
  | false =>
    obtain ⟨hsizes, htrace, haddr⟩ := h.setup hinit hstep
    refine ⟨htrace, ?_, fun _ => ⟨hsizes, virtualAddr, haddr⟩⟩
    intro addr hsome
    rw [haddr, isSome_replayAddr_iff, map_deviceAddr_placements] at hsome
    exact hsome

theorem known_load (trace : ReplayTrace) : Known trace (load trace) :=
  ⟨rfl, fun _ hsome => absurd hsome Bool.false_ne_true, fun hinit => nomatch hinit⟩

theorem sameSetup_replayLaunch (w : World) (e : Player) (launch : RecordedKernelLaunch) :
    SameSetup e (e.replayLaunch w launch).1 := by
  have hmap := applySnapshots_addressMap e.toReplayEngine launch.inputMemory
  unfold replayLaunch
  dsimp only
  cases (e.applySnapshots launch.inputMemory).2 with
  | some err => exact ⟨rfl, hmap, rfl⟩
  | none =>
    dsimp only
    split
    · exact ⟨rfl, hmap, rfl⟩
    · exact ⟨rfl, hmap, rfl⟩

theorem sameSetup_replayNext (w : World) (e : Player) : SameSetup e (e.replayNext w).1 := by
  unfold replayNext
  split
  · exact ⟨rfl, rfl, rfl⟩
  · dsimp only
    split
    · exact ⟨rfl, rfl, rfl⟩
    · obtain ⟨htrace, hmap, hinit⟩ := sameSetup_replayLaunch w
        { e with currentPosition := e.nextPosition } _
      exact ⟨htrace, hmap, hinit⟩

theorem sameSetup_seek {position : Nat} (h : e.seek position = some (e', result)) :
    SameSetup e e' := by
  unfold seek at h
  split at h
  · obtain ⟨rfl, _⟩ := Prod.mk.inj (some.inj h)
    exact ⟨rfl, rfl, rfl⟩
  · obtain ⟨memory, _, h⟩ := bind_eq_some_iff.mp h
    have hmap := applySnapshots_addressMap
      { e.toReplayEngine with memoryState := memory } (inputsBefore e.trace (position + 1))
    dsimp only at h
    split at h
    · obtain ⟨rfl, _⟩ := Prod.mk.inj (some.inj h)
      exact ⟨rfl, hmap, rfl⟩
    · obtain ⟨rfl, _⟩ := Prod.mk.inj (some.inj h)
      exact ⟨rfl, hmap, rfl⟩

/-- **Known.** In every run. -/
theorem Known.of_reachable {w : World} {s : Player × UInt64} (h : (runs w trace).Reachable s) :
    Known trace s.1 := by
  refine TSys.Reachable.induct (P := fun s => Known trace s.1) ?_ ?_ h
  · intro s hs
    rw [show s.1 = load trace from hs]
    exact known_load trace
  · intro s op t hs hstep
    cases op with
    | setConfig config =>
      obtain rfl := some.inj hstep
      exact hs.of_sameSetup ⟨rfl, rfl, rfl⟩
    | setStepCallback =>
      obtain rfl := some.inj hstep
      exact hs.of_sameSetup ⟨rfl, rfl, rfl⟩
    | initialization =>
      obtain ⟨⟨e', next, result⟩, hr, rfl⟩ := map_eq_some_iff.mp hstep
      exact hs.initializeEngine hr
    | replayNext =>
      obtain rfl := some.inj hstep
      exact hs.of_sameSetup (sameSetup_replayNext w s.1)
    | seek position =>
      obtain ⟨⟨e', result⟩, hr, rfl⟩ := map_eq_some_iff.mp hstep
      exact hs.of_sameSetup (sameSetup_seek hr)
    | reset =>
      obtain rfl := some.inj hstep
      exact hs.of_sameSetup ⟨rfl, rfl, rfl⟩
    | others size =>
      obtain rfl := some.inj hstep
      exact hs

/-! ## Stepping -/

theorem nextPosition_of_no_filter {e : Player} (h : e.config.kernelFilter = none) :
    e.nextPosition = e.currentPosition := by
  have hpass : ∀ launch, passesFilter e.config launch = true := by
    intro launch
    rw [passesFilter, h]
    rfl
  have hnone : (e.trace.kernelLaunches.drop e.currentPosition).takeWhile
      (fun launch => !passesFilter e.config launch) = [] := by
    cases e.trace.kernelLaunches.drop e.currentPosition with
    | nil => rfl
    | cons launch rest => rw [takeWhile_cons, hpass]; rfl
  rw [nextPosition, hnone]
  rfl

variable {launch : RecordedKernelLaunch}

theorem inputsBefore_succ {n : Nat} (h : trace.kernelLaunches[n]? = some launch) :
    inputsBefore trace (n + 1) = inputsBefore trace n ++ launch.inputMemory := by
  rw [inputsBefore, take_add_one, h, flatMap_append]
  exact congrArg (_ ++ ·) (append_nil _)

theorem recorded_inputsBefore_of_le {m n : Nat} (hmn : m ≤ n)
    (h : Recorded trace.allocations (inputsBefore trace n)) :
    Recorded trace.allocations (inputsBefore trace m) := by
  intro snapshot hmem
  obtain ⟨launch, hlaunch, hin⟩ := mem_flatMap.mp hmem
  exact h snapshot (mem_flatMap.mpr ⟨launch, take_subset_take_left _ hmn hlaunch, hin⟩)

/-- The mismatches that a validation lists, with or without `validate_outputs`. -/
theorem mismatches_validation (e : Player) (launch : RecordedKernelLaunch) (time : UInt64) :
    (e.validation launch time).mismatches =
      if e.config.validateOutputs then (e.validateKernelOutput launch 0).mismatches else [] := by
  unfold validation
  dsimp only
  split
  · exact (validateKernelOutput_congr (fun _ => rfl) launch time 0).1
  · rfl

/-- `replay_next` at a launch whose snapshots all have a buffer. -/
theorem replayNext_of_applied {w : World} {e : Player} {engine : ReplayEngine}
    (hinit : e.initialized = true) (hfilter : e.config.kernelFilter = none)
    (hlaunch : e.trace.kernelLaunches[e.currentPosition]? = some launch)
    (happly : e.applySnapshots launch.inputMemory = (engine, none)) :
    ∃ e' v, e.replayNext w = (e', .ok (some v)) ∧ e'.toReplayEngine = engine ∧
      e'.config = e.config ∧ e'.stepCallback = e.stepCallback ∧
      (e.stepCallback = false → e'.currentPosition = e.currentPosition + 1) ∧
      v.mismatches =
        if e.config.validateOutputs then (engine.validateKernelOutput launch 0).mismatches
        else [] := by
  unfold replayNext
  rw [if_neg (by simp [hinit]), nextPosition_of_no_filter hfilter]
  dsimp only
  rw [hlaunch]
  unfold replayLaunch
  dsimp only
  rw [happly]
  dsimp only
  have hmismatches := mismatches_validation { e with toReplayEngine := engine } launch
    (w.time e.executed)
  split
  · next hdeclined =>
    refine ⟨_, _, rfl, rfl, rfl, rfl, fun hcallback => ?_, hmismatches⟩
    rw [hcallback, Bool.and_false, Bool.false_and] at hdeclined
    cases hdeclined
  · exact ⟨_, _, rfl, rfl, rfl, rfl, fun _ => rfl, hmismatches⟩

/-- The inputs of the first `n` launches are written to the buffers `z`. -/
structure Stepped (trace : ReplayTrace) (config : ReplayConfig) (z : ReplayEngine) (n : Nat)
    (e : Player) : Prop where
  engine_eq : e.toReplayEngine = (z.applySnapshots (inputsBefore trace n)).1
  trace_eq : e.trace = trace
  config_eq : e.config = config
  initialized : e.initialized = true

/-- **One step.** The inputs of the current launch may have been written already. -/
theorem Stepped.replayNext {config : ReplayConfig} {z : ReplayEngine} {n : Nat} {e : Player}
    (h : Stepped trace config z n e) (hz : Zeroed trace.allocations z)
    (hfilter : config.kernelFilter = none)
    (hrec : Recorded trace.allocations (inputsBefore trace (e.currentPosition + 1)))
    (hn : n = e.currentPosition ∨ n = e.currentPosition + 1)
    (hlaunch : trace.kernelLaunches[e.currentPosition]? = some launch) (w : World) :
    ∃ e' v, e.replayNext w = (e', .ok (some v)) ∧
      Stepped trace config z (e.currentPosition + 1) e' ∧ e'.stepCallback = e.stepCallback ∧
      (e.stepCallback = false → e'.currentPosition = e.currentPosition + 1) ∧
      v.mismatches =
        if config.validateOutputs then (e'.validateKernelOutput launch 0).mismatches else [] := by
  have hinputs := inputsBefore_succ hlaunch
  have hbefore := hz.applySnapshots_ok (recorded_inputsBefore_of_le (le_succ _) hrec)
  have hafter := hz.applySnapshots_ok hrec
  rw [hinputs, applySnapshots_append _ _ hbefore] at hafter
  -- the engine after the launch's snapshots, whether they are new or not
  have happly : e.applySnapshots launch.inputMemory =
      ((z.applySnapshots (inputsBefore trace (e.currentPosition + 1))).1, none) := by
    rw [hinputs, applySnapshots_append _ _ hbefore]
    rcases hn with rfl | rfl
    · rw [h.engine_eq]
      exact Prod.ext rfl hafter
    · rw [h.engine_eq, hinputs, applySnapshots_append _ _ hbefore]
      exact applySnapshots_again (Prod.ext rfl hafter)
  obtain ⟨e', v, hnext, hengine, hconfig, hcallback, hposition, hmismatches⟩ :=
    replayNext_of_applied (w := w) h.initialized (h.config_eq ▸ hfilter)
      (h.trace_eq ▸ hlaunch) happly
  have hsame := sameSetup_replayNext w e
  rw [hnext] at hsame
  refine ⟨e', v, hnext, ⟨hengine, hsame.trace_eq.trans h.trace_eq, hconfig.trans h.config_eq,
    hsame.initialized_eq.trans h.initialized⟩, hcallback, hposition, ?_⟩
  rw [hmismatches, hengine, h.config_eq]

/-- The engine after `n` calls of `replay_next`. -/
def steps (w : World) : Nat → Player → Player
  | 0, e => e
  | n + 1, e => ((steps w n e).replayNext w).1

/-- **Stepping.** -/
theorem Stepped.steps {config : ReplayConfig} {z : ReplayEngine} {e : Player}
    (h : Stepped trace config z 1 e) (hz : Zeroed trace.allocations z)
    (hfilter : config.kernelFilter = none) (hcallback : e.stepCallback = false)
    (hposition : e.currentPosition = 0) (w : World) {p : Nat}
    (hp : p < trace.kernelLaunches.length)
    (hrec : Recorded trace.allocations (inputsBefore trace (p + 1))) :
    ∃ n, (n = p ∨ n = p + 1) ∧ Stepped trace config z n (Player.steps w p e) ∧
      (Player.steps w p e).stepCallback = false ∧ (Player.steps w p e).currentPosition = p := by
  induction p with
  | zero => exact ⟨1, .inr rfl, h, hcallback, hposition⟩
  | succ p ih =>
    have hrec' := recorded_inputsBefore_of_le (le_succ (p + 1)) hrec
    obtain ⟨n, hn, hstepped, hcallback, hat⟩ := ih (by omega) hrec'
    obtain ⟨launch, hlaunch⟩ : ∃ launch, trace.kernelLaunches[p]? = some launch :=
      ⟨_, getElem?_eq_getElem (by omega)⟩
    rw [← hat] at hn hrec' hlaunch
    obtain ⟨e', v, hnext, hstepped', hcallback', hposition', _⟩ :=
      hstepped.replayNext hz hfilter hrec' hn hlaunch w
    rw [Player.steps, hnext, ← hat]
    exact ⟨_, .inl rfl, hstepped', hcallback'.trans hcallback, hposition' hcallback⟩

/-- A fresh engine, initialised. -/
theorem exists_fresh (config : ReplayConfig) (virtualAddr : UInt64)
    (hall : Allocatable trace.allocations)
    (hrec : Recorded trace.allocations (inputsBefore trace 1)) :
    ∃ fresh next z,
      Player.initializeEngine { load trace with config := config } virtualAddr =
        some (fresh, next, .ok ()) ∧
      Zeroed trace.allocations z ∧ Stepped trace config z 1 fresh ∧
      fresh.stepCallback = false ∧ fresh.currentPosition = 0 := by
  obtain ⟨t, ht⟩ := exists_foldlM_allocate hall ({ load trace with config := config }, virtualAddr)
  have hz := zeroed_allocateMemory (fun _ => rfl) (fun _ => rfl) ht
  obtain ⟨_, hfields⟩ := foldlM_allocate ht
  have hfirst : firstInputs trace = inputsBefore trace 1 := by
    rw [firstInputs, inputsBefore]
    cases trace.kernelLaunches with
    | nil => rfl
    | cons launch rest => exact (append_nil _).symm
  obtain ⟨result, hinit, hresult⟩ := initializeEngine_of_allocateMemory rfl ht
  have hok : (t.1.applySnapshots (inputsBefore trace 1)).2 = none := hz.applySnapshots_ok hrec
  change _ ↔ (t.1.applySnapshots (firstInputs trace)).2 = none at hresult
  rw [hfirst] at hresult
  rw [hresult.mpr hok] at hinit
  refine ⟨_, _, t.1.toReplayEngine, hinit, hz, ⟨?_, ?_, ?_, ?_⟩, ?_, ?_⟩
  · show (t.1.applySnapshots (firstInputs trace)).1 = _
    rw [hfirst]
  · show t.1.trace = trace
    rw [hfields]
    rfl
  · show t.1.config = config
    rw [hfields]
  · show (t.1.applySnapshots (firstInputs trace)).2.isNone = true
    rw [hfirst, hok]
    rfl
  · show t.1.stepCallback = false
    rw [hfields]
    rfl
  · show t.1.currentPosition = 0
    rw [hfields]
    rfl

/-- `seek` to a position whose inputs are all recorded. -/
theorem stepped_seek {e : Player} (hknown : Known trace e) (hinit : e.initialized = true)
    (hrebuilds : Rebuilds trace.allocations) {position : Nat}
    (hposition : position < trace.kernelLaunches.length)
    (hrec : Recorded trace.allocations (inputsBefore trace (position + 1))) :
    ∃ e' z, e.seek position = some (e', .ok ()) ∧ Zeroed trace.allocations z ∧
      Stepped trace e.config z (position + 1) e' ∧ e'.currentPosition = position := by
  obtain ⟨hall, virtualAddr, hplaced⟩ := hknown.placed hinit
  rw [← hknown.trace_eq] at hall hplaced hrebuilds hposition
  obtain ⟨memory, hmemory, hz⟩ := zeroed_rebuiltMemory hall hrebuilds hplaced
  rw [hknown.trace_eq] at hz
  have hok := hz.applySnapshots_ok hrec
  rw [← hknown.trace_eq] at hok
  have hseek : e.seek position = some ({ e with
      toReplayEngine := (applySnapshots
        { e.toReplayEngine with memoryState := memory } (inputsBefore e.trace (position + 1))).1
      currentPosition := position }, .ok ()) := by
    have hin : ¬ position ≥ e.totalKernels := not_le.mpr hposition
    unfold seek
    rw [if_neg hin, hmemory]
    simp only [bind_eq_bind, bind_some, hok]
  refine ⟨_, _, hseek, hz, ⟨?_, hknown.trace_eq, rfl, hinit⟩, rfl⟩
  rw [hknown.trace_eq]

/-- **Seek.** From every state of every run: where the position is out of range, or the
engine is initialised, the buffers are rebuilt with their sizes and the inputs up to the
position are all of recorded allocations, `seek` and one replay leave the memory and the
mismatches of a fresh engine that is stepped there, and a `seek` that fails changes
neither memory nor position. -/
theorem seek_eq_stepping (w w' : World) {trace : ReplayTrace} {s : Player × UInt64}
    (hrun : (runs w trace).Reachable s) {position : Nat}
    (hcase : trace.kernelLaunches.length ≤ position ∨
      s.1.initialized = true ∧ Rebuilds trace.allocations ∧
        Recorded trace.allocations (inputsBefore trace (position + 1))) :
    ∃ e result, s.1.seek position = some (e, result) ∧
      (result = .ok () → s.1.config.kernelFilter = none → ∀ virtualAddr, ∃ fresh next v v',
        Player.initializeEngine { load trace with config := s.1.config } virtualAddr =
          some (fresh, next, .ok ()) ∧
        (e.replayNext w).2 = .ok (some v) ∧
        ((steps w' position fresh).replayNext w').2 = .ok (some v') ∧
        v.mismatches = v'.mismatches ∧
        ∀ addr, (e.replayNext w).1.readMemory addr =
          ((steps w' position fresh).replayNext w').1.readMemory addr) ∧
      (result ≠ .ok () →
        e.memoryState = s.1.memoryState ∧ e.currentPosition = s.1.currentPosition) := by
  have hknown := Known.of_reachable hrun
  by_cases hposition : trace.kernelLaunches.length ≤ position
  · have hseek : s.1.seek position = some (s.1, .error
        s!"Position {position} out of range (max: {s.1.totalKernels})") := by
      unfold seek
      rw [if_pos]
      rw [totalKernels, hknown.trace_eq]
      exact hposition
    refine ⟨_, _, hseek, ?_, fun _ => ⟨rfl, rfl⟩⟩
    intro hok
    cases hok
  obtain ⟨hinit, hrebuilds, hrec⟩ := hcase.resolve_left hposition
  rw [not_le] at hposition
  obtain ⟨e, z, hseek, hz, hstepped, hat⟩ := stepped_seek hknown hinit hrebuilds hposition hrec
  refine ⟨e, _, hseek, fun _ hfilter virtualAddr => ?_, fun hne => absurd rfl hne⟩
  obtain ⟨fresh, next, z', hfresh, hz', hstepped', hcallback, hzero⟩ := exists_fresh s.1.config
    virtualAddr (hknown.placed hinit).1
    (recorded_inputsBefore_of_le (le_add_left 1 position) hrec)
  obtain ⟨n, hn, hlast, _, hat'⟩ := hstepped'.steps hz' hfilter hcallback hzero w' hposition hrec
  obtain ⟨launch, hlaunch⟩ : ∃ launch, trace.kernelLaunches[position]? = some launch :=
    ⟨_, getElem?_eq_getElem hposition⟩
  obtain ⟨e₁, v, hnext, hafter, _, _, hmismatches⟩ := hstepped.replayNext hz hfilter
    (by rwa [hat]) (.inr (by rw [hat])) (by rwa [hat]) w
  obtain ⟨e₂, v', hnext', hafter', _, _, hmismatches'⟩ := hlast.replayNext hz' hfilter
    (by rwa [hat']) (by rwa [hat']) (by rwa [hat']) w'
  -- both engines hold the snapshots written to zeros
  have hcontents : ∀ addr, e₁.contents addr = e₂.contents addr := by
    intro addr
    rw [hafter.engine_eq, hafter'.engine_eq, hat, hat', hz.contents_applySnapshots hrec,
      hz'.contents_applySnapshots hrec]
  refine ⟨fresh, next, v, v', hfresh, by rw [hnext], by rw [hnext'], ?_, ?_⟩
  · rw [hmismatches, hmismatches',
      (validateKernelOutput_congr hcontents _ 0 0).1]
  · rw [hnext, hnext']
    exact hcontents

/-- No time passes and no callback declines. -/
def quietWorld : World := ⟨fun _ => 0, fun _ _ _ => true⟩

theorem one_le_isizeMax : 1 ≤ isizeMax := by decide

def launchOf (inputs outputs : List MemorySnapshot) : RecordedKernelLaunch where
  sequenceId := 0
  timestampNs := 0
  kernelName := "k"
  moduleHandle := 0
  functionHandle := 0
  gridDim := (1, 1, 1)
  blockDim := (1, 1, 1)
  sharedMemBytes := 0
  streamHandle := 0
  inputMemory := inputs
  outputMemory := outputs

/-- One byte is recorded at 4096. The last launch also has an input at 8192, which
is not recorded. -/
def unrecordedInput : ReplayTrace where
  ptxSources := []
  allocations := [⟨4096, 1, [], 0, none⟩]
  kernelLaunches := [launchOf [.full 0 4096 ⟨[5], one_le_isizeMax⟩] [],
    launchOf [.full 1 4096 ⟨[6], one_le_isizeMax⟩] [],
    launchOf [.full 2 4096 ⟨[7], one_le_isizeMax⟩, .full 3 8192 ⟨[9], one_le_isizeMax⟩] []]

theorem isSome_perform_unrecordedInput :
    (perform quietWorld (load unrecordedInput, firstVirtualAddr) .initialization).isSome := by
  decide +kernel

/-- The engine of the trace, initialised. -/
def unrecordedInputEngine : Player × UInt64 :=
  (perform quietWorld (load unrecordedInput, firstVirtualAddr) .initialization).get
    isSome_perform_unrecordedInput

theorem reachable_unrecordedInputEngine :
    (runs quietWorld unrecordedInput).Reachable unrecordedInputEngine :=
  .step (.init (s := (load unrecordedInput, firstVirtualAddr)) rfl)
    (some_get isSome_perform_unrecordedInput).symm

/-- Two launches are replayed. -/
def replayedTwice : Player × UInt64 :=
  (steps quietWorld 2 unrecordedInputEngine.1, unrecordedInputEngine.2)

theorem reachable_replayedTwice : (runs quietWorld unrecordedInput).Reachable replayedTwice := by
  have hnext : ∀ s : Player × UInt64,
      perform quietWorld s .replayNext = some ((s.1.replayNext quietWorld).1, s.2) := fun _ => rfl
  exact (reachable_unrecordedInputEngine.step (hnext _)).step (hnext _)

theorem seek_eq_stepping_back : replayedTwice.1.currentPosition = 2 ∧
    ∃ e, replayedTwice.1.seek 1 = some (e, .ok ()) ∧ ∃ fresh next v v',
      Player.initializeEngine { load unrecordedInput with config := replayedTwice.1.config } 0 =
        some (fresh, next, .ok ()) ∧
      (e.replayNext quietWorld).2 = .ok (some v) ∧
      ((steps quietWorld 1 fresh).replayNext quietWorld).2 = .ok (some v') ∧
      v.mismatches = v'.mismatches ∧
      ∀ addr, (e.replayNext quietWorld).1.readMemory addr =
        ((steps quietWorld 1 fresh).replayNext quietWorld).1.readMemory addr := by
  have hrecorded : Recorded unrecordedInput.allocations (inputsBefore unrecordedInput (1 + 1)) := by
    decide +kernel
  obtain ⟨e, result, hseek, hok, _⟩ := seek_eq_stepping quietWorld quietWorld
    reachable_replayedTwice (.inr ⟨by decide +kernel, by decide +kernel, hrecorded⟩)
  have hresult : (replayedTwice.1.seek 1).map (·.2.isOk) = some true := by decide +kernel
  rw [hseek] at hresult
  refine ⟨by decide +kernel, ?_⟩
  cases result with
  | error err => cases hresult
  | ok _ => exact ⟨e, hseek, hok rfl (by decide +kernel) 0⟩

theorem isSome_seek_unrecordedInput : (unrecordedInputEngine.1.seek 2).isSome = true := by
  decide +kernel

/-- A `seek` that fails has written memory already. -/
theorem seek_error_changes_memory : ∃ s r, (runs quietWorld unrecordedInput).Reachable s ∧
    s.1.initialized = true ∧ s.1.seek 2 = some r ∧ r.2.isOk = false ∧
    (s.1.readMemory 4096).map (·.data) = some [5] ∧
    (r.1.readMemory 4096).map (·.data) = some [7] := by
  refine ⟨unrecordedInputEngine, _, reachable_unrecordedInputEngine, ?_,
    (some_get isSome_seek_unrecordedInput).symm, ?_, ?_, ?_⟩
  · decide +kernel
  · decide +kernel
  · decide +kernel
  · decide +kernel

end Player

end Concordia.Replay
