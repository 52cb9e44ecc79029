import Concordia.Replay.ReplayAll

/-!
# Replaying again after a reset

`reset` goes back to the first launch and forgets the results, but the buffers keep what
the earlier replay wrote. The launches that are replayed again are the same and fail at
the same place, so the results agree exactly where the checksums of the buffers do
(`verdicts_eq_iff`).
-/

namespace Concordia.Replay

open Concordia.Lib Option ReplayEngine
open List hiding map_map

/-! ## Engines that differ in the bytes -/

namespace ReplayEngine

/-- The same buffers, with perhaps other bytes. -/
structure Alike (e e' : ReplayEngine) : Prop where
  addressMap_eq : e.addressMap = e'.addressMap
  length_eq : ∀ addr, (e.contents addr).map ByteVec.length = (e'.contents addr).map ByteVec.length

variable {e e' : ReplayEngine}

theorem Alike.trans {e'' : ReplayEngine} (h : Alike e e') (h' : Alike e' e'') : Alike e e'' :=
  ⟨h.addressMap_eq.trans h'.addressMap_eq, fun addr => (h.length_eq addr).trans (h'.length_eq addr)⟩

theorem Alike.symm (h : Alike e e') : Alike e' e :=
  ⟨h.addressMap_eq.symm, fun addr => (h.length_eq addr).symm⟩

theorem Alike.isSome_contents (h : Alike e e') (addr : UInt64) :
    (e.contents addr).isSome = (e'.contents addr).isSome := by
  have hlength := congrArg Option.isSome (h.length_eq addr)
  rwa [isSome_map, isSome_map] at hlength

/-- Snapshots keep the lengths, also where one of them fails. -/
theorem alike_applySnapshots (e : ReplayEngine) (snapshots : List MemorySnapshot) :
    Alike (e.applySnapshots snapshots).1 e := by
  induction snapshots generalizing e with
  | nil => exact ⟨rfl, fun _ => rfl⟩
  | cons snapshot rest ih =>
    rcases e.applySnapshot_eq snapshot with ⟨err, herr, _⟩ | ⟨newAddr, m, _, hm, hok⟩
    · rw [applySnapshots_cons_of_error herr]
      exact ⟨rfl, fun _ => rfl⟩
    · rw [applySnapshots_cons_of_ok hok]
      refine (ih _).trans ⟨rfl, fun addr => ?_⟩
      unfold contents memory
      cases e.addressMap addr with
      | none => rfl
      | some a =>
        simp only [bind_some, map_map]
        by_cases h : a = newAddr
        · subst h
          rw [Function.update_self, hm]
          exact congrArg some (snapshot.length_writeTo m.data)
        · rw [Function.update_of_ne h]

/-- The snapshots of one are applied exactly when those of the other are. -/
theorem Alike.applySnapshots_ok_iff (h : Alike e e') (snapshots : List MemorySnapshot) :
    (e.applySnapshots snapshots).2 = none ↔ (e'.applySnapshots snapshots).2 = none := by
  have hsome : ∀ addr, (e.memory addr).isSome = (e'.memory addr).isSome := by
    intro addr
    have hcontents := h.isSome_contents addr
    rwa [contents, contents, isSome_map, isSome_map] at hcontents
  simp only [ReplayEngine.applySnapshots_ok_iff, hsome]

theorem Alike.applySnapshots (h : Alike e e') (snapshots : List MemorySnapshot) :
    Alike (e.applySnapshots snapshots).1 (e'.applySnapshots snapshots).1 :=
  ((alike_applySnapshots e snapshots).trans h).trans (alike_applySnapshots e' snapshots).symm

/-! ## Checksums -/

/-- The checksum of the buffer of an address. -/
def crcAt (e : ReplayEngine) (addr : UInt64) : Option UInt32 :=
  (e.contents addr).map fun data => crc32Checksum data.data

theorem mismatch_eq (e : ReplayEngine) (snapshot : MemorySnapshot) :
    e.mismatch snapshot = (e.contents snapshot.deviceAddr).bind fun data =>
      if crc32Checksum data.data ≠ snapshot.checksum then some
        ⟨snapshot.deviceAddr, 0, data.length, snapshot.checksum, crc32Checksum data.data⟩
      else none := by
  unfold mismatch contents
  cases e.memory snapshot.deviceAddr with
  | none => rfl
  | some memory => rfl

variable {snapshot : MemorySnapshot}

theorem mismatch_eq_some_iff {m : MemoryMismatch} :
    e.mismatch snapshot = some m ↔ ∃ data, e.contents snapshot.deviceAddr = some data ∧
      crc32Checksum data.data ≠ snapshot.checksum ∧
      ⟨snapshot.deviceAddr, 0, data.length, snapshot.checksum, crc32Checksum data.data⟩ = m := by
  rw [mismatch_eq, bind_eq_some_iff]
  simp only [ite_none_right_eq_some, Option.some.injEq]

/-- Where the checksum is not the recorded one, the list of mismatches tells it. -/
theorem crcAt_eq_of_mem {outputs : List MemorySnapshot} {data : ByteVec}
    (hsub : ∀ m ∈ outputs.filterMap e.mismatch, m ∈ outputs.filterMap e'.mismatch)
    (hmem : snapshot ∈ outputs) (hdata : e.contents snapshot.deviceAddr = some data)
    (hne : crc32Checksum data.data ≠ snapshot.checksum) :
    e'.crcAt snapshot.deviceAddr = e.crcAt snapshot.deviceAddr := by
  have hin := hsub _ (mem_filterMap.mpr
    ⟨snapshot, hmem, mismatch_eq_some_iff.mpr ⟨data, hdata, hne, rfl⟩⟩)
  obtain ⟨other, _, hother⟩ := mem_filterMap.mp hin
  obtain ⟨data', hdata', _, heq⟩ := mismatch_eq_some_iff.mp hother
  obtain ⟨haddr, _, _, _, hcrc⟩ := MemoryMismatch.mk.inj heq
  rw [crcAt, crcAt, hdata, ← haddr, hdata', map_some, map_some, hcrc]

/-- **Mismatches.** The lists agree exactly when the checksums do. -/
theorem Alike.mismatches_eq_iff (h : Alike e e') (outputs : List MemorySnapshot) :
    outputs.filterMap e.mismatch = outputs.filterMap e'.mismatch ↔
      ∀ snapshot ∈ outputs, e.crcAt snapshot.deviceAddr = e'.crcAt snapshot.deviceAddr := by
  constructor
  · intro heq snapshot hmem
    cases hdata : e.contents snapshot.deviceAddr with
    | none =>
      have hnone : e'.contents snapshot.deviceAddr = none := by
        rw [← not_isSome_iff_eq_none, ← h.isSome_contents, hdata]
        exact Bool.false_ne_true
      rw [crcAt, crcAt, hdata, hnone]
    | some data =>
      by_cases hcrc : crc32Checksum data.data = snapshot.checksum
      · -- then it is the other list that would tell
        obtain ⟨data', hdata'⟩ := isSome_iff_exists.mp
          ((h.isSome_contents snapshot.deviceAddr).symm.trans (by rw [hdata]; rfl))
        by_cases hcrc' : crc32Checksum data'.data = snapshot.checksum
        · rw [crcAt, crcAt, hdata, hdata', map_some, map_some, hcrc, hcrc']
        · exact crcAt_eq_of_mem (fun m hm => heq ▸ hm) hmem hdata' hcrc'
      · exact (crcAt_eq_of_mem (fun m hm => heq ▸ hm) hmem hdata hcrc).symm
  · intro hcrc
    refine filterMap_congr fun snapshot hmem => ?_
    have hsame := hcrc snapshot hmem
    have hlength := h.length_eq snapshot.deviceAddr
    rw [crcAt, crcAt] at hsame
    rw [mismatch_eq, mismatch_eq]
    cases hdata : e.contents snapshot.deviceAddr with
    | none =>
      rw [hdata] at hlength
      rw [map_eq_none_iff.mp hlength.symm]
    | some data =>
      rw [hdata] at hlength hsame
      obtain ⟨data', hdata', hlen⟩ := map_eq_some_iff.mp hlength.symm
      rw [hdata', map_some, map_some, some_inj] at hsame
      rw [hdata', bind_some, bind_some, hsame, hlen]

end ReplayEngine

/-! ## The results of both replays -/

def inputsOf (launches : List RecordedKernelLaunch) : List MemorySnapshot :=
  launches.flatMap (·.inputMemory)

namespace Player

variable {e e' : Player}

/-- The same setup, with perhaps other bytes. -/
structure AlikeSetup (e e' : Player) : Prop where
  alike : ReplayEngine.Alike e.toReplayEngine e'.toReplayEngine
  modules_eq : e.compiledModules = e'.compiledModules
  config_eq : e.config = e'.config
  callback_eq : e.stepCallback = e'.stepCallback

/-- The launch, replayed with the buffers that the snapshots leave. -/
def verdictAfter (e : Player) (snapshots : List MemorySnapshot) (launch : RecordedKernelLaunch) :
    Bool × List MemoryMismatch :=
  verdict (Player.validation { e with toReplayEngine := (e.applySnapshots snapshots).1 } launch 0)

theorem AlikeSetup.verdict_eq_iff (h : AlikeSetup e e') (launch : RecordedKernelLaunch) :
    verdict (e.validation launch 0) = verdict (e'.validation launch 0) ↔
      e.config.validateOutputs = false ∨ ∀ snapshot ∈ launch.outputMemory,
        e.crcAt snapshot.deviceAddr = e'.crcAt snapshot.deviceAddr := by
  rw [← h.alike.mismatches_eq_iff]
  unfold verdict validation executeKernel
  rw [← h.config_eq, ← h.modules_eq]
  cases e.config.validateOutputs with
  | false => simp
  | true =>
    simp only [if_true, Bool.true_eq_false, false_or, validateKernelOutput,
      Prod.mk.injEq, and_iff_right_iff_imp]
    intro hsame
    rw [hsame]

/-- The verdicts of launches in turn agree exactly when they agree one by one, up to the
first launch that has an input without a buffer. -/
theorem AlikeSetup.verdicts_eq_iff (h : AlikeSetup e e') (launches : List RecordedKernelLaunch) :
    e.verdicts launches = e'.verdicts launches ↔ ∀ i launch, launches[i]? = some launch →
      (e.applySnapshots (inputsOf (launches.take (i + 1)))).2 = none →
      e.verdictAfter (inputsOf (launches.take (i + 1))) launch =
        e'.verdictAfter (inputsOf (launches.take (i + 1))) launch := by
  induction launches generalizing e e' with
  | nil => simp [verdicts]
  | cons launch rest ih =>
    have hinputs : ∀ i, inputsOf ((launch :: rest).take (i + 1)) =
        launch.inputMemory ++ inputsOf (rest.take i) := fun _ => rfl
    have hfirst : inputsOf ((launch :: rest).take (0 + 1)) = launch.inputMemory :=
      append_nil _
    have halike := h.alike.applySnapshots launch.inputMemory
    have hiff := h.alike.applySnapshots_ok_iff launch.inputMemory
    rw [← Nat.and_forall_add_one, hfirst]
    unfold verdicts verdictAfter
    rcases hleft : e.applySnapshots launch.inputMemory with ⟨engine, err⟩
    rcases hright : e'.applySnapshots launch.inputMemory with ⟨engine', err'⟩
    rw [hleft, hright] at hiff halike
    cases err with
    | some err =>
      -- the launch fails in both, and no later one is reached
      cases err' with
      | none => exact absurd (hiff.mpr rfl) (by simp)
      | some err' =>
        refine iff_of_true rfl ⟨fun _ _ hok => absurd hok (by simp), fun i _ _ hok => ?_⟩
        rw [applySnapshots_ok_iff] at hok
        have hbegin : (e.applySnapshots launch.inputMemory).2 = none :=
          (e.applySnapshots_ok_iff _).mpr fun snapshot hmem =>
            hok snapshot (mem_append_left _ hmem)
        rw [hleft] at hbegin
        cases hbegin
    | none =>
      cases err' with
      | some err' => exact absurd (hiff.mp rfl) (by simp)
      | none =>
        have hsetup : AlikeSetup { e with toReplayEngine := engine }
            { e' with toReplayEngine := engine' } :=
          ⟨halike, h.modules_eq, h.config_eq, h.callback_eq⟩
        have hafter : ∀ i, e.applySnapshots (inputsOf ((launch :: rest).take (i + 1 + 1))) =
            engine.applySnapshots (inputsOf (rest.take (i + 1))) := by
          intro i
          rw [hinputs, applySnapshots_append _ _ (by rw [hleft]), hleft]
        have hafter' : ∀ i, e'.applySnapshots (inputsOf ((launch :: rest).take (i + 1 + 1))) =
            engine'.applySnapshots (inputsOf (rest.take (i + 1))) := by
          intro i
          rw [hinputs, applySnapshots_append _ _ (by rw [hright]), hright]
        simp only [hafter, hafter', getElem?_cons_zero, getElem?_cons_succ,
          Option.some.injEq, forall_eq', forall_const]
        rw [List.cons.injEq, ih hsetup]
        rfl

/-- Replaying a launch changes bytes only. -/
theorem alikeSetup_replayNext (w : World) (e : Player) : AlikeSetup (e.replayNext w).1 e := by
  have hrefl : ReplayEngine.Alike e.toReplayEngine e.toReplayEngine := ⟨rfl, fun _ => rfl⟩
  unfold replayNext
  split
  · exact ⟨hrefl, rfl, rfl, rfl⟩
  · dsimp only
    split
    · exact ⟨hrefl, rfl, rfl, rfl⟩
    · next launch _ =>
      have halike := alike_applySnapshots e.toReplayEngine launch.inputMemory
      unfold replayLaunch
      dsimp only
      cases (e.applySnapshots launch.inputMemory).2 with
      | some err => exact ⟨halike, rfl, rfl, rfl⟩
      | none =>
        dsimp only
        split
        · exact ⟨halike, rfl, rfl, rfl⟩
        · exact ⟨halike, rfl, rfl, rfl⟩

theorem alikeSetup_steps (w : World) (n : Nat) (e : Player) : AlikeSetup (steps w n e) e := by
  induction n with
  | zero => exact ⟨⟨rfl, fun _ => rfl⟩, rfl, rfl, rfl⟩
  | succ n ih =>
    have hlast := alikeSetup_replayNext w (steps w n e)
    exact ⟨hlast.alike.trans ih.alike, hlast.modules_eq.trans ih.modules_eq,
      hlast.config_eq.trans ih.config_eq, hlast.callback_eq.trans ih.callback_eq⟩

/-- A loaded engine after `initialize`. -/
structure Fresh (trace : ReplayTrace) (config : ReplayConfig) (e : Player) : Prop where
  trace_eq : e.trace = trace
  config_eq : e.config = config
  initialized : e.initialized = true
  noCallback : e.stepCallback = false
  atStart : e.currentPosition = 0
  noResults : e.validationResults = []

theorem fresh_of_initializeEngine {trace : ReplayTrace} {config : ReplayConfig}
    {virtualAddr next : UInt64} (h : Player.initializeEngine { load trace with config := config }
      virtualAddr = some (e, next, .ok ())) : Fresh trace config e := by
  cases hall : allocateMemory { load trace with config := config } virtualAddr with
  | none =>
    rw [Player.initializeEngine, hall] at h
    cases h
  | some t =>
    obtain ⟨result, hcall, hresult⟩ := initializeEngine_of_allocateMemory rfl hall
    obtain ⟨rfl, hrest⟩ := Prod.mk.inj (some.inj (hcall.symm.trans h))
    have hok := hresult.mp (Prod.mk.inj hrest).2
    obtain ⟨_, ht⟩ := foldlM_allocate hall
    refine ⟨?_, ?_, ?_, ?_, ?_, ?_⟩
    · show t.1.trace = trace
      rw [ht]
      rfl
    · show t.1.config = config
      rw [ht]
    · show (t.1.applySnapshots _).2.isNone = true
      rw [hok]
      rfl
    · show t.1.stepCallback = false
      rw [ht]
      rfl
    · show t.1.currentPosition = 0
      rw [ht]
      rfl
    · show t.1.validationResults = []
      rw [ht]
      rfl

theorem quiet_of_no_callback {w : World} (h : e.stepCallback = false) : Quiet w e := by
  intro n launch validation
  rw [h, Bool.and_false, Bool.false_and]

/-- The checksum of an address's buffer once the snapshots are written to it. -/
def crcAfter (e : Player) (snapshots : List MemorySnapshot) (addr : UInt64) : Option UInt32 :=
  (e.readMemory addr).map fun data => crc32Checksum (writeAll data (e.sharing addr snapshots)).data

variable {snapshots : List MemorySnapshot}

theorem crcAt_applySnapshots (h : (e.applySnapshots snapshots).2 = none) (addr : UInt64) :
    (e.applySnapshots snapshots).1.crcAt addr = e.crcAfter snapshots addr := by
  rw [crcAt, contents_applySnapshots h, map_map]
  rfl

theorem AlikeSetup.verdictAfter_eq_iff (h : AlikeSetup e e')
    (hok : (e.applySnapshots snapshots).2 = none) (launch : RecordedKernelLaunch) :
    e.verdictAfter snapshots launch = e'.verdictAfter snapshots launch ↔
      e.config.validateOutputs = false ∨ ∀ output ∈ launch.outputMemory,
        e.crcAfter snapshots output.deviceAddr = e'.crcAfter snapshots output.deviceAddr := by
  have hok' := (h.alike.applySnapshots_ok_iff snapshots).mp hok
  have hsetup : AlikeSetup { e with toReplayEngine := (e.applySnapshots snapshots).1 }
      { e' with toReplayEngine := (e'.applySnapshots snapshots).1 } :=
    ⟨h.alike.applySnapshots snapshots, h.modules_eq, h.config_eq, h.callback_eq⟩
  simp only [← crcAt_applySnapshots hok, ← crcAt_applySnapshots hok']
  exact hsetup.verdict_eq_iff launch

/-- **Reset.** For every trace, configuration and number of replays: after `reset`,
`replay_all` gives the verdicts of a fresh engine exactly when outputs are not validated, or,
for every launch it replays and every output of it, the inputs up to there give the buffer
left by the earlier replays the same checksum as they give the buffer of the fresh engine. -/
theorem reset_replayAll_iff (w w' w'' : World) {trace : ReplayTrace} {config : ReplayConfig}
    {virtualAddr next : UInt64}
    (hinit : Player.initializeEngine { load trace with config := config }
      virtualAddr = some (e, next, .ok ())) (replays : Nat) {rounds : Nat}
    (hrounds : trace.kernelLaunches.length < rounds) :
    ∃ fresh again result result',
      replayAll w' next rounds e = .returned fresh result ∧
      replayAll w'' next rounds (steps w replays e).reset = .returned again result' ∧
      (again.validationResults.map verdict = fresh.validationResults.map verdict ↔
        config.validateOutputs = false ∨
        ∀ i launch, (selected config trace.kernelLaunches 0)[i]? = some launch →
          (∀ input ∈ inputsOf ((selected config trace.kernelLaunches 0).take (i + 1)),
            (e.readMemory input.deviceAddr).isSome = true) →
          ∀ output ∈ launch.outputMemory,
            (steps w replays e).crcAfter
                (inputsOf ((selected config trace.kernelLaunches 0).take (i + 1)))
                output.deviceAddr =
              e.crcAfter (inputsOf ((selected config trace.kernelLaunches 0).take (i + 1)))
                output.deviceAddr) := by
  have hfresh := fresh_of_initializeEngine hinit
  have halike := alikeSetup_steps w replays e
  have hsame := sameSetup_steps w replays e
  have hcallback : (steps w replays e).reset.stepCallback = false :=
    halike.callback_eq.trans hfresh.noCallback
  have htotal : (steps w replays e).reset.totalKernels < rounds := by
    show (steps w replays e).trace.kernelLaunches.length < rounds
    rwa [hsame.trace_eq, hfresh.trace_eq]
  have htotal' : e.totalKernels < rounds := by rwa [totalKernels, hfresh.trace_eq]
  obtain ⟨fresh, result, hrun, hverdicts⟩ := replayAll_verdicts next hfresh.initialized
    (quiet_of_no_callback (w := w') hfresh.noCallback) htotal'
  have hready : (steps w replays e).reset.initialized = true :=
    hsame.initialized_eq.trans hfresh.initialized
  obtain ⟨again, result', hrun', hverdicts'⟩ := replayAll_verdicts next hready
    (quiet_of_no_callback (w := w'') hcallback) htotal
  refine ⟨fresh, again, result, result', hrun, hrun', ?_⟩
  -- both replay the launches selected from the start
  rw [hfresh.noResults, hfresh.config_eq, hfresh.trace_eq, hfresh.atStart] at hverdicts
  change _ = [] ++ (steps w replays e).reset.verdicts (selected (steps w replays e).config
    (steps w replays e).trace.kernelLaunches 0) at hverdicts'
  have hreset : ∀ launches, (steps w replays e).reset.verdicts launches =
      (steps w replays e).verdicts launches := by
    intro launches
    refine verdicts_congr ?_ ?_ ?_ launches <;> rfl
  rw [halike.config_eq, hfresh.config_eq, hsame.trace_eq, hfresh.trace_eq, hreset] at hverdicts'
  rw [hverdicts, hverdicts', map_nil, nil_append, nil_append,
    halike.verdicts_eq_iff]
  have hbuffers : ∀ inputs : List MemorySnapshot,
      ((steps w replays e).applySnapshots inputs).2 = none ↔
        ∀ input ∈ inputs, (e.readMemory input.deviceAddr).isSome = true := by
    intro inputs
    rw [halike.alike.applySnapshots_ok_iff, applySnapshots_ok_iff]
    simp only [readMemory, isSome_map]
  have hvalidate : (steps w replays e).config.validateOutputs = config.validateOutputs := by
    rw [halike.config_eq, hfresh.config_eq]
  constructor
  · intro hall
    by_cases hoff : config.validateOutputs = false
    · exact .inl hoff
    · refine .inr fun i launch hlaunch hinputs => ?_
      have hok := (hbuffers _).mpr hinputs
      have hone := (halike.verdictAfter_eq_iff hok launch).mp (hall i launch hlaunch hok)
      exact hone.resolve_left (by rwa [hvalidate])
  · intro hcrc i launch hlaunch hok
    refine (halike.verdictAfter_eq_iff hok launch).mpr (hcrc.imp (hvalidate.trans ·) fun hcrc => ?_)
    exact hcrc i launch hlaunch ((hbuffers _).mp hok)

theorem two_le_isizeMax : 2 ≤ isizeMax := by decide

/-- Two bytes at 4096: the first launch writes the first byte and expects the second to be
zero, the second launch writes the second byte. -/
def secondByteLater : ReplayTrace where
  ptxSources := []
  allocations := [⟨4096, 2, [], 0, none⟩]
  kernelLaunches := [
    launchOf [.incremental 0 4096 2 [⟨0, 1, ⟨[1], one_le_isizeMax⟩⟩]]
      [.full 1 4096 ⟨[1, 0], two_le_isizeMax⟩],
    launchOf [.incremental 2 4096 2 [⟨1, 1, ⟨[9], one_le_isizeMax⟩⟩]] []]

theorem isSome_initializeEngine_secondByteLater :
    (Player.initializeEngine { load secondByteLater with config := {} } firstVirtualAddr).isSome =
      true := by
  decide +kernel

/-- The engine of that trace, initialised. -/
def secondByteEngine : Player × UInt64 × Except String Unit :=
  (Player.initializeEngine { load secondByteLater with config := {} } firstVirtualAddr).get
    isSome_initializeEngine_secondByteLater

theorem initializeEngine_secondByteLater :
    Player.initializeEngine { load secondByteLater with config := {} } firstVirtualAddr =
      some (secondByteEngine.1, secondByteEngine.2.1, .ok ()) := by
  have hok : secondByteEngine.2.2.isOk = true := by decide +kernel
  have hresult : secondByteEngine.2.2 = .ok () := by
    cases h : secondByteEngine.2.2 with
    | error err =>
      rw [h] at hok
      cases hok
    | ok _ => rfl
  rw [← hresult]
  exact (some_get isSome_initializeEngine_secondByteLater).symm

/-- After the first launch alone, `reset` and `replay_all` give what a fresh engine gives. -/
theorem reset_replayAll_after_one : ∃ fresh again result result',
    replayAll quietWorld secondByteEngine.2.1 3 secondByteEngine.1 = .returned fresh result ∧
    replayAll quietWorld secondByteEngine.2.1 3 (steps quietWorld 1 secondByteEngine.1).reset =
      .returned again result' ∧
    again.validationResults.map verdict = fresh.validationResults.map verdict := by
  obtain ⟨fresh, again, result, result', hfresh, hagain, hiff⟩ := reset_replayAll_iff quietWorld
    quietWorld quietWorld initializeEngine_secondByteLater 1 (by decide : _ < 3)
  refine ⟨fresh, again, result, result', hfresh, hagain, hiff.mpr (.inr ?_)⟩
  have hall : ∀ i < 2, ∀ launch ∈ (selected {} secondByteLater.kernelLaunches 0)[i]?,
      ∀ output ∈ launch.outputMemory,
        (steps quietWorld 1 secondByteEngine.1).crcAfter
            (inputsOf ((selected {} secondByteLater.kernelLaunches 0).take (i + 1)))
            output.deviceAddr =
          secondByteEngine.1.crcAfter
            (inputsOf ((selected {} secondByteLater.kernelLaunches 0).take (i + 1)))
            output.deviceAddr := by
    decide +kernel
  intro i launch hlaunch _
  have hlength : (selected {} secondByteLater.kernelLaunches 0).length = 2 := by decide +kernel
  obtain ⟨hlt, -⟩ := List.getElem?_eq_some_iff.mp hlaunch
  exact hall i (by omega) launch hlaunch

def passes : ReplayOutcome → Option (List Bool)
  | .returned e _ => some (e.validationResults.map (·.passed))
  | _ => none

theorem exists_returned_of_passes {outcome : ReplayOutcome} {l : List Bool}
    (h : passes outcome = some l) :
    ∃ e result, outcome = .returned e result ∧ e.validationResults.map (·.passed) = l := by
  cases outcome with
  | panicked => cases h
  | outOfRounds => cases h
  | returned e result => exact ⟨e, result, rfl, some.inj h⟩

/-- Replayed again after both launches, the first one fails. -/
theorem reset_keeps_memory : ∃ fresh again result result',
    Player.initializeEngine { load secondByteLater with config := {} } firstVirtualAddr =
      some (secondByteEngine.1, secondByteEngine.2.1, .ok ()) ∧
    replayAll quietWorld secondByteEngine.2.1 3 secondByteEngine.1 = .returned fresh result ∧
    replayAll quietWorld secondByteEngine.2.1 3 (steps quietWorld 2 secondByteEngine.1).reset =
      .returned again result' ∧
    fresh.validationResults.map (·.passed) = [true, true] ∧
    again.validationResults.map (·.passed) = [false, true] := by
  have hfirst : passes (replayAll quietWorld secondByteEngine.2.1 3 secondByteEngine.1) =
      some [true, true] := by
    decide +kernel
  have hsecond : passes (replayAll quietWorld secondByteEngine.2.1 3
      (steps quietWorld 2 secondByteEngine.1).reset) = some [false, true] := by
    decide +kernel
  obtain ⟨fresh, result, hfresh, hpasses⟩ := exists_returned_of_passes hfirst
  obtain ⟨again, result', hagain, hpasses'⟩ := exists_returned_of_passes hsecond
  exact ⟨fresh, again, result, result', initializeEngine_secondByteLater, hfresh, hagain, hpasses,
    hpasses'⟩

end Player

end Concordia.Replay
