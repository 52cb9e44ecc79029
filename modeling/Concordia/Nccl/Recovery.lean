import Mathlib
import Concordia.Lib.TSys
import Concordia.Lib.Fallible

/-!
# Recovery of a ring of ranks

`NcclRecoveryState` keeps the ring of ranks of a communicator: a failure takes a
rank out, a replacement fills the gap, and the end of a restore closes the
recovery. It remembers one failed rank and rebuilds the ring from `0..nranks` at
every failure, so a second failure brings the first rank back, and a replacement
with a new number cannot fail. The ring is what its clients rely on in every
state of a run exactly when no rank is ever isolated, or when there is one rank
and it only replaces itself (`ring_live_iff`).
-/

namespace Concordia.Nccl

open Concordia.Lib TSys
open List hiding beq_eq_decide

/-! ## The state machine -/

inductive FaultClass where
  | transient
  | degraded
  | permanent
  deriving DecidableEq, Repr

inductive NcclRecoveryPhase where
  | healthy
  | isolated
  | restoring
  | reintegrated
  deriving DecidableEq, Repr

structure NcclRecoveryState where
  phase : NcclRecoveryPhase
  originalNranks : Int
  failedRank : Option Int
  replacementRank : Option Int
  activeRanks : List Int
  deriving DecidableEq, Repr

/-- The range `0..n`. -/
def rankRange (n : Int) : List Int := (List.range n.toNat).map Int.ofNat

/-- `validate_rank`. -/
def validateRank (nranks rank : Int) (label : String) : Except String Unit :=
  if nranks ≤ 0 then .error s!"nranks must be positive, got {nranks}"
  else if ¬ (0 ≤ rank ∧ rank < nranks) then .error s!"{label} rank {rank} outside 0..{nranks}"
  else .ok ()

/-- `plan_replacement_ring`. -/
def planReplacementRing (nranks failedRank replacementRank : Int) : Except String (List Int) := do
  validateRank nranks failedRank "failed"
  if (0 ≤ replacementRank ∧ replacementRank < nranks) ∧ replacementRank ≠ failedRank then
    throw s!"replacement rank {replacementRank} collides with existing live rank"
  pure ((rankRange nranks).map fun rank => if rank = failedRank then replacementRank else rank)

namespace NcclRecoveryState

def healthy (nranks : Int) : NcclRecoveryState where
  phase := .healthy
  originalNranks := max nranks 0
  failedRank := none
  replacementRank := none
  activeRanks := if nranks > 0 then rankRange nranks else []

/-- The ring without `rank`, which waits for a replacement. -/
def isolate (s : NcclRecoveryState) (rank : Int) : NcclRecoveryState :=
  { s with
    phase := .isolated
    failedRank := some rank
    replacementRank := none
    activeRanks := (rankRange s.originalNranks).filter (· ≠ rank) }

/-- `on_failure`. -/
def onFailure (s : NcclRecoveryState) (failedRank : Int) (faultClass : FaultClass) :
    Except String NcclRecoveryState := do
  validateRank s.originalNranks failedRank "failed"
  if faultClass = .transient then return s
  return s.isolate failedRank

/-- `with_replacement`. -/
def withReplacement (s : NcclRecoveryState) (replacementRank : Int) :
    Except String NcclRecoveryState := do
  match s.failedRank with
  | none => throw "replacement requested before permanent failure"
  | some failedRank =>
    let ring ← planReplacementRing s.originalNranks failedRank replacementRank
    return { s with
      activeRanks := ring
      phase := .restoring
      replacementRank := some replacementRank }

/-- `restore_complete`. -/
def restoreComplete (s : NcclRecoveryState) : Except String NcclRecoveryState :=
  if s.phase ≠ .restoring then .error "restore completion requires restoring phase"
  else .ok { s with phase := .reintegrated }

end NcclRecoveryState

/-! ## Calls that succeed -/

theorem mem_rankRange {n rank : Int} : rank ∈ rankRange n ↔ 0 ≤ rank ∧ rank < n := by
  simp only [rankRange, mem_map, mem_range]
  constructor
  · rintro ⟨k, hk, rfl⟩
    show 0 ≤ (k : Int) ∧ (k : Int) < n
    omega
  · rintro ⟨hpos, hlt⟩
    exact ⟨rank.toNat, by omega, Int.toNat_of_nonneg hpos⟩

theorem nodup_rankRange (n : Int) : (rankRange n).Nodup :=
  nodup_range.map fun _ _ => Int.ofNat.inj

theorem validateRank_eq_ok_iff {n rank : Int} {label : String} {u : Unit} :
    validateRank n rank label = .ok u ↔ rank ∈ rankRange n := by
  rw [mem_rankRange, validateRank]
  split
  · simp only [reduceCtorEq, false_iff]
    omega
  · split <;> simp_all

/-- The replacement is the failed rank again, or a rank of no other member. -/
theorem planReplacementRing_eq_ok_iff {n failed rank : Int} {ring : List Int} :
    planReplacementRing n failed rank = .ok ring ↔
      failed ∈ rankRange n ∧ (rank ∈ rankRange n → rank = failed) ∧
      ring = (rankRange n).map fun r => if r = failed then rank else r := by
  rw [planReplacementRing, except_bind_eq_ok_iff]
  by_cases hcollides : (0 ≤ rank ∧ rank < n) ∧ rank ≠ failed
  · have hnot : ¬ (rank ∈ rankRange n → rank = failed) :=
      fun h => hcollides.2 (h (mem_rankRange.mpr hcollides.1))
    simp only [if_pos hcollides, hnot, false_and, and_false, iff_false]
    rintro ⟨_, _, h⟩
    exact absurd h (by simp [throw, throwThe, MonadExceptOf.throw, bind, Except.bind])
  · have hown : rank ∈ rankRange n → rank = failed := fun h => by
      by_contra hne
      exact hcollides ⟨mem_rankRange.mp h, hne⟩
    simp only [if_neg hcollides, validateRank_eq_ok_iff, exists_const]
    constructor
    · rintro ⟨hmem, h⟩
      exact ⟨hmem, hown, (Except.ok.inj h).symm⟩
    · rintro ⟨hmem, _, rfl⟩
      exact ⟨hmem, rfl⟩

variable {faultClass : FaultClass}

namespace NcclRecoveryState

variable {s t : NcclRecoveryState} {rank : Int}

theorem onFailure_eq_ok_iff :
    s.onFailure rank faultClass = .ok t ↔ rank ∈ rankRange s.originalNranks ∧
      t = if faultClass = .transient then s else s.isolate rank := by
  rw [onFailure, except_bind_eq_ok_iff]
  simp only [validateRank_eq_ok_iff, exists_const]
  refine and_congr_right fun _ => ?_
  split <;> exact ⟨fun h => (Except.ok.inj h).symm, fun h => h ▸ rfl⟩

theorem withReplacement_eq_ok_iff :
    s.withReplacement rank = .ok t ↔ ∃ failed, s.failedRank = some failed ∧
      failed ∈ rankRange s.originalNranks ∧ (rank ∈ rankRange s.originalNranks → rank = failed) ∧
      t = { s with
        activeRanks := (rankRange s.originalNranks).map fun r => if r = failed then rank else r
        phase := .restoring
        replacementRank := some rank } := by
  unfold withReplacement
  cases hfailed : s.failedRank with
  | none => simp [throw, throwThe, MonadExceptOf.throw]
  | some failed =>
    simp only [except_bind_eq_ok_iff, planReplacementRing_eq_ok_iff, Option.some.injEq,
      exists_eq_left']
    constructor
    · rintro ⟨ring, ⟨hmem, hown, rfl⟩, h⟩
      exact ⟨hmem, hown, (Except.ok.inj h).symm⟩
    · rintro ⟨hmem, hown, rfl⟩
      exact ⟨_, ⟨hmem, hown, rfl⟩, rfl⟩

theorem restoreComplete_eq_ok_iff :
    s.restoreComplete = .ok t ↔ s.phase = .restoring ∧ t = { s with phase := .reintegrated } := by
  unfold restoreComplete
  split
  · simp_all
  · rename_i h
    simp only [not_not.mp h, true_and, Except.ok.injEq]
    exact eq_comm

end NcclRecoveryState

/-! ## Runs -/

/-- A call on the state. -/
inductive Call where
  | failure (rank : Int) (faultClass : FaultClass)
  | replacement (rank : Int)
  | complete
  deriving DecidableEq, Repr

def NcclRecoveryState.call (s : NcclRecoveryState) : Call → Except String NcclRecoveryState
  | .failure rank faultClass => s.onFailure rank faultClass
  | .replacement rank => s.withReplacement rank
  | .complete => s.restoreComplete

/-- The failures that take a rank out. -/
def Call.isolates : Call → Bool
  | .failure _ faultClass => faultClass ≠ .transient
  | _ => false

/-- The state with the ranks reported failed and not brought back since, and the
replacements that joined and have not failed since. -/
structure Watched where
  state : NcclRecoveryState
  down : Finset Int
  joined : Finset Int
  deriving DecidableEq

def Call.downAfter (down : Finset Int) : Call → Finset Int
  | .failure rank faultClass => if faultClass = .transient then down else insert rank down
  | .replacement rank => down.erase rank
  | .complete => down

def Call.joinedAfter (joined : Finset Int) : Call → Finset Int
  | .failure rank faultClass => if faultClass = .transient then joined else joined.erase rank
  | .replacement rank => insert rank joined
  | .complete => joined

open NcclRecoveryState

namespace Watched

def healthy (nranks : Int) : Watched := ⟨.healthy nranks, ∅, ∅⟩

/-- A call that returns `Ok`. -/
def step (w : Watched) (call : Call) : Option Watched :=
  match w.state.call call with
  | .error _ => none
  | .ok state => some ⟨state, call.downAfter w.down, call.joinedAfter w.joined⟩

/-- The ring has nobody twice, nobody who is down, and everybody who joined. -/
structure Members (w : Watched) : Prop where
  nodup : w.state.activeRanks.Nodup
  down : ∀ rank ∈ w.down, rank ∉ w.state.activeRanks
  joined : ∀ rank ∈ w.joined, rank ∈ w.state.activeRanks

/-- And every member can be reported failed, which removes it and nobody else. -/
structure Live (w : Watched) : Prop extends Members w where
  failable : ∀ rank ∈ w.state.activeRanks, ∀ faultClass ≠ .transient,
    ∃ s, w.state.onFailure rank faultClass = .ok s ∧
      s.activeRanks = w.state.activeRanks.erase rank

variable {call : Call}

theorem step_eq_some_iff {w w' : Watched} :
    w.step call = some w' ↔ ∃ s, w.state.call call = .ok s ∧
      w' = ⟨s, call.downAfter w.down, call.joinedAfter w.joined⟩ := by
  unfold step
  cases w.state.call call with
  | error => simp
  | ok s => simp [eq_comm]

variable {w w' : Watched} {n rank : Int}

/-- What a call that isolates a rank leaves. -/
theorem step_isolates (hclass : faultClass ≠ .transient) :
    w.step (.failure rank faultClass) = some w' ↔ rank ∈ rankRange w.state.originalNranks ∧
      w' = ⟨w.state.isolate rank, insert rank w.down, w.joined.erase rank⟩ := by
  rw [step_eq_some_iff]
  simp only [NcclRecoveryState.call, onFailure_eq_ok_iff, if_neg hclass,
    Call.downAfter, Call.joinedAfter]
  constructor
  · rintro ⟨s, ⟨hmem, rfl⟩, rfl⟩
    exact ⟨hmem, rfl⟩
  · rintro ⟨hmem, rfl⟩
    exact ⟨_, ⟨hmem, rfl⟩, rfl⟩

theorem step_transient (h : w.step (.failure rank .transient) = some w') : w' = w := by
  obtain ⟨s, hs, rfl⟩ := step_eq_some_iff.mp h
  obtain ⟨_, rfl⟩ := onFailure_eq_ok_iff.mp hs
  rfl

/-- What a replacement that is taken leaves. -/
theorem step_replacement (h : w.step (.replacement rank) = some w') :
    ∃ failed, w.state.failedRank = some failed ∧ failed ∈ rankRange w.state.originalNranks ∧
      (rank ∈ rankRange w.state.originalNranks → rank = failed) ∧
      w'.state.activeRanks = (rankRange w.state.originalNranks).map
        (fun r => if r = failed then rank else r) ∧
      w'.state.originalNranks = w.state.originalNranks ∧ w'.state.failedRank = some failed ∧
      w'.down = w.down.erase rank ∧ w'.joined = insert rank w.joined := by
  obtain ⟨s, hs, rfl⟩ := step_eq_some_iff.mp h
  obtain ⟨failed, hfailed, hmem, hown, rfl⟩ := withReplacement_eq_ok_iff.mp hs
  exact ⟨failed, hfailed, hmem, hown, rfl, rfl, hfailed, rfl, rfl⟩

theorem step_complete (h : w.step .complete = some w') :
    w.state.phase = .restoring ∧ w' = { w with state.phase := .reintegrated } := by
  obtain ⟨s, hs, rfl⟩ := step_eq_some_iff.mp h
  obtain ⟨hphase, rfl⟩ := restoreComplete_eq_ok_iff.mp hs
  exact ⟨hphase, rfl⟩

/-- The number of ranks is that of the start. -/
theorem step_originalNranks (h : w.step call = some w') :
    w'.state.originalNranks = w.state.originalNranks := by
  cases call with
  | failure rank faultClass =>
    by_cases hclass : faultClass = .transient
    · subst hclass
      rw [step_transient h]
    · obtain ⟨_, rfl⟩ := (step_isolates hclass).mp h
      rfl
  | replacement rank =>
    obtain ⟨_, _, _, _, _, heq, _⟩ := step_replacement h
    exact heq
  | complete =>
    obtain ⟨_, rfl⟩ := step_complete h
    rfl

/-! ## Runs without a failure, and runs of one rank -/

theorem healthy_activeRanks (hn : 0 < n) : (healthy n).state.activeRanks = rankRange n :=
  if_pos hn

theorem healthy_originalNranks (hn : 0 < n) : (healthy n).state.originalNranks = n :=
  max_eq_left hn.le

/-- As long as nobody is isolated, the only call that does not fail is a transient
failure. -/
theorem run_of_not_isolates {calls : List Call} (hcalls : ∀ call ∈ calls, call.isolates = false)
    (hrun : runSteps step (healthy n) calls = some w) : w = healthy n := by
  refine runSteps_induct (P := fun w => w = healthy n) ?_ hcalls rfl hrun
  rintro _ call w' rfl hcall hstep
  cases call with
  | failure rank faultClass =>
    obtain rfl : faultClass = .transient := by simpa [Call.isolates] using hcall
    exact step_transient hstep
  | replacement rank =>
    obtain ⟨failed, hfailed, _⟩ := step_replacement hstep
    exact absurd hfailed (by simp [healthy, NcclRecoveryState.healthy])
  | complete =>
    exact absurd (step_complete hstep).1 (by simp [healthy, NcclRecoveryState.healthy])

theorem live_healthy (hn : 0 < n) : Live (healthy n) where
  nodup := by
    rw [healthy_activeRanks hn]
    exact nodup_rankRange n
  down := by simp [healthy]
  joined := by simp [healthy]
  failable := by
    intro rank hrank faultClass hclass
    rw [healthy_activeRanks hn] at hrank ⊢
    refine ⟨(healthy n).state.isolate rank, ?_, ?_⟩
    · rw [onFailure_eq_ok_iff, healthy_originalNranks hn, if_neg hclass]
      exact ⟨hrank, rfl⟩
    · show (rankRange (healthy n).state.originalNranks).filter _ = _
      rw [healthy_originalNranks hn, (nodup_rankRange n).erase_eq_filter]
      refine filter_congr fun r _ => ?_
      simp [bne, beq_eq_decide]

/-- The one rank is in the ring, or it is down. -/
structure Single (w : Watched) : Prop where
  originalNranks : w.state.originalNranks = 1
  failedRank : ∀ failed, w.state.failedRank = some failed → failed = 0
  ring : (w.state.activeRanks = [0] ∧ w.down = ∅ ∧ w.joined ⊆ {0}) ∨
    (w.state.activeRanks = [] ∧ w.down = {0} ∧ w.joined = ∅)

theorem mem_rankRange_one : rank ∈ rankRange 1 ↔ rank = 0 := by
  rw [mem_rankRange]
  omega

theorem Single.step (h : Single w) (hcall : ∀ r, call = .replacement r → r = 0)
    (hstep : w.step call = some w') : Single w' := by
  cases call with
  | failure rank faultClass =>
    by_cases hclass : faultClass = .transient
    · subst hclass
      rwa [step_transient hstep]
    · obtain ⟨hrank, rfl⟩ := (step_isolates hclass).mp hstep
      obtain rfl : rank = 0 := mem_rankRange_one.mp (h.originalNranks ▸ hrank)
      refine ⟨h.originalNranks, fun failed hfailed => (Option.some.inj hfailed).symm, .inr ⟨?_, ?_⟩⟩
      · show (rankRange w.state.originalNranks).filter _ = []
        rw [h.originalNranks]
        rfl
      · rcases h.ring with ⟨_, hdown, hjoined⟩ | ⟨_, hdown, hjoined⟩
        · refine ⟨by simp [hdown], ?_⟩
          rw [Finset.erase_eq_empty_iff]
          exact Finset.subset_singleton_iff.mp hjoined
        · simp [hdown, hjoined]
  | replacement rank =>
    obtain rfl := hcall rank rfl
    obtain ⟨failed, hfailed, _, _, hactive, hnranks, hfailed', hdown, hjoined⟩ :=
      step_replacement hstep
    obtain rfl := h.failedRank failed hfailed
    refine ⟨hnranks.trans h.originalNranks, fun f hf => ?_, .inl ⟨?_, ?_, ?_⟩⟩
    · exact (Option.some.inj (hfailed'.symm.trans hf)).symm
    · rw [hactive, h.originalNranks]
      rfl
    · rcases h.ring with ⟨_, h0, _⟩ | ⟨_, h0, _⟩ <;> simp [hdown, h0]
    · rw [hjoined, Finset.insert_subset_iff]
      refine ⟨Finset.mem_singleton_self 0, ?_⟩
      rcases h.ring with ⟨_, _, h0⟩ | ⟨_, _, h0⟩
      · exact h0
      · simp [h0]
  | complete =>
    obtain ⟨_, rfl⟩ := step_complete hstep
    exact ⟨h.originalNranks, h.failedRank, h.ring⟩

theorem Single.live (h : Single w) : Live w := by
  rcases h.ring with ⟨hactive, hdown, hjoined⟩ | ⟨hactive, hdown, hjoined⟩
  · refine ⟨⟨by simp [hactive], by simp [hdown], ?_⟩, ?_⟩
    · intro rank hrank
      simpa [hactive] using hjoined hrank
    · intro rank hrank faultClass hclass
      rw [hactive, mem_singleton] at hrank
      subst hrank
      refine ⟨w.state.isolate 0, ?_, ?_⟩
      · rw [onFailure_eq_ok_iff, h.originalNranks, if_neg hclass]
        exact ⟨mem_rankRange_one.mpr rfl, rfl⟩
      · show (rankRange w.state.originalNranks).filter _ = _
        rw [h.originalNranks, hactive]
        rfl
  · exact ⟨⟨by simp [hactive], by simp [hactive], by simp [hjoined]⟩, by simp [hactive]⟩

/-- With a second rank, an isolated rank comes back as soon as that one fails. -/
theorem not_live_isolate (hw : w.state.originalNranks = n) (hn : 1 < n)
    (hrank : rank ∈ rankRange n) {down joined : Finset Int} :
    ¬ Live ⟨w.state.isolate rank, down, joined⟩ := by
  intro h
  obtain ⟨other, hother, hne⟩ : ∃ other ∈ rankRange n, other ≠ rank := by
    by_cases hzero : rank = 0
    · exact ⟨1, mem_rankRange.mpr (by omega), by omega⟩
    · exact ⟨0, mem_rankRange.mpr (by omega), fun h => hzero h.symm⟩
  have hactive : (w.state.isolate rank).activeRanks = (rankRange n).filter (· ≠ rank) := by
    rw [← hw]
    rfl
  have hmem : other ∈ (w.state.isolate rank).activeRanks := by
    rw [hactive]
    exact mem_filter.mpr ⟨hother, by simpa using hne⟩
  obtain ⟨s, hs, hring⟩ := h.failable other hmem .permanent (by decide)
  obtain ⟨_, rfl⟩ := onFailure_eq_ok_iff.mp hs
  -- the new ring has `rank`, the old one does not
  have hring : (rankRange w.state.originalNranks).filter (· ≠ other) =
      (w.state.isolate rank).activeRanks.erase other := hring
  have hback : rank ∈ (rankRange w.state.originalNranks).filter (· ≠ other) :=
    mem_filter.mpr ⟨hw ▸ hrank, by simpa using hne.symm⟩
  have hgone : rank ∈ (w.state.isolate rank).activeRanks :=
    mem_of_mem_erase (hring ▸ hback)
  rw [hactive] at hgone
  simp at hgone

/-- Every state along a run of calls that all return `Ok`. -/
def Along (nranks : Int) (calls : List Call) (P : Watched → Prop) : Prop :=
  ∀ pre w, pre <+: calls → runSteps step (healthy nranks) pre = some w → P w

/-- The state after one of the calls of a run. -/
theorem Along.after {calls pre post : List Call} {P : Watched → Prop} (h : Along n calls P)
    (hcalls : calls = pre ++ call :: post) (hrun : runSteps step (healthy n) calls = some w) :
    ∃ w₀ w₁, runSteps step (healthy n) pre = some w₀ ∧ w₀.step call = some w₁ ∧ P w₁ := by
  rw [hcalls, runSteps_append] at hrun
  obtain ⟨w₀, hw₀, hrest⟩ := Option.bind_eq_some_iff.mp hrun
  obtain ⟨w₁, hw₁, _⟩ := Option.bind_eq_some_iff.mp hrest
  refine ⟨w₀, w₁, hw₀, hw₁, h (pre ++ [call]) w₁ ⟨post, by simp [hcalls]⟩ ?_⟩
  rw [runSteps_append, hw₀]
  show (w₀.step call).bind some = some w₁
  rw [hw₁]
  rfl

/-- **When the ring is the live ranks.** In every state of a run of calls that all
return `Ok`: exactly when no call of it isolates a rank, or the only rank is only
replaced by itself. -/
theorem ring_live_iff (hn : 0 < n) {calls : List Call}
    (hrun : runSteps step (healthy n) calls = some w) :
    Along n calls Live ↔ (∀ call ∈ calls, call.isolates = false) ∨
      (n = 1 ∧ ∀ r, .replacement r ∈ calls → r = 0) := by
  constructor
  · intro hlive
    by_cases hnone : ∀ call ∈ calls, call.isolates = false
    · exact .inl hnone
    have hone : n = 1 := by
      -- the first call that isolates a rank
      by_contra hne
      cases hfirst : calls.find? Call.isolates with
      | none => exact hnone (by simpa using hfirst)
      | some call =>
        obtain ⟨hcall, pre, post, hcalls, hpre⟩ := find?_eq_some_iff_append.mp hfirst
        obtain ⟨w₀, w₁, hw₀, hw₁, hat⟩ := hlive.after hcalls hrun
        obtain rfl := run_of_not_isolates (by simpa using hpre) hw₀
        cases call with
        | failure rank faultClass =>
          obtain ⟨hrank, rfl⟩ := (step_isolates (by simpa [Call.isolates] using hcall)).mp hw₁
          rw [healthy_originalNranks hn] at hrank
          exact not_live_isolate (healthy_originalNranks hn) (by omega) hrank hat
        | replacement rank => simp [Call.isolates] at hcall
        | complete => simp [Call.isolates] at hcall
    refine .inr ⟨hone, fun r hr => ?_⟩
    subst hone
    obtain ⟨pre, post, hcalls⟩ := append_of_mem hr
    obtain ⟨w₀, w₁, hw₀, hw₁, hat⟩ := hlive.after hcalls hrun
    have hnranks : w₀.state.originalNranks = 1 :=
      runSteps_induct (P := fun w => w.state.originalNranks = 1) (G := fun _ => True)
        (fun _ _ _ h _ hstep => (step_originalNranks hstep).trans h) (fun _ _ => trivial) rfl hw₀
    obtain ⟨failed, _, hfailed, _, hactive, hnranks₁, _⟩ := step_replacement hw₁
    rw [hnranks] at hfailed hactive hnranks₁
    obtain rfl := mem_rankRange_one.mp hfailed
    have hmem : r ∈ w₁.state.activeRanks := by
      rw [hactive]
      exact mem_map.mpr ⟨0, hfailed, if_pos rfl⟩
    obtain ⟨s, hs, _⟩ := hat.failable r hmem .permanent (by decide)
    rw [onFailure_eq_ok_iff, hnranks₁] at hs
    exact mem_rankRange_one.mp hs.1
  · rintro (hnone | ⟨rfl, hself⟩) pre w' hpre hw'
    · rw [run_of_not_isolates (fun call hcall => hnone call (hpre.subset hcall)) hw']
      exact live_healthy hn
    · have hsingle : Single w' := by
        refine runSteps_induct (G := fun call => ∀ r, call = .replacement r → r = 0)
          (fun _ _ _ h hcall hstep => h.step hcall hstep) ?_ ?_ hw'
        · rintro call hcall r rfl
          exact hself r (hpre.subset hcall)
        · exact ⟨rfl, by simp [healthy, NcclRecoveryState.healthy],
            .inl ⟨rfl, rfl, by simp [healthy]⟩⟩
      exact hsingle.live

/-- A transient failure of one of four ranks. -/
theorem ring_live_iff_transient : ∃ w,
    runSteps step (healthy 4) [.failure 1 .transient] = some w ∧
    Along 4 [.failure 1 .transient] Live := by
  obtain ⟨w, hw⟩ : ∃ w, runSteps step (healthy 4) [.failure 1 .transient] = some w :=
    Option.isSome_iff_exists.mp (by decide)
  exact ⟨w, hw, (ring_live_iff (by decide) hw).mpr (.inl (by decide))⟩

/-- **A failed rank comes back.** Of four ranks, rank 1 and then rank 2 fails: the
ring has rank 1 again. -/
theorem ring_not_live : ∃ w,
    runSteps step (healthy 4) [.failure 1 .permanent, .failure 2 .permanent] = some w ∧
    w.state.activeRanks = [0, 1, 3] ∧ 1 ∈ w.down ∧ ¬ Live w := by
  have hrun : (runSteps step (healthy 4) [.failure 1 .permanent, .failure 2 .permanent]).map
      (fun w => (w.state.activeRanks, decide (1 ∈ w.down))) = some ([0, 1, 3], true) := by decide
  obtain ⟨w, hw, heq⟩ := Option.map_eq_some_iff.mp hrun
  obtain ⟨hactive, hdown⟩ := Prod.mk.inj heq
  refine ⟨w, hw, hactive, of_decide_eq_true hdown, fun h => ?_⟩
  exact h.down 1 (of_decide_eq_true hdown) (by simp [hactive])

end Watched

end Concordia.Nccl
