import Concordia.Gpu.OneBlock

/-!
# Several worker blocks

With more than one block the ring is not safe: a block that takes a task only
runs its own share of the element loops, and the exchange of `head` does not
notice another block between the read and the write. What the ring promises
holds in every run exactly when there is one block, or when the capacity does
not fit an `int`, so that the full test refuses every task
(`blocks_safe_iff`).
-/

namespace Concordia.Gpu

open Concordia.Lib GpuPersistentKernel List Nat Option

/-- What the ring promises: no position is taken twice or skipped, `head` never
moves backwards, and when `sync` returns, every element of every task accepted
before the call has been processed. -/
structure Safe {B : Nat} (s : GpuPersistentKernel B) : Prop where
  taken_once : (s.taken.map Prod.snd).Nodup
  none_skipped : ∀ p : Nat, (p : Int) < s.head.toInt → p ∈ s.taken.map Prod.snd
  head_forward : ∀ a t, s.step a = some t → s.head ≤ t.head
  synced : ∀ a t before, s.step a = some t → s.sync.before? = some before → t.sync = .idle →
    ∀ p < before, ∀ task, t.accepted[p]? = some task → task.hasLoop = true →
      ∀ i < task.numel.toInt.toNat,
        ∃ e ∈ t.executed, e.position = p ∧ i ∈ e.task.elements B e.block

/-! ## One block -/

/-- Only the exchange moves `head`. -/
theorem head_of_blockStep {B : Nat} {s t : GpuPersistentKernel B} {k : Fin B}
    (h : s.blockStep k = some t) :
    t.head = s.head ∨ ∃ pos task, s.block k = .publish pos task ∧ t.head = pos + 1 := by
  simp only [blockStep] at h
  split at h
  case h_5 pos task hblock =>
    obtain rfl := some.inj h
    exact .inr ⟨pos, task, hblock, rfl⟩
  case h_8 => cases h
  all_goals
    obtain rfl := some.inj h
    exact .inl rfl

theorem Inv.safe {s : GpuPersistentKernel 1} (h : Inv s) : Safe s where
  taken_once := by
    rw [h.taken_eq]
    exact nodup_range
  none_skipped := by
    intro p hp
    rw [h.head_eq, Int32.toInt_ofNat_of_lt h.taken_lt] at hp
    rw [h.taken_eq, mem_range]
    omega
  head_forward := by
    intro a t hstep
    by_cases ha : a = .block 0
    · subst ha
      rcases head_of_blockStep hstep with hsame | ⟨pos, task, hblock, hhead⟩
      · exact hsame ▸ Int32.le_refl _
      · have hinv := h.block
        rw [hblock] at hinv
        obtain ⟨rfl, _, hsmall, _⟩ := hinv
        rw [hhead, h.head_eq, Ring.ofNat_succ, Int32.le_iff_toInt_le,
          Int32.toInt_ofNat_of_lt h.taken_lt, Int32.toInt_ofNat_of_lt hsmall]
        omega
    · have hhost : ∀ i, a ≠ .block i := fun i => Subsingleton.elim i 0 ▸ ha
      exact (step_host_frame hhost hstep).head ▸ Int32.le_refl _
  synced := by
    intro a t before hstep hbefore hidle p hp task htask hloop i hi
    obtain ⟨target, hdone, hwait, rfl⟩ := sync_returned hstep hbefore hidle
    have hsync := h.sync
    rw [hwait] at hsync
    have hlt : p < s.executed.length :=
      hp.trans_le ((hsync.1.trans hdone).trans h.processed_le)
    have hpos : (s.executed.map Execution.position)[p]? = some p := by
      rw [h.executed_position, getElem?_range hlt]
    have htask' : (s.executed.map Execution.task)[p]? = some task := by
      rw [h.executed_task, getElem?_take_of_lt hlt, ← htask]
    simp only [getElem?_map, getElem?_eq_getElem hlt, Option.map_some,
      Option.some_inj] at hpos htask'
    refine ⟨_, getElem_mem hlt, hpos, ?_⟩
    rw [htask', Task.mem_elements task (Fin.isLt _)]
    refine ⟨hloop, hi, ?_⟩
    rw [mod_one]
    omega

/-! ## A ring that accepts nothing -/

/-- A block that has found no work. -/
def Workless : Block → Prop
  | .test | .readHead | .stopped => True
  | .readTail h => h = 0
  | _ => False

/-- The state of a ring whose capacity is not a positive `int`. -/
structure Closed {B : Nat} (s : GpuPersistentKernel B) : Prop where
  capacity : 2 ^ 31 ≤ s.capacity.toNat
  head : s.head = 0
  tail : s.tail = 0
  submitted : s.submitted = 0
  taken : s.taken = []
  enqueue : s.enqueue = .idle ∨ ∃ task, s.enqueue = .readTail task 0
  sync : SyncInv 0 s.sync
  block : ∀ k, Workless (s.block k)

variable {capacity : UInt32}

namespace Closed

variable {B : Nat} {s t : GpuPersistentKernel B}

theorem init (h : 2 ^ 31 ≤ capacity.toNat) : Closed (.init B capacity) where
  capacity := by
    show 2 ^ 31 ≤ (if capacity ≤ 1 then 1 else capacity).toNat
    rw [if_neg]
    · exact h
    · rw [UInt32.le_iff_toNat_le]
      simp
      omega
  head := rfl
  tail := rfl
  submitted := rfl
  taken := rfl
  enqueue := .inl rfl
  sync := trivial
  block := fun _ => trivial

theorem enqueueStep (h : Closed s) (hstep : s.enqueueStep = some t) : Closed t := by
  rcases h.enqueue with hidle | ⟨task, hread⟩
  · simp only [GpuPersistentKernel.enqueueStep, hidle] at hstep
    cases hstep
  · simp only [GpuPersistentKernel.enqueueStep, hread] at hstep
    -- the capacity reads as a negative number, so the ring is full
    have hfull : s.tail - 0 ≥ s.capacity.toInt32 := by
      rw [h.tail, ge_iff_le, Int32.le_iff_toInt_le]
      exact (Ring.toInt_toInt32_neg h.capacity).le
    rw [if_pos hfull] at hstep
    obtain rfl := some.inj hstep
    exact { h with enqueue := .inl rfl }

theorem blockStep (h : Closed s) {k : Fin B} (hstep : s.blockStep k = some t) : Closed t := by
  have hblock := h.block k
  have hgoto : ∀ next, Workless next → ∀ i, Workless (Function.update s.block k next i) := by
    intro next hnext i
    by_cases hi : i = k
    · rw [hi, Function.update_self]
      exact hnext
    · rw [Function.update_of_ne hi]
      exact h.block i
  unfold GpuPersistentKernel.blockStep at hstep
  generalize s.block k = block at hblock hstep
  cases block with
  | test =>
    obtain rfl := some.inj hstep
    exact { h with block := hgoto _ (by split <;> trivial) }
  | readHead =>
    obtain rfl := some.inj hstep
    exact { h with block := hgoto _ h.head }
  | readTail pos =>
    obtain rfl : pos = 0 := hblock
    obtain rfl := some.inj hstep
    refine { h with block := hgoto _ ?_ }
    rw [h.tail, if_neg (by decide)]
    trivial
  | stopped => cases hstep
  | copy | publish | run | count => cases hblock

theorem step {a : Action B} (h : Closed s) (hstep : s.step a = some t) : Closed t := by
  cases a with
  | enqueue op numel in0 in1 out0 =>
    simp only [GpuPersistentKernel.step] at hstep
    split at hstep
    · split at hstep
      · obtain rfl := some.inj hstep
        exact { h with enqueue := .inr ⟨_, by rw [h.head]⟩ }
      · exact some.inj hstep ▸ h
    · cases hstep
  | enqueueStep => exact h.enqueueStep hstep
  | sync =>
    simp only [GpuPersistentKernel.step] at hstep
    split at hstep
    · obtain rfl := some.inj hstep
      exact { h with sync := h.submitted.le }
    · cases hstep
  | syncStep =>
    simp only [GpuPersistentKernel.step, syncStep] at hstep
    have hsync := h.sync
    split at hstep <;> rename_i hphase
    · cases hstep
    · rw [hphase] at hsync
      obtain rfl := some.inj hstep
      exact { h with sync := ⟨le_trans hsync (zero_le _), h.submitted.le⟩ }
    · split at hstep
      · obtain rfl := some.inj hstep
        exact { h with sync := trivial }
      · exact some.inj hstep ▸ h
  | shutdown =>
    simp only [GpuPersistentKernel.step] at hstep
    split at hstep
    · split at hstep
      · obtain rfl := some.inj hstep
        exact { h with }
      · exact some.inj hstep ▸ h
    · cases hstep
  | block k => exact h.blockStep hstep

theorem safe (h : Closed s) : Safe s where
  taken_once := by
    rw [h.taken]
    exact nodup_nil
  none_skipped := by
    intro p hp
    rw [h.head] at hp
    exact absurd hp (by simp)
  head_forward := by
    intro a t hstep
    rw [h.head, (h.step hstep).head]
    exact Int32.le_refl _
  synced := by
    intro a t before hstep hbefore hidle p hp
    obtain ⟨target, _, hwait, rfl⟩ := sync_returned hstep hbefore hidle
    have hsync := h.sync
    rw [hwait] at hsync
    have := hsync.1.trans hsync.2
    omega

end Closed

/-! ## Several blocks -/

/-- A task of one element, taken by block `k` alone, then waited for. -/
def strayTask {B : Nat} (k : Fin B) : List (Action B) :=
  List.flatten [enqueueCall 0 1 0 0 0, replicate 7 (.block k), [.sync, .syncStep]]

/-- The run goes through in every ring that accepts tasks, and `sync` returns after it. -/
theorem run_strayTask {B : Nat} (k : Fin B) (hcap : capacity.toNat < 2 ^ 31) :
    ∃ s t, (init B capacity).run (strayTask k) = some s ∧ s.sync.before? = some 1 ∧
      s.step .syncStep = some t ∧ t.sync = .idle ∧ t.accepted = [.enqueued 0 1 0 0 0] ∧
      t.executed = [⟨k, 0, .enqueued 0 1 0 0 0⟩] := by
  have hpos := (init B capacity).capacity_pos
  have hcap' : (max capacity 1).toNat < 2 ^ 31 := by
    show (if capacity ≤ 1 then 1 else capacity).toNat < 2 ^ 31
    split
    · decide
    · exact hcap
  have hfree : ¬ (max capacity 1).toInt32 ≤ 0 := by
    rw [Int32.le_iff_toInt_le, Ring.toInt_toInt32 hcap']
    exact not_le.mpr (Int.natCast_pos.mpr hpos)
  have hslot : deviceSlot (max capacity 1) 0 = hostSlot (max capacity 1) 0 :=
    (deviceSlot_ofNat (n := 0) (by decide) hcap').trans (hostSlot_ofNat (by decide)).symm
  simp [strayTask, enqueueCall, run, TSys.runSteps, replicate,
    step, init, enqueueStep,
    syncStep, blockStep, hfree, hslot, Sync.before?]

/-- Block 1 leaves element 0 to block 0, which never sees the task. -/
theorem not_safe_strayTask {B : Nat} (hB : 1 < B) (hcap : capacity.toNat < 2 ^ 31) :
    ∃ s, (kernel B capacity).Reachable s ∧ ¬ Safe s := by
  obtain ⟨s, t, hrun, hbefore, hstep, hidle, haccepted, hexecuted⟩ := run_strayTask ⟨1, hB⟩ hcap
  refine ⟨s, TSys.Reachable.runSteps _ (fun _ _ _ _ hstep => hstep) (.init rfl) hrun, ?_⟩
  intro hsafe
  obtain ⟨e, he, _, hmem⟩ := hsafe.synced _ t 1 hstep hbefore hidle 0 one_pos
    (.enqueued 0 1 0 0 0) (by rw [haccepted]; rfl) (by decide) 0 (by decide)
  rw [hexecuted, mem_singleton] at he
  subst he
  rw [Task.mem_elements _ hB] at hmem
  simp at hmem

theorem safe_iff_of_pos {B : Nat} (hB : 0 < B) (capacity : UInt32) :
    (∀ s, (kernel B capacity).Reachable s → Safe s) ↔ B = 1 ∨ 2 ^ 31 ≤ capacity.toNat := by
  constructor
  · intro hsafe
    by_contra hnot
    rw [not_or, not_le] at hnot
    obtain ⟨s, hreach, hunsafe⟩ := not_safe_strayTask (B := B) (by omega) hnot.2
    exact hunsafe (hsafe s hreach)
  · rintro (rfl | hcap) s hreach
    · exact (inv_of_reachable hreach).safe
    · refine Closed.safe (hreach.induct ?_ ?_)
      · rintro _ rfl
        exact Closed.init hcap
      · exact fun s a t hs hstep => hs.step hstep

/-- `init` launches at least one block. -/
theorem numBlocks_pos (env : Option UInt32) (smCount : Int32) :
    0 < (numBlocks env smCount).toNat := by
  have hmost : (max smCount 1).toUInt32 ≠ 0 := by
    intro hzero
    have hmax : max smCount 1 = 0 := by
      rw [← Int32.toInt32_toUInt32 (max smCount 1), hzero]
      rfl
    have hle : (1 : Int32) ≤ max smCount 1 := by
      show 1 ≤ (if smCount ≤ 1 then 1 else smCount)
      split
      · exact Int32.le_refl _
      · rename_i hlt
        rw [Int32.le_iff_toInt_le] at hlt ⊢
        omega
    rw [hmax] at hle
    exact absurd hle (by decide)
  rw [pos_iff_ne_zero, ← UInt32.toNat_zero, ne_eq, UInt32.toNat_inj]
  simp only [numBlocks]
  split
  · decide
  · rename_i hge
    split
    · exact hmost
    · intro hzero
      rw [hzero] at hge
      exact hge (by decide)

/-- **Several worker blocks.** The ring keeps its promises in every run exactly
when `init` launches one block, or the capacity is too large for an `int` and no
task is ever accepted. -/
theorem blocks_safe_iff (env : Option UInt32) (smCount : Int32) (capacity : UInt32) :
    (∀ s, (kernel (numBlocks env smCount).toNat capacity).Reachable s → Safe s) ↔
      numBlocks env smCount = 1 ∨ 2 ^ 31 ≤ capacity.toNat := by
  rw [safe_iff_of_pos (numBlocks_pos env smCount) capacity, ← UInt32.toNat_inj]
  rfl

/-- **Stray task.** Two blocks, a ring of four: `sync` returns although the only
element of the accepted task was never processed. -/
theorem blocks_stray_task : ∃ s t : GpuPersistentKernel (numBlocks (some 2) 8).toNat,
    (kernel (numBlocks (some 2) 8).toNat 4).Reachable s ∧ s.sync.before? = some 1 ∧
      s.step .syncStep = some t ∧ t.sync = .idle ∧ t.accepted = [.enqueued 0 1 0 0 0] ∧
      ∀ e ∈ t.executed, 0 ∉ e.task.elements (numBlocks (some 2) 8).toNat e.block := by
  obtain ⟨s, t, hrun, hbefore, hstep, hidle, haccepted, hexecuted⟩ :=
    run_strayTask (B := (numBlocks (some 2) 8).toNat) ⟨1, by decide⟩
      (show (4 : UInt32).toNat < 2 ^ 31 by decide)
  refine ⟨s, t, TSys.Reachable.runSteps _ (fun _ _ _ _ hstep => hstep) (.init rfl) hrun, hbefore,
    hstep, hidle, haccepted, ?_⟩
  intro e he
  rw [hexecuted, mem_singleton] at he
  subst he
  decide

end Concordia.Gpu
