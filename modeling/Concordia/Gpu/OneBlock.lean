import Concordia.Gpu.Kernel

/-!
# One worker block

With one block the ring is an exactly-once FIFO queue. The invariant fixes, at
every step of either side, which positions have been accepted, taken and
executed, and that the ring still holds every accepted task not yet taken
(`Inv`). It holds in every run, also past the wrap of the counters, where the
worker no longer finds work.
-/

namespace Concordia.Gpu

open Concordia.Lib GpuPersistentKernel Function Nat Execution Ring Option Int32
open List hiding head

/-! ## Slots -/

variable {capacity : UInt32}

theorem hostSlot_ofNat {n : Nat} (hn : n < 2 ^ 32) :
    hostSlot capacity (ofNat n) = n % capacity.toNat := by
  rw [hostSlot, UInt32.toNat_mod, toNat_toUInt32_ofNat hn]

theorem deviceSlot_ofNat {n : Nat} (hn : n < 2 ^ 31) (hcap : capacity.toNat < 2 ^ 31) :
    deviceSlot capacity (ofNat n) = n % capacity.toNat := by
  rw [deviceSlot, toInt_mod, toInt_ofNat_of_lt hn, toInt_toInt32 hcap,
    ← Int.ofNat_tmod, Int.toNat_natCast]

/-- A ring that passes the full test has room, and its capacity is a positive
`int`. -/
theorem room_of_not_full {lo n : Nat} (hle : lo ≤ n) (hroom : n ≤ lo + capacity.toNat)
    (hcap : n = 0 ∨ capacity.toNat < 2 ^ 31)
    (hfree : ¬ ofNat n - ofNat lo ≥ capacity.toInt32) :
    capacity.toNat < 2 ^ 31 ∧ n < lo + capacity.toNat := by
  rw [ge_iff_le, le_iff_toInt_le, not_le,
    toInt_ofNat_sub_ofNat hle (by omega)] at hfree
  by_cases hsmall : capacity.toNat < 2 ^ 31
  · rw [toInt_toInt32 hsmall] at hfree
    exact ⟨hsmall, by omega⟩
  · have := toInt_toInt32_neg (Nat.le_of_not_lt hsmall)
    omega

/-! ## The invariant -/

/-- What the host knows while `enqueue_task` runs: `accepted` tasks so far,
`taken` of them by the worker. -/
def EnqueueInv (tasks : Nat → Task) (tail : Int32) (capacity accepted taken submitted : Nat) :
    Enqueue → Prop
  | .idle => submitted = accepted
  | .readTail _ head => submitted = accepted ∧
      ∃ lo, head = ofNat lo ∧ lo ≤ taken ∧ accepted ≤ lo + capacity
  | .write _ tail' => submitted = accepted ∧ tail' = tail ∧ accepted < taken + capacity ∧
      capacity < 2 ^ 31
  | .publish task tail' => submitted = accepted ∧ tail' = tail ∧ accepted < taken + capacity ∧
      capacity < 2 ^ 31 ∧ tasks (accepted % capacity) = task
  | .submit => submitted + 1 = accepted

def SyncInv (submitted : Nat) : Sync → Prop
  | .idle => True
  | .load before => before ≤ submitted
  | .wait before target => before ≤ target ∧ target ≤ submitted

/-- Where the worker is, in terms of the `taken` and `executed` counts. -/
def BlockInv (head : Int32) (accepted : List Task) (taken executed processed : Nat) : Block → Prop
  | .test | .readHead | .stopped => executed = taken ∧ processed = taken
  | .readTail h => h = head ∧ executed = taken ∧ processed = taken
  | .copy h => h = head ∧ taken < accepted.length ∧ taken + 1 < 2 ^ 31 ∧
      executed = taken ∧ processed = taken
  | .publish h task => h = head ∧ accepted[taken]? = some task ∧ taken + 1 < 2 ^ 31 ∧
      executed = taken ∧ processed = taken
  | .run h task => h = ofNat executed ∧ taken = executed + 1 ∧
      accepted[executed]? = some task ∧ processed = executed
  | .count => executed = taken ∧ processed + 1 = taken

/-- Room for the host only grows as the worker takes a task. -/
theorem EnqueueInv.take {tasks : Nat → Task} {tail : Int32}
    {capacity accepted taken submitted : Nat} {enqueue : Enqueue}
    (h : EnqueueInv tasks tail capacity accepted taken submitted enqueue) :
    EnqueueInv tasks tail capacity accepted (taken + 1) submitted enqueue := by
  cases enqueue with
  | idle | submit => exact h
  | readTail task head =>
    obtain ⟨hsub, lo, hhead, hlo, hroom⟩ := h
    exact ⟨hsub, lo, hhead, le_succ_of_le hlo, hroom⟩
  | write task tail =>
    obtain ⟨hsub, htail, hroom, hcap⟩ := h
    exact ⟨hsub, htail, by omega, hcap⟩
  | publish task tail =>
    obtain ⟨hsub, htail, hroom, hrest⟩ := h
    exact ⟨hsub, htail, by omega, hrest⟩

theorem SyncInv.submit {submitted : Nat} {sync : Sync} (h : SyncInv submitted sync) :
    SyncInv (submitted + 1) sync := by
  cases sync with
  | idle => trivial
  | load before => exact le_succ_of_le h
  | wait before target => exact ⟨h.1, le_succ_of_le h.2⟩

/-- The worker does not mind another accepted task. -/
theorem BlockInv.accept {head : Int32} {accepted : List Task} {taken executed processed : Nat}
    {block : Block} (h : BlockInv head accepted taken executed processed block) (task : Task) :
    BlockInv head (accepted ++ [task]) taken executed processed block := by
  cases block with
  | test | readHead | stopped | readTail | count => exact h
  | copy =>
    obtain ⟨hhead, hlt, hrest⟩ := h
    exact ⟨hhead, by simp; omega, hrest⟩
  | publish | run =>
    simp only [BlockInv] at h ⊢
    grind

structure Inv (s : GpuPersistentKernel 1) : Prop where
  head_eq : s.head = ofNat s.taken.length
  tail_eq : s.tail = ofNat s.accepted.length
  taken_le : s.taken.length ≤ s.accepted.length
  accepted_le : s.accepted.length ≤ s.taken.length + s.capacity.toNat
  taken_lt : s.taken.length < 2 ^ 31
  capacity_lt : s.accepted.length = 0 ∨ s.capacity.toNat < 2 ^ 31
  holds : Ring.Holds s.tasks s.capacity.toNat s.accepted s.taken.length
  taken_eq : s.taken.map Prod.snd = range s.taken.length
  stopped : s.block 0 = .stopped → s.quit = true
  executed_task : s.executed.map task = s.accepted.take s.executed.length
  executed_position : s.executed.map position = range s.executed.length
  enqueue : EnqueueInv s.tasks s.tail s.capacity.toNat s.accepted.length s.taken.length
    s.submitted s.enqueue
  sync : SyncInv s.submitted s.sync
  block : BlockInv s.head s.accepted s.taken.length s.executed.length s.processed (s.block 0)

namespace Inv

variable {s t : GpuPersistentKernel 1}

theorem accepted_lt (h : Inv s) : s.accepted.length < 2 ^ 32 := by
  have := h.accepted_le
  have := h.taken_lt
  have := h.capacity_lt
  omega

theorem executed_le (h : Inv s) : s.executed.length ≤ s.taken.length := by
  have hblock := h.block
  cases hphase : s.block 0 <;> rw [hphase] at hblock <;> simp only [BlockInv] at hblock <;> omega

theorem processed_le (h : Inv s) : s.processed ≤ s.executed.length := by
  have hblock := h.block
  cases hphase : s.block 0 <;> rw [hphase] at hblock <;> simp only [BlockInv] at hblock <;> omega

theorem init (capacity : UInt32) : Inv (.init 1 capacity) where
  head_eq := rfl
  tail_eq := rfl
  taken_le := le_refl 0
  accepted_le := Nat.zero_le _
  taken_lt := Nat.two_pow_pos 31
  capacity_lt := .inl rfl
  holds := by
    intro p x _ hx
    cases hx
  taken_eq := rfl
  stopped := by rintro ⟨⟩
  executed_task := rfl
  executed_position := rfl
  enqueue := rfl
  sync := trivial
  block := ⟨rfl, rfl⟩

/-! ### Steps of the host -/

theorem enqueueStep (h : Inv s) (hstep : s.enqueueStep = some t) : Inv t := by
  have hinv := h.enqueue
  unfold GpuPersistentKernel.enqueueStep at hstep
  generalize s.enqueue = enqueue at hinv hstep
  cases enqueue with
  | idle => cases hstep
  | readTail task head =>
    obtain ⟨hsub, lo, rfl, hlo, hroom⟩ := hinv
    simp only at hstep
    split at hstep
    · obtain rfl := some.inj hstep
      exact { h with enqueue := hsub }
    · rename_i hfree
      obtain rfl := some.inj hstep
      rw [h.tail_eq] at hfree
      obtain ⟨hcap, hlt⟩ :=
        room_of_not_full (hlo.trans h.taken_le) hroom h.capacity_lt hfree
      exact { h with enqueue := ⟨hsub, rfl, hlt.trans_le (Nat.add_le_add_right hlo _), hcap⟩ }
  | write task tail =>
    obtain ⟨hsub, rfl, hroom, hcap⟩ := hinv
    obtain rfl := some.inj hstep
    -- the slot written is none the worker still has to read
    have hslot : hostSlot s.capacity s.tail = s.accepted.length % s.capacity.toNat := by
      rw [h.tail_eq, hostSlot_ofNat h.accepted_lt]
    rw [hslot]
    exact { h with
      holds := h.holds.write hroom task
      enqueue := ⟨hsub, rfl, hroom, hcap, update_self _ _ _⟩ }
  | publish task tail =>
    obtain ⟨hsub, rfl, hroom, hcap, hslot⟩ := hinv
    obtain rfl := some.inj hstep
    have hlen : (s.accepted ++ [task]).length = s.accepted.length + 1 := by simp
    have hle := h.taken_le
    refine { h with
      tail_eq := ?_, taken_le := ?_, accepted_le := ?_, capacity_lt := .inr hcap
      holds := h.holds.push hslot, executed_task := ?_, enqueue := ?_
      block := h.block.accept task }
    · show s.tail + 1 = ofNat (s.accepted ++ [task]).length
      rw [hlen, h.tail_eq, ofNat_succ]
    · show s.taken.length ≤ (s.accepted ++ [task]).length
      omega
    · show (s.accepted ++ [task]).length ≤ s.taken.length + s.capacity.toNat
      omega
    · show _ = (s.accepted ++ [task]).take s.executed.length
      rw [take_append_of_le_length (h.executed_le.trans hle)]
      exact h.executed_task
    · show s.submitted + 1 = (s.accepted ++ [task]).length
      omega
  | submit =>
    obtain rfl := some.inj hstep
    exact { h with enqueue := hinv, sync := h.sync.submit }

theorem syncStep (h : Inv s) (hstep : s.syncStep = some t) : Inv t := by
  have hinv := h.sync
  unfold GpuPersistentKernel.syncStep at hstep
  generalize s.sync = sync at hinv hstep
  cases sync with
  | idle => cases hstep
  | load before =>
    obtain rfl := some.inj hstep
    exact { h with sync := ⟨hinv, le_refl _⟩ }
  | wait before target =>
    simp only at hstep
    split at hstep
    · obtain rfl := some.inj hstep
      exact { h with sync := trivial }
    · exact some.inj hstep ▸ h

/-! ### Steps of the worker -/

/-- A step that only moves the worker on. -/
theorem goto (h : Inv s) {next : Block} (hstopped : next = .stopped → s.quit = true)
    (hnext : BlockInv s.head s.accepted s.taken.length s.executed.length s.processed next) :
    Inv { s with block := update s.block 0 next } := by
  refine { h with stopped := ?_, block := ?_ } <;> simp only [update_self]
  · exact hstopped
  · exact hnext

/-- The task in the slot at `head` is the next accepted one. -/
theorem tasks_deviceSlot (h : Inv s) (hlt : s.taken.length < s.accepted.length) :
    s.accepted[s.taken.length]? = some (s.tasks (deviceSlot s.capacity s.head)) := by
  have hcap : s.capacity.toNat < 2 ^ 31 := by
    have := h.capacity_lt
    omega
  rw [h.head_eq, deviceSlot_ofNat h.taken_lt hcap,
    h.holds _ _ (le_refl _) (getElem?_eq_getElem hlt), getElem?_eq_getElem hlt]

/-- The worker takes the task at `head`. -/
theorem publish (h : Inv s) {task : Task}
    (hinv : BlockInv s.head s.accepted s.taken.length s.executed.length s.processed
      (.publish s.head task)) :
    Inv { s with head := s.head + 1, block := update s.block 0 (.run s.head task)
                 taken := s.taken ++ [(0, s.head.toInt.toNat)] } := by
  obtain ⟨_, htask, hsmall, hexec, hproc⟩ := hinv
  have hlt : s.taken.length < s.accepted.length := (List.getElem?_eq_some_iff.mp htask).1
  have hpos : s.head.toInt.toNat = s.taken.length := by
    rw [h.head_eq, toInt_ofNat_of_lt h.taken_lt, Int.toNat_natCast]
  refine { h with
    head_eq := ?_, taken_le := ?_, accepted_le := ?_, taken_lt := ?_, holds := ?_
    taken_eq := ?_, stopped := ?_, enqueue := ?_, block := ?_ } <;>
    simp only [length_append, length_singleton, update_self]
  · rw [h.head_eq, ofNat_succ]
  · exact hlt
  · have := h.accepted_le
    omega
  · exact hsmall
  · exact h.holds.mono (le_succ _)
  · rw [map_append, h.taken_eq, range_succ, map_singleton, hpos]
  · rintro ⟨⟩
  · exact h.enqueue.take
  · rw [BlockInv, hexec]
    exact ⟨h.head_eq, rfl, htask, hproc⟩

/-- The worker runs the task it has taken. -/
theorem run (h : Inv s) {pos : Int32} {task : Task}
    (hinv : BlockInv s.head s.accepted s.taken.length s.executed.length s.processed
      (.run pos task)) :
    Inv { s with block := update s.block 0 .count
                 executed := s.executed ++ [⟨0, pos.toInt.toNat, task⟩] } := by
  obtain ⟨rfl, htaken, htask, hproc⟩ := hinv
  have hpos : (ofNat s.executed.length).toInt.toNat = s.executed.length := by
    have := h.taken_lt
    rw [toInt_ofNat_of_lt (by omega), Int.toNat_natCast]
  refine { h with stopped := ?_, executed_task := ?_, executed_position := ?_, block := ?_ } <;>
    simp only [length_append, length_singleton, update_self]
  · rintro ⟨⟩
  · rw [map_append, h.executed_task, take_add_one, htask]
    rfl
  · rw [map_append, h.executed_position, range_succ, map_singleton, hpos]
  · exact ⟨htaken.symm, by rw [hproc, htaken]⟩

theorem blockStep (h : Inv s) (hstep : s.blockStep 0 = some t) : Inv t := by
  have hinv := h.block
  unfold GpuPersistentKernel.blockStep at hstep
  generalize s.block 0 = block at hinv hstep
  cases block with
  | stopped => cases hstep
  | test =>
    obtain rfl := some.inj hstep
    apply h.goto
    · split
      · exact fun _ => ‹_›
      · rintro ⟨⟩
    · split <;> exact hinv
  | readHead =>
    obtain rfl := some.inj hstep
    exact h.goto (by rintro ⟨⟩) ⟨rfl, hinv⟩
  | readTail pos =>
    obtain rfl := some.inj hstep
    obtain ⟨rfl, hdone⟩ := hinv
    apply h.goto
    · split <;> rintro ⟨⟩
    · split
      · rename_i hlt
        rw [h.head_eq, h.tail_eq, ofNat_lt_ofNat_iff h.taken_lt h.accepted_lt] at hlt
        exact ⟨rfl, hlt.1, by omega, hdone⟩
      · exact hdone
  | copy pos =>
    obtain rfl := some.inj hstep
    obtain ⟨rfl, hlt, hrest⟩ := hinv
    exact h.goto (by rintro ⟨⟩) ⟨rfl, h.tasks_deviceSlot hlt, hrest⟩
  | publish pos task =>
    obtain rfl := some.inj hstep
    obtain rfl := hinv.1
    exact h.publish hinv
  | run pos task =>
    obtain rfl := some.inj hstep
    exact h.run hinv
  | count =>
    obtain rfl := some.inj hstep
    refine { h with stopped := ?_, block := ?_ } <;> simp only [update_self]
    · rintro ⟨⟩
    · exact hinv

theorem step {a : Action 1} (h : Inv s) (hstep : s.step a = some t) : Inv t := by
  cases a with
  | enqueue op numel in0 in1 out0 =>
    simp only [GpuPersistentKernel.step] at hstep
    split at hstep
    · rename_i hidle
      split at hstep
      · obtain rfl := some.inj hstep
        have hinv := h.enqueue
        rw [hidle] at hinv
        exact { h with enqueue := ⟨hinv, _, h.head_eq, le_refl _, h.accepted_le⟩ }
      · exact some.inj hstep ▸ h
    · cases hstep
  | enqueueStep => exact h.enqueueStep hstep
  | sync =>
    simp only [GpuPersistentKernel.step] at hstep
    split at hstep
    · obtain rfl := some.inj hstep
      exact { h with sync := le_refl _ }
    · cases hstep
  | syncStep => exact h.syncStep hstep
  | shutdown =>
    simp only [GpuPersistentKernel.step] at hstep
    split at hstep
    · split at hstep
      · obtain rfl := some.inj hstep
        exact { h with stopped := fun _ => rfl }
      · exact some.inj hstep ▸ h
    · cases hstep
  | block k =>
    obtain rfl : k = 0 := Subsingleton.elim _ _
    exact h.blockStep hstep

end Inv

theorem inv_of_reachable {s : GpuPersistentKernel 1} (h : (kernel 1 capacity).Reachable s) :
    Inv s := by
  refine h.induct ?_ ?_
  · rintro _ rfl
    exact Inv.init capacity
  · exact fun s a t hs hstep => hs.step hstep

/-! ## Progress -/

/-- Steps the worker is away from the end of the next execution. -/
def phaseLag : Block → Nat
  | .stopped => 0
  | .run _ _ => 1
  | .publish _ _ => 2
  | .copy _ => 3
  | .readTail _ => 4
  | .readHead => 5
  | .test => 6
  | .count => 7

/-- Steps the worker needs until the first `k` tasks have been executed. -/
def lag (k : Nat) (s : GpuPersistentKernel 1) : Nat :=
  if k ≤ s.executed.length then 0
  else 7 * (k - s.executed.length - 1) + phaseLag (s.block 0)

/-- The worker has not been told to stop. -/
def Working (s : GpuPersistentKernel 1) : Prop := s.quit = false ∧ s.block 0 ≠ .stopped

theorem lag_le {k : Nat} {s : GpuPersistentKernel 1} : lag k s ≤ 7 * k := by
  unfold lag
  split
  · omega
  · cases s.block 0 <;> simp only [phaseLag] <;> omega

theorem le_executed_of_lag_eq_zero {k : Nat} {s : GpuPersistentKernel 1} (hwork : Working s)
    (h : lag k s = 0) : k ≤ s.executed.length := by
  unfold lag at h
  split at h
  · assumption
  · have hstopped := hwork.2
    cases hphase : s.block 0 <;> simp_all [phaseLag]

section Progress

variable {k : Nat} {s t : GpuPersistentKernel 1}

/-- A step of the worker brings the first `k` tasks closer, if that many have
been accepted and the counters have not wrapped. -/
theorem lag_blockStep (h : Inv s) (hwork : Working s) (hk : k ≤ s.accepted.length)
    (hsmall : s.accepted.length < 2 ^ 31) (hstep : s.blockStep 0 = some t) :
    lag k t ≤ lag k s - 1 ∧ Working t := by
  have hinv := h.block
  have hquit := hwork.1
  cases hblock : s.block 0 with
  | stopped => exact absurd hblock hwork.2
  | readTail pos =>
    simp only [blockStep, hblock] at hstep
    rw [hblock] at hinv
    obtain rfl := some.inj hstep
    obtain ⟨rfl, hexec, _⟩ := hinv
    -- a worker that is behind finds work here
    have hlt : s.executed.length < k → s.head < s.tail := by
      intro hbehind
      rw [h.head_eq, h.tail_eq, ofNat_lt_ofNat_iff h.taken_lt h.accepted_lt]
      omega
    simp only [lag, Working, hblock, update_self]
    refine ⟨?_, hquit, by split <;> simp⟩
    split
    · omega
    · rw [if_pos (hlt (by omega))]
      simp only [phaseLag]
      omega
  | run pos task =>
    simp only [blockStep, hblock] at hstep
    obtain rfl := some.inj hstep
    simp only [lag, Working, hblock, phaseLag, update_self, length_append,
      length_singleton]
    refine ⟨?_, hquit, by simp⟩
    split <;> split <;> omega
  | test =>
    simp only [blockStep, hblock, hquit, Bool.false_eq_true, if_false] at hstep
    obtain rfl := some.inj hstep
    simp only [lag, Working, hblock, phaseLag, update_self]
    refine ⟨?_, trivial, by simp⟩
    split <;> omega
  | readHead | copy | publish | count =>
    simp only [blockStep, hblock] at hstep
    obtain rfl := some.inj hstep
    simp only [lag, Working, hblock, phaseLag, update_self]
    refine ⟨?_, hquit, by simp⟩
    split <;> omega

/-- The other steps leave the worker where it is. -/
theorem lag_hostStep {a : Action 1} (hwork : Working s) (ha : a ≠ .shutdown)
    (hhost : ∀ i, a ≠ .block i) (hstep : s.step a = some t) :
    lag k t = lag k s ∧ Working t := by
  have hframe := step_host_frame hhost hstep
  simp only [lag, Working, hframe.block, hframe.executed, hframe.quit ha]
  exact ⟨trivial, hwork⟩

/-- Along any run, the lag shrinks by one with every step of the worker. -/
theorem lag_run {actions : List (Action 1)} (h : Inv s) (hwork : Working s)
    (hk : k ≤ s.accepted.length) (hdown : .shutdown ∉ actions) (hrun : s.run actions = some t)
    (hsmall : t.accepted.length < 2 ^ 31) :
    lag k t ≤ lag k s - actions.count (.block 0) ∧ Working t ∧ Inv t := by
  induction actions generalizing s with
  | nil =>
    obtain rfl := some.inj hrun
    exact ⟨by simp, hwork, h⟩
  | cons a rest ih =>
    obtain ⟨u, hstep, hrest⟩ := Option.bind_eq_some_iff.mp hrun
    rw [mem_cons, not_or] at hdown
    have hu := (accepted_prefix_of_step hstep).length_le
    have hut := (accepted_prefix_of_run hrest).length_le
    have hlag : lag k u ≤ lag k s - [a].count (.block 0) ∧ Working u := by
      by_cases ha : a = .block 0
      · subst ha
        exact lag_blockStep h hwork hk (by omega) hstep
      · have hhost : ∀ i, a ≠ .block i := fun i => Subsingleton.elim i 0 ▸ ha
        obtain ⟨hlag, hwork'⟩ := lag_hostStep (k := k) hwork (Ne.symm hdown.1) hhost hstep
        exact ⟨by rw [hlag]; simp [ha], hwork'⟩
    obtain ⟨hlt, hworkt, ht⟩ := ih (h.step hstep) hlag.2 (hk.trans hu) hdown.2 hrest
    refine ⟨?_, hworkt, ht⟩
    rw [count_cons] at *
    have := hlag.1
    simp only [count_nil] at this
    omega

end Progress

/-! ## Main result -/

/-- **Exactly-once FIFO.** In every run with one worker block:
tasks are executed in acceptance order with the fields they were enqueued with,
each position once; the host never writes a slot whose task the worker has not
taken; when `sync` returns, every task accepted before the call has been
executed; and once the worker has made seven steps per task, every task
accepted so far has been, unless it is shut down or the counters overflow. -/
theorem one_block_exactly_once (capacity : UInt32) {s : GpuPersistentKernel 1}
    (h : (kernel 1 capacity).Reachable s) :
    (s.executed.map task <+: s.accepted ∧
      s.executed.map position = range s.executed.length) ∧
    (∀ task tail, s.enqueue = .write task tail → ∀ p, s.taken.length ≤ p →
      p < s.accepted.length → hostSlot s.capacity tail ≠ hostSlot s.capacity (ofNat p)) ∧
    (s.enqueue = .idle → s.submitted = s.accepted.length) ∧
    (∀ a t before, s.step a = some t → s.sync.before? = some before → t.sync = .idle →
      before ≤ t.executed.length ∧
        t.accepted.take before = (t.executed.map task).take before) ∧
    ∀ actions t, s.run actions = some t → s.quit = false → .shutdown ∉ actions →
      t.accepted.length < 2 ^ 31 → 7 * s.accepted.length ≤ actions.count (.block 0) →
      s.accepted <+: t.executed.map task := by
  have hinv := inv_of_reachable h
  refine ⟨⟨?_, hinv.executed_position⟩, ?_, ?_, ?_, ?_⟩
  · rw [hinv.executed_task]
    exact List.take_prefix _ _
  · intro task tail hwrite p hp hlt
    have henq := hinv.enqueue
    rw [hwrite] at henq
    obtain ⟨_, rfl, hroom, _⟩ := henq
    have := hinv.accepted_lt
    rw [hinv.tail_eq, hostSlot_ofNat hinv.accepted_lt, hostSlot_ofNat (by omega)]
    exact (slot_ne_slot hlt (by omega)).symm
  · intro hidle
    have henq := hinv.enqueue
    rwa [hidle] at henq
  · intro a t before hstep hbefore hidle
    obtain ⟨target, hdone, hwait, rfl⟩ := sync_returned hstep hbefore hidle
    have hsync := hinv.sync
    rw [hwait] at hsync
    have hle : before ≤ s.executed.length :=
      (hsync.1.trans hdone).trans hinv.processed_le
    refine ⟨hle, ?_⟩
    show s.accepted.take before = (s.executed.map task).take before
    rw [hinv.executed_task, take_take, min_eq_left hle]
  · intro actions t hrun hquit hdown hsmall hcount
    have hwork : Working s := by
      refine ⟨hquit, fun hstopped => ?_⟩
      rw [hinv.stopped hstopped] at hquit
      cases hquit
    obtain ⟨hlag, hwork', hinv'⟩ := lag_run hinv hwork (le_refl _) hdown hrun hsmall
    have hle := lag_le (k := s.accepted.length) (s := s)
    have hexec := le_executed_of_lag_eq_zero hwork' (k := s.accepted.length) (by omega)
    rw [hinv'.executed_task]
    exact prefix_take_iff.mpr ⟨accepted_prefix_of_run hrun, hexec⟩

/-- The host enqueues two tasks into a ring of two, and waits. -/
def twoTasks : List (Action 1) :=
  List.flatten [enqueueCall 0 3 16 32 48, enqueueCall 1 5 64 80 96, [.sync, .syncStep],
    replicate 14 (.block 0)]

theorem one_block_exactly_once_two : ∃ s t : GpuPersistentKernel 1,
    (kernel 1 2).Reachable s ∧ s.step .syncStep = some t ∧ t.sync = .idle ∧
      t.accepted = [.enqueued 0 3 16 32 48, .enqueued 1 5 64 80 96] ∧
      t.accepted.take 2 = (t.executed.map task).take 2 := by
  have hrun : ((init 1 2).run twoTasks).map
      (fun s => (s.sync, s.processed, s.accepted)) =
      some (.wait 2 2, 2, [.enqueued 0 3 16 32 48, .enqueued 1 5 64 80 96]) := by
    decide +kernel
  obtain ⟨s, hs, hstate⟩ := Option.map_eq_some_iff.mp hrun
  obtain ⟨hsync, hrest⟩ := Prod.mk.inj hstate
  obtain ⟨hprocessed, haccepted⟩ := Prod.mk.inj hrest
  have hreach : (kernel 1 2).Reachable s :=
    TSys.Reachable.runSteps twoTasks (fun _ _ _ _ hstep => hstep) (.init rfl) hs
  have hstep : s.step .syncStep = some { s with sync := .idle } := by
    simp [step, syncStep, hsync, hprocessed]
  exact ⟨s, _, hreach, hstep, rfl, haccepted,
    ((one_block_exactly_once 2 hreach).2.2.2.1 _ _ 2 hstep (by rw [hsync]; rfl) rfl).2⟩

end Concordia.Gpu
