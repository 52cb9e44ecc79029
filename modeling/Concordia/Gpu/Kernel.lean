import Concordia.Lib.Ring
import Concordia.Lib.TSys

/-!
# The persistent kernel

`GpuPersistentKernel`: a task ring in pinned memory that the host fills and
persistent worker blocks drain. Nothing is locked, so every read and write of
the shared words is a step of its own: the host's `enqueue_task` and `sync`
each run as a little program next to one program per block
(`persistent_worker`), and a run is any interleaving of them.

Counters are 32-bit and wrap as release code does. The accepted, taken and
executed tasks are recorded on the side; no step reads them.
-/

namespace Concordia.Gpu

open Concordia.Lib Nat List Option Function

/-- `struct Task`, without its padding. -/
structure Task where
  op : Int32
  flags : Int32
  numel : Int64
  in0 : UInt64
  in1 : UInt64
  out0 : UInt64
  numParams : Int32
  deriving DecidableEq, Repr

/-- The task `enqueue_task` writes. -/
def Task.enqueued (op : Int32) (numel : Int64) (in0 in1 out0 : UInt64) : Task where
  op := op
  flags := 0
  numel := numel
  in0 := in0
  in1 := in1
  out0 := out0
  numParams := 3

/-- The contents of a zeroed slot. -/
def Task.zero : Task := ⟨0, 0, 0, 0, 0, 0, 0⟩

/-! ## The element loops -/

def threadsPerBlock : Nat := 128

/-- `for (i = start; i < numel; i += stride)`. -/
def strideLoop (start stride numel : Nat) : List Nat :=
  List.range' start ((numel - start + stride - 1) / stride) stride

/-- The `switch` has a case for the task; all of them run the same loop. -/
def Task.hasLoop (task : Task) : Bool := 0 ≤ task.op ∧ task.op ≤ 9

/-- The elements the threads of block `block` of `blocks` process. -/
def Task.elements (task : Task) (blocks block : Nat) : List Nat :=
  if task.hasLoop then
    (range threadsPerBlock).flatMap fun thread =>
      strideLoop (thread + block * threadsPerBlock) (threadsPerBlock * blocks)
        task.numel.toInt.toNat
  else []

theorem mem_strideLoop {start stride numel i : Nat} (hpos : 0 < stride) :
    i ∈ strideLoop start stride numel ↔ start ≤ i ∧ i < numel ∧ (i - start) % stride = 0 := by
  rw [strideLoop, mem_range']
  constructor
  · rintro ⟨j, hj, rfl⟩
    have hlt : j * stride < numel - start := by
      rw [← succ_le_iff, le_div_iff_mul_le hpos, succ_mul] at hj
      omega
    rw [mul_comm stride j]
    refine ⟨by omega, by omega, ?_⟩
    rw [Nat.add_sub_cancel_left, Nat.mul_mod_left]
  · rintro ⟨hle, hlt, hmod⟩
    obtain ⟨j, hj⟩ := Nat.dvd_of_mod_eq_zero hmod
    refine ⟨j, ?_, by omega⟩
    rw [← succ_le_iff, le_div_iff_mul_le hpos, succ_mul, mul_comm]
    omega

/-- A block processes the elements whose chunk of 128 falls to it. -/
theorem Task.mem_elements (task : Task) {blocks block : Nat} (hblock : block < blocks) (i : Nat) :
    i ∈ task.elements blocks block ↔
      task.hasLoop = true ∧ i < task.numel.toInt.toNat ∧ i / threadsPerBlock % blocks = block := by
  unfold elements
  split
  · rename_i hloop
    have hpos : 0 < threadsPerBlock * blocks := by
      rw [threadsPerBlock]
      omega
    simp only [hloop, true_and, mem_flatMap, mem_range, mem_strideLoop hpos]
    have hdiv := div_add_mod i threadsPerBlock
    have hmod := mod_lt i (show 0 < threadsPerBlock by decide)
    constructor
    · rintro ⟨thread, hthread, hle, hlt, hmul⟩
      refine ⟨hlt, ?_⟩
      obtain ⟨j, hj⟩ := Nat.dvd_of_mod_eq_zero hmul
      have hi : i = thread + threadsPerBlock * (block + blocks * j) := by
        rw [mul_add, ← mul_assoc, ← hj, mul_comm threadsPerBlock block]
        omega
      rw [hi, add_mul_div_left _ _ (by decide), div_eq_of_lt hthread, zero_add,
        add_mul_mod_self_left, mod_eq_of_lt hblock]
    · rintro ⟨hlt, hchunk⟩
      refine ⟨i % threadsPerBlock, hmod, ?_, hlt, ?_⟩
      · have hle : block ≤ i / threadsPerBlock := hchunk ▸ mod_le _ _
        have := mul_le_mul_left threadsPerBlock hle
        rw [mul_comm block]
        omega
      · have hchunks := div_add_mod (i / threadsPerBlock) blocks
        rw [hchunk] at hchunks
        have hi : i - (i % threadsPerBlock + block * threadsPerBlock) =
            threadsPerBlock * blocks * (i / threadsPerBlock / blocks) := by
          have : threadsPerBlock * (i / threadsPerBlock) =
              threadsPerBlock * (blocks * (i / threadsPerBlock / blocks)) +
                threadsPerBlock * block := by
            rw [← mul_add, hchunks]
          rw [mul_assoc, mul_comm block]
          omega
        rw [hi, mul_mod_right]
  · rename_i hloop
    simp [hloop]

/-! ## State -/

/-- `enqueue_task`, between its accesses to shared words. -/
inductive Enqueue where
  | idle
  /-- `head` has been read -/
  | readTail (task : Task) (head : Int32)
  /-- the ring was not full -/
  | write (task : Task) (tail : Int32)
  | publish (task : Task) (tail : Int32)
  | submit
  deriving DecidableEq, Repr

/-- `sync`. `before` tasks had been accepted when it was called. -/
inductive Sync where
  | idle
  | load (before : Nat)
  | wait (before target : Nat)
  deriving DecidableEq, Repr

/-- The tasks that had been accepted when the `sync` in progress was called. -/
def Sync.before? : Sync → Option Nat
  | .idle => none
  | .load before | .wait before _ => some before

/-- `persistent_worker`, as thread 0 of a block goes through it. -/
inductive Block where
  /-- at the loop test -/
  | test
  | readHead
  | readTail (h : Int32)
  | copy (h : Int32)
  | publish (h : Int32) (task : Task)
  | run (h : Int32) (task : Task)
  | count
  | stopped
  deriving DecidableEq, Repr

/-- A task run by a block, with the ring position it was taken from. -/
structure Execution (B : Nat) where
  block : Fin B
  position : Nat
  task : Task
  deriving DecidableEq, Repr

/-- The kernel with `B` blocks. -/
structure GpuPersistentKernel (B : Nat) where
  capacity : UInt32
  capacity_pos : 0 < capacity.toNat
  tasks : Nat → Task
  head : Int32
  tail : Int32
  quit : Bool
  processed : Nat
  submitted : Nat
  running : Bool
  enqueue : Enqueue
  sync : Sync
  block : Fin B → Block
  /-- tasks whose `tail` was published, in that order -/
  accepted : List Task
  /-- blocks and positions, in the order `head` was exchanged -/
  taken : List (Fin B × Nat)
  executed : List (Execution B)

namespace GpuPersistentKernel

variable {B : Nat}

/-- `init` and `launch`, with everything allocated. -/
def init (B : Nat) (capacity : UInt32) : GpuPersistentKernel B where
  capacity := max capacity 1
  capacity_pos := by
    show 0 < (if capacity ≤ 1 then 1 else capacity).toNat
    split
    · decide
    · rename_i hlt
      exact Nat.lt_of_lt_of_le Nat.one_pos (Nat.le_of_not_le hlt)
  tasks := fun _ => .zero
  head := 0
  tail := 0
  quit := false
  processed := 0
  submitted := 0
  running := true
  enqueue := .idle
  sync := .idle
  block := fun _ => .test
  accepted := []
  taken := []
  executed := []

/-- `num_blocks`: the parsed environment variable, clamped. -/
def numBlocks (env : Option UInt32) (smCount : Int32) : UInt32 :=
  let value := env.getD 1
  let most := (max smCount 1).toUInt32
  if value < 1 then 1 else if most < value then most else value

/-- `(tail as u32 % self.capacity) as usize`. -/
def hostSlot (capacity : UInt32) (tail : Int32) : Nat := (tail.toUInt32 % capacity).toNat

/-- `h % capacity` on the device, where both are `int`. -/
def deviceSlot (capacity : UInt32) (h : Int32) : Nat := (h % capacity.toInt32).toInt.toNat

/-! ## Steps -/

inductive Action (B : Nat) where
  /-- call `enqueue_task`; it reads `head` -/
  | enqueue (op : Int32) (numel : Int64) (in0 in1 out0 : UInt64)
  | enqueueStep
  /-- call `sync` -/
  | sync
  | syncStep
  | shutdown
  | block (k : Fin B)
  deriving DecidableEq, Repr

variable (s : GpuPersistentKernel B)

/-- The next step of `enqueue_task`. -/
def enqueueStep : Option (GpuPersistentKernel B) :=
  match s.enqueue with
  | .idle => none
  | .readTail task head =>
    -- a full ring is reported at once
    if s.tail - head ≥ s.capacity.toInt32 then some { s with enqueue := .idle }
    else some { s with enqueue := .write task s.tail }
  | .write task tail =>
    some { s with tasks := update s.tasks (hostSlot s.capacity tail) task
                  enqueue := .publish task tail }
  | .publish task tail =>
    some { s with tail := tail + 1, accepted := s.accepted ++ [task], enqueue := .submit }
  | .submit => some { s with submitted := s.submitted + 1, enqueue := .idle }

/-- The next step of `sync`. -/
def syncStep : Option (GpuPersistentKernel B) :=
  match s.sync with
  | .idle => none
  | .load before => some { s with sync := .wait before s.submitted }
  | .wait _ target => if target ≤ s.processed then some { s with sync := .idle } else some s

/-- The next step of block `k`. -/
def blockStep (k : Fin B) : Option (GpuPersistentKernel B) :=
  let goto (next : Block) := update s.block k next
  match s.block k with
  | .test => some { s with block := goto (if s.quit then .stopped else .readHead) }
  | .readHead => some { s with block := goto (.readTail s.head) }
  | .readTail h => some { s with block := goto (if h < s.tail then .copy h else .test) }
  | .copy h => some { s with block := goto (.publish h (s.tasks (deviceSlot s.capacity h))) }
  | .publish h task =>
    some { s with head := h + 1, block := goto (.run h task)
                  taken := s.taken ++ [(k, h.toInt.toNat)] }
  | .run h task =>
    some { s with block := goto .count, executed := s.executed ++ [⟨k, h.toInt.toNat, task⟩] }
  | .count => some { s with processed := s.processed + 1, block := goto .test }
  | .stopped => none

def step : Action B → Option (GpuPersistentKernel B)
  | .enqueue op numel in0 in1 out0 =>
    if s.enqueue = .idle then
      if s.running then
        some { s with enqueue := .readTail (.enqueued op numel in0 in1 out0) s.head }
      else some s
    else none
  | .enqueueStep => s.enqueueStep
  | .sync => if s.sync = .idle then some { s with sync := .load s.submitted } else none
  | .syncStep => s.syncStep
  | .shutdown =>
    -- `&mut self`: no other call is in progress, so nothing sees `running` before the join
    if s.enqueue = .idle ∧ s.sync = .idle then
      if s.running then some { s with quit := true, running := false } else some s
    else none
  | .block k => s.blockStep k

/-- A sequence of steps. -/
def run (actions : List (Action B)) : Option (GpuPersistentKernel B) :=
  TSys.runSteps step s actions

/-- A call of `enqueue_task` that nothing interrupts. -/
def enqueueCall (op : Int32) (numel : Int64) (in0 in1 out0 : UInt64) : List (Action B) :=
  .enqueue op numel in0 in1 out0 :: replicate 4 .enqueueStep

/-! ## What the host's steps leave alone -/

/-- A step of the host leaves the blocks and their history alone. -/
structure HostFrame (s t : GpuPersistentKernel B) (a : Action B) : Prop where
  capacity : t.capacity = s.capacity
  head : t.head = s.head
  processed : t.processed = s.processed
  block : t.block = s.block
  taken : t.taken = s.taken
  executed : t.executed = s.executed
  quit : a ≠ .shutdown → t.quit = s.quit

variable {s} {t : GpuPersistentKernel B} {a : Action B}

/-- The fields the host writes. -/
theorem HostFrame.of_host (tasks : Nat → Task) (tail : Int32) (submitted : Nat) (running : Bool)
    (enqueue : Enqueue) (sync : Sync) (accepted : List Task) :
    HostFrame s { s with tasks := tasks, tail := tail, submitted := submitted, running := running
                         enqueue := enqueue, sync := sync, accepted := accepted } a :=
  ⟨rfl, rfl, rfl, rfl, rfl, rfl, fun _ => rfl⟩

theorem step_host_frame (ha : ∀ k, a ≠ .block k) (h : s.step a = some t) : HostFrame s t a := by
  cases a with
  | enqueue op numel in0 in1 out0 =>
    simp only [step] at h
    split at h
    · split at h <;> obtain rfl := some.inj h <;> exact .of_host _ _ _ _ _ _ _
    · cases h
  | enqueueStep =>
    simp only [step, enqueueStep] at h
    split at h
    · cases h
    · split at h <;> obtain rfl := some.inj h <;> exact .of_host _ _ _ _ _ _ _
    all_goals
      obtain rfl := some.inj h
      exact .of_host _ _ _ _ _ _ _
  | sync =>
    simp only [step] at h
    split at h
    · obtain rfl := some.inj h
      exact .of_host _ _ _ _ _ _ _
    · cases h
  | syncStep =>
    simp only [step, syncStep] at h
    split at h
    · cases h
    · obtain rfl := some.inj h
      exact .of_host _ _ _ _ _ _ _
    · split at h <;> obtain rfl := some.inj h <;> exact .of_host _ _ _ _ _ _ _
  | shutdown =>
    simp only [step] at h
    split at h
    · split at h <;> obtain rfl := some.inj h
      · exact ⟨rfl, rfl, rfl, rfl, rfl, rfl, fun hne => absurd rfl hne⟩
      · exact .of_host _ _ _ _ _ _ _
    · cases h
  | block k => exact absurd rfl (ha k)

/-- `sync` returns from its loop only, when all that had been submitted is processed. -/
theorem sync_returned {before : Nat} (h : s.step a = some t)
    (hbefore : s.sync.before? = some before) (hidle : t.sync = .idle) :
    ∃ target ≤ s.processed, s.sync = .wait before target ∧ t = { s with sync := .idle } := by
  cases a with
  | syncStep =>
    simp only [step, syncStep] at h
    split at h
    · cases h
    · obtain rfl := some.inj h
      cases hidle
    · next _ target hwait =>
      rw [hwait] at hbefore
      obtain rfl := some.inj hbefore
      split at h <;> obtain rfl := some.inj h
      · next hdone => exact ⟨target, hdone, hwait, rfl⟩
      · cases hwait.symm.trans hidle
  | enqueue | enqueueStep | sync | shutdown | block =>
    simp only [step, enqueueStep, blockStep] at h
    grind [Sync.before?]

/-- Accepted tasks stay accepted. -/
theorem accepted_prefix_of_step (h : s.step a = some t) : s.accepted <+: t.accepted := by
  cases a with
  | enqueueStep =>
    simp only [step, enqueueStep] at h
    split at h
    · cases h
    · split at h <;> obtain rfl := some.inj h <;> exact prefix_rfl
    · obtain rfl := some.inj h
      exact prefix_rfl
    · obtain rfl := some.inj h
      exact prefix_append _ _
    · obtain rfl := some.inj h
      exact prefix_rfl
  | enqueue | sync | syncStep | shutdown | block =>
    simp only [step, syncStep, blockStep] at h
    grind

theorem accepted_prefix_of_run {actions : List (Action B)} (h : s.run actions = some t) :
    s.accepted <+: t.accepted := by
  induction actions generalizing s with
  | nil => exact some.inj h ▸ prefix_rfl
  | cons a rest ih =>
    obtain ⟨u, hstep, hrest⟩ := Option.bind_eq_some_iff.mp h
    exact (accepted_prefix_of_step hstep).trans (ih hrest)

end GpuPersistentKernel

/-- The runs of a kernel with `B` blocks and a ring of the requested capacity. -/
def kernel (B : Nat) (capacity : UInt32) : TSys (GpuPersistentKernel B)
    (GpuPersistentKernel.Action B) where
  init s := s = .init B capacity
  step s a t := s.step a = some t

end Concordia.Gpu
