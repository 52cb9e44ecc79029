import Concordia.Sass.Types

/-!
# Scheduling

`scheduler::schedule` gives every instruction its control codes in one pass. A result
that takes more than 15 cycles is guarded by one of six barriers, a shorter one by a
stall count. What the pass knows of the code before an instruction is the last write
and the last load of every general register, and how many loads there were.
-/

namespace Concordia.Sass

/-- `instruction_latency`, in cycles. -/
def instructionLatency : OpcodeClass → UInt8
  | .alu3 | .alu2 => 4
  | .fma => 4
  | .load => 200
  | .store => 1
  | .branch => 1
  | .comparison => 4
  | .sync => 1
  | .special => 8
  | .nop => 1

/-- The variables of the loop. The maps are only ever asked for a key and given one. -/
structure Scheduler where
  pendingWrites : UInt8 → Option (Nat × UInt8)
  nextBarrier : UInt8
  barrierMap : UInt8 → Option UInt8

namespace Scheduler

/-- Before the first instruction. -/
def start : Scheduler := ⟨fun _ => none, 0, fun _ => none⟩

/-- One source register: the wait mask and `max_stall_needed` after it. The distance
is cast to eight bits. -/
def visitSource (s : Scheduler) (idx : Nat) (acc : UInt8 × UInt8) (src : UInt8) :
    UInt8 × UInt8 :=
  let mask :=
    match s.barrierMap src with
    | some barrier => acc.1 ||| (1 <<< barrier)
    | none => acc.1
  let needed :=
    match s.pendingWrites src with
    | some (writeIdx, latency) =>
      let distance := UInt8.ofNat (idx - writeIdx)
      if distance < latency then max acc.2 (latency - distance) else acc.2
    | none => acc.2
  (mask, needed)

/-- The control codes of an instruction, before its destination is looked at. A wait
mask takes the place of the stall. -/
def control (s : Scheduler) (idx : Nat) (inst : SassInst) : ControlCodes :=
  let (mask, needed) := (sourceRegisters inst).foldl (s.visitSource idx) (0, 0)
  { stall := if mask ≠ 0 then 1 else max (min needed 15) 1
    yieldFlag := false
    writeBarrier := 7
    readBarrier := 7
    waitMask := mask
    reuse := 0 }

/-- One round of the loop: the instruction with its control codes. `none` is the
overflow of `next_barrier`. -/
def visit (s : Scheduler) (idx : Nat) (inst : SassInst) : Option (SassInst × Scheduler) :=
  let ctrl := s.control idx inst
  match inst.dst with
  | some (.R n) =>
    let latency := instructionLatency inst.opcode.cls
    let pendingWrites := Function.update s.pendingWrites n (some (idx, latency))
    if 15 < latency then
      let barrier := s.nextBarrier % 6
      if s.nextBarrier = 255 then none
      else
        some ({ inst with control := { ctrl with writeBarrier := barrier } },
          ⟨pendingWrites, s.nextBarrier + 1, Function.update s.barrierMap n (some barrier)⟩)
    else some ({ inst with control := ctrl }, { s with pendingWrites })
  | _ => some ({ inst with control := ctrl }, s)

/-- The loop, from instruction `idx` on. -/
def loop : Scheduler → Nat → List SassInst → Option (List SassInst)
  | _, _, [] => some []
  | s, idx, inst :: insts =>
    match s.visit idx inst with
    | none => none
    | some (scheduled, s) => (s.loop (idx + 1) insts).map (scheduled :: ·)

end Scheduler

/-- `schedule`. -/
def schedule (insts : List SassInst) : Option (List SassInst) := Scheduler.start.loop 0 insts

/-! ## Reads, writes and loads of the given code -/

/-- `RZ` and `PT` are constants: a write to them is dropped. -/
def Reg.holds : Reg → Bool
  | .RZ | .PT => false
  | _ => true

/-- The registers an instruction reads: those of its operands, and its guard. -/
def SassInst.reads (inst : SassInst) : List Reg :=
  inst.srcs.filterMap Operand.reg? ++ (inst.pred.map Predicate.reg).toList

/-- Instruction `i` has the property. -/
def At (insts : List SassInst) (i : Nat) (P : SassInst → Prop) : Prop :=
  ∃ inst, insts[i]? = some inst ∧ P inst

def ReadsAt (insts : List SassInst) (i : Nat) (r : Reg) : Prop :=
  At insts i fun inst => r ∈ inst.reads

def WritesAt (insts : List SassInst) (i : Nat) (r : Reg) : Prop :=
  At insts i fun inst => inst.dst = some r

def LoadsAt (insts : List SassInst) (i : Nat) (r : Reg) : Prop :=
  At insts i fun inst => inst.dst = some r ∧ inst.opcode.cls = .load

/-- No write of `r` strictly between `p` and `c`. -/
def Unwritten (insts : List SassInst) (p c : Nat) (r : Reg) : Prop :=
  ∀ j, p < j → j < c → ¬WritesAt insts j r

/-- `w` is the last index before `i` with the property. -/
def LastBefore (P : Nat → Prop) (i w : Nat) : Prop := w < i ∧ P w ∧ ∀ j, w < j → j < i → ¬P j

/-- The last write of `r` before `i`. -/
def LastWrite (insts : List SassInst) (i : Nat) (r : Reg) (w : Nat) : Prop :=
  LastBefore (fun j => WritesAt insts j r) i w

/-- The last load of `r` before `i`, whatever was written there since. -/
def LastLoad (insts : List SassInst) (i : Nat) (r : Reg) (l : Nat) : Prop :=
  LastBefore (fun j => LoadsAt insts j r) i l

/-- A load into a general register. -/
def SassInst.isGprLoad (inst : SassInst) : Bool :=
  inst.opcode.cls = .load ∧ (inst.dst.bind Reg.gpr?).isSome

/-- How many loads into general registers stand before instruction `i`. -/
def loadsBefore (insts : List SassInst) (i : Nat) : Nat :=
  (insts.take i).countP SassInst.isGprLoad

/-! ## Timing -/

/-- The instruction waits for the barrier of a load. -/
def SassInst.waitsFor (inst load : SassInst) : Bool :=
  inst.control.waitMask.toNat.testBit load.control.writeBarrier.toNat

/-- When the last of the loads before `i` that `inst` waits for has delivered. -/
def released (out : List SassInst) (arrival : Nat → Nat) (i : Nat) (inst : SassInst) : Nat :=
  (((out.take i).zipIdx.filter fun entry => inst.waitsFor entry.1).map
    fun entry => arrival entry.2).foldr max 0

/-- The issue times of scheduled code: an instruction issues when the one before it has
stalled and the loads it waits for have delivered. Data arrives after its load issued. -/
structure Issues (out : List SassInst) (arrival issue : Nat → Nat) : Prop where
  step : ∀ i inst next, out[i]? = some inst → out[i + 1]? = some next →
    issue (i + 1) = max (issue i + inst.control.stall.toNat) (released out arrival (i + 1) next)
  arrives : ∀ i, issue i < arrival i

/-- Every instruction that reads or overwrites what a load fetches waits for the load's
barrier, or follows one that does. -/
def LoadsAwaited (insts out : List SassInst) : Prop :=
  ∀ l i r, LoadsAt insts l r → r.holds → l < i → (ReadsAt insts i r ∨ WritesAt insts i r) →
    Unwritten insts l i r →
    ∃ j, l < j ∧ j ≤ i ∧ ∃ load inst, out[l]? = some load ∧ out[j]? = some inst ∧
      inst.waitsFor load

/-- A result of at most 15 cycles and an instruction that reads it. -/
def FixedDependency (insts : List SassInst) (p c : Nat) (latency : UInt8) : Prop :=
  ∃ r, r.holds ∧ latency ≤ 15 ∧ p < c ∧
    (At insts p fun inst => inst.dst = some r ∧ instructionLatency inst.opcode.cls = latency) ∧
    ReadsAt insts c r ∧ Unwritten insts p c r

/-- Whenever loads deliver, every such reader issues a latency after the writer. -/
def LatenciesKept (insts out : List SassInst) : Prop :=
  ∀ arrival issue, Issues out arrival issue → ∀ p c latency,
    FixedDependency insts p c latency → issue p + latency.toNat ≤ issue c

/-- `schedule` returns code without a register hazard. -/
def ScheduledSafely (insts : List SassInst) : Prop :=
  ∃ out, schedule insts = some out ∧ LoadsAwaited insts out ∧ LatenciesKept insts out

/-! ## When the code is safe -/

/-- Some instruction after load `l`, up to `i`, reads a register whose last load has the
barrier of `l`: it is `l`, or a multiple of six loads away from it. -/
def Awaited (insts : List SassInst) (l i : Nat) : Prop :=
  ∃ j, l < j ∧ j ≤ i ∧ ∃ n l', (At insts j fun inst => n ∈ sourceRegisters inst) ∧
    LastLoad insts j (.R n) l' ∧ loadsBefore insts l' % 6 = loadsBefore insts l % 6

/-- Fewer than 256 loads, all into general registers if anything depends on them;
whatever overwrites a loaded register without an operand that reads it comes after an
instruction that waited; and a reader of a short result stands as many instructions
behind the writer as the result takes cycles. -/
structure Paced (insts : List SassInst) : Prop where
  few : loadsBefore insts insts.length < 256
  general : ∀ l i r, LoadsAt insts l r → r.holds → l < i →
    (ReadsAt insts i r ∨ WritesAt insts i r) → Unwritten insts l i r → ∃ n, r = .R n
  overwritten : ∀ l i n, LoadsAt insts l (.R n) → l < i →
    (ReadsAt insts i (.R n) ∨ WritesAt insts i (.R n)) → Unwritten insts l i (.R n) →
    (At insts i fun inst => n ∉ sourceRegisters inst) → Awaited insts l i
  spaced : ∀ p c latency, FixedDependency insts p c latency → latency.toNat ≤ c - p

/-- No general register is read so many instructions after its last write that the
eight-bit distance comes out below the latency again. -/
def Unwrapped (insts : List SassInst) : Prop :=
  ∀ i n w, (At insts i fun inst => n ∈ sourceRegisters inst) → LastWrite insts i (.R n) w →
    256 ≤ i - w → ∀ latency, (At insts w fun inst =>
      instructionLatency inst.opcode.cls = latency) → latency ≤ 15 →
    latency.toNat ≤ (i - w) % 256

end Concordia.Sass
