import Concordia.Nccl.Recovery

/-!
# All-reduce over rendezvous files

The ranks of a job meet in a directory of shared files: for call number
`sequence` of its communicator each rank writes its buffer to
`<sequence>/rank_<r>.bin`, the coordinator reads them in ring order, sums them
into `<sequence>/result.bin`, and every rank reads that. The files are shared by
all communicators of the job and are never removed.

A call is a sequence of stages, one file operation each, and the ranks' stages
interleave. An `Answer` says how an operation went: it may fail, stop half way
through a write, or give up waiting.
-/

namespace Concordia.Nccl

open Concordia.Lib List Function

/-! ## Communicators -/

/-- `HETGPU_NCCL_MAX_RANKS`. -/
def maxRanks : Int := 256

/-- What `make_comm` reads for a communicator. All ranks of a job have the same. -/
structure CommConfig where
  nranks : Int
  recoveryEnabled : Bool
  failedRank : Int
  replacementRank : Int
  /-- the planner of the runtime is linked in -/
  plannerLinked : Bool
  deriving DecidableEq, Repr

/-- `fallback_plan_replacement`. -/
def fallbackPlanReplacement (nranks failedRank replacementRank outLen : Int) :
    Except Int (List Int) :=
  if nranks ≤ 0 ∨ outLen < nranks then .error (-1)
  else if failedRank < 0 ∨ failedRank ≥ nranks then .error (-2)
  else if replacementRank ≥ 0 ∧ replacementRank < nranks ∧ replacementRank ≠ failedRank then
    .error (-3)
  else .ok ((rankRange nranks).map fun rank => if rank = failedRank then replacementRank else rank)

/-- `hetgpu_concordia_nccl_plan_replacement`. -/
def hetgpuConcordiaNcclPlanReplacement (nranks failedRank replacementRank outLen : Int) :
    Except Int (List Int) :=
  if outLen < 0 then .error (-1)
  else match planReplacementRing nranks failedRank replacementRank with
    | .error _ => .error (-2)
    | .ok plan => if outLen < plan.length then .error (-3) else .ok plan

/-- `concordia_plan_replacement`. -/
def concordiaPlanReplacement (linked : Bool) (nranks failedRank replacementRank outLen : Int) :
    Except Int (List Int) :=
  if linked then hetgpuConcordiaNcclPlanReplacement nranks failedRank replacementRank outLen
  else fallbackPlanReplacement nranks failedRank replacementRank outLen

/-- Both planners make the plan of the runtime, if there is room for it. -/
theorem concordiaPlanReplacement_eq_ok_iff {linked : Bool} {nranks failed replacement outLen : Int}
    {ring : List Int} :
    concordiaPlanReplacement linked nranks failed replacement outLen = .ok ring ↔
      planReplacementRing nranks failed replacement = .ok ring ∧ ring.length ≤ outLen := by
  have hlength :
      ∀ f : Int → Int, ((((rankRange nranks).map f).length : Nat) : Int) = max nranks 0 := by
    intro f
    rw [length_map, rankRange, length_map, length_range]
    omega
  cases linked with
  | true =>
    rw [concordiaPlanReplacement, if_pos rfl, hetgpuConcordiaNcclPlanReplacement]
    cases hplan : planReplacementRing nranks failed replacement with
    | error err =>
      split <;> simp
    | ok plan =>
      simp only [Except.ok.injEq]
      split
      · simp only [reduceCtorEq, false_iff]
        rintro ⟨rfl, hle⟩
        omega
      · split
        · simp only [reduceCtorEq, false_iff]
          rintro ⟨rfl, hle⟩
          omega
        · simp only [Except.ok.injEq]
          constructor
          · rintro rfl
            exact ⟨rfl, by omega⟩
          · exact fun h => h.1
  | false =>
    rw [concordiaPlanReplacement, if_neg (by simp), fallbackPlanReplacement,
      planReplacementRing_eq_ok_iff]
    simp only [mem_rankRange]
    split
    · simp only [reduceCtorEq, false_iff]
      rintro ⟨⟨_, _, rfl⟩, hle⟩
      rw [hlength] at hle
      omega
    · split
      · simp only [reduceCtorEq, false_iff]
        omega
      · split
        · simp only [reduceCtorEq, false_iff]
          omega
        · simp only [Except.ok.injEq]
          constructor
          · rintro rfl
            rw [hlength]
            refine ⟨⟨by omega, by omega, rfl⟩, by omega⟩
          · rintro ⟨⟨_, _, rfl⟩, _⟩
            rfl

/-- The active ring that `concordia_configure_recovery_plan` leaves. -/
def CommConfig.activeRanks (config : CommConfig) : List Int :=
  let default := rankRange (if config.nranks < maxRanks then config.nranks else maxRanks)
  if ¬ config.recoveryEnabled ∨ config.failedRank < 0 ∨ config.replacementRank < 0 then default
  else match concordiaPlanReplacement config.plannerLinked config.nranks config.failedRank
      config.replacementRank maxRanks with
    | .error _ => default
    | .ok planned => if planned.isEmpty then default else planned

/-- `concordia_rank_allowed_for_recovery`. -/
def CommConfig.rankAllowed (config : CommConfig) (rank : Int) : Bool :=
  (0 ≤ rank ∧ rank < config.nranks) ∨ (config.recoveryEnabled ∧ rank = config.replacementRank)

/-- The fields of a communicator that an all-reduce uses. -/
structure HetGpuNcclComm where
  nranks : Int
  activeRanks : List Int
  sequence : UInt64
  /-- how many calls took a sequence number -/
  calls : Nat
  deriving DecidableEq, Repr

/-- `make_comm`. -/
def makeComm (config : CommConfig) (rank : Int) : Option HetGpuNcclComm :=
  if config.nranks ≤ 0 ∨ rank < 0 ∨ config.rankAllowed rank = false then none
  else
    some { nranks := config.nranks, activeRanks := config.activeRanks, sequence := 0, calls := 0 }

/-- `comm_coordinator_rank`. -/
def HetGpuNcclComm.coordinatorRank (comm : HetGpuNcclComm) : Int := comm.activeRanks.headD 0

/-! ## Files -/

/-- An all-reduce call: the communicator, and how many calls the rank made on it
before. -/
structure CallId where
  comm : Nat
  number : Nat
  deriving DecidableEq, Repr

/-- The contents of a file, and the call that wrote it. -/
structure Stamped (α : Type) where
  contents : α
  id : CallId
  deriving DecidableEq, Repr

/-- The files of one call directory. -/
structure CallDir (F : Type) where
  rank : Int → Option (Stamped (List F))
  result : Option (Stamped (List F))
  abort : Option (Stamped String)

/-- How an operation goes: whether it succeeds, what of a failed write reaches the
file (`none`: the file is not opened), whether a wait is over, and what the
environment says about the reduction. -/
structure Answer where
  ok : Bool
  written : Option Nat
  timedOut : Bool
  useSifive : Bool
  cpuFallback : Bool
  deriving DecidableEq, Repr

/-- `write_file_exact`: the file is opened for writing, which empties it. -/
def Answer.write {F : Type} (answer : Answer) (id : CallId) (data : List F)
    (old : Option (Stamped (List F))) : Option (Stamped (List F)) :=
  if answer.ok then some ⟨data, id⟩
  else match answer.written with
    | none => old
    | some n => some ⟨data.take n, id⟩

/-- `read_file_exact`: the first `count` elements, if there are so many. -/
def Answer.read {F : Type} (answer : Answer) (count : Nat) (file : Option (Stamped (List F))) :
    Option (List F) :=
  match file with
  | none => none
  | some file =>
    if answer.ok ∧ count ≤ file.contents.length then some (file.contents.take count) else none

/-! ## The reduction -/

section

variable {F : Type} [Zero F] [Add F]

/-- The loop `accum[i] += src[i]` over the inputs, in ring order. -/
def cpuSum (count : Nat) (inputs : List (List F)) : List F :=
  inputs.foldl (List.zipWith (· + ·)) (List.replicate count 0)

/-- The hooks that may be linked in. A hook that fails leaves the accumulator as it
is. -/
structure SifiveHooks (F : Type) where
  reduceSum : Option (Nat → List (List F) → Option (List F))
  allReduce : Option (List F → Option (List F))

/-- What the coordinator makes of the inputs, or the reason it aborts. The CPU
path sums each input when it is read, which is the same. -/
def reduceInputs (hooks : SifiveHooks F) (answer : Answer) (count : Nat) (inputs : List (List F)) :
    Except String (List F) :=
  if ¬ answer.useSifive then .ok (cpuSum count inputs)
  else match hooks.reduceSum, hooks.allReduce with
    | some reduceSum, _ =>
      match reduceSum count inputs with
      | some accum => .ok accum
      | none =>
        if answer.cpuFallback then .ok (cpuSum count inputs)
        else .error "SIFIVE reduce-sum hook failed\n"
    | none, some allReduce =>
      match allReduce (cpuSum count inputs) with
      | some accum => .ok accum
      | none =>
        if answer.cpuFallback then .ok (cpuSum count inputs)
        else .error "SIFIVE allreduce hook failed\n"
    | none, none => .error "SIFIVE hook symbol unavailable\n"

theorem reduceInputs_of_cpu {answer : Answer} (h : answer.useSifive = false)
    (hooks : SifiveHooks F) (count : Nat) (inputs : List (List F)) :
    reduceInputs hooks answer count inputs = .ok (cpuSum count inputs) := by
  simp [reduceInputs, h]

/-! ## A call -/

/-- Where `rendezvous_allreduce_f32` is. -/
inductive Stage (F : Type) where
  | createDir
  | writeRank
  /-- the coordinator -/
  | allocate
  | waitInput (rest : List Int) (inputs : List (List F))
  | readInput (rank : Int) (rest : List Int) (inputs : List (List F))
  | reduce (inputs : List (List F))
  | writeResult (accum : List F)
  | publishAbort (reason : String)
  /-- every rank -/
  | waitResult
  | checkAbort
  | readResult
  /-- `ncclSuccess`, with `recvbuff` filled -/
  | succeeded (recvbuff : List F)
  /-- `ncclSystemError` -/
  | failed
  deriving DecidableEq, Repr

/-- The call has not returned. -/
def Stage.running : Stage F → Bool
  | .succeeded _ => false
  | .failed => false
  | _ => true

structure AllReduce (F : Type) where
  id : CallId
  sequence : UInt64
  sendbuff : List F
  stage : Stage F

def AllReduce.count (call : AllReduce F) : Nat := call.sendbuff.length

/-- The next operation of a call of `rank`: its new stage, and its directory. -/
def AllReduce.advance (hooks : SifiveHooks F) (comm : HetGpuNcclComm) (rank : Int)
    (call : AllReduce F) (dir : CallDir F) (answer : Answer) : Stage F × CallDir F :=
  match call.stage with
  | .createDir => (if answer.ok then .writeRank else .failed, dir)
  | .writeRank =>
    (if ¬ answer.ok then .failed
      else if rank = comm.coordinatorRank then .allocate else .waitResult,
      { dir with
        rank := update dir.rank rank
          (answer.write call.id call.sendbuff (dir.rank rank)) })
  | .allocate =>
    (if answer.ok then .waitInput comm.activeRanks []
      else .publishAbort "coordinator allocation failed\n", dir)
  | .waitInput [] inputs => (.reduce inputs, dir)
  | .waitInput (r :: rest) inputs =>
    (if (dir.rank r).isSome then .readInput r rest inputs
      else if answer.timedOut then .publishAbort "rank input timeout\n"
      else .waitInput (r :: rest) inputs, dir)
  | .readInput r rest inputs =>
    (match answer.read call.count (dir.rank r) with
      | some input => .waitInput rest (inputs ++ [input])
      | none => .publishAbort "rank input timeout\n", dir)
  | .reduce inputs =>
    (match reduceInputs hooks answer call.count inputs with
      | .ok accum => .writeResult accum
      | .error reason => .publishAbort reason, dir)
  | .writeResult accum =>
    (if answer.ok then .waitResult else .publishAbort "result write failed\n",
      { dir with result := answer.write call.id accum dir.result })
  | .publishAbort reason =>
    (.failed, if answer.ok then { dir with abort := some ⟨reason, call.id⟩ } else dir)
  | .waitResult => (if dir.result.isSome then .readResult else .checkAbort, dir)
  | .checkAbort =>
    (if dir.abort.isSome ∨ answer.timedOut then .failed else .waitResult, dir)
  | .readResult =>
    (match answer.read call.count dir.result with
      | some recvbuff => .succeeded recvbuff
      | none => .failed, dir)
  | .succeeded recvbuff => (.succeeded recvbuff, dir)
  | .failed => (.failed, dir)

end

/-! ## The job -/

/-- A rank and one of its communicators. -/
abbrev Port := Int × Nat

/-- The communicators and calls of all ranks, the call directories, and the buffers
passed so far. -/
structure Job (F : Type) where
  comms : Port → Option HetGpuNcclComm
  calls : Port → Option (AllReduce F)
  dirs : UInt64 → CallDir F
  passed : Int → CallId → Option (List F)

inductive Event (F : Type) where
  /-- the rank creates the communicator -/
  | create
  /-- the rank calls all-reduce on it -/
  | call (sendbuff : List F)
  /-- the call makes its next operation -/
  | advance (answer : Answer)

namespace Job

variable {F : Type}

/-- Nothing has happened, and there are no files. -/
def start : Job F where
  comms _ := none
  calls _ := none
  dirs _ := { rank := fun _ => none, result := none, abort := none }
  passed _ _ := none

/-- The communicator has no call, or its last one has returned. -/
def idle (s : Job F) (port : Port) : Bool := (s.calls port).all fun call => !call.stage.running

/-- A call takes the communicator's next number. -/
def beginCall (s : Job F) (port : Port) (comm : HetGpuNcclComm) (sendbuff : List F) : Job F :=
  let id : CallId := ⟨port.2, comm.calls⟩
  { s with
    comms := update s.comms port
      (some { comm with sequence := comm.sequence + 1, calls := comm.calls + 1 })
    calls := update s.calls port (some
      { id := id, sequence := comm.sequence, sendbuff := sendbuff, stage := .createDir })
    passed := fun rank i => if rank = port.1 ∧ i = id then some sendbuff else s.passed rank i }

variable [Zero F] [Add F]

/-- The next operation of the call of a rank. -/
def proceed (hooks : SifiveHooks F) (s : Job F) (port : Port) (comm : HetGpuNcclComm)
    (call : AllReduce F) (answer : Answer) : Job F :=
  let next := call.advance hooks comm port.1 (s.dirs call.sequence) answer
  { s with
    calls := update s.calls port (some { call with stage := next.1 })
    dirs := update s.dirs call.sequence next.2 }

/-- One event of a rank on a communicator; `none` if it is not possible. -/
def step (hooks : SifiveHooks F) (configs : Nat → CommConfig) (s : Job F) (port : Port) :
    Event F → Option (Job F)
  | .create =>
    match s.comms port, makeComm (configs port.2) port.1 with
    | none, some comm => some { s with comms := update s.comms port (some comm) }
    | _, _ => none
  | .call sendbuff =>
    match s.comms port with
    | none => none
    | some comm =>
      if ¬ 1 < comm.nranks ∨ ¬ s.idle port then none
      -- `collective_skip`: the call fails before it takes a number
      else if ¬ port.1 ∈ comm.activeRanks then some s
      else some (s.beginCall port comm sendbuff)
  | .advance answer =>
    match s.comms port, s.calls port with
    | some comm, some call => some (s.proceed hooks port comm call answer)
    | _, _ => none

end Job

/-- The runs of a job. -/
def job {F : Type} [Zero F] [Add F] (hooks : SifiveHooks F) (configs : Nat → CommConfig) :
    TSys (Job F) (Port × Event F) where
  init s := s = Job.start
  step s action t := s.step hooks configs action.1 action.2 = some t

end Concordia.Nccl
