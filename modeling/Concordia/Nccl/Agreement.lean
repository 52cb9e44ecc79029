import Concordia.Lib.Keyed
import Concordia.Nccl.Rendezvous

/-!
# Agreement of an all-reduce

As long as no two calls share a call directory, a call that returns `ncclSuccess`
has the ring-order sum of the buffers that the active ranks passed to the same
call (`allReduce_agrees`): the files of a directory are then all written by that
call (`Inv.unshared`), so what the coordinator reads are those buffers, and what a
rank reads is the coordinator's sum. Every communicator of a job counts its calls
from zero in the same directories, so a second communicator meets the files of
the first, and returns its results (`allReduce_stale`).
-/

namespace Concordia.Nccl

open Concordia.Lib List Function Option AllReduce

/-! ## Buffers and files -/

variable {count : Nat}

section

variable {F : Type} {passed passed' : Int → CallId → Option (List F)} {id : CallId}
  {ring : List Int}

/-- The first `count` elements of what each of the ranks passed to the call. -/
def Gathered (passed : Int → CallId → Option (List F)) (id : CallId) (count : Nat) :
    List Int → List (List F) → Prop :=
  List.Forall₂ fun rank input =>
    ∃ buffer, passed rank id = some buffer ∧ count ≤ buffer.length ∧ input = buffer.take count

theorem Gathered.length_eq {inputs : List (List F)} (h : Gathered passed id count ring inputs) :
    ∀ input ∈ inputs, input.length = count := by
  induction h with
  | nil => simp
  | cons hhead _ ih =>
    obtain ⟨buffer, _, hle, rfl⟩ := hhead
    simpa [hle] using ih

theorem Gathered.take {m n : Nat} (hle : m ≤ n) {inputs : List (List F)}
    (h : Gathered passed id n ring inputs) :
    Gathered passed id m ring (inputs.map (List.take m)) := by
  induction h with
  | nil => exact .nil
  | cons hhead _ ih =>
    obtain ⟨buffer, hbuffer, hlen, rfl⟩ := hhead
    refine .cons ⟨buffer, hbuffer, hle.trans hlen, ?_⟩ ih
    rw [take_take, min_eq_left hle]

/-- Nothing passed is forgotten. -/
def Extends (passed passed' : Int → CallId → Option (List F)) : Prop :=
  ∀ rank id buffer, passed rank id = some buffer → passed' rank id = some buffer

theorem Gathered.mono (hext : Extends passed passed') {inputs : List (List F)}
    (h : Gathered passed id count ring inputs) : Gathered passed' id count ring inputs := by
  refine List.Forall₂.imp ?_ h
  rintro rank input ⟨buffer, hbuffer, hrest⟩
  exact ⟨buffer, hext _ _ _ hbuffer, hrest⟩

def CallDir.HasFile (dir : CallDir F) (id : CallId) : Prop :=
  (∃ rank file, dir.rank rank = some file ∧ file.id = id) ∨
  (∃ file, dir.result = some file ∧ file.id = id) ∨ ∃ file, dir.abort = some file ∧ file.id = id

theorem Answer.write_eq_some {answer : Answer} {data : List F} {old : Option (Stamped (List F))}
    {file : Stamped (List F)} (h : answer.write id data old = some file) :
    old = some file ∨ (file.id = id ∧ file.contents <+: data) := by
  unfold Answer.write at h
  split at h
  · obtain rfl := some.inj h
    exact .inr ⟨rfl, prefix_refl data⟩
  · split at h
    · exact .inl h
    · obtain rfl := some.inj h
      exact .inr ⟨rfl, List.take_prefix _ data⟩

/-- A rank file is one that was there, or the one just written. -/
theorem Answer.write_rank_eq_some {answer : Answer} {data : List F}
    {ranks : Int → Option (Stamped (List F))} {rank r : Int} {file : Stamped (List F)}
    (h : update ranks rank (answer.write id data (ranks rank)) r = some file) :
    ranks r = some file ∨ (r = rank ∧ file.id = id ∧ file.contents <+: data) := by
  by_cases hr : r = rank
  · subst hr
    rw [update_self] at h
    exact (Answer.write_eq_some h).imp_right fun hnew => ⟨rfl, hnew⟩
  · rw [update_of_ne hr] at h
    exact .inl h

/-- What is read of a beginning of `data` is a beginning of `data`. -/
theorem Answer.read_eq_some {answer : Answer} {old : Option (Stamped (List F))} {read : List F}
    (h : answer.read count old = some read) :
    ∃ file, old = some file ∧
      ∀ data, file.contents <+: data → count ≤ data.length ∧ read = data.take count := by
  unfold Answer.read at h
  split at h
  · simp at h
  · rename_i file
    split at h
    · rename_i hread
      refine ⟨file, rfl, ?_⟩
      rintro data ⟨rest, rfl⟩
      rw [take_append_of_le_length hread.2, length_append]
      exact ⟨by omega, (some.inj h).symm⟩
    · simp at h

end

/-! ## Sums -/

section

variable {F : Type} [Add F]

theorem take_foldl_zipWith (m : Nat) (inputs : List (List F)) (accum : List F) :
    (inputs.foldl (List.zipWith (· + ·)) accum).take m =
      (inputs.map (List.take m)).foldl (List.zipWith (· + ·)) (accum.take m) := by
  induction inputs generalizing accum with
  | nil => rfl
  | cons input inputs ih =>
    show (inputs.foldl _ (accum.zipWith (· + ·) input)).take m = _
    rw [ih, take_zipWith]
    rfl

theorem length_foldl_zipWith {n : Nat} {inputs : List (List F)}
    (h : ∀ input ∈ inputs, input.length = n) {accum : List F} (haccum : accum.length = n) :
    (inputs.foldl (List.zipWith (· + ·)) accum).length = n := by
  induction inputs generalizing accum with
  | nil => exact haccum
  | cons input inputs ih =>
    refine ih (fun x hx => h x (mem_cons_of_mem _ hx)) ?_
    rw [length_zipWith, haccum, h input mem_cons_self, min_self]

variable [Zero F] {passed passed' : Int → CallId → Option (List F)} {id : CallId}
  {ring : List Int}

/-- The sum, in ring order, of what the ranks of the ring passed to the call. -/
def IsRingSum (passed : Int → CallId → Option (List F)) (id : CallId) (ring : List Int)
    (count : Nat) (sum : List F) : Prop :=
  ∃ inputs, Gathered passed id count ring inputs ∧ sum = cpuSum count inputs

theorem IsRingSum.length_eq {sum : List F} (h : IsRingSum passed id ring count sum) :
    sum.length = count := by
  obtain ⟨inputs, hinputs, rfl⟩ := h
  exact length_foldl_zipWith hinputs.length_eq length_replicate

theorem IsRingSum.take {m n : Nat} {sum : List F} (h : IsRingSum passed id ring n sum)
    (hle : m ≤ n) : IsRingSum passed id ring m (sum.take m) := by
  obtain ⟨inputs, hinputs, rfl⟩ := h
  refine ⟨_, hinputs.take hle, ?_⟩
  rw [cpuSum, take_foldl_zipWith, take_replicate, min_eq_left hle]
  rfl

theorem IsRingSum.mono (hext : Extends passed passed') {sum : List F}
    (h : IsRingSum passed id ring count sum) : IsRingSum passed' id ring count sum := by
  obtain ⟨inputs, hinputs, rfl⟩ := h
  exact ⟨inputs, hinputs.mono hext, rfl⟩

/-! ## One call and its directory -/

/-- What a call holds at each stage. -/
def StageOk (passed : Int → CallId → Option (List F)) (id : CallId) (ring : List Int)
    (count : Nat) : Stage F → Prop
  | .waitInput rest inputs => ∃ done, ring = done ++ rest ∧ Gathered passed id count done inputs
  | .readInput rank rest inputs =>
    ∃ done, ring = done ++ rank :: rest ∧ Gathered passed id count done inputs
  | .reduce inputs => Gathered passed id count ring inputs
  | .writeResult accum => IsRingSum passed id ring count accum
  | .succeeded recvbuff => IsRingSum passed id ring count recvbuff
  | _ => True

/-- What the files of a directory hold: beginnings of buffers passed, and of a
sum. -/
structure DirOk (passed : Int → CallId → Option (List F)) (rings : Nat → List Int)
    (dir : CallDir F) : Prop where
  rank : ∀ rank file, dir.rank rank = some file →
    ∃ buffer, passed rank file.id = some buffer ∧ file.contents <+: buffer
  result : ∀ file, dir.result = some file →
    ∃ count sum, IsRingSum passed file.id (rings file.id.comm) count sum ∧ file.contents <+: sum

theorem StageOk.mono (hext : Extends passed passed') {stage : Stage F}
    (h : StageOk passed id ring count stage) : StageOk passed' id ring count stage := by
  cases stage with
  | waitInput rest inputs =>
    obtain ⟨done, hring, hgathered⟩ := h
    exact ⟨done, hring, hgathered.mono hext⟩
  | readInput rank rest inputs =>
    obtain ⟨done, hring, hgathered⟩ := h
    exact ⟨done, hring, hgathered.mono hext⟩
  | reduce inputs => exact Gathered.mono hext h
  | writeResult accum => exact IsRingSum.mono hext h
  | succeeded recvbuff => exact IsRingSum.mono hext h
  | _ => trivial

variable {rings : Nat → List Int}

theorem DirOk.mono (hext : Extends passed passed') {dir : CallDir F} (h : DirOk passed rings dir) :
    DirOk passed' rings dir where
  rank rank file hfile := by
    obtain ⟨buffer, hbuffer, hprefix⟩ := h.rank rank file hfile
    exact ⟨buffer, hext _ _ _ hbuffer, hprefix⟩
  result file hfile := by
    obtain ⟨count, sum, hsum, hprefix⟩ := h.result file hfile
    exact ⟨count, sum, hsum.mono hext, hprefix⟩

/-- A file a rank writes. -/
theorem DirOk.writeRank {dir : CallDir F} (h : DirOk passed rings dir) {rank : Int}
    {buffer : List F} (hpassed : passed rank id = some buffer) (answer : Answer) :
    DirOk passed rings { dir with
      rank := update dir.rank rank (answer.write id buffer (dir.rank rank)) } where
  rank r file hfile := by
    rcases Answer.write_rank_eq_some hfile with hold | ⟨rfl, rfl, hprefix⟩
    · exact h.rank r file hold
    · exact ⟨buffer, hpassed, hprefix⟩
  result := h.result

theorem DirOk.writeResult {dir : CallDir F} (h : DirOk passed rings dir) {sum : List F}
    (hsum : IsRingSum passed id (rings id.comm) count sum) (answer : Answer) :
    DirOk passed rings { dir with result := answer.write id sum dir.result } where
  rank := h.rank
  result file hfile := by
    rcases Answer.write_eq_some hfile with hold | ⟨rfl, hprefix⟩
    · exact h.result file hold
    · exact ⟨count, sum, hsum, hprefix⟩

variable {hooks : SifiveHooks F} {comm : HetGpuNcclComm} {rank : Int} {call : AllReduce F}
  {dir : CallDir F} {answer : Answer}

/-- A call adds only its own files. -/
theorem hasFile_of_advance (h : (call.advance hooks comm rank dir answer).2.HasFile id) :
    dir.HasFile id ∨ (id = call.id ∧ call.stage.running) := by
  cases hstage : call.stage with
  | writeRank =>
    simp only [advance, hstage] at h
    rcases h with ⟨r, file, hfile, rfl⟩ | h
    · rcases Answer.write_rank_eq_some hfile with hold | ⟨_, hid, _⟩
      · exact .inl (.inl ⟨r, file, hold, rfl⟩)
      · exact .inr ⟨hid, rfl⟩
    · exact .inl (.inr h)
  | writeResult accum =>
    simp only [advance, hstage] at h
    rcases h with h | ⟨file, hfile, rfl⟩ | h
    · exact .inl (.inl h)
    · rcases Answer.write_eq_some hfile with hold | ⟨hid, _⟩
      · exact .inl (.inr (.inl ⟨file, hold, rfl⟩))
      · exact .inr ⟨hid, rfl⟩
    · exact .inl (.inr (.inr h))
  | publishAbort reason =>
    simp only [advance, hstage] at h
    split at h
    · rcases h with h | h | ⟨file, hfile, rfl⟩
      · exact .inl (.inl h)
      · exact .inl (.inr (.inl h))
      · exact .inr ⟨congrArg Stamped.id (some.inj hfile).symm, rfl⟩
    · exact .inl h
  | waitInput rest inputs =>
    cases rest with
    | nil =>
      simp only [advance, hstage] at h
      exact .inl h
    | cons r rest =>
      simp only [advance, hstage] at h
      exact .inl h
  | _ =>
    simp only [advance, hstage] at h
    exact .inl h

theorem dirOk_advance (hdir : DirOk passed rings dir)
    (hring : comm.activeRanks = rings call.id.comm)
    (hpassed : passed rank call.id = some call.sendbuff)
    (hstage : StageOk passed call.id comm.activeRanks call.count call.stage) :
    DirOk passed rings (call.advance hooks comm rank dir answer).2 := by
  cases hat : call.stage with
  | writeRank =>
    simp only [advance, hat]
    exact hdir.writeRank hpassed answer
  | writeResult accum =>
    simp only [advance, hat]
    rw [hat, hring] at hstage
    exact hdir.writeResult hstage answer
  | publishAbort reason =>
    simp only [advance, hat]
    split
    · exact ⟨hdir.rank, hdir.result⟩
    · exact hdir
  | waitInput rest inputs =>
    cases rest with
    | nil =>
      simp only [advance, hat]
      exact hdir
    | cons r rest =>
      simp only [advance, hat]
      exact hdir
  | _ =>
    simp only [advance, hat]
    exact hdir

/-- In a directory with no other call's files, a call reads what its own ranks
passed and what its own coordinator summed. -/
theorem stageOk_advance (hcpu : answer.useSifive = false) (hdir : DirOk passed rings dir)
    (hring : comm.activeRanks = rings call.id.comm)
    (hown : call.stage.running → ∀ id, dir.HasFile id → id = call.id)
    (hstage : StageOk passed call.id comm.activeRanks call.count call.stage) :
    StageOk passed call.id comm.activeRanks call.count
      (call.advance hooks comm rank dir answer).1 := by
  cases hat : call.stage with
  | createDir =>
    simp only [advance, hat]
    split <;> trivial
  | writeRank =>
    simp only [advance, hat]
    split
    · trivial
    · split <;> trivial
  | allocate =>
    simp only [advance, hat]
    split
    · exact ⟨[], rfl, .nil⟩
    · trivial
  | waitInput rest inputs =>
    rw [hat] at hstage
    obtain ⟨done, hdone, hgathered⟩ := hstage
    cases rest with
    | nil =>
      simp only [advance, hat]
      rw [append_nil] at hdone
      exact hdone ▸ hgathered
    | cons r rest =>
      simp only [advance, hat]
      split
      · exact ⟨done, hdone, hgathered⟩
      · split
        · trivial
        · exact ⟨done, hdone, hgathered⟩
  | readInput r rest inputs =>
    rw [hat] at hstage
    obtain ⟨done, hdone, hgathered⟩ := hstage
    simp only [advance, hat]
    cases hread : answer.read call.count (dir.rank r) with
    | none => trivial
    | some input =>
      obtain ⟨file, hfile, hprefix⟩ := Answer.read_eq_some hread
      obtain ⟨buffer, hbuffer, hbegins⟩ := hdir.rank r file hfile
      obtain ⟨hle, rfl⟩ := hprefix buffer hbegins
      have hid : file.id = call.id := hown (by rw [hat]; rfl) _ (.inl ⟨r, file, hfile, rfl⟩)
      refine ⟨done ++ [r], by simp [hdone], ?_⟩
      exact rel_append hgathered (.cons ⟨buffer, hid ▸ hbuffer, hle, rfl⟩ .nil)
  | reduce inputs =>
    rw [hat] at hstage
    simp only [advance, hat, reduceInputs_of_cpu hcpu]
    exact ⟨inputs, hstage, rfl⟩
  | writeResult accum =>
    simp only [advance, hat]
    split <;> trivial
  | publishAbort reason =>
    simp only [advance, hat]
    trivial
  | waitResult =>
    simp only [advance, hat]
    split <;> trivial
  | checkAbort =>
    simp only [advance, hat]
    split <;> trivial
  | readResult =>
    simp only [advance, hat]
    cases hread : answer.read call.count dir.result with
    | none => trivial
    | some recvbuff =>
      obtain ⟨file, hfile, hprefix⟩ := Answer.read_eq_some hread
      obtain ⟨count, sum, hsum, hbegins⟩ := hdir.result file hfile
      obtain ⟨hle, rfl⟩ := hprefix sum hbegins
      have hid : file.id = call.id := hown (by rw [hat]; rfl) _ (.inr (.inl ⟨file, hfile, rfl⟩))
      rw [hid, ← hring] at hsum
      exact hsum.take (hsum.length_eq ▸ hle)
  | succeeded recvbuff =>
    rw [hat] at hstage
    simp only [advance, hat]
    exact hstage
  | failed =>
    simp only [advance, hat]
    trivial

theorem running_of_advance (h : (call.advance hooks comm rank dir answer).1.running) :
    call.stage.running := by
  cases hat : call.stage with
  | succeeded recvbuff =>
    simp only [advance, hat] at h
    exact h
  | failed =>
    simp only [advance, hat] at h
    exact h
  | _ => rfl

end

/-! ## The job -/

namespace Job

variable {F : Type}

/-- The call has a file in the directory, or has one of its ranks at work in it. -/
def Uses (s : Job F) (sequence : UInt64) (id : CallId) : Prop :=
  (s.dirs sequence).HasFile id ∨ ∃ port call, s.calls port = some call ∧ call.stage.running ∧
    call.sequence = sequence ∧ call.id = id

/-- A call is begun only where no other call uses the directory of its sequence
number, and `HETGPU_NCCL_USE_SIFIVE` is not set: the CPU makes the sums. -/
def Unshared (s : Job F) : Port × Event F → Prop
  | (port, .call _) => ∀ comm, s.comms port = some comm →
      ∀ id, s.Uses comm.sequence id → id = ⟨port.2, comm.calls⟩
  | (_, .advance answer) => answer.useSifive = false
  | (_, .create) => True

variable [Zero F] [Add F]

/-- What holds along a run. -/
structure Inv (configs : Nat → CommConfig) (s : Job F) : Prop where
  ring : ∀ port comm, s.comms port = some comm → comm.activeRanks = (configs port.2).activeRanks
  fresh : ∀ rank id buffer, s.passed rank id = some buffer →
    ∃ comm, s.comms (rank, id.comm) = some comm ∧ id.number < comm.calls
  comm : ∀ port call, s.calls port = some call → call.id.comm = port.2
  passed : ∀ port call, s.calls port = some call → s.passed port.1 call.id = some call.sendbuff
  stage : ∀ port call, s.calls port = some call →
    StageOk s.passed call.id (configs port.2).activeRanks call.count call.stage
  dir : ∀ sequence, DirOk s.passed (fun c => (configs c).activeRanks) (s.dirs sequence)
  unshared : ∀ sequence id id', s.Uses sequence id → s.Uses sequence id' → id = id'

variable {hooks : SifiveHooks F} {configs : Nat → CommConfig} {s t : Job F} {port : Port}

theorem Inv.start : Inv configs (start : Job F) where
  ring _ _ h := by simp [Job.start] at h
  fresh _ _ _ h := by simp [Job.start] at h
  comm _ _ h := by simp [Job.start] at h
  passed _ _ h := by simp [Job.start] at h
  stage _ _ h := by simp [Job.start] at h
  dir sequence := ⟨fun _ _ h => by simp [Job.start] at h, fun _ h => by simp [Job.start] at h⟩
  unshared sequence id id' h := by
    rcases h with (⟨_, _, h, _⟩ | ⟨_, h, _⟩ | ⟨_, h, _⟩) | ⟨_, _, h, _⟩ <;> simp [Job.start] at h

variable {comm : HetGpuNcclComm}

theorem makeComm_spec {config : CommConfig} {rank : Int}
    (h : makeComm config rank = some comm) :
    comm.activeRanks = config.activeRanks ∧ comm.sequence = UInt64.ofNat comm.calls := by
  unfold makeComm at h
  split at h
  · cases h
  · exact some.inj h ▸ ⟨rfl, rfl⟩

theorem Inv.create (h : Inv configs s) (hnone : s.comms port = none)
    (hcomm : makeComm (configs port.2) port.1 = some comm) :
    Inv configs { s with comms := update s.comms port (some comm) } := by
  refine ⟨forall_update (makeComm_spec hcomm).1 h.ring, ?_, h.comm, h.passed, h.stage,
    h.dir, h.unshared⟩
  · intro rank id buffer hpassed
    obtain ⟨comm', hcomm', hlt⟩ := h.fresh rank id buffer hpassed
    have hne : (rank, id.comm) ≠ port := fun heq => by simp [heq, hnone] at hcomm'
    exact ⟨comm', by simpa [update_of_ne hne] using hcomm', hlt⟩

omit [Zero F] [Add F] in
/-- A new call uses the directory of its sequence number. -/
theorem uses_of_beginCall {sendbuff : List F} {sequence : UInt64} {id : CallId}
    (h : (s.beginCall port comm sendbuff).Uses sequence id) :
    s.Uses sequence id ∨ (sequence = comm.sequence ∧ id = ⟨port.2, comm.calls⟩) := by
  rcases h with hfile | ⟨port', call, hcall, hrunning, hsequence, hid⟩
  · exact .inl (.inl hfile)
  · rcases update_eq_some hcall with ⟨rfl, rfl⟩ | ⟨_, hold⟩
    · exact .inr ⟨hsequence.symm, hid.symm⟩
    · exact .inl (.inr ⟨port', call, hold, hrunning, hsequence, hid⟩)

/-- What an operation leaves in use was in use before. -/
theorem uses_of_proceed {call : AllReduce F} (hcall : s.calls port = some call) {answer : Answer}
    {sequence : UInt64} {id : CallId}
    (h : (s.proceed hooks port comm call answer).Uses sequence id) : s.Uses sequence id := by
  rcases h with hfile | ⟨port', call', hcall', hrunning, hsequence, hid⟩
  · by_cases hsequence : sequence = call.sequence
    · subst hsequence
      simp only [proceed, update_self] at hfile
      rcases hasFile_of_advance hfile with hfile | ⟨rfl, hrunning⟩
      · exact .inl hfile
      · exact .inr ⟨port, call, hcall, hrunning, rfl, rfl⟩
    · simp only [proceed, update_of_ne hsequence] at hfile
      exact .inl hfile
  · rcases update_eq_some hcall' with ⟨rfl, rfl⟩ | ⟨_, hother⟩
    · exact .inr ⟨port', call, hcall, running_of_advance hrunning, hsequence, hid⟩
    · exact .inr ⟨port', call', hother, hrunning, hsequence, hid⟩

theorem Inv.beginCall (h : Inv configs s) (hcomm : s.comms port = some comm) (sendbuff : List F)
    (hunshared : ∀ id, s.Uses comm.sequence id → id = ⟨port.2, comm.calls⟩) :
    Inv configs (s.beginCall port comm sendbuff) := by
  have hnew : s.passed port.1 ⟨port.2, comm.calls⟩ = none := by
    by_contra hsome
    obtain ⟨buffer, hbuffer⟩ := ne_none_iff_exists'.mp hsome
    obtain ⟨comm', hcomm', hlt⟩ := h.fresh _ _ _ hbuffer
    obtain rfl : comm = comm' := some.inj (hcomm.symm.trans hcomm')
    simp at hlt
  have hext : Extends s.passed (s.beginCall port comm sendbuff).passed := by
    intro rank id buffer hbuffer
    have hother : ¬ (rank = port.1 ∧ id = ⟨port.2, comm.calls⟩) := by
      rintro ⟨rfl, rfl⟩
      simp [hnew] at hbuffer
    exact (if_neg hother).trans hbuffer
  refine ⟨forall_update (h.ring port comm hcomm) h.ring, ?_, forall_update rfl h.comm,
    forall_update (if_pos ⟨rfl, rfl⟩) fun _ _ hold => hext _ _ _ (h.passed _ _ hold),
    forall_update trivial fun _ _ hold => (h.stage _ _ hold).mono hext,
    fun sequence => (h.dir sequence).mono hext, ?_⟩
  · intro rank id buffer hbuffer
    simp only [Job.beginCall] at hbuffer
    split at hbuffer
    · rename_i hhere
      obtain ⟨rfl, rfl⟩ := hhere
      exact ⟨_, update_self .., Nat.lt_succ_self comm.calls⟩
    · obtain ⟨comm', hcomm', hlt⟩ := h.fresh rank id buffer hbuffer
      by_cases hport : (rank, id.comm) = port
      · rw [hport] at hcomm' ⊢
        obtain rfl : comm = comm' := some.inj (hcomm.symm.trans hcomm')
        exact ⟨_, update_self .., Nat.lt_succ_of_lt hlt⟩
      · exact ⟨comm', (update_of_ne hport ..).trans hcomm', hlt⟩
  · -- the new call is the only one in its directory
    intro sequence id id' hid hid'
    rcases uses_of_beginCall hid with hold | ⟨rfl, rfl⟩
    · rcases uses_of_beginCall hid' with hold' | ⟨rfl, rfl⟩
      · exact h.unshared sequence id id' hold hold'
      · exact hunshared id hold
    · rcases uses_of_beginCall hid' with hold' | ⟨_, rfl⟩
      · exact (hunshared id' hold').symm
      · rfl

theorem Inv.proceed (h : Inv configs s) (hcomm : s.comms port = some comm)
    {call : AllReduce F} (hcall : s.calls port = some call) {answer : Answer}
    (hcpu : answer.useSifive = false) :
    Inv configs (s.proceed hooks port comm call answer) := by
  have hring := h.ring port comm hcomm
  have hring' : comm.activeRanks = (configs call.id.comm).activeRanks := by
    rw [hring, h.comm port call hcall]
  have hstage := h.stage port call hcall
  rw [← hring] at hstage
  have hdir := h.dir call.sequence
  refine ⟨h.ring, h.fresh, forall_update (h.comm port call hcall) h.comm,
    forall_update (h.passed port call hcall) h.passed, forall_update ?_ h.stage, ?_, ?_⟩
  · rw [← hring]
    refine stageOk_advance hcpu hdir hring' (fun hrunning id hfile => ?_) hstage
    exact h.unshared _ _ _ (.inl hfile) (.inr ⟨port, call, hcall, hrunning, rfl, rfl⟩)
  · intro sequence
    by_cases hsequence : sequence = call.sequence
    · subst hsequence
      simp only [Job.proceed, update_self]
      exact dirOk_advance hdir hring' (h.passed port call hcall) hstage
    · simp only [Job.proceed, update_of_ne hsequence]
      exact h.dir sequence
  · exact fun sequence id id' hid hid' =>
      h.unshared sequence id id' (uses_of_proceed hcall hid) (uses_of_proceed hcall hid')

/-- What a step does. -/
theorem step_cases {event : Event F} (hstep : s.step hooks configs port event = some t) :
    (∃ comm, event = .create ∧ s.comms port = none ∧
      makeComm (configs port.2) port.1 = some comm ∧
      t = { s with comms := update s.comms port (some comm) }) ∨
    t = s ∨
    (∃ comm sendbuff, event = .call sendbuff ∧ s.comms port = some comm ∧
      t = s.beginCall port comm sendbuff) ∨
    ∃ comm call answer, event = .advance answer ∧ s.comms port = some comm ∧
      s.calls port = some call ∧ t = s.proceed hooks port comm call answer := by
  cases event with
  | create =>
    simp only [Job.step] at hstep
    split at hstep
    · rename_i comm hnone hcomm
      exact .inl ⟨comm, rfl, hnone, hcomm, (some.inj hstep).symm⟩
    · simp at hstep
  | call sendbuff =>
    simp only [Job.step] at hstep
    split at hstep
    · simp at hstep
    · rename_i comm hcomm
      split at hstep
      · simp at hstep
      · split at hstep
        · exact .inr (.inl (some.inj hstep).symm)
        · exact .inr (.inr (.inl ⟨comm, sendbuff, rfl, hcomm, (some.inj hstep).symm⟩))
  | advance answer =>
    simp only [Job.step] at hstep
    split at hstep
    · rename_i comm call hcomm hcall
      exact .inr (.inr (.inr ⟨comm, call, answer, rfl, hcomm, hcall, (some.inj hstep).symm⟩))
    · simp at hstep

theorem Inv.step (h : Inv configs s) {event : Event F}
    (hunshared : s.Unshared (port, event)) (hstep : s.step hooks configs port event = some t) :
    Inv configs t := by
  rcases step_cases hstep with ⟨comm, _, hnone, hcomm, rfl⟩ | rfl |
      ⟨comm, sendbuff, rfl, hcomm, rfl⟩ |
    ⟨comm, call, answer, rfl, hcomm, hcall, rfl⟩
  · exact h.create hnone hcomm
  · exact h
  · exact h.beginCall hcomm sendbuff (hunshared comm hcomm)
  · exact h.proceed hcomm hcall hunshared

theorem inv_of_reachable (h : ((job hooks configs).restrict Unshared).Reachable s) :
    Inv configs s := by
  refine TSys.Reachable.induct ?_ ?_ h
  · rintro _ rfl
    exact .start
  · rintro s ⟨port, event⟩ t hs ⟨hunshared, hstep⟩
    exact hs.step hunshared hstep

/-- **Agreement.** Where calls do not share directories and the CPU sums, a call that returns
`ncclSuccess` has the ring-order sum of the buffers that the active ranks passed
to the same call. -/
theorem allReduce_agrees
    (h : ((job hooks configs).restrict Unshared).Reachable s) {rank : Int} {c : Nat}
    {call : AllReduce F} (hcall : s.calls (rank, c) = some call) {recvbuff : List F}
    (hsuccess : call.stage = .succeeded recvbuff) :
    call.id.comm = c ∧ s.passed rank call.id = some call.sendbuff ∧
      IsRingSum s.passed call.id (configs c).activeRanks call.count recvbuff := by
  have hinv := inv_of_reachable h
  refine ⟨hinv.comm _ _ hcall, hinv.passed _ _ hcall, ?_⟩
  have hstage := hinv.stage _ _ hcall
  rwa [hsuccess] at hstage

/-! ## One communicator -/

/-- All calls are on communicator `c`, have different sequence numbers and are summed
by the CPU. -/
def OnlyOn (c : Nat) (s : Job F) : Port × Event F → Prop
  | (port, .call _) => port.2 = c ∧ ∀ comm, s.comms port = some comm → comm.calls < 2 ^ 64
  | (_, .advance answer) => answer.useSifive = false
  | (_, .create) => True

/-- What such a job has in its directories. -/
structure Sole (c : Nat) (s : Job F) : Prop where
  sequence : ∀ port comm, s.comms port = some comm → comm.sequence = UInt64.ofNat comm.calls
  uses : ∀ sequence id, s.Uses sequence id →
    id.comm = c ∧ id.number < 2 ^ 64 ∧ sequence = UInt64.ofNat id.number

variable {c : Nat}

theorem Sole.step (h : Sole c s) {event : Event F} (honly : s.OnlyOn c (port, event))
    (hstep : s.step hooks configs port event = some t) : Sole c t := by
  rcases step_cases hstep with ⟨comm, _, hnone, hcomm, rfl⟩ | rfl |
      ⟨comm, sendbuff, rfl, hcomm, rfl⟩ |
    ⟨comm, call, answer, _, hcomm, hcall, rfl⟩
  · exact ⟨forall_update (makeComm_spec hcomm).2 h.sequence, h.uses⟩
  · exact h
  · obtain ⟨hport, hlt⟩ := honly
    refine ⟨forall_update ?_ h.sequence, ?_⟩
    · show comm.sequence + 1 = UInt64.ofNat (comm.calls + 1)
      rw [h.sequence port comm hcomm, UInt64.ofNat_add]
      rfl
    · intro sequence id hid
      rcases uses_of_beginCall hid with hold | ⟨rfl, rfl⟩
      · exact h.uses sequence id hold
      · exact ⟨hport, hlt comm hcomm, h.sequence port comm hcomm⟩
  · exact ⟨h.sequence, fun sequence id hid => h.uses sequence id (uses_of_proceed hcall hid)⟩

omit [Zero F] [Add F] in
/-- A call of such a job is alone in its directory. -/
theorem Sole.unshared (h : Sole c s) {event : Event F} (honly : s.OnlyOn c (port, event)) :
    s.Unshared (port, event) := by
  cases event with
  | call sendbuff =>
    obtain ⟨hport, hlt⟩ := honly
    intro comm hcomm id hid
    obtain ⟨hid_comm, hnumber, hsequence⟩ := h.uses _ _ hid
    rw [h.sequence port comm hcomm, ← UInt64.toNat_inj, UInt64.toNat_ofNat', UInt64.toNat_ofNat',
      Nat.mod_eq_of_lt (hlt comm hcomm), Nat.mod_eq_of_lt hnumber] at hsequence
    cases id
    simp_all
  | create => trivial
  | advance answer => exact honly

/-- A job that uses one communicator shares no directory. -/
theorem reachable_of_onlyOn (h : ((job hooks configs).restrict (OnlyOn c)).Reachable s) :
    ((job hooks configs).restrict Unshared).Reachable s ∧ Sole c s := by
  induction h with
  | init h0 =>
    obtain rfl := h0
    refine ⟨.init rfl, fun _ _ h => by simp [Job.start] at h, ?_⟩
    intro sequence id h
    rcases h with (⟨_, _, h, _⟩ | ⟨_, h, _⟩ | ⟨_, h, _⟩) | ⟨_, _, h, _⟩ <;> simp [Job.start] at h
  | step _ hstep ih =>
    obtain ⟨hreach, hsole⟩ := ih
    exact ⟨.step hreach ⟨hsole.unshared hstep.1, hstep.2⟩, hsole.step hstep.1 hstep.2⟩

/-! ## Two communicators -/

/-- Two ranks, with nothing to recover. -/
def twoRanks : CommConfig where
  nranks := 2
  recoveryEnabled := false
  failedRank := -1
  replacementRank := -1
  plannerLinked := false

def noHooks : SifiveHooks Int where
  reduceSum := none
  allReduce := none

/-- The operation succeeds at once. -/
def fine : Answer where
  ok := true
  written := none
  timedOut := false
  useSifive := false
  cpuFallback := false

/-- `n` operations of a call. -/
def operations (port : Port) (n : Nat) : List (Port × Event Int) :=
  List.replicate n (port, .advance fine)

/-- On the first communicator the ranks pass `[1]` and `[2]`. -/
def firstCall : List (Port × Event Int) :=
  [((0, 0), .create), ((1, 0), .create), ((1, 0), .call [2])] ++ operations (1, 0) 2 ++
    [((0, 0), .call [1])] ++ operations (0, 0) 12 ++ operations (1, 0) 2

/-- On the second, rank 1 passes `[5]` and then rank 0 passes `[10]`. -/
def secondCall : List (Port × Event Int) :=
  [((0, 1), .create), ((1, 1), .create), ((1, 1), .call [5])] ++ operations (1, 1) 4 ++
    [((0, 1), .call [10])]

def execute (actions : List (Port × Event Int)) : Option (Job Int) :=
  TSys.runSteps (fun s action => s.step noHooks (fun _ => twoRanks) action.1 action.2) start actions

/-- A step on the first communicator only. -/
def stepFirst (s : Job Int) (action : Port × Event Int) : Option (Job Int) :=
  match action with
  | (port, .call sendbuff) =>
    if port.2 = 0 ∧ (s.comms port).all (·.calls < 2 ^ 64) then
      s.step noHooks (fun _ => twoRanks) port (.call sendbuff)
    else none
  | (port, .advance answer) =>
    if answer.useSifive then none else s.step noHooks (fun _ => twoRanks) port (.advance answer)
  | (port, .create) => s.step noHooks (fun _ => twoRanks) port .create

theorem stepFirst_onlyOn {s t : Job Int} {action : Port × Event Int}
    (h : s.stepFirst action = some t) :
    ((job noHooks fun _ => twoRanks).restrict (OnlyOn 0)).step s action t := by
  obtain ⟨port, event⟩ := action
  cases event with
  | create => exact ⟨trivial, h⟩
  | call sendbuff =>
    simp only [stepFirst] at h
    split at h
    · rename_i hguard
      refine ⟨⟨hguard.1, fun comm hcomm => ?_⟩, h⟩
      simpa [hcomm] using hguard.2
    · simp at h
  | advance answer =>
    simp only [stepFirst] at h
    split at h
    · simp at h
    · next huse => exact ⟨Bool.eq_false_iff.mpr huse, h⟩

/-- Both ranks of the first call have the sum. -/
theorem allReduce_agrees_firstCall : ∃ (s : Job Int) (call : AllReduce Int),
    ((job noHooks fun _ => twoRanks).restrict Unshared).Reachable s ∧
    s.calls (1, 0) = some call ∧ call.stage = .succeeded [3] ∧
    IsRingSum s.passed call.id twoRanks.activeRanks call.count [3] := by
  have hrun : (TSys.runSteps stepFirst start firstCall).map
      (fun s => (s.calls (1, 0)).map stage) = some (some (.succeeded [3])) := by
    decide +kernel
  obtain ⟨s, hs, hstage⟩ := map_eq_some_iff.mp hrun
  obtain ⟨call, hcall, hstage⟩ := map_eq_some_iff.mp hstage
  have hreach := (reachable_of_onlyOn (TSys.Reachable.runSteps firstCall
    (fun _ _ _ _ h => stepFirst_onlyOn h) (.init rfl) hs)).1
  exact ⟨s, call, hreach, hcall, hstage, (allReduce_agrees hreach hcall hstage).2.2⟩

/-- **A stale result.** The second communicator starts again at sequence number
`0`, where the result of the first is. Rank 1 takes that for its own. -/
theorem allReduce_stale : ∃ (s : Job Int) (call : AllReduce Int),
    (job noHooks fun _ => twoRanks).Reachable s ∧
    s.calls (1, 1) = some call ∧ call.stage = .succeeded [3] ∧
    s.passed 0 call.id = some [10] ∧ s.passed 1 call.id = some [5] ∧
    ¬ IsRingSum s.passed call.id twoRanks.activeRanks call.count [3] := by
  have hrun : (execute (firstCall ++ secondCall)).map (fun s =>
      ((s.calls (1, 1)).map (fun call => (call.stage, call.id, call.count)),
        s.passed 0 ⟨1, 0⟩, s.passed 1 ⟨1, 0⟩)) =
      some (some (.succeeded [3], ⟨1, 0⟩, 1), some [10], some [5]) := by
    decide +kernel
  obtain ⟨s, hs, heq⟩ := map_eq_some_iff.mp hrun
  obtain ⟨hcall, hzero, hone⟩ : _ ∧ _ ∧ _ := by simpa only [Prod.mk.injEq] using heq
  obtain ⟨call, hcall, heq⟩ := map_eq_some_iff.mp hcall
  obtain ⟨hstage, hid, hcount⟩ : _ ∧ _ ∧ _ := by simpa only [Prod.mk.injEq] using heq
  have hreach : (job noHooks fun _ => twoRanks).Reachable s :=
    TSys.Reachable.runSteps _ (fun _ _ _ _ h => h) (.init rfl) hs
  refine ⟨s, call, hreach, hcall, hstage, hid ▸ hzero, hid ▸ hone, ?_⟩
  rintro ⟨inputs, hinputs, hsum⟩
  rw [hid, hcount] at hinputs
  rw [hcount] at hsum
  have hring : twoRanks.activeRanks = [0, 1] := by decide
  rw [hring] at hinputs
  rcases hinputs with _ | ⟨⟨buffer, hbuffer, _, rfl⟩, _ | ⟨⟨buffer', hbuffer', _, rfl⟩, _ | _⟩⟩
  obtain rfl := some.inj (hzero.symm.trans hbuffer)
  obtain rfl := some.inj (hone.symm.trans hbuffer')
  simp [cpuSum] at hsum

end Job

end Concordia.Nccl
