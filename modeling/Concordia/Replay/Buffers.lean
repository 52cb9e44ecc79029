import Concordia.Lib.FnMap
import Concordia.Replay.Player

/-!
# The buffers of a replay

A snapshot is a list of writes into a buffer of a given length. Snapshots that are
applied in turn go to the buffers they are mapped to, in their order
(`applySnapshots_memoryState`), so applying them again changes nothing
(`applySnapshots_again`). Where the buffers are follows from the recorded allocations
and the first free address (`placements`).
-/

namespace Concordia.Replay

open Concordia.Lib DirtyPageTracker List Function

/-! ## Snapshots as writes -/

namespace MemorySnapshot

/-- The writes into a buffer of `length` bytes; what does not fit is not written. -/
def writes (length : Nat) (snapshot : MemorySnapshot) : List (Nat × List UInt8) :=
  match snapshot.snapshotType with
  | .full => (snapshot.fullData.toList.filter (·.length ≤ length)).map fun full => (0, full.data)
  | .incremental =>
    ((snapshot.dirtyRegions.getD []).filter fun region =>
      region.offset.toNat + region.size.toNat ≤ length ∧
        region.data.length = region.size.toNat).map fun region =>
      (region.offset.toNat, region.data.data)
  | .reference _ => []

theorem writeTo_data (snapshot : MemorySnapshot) (data : ByteVec) :
    (snapshot.writeTo data).data = overwriteAll data.data (snapshot.writes data.length) := by
  unfold writeTo writes
  cases snapshot.snapshotType with
  | full =>
    cases snapshot.fullData with
    | none => rfl
    | some full =>
      by_cases hfits : full.length ≤ data.length
      · simp [hfits, ByteVec.overwrite]
      · simp [hfits]
  | reference id => rfl
  | incremental =>
    cases snapshot.dirtyRegions with
    | none => rfl
    | some regions =>
      simp only [Option.getD_some]
      induction regions generalizing data with
      | nil => rfl
      | cons region regions ih =>
        rw [foldl_cons, filter_cons]
        by_cases hfits : region.offset.toNat + region.size.toNat ≤ data.length ∧
            region.data.length = region.size.toNat
        · have hlength : (data.overwrite region.offset.toNat region.data.data).length =
              data.length := length_overwrite _ _ _
          rw [if_pos hfits, if_pos (decide_eq_true hfits), map_cons, overwriteAll_cons, ih,
            hlength]
          rfl
        · rw [if_neg hfits, if_neg (by simpa using hfits), ih]

theorem length_writeTo (snapshot : MemorySnapshot) (data : ByteVec) :
    (snapshot.writeTo data).length = data.length := by
  rw [ByteVec.length, writeTo_data, length_overwriteAll]
  rfl

end MemorySnapshot

/-- The bytes that snapshots leave. -/
def writeAll (data : ByteVec) (snapshots : List MemorySnapshot) : ByteVec :=
  snapshots.foldl (fun data snapshot => snapshot.writeTo data) data

/-- The writes of snapshots one after the other. -/
def allWrites (length : Nat) (snapshots : List MemorySnapshot) : List (Nat × List UInt8) :=
  snapshots.flatMap (·.writes length)

section

variable (data : ByteVec) (snapshots : List MemorySnapshot)

theorem writeAll_append (rest : List MemorySnapshot) :
    writeAll data (snapshots ++ rest) = writeAll (writeAll data snapshots) rest :=
  foldl_append

theorem writeAll_data :
    (writeAll data snapshots).data = overwriteAll data.data (allWrites data.length snapshots) := by
  induction snapshots generalizing data with
  | nil => rfl
  | cons snapshot rest ih =>
    have htail := ih (snapshot.writeTo data)
    rw [snapshot.length_writeTo, snapshot.writeTo_data] at htail
    rw [allWrites, flatMap_cons, overwriteAll_append]
    exact htail

theorem length_writeAll : (writeAll data snapshots).length = data.length := by
  rw [ByteVec.length, writeAll_data, length_overwriteAll]
  rfl

/-- Writing the same again changes nothing: the last write decides each byte. -/
theorem writeAll_again :
    writeAll (writeAll data snapshots) snapshots = writeAll data snapshots := by
  refine ByteVec.ext ?_
  rw [writeAll_data (writeAll data snapshots), length_writeAll, writeAll_data]
  refine (overwriteAll_eq_self_iff _ _).mpr fun i hi w hw => ?_
  rw [length_overwriteAll] at hi
  rw [getElem?_overwriteAll _ _ hi, hw]

end

/-! ## Snapshots of an engine -/

/-- What a snapshot does to a buffer. -/
def ReconstructedMemory.written (m : ReconstructedMemory) (snapshot : MemorySnapshot) :
    ReconstructedMemory :=
  { m with data := snapshot.writeTo m.data, lastSnapshotId := snapshot.snapshotId }

open ReconstructedMemory

theorem data_foldl_written (m : ReconstructedMemory) (snapshots : List MemorySnapshot) :
    (snapshots.foldl written m).data = writeAll m.data snapshots := by
  induction snapshots generalizing m with
  | nil => rfl
  | cons snapshot rest ih => exact ih (m.written snapshot)

theorem foldl_written_again (m : ReconstructedMemory) (snapshots : List MemorySnapshot) :
    snapshots.foldl written
        (snapshots.foldl written m) =
      snapshots.foldl written m := by
  have hform : ∀ m, snapshots.foldl written m =
      { m with
        data := writeAll m.data snapshots
        lastSnapshotId := (snapshots.getLast?.map (·.snapshotId)).getD m.lastSnapshotId } := by
    intro m
    induction snapshots using List.reverseRecOn generalizing m with
    | nil => rfl
    | append_singleton snapshots snapshot ih =>
      rw [foldl_append, ih, writeAll_append]
      simp [written, writeAll]
  rw [hform, hform, writeAll_again]
  cases snapshots.getLast? <;> rfl

namespace ReplayEngine

variable {e e' : ReplayEngine} {snapshots : List MemorySnapshot}

/-- The snapshots that go to a buffer. -/
def reaching (e : ReplayEngine) (newAddr : UInt64) (snapshots : List MemorySnapshot) :
    List MemorySnapshot :=
  snapshots.filter fun snapshot => e.addressMap snapshot.deviceAddr = some newAddr

theorem applySnapshot_eq (e : ReplayEngine) (snapshot : MemorySnapshot) :
    (∃ err, e.applySnapshot snapshot = .error err ∧ e.memory snapshot.deviceAddr = none) ∨
    ∃ newAddr m, e.addressMap snapshot.deviceAddr = some newAddr ∧
      e.memoryState newAddr = some m ∧
      e.applySnapshot snapshot = .ok { e with
        memoryState := update e.memoryState newAddr (some (m.written snapshot)) } := by
  unfold applySnapshot memory
  cases haddr : e.addressMap snapshot.deviceAddr with
  | none => exact .inl ⟨_, rfl, rfl⟩
  | some newAddr =>
    cases hm : e.memoryState newAddr with
    | none => exact .inl ⟨s!"No memory state for 0x{hex newAddr}", by simp only [hm], hm⟩
    | some m => exact .inr ⟨newAddr, m, rfl, hm, by simp only [hm]; rfl⟩

variable {rest : List MemorySnapshot} {snapshot : MemorySnapshot}

theorem applySnapshots_cons_of_ok (h : e.applySnapshot snapshot = .ok e') :
    e.applySnapshots (snapshot :: rest) = e'.applySnapshots rest := by
  rw [applySnapshots, h]

theorem applySnapshots_cons_of_error {err : String} (h : e.applySnapshot snapshot = .error err) :
    e.applySnapshots (snapshot :: rest) = (e, some err) := by
  rw [applySnapshots, h]

/-- Writing keeps the buffers there are. -/
theorem isSome_update {newAddr : UInt64} {m m' : ReconstructedMemory}
    (hm : e.memoryState newAddr = some m) (addr : UInt64) :
    (ReplayEngine.memory { e with
        memoryState := update e.memoryState newAddr (some m') } addr).isSome =
      (e.memory addr).isSome := by
  unfold memory
  cases e.addressMap addr with
  | none => rfl
  | some a =>
    simp only [Option.bind_some]
    by_cases h : a = newAddr
    · subst h
      rw [update_self, hm]
      rfl
    · rw [update_of_ne h]

theorem applySnapshots_addressMap (e : ReplayEngine) (snapshots : List MemorySnapshot) :
    (e.applySnapshots snapshots).1.addressMap = e.addressMap := by
  induction snapshots generalizing e with
  | nil => rfl
  | cons snapshot rest ih =>
    rcases e.applySnapshot_eq snapshot with ⟨err, herr, _⟩ | ⟨newAddr, m, _, _, hok⟩
    · rw [applySnapshots_cons_of_error herr]
    · rw [applySnapshots_cons_of_ok hok]
      exact ih _

theorem isSome_memory_applySnapshots (e : ReplayEngine) (snapshots : List MemorySnapshot)
    (addr : UInt64) :
    ((e.applySnapshots snapshots).1.memory addr).isSome = (e.memory addr).isSome := by
  induction snapshots generalizing e with
  | nil => rfl
  | cons snapshot rest ih =>
    rcases e.applySnapshot_eq snapshot with ⟨err, herr, _⟩ | ⟨newAddr, m, _, hm, hok⟩
    · rw [applySnapshots_cons_of_error herr]
    · rw [applySnapshots_cons_of_ok hok]
      exact (ih _).trans (isSome_update hm addr)

/-- Snapshots are applied exactly when each has a buffer. -/
theorem applySnapshots_ok_iff (e : ReplayEngine) (snapshots : List MemorySnapshot) :
    (e.applySnapshots snapshots).2 = none ↔
      ∀ snapshot ∈ snapshots, (e.memory snapshot.deviceAddr).isSome = true := by
  induction snapshots generalizing e with
  | nil => simp [applySnapshots]
  | cons snapshot rest ih =>
    rw [forall_mem_cons]
    rcases e.applySnapshot_eq snapshot with ⟨err, herr, hnone⟩ | ⟨newAddr, m, haddr, hm, hok⟩
    · rw [applySnapshots_cons_of_error herr, hnone]
      simp
    · rw [applySnapshots_cons_of_ok hok]
      have hsome : (e.memory snapshot.deviceAddr).isSome = true := by
        rw [memory, haddr, Option.bind_some, hm]
        rfl
      simp only [ih, isSome_update hm, hsome, true_and]

/-- **Buffers.** Each buffer gets the snapshots that are mapped to it, in turn. -/
theorem applySnapshots_memoryState (h : (e.applySnapshots snapshots).2 = none) (newAddr : UInt64) :
    (e.applySnapshots snapshots).1.memoryState newAddr =
      (e.memoryState newAddr).map
        ((e.reaching newAddr snapshots).foldl written) := by
  induction snapshots generalizing e with
  | nil => simp [applySnapshots, reaching]
  | cons snapshot rest ih =>
    rcases e.applySnapshot_eq snapshot with ⟨err, herr, _⟩ | ⟨addr, m, haddr, hm, hok⟩
    · rw [applySnapshots_cons_of_error herr] at h
      cases h
    · rw [applySnapshots_cons_of_ok hok] at h ⊢
      rw [ih h]
      have hsame : ∀ l, reaching { e with
          memoryState := update e.memoryState addr (some (m.written snapshot)) }
          newAddr l = e.reaching newAddr l := fun _ => rfl
      rw [hsame, reaching, reaching, filter_cons]
      dsimp only
      by_cases hnew : newAddr = addr
      · subst hnew
        rw [if_pos (decide_eq_true haddr), update_self, hm, Option.map_some,
          Option.map_some, foldl_cons]
      · have hother : ¬ e.addressMap snapshot.deviceAddr = some newAddr := by
          rw [haddr]
          exact fun heq => hnew (Option.some.inj heq).symm
        rw [if_neg (by simpa using hother), update_of_ne hnew]

theorem applySnapshots_append (snapshots rest : List MemorySnapshot)
    (h : (e.applySnapshots snapshots).2 = none) :
    e.applySnapshots (snapshots ++ rest) = (e.applySnapshots snapshots).1.applySnapshots rest := by
  induction snapshots generalizing e with
  | nil => rfl
  | cons snapshot tail ih =>
    rw [cons_append]
    rcases e.applySnapshot_eq snapshot with ⟨err, herr, _⟩ | ⟨addr, m, _, _, hok⟩
    · rw [applySnapshots_cons_of_error herr] at h
      cases h
    · rw [applySnapshots_cons_of_ok hok] at h
      rw [applySnapshots_cons_of_ok hok, applySnapshots_cons_of_ok hok]
      exact ih h

/-- **Again.** Snapshots that were just applied change nothing. -/
theorem applySnapshots_again (h : e.applySnapshots snapshots = (e', none)) :
    e'.applySnapshots snapshots = (e', none) := by
  have hfst : (e.applySnapshots snapshots).1 = e' := by rw [h]
  have hok : (e.applySnapshots snapshots).2 = none := by rw [h]
  have hmap : e'.addressMap = e.addressMap := by rw [← hfst, applySnapshots_addressMap]
  have hagain : (e'.applySnapshots snapshots).2 = none := by
    rw [applySnapshots_ok_iff] at hok ⊢
    intro snapshot hmem
    rw [← hfst, isSome_memory_applySnapshots]
    exact hok snapshot hmem
  have hreach : ∀ newAddr, e'.reaching newAddr snapshots = e.reaching newAddr snapshots := by
    intro newAddr
    rw [reaching, hmap, reaching]
  have hstate : (e'.applySnapshots snapshots).1.memoryState = e'.memoryState := by
    funext newAddr
    rw [applySnapshots_memoryState hagain, hreach, ← hfst, applySnapshots_memoryState hok,
      Option.map_map]
    cases e.memoryState newAddr with
    | none => rfl
    | some m => exact congrArg some (foldl_written_again m _)
  have haddr := applySnapshots_addressMap e' snapshots
  refine Prod.ext ?_ hagain
  obtain ⟨addressMap, memoryState⟩ := e'
  generalize applySnapshots _ snapshots = result at hstate haddr
  obtain ⟨⟨_, _⟩, _⟩ := result
  simp only at hstate haddr
  rw [hstate, haddr]

/-- The bytes of an allocation, by its recorded address. -/
def contents (e : ReplayEngine) (addr : UInt64) : Option ByteVec := (e.memory addr).map (·.data)

/-- The snapshots that go to the same buffer as an address. -/
def sharing (e : ReplayEngine) (addr : UInt64) (snapshots : List MemorySnapshot) :
    List MemorySnapshot :=
  snapshots.filter fun snapshot => e.addressMap snapshot.deviceAddr = e.addressMap addr

/-- What the allocation at an address holds after the snapshots. -/
theorem contents_applySnapshots (h : (e.applySnapshots snapshots).2 = none) (addr : UInt64) :
    (e.applySnapshots snapshots).1.contents addr =
      (e.contents addr).map (writeAll · (e.sharing addr snapshots)) := by
  unfold contents memory
  rw [applySnapshots_addressMap]
  cases haddr : e.addressMap addr with
  | none => rfl
  | some newAddr =>
    have hsharing : e.sharing addr snapshots = e.reaching newAddr snapshots := by
      rw [sharing, haddr, reaching]
    simp only [Option.bind_some, applySnapshots_memoryState h, Option.map_map, hsharing]
    cases e.memoryState newAddr with
    | none => rfl
    | some m => exact congrArg some (data_foldl_written m _)

/-- Validation looks at the contents only. -/
theorem validateKernelOutput_congr {e e' : ReplayEngine}
    (h : ∀ addr, e.contents addr = e'.contents addr) (launch : RecordedKernelLaunch)
    (time time' : UInt64) :
    (e.validateKernelOutput launch time).mismatches =
      (e'.validateKernelOutput launch time').mismatches ∧
    (e.validateKernelOutput launch time).passed =
      (e'.validateKernelOutput launch time').passed := by
  have hmismatch : e.mismatch = e'.mismatch := by
    funext snapshot
    have haddr := h snapshot.deviceAddr
    unfold contents at haddr
    unfold mismatch
    cases hm : e.memory snapshot.deviceAddr with
    | none =>
      rw [hm] at haddr
      rw [Option.map_eq_none_iff.mp haddr.symm]
    | some m =>
      rw [hm] at haddr
      obtain ⟨m', hm', hdata⟩ := Option.map_eq_some_iff.mp haddr.symm
      simp only [hm', hdata]
  simp only [validateKernelOutput, hmismatch, and_self]

end ReplayEngine

/-! ## Placements -/

/-- A buffer: the recorded address, its size, and where it is. -/
structure Placement where
  deviceAddr : UInt64
  size : UInt64
  newAddr : UInt64
  deriving DecidableEq, Repr

/-- The buffers of the allocations, one after the other. -/
def placements (virtualAddr : UInt64) : List TrackedAllocation → List Placement
  | [] => []
  | a :: rest => ⟨a.deviceAddr, a.size, virtualAddr⟩ ::
      placements (virtualAddr + pageAligned a.size) rest

theorem placements_append (virtualAddr : UInt64) (l m : List TrackedAllocation) :
    placements virtualAddr (l ++ m) = placements virtualAddr l ++
      placements (l.foldl (fun addr a => addr + pageAligned a.size) virtualAddr) m := by
  induction l generalizing virtualAddr with
  | nil => rfl
  | cons a l ih => exact congrArg (_ :: ·) (ih _)

/-- The placements are of the recorded ranges, in their order. -/
theorem map_range_placements (virtualAddr : UInt64) (l : List TrackedAllocation) :
    (placements virtualAddr l).map (fun p => (p.deviceAddr, p.size)) =
      l.map fun a => (a.deviceAddr, a.size) := by
  induction l generalizing virtualAddr with
  | nil => rfl
  | cons a l ih => exact congrArg (_ :: ·) (ih _)

theorem map_deviceAddr_placements (virtualAddr : UInt64) (l : List TrackedAllocation) :
    (placements virtualAddr l).map Placement.deviceAddr = l.map (·.deviceAddr) := by
  have hfst := congrArg (List.map Prod.fst) (map_range_placements virtualAddr l)
  rw [map_map, map_map] at hfst
  exact hfst

/-- Another first address moves all buffers alike. -/
theorem placements_add (virtualAddr delta : UInt64) (l : List TrackedAllocation) :
    placements (virtualAddr + delta) l =
      (placements virtualAddr l).map fun p => { p with newAddr := p.newAddr + delta } := by
  induction l generalizing virtualAddr with
  | nil => rfl
  | cons a l ih =>
    have hnext : virtualAddr + delta + pageAligned a.size =
        virtualAddr + pageAligned a.size + delta := by
      rw [UInt64.add_assoc, UInt64.add_assoc, UInt64.add_comm delta]
    simp only [placements, hnext, ih, map_cons]

/-- A buffer of zeros. -/
def zeroData (size : Nat) : ByteVec := (zeros size).getD ⟨[], Nat.zero_le _⟩

theorem zeros_of_le {size : Nat} (h : size ≤ isizeMax) : zeros size = some (zeroData size) := by
  simp [zeroData, zeros, h]

/-- The buffer of a placement before anything is written. -/
def Placement.zeroed (p : Placement) : ReconstructedMemory := ⟨p.newAddr, zeroData p.size.toNat, 0⟩

/-- The address of the buffer that a recorded address is mapped to: the last one
that was allocated for it. -/
def replayAddr (ps : List Placement) (addr : UInt64) : Option UInt64 :=
  (lastWith Placement.deviceAddr addr ps).map Placement.newAddr

theorem isSome_replayAddr_iff {ps : List Placement} {addr : UInt64} :
    (replayAddr ps addr).isSome = true ↔ addr ∈ ps.map Placement.deviceAddr := by
  rw [replayAddr, Option.isSome_map, lastWith_isSome_iff, mem_map]

/-- Every recorded size is that of a buffer. -/
def Allocatable (allocations : List TrackedAllocation) : Prop :=
  ∀ a ∈ allocations, a.size.toNat ≤ isizeMax

namespace Player

variable {allocations : List TrackedAllocation}

/-- `allocate_memory` inserts the placements. -/
theorem foldlM_allocate {s t : Player × UInt64} (h : allocations.foldlM allocate s = some t) :
    Allocatable allocations ∧ t.1 = { s.1 with
      addressMap := (placements s.2 allocations).foldl
        (fun f p => update f p.deviceAddr (some p.newAddr)) s.1.addressMap
      memoryState := (placements s.2 allocations).foldl
        (fun f p => update f p.newAddr (some p.zeroed)) s.1.memoryState } := by
  induction allocations generalizing s with
  | nil =>
    obtain rfl := Option.some.inj h
    exact ⟨fun _ ha => absurd ha not_mem_nil, rfl⟩
  | cons a allocations ih =>
    rw [foldlM_cons] at h
    obtain ⟨u, hu, hrest⟩ := Option.bind_eq_some_iff.mp h
    obtain ⟨data, hdata, hu⟩ := Option.bind_eq_some_iff.mp hu
    obtain ⟨hsize, hzero⟩ := Option.dite_none_right_eq_some.mp hdata
    rw [zeros_of_le hsize] at hdata
    obtain rfl := Option.some.inj hdata
    obtain rfl := Option.some.inj hu
    obtain ⟨hall, ht⟩ := ih hrest
    exact ⟨forall_mem_cons.mpr ⟨hsize, hall⟩, ht⟩

theorem exists_foldlM_allocate (h : Allocatable allocations) (s : Player × UInt64) :
    ∃ t, allocations.foldlM allocate s = some t := by
  induction allocations generalizing s with
  | nil => exact ⟨s, rfl⟩
  | cons a allocations ih =>
    obtain ⟨ha, hrest⟩ := forall_mem_cons.mp h
    obtain ⟨u, hu⟩ : ∃ u, allocate s a = some u := by
      rw [allocate, zeros_of_le ha]
      exact ⟨_, rfl⟩
    rw [foldlM_cons, hu]
    exact ih hrest u

theorem addressMap_allocateMemory {e : Player} {virtualAddr : UInt64} {t : Player × UInt64}
    (h : e.allocateMemory virtualAddr = some t) (addr : UInt64) :
    t.1.addressMap addr =
      (replayAddr (placements virtualAddr e.trace.allocations) addr).or (e.addressMap addr) := by
  obtain ⟨_, ht⟩ := foldlM_allocate h
  rw [ht]
  exact foldl_insert _ _ _ _ _

theorem memoryState_allocateMemory {e : Player} {virtualAddr : UInt64} {t : Player × UInt64}
    (h : e.allocateMemory virtualAddr = some t) (newAddr : UInt64) :
    t.1.memoryState newAddr =
      ((lastWith Placement.newAddr newAddr (placements virtualAddr e.trace.allocations)).map
        Placement.zeroed).or (e.memoryState newAddr) := by
  obtain ⟨_, ht⟩ := foldlM_allocate h
  rw [ht]
  exact foldl_insert _ _ _ _ _

end Player

end Concordia.Replay
