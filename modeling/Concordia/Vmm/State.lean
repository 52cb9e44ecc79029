import Concordia.Lib.Extents
import Concordia.Lib.Keyed

/-!
# Virtual memory management

The reservations and mappings behind `cuMemAddressReserve`, `cuMemMap` and their
inverses. A reservation is a block of the host allocator; its mapped ranges are offsets
into it. A second table, `TMATMUL_ALLOC_MAP`, lists the same ranges by address.
-/

namespace Concordia.Vmm

open Concordia.Lib

inductive CUerror where
  | invalidValue
  | invalidHandle
  | outOfMemory
  deriving DecidableEq, Repr

/-- One more than `usize::MAX`. -/
def usizeSize : Nat := 2 ^ 64

/-- `TMATMUL_VMM_GRANULARITY`. -/
def granularity : Nat := 64 * 1024

/-- `TmatmulVmmReservation`, with the base it is stored under. -/
structure Reservation where
  base : Nat
  size : Nat
  align : Nat
  mappedRanges : List Extent
  deriving DecidableEq, Repr

def Reservation.block (r : Reservation) : Extent := ⟨r.base, r.size⟩

/-- The tables of the module, and the counter behind `create`. -/
structure State where
  handles : List (Nat × Nat)
  nextHandle : Nat
  reservations : List Reservation
  allocMap : List Extent
  deriving DecidableEq, Repr

/-- At program start; `foreign` are allocations of other calls. -/
def State.initial (foreign : List Extent) : State :=
  { handles := [], nextHandle := 0x544d4d0000000001, reservations := [], allocMap := foreign }

/-! ## Checked arithmetic -/

/-- `tmatmul_vmm_range_end`: `checked_add`. -/
def rangeEnd (start size : Nat) : Except CUerror Nat :=
  if start + size < usizeSize then .ok (start + size) else .error .invalidValue

/-- `tmatmul_vmm_contains`. -/
def contains (base len addr size : Nat) : Bool :=
  base + len < usizeSize ∧ addr + size < usizeSize ∧ base ≤ addr ∧ addr + size ≤ base + len

def saturatingAdd (a b : Nat) : Nat := min (a + b) (usizeSize - 1)

/-- `tmatmul_vmm_ranges_overlap`. -/
def rangesOverlap (aStart aSize bStart bSize : Nat) : Bool :=
  aStart < saturatingAdd bStart bSize ∧ bStart < saturatingAdd aStart aSize

/-- `tmatmul_vmm_align`. -/
def vmmAlign (alignment : Nat) : Except CUerror Nat :=
  let align := (max alignment granularity).nextPowerOfTwo
  if align < usizeSize then .ok align else .error .outOfMemory

/-- `Layout::from_size_align` accepts the size: rounded up, it is at most `isize::MAX`. -/
def layoutFits (size align : Nat) : Bool := size ≤ 2 ^ 63 - align

/-! ## Calls -/

/-- A call with its arguments; a pointer that is only written through is whether it is
null, and `block` is what the host allocator returns (0 for null). -/
inductive Call where
  | create (handleNull propNull : Bool) (size flags : Nat)
  | release (handle : Nat)
  | addressReserve (ptrNull : Bool) (size alignment addr flags block : Nat)
  | map (addr size offset handle flags : Nat)
  | unmap (addr size : Nat)
  | addressFree (addr size : Nat)
  deriving DecidableEq, Repr

abbrev Result := Except CUerror Unit × State

def create (s : State) (handleNull propNull : Bool) (size flags : Nat) : Result :=
  if handleNull ∨ propNull ∨ size = 0 ∨ flags ≠ 0 then (.error .invalidValue, s)
  else
    let id := s.nextHandle
    let s := { s with nextHandle := (id + 1) % usizeSize }
    if id = 0 then (.error .outOfMemory, s)
    else (.ok (), { s with handles := upsert Prod.fst (id, size) s.handles })

def release (s : State) (handle : Nat) : Result :=
  if handle = 0 then (.error .invalidValue, s)
  else (.ok (), { s with handles := others Prod.fst handle s.handles })

def addressReserve (s : State) (ptrNull : Bool) (size alignment addr flags block : Nat) : Result :=
  if ptrNull ∨ size = 0 ∨ flags ≠ 0 ∨ addr ≠ 0 then (.error .invalidValue, s)
  else
    match vmmAlign alignment with
    | .error e => (.error e, s)
    | .ok align =>
      if !layoutFits size align then (.error .outOfMemory, s)
      else if block = 0 then (.error .outOfMemory, s)
      else
        (.ok (), { s with
          reservations := upsert Reservation.base ⟨block, size, align, []⟩ s.reservations })

/-- The reservation a range lies in. -/
def State.find (s : State) (addr size : Nat) : Option Reservation :=
  s.reservations.find? fun r => contains r.base r.size addr size

/-- Replace the mapped ranges of the reservation at `base`. -/
def State.setRanges (s : State) (base : Nat) (ranges : List Extent) : State :=
  { s with
    reservations := updateFirst Reservation.base base
      (fun r => { r with mappedRanges := ranges }) s.reservations }

def map (s : State) (addr size offset handle flags : Nat) : Result :=
  if addr = 0 ∨ size = 0 ∨ offset ≠ 0 ∨ flags ≠ 0 ∨ handle = 0 then (.error .invalidValue, s)
  else
    match lookup Prod.fst handle s.handles with
    | none => (.error .invalidHandle, s)
    | some entry =>
      if size > entry.2 then (.error .invalidValue, s)
      else
        match s.find addr size with
        | none => (.error .invalidValue, s)
        | some r =>
          -- `contains` rules out an `addr` below the base
          let offset := addr - r.base
          match rangeEnd offset size with
          | .error e => (.error e, s)
          | .ok stop =>
            if stop > r.size ∨
                r.mappedRanges.any fun m => rangesOverlap offset size m.start m.size then
              (.error .invalidValue, s)
            else
              let s := s.setRanges r.base (r.mappedRanges ++ [⟨offset, size⟩])
              (.ok (), { s with allocMap := upsert Extent.start ⟨addr, size⟩ s.allocMap })

/-- The loop over the drained ranges: what is left of them, and whether any was hit. -/
def unmapLoop (offset size unmapEnd : Nat) :
    List Extent → List Extent → Bool → Except CUerror (List Extent × Bool)
  | [], updated, removedAny => .ok (updated, removedAny)
  | m :: rest, updated, removedAny => do
    let mappedEnd ← rangeEnd m.start m.size
    if !rangesOverlap offset size m.start m.size then
      unmapLoop offset size unmapEnd rest (updated ++ [m]) removedAny
    else
      let left := if m.start < offset then [⟨m.start, offset - m.start⟩] else []
      let right := if mappedEnd > unmapEnd then [⟨unmapEnd, mappedEnd - unmapEnd⟩] else []
      unmapLoop offset size unmapEnd rest (updated ++ (left ++ right)) true

/-- The ranges are drained before it is known whether anything is unmapped: an error
after that leaves the reservation with none. -/
def unmap (s : State) (addr size : Nat) : Result :=
  if addr = 0 ∨ size = 0 then (.error .invalidValue, s)
  else
    match s.find addr size with
    | none => (.error .invalidValue, s)
    | some r =>
      let offset := addr - r.base
      match rangeEnd offset size with
      | .error e => (.error e, s)
      | .ok unmapEnd =>
        match unmapLoop offset size unmapEnd r.mappedRanges [] false with
        | .error e => (.error e, s.setRanges r.base [])
        | .ok (updated, removedAny) =>
          if !removedAny then (.error .invalidValue, s.setRanges r.base [])
          else
            let s := s.setRanges r.base updated
            (.ok (), { s with
              allocMap := s.allocMap.filter fun e => !rangesOverlap addr size e.start e.size })

def addressFree (s : State) (addr size : Nat) : Result :=
  if addr = 0 ∨ size = 0 then (.error .invalidValue, s)
  else
    match lookup Reservation.base addr s.reservations with
    | none => (.error .invalidValue, s)
    | some r =>
      if size ≠ r.size then (.error .invalidValue, s)
      else
        (.ok (), { s with
          reservations := others Reservation.base addr s.reservations
          allocMap := s.allocMap.filter fun e => !rangesOverlap addr size e.start e.size })

def step (s : State) : Call → Result
  | .create handleNull propNull size flags => create s handleNull propNull size flags
  | .release handle => release s handle
  | .addressReserve ptrNull size alignment addr flags block =>
    addressReserve s ptrNull size alignment addr flags block
  | .map addr size offset handle flags => map s addr size offset handle flags
  | .unmap addr size => unmap s addr size
  | .addressFree addr size => addressFree s addr size

/-! ## The property -/

/-- The bytes mapped and not unmapped since, by what the calls returned. -/
def mappedAfter (mapped : Set Nat) : Call → Except CUerror Unit → Set Nat
  | .map addr size _ _ _, .ok _ => mapped ∪ {x | Extent.Has ⟨addr, size⟩ x}
  | .unmap addr size, .ok _ => mapped \ {x | Extent.Has ⟨addr, size⟩ x}
  | .addressFree addr size, .ok _ => mapped \ {x | Extent.Has ⟨addr, size⟩ x}
  | _, _ => mapped

/-- A reservation's ranges are disjoint, not empty, inside it, and cover the bytes that
are mapped there. -/
structure Reservation.Follows (mapped : Set Nat) (r : Reservation) : Prop where
  disjoint : r.mappedRanges.Pairwise Extent.Clear
  nonempty : ∀ m ∈ r.mappedRanges, 0 < m.size
  inside : ∀ m ∈ r.mappedRanges, m.start + m.size ≤ r.size
  covers : ∀ o < r.size, Covered r.mappedRanges o ↔ r.base + o ∈ mapped

/-- The entries the run created cover the addresses the reservations have mapped. -/
def AllocMapFollows (foreign : List Extent) (s : State) : Prop :=
  ∃ own, s.allocMap = foreign ++ own ∧ ∀ x, Covered own x ↔
    ∃ r ∈ s.reservations, ∃ o, Covered r.mappedRanges o ∧ x = r.base + o

/-- After every call the tables follow the calls, and an error changed neither. -/
def Follows (foreign : List Extent) (s : State) (mapped : Set Nat) : List Call → Prop
  | [] => True
  | c :: calls =>
    let (result, t) := step s c
    (∀ e, result = .error e → t.reservations = s.reservations ∧ t.allocMap = s.allocMap) ∧
      (∀ r ∈ t.reservations, r.Follows (mappedAfter mapped c result)) ∧
      AllocMapFollows foreign t ∧ Follows foreign t (mappedAfter mapped c result) calls

/-- The host allocator returns null or a block clear of the live ones. -/
def HostClear (foreign : List Extent) (s : State) : Call → Prop
  | .addressReserve _ size _ _ _ block => block = 0 ∨
      ((∀ r ∈ s.reservations, r.block.Clear ⟨block, size⟩) ∧ ∀ f ∈ foreign, f.Clear ⟨block, size⟩)
  | _ => True

/-- It does so throughout the run. -/
def HostClears (foreign : List Extent) (s : State) : List Call → Prop
  | [] => True
  | c :: calls => HostClear foreign s c ∧ HostClears foreign (step s c).2 calls

/-- An unmap inside a reservation with mapped ranges hits one of them, and unmaps every
one that it hits as a whole. -/
def WholeUnmap (s : State) : Call → Prop
  | .unmap addr size => addr ≠ 0 → size ≠ 0 → ∀ r, s.find addr size = some r →
      (r.mappedRanges = [] ∨
        ∃ m ∈ r.mappedRanges, rangesOverlap (addr - r.base) size m.start m.size) ∧
      ∀ m ∈ r.mappedRanges, rangesOverlap (addr - r.base) size m.start m.size →
        contains (addr - r.base) size m.start m.size
  | _ => True

/-- Every step of the run meets the condition in the state before it. -/
def WholeUnmaps (s : State) : List Call → Prop
  | [] => True
  | c :: calls => WholeUnmap s c ∧ WholeUnmaps (step s c).2 calls

end Concordia.Vmm
