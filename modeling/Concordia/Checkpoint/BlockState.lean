import Concordia.Lib.Chunks
import Concordia.Lib.Overwrite

/-!
# The initial state of a thread block

`create_initial_block_state` lays the threads of a block out in warps of 32, in the
linear order of their ids, the first coordinate fastest. Order and masks are right
for every shape (`threadIds_createInitialBlockState`, `mask_of_mem_warps`). The lane
number is computed from the first coordinate alone, so it is the index in the warp
exactly when the rows of the block fill whole warps or there is one row
(`initialBlockState_covers_iff`).
-/

namespace Concordia.Checkpoint

open Concordia.Lib List Nat

/-- Three components `x`, `y`, `z`. -/
abbrev Dim3 := UInt32 × UInt32 × UInt32

/-- Floating-point registers are kept by their bits. -/
structure ThreadRegisterState where
  threadId : Dim3
  regs32 : UInt8 → Option UInt32
  regs64 : UInt8 → Option UInt64
  predRegs : UInt8 → Option Bool
  floatRegs : UInt8 → Option UInt32
  doubleRegs : UInt8 → Option UInt64
  specialRegs : String → Option UInt64
  currentPc : UInt64
  isActive : Bool

structure WarpState where
  warpId : UInt32
  threadStates : List ThreadRegisterState
  warpPc : UInt64
  activeMask : UInt32
  convergenceStack : List (UInt64 × UInt32)
  barrierMask : UInt32

inductive BlockSyncState where
  | running
  | atBarrier (barrier : UInt32)
  | completed
  deriving DecidableEq, Repr

structure BlockState where
  blockId : Dim3
  warpStates : List WarpState
  sharedMemory : ByteVec
  sharedMemorySize : UInt64
  barrierCount : UInt32
  syncState : BlockSyncState

/-- The registers of `create_initial_thread_state`, in the order of the inserts. -/
def initialSpecialRegs (threadId blockDim blockId gridDim : Dim3) : List (String × UInt64) :=
  [("tid.x", threadId.1.toUInt64), ("tid.y", threadId.2.1.toUInt64),
    ("tid.z", threadId.2.2.toUInt64),
    ("ntid.x", blockDim.1.toUInt64), ("ntid.y", blockDim.2.1.toUInt64),
    ("ntid.z", blockDim.2.2.toUInt64),
    ("ctaid.x", blockId.1.toUInt64), ("ctaid.y", blockId.2.1.toUInt64),
    ("ctaid.z", blockId.2.2.toUInt64),
    ("nctaid.x", gridDim.1.toUInt64), ("nctaid.y", gridDim.2.1.toUInt64),
    ("nctaid.z", gridDim.2.2.toUInt64),
    ("WARP_SZ", 32), ("laneid", (threadId.1 % 32).toUInt64)]

/-- `create_initial_thread_state`. -/
def createInitialThreadState (threadId blockDim blockId gridDim : Dim3) : ThreadRegisterState where
  threadId := threadId
  regs32 _ := none
  regs64 _ := none
  predRegs _ := none
  floatRegs _ := none
  doubleRegs _ := none
  specialRegs := (initialSpecialRegs threadId blockDim blockId gridDim).foldl
    (fun regs entry => Function.update regs entry.1 (some entry.2)) fun _ => none
  currentPc := 0
  isActive := true

def threadIdOf (blockDim : Dim3) (linearTid : UInt32) : Dim3 :=
  (linearTid % blockDim.1, linearTid / blockDim.1 % blockDim.2.1,
    linearTid / (blockDim.1 * blockDim.2.1))

def threadsPerBlock (blockDim : Dim3) : UInt32 := blockDim.1 * blockDim.2.1 * blockDim.2.2

/-- `create_initial_warp_state`. -/
def createInitialWarpState (warpId : UInt32) (blockDim blockId gridDim : Dim3) : WarpState where
  warpId := warpId
  threadStates := (range 32).filterMap fun lane =>
    let linearTid := warpId * 32 + UInt32.ofNat lane
    if linearTid < threadsPerBlock blockDim then
      some (createInitialThreadState (threadIdOf blockDim linearTid) blockDim blockId gridDim)
    else none
  warpPc := 0
  activeMask :=
    if threadsPerBlock blockDim ≥ warpId * 32 + 32 then 0xFFFFFFFF
    else if threadsPerBlock blockDim > warpId * 32 then
      (1 <<< (threadsPerBlock blockDim - warpId * 32)) - 1
    else 0
  convergenceStack := []
  barrierMask := 0

theorem length_replicate_zero_le {size : Nat} (h : size ≤ isizeMax) :
    (replicate size (0 : UInt8)).length ≤ isizeMax := by
  rwa [length_replicate]

/-- `vec![0u8; size]`; `none` if no buffer is that long. -/
def zeroedMemory (size : Nat) : Option ByteVec :=
  if h : size ≤ isizeMax then some ⟨replicate size 0, length_replicate_zero_le h⟩
  else none

/-- `create_initial_block_state`; `none` if the shared memory cannot be
allocated. -/
def createInitialBlockState (blockId blockDim gridDim : Dim3) (sharedMemSize : UInt64) :
    Option BlockState := do
  let warpsPerBlock := (threadsPerBlock blockDim + 31) / 32
  let warpStates := (range warpsPerBlock.toNat).map fun warpId =>
    createInitialWarpState (UInt32.ofNat warpId) blockDim blockId gridDim
  let sharedMemory ← zeroedMemory sharedMemSize.toNat
  some {
    blockId := blockId
    warpStates := warpStates
    sharedMemory := sharedMemory
    sharedMemorySize := sharedMemSize
    barrierCount := 0
    syncState := .running }

/-! ## What a block state should hold -/

/-- All ids of a block, the first coordinate fastest. -/
def blockThreads (blockDim : Dim3) : List (Nat × Nat × Nat) :=
  (range blockDim.2.2.toNat).flatMap fun z =>
    (range blockDim.2.1.toNat).flatMap fun y =>
      (range blockDim.1.toNat).map fun x => (x, y, z)

/-- The ids of the threads in warp order, then in lane order. -/
def BlockState.threadIds (state : BlockState) : List (Nat × Nat × Nat) :=
  state.warpStates.flatMap fun warp => warp.threadStates.map fun thread =>
    (thread.threadId.1.toNat, thread.threadId.2.1.toNat, thread.threadId.2.2.toNat)

/-- Every thread once and in order, masks for the threads there are, and lanes by
index. -/
structure BlockState.CoversThreads (state : BlockState) (blockDim : Dim3) : Prop where
  ordered : state.threadIds = blockThreads blockDim
  masks : ∀ warp ∈ state.warpStates, ∀ i,
    warp.activeMask.toNat.testBit i = true ↔ i < warp.threadStates.length
  lanes : ∀ warp ∈ state.warpStates, ∀ i thread, warp.threadStates[i]? = some thread →
    thread.specialRegs "laneid" = some (UInt64.ofNat i)

/-! ## Warps -/

/-- A block shape: positive components, and room for one more warp in 32 bits. -/
structure Shape (blockDim : Dim3) : Prop where
  x_pos : 0 < blockDim.1.toNat
  y_pos : 0 < blockDim.2.1.toNat
  z_pos : 0 < blockDim.2.2.toNat
  product_le : blockDim.1.toNat * blockDim.2.1.toNat * blockDim.2.2.toNat ≤ 2 ^ 32 - 32

/-- How many threads there are. -/
def threadCount (blockDim : Dim3) : Nat :=
  blockDim.1.toNat * blockDim.2.1.toNat * blockDim.2.2.toNat

/-- The id of a thread by its linear number, on unbounded numbers. -/
def coordinates (blockDim : Dim3) (l : Nat) : Nat × Nat × Nat :=
  (l % blockDim.1.toNat, l / blockDim.1.toNat % blockDim.2.1.toNat,
    l / (blockDim.1.toNat * blockDim.2.1.toNat))

/-- In linear order the ids are those of the block. -/
theorem map_coordinates {blockDim : Dim3} (h : Shape blockDim) :
    (range (threadCount blockDim)).map (coordinates blockDim) = blockThreads blockDim := by
  rw [threadCount, map_range_mul, blockThreads]
  refine flatMap_congr fun z _ => ?_
  rw [map_range_mul]
  refine flatMap_congr fun y hy => map_congr_left fun x hx => ?_
  have hx := mem_range.mp hx
  have hy := mem_range.mp hy
  have hform : blockDim.1.toNat * blockDim.2.1.toNat * z + (blockDim.1.toNat * y + x) =
      blockDim.1.toNat * (blockDim.2.1.toNat * z + y) + x := by ring
  have hdiv : (blockDim.1.toNat * (blockDim.2.1.toNat * z + y) + x) / blockDim.1.toNat =
      blockDim.2.1.toNat * z + y := by
    rw [mul_add_div h.x_pos, div_eq_of_lt hx, add_zero]
  simp only [coordinates, hform, ← Nat.div_div_eq_div_mul, hdiv, Prod.mk.injEq]
  refine ⟨?_, ?_, ?_⟩
  · rw [mul_add_mod, mod_eq_of_lt hx]
  · rw [mul_add_mod, mod_eq_of_lt hy]
  · rw [Nat.mul_add_div h.y_pos, Nat.div_eq_of_lt hy, Nat.add_zero]

namespace Shape

variable {blockDim blockId gridDim : Dim3}

theorem toNat_row (h : Shape blockDim) :
    (blockDim.1 * blockDim.2.1).toNat = blockDim.1.toNat * blockDim.2.1.toNat := by
  have hle : blockDim.1.toNat * blockDim.2.1.toNat ≤
      blockDim.1.toNat * blockDim.2.1.toNat * blockDim.2.2.toNat :=
    Nat.le_mul_of_pos_right _ h.z_pos
  have := h.product_le
  rw [UInt32.toNat_mul, mod_eq_of_lt (by omega)]

theorem toNat_threadsPerBlock (h : Shape blockDim) :
    (threadsPerBlock blockDim).toNat = threadCount blockDim := by
  have := h.product_le
  rw [threadsPerBlock, UInt32.toNat_mul, h.toNat_row, mod_eq_of_lt (by omega), threadCount]

theorem threadCount_le (h : Shape blockDim) : threadCount blockDim ≤ 2 ^ 32 - 32 := h.product_le

theorem toNat_warpsPerBlock (h : Shape blockDim) :
    ((threadsPerBlock blockDim + 31) / 32).toNat = (threadCount blockDim + 31) / 32 := by
  have := h.threadCount_le
  have hsum : (threadsPerBlock blockDim + 31).toNat = threadCount blockDim + 31 := by
    rw [UInt32.toNat_add, h.toNat_threadsPerBlock]
    exact mod_eq_of_lt (by simp only [UInt32.reduceToNat]; omega)
  rw [UInt32.toNat_div, hsum]
  rfl

variable {w : Nat}

variable (h : Shape blockDim) (hw : w < (threadCount blockDim + 31) / 32)

include h hw

/-- The first thread of a warp. -/
theorem toNat_warpStart : (UInt32.ofNat w * 32).toNat = 32 * w := by
  have := h.threadCount_le
  rw [UInt32.toNat_mul, UInt32.toNat_ofNat', mod_eq_of_lt (by omega : w < 2 ^ 32)]
  simp only [UInt32.reduceToNat]
  omega

theorem toNat_linearTid {lane : Nat} (hlane : lane < 32) :
    (UInt32.ofNat w * 32 + UInt32.ofNat lane).toNat = 32 * w + lane := by
  have := h.threadCount_le
  rw [UInt32.toNat_add, h.toNat_warpStart hw, UInt32.toNat_ofNat',
    mod_eq_of_lt (by omega : lane < 2 ^ 32), mod_eq_of_lt (by omega)]

/-- The threads of a warp are the next 32, or what is left. -/
theorem threadStates_eq :
    (createInitialWarpState (UInt32.ofNat w) blockDim blockId gridDim).threadStates =
      (range (min 32 (threadCount blockDim - 32 * w))).map fun lane =>
        createInitialThreadState (threadIdOf blockDim (UInt32.ofNat w * 32 + UInt32.ofNat lane))
          blockDim blockId gridDim := by
  rw [← filterMap_range_lt]
  refine filterMap_congr fun lane hlane => ?_
  have hlt : (UInt32.ofNat w * 32 + UInt32.ofNat lane < threadsPerBlock blockDim) ↔
      32 * w + lane < threadCount blockDim := by
    rw [UInt32.lt_iff_toNat_lt, h.toNat_linearTid hw (mem_range.mp hlane),
      h.toNat_threadsPerBlock]
  simp only [hlt]

theorem length_threadStates :
    (createInitialWarpState (UInt32.ofNat w) blockDim blockId gridDim).threadStates.length =
      min 32 (threadCount blockDim - 32 * w) := by
  rw [h.threadStates_eq hw, length_map, List.length_range]

/-- The mask has one bit for each thread of the warp. -/
theorem toNat_activeMask :
    (createInitialWarpState (UInt32.ofNat w) blockDim blockId gridDim).activeMask.toNat =
      2 ^ min 32 (threadCount blockDim - 32 * w) - 1 := by
  have hcount := h.threadCount_le
  have hstart := h.toNat_warpStart hw
  have hnext : (UInt32.ofNat w * 32 + 32).toNat = 32 * w + 32 := by
    rw [UInt32.toNat_add, hstart]
    exact mod_eq_of_lt (by simp only [UInt32.reduceToNat]; omega)
  have hfull : threadsPerBlock blockDim ≥ UInt32.ofNat w * 32 + 32 ↔
      32 * w + 32 ≤ threadCount blockDim := by
    rw [ge_iff_le, UInt32.le_iff_toNat_le, hnext, h.toNat_threadsPerBlock]
  have hsome : threadsPerBlock blockDim > UInt32.ofNat w * 32 ↔ 32 * w < threadCount blockDim := by
    rw [gt_iff_lt, UInt32.lt_iff_toNat_lt, hstart, h.toNat_threadsPerBlock]
  simp only [createInitialWarpState, hfull, hsome]
  by_cases hle : 32 * w + 32 ≤ threadCount blockDim
  · have hmin : min 32 (threadCount blockDim - 32 * w) = 32 := by omega
    rw [if_pos hle, hmin]
    rfl
  · have hlt : 32 * w < threadCount blockDim := by omega
    have hmin : min 32 (threadCount blockDim - 32 * w) = threadCount blockDim - 32 * w := by omega
    have hdiff : (threadsPerBlock blockDim - UInt32.ofNat w * 32).toNat =
        threadCount blockDim - 32 * w := by
      rw [UInt32.toNat_sub_of_le _ _ (UInt32.le_of_lt (hsome.mpr hlt)), h.toNat_threadsPerBlock,
        hstart]
    have hk : threadCount blockDim - 32 * w < 32 := by omega
    rw [if_neg hle, if_pos hlt, hmin]
    -- A shift by fewer than 32 places keeps its one bit.
    generalize threadCount blockDim - 32 * w = k at hdiff hk ⊢
    have hpow : 2 ^ k < 2 ^ 32 := Nat.pow_lt_pow_right (by omega) hk
    have hshift : ((1 : UInt32) <<< (threadsPerBlock blockDim - UInt32.ofNat w * 32)).toNat =
        2 ^ k := by
      rw [UInt32.toNat_shiftLeft, hdiff, mod_eq_of_lt hk, shiftLeft_eq]
      simp only [UInt32.reduceToNat, one_mul]
      exact mod_eq_of_lt hpow
    have hone : (1 : UInt32) ≤ 1 <<< (threadsPerBlock blockDim - UInt32.ofNat w * 32) := by
      rw [UInt32.le_iff_toNat_le, hshift]
      exact Nat.one_le_two_pow
    rw [UInt32.toNat_sub_of_le _ _ hone, hshift]
    rfl

end Shape

/-! ## Blocks -/

section

variable {blockDim blockId gridDim : Dim3} {sharedMemSize : UInt64} {state : BlockState}

section

variable (h : Shape blockDim)
  (hstate : createInitialBlockState blockId blockDim gridDim sharedMemSize = some state)

include h hstate

/-- A block has its warps, whatever its shared memory. -/
theorem warpStates_createInitialBlockState :
    state.warpStates = (range ((threadCount blockDim + 31) / 32)).map fun w =>
      createInitialWarpState (UInt32.ofNat w) blockDim blockId gridDim := by
  obtain ⟨_, _, hstate⟩ := Option.bind_eq_some_iff.mp hstate
  obtain rfl := Option.some.inj hstate
  rw [h.toNat_warpsPerBlock]

/-- **Order.** The threads of the warps are those of the block, each once. -/
theorem threadIds_createInitialBlockState : state.threadIds = blockThreads blockDim := by
  have hchunks : threadCount blockDim ≤ 32 * ((threadCount blockDim + 31) / 32) := by omega
  rw [BlockState.threadIds, warpStates_createInitialBlockState h hstate, flatMap_map,
    ← map_coordinates h, ← flatMap_chunks (coordinates blockDim) hchunks]
  refine flatMap_congr fun w hw => ?_
  have hw := mem_range.mp hw
  rw [h.threadStates_eq hw, map_map]
  refine map_congr_left fun lane hlane => ?_
  have hlane : lane < 32 := by
    have := mem_range.mp hlane
    omega
  simp only [Function.comp_apply, createInitialThreadState, threadIdOf, coordinates,
    UInt32.toNat_mod, UInt32.toNat_div, h.toNat_row, h.toNat_linearTid hw hlane]

/-- **Masks.** A warp's mask has its first bits set, one for each thread. -/
theorem mask_of_mem_warps {warp : WarpState} (hwarp : warp ∈ state.warpStates) (i : Nat) :
    warp.activeMask.toNat.testBit i = true ↔ i < warp.threadStates.length := by
  rw [warpStates_createInitialBlockState h hstate] at hwarp
  obtain ⟨w, hw, rfl⟩ := mem_map.mp hwarp
  have hw := mem_range.mp hw
  rw [h.toNat_activeMask hw, h.length_threadStates hw, testBit_two_pow_sub_one,
    decide_eq_true_iff]

end

/-- The lane of a thread is taken from its first coordinate. -/
theorem laneid_createInitialThreadState (threadId : Dim3) :
    (createInitialThreadState threadId blockDim blockId gridDim).specialRegs "laneid" =
      some (threadId.1 % 32).toUInt64 := by
  simp [createInitialThreadState, initialSpecialRegs]

/-- Lanes are indices exactly when each linear number has the remainder of its
first coordinate. -/
theorem lanes_iff (h : Shape blockDim)
    (hstate : createInitialBlockState blockId blockDim gridDim sharedMemSize = some state) :
    (∀ warp ∈ state.warpStates, ∀ i thread, warp.threadStates[i]? = some thread →
        thread.specialRegs "laneid" = some (UInt64.ofNat i)) ↔
      ∀ l < threadCount blockDim, l % blockDim.1.toNat % 32 = l % 32 := by
  have hlane : ∀ w i, w < (threadCount blockDim + 31) / 32 → i < 32 →
      ((createInitialThreadState (threadIdOf blockDim (UInt32.ofNat w * 32 + UInt32.ofNat i))
          blockDim blockId gridDim).specialRegs "laneid" = some (UInt64.ofNat i) ↔
        (32 * w + i) % blockDim.1.toNat % 32 = i) := by
    intro w i hw hi
    rw [laneid_createInitialThreadState, Option.some.injEq, ← UInt64.toNat_inj,
      UInt32.toNat_toUInt64, UInt64.toNat_ofNat', mod_eq_of_lt (by omega : i < 2 ^ 64)]
    simp only [threadIdOf, UInt32.toNat_mod, h.toNat_linearTid hw hi, UInt32.reduceToNat]
  rw [warpStates_createInitialBlockState h hstate]
  constructor
  · intro hlanes l hl
    have hw : l / 32 < (threadCount blockDim + 31) / 32 := by omega
    have hi : l % 32 < 32 := mod_lt _ (by omega)
    have hin : l % 32 < min 32 (threadCount blockDim - 32 * (l / 32)) := by omega
    have hthread := hlanes _ (mem_map_of_mem (mem_range.mpr hw)) (l % 32) _
      (by rw [h.threadStates_eq hw, getElem?_map, getElem?_range hin]; rfl)
    rw [hlane (l / 32) (l % 32) hw hi, div_add_mod] at hthread
    exact hthread
  · intro hlinear warp hwarp i thread hthread
    obtain ⟨w, hw, rfl⟩ := mem_map.mp hwarp
    have hw := mem_range.mp hw
    rw [h.threadStates_eq hw] at hthread
    rw [getElem?_map] at hthread
    obtain ⟨lane, hget, rfl⟩ := Option.map_eq_some_iff.mp hthread
    obtain ⟨hlt, hlane'⟩ := List.getElem?_eq_some_iff.mp hget
    rw [List.getElem_range] at hlane'
    rw [List.length_range] at hlt
    subst hlane'
    have hi : i < 32 := by omega
    have := hlinear (32 * w + i) (by omega)
    rw [hlane w i hw hi]
    omega

end

/-- The remainders agree exactly when rows fill whole warps, or there is one. -/
theorem forall_mod_eq_iff {x rows : Nat} (hx : 0 < x) (hrows : 0 < rows) :
    (∀ l < x * rows, l % x % 32 = l % 32) ↔ 32 ∣ x ∨ rows = 1 := by
  constructor
  · intro h
    by_cases hone : rows = 1
    · exact .inr hone
    · -- The first thread of the second row.
      have hlt : x < x * rows := by
        have : x * 2 ≤ x * rows := mul_le_mul_left x (by omega)
        omega
      have hrow := h x hlt
      rw [mod_self] at hrow
      exact .inl (dvd_of_mod_eq_zero hrow.symm)
  · rintro (hdvd | rfl) l hl
    · exact mod_mod_of_dvd l hdvd
    · rw [mod_eq_of_lt (by omega : l < x)]

/-- **Initial block state.** A block state covers its threads exactly when rows of
threads are whole warps or the block is one row. -/
theorem initialBlockState_covers_iff (blockId blockDim gridDim : Dim3) (sharedMemSize : UInt64)
    (hshape : Shape blockDim) (hmemory : sharedMemSize.toNat ≤ isizeMax) :
    ∃ state, createInitialBlockState blockId blockDim gridDim sharedMemSize = some state ∧
      (state.CoversThreads blockDim ↔ 32 ∣ blockDim.1.toNat ∨
        (blockDim.2.1 = 1 ∧ blockDim.2.2 = 1)) := by
  have hzero : ∃ memory, zeroedMemory sharedMemSize.toNat = some memory := ⟨_, dif_pos hmemory⟩
  obtain ⟨memory, hzero⟩ := hzero
  obtain ⟨state, hstate⟩ : ∃ state,
      createInitialBlockState blockId blockDim gridDim sharedMemSize = some state := by
    simp [createInitialBlockState, hzero]
  refine ⟨state, hstate, ?_⟩
  have hcovers : state.CoversThreads blockDim ↔
      ∀ l < threadCount blockDim, l % blockDim.1.toNat % 32 = l % 32 := by
    rw [← lanes_iff hshape hstate]
    refine ⟨fun h => h.lanes, fun h => ⟨?_, ?_, h⟩⟩
    · exact threadIds_createInitialBlockState hshape hstate
    · exact fun warp hwarp i => mask_of_mem_warps hshape hstate hwarp i
  have hrows : blockDim.2.1.toNat * blockDim.2.2.toNat = 1 ↔
      blockDim.2.1 = 1 ∧ blockDim.2.2 = 1 := by
    rw [mul_eq_one, ← UInt32.toNat_inj, ← UInt32.toNat_inj]
    rfl
  rw [hcovers, ← hrows, threadCount, mul_assoc]
  exact forall_mod_eq_iff hshape.x_pos (mul_pos hshape.y_pos hshape.z_pos)

/-- A row of 40 threads. -/
theorem initialBlockState_covers_row : ∃ state,
    createInitialBlockState (0, 0, 0) (40, 1, 1) (1, 1, 1) 16 = some state ∧
      state.CoversThreads (40, 1, 1) := by
  obtain ⟨state, hstate, hcovers⟩ := initialBlockState_covers_iff (0, 0, 0) (40, 1, 1) (1, 1, 1) 16
    ⟨by decide, by decide, by decide, by decide⟩ (by decide)
  exact ⟨state, hstate, hcovers.mpr (.inr ⟨rfl, rfl⟩)⟩

/-- Two rows of 16: the first thread of the second row, at index 16 of its warp,
has lane 0. -/
theorem not_covers_two_rows : ∃ state,
    createInitialBlockState (0, 0, 0) (16, 2, 1) (1, 1, 1) 0 = some state ∧
      ¬ state.CoversThreads (16, 2, 1) := by
  have hshape : Shape (16, 2, 1) := ⟨by decide, by decide, by decide, by decide⟩
  obtain ⟨state, hstate⟩ : ∃ state,
      createInitialBlockState (0, 0, 0) (16, 2, 1) (1, 1, 1) 0 = some state := ⟨_, rfl⟩
  refine ⟨state, hstate, fun h => ?_⟩
  have hlanes := (lanes_iff hshape hstate).mp h.lanes 16 (by decide)
  exact absurd hlanes (by decide)

end Concordia.Checkpoint
