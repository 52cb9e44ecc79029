import Concordia.Lib.Keyed
import Concordia.Sass.Types

/-!
# Register allocation

`regalloc::allocate` computes one live range per register, from its first occurrence
to its last, and hands out physical registers by a linear scan over the ranges. A
register below 128 is pre-coloured: it keeps its number. The scan does not enter it
among the active ranges.

A `HashMap` is a list of entries with distinct keys; `iter` is the order in which it
is walked.
-/

namespace Concordia.Sass

open Concordia.Lib List Nat

/-! ## Live ranges -/

/-- An entry of `compute_live_ranges`: a register with the first and the last index
at which it occurs. -/
structure LiveRange where
  vreg : UInt8
  start : Nat
  stop : Nat
  deriving DecidableEq, Repr

open LiveRange

/-- `entry(n).or_insert((idx, idx))`, then `f` on the entry. -/
def touch (f : LiveRange → LiveRange) (idx : Nat) (ranges : List LiveRange) (n : UInt8) :
    List LiveRange :=
  if (lookup vreg n ranges).isSome then updateFirst vreg n f ranges
  else ranges ++ [f ⟨n, idx, idx⟩]

/-- A destination: the range ends here. -/
def noteWrite (idx : Nat) : List LiveRange → UInt8 → List LiveRange :=
  touch (fun r => { r with stop := idx }) idx

/-- A source: the range reaches here. -/
def noteRead (idx : Nat) : List LiveRange → UInt8 → List LiveRange :=
  touch (fun r => { r with
    start := if idx < r.start then idx else r.start
    stop := if idx > r.stop then idx else r.stop }) idx

/-- One instruction: its destination, then its sources. -/
def visitRanges (ranges : List LiveRange) (entry : SassInst × Nat) : List LiveRange :=
  let ranges :=
    match entry.1.dst with
    | some (.R n) => noteWrite entry.2 ranges n
    | _ => ranges
  (sourceRegisters entry.1).foldl (noteRead entry.2) ranges

/-- `compute_live_ranges`. -/
def computeLiveRanges (insts : List SassInst) : List LiveRange :=
  insts.zipIdx.foldl visitRanges []

/-! ## Linear scan -/

/-- An active range: the register, what it was given and where it ends. -/
structure Active where
  vreg : UInt8
  phys : UInt8
  stop : Nat
  deriving DecidableEq, Repr

/-- The registers `0..=254`, in order. -/
def physical : List UInt8 := (List.range 255).map UInt8.ofNat

/-- The loop of `linear_scan`. -/
def linearScanLoop : List LiveRange → List (UInt8 × UInt8) → List Active →
    Except NvSassError (List (UInt8 × UInt8))
  | [], mapping, _ => .ok mapping
  | r :: ranges, mapping, active =>
    if r.vreg < 128 then
      linearScanLoop ranges (upsert Prod.fst (r.vreg, r.vreg) mapping) active
    else
      let active := active.filter fun a => r.start ≤ a.stop
      match physical.find? fun p => !(active.map Active.phys).contains p with
      | none => .error (.regAllocError "out of registers")
      | some phys =>
        linearScanLoop ranges (upsert Prod.fst (r.vreg, phys) mapping)
          (active ++ [⟨r.vreg, phys, r.stop⟩])

/-- `linear_scan`: the ranges by start, ties in the order of the walk. -/
def linearScan (iter : List LiveRange → List LiveRange) (liveRanges : List LiveRange) :
    Except NvSassError (List (UInt8 × UInt8)) :=
  linearScanLoop ((iter liveRanges).mergeSort fun a b => a.start ≤ b.start) [] []

/-! ## Rewriting -/

def Reg.rename (f : UInt8 → UInt8) : Reg → Reg
  | .R n => .R (f n)
  | r => r

def Operand.rename (f : UInt8 → UInt8) : Operand → Operand
  | .reg r => .reg (r.rename f)
  | .memory base offset => .memory (base.rename f) offset
  | op => op

/-- Every general register of an instruction through `f`. -/
def SassInst.rename (f : UInt8 → UInt8) (inst : SassInst) : SassInst :=
  { inst with dst := inst.dst.map (Reg.rename f), srcs := inst.srcs.map (Operand.rename f) }

open SassInst

/-- What `remap_reg` does to a register number. -/
def remap (mapping : List (UInt8 × UInt8)) (n : UInt8) : UInt8 :=
  match lookup Prod.fst n mapping with
  | some entry => entry.2
  | none => n

/-- `allocate`: the rewritten instructions and the number of registers. -/
def allocate (iter : List LiveRange → List LiveRange) (insts : List SassInst) :
    Except NvSassError (List SassInst × Nat) := do
  let mapping ← linearScan iter (computeLiveRanges insts)
  let numRegs := ((mapping.map fun entry => entry.2.toNat).max?.getD 0) + 1
  return (insts.map (rename (remap mapping)), max numRegs 8)

/-! ## What compute_live_ranges computes -/

/-- The instruction names `R n`, as its destination or in a source. -/
def SassInst.touches (n : UInt8) (inst : SassInst) : Bool :=
  inst.dst == some (.R n) || (sourceRegisters inst).contains n

/-- `R n` occurs at index `i`. -/
def OccursAt (insts : List SassInst) (n : UInt8) (i : Nat) : Prop :=
  ∃ inst, insts[i]? = some inst ∧ inst.touches n

def Occurs (insts : List SassInst) (n : UInt8) : Prop := ∃ inst ∈ insts, inst.touches n

def firstUse (insts : List SassInst) (n : UInt8) : Nat := insts.findIdx (touches n)

def lastUse (insts : List SassInst) (n : UInt8) : Nat :=
  insts.length - 1 - insts.reverse.findIdx (touches n)

variable {n : UInt8}

theorem SassInst.touches_iff {inst : SassInst} :
    inst.touches n ↔ inst.dst = some (.R n) ∨ n ∈ sourceRegisters inst := by
  simp [touches]

variable {insts : List SassInst}

theorem occurs_iff : Occurs insts n ↔ ∃ i, OccursAt insts n i := by
  constructor
  · rintro ⟨inst, hmem, ht⟩
    obtain ⟨i, hi⟩ := mem_iff_getElem?.mp hmem
    exact ⟨i, inst, hi, ht⟩
  · rintro ⟨i, inst, hi, ht⟩
    exact ⟨inst, mem_of_getElem? hi, ht⟩

theorem occursAt_firstUse (h : Occurs insts n) : OccursAt insts n (firstUse insts n) := by
  have hlt : firstUse insts n < insts.length := findIdx_lt_length.mpr h
  exact ⟨insts[firstUse insts n], getElem?_eq_getElem hlt, findIdx_getElem⟩

theorem firstUse_le {i : Nat} (h : OccursAt insts n i) : firstUse insts n ≤ i := by
  obtain ⟨inst, hi, ht⟩ := h
  obtain ⟨hlt, rfl⟩ := List.getElem?_eq_some_iff.mp hi
  by_contra hgt
  have hno := List.not_of_lt_findIdx (by simpa [firstUse] using hgt : i < insts.findIdx _)
  rw [ht] at hno
  cases hno

theorem occursAt_lastUse (h : Occurs insts n) : OccursAt insts n (lastUse insts n) := by
  have hlt : insts.reverse.findIdx (touches n) < insts.reverse.length :=
    findIdx_lt_length.mpr (by simpa [Occurs] using h)
  have ht := findIdx_getElem (w := hlt)
  rw [length_reverse] at hlt
  rw [getElem_reverse] at ht
  exact ⟨_, getElem?_eq_getElem (by unfold lastUse; omega), ht⟩

theorem le_lastUse {i : Nat} (h : OccursAt insts n i) : i ≤ lastUse insts n := by
  obtain ⟨inst, hi, ht⟩ := h
  obtain ⟨hlt, rfl⟩ := List.getElem?_eq_some_iff.mp hi
  by_contra hgt
  have hj : insts.length - 1 - i < insts.reverse.findIdx (touches n) := by
    unfold lastUse at hgt
    omega
  have hno := List.not_of_lt_findIdx hj
  rw [getElem_reverse] at hno
  simp only [show insts.length - 1 - (insts.length - 1 - i) = i by omega, ht] at hno
  cases hno

/-- A range reaches from the first to the last of the occurrences `occ`. -/
structure Spans (occ : UInt8 → Nat → Prop) (r : LiveRange) : Prop where
  start : occ r.vreg r.start
  stop : occ r.vreg r.stop
  bounds : ∀ i, occ r.vreg i → r.start ≤ i ∧ i ≤ r.stop

/-- The entries are the ranges of the occurrences `occ`, one for each register. -/
structure Covers (occ : UInt8 → Nat → Prop) (ranges : List LiveRange) : Prop where
  nodup : (ranges.map vreg).Nodup
  spans : ∀ r ∈ ranges, Spans occ r
  complete : ∀ n i, occ n i → n ∈ ranges.map vreg

variable {occ : UInt8 → Nat → Prop} {ranges : List LiveRange} {idx : Nat}

/-- **One occurrence.** Both ways of noting it stretch the register's range to the
index, which no earlier occurrence is beyond. -/
theorem Covers.touch (h : Covers occ ranges) {f : LiveRange → LiveRange} (n : UInt8)
    (hle : ∀ m i, occ m i → i ≤ idx)
    (hf : ∀ r : LiveRange, r.start ≤ idx → r.stop ≤ idx → f r = { r with stop := idx }) :
    Covers (fun m i => occ m i ∨ (m = n ∧ i = idx)) (touch f idx ranges n) := by
  have hold : ∀ r ∈ ranges, r.vreg ≠ n → Spans (fun m i => occ m i ∨ (m = n ∧ i = idx)) r := by
    intro r hr hne
    refine ⟨.inl (h.spans r hr).start, .inl (h.spans r hr).stop, ?_⟩
    rintro i (hi | ⟨he, -⟩)
    · exact (h.spans r hr).bounds i hi
    · exact absurd he hne
  unfold Sass.touch
  split
  · rename_i hsome
    obtain ⟨r₀, hr₀⟩ := Option.isSome_iff_exists.mp hsome
    have hkey : r₀.vreg = n := key_of_lookup hr₀
    have hspan := h.spans r₀ (mem_of_lookup hr₀)
    have hf₀ : f r₀ = { r₀ with stop := idx } :=
      hf r₀ (hle _ _ hspan.start) (hle _ _ hspan.stop)
    have hkeys : (updateFirst vreg n f ranges).map vreg =
        ranges.map vreg := by
      refine map_updateFirst_of_lookup fun x hx => ?_
      rw [hr₀] at hx
      cases hx
      rw [hf₀]
    refine ⟨hkeys ▸ h.nodup, fun r hr => ?_, fun m i hmi => ?_⟩
    · rcases mem_updateFirst h.nodup hr with ⟨hmem, hne⟩ | ⟨y, hy, rfl⟩
      · exact hold r hmem hne
      · rw [hr₀] at hy
        cases hy
        rw [hf₀]
        refine ⟨.inl hspan.start, .inr ⟨hkey, rfl⟩, ?_⟩
        rintro i (hi | ⟨-, rfl⟩)
        · exact ⟨(hspan.bounds i hi).1, hle _ _ hi⟩
        · exact ⟨hle _ _ hspan.start, le_refl _⟩
    · rw [hkeys]
      rcases hmi with hmi | ⟨rfl, -⟩
      · exact h.complete m i hmi
      · exact hkey ▸ mem_map_of_mem (mem_of_lookup hr₀)
  · rename_i hnone
    have hnew : n ∉ ranges.map vreg :=
      not_mem_map_of_lookup (Option.not_isSome_iff_eq_none.mp hnone)
    rw [hf ⟨n, idx, idx⟩ (le_refl _) (le_refl _)]
    refine ⟨?_, fun r hr => ?_, fun m i hmi => ?_⟩
    · rw [map_append, nodup_append]
      refine ⟨h.nodup, by simp, ?_⟩
      intro a ha b hb he
      have hbn : b = n := by simpa using hb
      exact hnew (hbn ▸ he ▸ ha)
    · rcases mem_append.mp hr with hmem | hmem
      · exact hold r hmem fun he => hnew (he ▸ mem_map_of_mem hmem)
      · rw [mem_singleton] at hmem
        subst hmem
        refine ⟨.inr ⟨rfl, rfl⟩, .inr ⟨rfl, rfl⟩, ?_⟩
        rintro i (hi | ⟨-, rfl⟩)
        · exact absurd (h.complete n i hi) hnew
        · exact ⟨le_refl _, le_refl _⟩
    · rw [map_append]
      rcases hmi with hmi | ⟨rfl, -⟩
      · exact mem_append_left _ (h.complete m i hmi)
      · exact mem_append_right _ (by simp)

theorem Covers.congr {occ' : UInt8 → Nat → Prop} (h : Covers occ ranges)
    (he : ∀ n i, occ n i ↔ occ' n i) : Covers occ' ranges := by
  have : occ = occ' := by
    funext n i
    exact propext (he n i)
  exact this ▸ h

theorem Covers.noteRead (h : Covers occ ranges) (n : UInt8) (hle : ∀ m i, occ m i → i ≤ idx) :
    Covers (fun m i => occ m i ∨ (m = n ∧ i = idx)) (noteRead idx ranges n) := by
  refine h.touch n hle fun r hs he => ?_
  rcases lt_or_eq_of_le he with hlt | rfl
  · simp only [if_neg (not_lt.mpr hs), if_pos hlt]
  · simp only [if_neg (not_lt.mpr hs), gt_iff_lt, lt_irrefl, if_false]

/-- The sources of an instruction. -/
theorem Covers.foldl_noteRead (ns : List UInt8) (h : Covers occ ranges)
    (hle : ∀ m i, occ m i → i ≤ idx) :
    Covers (fun m i => occ m i ∨ (m ∈ ns ∧ i = idx)) (ns.foldl (Sass.noteRead idx) ranges) := by
  induction ns generalizing ranges occ with
  | nil => exact h.congr (by simp)
  | cons n ns ih =>
    rw [foldl_cons]
    refine (ih (h.noteRead n hle) ?_).congr ?_
    · rintro m i (hi | ⟨-, rfl⟩)
      · exact hle m i hi
      · exact le_refl _
    · intro m i
      simp only [mem_cons]
      tauto

/-- One instruction. -/
theorem Covers.visit (h : Covers occ ranges) (inst : SassInst) (hle : ∀ m i, occ m i → i < idx) :
    Covers (fun m i => occ m i ∨ (inst.touches m ∧ i = idx)) (visitRanges ranges (inst, idx)) := by
  have hle' : ∀ m i, occ m i → i ≤ idx := fun m i hi => (hle m i hi).le
  unfold visitRanges
  dsimp only
  split
  · rename_i n hd
    have hw : Covers (fun m i => occ m i ∨ (m = n ∧ i = idx)) (noteWrite idx ranges n) :=
      h.touch n hle' fun r _ _ => rfl
    refine (hw.foldl_noteRead (sourceRegisters inst) ?_).congr ?_
    · rintro m i (hi | ⟨-, rfl⟩)
      · exact hle' m i hi
      · exact le_refl _
    · intro m i
      rw [touches_iff, hd]
      simp only [Option.some.injEq, Reg.R.injEq, eq_comm (a := n)]
      tauto
  · rename_i hd
    refine (h.foldl_noteRead (sourceRegisters inst) hle').congr fun m i => ?_
    have hm : inst.dst ≠ some (.R m) := fun he => hd m he
    rw [touches_iff]
    tauto

/-- **The loop.** The entries after a stretch of the code are the ranges of the
occurrences so far. -/
theorem covers_foldl (insts : List SassInst) {k : Nat} (h : Covers occ ranges)
    (hle : ∀ m i, occ m i → i < k) :
    Covers (fun m i => occ m i ∨ (k ≤ i ∧ OccursAt insts m (i - k)))
      ((insts.zipIdx k).foldl visitRanges ranges) := by
  induction insts generalizing ranges occ k with
  | nil => exact h.congr (by simp [OccursAt])
  | cons inst insts ih =>
    rw [zipIdx_cons, foldl_cons]
    refine (ih (h.visit inst hle) ?_).congr fun m i => ?_
    · rintro m i (hi | ⟨-, rfl⟩)
      · exact lt_succ_of_lt (hle m i hi)
      · exact lt_succ_self _
    · have hat : (k ≤ i ∧ OccursAt (inst :: insts) m (i - k)) ↔
          (inst.touches m ∧ i = k) ∨ (k + 1 ≤ i ∧ OccursAt insts m (i - (k + 1))) := by
        unfold OccursAt
        rcases lt_trichotomy i k with hlt | rfl | hlt
        · constructor
          · rintro ⟨hki, -⟩
            omega
          · rintro (⟨-, rfl⟩ | ⟨hki, -⟩) <;> omega
        · simp
        · have hsub : i - k = (i - (k + 1)) + 1 := by omega
          rw [hsub, getElem?_cons_succ]
          constructor
          · rintro ⟨-, hocc⟩
            exact .inr ⟨hlt, hocc⟩
          · rintro (⟨-, rfl⟩ | ⟨-, hocc⟩)
            · exact absurd hlt (lt_irrefl _)
            · exact ⟨hlt.le, hocc⟩
      rw [hat]
      tauto

theorem covers_computeLiveRanges (insts : List SassInst) :
    Covers (OccursAt insts) (computeLiveRanges insts) := by
  have hempty : Covers (fun _ _ => False) [] := ⟨by simp, by simp, by simp⟩
  exact (covers_foldl insts hempty (k := 0) (by simp)).congr (by simp)

/-- **Live ranges.** There is one entry for each register that occurs: it and its
first and last use. -/
theorem mem_computeLiveRanges {r : LiveRange} :
    r ∈ computeLiveRanges insts ↔
      Occurs insts r.vreg ∧ r = ⟨r.vreg, firstUse insts r.vreg, lastUse insts r.vreg⟩ := by
  have hcov := covers_computeLiveRanges insts
  have hspan : ∀ r ∈ computeLiveRanges insts,
      r = ⟨r.vreg, firstUse insts r.vreg, lastUse insts r.vreg⟩ := by
    intro r hr
    have hs := hcov.spans r hr
    have hocc : Occurs insts r.vreg := occurs_iff.mpr ⟨_, hs.start⟩
    have h1 : r.start = firstUse insts r.vreg :=
      le_antisymm (hs.bounds _ (occursAt_firstUse hocc)).1 (firstUse_le hs.start)
    have h2 : r.stop = lastUse insts r.vreg :=
      le_antisymm (le_lastUse hs.stop) (hs.bounds _ (occursAt_lastUse hocc)).2
    cases r
    simp_all
  constructor
  · intro hr
    exact ⟨occurs_iff.mpr ⟨_, (hcov.spans r hr).start⟩, hspan r hr⟩
  · rintro ⟨hocc, hr⟩
    obtain ⟨r', hr', hv⟩ := mem_map.mp (hcov.complete r.vreg _ (occursAt_firstUse hocc))
    have := hspan r' hr'
    rw [hv, ← hr] at this
    exact this ▸ hr'

theorem nodup_computeLiveRanges (insts : List SassInst) :
    ((computeLiveRanges insts).map vreg).Nodup :=
  (covers_computeLiveRanges insts).nodup

end Concordia.Sass
