import Concordia.Lib.Fallible
import Concordia.Sass.Isel
import Concordia.Sass.LinearScan

/-!
# Allocated code reads the same values

Instructions run on a machine whose arithmetic, memory and other registers are
unknown: an instruction reads its source operands and writes its destination. The
rewritten code reads what the given code reads exactly when the first-fit number of
no virtual register is a pre-coloured register that is live with it.
-/

namespace Concordia.Sass

open Concordia.Lib List SassInst

/-! ## Running straight-line code -/

/-- What an instruction does, apart from which general registers it names: the value
it writes and the rest of the state after it. -/
structure Machine (V S : Type) where
  operand : Operand → S → V
  effect : SassInst → List V → S → V × S

/-- The general registers, and everything else. -/
structure MState (V S : Type) where
  regs : UInt8 → V
  rest : S

/-- An instruction without its register numbers. -/
def SassInst.shape (inst : SassInst) : SassInst := inst.rename fun _ => 0

namespace Machine

variable {V S : Type} (M : Machine V S)

def value (st : MState V S) (op : Operand) : V :=
  match op.gpr? with
  | some n => st.regs n
  | none => M.operand op st.rest

/-- The values an instruction reads, operand by operand. -/
def values (st : MState V S) (inst : SassInst) : List V := inst.srcs.map (M.value st)

def exec (st : MState V S) (inst : SassInst) : MState V S :=
  let result := M.effect inst.shape (M.values st inst) st.rest
  match inst.dst with
  | some (.R n) => ⟨Function.update st.regs n result.1, result.2⟩
  | _ => ⟨st.regs, result.2⟩

def run (st : MState V S) (insts : List SassInst) : MState V S := insts.foldl M.exec st

/-- What each instruction of a run reads. -/
def reads (st : MState V S) : List SassInst → List (List V)
  | [] => []
  | inst :: insts => M.values st inst :: reads (M.exec st inst) insts

end Machine

/-! ## The property and the condition -/

/-- Two live ranges have an index in common. -/
def Overlap (insts : List SassInst) (n m : UInt8) : Prop :=
  firstUse insts n ≤ lastUse insts m ∧ firstUse insts m ≤ lastUse insts n

/-- `out` is `insts` with its registers renamed: pre-coloured registers keep their
number, overlapping ranges are kept apart, every source operand reads the same value
and `count` is above every register number. -/
def Preserves (insts out : List SassInst) (count : Nat) : Prop :=
  ∃ f : UInt8 → UInt8, out = insts.map (rename f) ∧ (∀ n < 128, f n = n) ∧
    (∀ n m, Occurs insts n → Occurs insts m → n ≠ m → Overlap insts n m → f n ≠ f m) ∧
    (∀ (V S : Type) (M : Machine V S) (st st' : MState V S), st'.rest = st.rest →
      (∀ n < 128, st'.regs n = st.regs n) → M.reads st' out = M.reads st insts) ∧
    ∀ n, Occurs out n → n.toNat < count

/-- The first use of `R p` reads it: it comes with a value. -/
def ReadFirst (insts : List SassInst) (p : UInt8) : Prop :=
  ∃ inst, insts[firstUse insts p]? = some inst ∧ p ∈ sourceRegisters inst

/-- The first-fit number of a virtual register is no pre-coloured register live with
it: that one is done before, or begins after, and then with a write. -/
def Clear (insts : List SassInst) : Prop :=
  ∃ num, FirstFit (Virtual insts) (firstUse insts) (lastUse insts) num ∧
    ∀ v p, Virtual insts v → p < 128 → Occurs insts p → num v = p.toNat →
      lastUse insts p < firstUse insts v ∨
        (lastUse insts v < firstUse insts p ∧ ¬ReadFirst insts p)

/-! ## Renaming -/

variable {inst : SassInst} {n : UInt8}

section Rename

variable {f g : UInt8 → UInt8}

theorem Operand.gpr?_rename (op : Operand) : (op.rename f).gpr? = op.gpr?.map f := by
  cases op with
  | reg r => cases r <;> rfl
  | memory base offset => cases base <;> rfl
  | _ => rfl

/-- An operand that reads no general register is left alone. -/
theorem Operand.rename_of_gpr?_eq_none {op : Operand} (h : op.gpr? = none) : op.rename f = op := by
  cases op with
  | reg r => cases r <;> first | rfl | cases h
  | memory base offset => cases base <;> first | rfl | cases h
  | _ => rfl

theorem Reg.rename_rename (r : Reg) : (r.rename f).rename g = r.rename (g ∘ f) := by
  cases r <;> rfl

theorem Operand.rename_rename (op : Operand) : (op.rename f).rename g = op.rename (g ∘ f) := by
  cases op <;> simp [Operand.rename, Reg.rename_rename]

theorem SassInst.shape_rename (inst : SassInst) : (inst.rename f).shape = inst.shape := by
  have hop : Operand.rename (fun _ => 0) ∘ Operand.rename f = Operand.rename fun _ => 0 := by
    funext op
    exact op.rename_rename
  have hreg : Reg.rename (fun _ => 0) ∘ Reg.rename f = Reg.rename fun _ => 0 := by
    funext r
    exact r.rename_rename
  simp [shape, rename, hop, hreg]

theorem SassInst.dst_rename (inst : SassInst) :
    (inst.rename f).dst = some (.R n) ↔ ∃ m, inst.dst = some (.R m) ∧ f m = n := by
  cases hd : inst.dst with
  | none => simp [rename, hd]
  | some r => cases r <;> simp [rename, hd, Reg.rename]

theorem sourceRegisters_rename (inst : SassInst) :
    sourceRegisters (inst.rename f) = (sourceRegisters inst).map f := by
  simp [sourceRegisters, rename, filterMap_map, map_filterMap,
    Operand.gpr?_rename]

theorem SassInst.touches_rename : (inst.rename f).touches n ↔ ∃ m, inst.touches m ∧ f m = n := by
  simp only [touches_iff, dst_rename, sourceRegisters_rename, mem_map]
  constructor
  · rintro (⟨m, hd, rfl⟩ | ⟨m, hs, rfl⟩)
    · exact ⟨m, .inl hd, rfl⟩
    · exact ⟨m, .inr hs, rfl⟩
  · rintro ⟨m, hd | hs, rfl⟩
    · exact .inl ⟨m, hd, rfl⟩
    · exact .inr ⟨m, hs, rfl⟩

/-- Renamed code says what each register it names became. -/
theorem SassInst.eq_of_rename_eq (h : inst.rename f = inst.rename g) (ht : inst.touches n) :
    f n = g n := by
  rcases touches_iff.mp ht with hd | hs
  · have hdst := congrArg dst h
    simpa [rename, hd, Reg.rename] using hdst
  · have hsrc := congrArg sourceRegisters h
    rw [sourceRegisters_rename, sourceRegisters_rename] at hsrc
    exact map_inj_left.mp hsrc n hs

end Rename

/-! ## Running renamed code -/

namespace Machine

variable {V S : Type} {M : Machine V S} {f : UInt8 → UInt8} {st st' : MState V S}

theorem value_rename (hrest : st'.rest = st.rest) {op : Operand}
    (hregs : ∀ n, op.gpr? = some n → st'.regs (f n) = st.regs n) :
    M.value st' (op.rename f) = M.value st op := by
  unfold value
  rw [op.gpr?_rename]
  cases hop : op.gpr? with
  | none => simp [Operand.rename_of_gpr?_eq_none hop, hrest]
  | some n => simpa using hregs n hop

/-- The renamed instruction reads the same values where its sources agree. -/
theorem values_rename (hrest : st'.rest = st.rest)
    (hregs : ∀ n ∈ sourceRegisters inst, st'.regs (f n) = st.regs n) :
    M.values st' (inst.rename f) = M.values st inst := by
  unfold values rename
  rw [map_map]
  refine map_congr_left fun op hop => ?_
  exact value_rename hrest fun n hn => hregs n (mem_filterMap.mpr ⟨op, hop, hn⟩)

/-- It then writes the same value, to the renamed destination. -/
theorem exec_rename (hrest : st'.rest = st.rest)
    (hregs : ∀ n ∈ sourceRegisters inst, st'.regs (f n) = st.regs n) :
    (M.exec st' (inst.rename f)).rest = (M.exec st inst).rest ∧
      ∀ n, ((M.exec st' (inst.rename f)).regs (f n) = (M.exec st inst).regs n) ∨
        ((inst.dst ≠ some (.R n)) ∧ (M.exec st inst).regs n = st.regs n ∧
          ((M.exec st' (inst.rename f)).regs (f n) = st'.regs (f n) ∨
            ∃ d, inst.dst = some (.R d) ∧ f d = f n)) := by
  have hres : M.effect (inst.rename f).shape (M.values st' (inst.rename f)) st'.rest =
      M.effect inst.shape (M.values st inst) st.rest := by
    rw [inst.shape_rename, values_rename hrest hregs, hrest]
  unfold exec
  rw [hres]
  cases hd : inst.dst with
  | none => simp [rename, hd]
  | some r =>
    cases r with
    | R d =>
      have hd' : (inst.rename f).dst = some (.R (f d)) := by simp [rename, hd, Reg.rename]
      rw [hd']
      refine ⟨rfl, fun n => ?_⟩
      by_cases hn : n = d
      · subst hn
        exact .inl (by simp)
      · refine .inr ⟨by simpa using fun h => hn h.symm, by simp [hn], ?_⟩
        by_cases hf : f n = f d
        · exact .inr ⟨d, rfl, hf.symm⟩
        · exact .inl (by simp [hf])
    | _ => simp [rename, hd, Reg.rename]

end Machine

/-! ## The condition is enough -/

variable {i : Nat} {V S : Type} {M : Machine V S} {st : MState V S}

section Simulation

variable {insts : List SassInst} {f : UInt8 → UInt8}

/-- Before instruction `i` the register holds a value that is still to be read. -/
def Alive (insts : List SassInst) (i : Nat) (n : UInt8) : Prop :=
  Occurs insts n ∧ i ≤ lastUse insts n ∧
    (firstUse insts n < i ∨ (n < 128 ∧ ReadFirst insts n))

/-- What keeps renamed registers apart: overlapping ranges do not meet, and a value
that comes with the code is not overwritten before its first use. -/
structure Apart (insts : List SassInst) (f : UInt8 → UInt8) : Prop where
  precoloured : ∀ n < 128, f n = n
  overlap : ∀ n m, Occurs insts n → Occurs insts m → n ≠ m → Overlap insts n m → f n ≠ f m
  incoming : ∀ v p, Virtual insts v → p < 128 → Occurs insts p → ReadFirst insts p →
    firstUse insts v < firstUse insts p → f v ≠ p

/-- A register read at `i` holds a value there. -/
theorem alive_of_read (hw : WrittenFirst insts) (hi : insts[i]? = some inst)
    (hn : n ∈ sourceRegisters inst) : Alive insts i n := by
  have hocc : OccursAt insts n i := ⟨inst, hi, touches_iff.mpr (.inr hn)⟩
  refine ⟨occurs_iff.mpr ⟨i, hocc⟩, le_lastUse hocc, ?_⟩
  by_cases hv : n < 128
  · rcases Nat.lt_or_eq_of_le (firstUse_le hocc) with hlt | heq
    · exact .inl hlt
    · exact .inr ⟨hv, inst, heq ▸ hi, hn⟩
  · obtain ⟨j, hj, writer, hdef, hd⟩ := hw i inst hi n hn (by simpa using hv)
    exact .inl ((firstUse_le ⟨writer, hdef, touches_iff.mpr (.inl hd)⟩).trans_lt hj)

/-- A register alive after `i` was alive before, unless `i` wrote it. -/
theorem Alive.before (hw : WrittenFirst insts) (hi : insts[i]? = some inst)
    (h : Alive insts (i + 1) n) (hd : inst.dst ≠ some (.R n)) : Alive insts i n := by
  obtain ⟨hocc, hlast, hfirst⟩ := h
  refine ⟨hocc, by omega, ?_⟩
  rcases hfirst with hfirst | hin
  · rcases Nat.lt_or_eq_of_le (Nat.lt_succ_iff.mp hfirst) with hlt | heq
    · exact .inl hlt
    · -- it is first used by `i`, which does not write it and so reads it
      obtain ⟨inst', hi', ht⟩ := occursAt_firstUse hocc
      rw [heq, hi] at hi'
      cases hi'
      have hread := (touches_iff.mp ht).resolve_left hd
      exact (alive_of_read hw hi hread).2.2
  · exact .inr hin

/-- No write lands on a register that is alive after it. -/
theorem Apart.dst_ne (h : Apart insts f) (hi : insts[i]? = some inst) {d n : UInt8}
    (hd : inst.dst = some (.R d)) (hdn : d ≠ n) (hn : Alive insts (i + 1) n) : f d ≠ f n := by
  obtain ⟨hocc, hlast, hfirst⟩ := hn
  have hdi : OccursAt insts d i := ⟨inst, hi, touches_iff.mpr (.inl hd)⟩
  have hdocc : Occurs insts d := occurs_iff.mpr ⟨i, hdi⟩
  by_cases hle : firstUse insts n ≤ i
  · refine h.overlap d n hdocc hocc hdn ⟨?_, ?_⟩
    · have := firstUse_le hdi
      omega
    · have := le_lastUse hdi
      omega
  · obtain ⟨hpre, hread⟩ := hfirst.resolve_left (by omega)
    rw [h.precoloured n hpre]
    by_cases hv : d < 128
    · rwa [h.precoloured d hv]
    · refine h.incoming d n ⟨by simpa using hv, hdocc⟩ hpre hocc hread ?_
      have := firstUse_le hdi
      omega

/-- The two runs agree on what is alive. -/
def Agree {V S : Type} (insts : List SassInst) (f : UInt8 → UInt8) (i : Nat)
    (st st' : MState V S) : Prop :=
  st'.rest = st.rest ∧ ∀ n, Alive insts i n → st'.regs (f n) = st.regs n

/-- One instruction. -/
theorem Agree.exec {st' : MState V S} (hw : WrittenFirst insts) (hf : Apart insts f)
    (h : Agree insts f i st st') (hi : insts[i]? = some inst) :
    Agree insts f (i + 1) (M.exec st inst) (M.exec st' (inst.rename f)) := by
  have hregs : ∀ n ∈ sourceRegisters inst, st'.regs (f n) = st.regs n :=
    fun n hn => h.2 n (alive_of_read hw hi hn)
  obtain ⟨hrest, hstep⟩ := Machine.exec_rename (M := M) h.1 hregs
  refine ⟨hrest, fun n hn => ?_⟩
  rcases hstep n with heq | ⟨hd, hold, hnew | ⟨d, hdst, hfd⟩⟩
  · exact heq
  · rw [hnew, hold]
    exact h.2 n (hn.before hw hi hd)
  · have hdn : d ≠ n := by
      rintro rfl
      exact hd hdst
    exact absurd hfd (hf.dst_ne hi hdst hdn hn)

/-- **The run.** Every operand of the rest of the code reads the same value. -/
theorem Agree.reads (hw : WrittenFirst insts) (hf : Apart insts f) (rest : List SassInst)
    (hrest : insts.drop i = rest) {st' : MState V S} (h : Agree insts f i st st') :
    M.reads st' (rest.map (rename f)) = M.reads st rest := by
  induction rest generalizing i st st' with
  | nil => rfl
  | cons inst rest ih =>
    obtain ⟨hi, hdrop⟩ := of_drop_eq_cons hrest
    rw [map_cons, Machine.reads, Machine.reads, ih hdrop (h.exec hw hf hi),
      Machine.values_rename h.1 fun n hn => h.2 n (alive_of_read hw hi hn)]

end Simulation

/-! ## The condition is needed -/

variable {insts : List SassInst}

theorem Machine.reads_getElem? (hi : insts[i]? = some inst) :
    (M.reads st insts)[i]? = some (M.values (M.run st (insts.take i)) inst) := by
  induction insts generalizing i st with
  | nil => cases hi
  | cons first insts ih =>
    cases i with
    | zero =>
      cases hi
      rfl
    | succ i => exact ih hi

/-- A machine on which every write leaves a mark. -/
def stamp : Machine Bool Unit := ⟨fun _ _ => true, fun _ _ _ => (true, ())⟩

/-- A register is marked once something wrote it. -/
theorem run_stamp {st : MState Bool Unit} :
    (stamp.run st insts).regs n ↔ st.regs n ∨ ∃ inst ∈ insts, inst.dst = some (.R n) := by
  induction insts generalizing st with
  | nil => simp [Machine.run]
  | cons inst insts ih =>
    have hexec : (stamp.exec st inst).regs n ↔ st.regs n ∨ inst.dst = some (.R n) := by
      unfold Machine.exec
      split
      · rename_i d hd
        by_cases hdn : n = d
        · subst hdn
          simp [stamp, hd]
        · have hne : d ≠ n := fun h => hdn h.symm
          simp [hdn, hd, hne]
      · rename_i hd
        have hne : inst.dst ≠ some (.R n) := fun h => hd n h
        simp [hne]
    rw [show stamp.run st (inst :: insts) = stamp.run (stamp.exec st inst) insts from rfl, ih,
      hexec]
    simp [or_assoc]

/-- **A value that comes with the code is lost** when an earlier virtual register is
given its number. -/
theorem reads_stamp_ne (hw : WrittenFirst insts) {f : UInt8 → UInt8} {v p : UInt8}
    (hv : Virtual insts v) (hread : ReadFirst insts p) (hfp : f p = p) (hfv : f v = p)
    (hlt : firstUse insts v < firstUse insts p) :
    stamp.reads ⟨fun n => n ≠ p, ()⟩ (insts.map (rename f)) ≠
      stamp.reads ⟨fun n => n ≠ p, ()⟩ insts := by
  intro heq
  obtain ⟨inst, hi, hsrc⟩ := hread
  obtain ⟨op, hop, hgpr⟩ := mem_filterMap.mp hsrc
  -- the operand at the first use of `p`, in both runs
  have hi' : (insts.map (rename f))[firstUse insts p]? = some (inst.rename f) := by
    rw [getElem?_map, hi]
    rfl
  have hout : (stamp.reads ⟨fun n => n ≠ p, ()⟩ (insts.map (rename f)))[
      firstUse insts p]? = _ := Machine.reads_getElem? hi'
  rw [heq, Machine.reads_getElem? hi] at hout
  obtain ⟨k, hk⟩ := mem_iff_getElem?.mp hop
  have hval := congrArg (fun l => l[k]?) (Option.some.inj hout)
  simp only [Machine.values, rename, getElem?_map, hk, Option.map_some,
    Option.some.injEq, Machine.value, Operand.gpr?_rename, hgpr, hfp] at hval
  have hin : ¬(stamp.run ⟨fun n => n ≠ p, ()⟩ (insts.take (firstUse insts p))).regs p := by
    rw [run_stamp]
    rintro (h | ⟨w, hwmem, hd⟩)
    · simp at h
    · obtain ⟨j, hj⟩ := mem_iff_getElem?.mp hwmem
      rw [getElem?_take] at hj
      split at hj
      · rename_i hjlt
        have := firstUse_le ⟨w, hj, touches_iff.mpr (.inl hd)⟩
        omega
      · cases hj
  rw [hval, run_stamp] at hin
  obtain ⟨w, hwat, hd⟩ := hw.dst_firstUse hv.1 hv.2
  refine hin (.inr ⟨w.rename f, ?_, w.dst_rename.mpr ⟨v, hd, hfv⟩⟩)
  rw [← map_take]
  refine mem_map_of_mem (mem_of_getElem? (i := firstUse insts v) ?_)
  rw [getElem?_take, if_pos hlt, hwat]

/-! ## Allocation -/

theorem toNat_lt_of_mem {mapping : List (UInt8 × UInt8)} {entry : UInt8 × UInt8}
    (h : entry ∈ mapping) :
    entry.2.toNat < max (((mapping.map fun entry => entry.2.toNat).max?.getD 0) + 1) 8 := by
  have hmem : entry.2.toNat ∈ mapping.map fun entry => entry.2.toNat := mem_map_of_mem h
  cases hmax : (mapping.map fun entry => entry.2.toNat).max? with
  | none =>
    rw [max?_eq_none_iff] at hmax
    rw [hmax] at hmem
    cases hmem
  | some k =>
    have := (max?_eq_some_iff.mp hmax).2 _ hmem
    simp only [Option.getD_some]
    omega

/-- What `allocate` returns when it returns. -/
theorem allocate_eq_ok {iter : List LiveRange → List LiveRange} {out : List SassInst} {count : Nat}
    (h : allocate iter insts = .ok (out, count)) :
    ∃ m, linearScan iter (computeLiveRanges insts) = .ok m ∧
      out = insts.map (rename (remap m)) ∧
      count = max (((m.map fun entry => entry.2.toNat).max?.getD 0) + 1) 8 := by
  unfold allocate at h
  obtain ⟨m, hm, hret⟩ := except_bind_eq_ok_iff.mp h
  cases hret
  exact ⟨m, hm, rfl, rfl⟩

/-- **Register allocation.** On code that writes its virtual registers before it reads
them, an allocation that succeeds preserves the code if and only if first fit keeps
the virtual registers clear of the pre-coloured ones. -/
theorem allocate_preserves_iff {iter : List LiveRange → List LiveRange}
    (hiter : ∀ l, (iter l).Perm l) {insts out : List SassInst} {count : Nat}
    (hw : WrittenFirst insts) (h : allocate iter insts = .ok (out, count)) :
    Preserves insts out count ↔ Clear insts := by
  obtain ⟨m, hm, rfl, rfl⟩ := allocate_eq_ok h
  obtain ⟨hpre, hmem, hfit⟩ := linearScan_spec hiter hw hm
  constructor
  · rintro ⟨f, hout, hf, hoverlap, hreads, -⟩
    have hfm : ∀ n, Occurs insts n → f n = remap m n := by
      rintro n ⟨inst, hinst, ht⟩
      exact eq_of_rename_eq (map_inj_left.mp hout inst hinst).symm ht
    refine ⟨_, hfit, fun v p hv hp hocc heq => ?_⟩
    have hfv : f v = p := (hfm v hv.2).trans (UInt8.toNat_inj.mp heq)
    have hne : v ≠ p := by
      rintro rfl
      exact absurd hp (by simpa using hv.1)
    by_cases hdone : lastUse insts p < firstUse insts v
    · exact .inl hdone
    · have hafter : lastUse insts v < firstUse insts p := by
        by_contra hle
        exact hoverlap v p hv.2 hocc hne ⟨by omega, by omega⟩ (hfv.trans (hf p hp).symm)
      refine .inr ⟨hafter, fun hread => ?_⟩
      have hvv : firstUse insts v ≤ lastUse insts v := firstUse_le (occursAt_lastUse hv.2)
      refine reads_stamp_ne hw hv hread (hf p hp) hfv (by omega) ?_
      rw [← hout]
      exact hreads Bool Unit stamp _ _ rfl fun _ _ => rfl
  · rintro ⟨num, hnum, hclear⟩
    have hclear' : ∀ v p, Virtual insts v → p < 128 → Occurs insts p → remap m v = p →
        lastUse insts p < firstUse insts v ∨
          (lastUse insts v < firstUse insts p ∧ ¬ReadFirst insts p) := by
      intro v p hv hp hocc heq
      exact hclear v p hv hp hocc ((hnum.unique hfit hv).trans (congrArg UInt8.toNat heq))
    -- a virtual register and a pre-coloured one that overlap
    have hmixed : ∀ v p, Virtual insts v → p < 128 → Occurs insts p → Overlap insts v p →
        remap m v ≠ remap m p := by
      intro v p hv hp hocc hov heq
      rw [hpre p hp] at heq
      have := hclear' v p hv hp hocc heq
      unfold Overlap at hov
      omega
    have hapart : Apart insts (remap m) := by
      refine ⟨hpre, fun n k hn hk hne hov => ?_, fun v p hv hp hocc hread hlt heq => ?_⟩
      · by_cases hn128 : n < 128
        · by_cases hk128 : k < 128
          · rwa [hpre n hn128, hpre k hk128]
          · exact (hmixed k n ⟨by simpa using hk128, hk⟩ hn128 hn hov.symm).symm
        · have hnv : Virtual insts n := ⟨by simpa using hn128, hn⟩
          by_cases hk128 : k < 128
          · exact hmixed n k hnv hk128 hk hov
          · have hkv : Virtual insts k := ⟨by simpa using hk128, hk⟩
            intro heq
            exact hfit.ne_of_overlap
              (fun u v hu hv he => hw.firstUse_inj hu.1 hv.1 hu.2 hv.2 he) hnv hkv hne hov.1 hov.2
              (congrArg UInt8.toNat heq)
      · rcases hclear' v p hv hp hocc heq with hdone | ⟨-, hnot⟩
        · have := firstUse_le (occursAt_lastUse hocc)
          omega
        · exact hnot hread
    refine ⟨remap m, rfl, hpre, hapart.overlap, fun V S M st st' hrest hregs => ?_, fun n hn => ?_⟩
    · refine Agree.reads hw hapart insts (i := 0) rfl ⟨hrest, fun n hn => ?_⟩
      obtain ⟨hn128, -⟩ := hn.2.2.resolve_left (Nat.not_lt_zero _)
      rw [hpre n hn128]
      exact hregs n hn128
    · obtain ⟨inst', hinst', ht⟩ := hn
      obtain ⟨inst, hinst, rfl⟩ := mem_map.mp hinst'
      obtain ⟨k, hk, rfl⟩ := touches_rename.mp ht
      exact toNat_lt_of_mem (hmem k ⟨inst, hinst, hk⟩)

instance (insts : List SassInst) : Decidable (WrittenFirst insts) :=
  decidable_of_iff (∀ i : Fin insts.length, ∀ v ∈ sourceRegisters insts[i], 128 ≤ v →
    ∃ j : Fin insts.length, j < i ∧ insts[j].dst = some (.R v)) <| by
  constructor
  · intro h i inst hi v hv h128
    obtain ⟨hlt, rfl⟩ := List.getElem?_eq_some_iff.mp hi
    obtain ⟨j, hj, hdst⟩ := h ⟨i, hlt⟩ v hv h128
    exact ⟨j, hj, _, List.getElem?_eq_getElem j.2, hdst⟩
  · intro h i v hv h128
    obtain ⟨j, hj, writer, hwriter, hdst⟩ := h i _ (List.getElem?_eq_getElem i.2) v hv h128
    obtain ⟨hlt, rfl⟩ := List.getElem?_eq_some_iff.mp hwriter
    exact ⟨⟨j, hlt⟩, hj, hdst⟩

theorem touches_selectMov {dst src n : UInt8} :
    (selectMov dst src).touches n ↔ n = dst ∨ n = src := by
  rw [touches_iff, show sourceRegisters (selectMov dst src) = [src] from rfl]
  simp [selectMov, plain, eq_comm]

/-- A virtual register beside a pre-coloured one that is not its first-fit number. -/
theorem allocate_preserves_beside :
    Preserves [selectMov 200 5, selectMov 5 200] [selectMov 0 5, selectMov 5 0] 8 := by
  have hw : WrittenFirst [selectMov 200 5, selectMov 5 200] := by decide +kernel
  have hrun :
      allocate id [selectMov 200 5, selectMov 5 200] = .ok ([selectMov 0 5, selectMov 5 0], 8) := by
    rw [allocate, linearScan_of_sorted (by decide +kernel)]
    decide +kernel
  have hocc : ∀ n, Occurs [selectMov 200 5, selectMov 5 200] n → n = 200 ∨ n = 5 := by
    rintro n ⟨inst, hinst, ht⟩
    rcases mem_pair.mp hinst with rfl | rfl
    · exact touches_selectMov.mp ht
    · exact (touches_selectMov.mp ht).symm
  refine (allocate_preserves_iff (fun l => List.Perm.refl l) hw hrun).mpr ⟨fun _ => 0, ?_, ?_⟩
  · rintro v ⟨hv128, hv⟩
    have hv200 : v = 200 := (hocc v hv).resolve_right fun h => absurd (h ▸ hv128) (by decide)
    subst hv200
    exact ⟨fun u _ hlt => absurd hlt (Nat.not_lt_zero _), fun k _ => Nat.zero_le k⟩
  · intro v p _ _ hp heq
    have hp0 : p = 0 := UInt8.toNat_inj.mp heq.symm
    subst hp0
    exact absurd (hocc 0 hp) (by decide)

/-- A pre-coloured register, and a virtual one written while it is live. -/
def mixed : List SassInst :=
  [selectMov 0 5, selectMov 128 6, selectAddI32 7 0 128]

/-- `R128` is given `R0`, which is still to be read. -/
theorem allocate_clobbers_precoloured :
    WrittenFirst mixed ∧ ∃ out count, allocate id mixed = .ok (out, count) ∧
      ¬Preserves mixed out count := by
  refine ⟨by decide +kernel, [selectMov 0 5, selectMov 0 6, selectAddI32 7 0 0], 8, ?_, ?_⟩
  · rw [allocate, linearScan_of_sorted (by decide +kernel)]
    decide +kernel
  · rintro ⟨f, hout, hpre, hoverlap, -⟩
    have h0 : f 0 = 0 := hpre 0 (by decide)
    have h128 : f 128 = 0 := by
      have hdst := congrArg (fun l => l[1]?.map dst) hout
      simpa [mixed, selectMov, plain, rename, Reg.rename] using hdst.symm
    exact hoverlap 0 128 ⟨selectMov 0 5, by decide +kernel, by decide⟩
      ⟨selectMov 128 6, by decide +kernel, by decide⟩ (by decide)
      ⟨by decide +kernel, by decide +kernel⟩
      (h0.trans h128.symm)

end Concordia.Sass
