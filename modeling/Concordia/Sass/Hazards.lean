import Concordia.Sass.Isel
import Concordia.Sass.Scheduler

/-!
# Scheduled code and its hazards

One step of the loop keeps its variables true of the code before it (`Tracks`); so
every instruction's control codes are known from the given code alone (`Codes`), and
with them when the scheduled code is safe.
-/

namespace Concordia.Sass

open List Function Nat Scheduler UInt8

variable {insts out : List SassInst} {i : Nat} {inst : SassInst} {r : Reg}

/-! ## One instruction further -/

theorem at_iff (h : insts[i]? = some inst) {P : SassInst → Prop} : At insts i P ↔ P inst := by
  constructor
  · rintro ⟨inst', h', hP⟩
    rw [h] at h'
    cases h'
    exact hP
  · exact fun hP => ⟨inst, h, hP⟩

section LastBefore

variable {P : Nat → Prop} {w w' : Nat}

/-- The last index before `i + 1` is `i`, or the last one before `i`. -/
theorem lastBefore_succ :
    LastBefore P (i + 1) w ↔ (w = i ∧ P i) ∨ (¬P i ∧ LastBefore P i w) := by
  constructor
  · rintro ⟨hlt, hw, hno⟩
    rcases Nat.lt_or_eq_of_le (Nat.lt_succ_iff.mp hlt) with hlt' | rfl
    · refine .inr ⟨hno i hlt' (Nat.lt_succ_self i), hlt', hw, fun j hwj hji => ?_⟩
      exact hno j hwj (Nat.lt_succ_of_lt hji)
    · exact .inl ⟨rfl, hw⟩
  · rintro (⟨rfl, hw⟩ | ⟨hni, hlt, hw, hno⟩)
    · refine ⟨Nat.lt_succ_self w, hw, fun j hwj hji => ?_⟩
      omega
    · refine ⟨Nat.lt_succ_of_lt hlt, hw, fun j hwj hji => ?_⟩
      rcases Nat.lt_or_eq_of_le (Nat.lt_succ_iff.mp hji) with hji' | rfl
      · exact hno j hwj hji'
      · exact hni

theorem lastBefore_succ_of_not (h : ¬P i) : LastBefore P (i + 1) w ↔ LastBefore P i w := by
  rw [lastBefore_succ]
  constructor
  · rintro (⟨-, hw⟩ | ⟨-, hw⟩)
    · exact absurd hw h
    · exact hw
  · exact fun hw => .inr ⟨h, hw⟩

theorem lastBefore_succ_self (h : P i) : LastBefore P (i + 1) w ↔ w = i := by
  rw [lastBefore_succ]
  constructor
  · rintro (⟨rfl, -⟩ | ⟨hn, -⟩)
    · rfl
    · exact absurd h hn
  · exact fun hw => .inl ⟨hw, h⟩

theorem exists_lastBefore (hw : P w) (hlt : w < i) : ∃ w', LastBefore P i w' := by
  induction i with
  | zero => omega
  | succ i ih =>
    by_cases hi : P i
    · exact ⟨i, (lastBefore_succ_self hi).mpr rfl⟩
    · have hne : w ≠ i := by
        rintro rfl
        exact hi hw
      obtain ⟨w', hw'⟩ := ih (by omega)
      exact ⟨w', (lastBefore_succ_of_not hi).mpr hw'⟩

end LastBefore

theorem loadsBefore_succ (h : insts[i]? = some inst) :
    loadsBefore insts (i + 1) = loadsBefore insts i + if inst.isGprLoad then 1 else 0 := by
  unfold loadsBefore
  rw [take_add_one, h, countP_append]
  simp [countP_cons]

theorem loadsBefore_mono {j : Nat} (h : i ≤ j) : loadsBefore insts i ≤ loadsBefore insts j :=
  List.Sublist.countP_le (take_sublist_take_left h)

theorem LoadsAt.writesAt (h : LoadsAt insts i r) : WritesAt insts i r := by
  obtain ⟨inst, hi, hd, -⟩ := h
  exact ⟨inst, hi, hd⟩

theorem lastWrite_succ_of_not (h : ¬WritesAt insts i r) {w : Nat} :
    LastWrite insts (i + 1) r w ↔ LastWrite insts i r w :=
  lastBefore_succ_of_not h

variable {l : Nat}

theorem lastLoad_succ_of_not (h : ¬LoadsAt insts i r) :
    LastLoad insts (i + 1) r l ↔ LastLoad insts i r l :=
  lastBefore_succ_of_not h

/-- With no write since, the last write was the last load. -/
theorem lastLoad_of_unwritten (hl : LoadsAt insts l r) (hlt : l < i) (hno : Unwritten insts l i r) :
    LastLoad insts i r l :=
  ⟨hlt, hl, fun j hlj hji hload => hno j hlj hji hload.writesAt⟩

/-! ## The variables of the loop -/

/-- The variables before instruction `i`. -/
structure Tracks (insts : List SassInst) (i : Nat) (s : Scheduler) : Prop where
  pending : ∀ n w latency, s.pendingWrites n = some (w, latency) ↔
    LastWrite insts i (.R n) w ∧
      At insts w fun inst => instructionLatency inst.opcode.cls = latency
  barrier : ∀ n b, s.barrierMap n = some b ↔
    ∃ l, LastLoad insts i (.R n) l ∧ b.toNat = loadsBefore insts l % 6
  count : s.nextBarrier.toNat = loadsBefore insts i

theorem tracks_start : Tracks insts 0 start := by
  refine ⟨fun n w latency => ?_, fun n b => ?_, by simp [start, loadsBefore]⟩
  · simp [start, LastWrite, LastBefore]
  · simp [start, LastLoad, LastBefore]

theorem latency_long_iff (cls : OpcodeClass) : 15 < instructionLatency cls ↔ cls = .load := by
  cases cls <;> decide

/-- The barrier of an instruction: the count of loads modulo six, or none. -/
def barrierOf (insts : List SassInst) (i : Nat) (inst : SassInst) : Nat :=
  if inst.isGprLoad then loadsBefore insts i % 6 else 7

theorem isGprLoad_iff : inst.isGprLoad ↔ inst.opcode.cls = .load ∧ ∃ n, inst.dst = some (.R n) := by
  simp only [SassInst.isGprLoad, decide_eq_true_eq, Option.isSome_iff_exists,
    Option.bind_eq_some_iff, Reg.gpr?_eq_some]
  constructor
  · rintro ⟨hc, n, r, hd, rfl⟩
    exact ⟨hc, n, hd⟩
  · rintro ⟨hc, n, hd⟩
    exact ⟨hc, n, _, hd, rfl⟩

/-! ## The control codes of one instruction -/

theorem testBit_one_shiftLeft {barrier : UInt8} (h : barrier.toNat < 6) (b : Nat) :
    ((1 <<< barrier : UInt8)).toNat.testBit b ↔ barrier.toNat = b := by
  have hlt : 2 ^ barrier.toNat < 2 ^ 8 := Nat.pow_lt_pow_right (by decide) (by omega)
  have hval : ((1 <<< barrier : UInt8)).toNat = 2 ^ barrier.toNat := by
    rw [UInt8.toNat_shiftLeft, Nat.mod_eq_of_lt (by omega : barrier.toNat < 8)]
    rw [toNat_one, one_shiftLeft, Nat.mod_eq_of_lt hlt]
  rw [hval, testBit_two_pow]
  simp

section Sources

variable {s : Scheduler} {ns : List UInt8} {acc : UInt8 × UInt8}

/-- The wait mask collects the barriers of the sources. -/
theorem testBit_foldl_visitSource (hs : ∀ n b, s.barrierMap n = some b → b.toNat < 6) (b : Nat) :
    (ns.foldl (s.visitSource i) acc).1.toNat.testBit b ↔
      acc.1.toNat.testBit b ∨ ∃ n ∈ ns, ∃ c, s.barrierMap n = some c ∧ c.toNat = b := by
  induction ns generalizing acc with
  | nil => simp
  | cons n ns ih =>
    have hone : (s.visitSource i acc n).1.toNat.testBit b ↔
        acc.1.toNat.testBit b ∨ ∃ c, s.barrierMap n = some c ∧ c.toNat = b := by
      unfold visitSource
      cases hn : s.barrierMap n with
      | none => simp
      | some c =>
        dsimp only
        rw [UInt8.toNat_or, testBit_or, Bool.or_eq_true, testBit_one_shiftLeft (hs n c hn)]
        simp
    rw [foldl_cons, ih, hone]
    simp [or_assoc]

/-- Sources far enough from their last write ask for no stall. -/
theorem foldl_visitSource_needed (hs : ∀ n ∈ ns, ∀ w latency,
      s.pendingWrites n = some (w, latency) → latency ≤ ofNat (i - w)) :
    (ns.foldl (s.visitSource i) acc).2 = acc.2 := by
  induction ns generalizing acc with
  | nil => rfl
  | cons n ns ih =>
    rw [foldl_cons, ih fun m hm => hs m (mem_cons_of_mem n hm)]
    unfold visitSource
    cases hn : s.pendingWrites n with
    | none => rfl
    | some entry =>
      obtain ⟨w, latency⟩ := entry
      have hle := hs n mem_cons_self w latency hn
      simp [UInt8.not_lt.mpr hle]

end Sources

/-- What the scheduled instruction carries, in terms of the given code. -/
structure Codes (insts : List SassInst) (i : Nat) (inst : SassInst) (ctrl : ControlCodes) :
    Prop where
  waits : ∀ b, ctrl.waitMask.toNat.testBit b ↔ ∃ n ∈ sourceRegisters inst, ∃ l,
    LastLoad insts i (.R n) l ∧ loadsBefore insts l % 6 = b
  barrier : ctrl.writeBarrier.toNat = barrierOf insts i inst
  stall_pos : 1 ≤ ctrl.stall.toNat
  stall_one : (∀ n ∈ sourceRegisters inst, ∀ w latency, LastWrite insts i (.R n) w →
      (At insts w fun inst => instructionLatency inst.opcode.cls = latency) → latency ≤ 15 →
      latency.toNat ≤ (i - w) % 256) → ctrl.stall.toNat = 1

section Control

variable {s : Scheduler}

theorem Tracks.waits (h : Tracks insts i s) (b : Nat) :
    (s.control i inst).waitMask.toNat.testBit b ↔ ∃ n ∈ sourceRegisters inst, ∃ l,
      LastLoad insts i (.R n) l ∧ loadsBefore insts l % 6 = b := by
  have hs : ∀ n b, s.barrierMap n = some b → b.toNat < 6 := by
    intro n b hb
    obtain ⟨l, -, hl⟩ := (h.barrier n b).mp hb
    omega
  unfold Scheduler.control
  dsimp only
  rw [testBit_foldl_visitSource hs]
  simp only [UInt8.toNat_zero, zero_testBit, Bool.false_eq_true, false_or, h.barrier]
  constructor
  · rintro ⟨n, hn, c, ⟨l, hl, hc⟩, rfl⟩
    exact ⟨n, hn, l, hl, hc.symm⟩
  · rintro ⟨n, hn, l, hl, rfl⟩
    refine ⟨n, hn, UInt8.ofNat (loadsBefore insts l % 6), ⟨l, hl, ?_⟩, ?_⟩ <;>
      rw [toNat_ofNat', Nat.mod_eq_of_lt (by omega)]

theorem one_le_max_one (k : UInt8) : 1 ≤ max k 1 := by
  rw [show max k 1 = if k ≤ 1 then 1 else k from rfl]
  split
  · exact le_refl 1
  · rename_i hk
    exact UInt8.le_of_lt (UInt8.not_le.mp hk)

theorem control_stall_pos : 1 ≤ (s.control i inst).stall.toNat := by
  have hone : (1 : UInt8) ≤ (s.control i inst).stall := by
    unfold Scheduler.control
    dsimp only
    split
    · exact le_refl 1
    · exact one_le_max_one _
  exact le_iff_toNat_le.mp hone

/-- Without a wait mask none of the sources was ever loaded. -/
theorem Tracks.stall_one (h : Tracks insts i s)
    (hfar : ∀ n ∈ sourceRegisters inst, ∀ w latency, LastWrite insts i (.R n) w →
      (At insts w fun inst => instructionLatency inst.opcode.cls = latency) → latency ≤ 15 →
      latency.toNat ≤ (i - w) % 256) : (s.control i inst).stall.toNat = 1 := by
  by_cases hmask : (s.control i inst).waitMask = 0
  · have hneeded : ((sourceRegisters inst).foldl (s.visitSource i) (0, 0)).2 = 0 := by
      refine foldl_visitSource_needed fun n hn w latency hp => ?_
      obtain ⟨hw, hat⟩ := (h.pending n w latency).mp hp
      have hle : latency ≤ 15 := by
        by_contra hgt
        obtain ⟨writer, hwriter, hlat⟩ := hat
        have hload := (latency_long_iff writer.opcode.cls).mp (hlat ▸ UInt8.not_le.mp hgt)
        have hld : LoadsAt insts w (.R n) := by
          obtain ⟨writer', hwriter', hd⟩ := hw.2.1
          rw [hwriter] at hwriter'
          cases hwriter'
          exact ⟨writer, hwriter, hd, hload⟩
        obtain ⟨l, hl⟩ := exists_lastBefore (P := fun j => LoadsAt insts j (.R n)) hld hw.1
        have hbit := (h.waits (loadsBefore insts l % 6)).mpr ⟨n, hn, l, hl, rfl⟩
        simp [hmask] at hbit
      rw [le_iff_toNat_le, toNat_ofNat']
      exact hfar n hn w latency hw hat hle
    have hstall : (s.control i inst).stall = 1 := by
      unfold Scheduler.control at hmask ⊢
      dsimp only at hmask ⊢
      rw [hmask, hneeded]
      decide
    rw [hstall]
    rfl
  · have hstall : (s.control i inst).stall = 1 := by
      unfold Scheduler.control at hmask ⊢
      dsimp only at hmask ⊢
      rw [if_pos hmask]
    rw [hstall]
    rfl

end Control

/-! ## The loop -/

section Visit

variable {s : Scheduler} {n : UInt8}

variable (h : Tracks insts i s) (hi : insts[i]? = some inst)

include h hi

/-- An instruction that writes no general register. -/
theorem Tracks.skip (hd : ∀ n, inst.dst ≠ some (.R n)) : Tracks insts (i + 1) s := by
  have hno : ∀ n, ¬WritesAt insts i (.R n) := fun n hw => hd n ((at_iff hi).mp hw)
  refine ⟨fun n w latency => ?_, fun n b => ?_, ?_⟩
  · rw [h.pending, lastWrite_succ_of_not (hno n)]
  · simp only [h.barrier, lastLoad_succ_of_not fun hl => hno n hl.writesAt]
  · have hgpr : ¬inst.isGprLoad := fun hl => by
      obtain ⟨-, n, hn⟩ := isGprLoad_iff.mp hl
      exact hd n hn
    rw [loadsBefore_succ hi, if_neg hgpr, h.count, add_zero]

/-- A write of `R n` becomes its last write. -/
theorem Tracks.pending_update (hd : inst.dst = some (.R n)) (m : UInt8) (w : Nat) (latency :
    UInt8) :
    update s.pendingWrites n (some (i, instructionLatency inst.opcode.cls)) m =
        some (w, latency) ↔
      LastWrite insts (i + 1) (.R m) w ∧
        At insts w fun inst => instructionLatency inst.opcode.cls = latency := by
  by_cases hm : m = n
  · subst hm
    have hw : WritesAt insts i (.R m) := ⟨inst, hi, hd⟩
    rw [update_self, LastWrite,
      lastBefore_succ_self (P := fun j => WritesAt insts j (.R m)) hw]
    constructor
    · intro heq
      cases heq
      exact ⟨rfl, inst, hi, rfl⟩
    · rintro ⟨rfl, hat⟩
      rw [(at_iff hi).mp hat]
  · have hno : ¬WritesAt insts i (.R m) := fun hw => by
      have hdm := (at_iff hi).mp hw
      rw [hd] at hdm
      cases hdm
      exact hm rfl
    rw [update_of_ne hm, h.pending, lastWrite_succ_of_not hno]

/-- A load of `R n` becomes its last load. -/
theorem Tracks.barrier_update (hd : inst.dst = some (.R n)) (hload : inst.opcode.cls = .load)
    (m b : UInt8) :
    update s.barrierMap n (some (s.nextBarrier % 6)) m = some b ↔
      ∃ l, LastLoad insts (i + 1) (.R m) l ∧ b.toNat = loadsBefore insts l % 6 := by
  by_cases hm : m = n
  · subst hm
    have hl : LoadsAt insts i (.R m) := ⟨inst, hi, hd, hload⟩
    have hlast : ∀ l, LastLoad insts (i + 1) (.R m) l ↔ l = i := fun l =>
      lastBefore_succ_self (P := fun j => LoadsAt insts j (.R m)) hl
    simp only [update_self, Option.some.injEq, hlast, exists_eq_left, ← h.count]
    rw [← UInt8.toNat_inj, UInt8.toNat_mod, eq_comm]
    rfl
  · have hno : ¬LoadsAt insts i (.R m) := fun hl => by
      have hdm := ((at_iff hi).mp hl).1
      rw [hd] at hdm
      cases hdm
      exact hm rfl
    simp only [update_of_ne hm, h.barrier, lastLoad_succ_of_not hno]

/-- **One round.** It stops only at the 256th load; otherwise the variables stay true of
the code before the next instruction. -/
theorem Tracks.visit :
    (loadsBefore insts (i + 1) = 256 ∧ s.visit i inst = none) ∨
      (loadsBefore insts (i + 1) < 256 ∧ ∃ ctrl s', s.visit i inst =
        some ({ inst with control := ctrl }, s') ∧ Codes insts i inst ctrl ∧
          Tracks insts (i + 1) s') := by
  have hcount := h.count
  have hlt : s.nextBarrier.toNat < 256 := s.nextBarrier.toNat_lt
  have hsucc := loadsBefore_succ hi
  have hcodes : ∀ b : UInt8, b.toNat = barrierOf insts i inst →
      Codes insts i inst { s.control i inst with writeBarrier := b } := fun b hb =>
    ⟨h.waits, hb, control_stall_pos, h.stall_one⟩
  by_cases hd : ∃ n, inst.dst = some (.R n)
  · obtain ⟨n, hd⟩ := hd
    unfold Scheduler.visit
    rw [hd]
    dsimp only
    by_cases hload : inst.opcode.cls = .load
    · have hgpr : inst.isGprLoad := isGprLoad_iff.mpr ⟨hload, n, hd⟩
      rw [if_pos hgpr] at hsucc
      rw [if_pos ((latency_long_iff _).mpr hload)]
      by_cases hmax : s.nextBarrier = 255
      · rw [if_pos hmax]
        rw [hmax] at hcount
        exact .inl ⟨by rw [hsucc, ← hcount]; rfl, rfl⟩
      · have hne : s.nextBarrier.toNat ≠ 255 := fun he => hmax (UInt8.toNat_inj.mp he)
        rw [if_neg hmax]
        refine .inr ⟨by omega, _, _, rfl, hcodes _ ?_, h.pending_update hi hd,
          h.barrier_update hi hd hload, ?_⟩
        · rw [barrierOf, if_pos hgpr, ← hcount, UInt8.toNat_mod]
          rfl
        · rw [hsucc, ← hcount, UInt8.toNat_add, Nat.mod_eq_of_lt (by simp; omega)]
          rfl
    · have hgpr : ¬inst.isGprLoad := fun hl => hload (isGprLoad_iff.mp hl).1
      rw [if_neg hgpr] at hsucc
      rw [if_neg fun hlong => hload ((latency_long_iff _).mp hlong)]
      refine .inr ⟨by omega, _, _, rfl, hcodes 7 ?_, h.pending_update hi hd, fun m b => ?_, ?_⟩
      · rw [barrierOf, if_neg hgpr]
        rfl
      · simp only [h.barrier, lastLoad_succ_of_not fun hl => hload ((at_iff hi).mp hl).2]
      · rw [hsucc, add_zero]
        exact hcount
  · have hd' : ∀ n, inst.dst ≠ some (.R n) := fun n hn => hd ⟨n, hn⟩
    have hgpr : ¬inst.isGprLoad := fun hl => hd (isGprLoad_iff.mp hl).2
    rw [if_neg hgpr] at hsucc
    refine .inr ⟨by omega, s.control i inst, s, ?_, hcodes 7 ?_, h.skip hi hd'⟩
    · unfold Scheduler.visit
      dsimp only
      split
      · rename_i n hn
        exact absurd hn (hd' n)
      · rfl
    · rw [barrierOf, if_neg hgpr]
      rfl

end Visit

/-- **The loop.** With fewer than 256 loads it returns, and every instruction has the
codes the given code asks for. -/
theorem Tracks.loop {s : Scheduler} {rest : List SassInst} (h : Tracks insts i s)
    (hrest : insts.drop i = rest) (hfew : loadsBefore insts insts.length < 256) :
    ∃ out, s.loop i rest = some out ∧ out.length = rest.length ∧ ∀ (j : Nat) inst,
      rest[j]? = some inst → ∃ ctrl, out[j]? = some { inst with control := ctrl } ∧
        Codes insts (i + j) inst ctrl := by
  induction rest generalizing i s with
  | nil => exact ⟨[], rfl, rfl, by simp⟩
  | cons inst rest ih =>
    obtain ⟨hi, hdrop⟩ := of_drop_eq_cons hrest
    have hle : i + 1 ≤ insts.length := (List.getElem?_eq_some_iff.mp hi).1
    have hmono : loadsBefore insts (i + 1) ≤ loadsBefore insts insts.length := loadsBefore_mono hle
    rcases h.visit hi with ⟨hmax, -⟩ | ⟨-, ctrl, s', hvisit, hctrl, hs'⟩
    · omega
    · obtain ⟨out, hout, hlen, hcodes⟩ := ih hs' hdrop
      refine ⟨{ inst with control := ctrl } :: out, by simp [Scheduler.loop, hvisit, hout],
        by simp [hlen], ?_⟩
      intro j inst' hj
      cases j with
      | zero =>
        cases hj
        exact ⟨ctrl, rfl, hctrl⟩
      | succ j =>
        have hadd : i + (j + 1) = i + 1 + j := by omega
        rw [hadd]
        exact hcodes j inst' hj

/-- With 256 loads the barrier counter overflows. -/
theorem Tracks.loop_eq_none {s : Scheduler} {rest : List SassInst} (h : Tracks insts i s)
    (hrest : insts.drop i = rest) (hi : loadsBefore insts i < 256)
    (hmany : 256 ≤ loadsBefore insts insts.length) : s.loop i rest = none := by
  induction rest generalizing i s with
  | nil =>
    have hle : insts.length ≤ i := drop_eq_nil_iff.mp hrest
    have hmono : loadsBefore insts insts.length ≤ loadsBefore insts i := loadsBefore_mono hle
    omega
  | cons inst rest ih =>
    obtain ⟨hat, hdrop⟩ := of_drop_eq_cons hrest
    rcases h.visit hat with ⟨-, hnone⟩ | ⟨hlt, ctrl, s', hvisit, -, hs'⟩
    · simp [Scheduler.loop, hnone]
    · simp [Scheduler.loop, hvisit, ih hs' hdrop hlt]

/-- The scheduled code, instruction by instruction. -/
structure Scheduled (insts out : List SassInst) : Prop where
  length_eq : out.length = insts.length
  codes : ∀ (i : Nat) inst, insts[i]? = some inst →
    ∃ ctrl, out[i]? = some { inst with control := ctrl } ∧ Codes insts i inst ctrl

theorem schedule_eq_some (hfew : loadsBefore insts insts.length < 256) :
    ∃ out, schedule insts = some out ∧ Scheduled insts out := by
  have hstart : Tracks insts 0 start := tracks_start
  obtain ⟨out, hout, hlen, hcodes⟩ := hstart.loop rfl hfew
  refine ⟨out, hout, hlen, fun i inst hi => ?_⟩
  obtain ⟨ctrl, ho, hc⟩ := hcodes i inst hi
  exact ⟨ctrl, ho, zero_add i ▸ hc⟩

theorem schedule_eq_none (hmany : 256 ≤ loadsBefore insts insts.length) :
    schedule insts = none :=
  tracks_start.loop_eq_none rfl (by simp [loadsBefore]) hmany

/-! ## Loads -/

theorem Scheduled.of_out (h : Scheduled insts out) {inst' : SassInst} (ho : out[i]? = some inst') :
    ∃ inst, insts[i]? = some inst ∧ inst' = { inst with control := inst'.control } ∧
      Codes insts i inst inst'.control := by
  have hlt : i < insts.length := h.length_eq ▸ (List.getElem?_eq_some_iff.mp ho).1
  obtain ⟨ctrl, ho', hc⟩ := h.codes i insts[i] (List.getElem?_eq_getElem hlt)
  rw [ho] at ho'
  cases ho'
  exact ⟨insts[i], List.getElem?_eq_getElem hlt, rfl, hc⟩

/-- A load is waited for exactly when it has a barrier and the code names it. -/
theorem Scheduled.awaited_iff (h : Scheduled insts out) (hl : LoadsAt insts l r) :
    (∃ j, l < j ∧ j ≤ i ∧ ∃ load inst : SassInst, out[l]? = some load ∧ out[j]? = some inst ∧
      inst.waitsFor load) ↔ (∃ n, r = .R n) ∧ Awaited insts l i := by
  obtain ⟨load, hload, hd, hcls⟩ := hl
  obtain ⟨cl, hol, hcl⟩ := h.codes l load hload
  have hgpr : load.isGprLoad ↔ ∃ n, r = .R n := by
    rw [isGprLoad_iff, hd]
    simp [hcls]
  constructor
  · rintro ⟨j, hlj, hji, load', inst', hol', hoj, hw⟩
    rw [hol] at hol'
    cases hol'
    obtain ⟨inst, hj, -, hc⟩ := h.of_out hoj
    obtain ⟨n, hn, l', hl', hmod⟩ := (hc.waits _).mp hw
    rw [hcl.barrier, barrierOf] at hmod
    split at hmod
    · rename_i hg
      exact ⟨hgpr.mp hg, j, hlj, hji, n, l', ⟨inst, hj, hn⟩, hl', hmod⟩
    · omega
  · rintro ⟨hr, j, hlj, hji, n, l', ⟨inst, hj, hn⟩, hl', hmod⟩
    obtain ⟨cj, hoj, hcj⟩ := h.codes j inst hj
    refine ⟨j, hlj, hji, _, _, hol, hoj, (hcj.waits _).mpr ⟨n, hn, l', hl', ?_⟩⟩
    rw [hmod, hcl.barrier, barrierOf, if_pos (hgpr.mpr hr)]

theorem mem_reads_of_mem_sourceRegisters {n : UInt8} (h : n ∈ sourceRegisters inst) :
    .R n ∈ inst.reads := by
  obtain ⟨op, hop, hr⟩ := mem_sourceRegisters.mp h
  exact mem_append_left _ (mem_filterMap.mpr ⟨op, hop, hr⟩)

/-- A reader of a loaded register waits by itself; only an overwriter need not. -/
theorem awaited_of_reads {n : UInt8} (hl : LoadsAt insts l (.R n)) (hlt : l < i)
    (hr : At insts i fun inst => n ∈ sourceRegisters inst) (hno : Unwritten insts l i (.R n)) :
    Awaited insts l i :=
  ⟨i, hlt, le_refl i, n, l, hr, lastLoad_of_unwritten hl hlt hno, rfl⟩

/-! ## Latencies -/

/-- Every instruction stalls at least one cycle. -/
theorem Scheduled.issue_add_le (h : Scheduled insts out) {arrival issue : Nat → Nat}
    (hi : Issues out arrival issue) {p c : Nat} (hpc : p ≤ c) (hc : c < insts.length) :
    issue p + (c - p) ≤ issue c := by
  induction c with
  | zero =>
    have : p = 0 := by omega
    simp [this]
  | succ c ih =>
    rcases Nat.lt_or_eq_of_le hpc with hlt | rfl
    · have hprev := ih (by omega) (by omega)
      obtain ⟨ctrl, ho, hcodes⟩ := h.codes c insts[c] (List.getElem?_eq_getElem (by omega))
      obtain ⟨_, ho', -⟩ := h.codes (c + 1) insts[c + 1] (List.getElem?_eq_getElem hc)
      have hstep := hi.step c _ _ ho ho'
      have hpos := hcodes.stall_pos
      have hle : issue c + ctrl.stall.toNat ≤ issue (c + 1) := by
        rw [hstep]
        exact le_max_left _ _
      omega
    · simp

/-- Issue times when nothing has to wait: the stalls add up. -/
def stallSum (out : List SassInst) (i : Nat) : Nat :=
  ((out.take i).map fun inst => inst.control.stall.toNat).sum

theorem stallSum_succ {inst : SassInst} (h : out[i]? = some inst) :
    stallSum out (i + 1) = stallSum out i + inst.control.stall.toNat := by
  unfold stallSum
  rw [take_add_one, h]
  simp

theorem stallSum_mono {p c : Nat} (h : p ≤ c) : stallSum out p ≤ stallSum out c := by
  unfold stallSum
  exact ((take_sublist_take_left h).map _).sum_le_sum (by simp)

theorem foldr_max_le {l : List Nat} {b : Nat} (h : ∀ x ∈ l, x ≤ b) : l.foldr max 0 ≤ b := by
  induction l with
  | nil => exact zero_le b
  | cons x l ih =>
    rw [foldr_cons]
    exact max_le (h x mem_cons_self) (ih fun y hy => h y (mem_cons_of_mem x hy))

/-- **The quickest run.** Data that arrives a cycle after its load makes nobody wait. -/
theorem Scheduled.issues (h : Scheduled insts out) :
    Issues out (fun l => stallSum out l + 1) (stallSum out) := by
  refine ⟨fun i inst next hi _ => ?_, fun i => Nat.lt_succ_self _⟩
  obtain ⟨_, -, -, hcodes⟩ := h.of_out hi
  have hpos := hcodes.stall_pos
  rw [stallSum_succ hi, eq_comm]
  refine max_eq_left (foldr_max_le fun t ht => ?_)
  obtain ⟨⟨load, l⟩, hmem, rfl⟩ := mem_map.mp ht
  have hl := mem_zipIdx (mem_of_mem_filter hmem)
  have hle : l ≤ i := by
    have := length_take_le (i + 1) out
    omega
  have hmono : stallSum out l ≤ stallSum out i := stallSum_mono hle
  dsimp only
  omega

/-- **Latencies are kept only by distance.** By induction on the reader: what stands
before it reads nothing too early, so it stalls one cycle. -/
theorem Scheduled.spaced (h : Scheduled insts out) (hwrap : Unwrapped insts)
    (hkept : LatenciesKept insts out) {p c : Nat} {latency : UInt8}
    (hdep : FixedDependency insts p c latency) : latency.toNat ≤ c - p := by
  induction c using Nat.strong_induction_on generalizing p latency with
  | _ c ih =>
    have hone : ∀ j < c, ∀ inst', out[j]? = some inst' → inst'.control.stall.toNat = 1 := by
      intro j hj inst' ho
      obtain ⟨inst, hi, -, hcodes⟩ := h.of_out ho
      refine hcodes.stall_one fun n hn w lat hw hat hle => ?_
      have hread : At insts j fun inst => n ∈ sourceRegisters inst := ⟨inst, hi, hn⟩
      have hfar : lat.toNat ≤ j - w := by
        obtain ⟨writer, hwriter, hd⟩ := hw.2.1
        refine ih j hj ⟨.R n, rfl, hle, hw.1, ⟨writer, hwriter, hd, (at_iff hwriter).mp hat⟩,
          ⟨inst, hi, mem_reads_of_mem_sourceRegisters hn⟩, hw.2.2⟩
      by_cases hnear : j - w < 256
      · rwa [Nat.mod_eq_of_lt hnear]
      · exact hwrap j n w hread hw (by omega) lat hat hle
    have hsum : ∀ k ≤ c, c ≤ out.length → stallSum out k = k := by
      intro k hk hc
      induction k with
      | zero => simp [stallSum]
      | succ k ihk =>
        have hlt : k < out.length := by omega
        rw [stallSum_succ (List.getElem?_eq_getElem hlt), ihk (by omega),
          hone k (by omega) _ (List.getElem?_eq_getElem hlt)]
    have hkept' := hkept _ _ h.issues p c latency hdep
    obtain ⟨r, -, -, hlt, -, ⟨reader, hc, -⟩, -⟩ := hdep
    have hlen : c < out.length := h.length_eq ▸ (List.getElem?_eq_some_iff.mp hc).1
    rw [hsum p (by omega) (by omega), hsum c (le_refl c) (by omega)] at hkept'
    omega

/-! ## The schedule -/

/-- **Scheduling.** Code paced by hand is scheduled safely. Conversely, unless some
register is read a multiple of 256 instructions late, only such code is: the stall a
reader needs is put on the reader, after which it is too late. -/
theorem schedule_safe_iff_paced (insts : List SassInst) :
    (Paced insts → ScheduledSafely insts) ∧
      (Unwrapped insts → ScheduledSafely insts → Paced insts) := by
  constructor
  · intro hp
    obtain ⟨out, hout, hs⟩ := schedule_eq_some hp.few
    refine ⟨out, hout, fun l i r hl hr hlt htouch hno => ?_, fun arrival issue hi p c lat hd => ?_⟩
    · obtain ⟨n, rfl⟩ := hp.general l i r hl hr hlt htouch hno
      refine (hs.awaited_iff hl).mpr ⟨⟨n, rfl⟩, ?_⟩
      obtain ⟨inst, hi⟩ : ∃ inst, insts[i]? = some inst := by
        rcases htouch with ⟨inst, hi, -⟩ | ⟨inst, hi, -⟩ <;> exact ⟨inst, hi⟩
      by_cases hn : n ∈ sourceRegisters inst
      · exact awaited_of_reads hl hlt ⟨inst, hi, hn⟩ hno
      · exact hp.overwritten l i n hl hlt htouch hno ⟨inst, hi, hn⟩
    · have hspaced := hp.spaced p c lat hd
      obtain ⟨r, -, -, hlt, -, ⟨reader, hc, -⟩, -⟩ := hd
      have := hs.issue_add_le hi hlt.le (List.getElem?_eq_some_iff.mp hc).1
      omega
  · rintro hwrap ⟨out, hout, hloads, hkept⟩
    have hfew : loadsBefore insts insts.length < 256 := by
      by_contra hmany
      rw [schedule_eq_none (by omega)] at hout
      cases hout
    obtain ⟨out', hout', hs⟩ := schedule_eq_some hfew
    rw [hout] at hout'
    cases hout'
    refine ⟨hfew, fun l i r hl hr hlt htouch hno => ?_, fun l i n hl hlt htouch hno _ => ?_,
      fun p c lat hd => hs.spaced hwrap hkept hd⟩
    · exact ((hs.awaited_iff hl).mp (hloads l i r hl hr hlt htouch hno)).1
    · exact ((hs.awaited_iff hl).mp (hloads l i _ hl rfl hlt htouch hno)).2

/-- A sum and an instruction that reads it at once issue one cycle apart. -/
theorem schedule_stalls_too_late : ¬ScheduledSafely [selectAddI32 0 1 2, selectAddI32 3 0 4] := by
  rintro ⟨out, hout, -, hkept⟩
  obtain ⟨out', hout', hs⟩ := schedule_eq_some
    (by decide : loadsBefore [selectAddI32 0 1 2, selectAddI32 3 0 4] 2 < 256)
  rw [hout] at hout'
  cases hout'
  have hdep : FixedDependency [selectAddI32 0 1 2, selectAddI32 3 0 4] 0 1 4 := by
    refine ⟨.R 0, rfl, by decide, by decide, ⟨_, rfl, rfl, rfl⟩, ⟨_, rfl, by decide⟩, ?_⟩
    intro j hpj hjc
    omega
  have hstall : stallSum out 0 = 0 ∧ stallSum out 1 = 1 := by
    have : schedule [selectAddI32 0 1 2, selectAddI32 3 0 4] = some
      [{ selectAddI32 0 1 2 with control := ⟨1, false, 7, 7, 0, 0⟩ },
        { selectAddI32 3 0 4 with control := ⟨3, false, 7, 7, 0, 0⟩ }] := by decide +kernel
    rw [this] at hout
    cases hout
    exact ⟨rfl, rfl⟩
  have := hkept _ _ hs.issues 0 1 4 hdep
  rw [hstall.1, hstall.2] at this
  exact absurd this (by decide)

end Concordia.Sass
