import Concordia.Tmatmul.Dataflow

/-!
# Spilling keeps the meaning of clean sequences

The generated program is followed instruction by instruction: `Sim` relates the
allocator's tables and the machine to the values of the operations. A reload is emitted
before the spill it makes necessary, so it loses the occupant of `v7`; everything else
keeps `Sim`.
-/

namespace Concordia.Tmatmul

open Concordia.Lib Concordia.Lib.Text List Function Option TMatmulCodegen

variable {V H : Type} {env : Env V H}

/-! ## Running the program so far -/

variable {i : TMatmulInstruction}

section Reached

theorem execute_append (m : Machine V H) (is js : List (Instruction V)) :
    execute env m (is ++ js) = (execute env m is).bind fun (m', ws) =>
      (execute env m' js).map fun (m'', ws') => (m'', ws ++ ws') := by
  induction is generalizing m with
  | nil =>
    simp only [nil_append, execute, bind_some]
    cases execute env m js <;> rfl
  | cons i is ih =>
    rw [cons_append, execute, execute]
    cases hi : executeInstruction env i m with
    | none => rfl
    | some m' =>
      simp only [bind_eq_bind, bind_some, ih]
      cases execute env m' is with
      | none => rfl
      | some p =>
        obtain ⟨m₁, ws⟩ := p
        cases hjs : execute env m₁ js with
        | none => simp [hjs]
        | some q => simp [hjs]

/-- The program generated so far can be printed, and takes `m₀` to `m` with these writes. -/
def Reached (env : Env V H) (g : TMatmulCodegen) (m₀ m : Machine V H) (ws : List (Write V)) :
    Prop :=
  (∀ i ∈ g.program, Printable i) ∧
    execute env m₀ (g.program.filterMap (lower env.arith)) = some (m, ws)

variable {g : TMatmulCodegen} {m₀ m m' : Machine V H} {ws : List (Write V)}

theorem Reached.addInstruction (h : Reached env g m₀ m ws) (hi : Printable i)
    {inst : Instruction V} (hlower : lower env.arith i = some inst)
    (hexec : executeInstruction env inst m = some m') :
    Reached env (g.addInstruction i) m₀ m' (ws ++ instructionWrites inst m) := by
  refine ⟨forall_mem_append.mpr ⟨h.1, fun j hj => mem_singleton.mp hj ▸ hi⟩, ?_⟩
  show execute env m₀ ((g.program ++ [i]).filterMap (lower env.arith)) = _
  rw [filterMap_append, filterMap_cons_some hlower, execute_append, h.2]
  simp [execute, hexec]

theorem Reached.addComment (h : Reached env g m₀ m ws) {text : Text} (ht : '\n' ∉ text) :
    Reached env (g.addComment text) m₀ m ws := by
  refine ⟨forall_mem_append.mpr ⟨h.1, fun j hj => mem_singleton.mp hj ▸ ht⟩, ?_⟩
  show execute env m₀
    ((g.program ++ [TMatmulInstruction.comment text]).filterMap (lower env.arith)) = _
  rw [filterMap_append]
  exact (append_nil (g.program.filterMap (lower env.arith))).symm ▸ h.2

theorem newline_not_mem_comment (k : Nat) {pre mid : String} (hpre : '\n' ∉ pre.toList)
    (hmid : '\n' ∉ mid.toList) :
    '\n' ∉ pre.toList ++ regName 7 ++ mid.toList ++ spillName k := by
  simp only [mem_append, not_or]
  exact ⟨⟨⟨hpre, (plainSymbol_regName 7).2.1⟩, hmid⟩,
    (plainSymbol_spillName k).2.1⟩

/-- The machine after a spill of `v7`. -/
def Machine.spilled (m : Machine V H) (k : Nat) : Machine V H :=
  { m with
    memory := { m.memory with
      named := update m.memory.named (spillName k) (some (m.registers 7)) } }

theorem Reached.emitSpill (h : Reached env g m₀ m ws) (k : Nat) :
    Reached env (g.emitSpill (7, spillName k)) m₀ (m.spilled k)
      (ws ++ [(.spill (spillName k), m.registers 7)]) := by
  have hlower : lower env.arith (.storeVector 7 (.custom (spillName k))) =
      some (.storeVector 7 (.spill (spillName k))) := by
    show some (Instruction.storeVector 7 (parseMemref env.arith (spillName k))) = _
    rw [parseMemref_spillName]
  have hprint : Printable (.storeVector 7 (.custom (spillName k))) :=
    ⟨by decide, plainSymbol_spillName k⟩
  exact (h.addComment (newline_not_mem_comment k (by decide) (by decide))).addInstruction hprint
    hlower rfl

theorem Reached.emitReload (h : Reached env g m₀ m ws) (k : Nat) :
    Reached env (g.emitReload (spillName k, 7)) m₀
      (m.set 7 ((m.memory.named (spillName k)).getD env.arith.zero)) ws := by
  have hlower : lower env.arith (.loadVector 7 (.custom (spillName k))) =
      some (.loadVector 7 (.spill (spillName k))) := by
    show some (Instruction.loadVector 7 (parseMemref env.arith (spillName k))) = _
    rw [parseMemref_spillName]
  have hprint : Printable (.loadVector 7 (.custom (spillName k))) :=
    ⟨by decide, plainSymbol_spillName k⟩
  have hcomment : '\n' ∉ "Reload ".toList ++ regName 7 ++ " from ".toList ++ spillName k :=
    newline_not_mem_comment k (by decide) (by decide)
  have hstep := (h.addComment hcomment).addInstruction hprint hlower rfl
  exact (append_nil ws) ▸ hstep

end Reached

/-! ## The simulation -/

/-- Both memories agree outside the spill slots. -/
def Agree (m d : Memory V H) : Prop :=
  m.host = d.host ∧ ∀ name, ¬"SPILL_".toList.isPrefixOf name → m.named name = d.named name

theorem isPrefixOf_spillName (k : Nat) : "SPILL_".toList.isPrefixOf (spillName k) := rfl

section Agree

variable {m d : Memory V H}

theorem Agree.read (h : Agree m d) {mem : MemRef V} (hmem : isSpillSlot mem = false) :
    readMemory env mem m = readMemory env mem d := by
  unfold readMemory
  cases mem with
  | param idx =>
    dsimp only
    rw [h.1]
  | spill name =>
    dsimp only
    rw [h.2 name fun ht => Bool.false_ne_true (hmem.symm.trans ht)]
  | const value => rfl

theorem Agree.write (h : Agree m d) (mem : MemRef V) (value : V) :
    Agree (writeMemory env mem value m) (writeMemory env mem value d) := by
  unfold writeMemory
  cases mem with
  | param idx =>
    dsimp only
    cases env.address idx with
    | none => exact h
    | some addr => exact ⟨congrArg (env.store addr value) h.1, h.2⟩
  | spill name =>
    refine ⟨h.1, fun n hn => ?_⟩
    dsimp only
    by_cases he : n = name
    · rw [he, update_self, update_self]
    · rw [update_of_ne he, update_of_ne he]
      exact h.2 n hn
  | const v => exact h

theorem Agree.spill (h : Agree m d) (k : Nat) (value : Option V) :
    Agree { m with named := update m.named (spillName k) value } d := by
  refine ⟨h.1, fun name hname => ?_⟩
  have hne : name ≠ spillName k := by
    rintro rfl
    exact hname (isPrefixOf_spillName k)
  dsimp only
  rw [update_of_ne hne]
  exact h.2 name hname

/-- A write elsewhere leaves the spill slots alone. -/
theorem writeMemory_spillName {mem : MemRef V} (hmem : isSpillSlot mem = false) (value : V)
    (m : Memory V H) (k : Nat) :
    (writeMemory env mem value m).named (spillName k) = m.named (spillName k) := by
  unfold writeMemory
  cases mem with
  | param idx =>
    dsimp only
    cases env.address idx <;> rfl
  | spill name =>
    refine update_of_ne ?_ _ _
    rintro rfl
    exact absurd (hmem.symm.trans (isPrefixOf_spillName k)) (by decide)
  | const v => rfl

end Agree

/-- No needed value is in slot `k`. -/
def Spare (a : RegisterAllocator) (need : List Value) (k : Nat) : Prop :=
  ∀ v ∈ need, ∀ e, lookup Prod.fst v a.spillSlots = some e → e.2 ≠ spillName k

/-- The needed values are where the allocator has them, the queued spills are of no
needed value, and the memories agree. -/
structure Sim (g : TMatmulCodegen) (m : Machine V H) (d : Dataflow V H)
    (need defined : List Value) (cur : Option Value) : Prop where
  rep : Rep g.regAllocator defined cur
  reloads : g.regAllocator.pendingReloads = []
  spills : ∀ p ∈ g.regAllocator.pendingSpills, ∃ k < g.regAllocator.nextSpillSlot,
    p = (7, spillName k) ∧ Spare g.regAllocator need k
  subset : ∀ v ∈ need, v ∈ defined
  in_reg : ∀ v ∈ need, ∀ r : Fin 8, home defined cur v = some r.val → m.registers r = d.values v
  in_slot : ∀ v ∈ need, ∀ e, lookup Prod.fst v g.regAllocator.spillSlots = some e →
    m.memory.named e.2 = some (d.values v)
  memory : Agree m.memory d.memory

section Steps

variable {g : TMatmulCodegen} {m₀ m : Machine V H} {ws : List (Write V)} {d : Dataflow V H}
  {need defined : List Value} {cur : Option Value} {v : Value}

/-- **Fetching an operand.** -/
theorem Sim.fetch (h : Sim g m d need defined cur) (hreach : Reached env g m₀ m ws)
    (hv : v ∈ defined)
    (hclean : v ∉ defined.take 7 → ∀ w ∈ cur, w ≠ v → w ∉ need) :
    ∃ r g' m', g.ensureInRegister v = (r, g') ∧ Reached env g' m₀ m' ws ∧ g'.memMap = g.memMap ∧
      Sim g' m' d need defined (occupant (defined.take 7) cur v) ∧
      home defined (occupant (defined.take 7) cur v) v = some r := by
  cases hhome : home defined cur v with
  | some r =>
    have halloc := h.rep.allocate_home hhome
    have hcur : occupant (defined.take 7) cur v = cur := by
      obtain ⟨he, -⟩ | ⟨hlate, hc, -⟩ := home_eq_some_iff.mp hhome
      · exact if_pos he
      · exact (if_neg hlate).trans hc.symm
    refine ⟨r, g, m, ?_, hreach, rfl, hcur.symm ▸ h, hcur.symm ▸ hhome⟩
    unfold ensureInRegister allocate
      emitPendingReloads
    rw [halloc]
    dsimp only
    rw [h.reloads]
    obtain ⟨program, a, memMap⟩ := g
    have hnil : a.pendingReloads = [] := h.reloads
    rw [foldl_nil, ← hnil]
  | none =>
    obtain ⟨hlate, hcur⟩ := home_eq_none_iff.mp hhome
    obtain ⟨w, hw⟩ : ∃ w, cur = some w := by
      refine ne_none_iff_exists'.mp ?_
      rintro rfl
      exact hlate (h.rep.early_of_no_cur hv)
    have hwneed : w ∉ need := hclean hlate w hw fun heq => hcur (heq ▸ hw)
    obtain ⟨a', halloc, hrep, hspills, hnext, ⟨e, he, hreloads⟩, hslots⟩ :=
      h.rep.reload hw hv hhome
    obtain ⟨k, hk, hname⟩ := h.rep.slot_name v e he
    have hocc : occupant (defined.take 7) cur v = some v := if_neg hlate
    rw [hocc]
    refine ⟨7, ({ g with regAllocator := { a' with pendingReloads := [] } } :
      TMatmulCodegen).emitReload (spillName k, 7), _, ?_,
      Reached.emitReload (g := { g with regAllocator := { a' with pendingReloads := [] } })
        hreach k, rfl, ?_, ?_⟩
    · unfold ensureInRegister allocate
        emitPendingReloads
      rw [halloc]
      dsimp only
      rw [hreloads, h.reloads, hname]
      rfl
    · -- the slot of another value is what it was
      have hold : ∀ {x e'}, x ∈ need → lookup Prod.fst x a'.spillSlots = some e' →
          lookup Prod.fst x g.regAllocator.spillSlots = some e' := by
        intro x e' hx he'
        rw [hslots] at he'
        split at he'
        · cases he'
        · split at he'
          · rename_i hwx
            exact absurd (hwx ▸ hx) hwneed
          · exact he'
      refine ⟨hrep.pending _ [], rfl, fun p hp => ?_, h.subset, fun x hx r hr => ?_,
        fun x hx e' he' => h.in_slot x hx e' (hold hx he'), h.memory⟩
      · have hp : p ∈ g.regAllocator.pendingSpills ++
            [(7, spillName g.regAllocator.nextSpillSlot)] := hspills ▸ hp
        rcases mem_append.mp hp with hp | hp
        · obtain ⟨j, hj, hpj, hother⟩ := h.spills p hp
          refine ⟨j, ?_, hpj, fun x hx e' he' => hother x hx e' (hold hx he')⟩
          show j < a'.nextSpillSlot
          omega
        · refine ⟨g.regAllocator.nextSpillSlot, ?_, mem_singleton.mp hp,
            fun x hx e' he' => h.rep.slot_ne_next (hold hx he')⟩
          show _ < a'.nextSpillSlot
          omega
      · by_cases hxv : x = v
        · subst hxv
          rw [home_of_late hlate, if_pos rfl] at hr
          have hr7 : r = 7 := Fin.ext (some.inj hr).symm
          have hval := h.in_slot x hx e he
          rw [hname] at hval
          rw [hr7, hval, getD_some, Machine.set_registers_self]
        · -- the others are early, in registers below `v7`
          obtain ⟨hearly, hidx⟩ := (home_eq_some_iff.mp hr).resolve_right fun hc =>
            hxv (some.inj hc.2.1).symm
          have hr7 : r ≠ 7 := by
            rintro rfl
            exact absurd hidx (idxOf_lt_seven hearly).ne
          rw [Machine.set_registers_of_ne _ hr7]
          exact h.in_reg x hx r ((home_of_early hearly).trans (congrArg some hidx))
    · rw [home_of_late hlate, if_pos rfl]

theorem userWrites_append (ws ws' : List (Write V)) :
    userWrites (ws ++ ws') = userWrites ws ++ userWrites ws' := filter_append ..

theorem userWrites_spill (ws : List (Write V)) (k : Nat) (value : V) :
    userWrites (ws ++ [(.spill (spillName k), value)]) = userWrites ws := by
  rw [userWrites_append]
  exact append_nil _

/-- A spill into a slot that no needed value is in. -/
theorem Sim.spilled (h : Sim g m d need defined cur) {k : Nat}
    (hother : Spare g.regAllocator need k) :
    Sim (g.emitSpill (7, spillName k)) (m.spilled k) d need defined cur := by
  refine ⟨h.rep, h.reloads, h.spills, h.subset, h.in_reg, fun v hv e he => ?_, h.memory.spill k _⟩
  show update m.memory.named (spillName k) _ e.2 = _
  rw [update_of_ne (hother v hv e he)]
  exact h.in_slot v hv e he

theorem Sim.emitSpillList (h : Sim g m d need defined cur) (hreach : Reached env g m₀ m ws)
    {ps : List (Nat × Text)} (hps : ∀ p ∈ ps, ∃ k < g.regAllocator.nextSpillSlot,
      p = (7, spillName k) ∧ Spare g.regAllocator need k) :
    ∃ m' ws', Reached env (ps.foldl emitSpill g) m₀ m' ws' ∧
      userWrites ws' = userWrites ws ∧ m'.registers = m.registers ∧
      Sim (ps.foldl emitSpill g) m' d need defined cur ∧
      (ps.foldl emitSpill g).regAllocator = g.regAllocator ∧
      (ps.foldl emitSpill g).memMap = g.memMap := by
  induction ps generalizing g m ws with
  | nil => exact ⟨m, ws, hreach, rfl, rfl, h, rfl, rfl⟩
  | cons p ps ih =>
    obtain ⟨k, -, rfl, hother⟩ := hps p mem_cons_self
    obtain ⟨m', ws', hreach', hws, hregs, hsim, halloc, hmap⟩ := ih (h.spilled hother)
      (hreach.emitSpill k) fun q hq => hps q (mem_cons_of_mem _ hq)
    exact ⟨m', ws', hreach', hws.trans (userWrites_spill ws k _), hregs, hsim, halloc, hmap⟩

/-- **Emitting the queue** of spills. -/
theorem Sim.emitSpills (h : Sim g m d need defined cur) (hreach : Reached env g m₀ m ws) :
    ∃ m' ws', Reached env g.emitPendingSpills m₀ m' ws' ∧ userWrites ws' = userWrites ws ∧
      m'.registers = m.registers ∧ Sim g.emitPendingSpills m' d need defined cur ∧
      g.emitPendingSpills.regAllocator.pendingSpills = [] ∧
      g.emitPendingSpills.memMap = g.memMap := by
  have hempty : Sim { g with regAllocator := { g.regAllocator with pendingSpills := [] } } m d need
      defined cur :=
    ⟨h.rep.pending [] _, h.reloads, nofun, h.subset, h.in_reg, h.in_slot, h.memory⟩
  have hreach₀ : Reached env { g with
      regAllocator := { g.regAllocator with pendingSpills := [] } } m₀ m ws := hreach
  obtain ⟨m', ws', hreach', hws, hregs, hsim, halloc, hmap⟩ := hempty.emitSpillList hreach₀ h.spills
  refine ⟨m', ws', hreach', hws, hregs, hsim, ?_, hmap⟩
  exact congrArg RegisterAllocator.pendingSpills halloc

theorem no_spills {P : Nat × Text → Prop} (h : g.regAllocator.pendingSpills = []) :
    ∀ p ∈ g.regAllocator.pendingSpills, P p := by
  rw [h]
  nofun

/-- A program whose queue is empty. -/
theorem emitPendingSpills_nil (h : g.regAllocator.pendingSpills = []) :
    g.emitPendingSpills = g := by
  obtain ⟨program, a, memMap⟩ := g
  have hnil : a.pendingSpills = [] := h
  unfold emitPendingSpills
  dsimp only
  rw [hnil, foldl_nil, ← hnil]

/-- From `g`, `m` and `ws` on, register `r` was made ready for `v`. -/
structure Ready (env : Env V H) (m₀ : Machine V H) (d : Dataflow V H) (need defined : List Value)
    (v : Value) (g : TMatmulCodegen) (m : Machine V H) (ws : List (Write V)) (r : Nat)
    (g' : TMatmulCodegen) (m' : Machine V H) (ws' : List (Write V)) : Prop where
  reached : Reached env g' m₀ m' ws'
  writes : userWrites ws' = userWrites ws
  registers : m'.registers = m.registers
  memMap : g'.memMap = g.memMap
  sim : Sim g' m' d need (defined ++ [v]) (newOccupant defined v)
  home : home (defined ++ [v]) (newOccupant defined v) v = some r
  spills : g'.regAllocator.pendingSpills = []

/-- **The register of a result.** The occupant of `v7` is stored before it is overwritten. -/
theorem Sim.allocateResult (h : Sim g m d need defined cur) (hreach : Reached env g m₀ m ws)
    (hv : v ∉ defined) : ∃ r g' m' ws', g.allocateResult v = (r, g') ∧
      Ready env m₀ d need defined v g m ws r g' m' ws' := by
  obtain ⟨m₁, ws₁, hreach₁, hws₁, hregs₁, h₁, hnil, hmap⟩ := h.emitSpills hreach
  have hne : ∀ {x}, x ∈ need → v ≠ x := fun hx he => hv (he ▸ h.subset _ hx)
  have hsub : ∀ x ∈ need, x ∈ defined ++ [v] := fun x hx => mem_append_left _ (h.subset x hx)
  unfold TMatmulCodegen.allocateResult TMatmulCodegen.allocate
  by_cases hlen : defined.length < 8
  · have hcur := h.rep.no_cur_of_length hlen
    obtain ⟨a', halloc, hrep, hspills, -, hreloads, hslots⟩ := h₁.rep.fresh_free hlen hv
    rw [halloc]
    dsimp only
    rw [emitPendingSpills_nil (hspills.trans hnil)]
    refine ⟨defined.length, _, m₁, ws₁, rfl, hreach₁, hws₁, hregs₁, hmap, ?_, ?_,
      hspills.trans hnil⟩
    · refine ⟨hrep, hreloads.trans h₁.reloads, no_spills (hspills.trans hnil), hsub,
        fun x hx r hr => ?_, fun x hx e he => h₁.in_slot x hx e (hslots ▸ he), h₁.memory⟩
      rw [home_fresh hlen hv, if_neg (hne hx)] at hr
      exact h₁.in_reg x hx r (hcur ▸ hr)
    · rw [home_fresh hlen hv, if_pos rfl]
  · obtain ⟨w, hw⟩ := isSome_iff_exists.mp (h.rep.cur_some (by omega))
    obtain ⟨a', halloc, hrep, hspills, hnext, hreloads, hslots⟩ := h₁.rep.fresh_full hw hv
    have hwlate := h.rep.late_of_cur hw
    rw [halloc]
    dsimp only
    have hvlate : v ∉ defined.take 7 := fun he => hv (mem_of_mem_take he)
    have hocc : newOccupant defined v = some v := if_neg (by omega)
    generalize hg₁ : g.emitPendingSpills = g₁ at *
    have hemit : ({ g₁ with regAllocator := a' } : TMatmulCodegen).emitPendingSpills =
        ({ g₁ with regAllocator := { a' with pendingSpills := [] } } : TMatmulCodegen).emitSpill
          (7, spillName g₁.regAllocator.nextSpillSlot) := by
      unfold emitPendingSpills
      dsimp only
      rw [hspills, hnil]
      rfl
    rw [hemit]
    refine ⟨7, _, m₁.spilled g₁.regAllocator.nextSpillSlot, _, rfl,
      Reached.emitSpill
        (g := { g₁ with regAllocator := { a' with pendingSpills := [] } }) hreach₁ _,
      (userWrites_spill ws₁ _ _).trans hws₁, hregs₁, hmap, ?_, ?_, rfl⟩
    · rw [hocc]
      refine ⟨hrep.pending [] _, hreloads.trans h₁.reloads, nofun, hsub, fun x hx r hr => ?_,
        fun x hx e he => ?_, h₁.memory.spill _ _⟩
      · -- the needed values in registers are the early ones
        rw [home_append (by omega)] at hr
        obtain ⟨hearly, hidx⟩ := (home_eq_some_iff.mp hr).resolve_right fun hc =>
          hne hx (some.inj hc.2.1)
        exact h₁.in_reg x hx r ((home_of_early hearly).trans (congrArg some hidx))
      · have hslot : lookup Prod.fst x a'.spillSlots = some e := he
        rw [hslots, if_neg (hne hx).symm] at hslot
        show update m₁.memory.named _ (some (m₁.registers 7)) e.2 = _
        split at hslot
        · -- the old occupant is stored from `v7`
          rename_i hwx
          subst hwx
          obtain rfl := some.inj hslot
          have hhome : home defined cur w = some ((7 : Fin 8) : Nat) := by
            rw [home_of_late hwlate, if_pos hw]
            rfl
          rw [update_self, h₁.in_reg w hx 7 hhome]
        · rw [update_of_ne (h₁.rep.slot_ne_next hslot)]
          exact h₁.in_slot x hx e hslot
    · rw [hocc, home_append (by omega), home_of_late hvlate, if_pos rfl]

/-- An instruction computes the value of a result into its register. -/
theorem Sim.define (h : Sim g m d need defined cur) (hnil : g.regAllocator.pendingSpills = [])
    {dst : Fin 8} (hdst : home defined cur v = some dst.val) (hv : v ∈ defined)
    {need' : List Value} (hneed : ∀ u ∈ need', u ≠ v → u ∈ need) {x y : V}
    (hxy : v ∈ need' → x = y) (i : TMatmulInstruction) :
    Sim (g.addInstruction i) (m.set dst x) { d with values := update d.values v y } need'
      defined cur := by
  refine ⟨h.rep, h.reloads, no_spills hnil, fun u hu => ?_, fun u hu r hr => ?_,
    fun u hu e he => ?_, h.memory⟩
  · by_cases huv : u = v
    · exact huv ▸ hv
    · exact h.subset u (hneed u hu huv)
  · by_cases huv : u = v
    · subst huv
      have hrd : r = dst := Fin.ext (some.inj (hr.symm.trans hdst))
      show (m.set dst x).registers r = update d.values u y u
      rw [hrd, Machine.set_registers_self, hxy hu, update_self]
    · have hrd : r ≠ dst := by
        rintro rfl
        exact huv (home_inj hr hdst)
      show (m.set dst x).registers r = update d.values v y u
      rw [Machine.set_registers_of_ne _ hrd, h.in_reg u (hneed u hu huv) r hr,
        update_of_ne huv]
  · have huv : u ≠ v := by
      rintro rfl
      have hslot := (h.rep.slot u).mp (isSome_iff_exists.mpr ⟨e, he⟩)
      rw [hdst] at hslot
      cases hslot.2
    show m.memory.named e.2 = some (update d.values v y u)
    rw [update_of_ne huv]
    exact h.in_slot u (hneed u hu huv) e he

theorem isSpillSlot_parseMemref (f : Arith V) {name : Text} (h : UserName name) :
    isSpillSlot (parseMemref f name) = false := by
  have hspill : "SPILL_".toList.isPrefixOf name = false := Bool.eq_false_iff.mpr h.2
  unfold parseMemref
  dsimp only
  rw [h.1.1.trim_eq]
  split
  · rfl
  · split
    · exact hspill
    · split
      · rfl
      · split
        · rfl
        · exact hspill

end Steps

/-! ## Operations -/

section Operations

variable {g : TMatmulCodegen} {m₀ m : Machine V H} {ws : List (Write V)} {d : Dataflow V H}
  {defined : List Value} {cur : Option Value}

/-- The location a symbol denotes in the assembly. -/
def TMatmulCodegen.memRef (g : TMatmulCodegen) (f : Arith V) (symbol : Text) : MemRef V :=
  parseMemref f (g.location symbol).display

/-- After an operation the program has made its writes and the simulation goes on. -/
def StepOk (env : Env V H) (g : TMatmulCodegen) (m₀ : Machine V H) (ws : List (Write V))
    (d : Dataflow V H) (defined : List Value) (cur : Option Value) (op : Operation)
    (ops : List Operation) : Prop :=
  ∃ m' ws', Reached env (g.emitOperation op) m₀ m' ws' ∧
    userWrites ws' = userWrites ws ++ op.writes (g.memRef env.arith) d ∧
    Sim (g.emitOperation op) m' (op.eval env (g.memRef env.arith) d) (needed ops)
      (defined ++ op.result.toList) (occupantAfter defined cur op) ∧
    (g.emitOperation op).regAllocator.pendingSpills = [] ∧ (g.emitOperation op).memMap = g.memMap

theorem location_congr {g g' : TMatmulCodegen} (h : g'.memMap = g.memMap) (symbol : Text) :
    g'.location symbol = g.location symbol := by
  unfold location
  rw [h]

variable {ops : List Operation}

/-- An operation with a result ends in the instruction that computes it. -/
theorem StepOk.of_result {op : Operation} {result : Value} {g₁ g' : TMatmulCodegen}
    {m₁ m' : Machine V H} {ws' : List (Write V)} {r : Nat} {x y : V} {inst : Instruction V}
    (hres : op.result = some result) (hmap : g₁.memMap = g.memMap)
    (h : Ready env m₀ d (needed (op :: ops)) defined result g₁ m₁ ws r g' m' ws')
    (hemit : g.emitOperation op = g'.addInstruction i) (hprint : Printable i)
    (hlower : lower env.arith i = some inst)
    (hexec : executeInstruction env inst m' = some (m'.set ⟨r, home_lt h.home⟩ x))
    (hquiet : instructionWrites inst m' = []) (hwrites : op.writes (g.memRef env.arith) d = [])
    (heval : op.eval env (g.memRef env.arith) d =
      { d with values := update d.values result y }) (hxy : result ∈ needed ops → x = y) :
    StepOk env g m₀ ws d defined cur op ops := by
  have hdst : home (defined ++ [result]) (newOccupant defined result) result =
      some (⟨r, home_lt h.home⟩ : Fin 8).val := h.home
  have hdefine := h.sim.define h.spills hdst (by simp)
    (fun u hu hne => live_of_ne hres hu hne) hxy i
  have hcur : occupantAfter defined cur op = newOccupant defined result := by
    unfold occupantAfter
    rw [hres]
    rfl
  unfold StepOk
  rw [hemit, hwrites, heval, hcur, hres]
  refine ⟨_, _, h.reached.addInstruction hprint hlower hexec, ?_, hdefine, h.spills,
    h.memMap.trans hmap⟩
  rw [hquiet, append_nil, append_nil, h.writes]

theorem Sim.ldv {result : Value} {symbol : Text}
    (h : Sim g m d (needed (.ldv result symbol :: ops)) defined cur)
    (hreach : Reached env g m₀ m ws) (hv : result ∉ defined)
    (hsym : UserName (g.location symbol).display) :
    StepOk env g m₀ ws d defined cur (.ldv result symbol) ops := by
  obtain ⟨r, g', m', ws', halloc, hready⟩ := h.allocateResult hreach hv
  have hr := home_lt hready.home
  refine StepOk.of_result (i := .loadVector r (g.location symbol)) rfl rfl hready ?_ ⟨hr, hsym.1⟩
    rfl (executeInstruction_load m' hr _) rfl rfl rfl fun _ => ?_
  · rw [emitOperation, halloc, ← location_congr hready.memMap symbol]
  · exact hready.sim.memory.read (isSpillSlot_parseMemref env.arith hsym)

theorem Sim.unary {f : UnOp} {result operand : Value}
    (h : Sim g m d (needed (.unary f result operand :: ops)) defined cur)
    (hreach : Reached env g m₀ m ws) (hop : operand ∈ defined) (hv : result ∉ defined)
    (hclean : FetchClean (defined.take 7) (needed (.unary f result operand :: ops)) cur
      [operand]) : StepOk env g m₀ ws d defined cur (.unary f result operand) ops := by
  obtain ⟨src, g₁, m₁, hfetch, hreach₁, hmap₁, h₁, hsrc⟩ := h.fetch hreach hop hclean.1
  obtain ⟨r, g', m', ws', halloc, hready⟩ := h₁.allocateResult hreach₁ hv
  have hr := home_lt hready.home
  refine StepOk.of_result (i := .unary f r src) rfl hmap₁ hready ?_ ⟨hr, home_lt hsrc⟩ rfl
    (executeInstruction_unary m' hr (home_lt hsrc) f) rfl rfl rfl fun hneeded => ?_
  · rw [emitOperation, hfetch]
    dsimp only
    rw [halloc]
  · have hneed : operand ∈ needed (.unary f result operand :: ops) :=
      live_of_source rfl hneeded (mem_singleton.mpr rfl)
    rw [hready.registers, h₁.in_reg operand hneed ⟨src, home_lt hsrc⟩ hsrc]

/-- Between the fetches of a needed operation the first operand stays in its register. -/
theorem home_after_fetch {early_cur : Option Value} {a b : Value} {r : Nat} {need : List Value}
    (ha : home defined early_cur a = some r) (hneed : a ∈ need)
    (hclean : b ∉ defined.take 7 → ∀ w ∈ early_cur, w ≠ b → w ∉ need) :
    home defined (occupant (defined.take 7) early_cur b) a = some r := by
  rw [← ha]
  refine home_congr fun hlate => ?_
  have hcur : early_cur = some a := ((home_eq_some_iff.mp ha).resolve_left fun he => hlate he.1).2.1
  unfold occupant
  split
  · exact Iff.rfl
  · rename_i hb
    have hab : a = b := by
      by_contra hne
      exact hclean hb a hcur hne hneed
    rw [hcur, hab]

theorem Sim.binary {f : BinOp} {result lhs rhs : Value}
    (h : Sim g m d (needed (.binary f result lhs rhs :: ops)) defined cur)
    (hreach : Reached env g m₀ m ws) (hlhs : lhs ∈ defined) (hrhs : rhs ∈ defined)
    (hv : result ∉ defined)
    (hclean : FetchClean (defined.take 7) (needed (.binary f result lhs rhs :: ops)) cur
      [lhs, rhs]) : StepOk env g m₀ ws d defined cur (.binary f result lhs rhs) ops := by
  obtain ⟨src₁, g₁, m₁, hfetch₁, hreach₁, hmap₁, h₁, hsrc₁⟩ := h.fetch hreach hlhs hclean.1
  obtain ⟨src₂, g₂, m₂, hfetch₂, hreach₂, hmap₂, h₂, hsrc₂⟩ := h₁.fetch hreach₁ hrhs hclean.2.1
  obtain ⟨r, g', m', ws', halloc, hready⟩ := h₂.allocateResult hreach₂ hv
  have hr := home_lt hready.home
  refine StepOk.of_result (i := .binary f r src₁ src₂) rfl (hmap₂.trans hmap₁) hready ?_
    ⟨hr, home_lt hsrc₁, home_lt hsrc₂⟩ rfl
    (executeInstruction_binary m' hr (home_lt hsrc₁) (home_lt hsrc₂) f) rfl rfl rfl
    fun hneeded => ?_
  · rw [emitOperation, hfetch₁]
    dsimp only
    rw [hfetch₂]
    dsimp only
    rw [halloc]
  · have hneed : ∀ u ∈ [lhs, rhs], u ∈ needed (.binary f result lhs rhs :: ops) :=
      fun u hu => live_of_source rfl hneeded hu
    have hlhs' := home_after_fetch hsrc₁ (hneed lhs (by simp)) hclean.2.1
    rw [hready.registers, h₂.in_reg lhs (hneed lhs (by simp)) ⟨src₁, home_lt hsrc₁⟩ hlhs',
      h₂.in_reg rhs (hneed rhs (by simp)) ⟨src₂, home_lt hsrc₂⟩ hsrc₂]

theorem Sim.sv {value : Value} {symbol : Text}
    (h : Sim g m d (needed (.sv value symbol :: ops)) defined cur)
    (hreach : Reached env g m₀ m ws) (hv : value ∈ defined)
    (hsym : UserName (g.location symbol).display)
    (hclean : FetchClean (defined.take 7) (needed (.sv value symbol :: ops)) cur [value]) :
    StepOk env g m₀ ws d defined cur (.sv value symbol) ops := by
  obtain ⟨r, g₁, m₁, hfetch, hreach₁, hmap₁, h₁, hhome⟩ := h.fetch hreach hv hclean.1
  obtain ⟨m₂, ws₂, hreach₂, hws₂, hregs, h₂, hnil, hmap₂⟩ := h₁.emitSpills hreach₁
  have hr := home_lt hhome
  have hmap : g₁.emitPendingSpills.memMap = g.memMap := hmap₂.trans hmap₁
  have hneed : value ∈ needed (.sv value symbol :: ops) :=
    live_of_effect rfl (mem_singleton.mpr rfl)
  have hval : m₂.registers ⟨r, hr⟩ = d.values value := h₂.in_reg value hneed ⟨r, hr⟩ hhome
  have hprint : Printable (.storeVector r (g.location symbol)) := ⟨hr, hsym.1⟩
  have hstep := hreach₂.addInstruction hprint rfl (executeInstruction_store m₂ hr _)
  rw [instructionWrites_store hr, hval] at hstep
  have hemit : g.emitOperation (.sv value symbol) =
      g₁.emitPendingSpills.addInstruction (.storeVector r (g.location symbol)) := by
    rw [emitOperation, hfetch, ← location_congr hmap]
  have hkeep : userWrites [(g.memRef env.arith symbol, d.values value)] =
      [(g.memRef env.arith symbol, d.values value)] := by
    simp [userWrites, memRef, isSpillSlot_parseMemref env.arith hsym]
  unfold StepOk
  rw [hemit]
  refine ⟨_, _, hstep, ?_, ?_, hnil, hmap⟩
  · rw [userWrites_append, hws₂]
    exact congrArg _ hkeep
  · show Sim _ _ _ _ (defined ++ []) (occupant (defined.take 7) cur value)
    rw [append_nil]
    have hsub : ∀ u ∈ needed ops, u ∈ needed (.sv value symbol :: ops) :=
      fun u hu => live_of_live_effect rfl hu
    refine ⟨h₂.rep, h₂.reloads, no_spills hnil, fun u hu => h₂.subset u (hsub u hu),
      fun u hu => h₂.in_reg u (hsub u hu), fun u hu e he => ?_, ?_⟩
    · obtain ⟨k, -, hname⟩ := h₂.rep.slot_name u e he
      have hslot := h₂.in_slot u (hsub u hu) e he
      rw [hname] at hslot ⊢
      exact (writeMemory_spillName (isSpillSlot_parseMemref env.arith hsym) _ _ k).trans hslot
    · exact h₂.memory.write _ _

/-- **One operation** of a clean sequence. -/
theorem Sim.step {op : Operation} (h : Sim g m d (needed (op :: ops)) defined cur)
    (hreach : Reached env g m₀ m ws) (hdef : DefinedOnce defined (op :: ops))
    (hscalar : op.isScalar) (hsym : ∀ s ∈ op.symbol, UserName (g.location s).display)
    (hclean : FetchClean (defined.take 7) (needed (op :: ops)) cur op.operands) :
    StepOk env g m₀ ws d defined cur op ops := by
  obtain ⟨hops, hres, -⟩ := hdef
  cases op with
  | ldv result symbol => exact h.ldv hreach (hres result rfl) (hsym symbol rfl)
  | sv value symbol =>
    exact h.sv hreach (hops value (mem_singleton.mpr rfl)) (hsym symbol rfl) hclean
  | binary f result lhs rhs =>
    exact h.binary hreach (hops lhs mem_cons_self)
      (hops rhs (mem_cons_of_mem _ (mem_singleton.mpr rfl))) (hres result rfl) hclean
  | unary f result operand =>
    exact h.unary hreach (hops operand (mem_singleton.mpr rfl)) (hres result rfl) hclean
  | tmatmulImport | tmatmulGo | tmatmulExport | matmul => cases hscalar

/-- **A whole sequence**, from any point of a clean one. -/
theorem Sim.run (h : Sim g m d (needed ops) defined cur) (hreach : Reached env g m₀ m ws)
    (hdef : DefinedOnce defined ops) (hscalar : ∀ op ∈ ops, op.isScalar)
    (hsym : ∀ op ∈ ops, ∀ s ∈ op.symbol, UserName (g.location s).display)
    (hclean : Clean defined cur ops) :
    ∃ m' ws', Reached env (g.emitOperations ops) m₀ m' ws' ∧
      userWrites ws' = userWrites ws ++ dataflowWrites env (g.memRef env.arith) d ops := by
  induction ops generalizing g m ws d defined cur with
  | nil => exact ⟨m, ws, hreach, (append_nil _).symm⟩
  | cons op ops ih =>
    obtain ⟨m₁, ws₁, hreach₁, hws₁, h₁, -, hmap⟩ := h.step hreach hdef (hscalar op mem_cons_self)
      (hsym op mem_cons_self) hclean.1
    have hloc : ∀ s, (g.emitOperation op).location s = g.location s := location_congr hmap
    have hmem : (g.emitOperation op).memRef env.arith = g.memRef env.arith := by
      funext s
      unfold memRef
      rw [hloc]
    obtain ⟨m', ws', hreach', hws'⟩ := ih h₁ hreach₁ hdef.2.2
      (fun o ho => hscalar o (mem_cons_of_mem op ho))
      (fun o ho s hs => (hloc s).symm ▸ hsym o (mem_cons_of_mem op ho) s hs) hclean.2
    refine ⟨m', ws', hreach', ?_⟩
    rw [hws', hws₁, hmem, append_assoc]
    rfl

end Operations

/-! ## The generated assembly -/

/-- The assembly of the operations, parsed and executed for one element, writes what the
operations do. -/
def Preserves (env : Env V H) (memMap : List (Text × MemoryLocation)) (ops : List Operation)
    (m : Machine V H) (values : Value → V) : Prop :=
  let g : TMatmulCodegen := { new with memMap := memMap }
  ∃ m' ws, execute env m (parseAssembly env.arith (g.emitOperations ops).getAssembly) =
      some (m', ws) ∧
    userWrites ws = dataflowWrites env (g.memRef env.arith) ⟨values, m.memory⟩ ops

/-- **Spilling preserves the meaning** of every clean sequence of operations. -/
theorem emitOperations_preserves (env : Env V H) (memMap : List (Text × MemoryLocation))
    (ops : List Operation) (hdef : DefinedOnce [] ops) (hscalar : ∀ op ∈ ops, op.isScalar)
    (hsym : ∀ op ∈ ops, ∀ s ∈ op.symbol,
      UserName (({ new with memMap := memMap } : TMatmulCodegen).location s).display)
    (hclean : Clean [] none ops) (m : Machine V H) (values : Value → V) :
    Preserves env memMap ops m values := by
  have hsim : Sim { new with memMap := memMap } m ⟨values, m.memory⟩ (needed ops) []
      none := by
    have hnone : ∀ v, v ∉ needed ops := fun v hv => not_mem_nil (mem_of_needed hdef hv)
    exact ⟨rep_new, rfl, nofun, fun v hv => absurd hv (hnone v), fun v hv => absurd hv (hnone v),
      fun v hv => absurd hv (hnone v), rfl, fun _ _ => rfl⟩
  have hreach : Reached env { new with memMap := memMap } m m [] := ⟨nofun, rfl⟩
  obtain ⟨m', ws, ⟨hprint, hexec⟩, hws⟩ := hsim.run hreach hdef hscalar hsym hclean
  refine ⟨m', ws, ?_, hws⟩
  rw [getAssembly, parseAssembly_toAssembly env.arith hprint]
  exact hexec

/-! ## Nine values -/

/-- Arithmetic on numbers, for examples. -/
def natArith : Arith Nat where
  zero := 0
  one := 1
  parse := fun _ => none
  fromBits := id
  add := (· + ·)
  sub := (· - ·)
  mul := (· * ·)
  div := (· / ·)
  neg := id
  exp := id
  isZero := (· = 0)
  isPositive := (0 < ·)

/-- Nine parameters at different addresses, each holding its address. -/
def natEnv : Env Nat Unit where
  arith := natArith
  load := fun addr _ => addr
  store := fun _ _ host => host
  params := (List.range 9).map fun i => ⟨100 * (i + 1), 4⟩
  byteOffset := 0
  rmsValue := 1

/-- Load nine values: the ninth spills the eighth. -/
def loadNine : List Operation :=
  ["%0", "%1", "%2", "%3", "%4", "%5", "%6", "%7", "%8"].zipIdx.map fun (v, i) =>
    .ldv v ("PARAM_".toList ++ decimal i)

/-- The ninth is written before the eighth is reloaded. -/
theorem emitOperations_preserves_nine :
    Preserves natEnv [] (loadNine ++ [.sv "%8" "A".toList, .sv "%7" "B".toList])
      ⟨fun _ => 0, ⟨fun _ => none, ()⟩⟩ (fun _ => 0) :=
  emitOperations_preserves natEnv [] _ (by decide +kernel) (by decide +kernel) (by decide +kernel)
    (by decide +kernel) _ _

/-- The eighth is reloaded while the ninth is still needed: the reload comes before the
spill, so both are written with the eighth's value. -/
theorem not_preserves_nine :
    ¬Preserves natEnv [] (loadNine ++ [.sv "%7" "A".toList, .sv "%8" "B".toList])
      ⟨fun _ => 0, ⟨fun _ => none, ()⟩⟩ (fun _ => 0) := by
  rintro ⟨m', ws, hexec, hws⟩
  have hwrites := congrArg (Option.map fun p => userWrites p.2) hexec
  rw [map_some, hws] at hwrites
  revert hwrites
  decide +kernel

end Concordia.Tmatmul
