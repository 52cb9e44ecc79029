import Concordia.Lib.Align
import Concordia.Lib.Fallible
import Concordia.Lib.Overwrite
import Concordia.Lib.Text

/-!
# The layout of saved SASS registers

`build_sass_live_state_layout` gives each register name a slot of one or eight
bytes behind a fixed header. Names are told apart by their spelling, trimmed and
in upper case. The slots are always disjoint, aligned and inside the record
(`Packed`); a register has one slot exactly when the names spell it one way,
since `R1`, `R01` and `R+1` are all the same number.
-/

namespace Concordia.Instrument

open Concordia.Lib List Function

def sassLiveStateMagic : UInt32 := 0x43535353

def sassLiveStateVersion : UInt16 := 1

def sassLiveStateHeaderBytes : Nat := 64

structure SassLiveRegisterSlot where
  name : Text
  offset : Nat
  bytes : Nat
  deriving DecidableEq, Repr

structure SassLiveStateLayout where
  magic : UInt32
  version : UInt16
  headerBytes : Nat
  recordBytes : Nat
  slots : List SassLiveRegisterSlot
  deriving DecidableEq, Repr

/-- A slice of string slices: sixteen bytes each, in one allocation. -/
structure Names where
  list : List Text
  length_le : 16 * list.length ≤ isizeMax

/-- `register_number`. -/
def registerNumber (text : Text) : Option Nat :=
  if text = [] then none else Text.parseUnsigned (2 ^ 32) text

/-- `sass_live_register_bytes`. -/
def sassLiveRegisterBytes (name : Text) : Option Nat :=
  match ['U', 'R'].isPrefixOf? name with
  | some rest => (registerNumber rest).map fun _ => 8
  | none =>
  match ['U', 'P'].isPrefixOf? name with
  | some rest => (registerNumber rest).map fun _ => 1
  | none =>
  match ['R'].isPrefixOf? name with
  | some rest => (registerNumber rest).map fun _ => 8
  | none =>
  match ['P'].isPrefixOf? name with
  | some rest => (registerNumber rest).map fun _ => 1
  | none => none

/-- `raw.trim().to_ascii_uppercase()`. -/
def spelling (raw : Text) : Text := (Text.trim raw).map Char.toUpper

/-- `canonical_sass_live_register`. -/
def canonicalSassLiveRegister (raw : Text) : Except String Text :=
  if (sassLiveRegisterBytes (spelling raw)).isSome then .ok (spelling raw)
  else .error s!"unsupported SASS live register '{String.ofList raw}'"

/-- `align_up` on `usize`. -/
def alignUp (value align : Nat) : Nat := roundUp value (max align 1) % 2 ^ 64

/-- `saturating_add` on `usize`. -/
def saturatingAdd (a b : Nat) : Nat := min (a + b) (2 ^ 64 - 1)

/-- The variables of the loop. -/
structure Placement where
  slots : List SassLiveRegisterSlot
  seen : List Text
  offset : Nat

def Placement.start : Placement where
  slots := []
  seen := []
  offset := sassLiveStateHeaderBytes

/-- One name. -/
def Placement.place (p : Placement) (raw : Text) : Except String Placement := do
  let name ← canonicalSassLiveRegister raw
  if name ∈ p.seen then
    .ok p
  else
    match sassLiveRegisterBytes name with
    | none => .error s!"unsupported SASS live register '{String.ofList raw}'"
    | some bytes =>
      let offset := alignUp p.offset (min bytes 8)
      .ok { slots := p.slots ++ [{ name := name, offset := offset, bytes := bytes }]
            seen := p.seen ++ [name]
            offset := saturatingAdd offset bytes }

/-- `build_sass_live_state_layout`. -/
def buildSassLiveStateLayout (registers : Names) : Except String SassLiveStateLayout := do
  let p ← registers.list.foldlM Placement.place .start
  .ok { magic := sassLiveStateMagic
        version := sassLiveStateVersion
        headerBytes := sassLiveStateHeaderBytes
        recordBytes := alignUp p.offset 8
        slots := p.slots }

/-! ## Architectural registers -/

inductive RegisterClass where
  | r
  | ur
  | p
  | up
  deriving DecidableEq, Repr

open RegisterClass

/-- Class and number of a register name. -/
def architectural : Text → Option (RegisterClass × Nat)
  | 'U' :: 'R' :: rest => (registerNumber rest).map (.ur, ·)
  | 'U' :: 'P' :: rest => (registerNumber rest).map (.up, ·)
  | 'R' :: rest => (registerNumber rest).map (.r, ·)
  | 'P' :: rest => (registerNumber rest).map (.p, ·)
  | _ => none

def RegisterClass.bytes : RegisterClass → Nat
  | .r | .ur => 8
  | .p | .up => 1

/-- The size of a slot is that of the register's class. -/
theorem sassLiveRegisterBytes_eq (name : Text) :
    sassLiveRegisterBytes name = (architectural name).map fun reg => reg.1.bytes := by
  unfold architectural
  split
  · simp [sassLiveRegisterBytes, List.isPrefixOf?, bytes, comp_def]
  · simp [sassLiveRegisterBytes, List.isPrefixOf?, bytes, comp_def]
  · simp [sassLiveRegisterBytes, List.isPrefixOf?, bytes, comp_def]
  · simp [sassLiveRegisterBytes, List.isPrefixOf?, bytes, comp_def]
  · rename_i hur hup hr hp
    have hnone : ∀ start : Text, (∀ rest, name ≠ start ++ rest) →
        start.isPrefixOf? name = none := by
      intro start hne
      cases hpre : start.isPrefixOf? name with
      | none => rfl
      | some rest => exact absurd (isPrefixOf?_eq_some_iff_append_eq.mp hpre).symm (hne rest)
    rw [sassLiveRegisterBytes, hnone _ hur, hnone _ hup, hnone _ hr, hnone _ hp]
    rfl

theorem bytes_of_sassLiveRegisterBytes {name : Text} {bytes : Nat}
    (h : sassLiveRegisterBytes name = some bytes) : bytes = 8 ∨ bytes = 1 := by
  rw [sassLiveRegisterBytes_eq] at h
  obtain ⟨⟨cls, number⟩, _, rfl⟩ := Option.map_eq_some_iff.mp h
  cases cls <;> simp [bytes]

/-! ## What one name adds -/

theorem canonicalSassLiveRegister_ok {raw name : Text}
    (h : canonicalSassLiveRegister raw = .ok name) : name = spelling raw := by
  unfold canonicalSassLiveRegister at h
  split at h
  · exact (Except.ok.inj h).symm
  · cases h

variable {p q : Placement} {raw : Text}

/-- A name is skipped when its spelling is known, and gets the next slot
otherwise. -/
theorem Placement.place_ok (h : p.place raw = .ok q) :
    (spelling raw ∈ p.seen ∧ q = p) ∨
      spelling raw ∉ p.seen ∧ ∃ bytes, sassLiveRegisterBytes (spelling raw) = some bytes ∧
        q = { slots := p.slots ++
                [{ name := spelling raw, offset := alignUp p.offset (min bytes 8), bytes := bytes }]
              seen := p.seen ++ [spelling raw]
              offset := saturatingAdd (alignUp p.offset (min bytes 8)) bytes } := by
  obtain ⟨name, hname, hrest⟩ := except_bind_eq_ok_iff.mp h
  obtain rfl := canonicalSassLiveRegister_ok hname
  by_cases hseen : spelling raw ∈ p.seen
  · rw [if_pos hseen] at hrest
    exact .inl ⟨hseen, (Except.ok.inj hrest).symm⟩
  · rw [if_neg hseen] at hrest
    cases hbytes : sassLiveRegisterBytes (spelling raw) with
    | none =>
      rw [hbytes] at hrest
      cases hrest
    | some bytes =>
      rw [hbytes] at hrest
      exact .inr ⟨hseen, bytes, rfl, (Except.ok.inj hrest).symm⟩

/-- Below the top of the address space `align_up` does not wrap. -/
theorem alignUp_spec (value align : Nat) (hpos : 0 < align) (hle : align ≤ 8)
    (hvalue : value + 8 < 2 ^ 64) :
    align ∣ alignUp value align ∧ value ≤ alignUp value align ∧
      alignUp value align < value + align := by
  have hmax : max align 1 = align := by omega
  have hlt := roundUp_lt hpos value
  rw [alignUp, hmax, Nat.mod_eq_of_lt (by omega)]
  exact ⟨dvd_roundUp value align, le_roundUp hpos value, hlt⟩

/-- The slots of the spellings of `raws`, in place. -/
structure Packed (raws : List Text) (p : Placement) : Prop where
  seen : p.seen = p.slots.map (·.name)
  nodup : p.seen.Nodup
  named : ∀ name, name ∈ p.seen ↔ ∃ raw ∈ raws, spelling raw = name
  sized : ∀ slot ∈ p.slots, sassLiveRegisterBytes slot.name = some slot.bytes
  apart : p.slots.Pairwise fun s t => s.offset + s.bytes ≤ t.offset
  inside : ∀ slot ∈ p.slots,
    sassLiveStateHeaderBytes ≤ slot.offset ∧ slot.offset + slot.bytes ≤ p.offset
  aligned : ∀ slot ∈ p.slots, min slot.bytes 8 ∣ slot.offset
  low : sassLiveStateHeaderBytes ≤ p.offset
  high : p.offset ≤ sassLiveStateHeaderBytes + 16 * raws.length

theorem Packed.start : Packed [] .start := by
  refine ⟨rfl, nodup_nil, ?_, ?_, List.Pairwise.nil, ?_, ?_, le_rfl, le_rfl⟩ <;>
    simp [Placement.start]

variable {raws : List Text}

theorem Packed.place (h : Packed raws p) (hplace : p.place raw = .ok q)
    (hroom : 16 * (raws.length + 1) ≤ isizeMax) : Packed (raws ++ [raw]) q := by
  have hhigh := h.high
  have hlow := h.low
  have hmax : isizeMax = 2 ^ 63 - 1 := rfl
  simp only [sassLiveStateHeaderBytes] at hhigh hlow
  rcases Placement.place_ok hplace with ⟨hseen, rfl⟩ | ⟨hseen, bytes, hbytes, rfl⟩
  · refine ⟨h.seen, h.nodup, ?_, h.sized, h.apart, h.inside, h.aligned, h.low, ?_⟩
    · intro name
      rw [h.named name]
      constructor
      · rintro ⟨r, hr, rfl⟩
        exact ⟨r, mem_append_left _ hr, rfl⟩
      · rintro ⟨r, hr, rfl⟩
        rcases mem_append.mp hr with hr | hr
        · exact ⟨r, hr, rfl⟩
        · rw [mem_singleton.mp hr]
          exact (h.named _).mp hseen
    · have := h.high
      simp only [length_append, length_singleton]
      omega
  · have hsize := bytes_of_sassLiveRegisterBytes hbytes
    obtain ⟨hdvd, hle, hlt⟩ := alignUp_spec p.offset (min bytes 8) (by omega) (by omega)
      (by omega)
    have hadd : saturatingAdd (alignUp p.offset (min bytes 8)) bytes =
        alignUp p.offset (min bytes 8) + bytes := by
      unfold saturatingAdd
      omega
    refine ⟨?_, ?_, ?_, ?_, ?_, ?_, ?_, ?_, ?_⟩
    · simp [h.seen]
    · rw [nodup_append]
      refine ⟨h.nodup, by simp, ?_⟩
      rintro a ha b hb rfl
      exact hseen (mem_singleton.mp hb ▸ ha)
    · intro name
      simp only [mem_append, mem_singleton, h.named name, or_and_right, exists_or,
        exists_eq_left]
      rw [eq_comm]
    · intro slot hslot
      rcases mem_append.mp hslot with hslot | hslot
      · exact h.sized slot hslot
      · rw [mem_singleton.mp hslot]
        exact hbytes
    · rw [pairwise_append]
      refine ⟨h.apart, pairwise_singleton _ _, ?_⟩
      intro slot hslot other hother
      rw [mem_singleton.mp hother]
      exact (h.inside slot hslot).2.trans hle
    · intro slot hslot
      dsimp only
      rw [hadd]
      rcases mem_append.mp hslot with hslot | hslot
      · have := h.inside slot hslot
        omega
      · rw [mem_singleton.mp hslot]
        exact ⟨h.low.trans hle, le_rfl⟩
    · intro slot hslot
      rcases mem_append.mp hslot with hslot | hslot
      · exact h.aligned slot hslot
      · rw [mem_singleton.mp hslot]
        exact hdvd
    · dsimp only
      rw [hadd]
      exact h.low.trans (by omega)
    · dsimp only
      rw [hadd]
      simp only [sassLiveStateHeaderBytes, length_append, length_singleton]
      omega

theorem Packed.foldlM {rest raws : List Text} (h : Packed raws p)
    (hrun : rest.foldlM Placement.place p = .ok q)
    (hroom : 16 * (raws.length + rest.length) ≤ isizeMax) : Packed (raws ++ rest) q := by
  induction rest generalizing raws p with
  | nil =>
    obtain rfl := Except.ok.inj hrun
    rwa [append_nil]
  | cons raw rest ih =>
    rw [foldlM_cons] at hrun
    obtain ⟨u, hplace, hrest⟩ := except_bind_eq_ok_iff.mp hrun
    simp only [length_cons] at hroom
    have hstep := h.place hplace (by omega)
    have hall := ih hstep hrest (by simp only [length_append, length_singleton]; omega)
    rwa [append_assoc] at hall

/-! ## Main result -/

/-- The slots are disjoint, aligned and inside the record, and every register
named has exactly one. -/
structure RegisterMap (registers : List Text) (layout : SassLiveStateLayout) : Prop where
  disjoint : layout.slots.Pairwise fun s t =>
    s.offset + s.bytes ≤ t.offset ∨ t.offset + t.bytes ≤ s.offset
  inside : ∀ slot ∈ layout.slots, 64 ≤ slot.offset ∧
    slot.offset + slot.bytes ≤ layout.recordBytes
  aligned : ∀ slot ∈ layout.slots, min slot.bytes 8 ∣ slot.offset
  record : 8 ∣ layout.recordBytes
  one : ∀ raw ∈ registers, ∃ reg, architectural (spelling raw) = some reg ∧
    layout.slots.countP (fun slot => architectural slot.name = some reg) = 1

/-- No register is spelled in two ways. -/
def OneSpelling (registers : List Text) : Prop :=
  ∀ first ∈ registers, ∀ second ∈ registers,
    architectural (spelling first) = architectural (spelling second) →
      spelling first = spelling second

theorem Packed.architectural {p : Placement} (h : Packed raws p) {slot : SassLiveRegisterSlot}
    (hslot : slot ∈ p.slots) : ∃ reg, Instrument.architectural slot.name = some reg := by
  have hsize := h.sized slot hslot
  rw [sassLiveRegisterBytes_eq] at hsize
  obtain ⟨reg, hreg, _⟩ := Option.map_eq_some_iff.mp hsize
  exact ⟨reg, hreg⟩

/-- Every name has a slot under its spelling. -/
theorem Packed.slot {p : Placement} (h : Packed raws p) (hraw : raw ∈ raws) :
    ∃ slot ∈ p.slots, slot.name = spelling raw := by
  have hseen := (h.named (spelling raw)).mpr ⟨raw, hraw, rfl⟩
  rw [h.seen] at hseen
  exact mem_map.mp hseen

theorem Packed.one_iff {p : Placement} (h : Packed raws p) :
    (∀ raw ∈ raws, ∃ reg, Instrument.architectural (spelling raw) = some reg ∧
      p.slots.countP (fun slot => Instrument.architectural slot.name = some reg) = 1) ↔
      OneSpelling raws := by
  have hnames : (p.slots.map (·.name)).Nodup := h.seen ▸ h.nodup
  constructor
  · intro hone first hfirst second hsecond hsame
    obtain ⟨reg, hreg, hcount⟩ := hone first hfirst
    obtain ⟨slot, hslot, hname⟩ := h.slot hfirst
    obtain ⟨other, hother, hname'⟩ := h.slot hsecond
    -- both slots are the only one of the register
    obtain ⟨only, honly⟩ := length_eq_one_iff.mp (countP_eq_length_filter ▸ hcount)
    have hunique : ∀ s ∈ p.slots, Instrument.architectural s.name = some reg → s = only := by
      intro s hs hsreg
      have hmem : s ∈ p.slots.filter fun slot => Instrument.architectural slot.name = some reg :=
        mem_filter.mpr ⟨hs, by simpa using hsreg⟩
      rw [honly] at hmem
      exact mem_singleton.mp hmem
    have hleft := hunique slot hslot (by rw [hname, hreg])
    have hright := hunique other hother (by rw [hname', ← hsame, hreg])
    rw [← hname, ← hname', hleft, hright]
  · intro hone raw hraw
    obtain ⟨slot, hslot, hname⟩ := h.slot hraw
    obtain ⟨reg, hreg⟩ := h.architectural hslot
    refine ⟨reg, hname ▸ hreg, ?_⟩
    -- a slot of the register has the same name, and names are distinct
    have hsame : ∀ s ∈ p.slots, (Instrument.architectural s.name = some reg ↔
        s.name = slot.name) := by
      intro s hs
      constructor
      · intro hsreg
        have hseen : s.name ∈ p.seen := h.seen ▸ mem_map_of_mem hs
        obtain ⟨other, hother, hspell⟩ := (h.named s.name).mp hseen
        rw [hname, ← hspell]
        exact hone other hother raw hraw (by rw [hspell, hsreg, ← hname, hreg])
      · intro heq
        rw [heq, hreg]
    have hcongr : p.slots.countP (fun s => Instrument.architectural s.name = some reg) =
        (p.slots.map (·.name)).count slot.name := by
      rw [List.count, countP_map]
      apply countP_congr
      intro s hs
      simpa using hsame s hs
    rw [hcongr]
    exact count_eq_one_of_mem hnames (mem_map_of_mem hslot)

/-- **Live-state layout.** A layout that is returned is a sound map of the
registers exactly when no register is named in two spellings; its slots are
disjoint, aligned and inside the record in any case. -/
theorem buildSassLiveStateLayout_sound_iff {registers : Names} {layout : SassLiveStateLayout}
    (hbuild : buildSassLiveStateLayout registers = .ok layout) :
    RegisterMap registers.list layout ↔ OneSpelling registers.list := by
  obtain ⟨p, hrun, hlayout⟩ := except_bind_eq_ok_iff.mp hbuild
  obtain rfl := Except.ok.inj hlayout
  have hroom := registers.length_le
  have hpacked : Packed registers.list p :=
    Packed.start.foldlM hrun (by simpa using hroom)
  have hhigh := hpacked.high
  have hmax : isizeMax = 2 ^ 63 - 1 := rfl
  simp only [sassLiveStateHeaderBytes] at hhigh
  obtain ⟨hdvd, hle, _⟩ := alignUp_spec p.offset 8 (by omega) le_rfl (by omega)
  rw [← hpacked.one_iff]
  constructor
  · exact fun hmap => hmap.one
  · intro hone
    refine ⟨hpacked.apart.imp fun h => .inl h, ?_, hpacked.aligned, hdvd, hone⟩
    intro slot hslot
    have hin := hpacked.inside slot hslot
    exact ⟨hin.1, hin.2.trans hle⟩

/-- The names of five registers, one of them twice. -/
def fiveNames : Names where
  list := [['R', '2'], ['P', '0'], [' ', 'r', '2'], ['U', 'R', '4'], ['U', 'P', '1']]
  length_le := by decide

theorem buildSassLiveStateLayout_sound_five : ∃ layout,
    buildSassLiveStateLayout fiveNames = .ok layout ∧ RegisterMap fiveNames.list layout := by
  obtain ⟨layout, hbuild⟩ : ∃ layout, buildSassLiveStateLayout fiveNames = .ok layout :=
    ⟨_, rfl⟩
  refine ⟨layout, hbuild, (buildSassLiveStateLayout_sound_iff hbuild).mpr ?_⟩
  unfold OneSpelling
  decide +kernel

/-- One register under two names. -/
def twoSpellings : Names where
  list := [['R', '1'], ['R', '0', '1']]
  length_le := by decide

/-- `R1` and `R01` get a slot each. -/
theorem not_sound_two_spellings : ∃ layout,
    buildSassLiveStateLayout twoSpellings = .ok layout ∧
      ¬ RegisterMap twoSpellings.list layout := by
  obtain ⟨layout, hbuild, hslots⟩ : ∃ layout,
      buildSassLiveStateLayout twoSpellings = .ok layout ∧
        layout.slots.countP (fun slot => architectural slot.name = some (.r, 1)) = 2 :=
    ⟨_, rfl, by decide +kernel⟩
  refine ⟨layout, hbuild, fun hmap => ?_⟩
  obtain ⟨reg, hreg, hcount⟩ := hmap.one ['R', '1'] (by simp [twoSpellings])
  have hone : architectural (spelling ['R', '1']) = some (.r, 1) := by decide +kernel
  obtain rfl := Option.some.inj (hreg.symm.trans hone)
  omega

end Concordia.Instrument
