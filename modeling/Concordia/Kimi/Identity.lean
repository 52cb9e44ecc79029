import Concordia.Kimi.Regions

/-!
# The identity of a live region

Region ids and stable keys are meant to tell live regions apart. A list of
regions is `Identified` if the regions of each kind are numbered apart, and every
id was either counted up from above the saved ones or saved for the region's
key. This survives adding a region, dropping the last of a kind, and moving it to
another kind.
-/

namespace Concordia.Kimi

open Concordia.Lib List Function

def countKind (kind : KimiRegionKind) (regions : List KimiTrackedRegion) : Nat :=
  regions.countP (·.kind = kind)

/-- Saved ids: a key has one, ids of different keys differ, and all are at most
`top`. -/
structure SavedIds (saved : KimiRegionKind → String → Nat → Option UInt64) (top : Nat) : Prop where
  inj : ∀ {kind key size kind' key' size' id}, saved kind key size = some id →
    saved kind' key' size' = some id → kind = kind' ∧ key = key'
  le : ∀ {kind key size id}, saved kind key size = some id → id.toNat ≤ top

/-- The regions are told apart: those of a kind carry the keys of distinct
numbers up to their count, and an id is one counted up from above the saved
ones or the one saved for the region's key. -/
structure Identified (saved : KimiRegionKind → String → Nat → Option UInt64) (top next : Nat)
    (number : UInt64 → Nat) (regions : List KimiTrackedRegion) : Prop where
  key_eq : ∀ r ∈ regions, r.kind ≠ .opaqueMutable →
    r.stableKey = stableKey r.kind (number r.ptr) r.trackedSize
  number_le : ∀ r ∈ regions, r.kind ≠ .opaqueMutable → number r.ptr ≤ countKind r.kind regions
  number_inj : ∀ r ∈ regions, ∀ r' ∈ regions, r.kind = r'.kind → r.kind ≠ .opaqueMutable →
    number r.ptr = number r'.ptr → r.ptr = r'.ptr
  id_origin : ∀ r ∈ regions, (top < r.regionId.toNat ∧ r.regionId.toNat < next) ∨
    (r.kind ≠ .opaqueMutable ∧ saved r.kind r.stableKey r.trackedSize = some r.regionId)
  id_inj : ∀ r ∈ regions, ∀ r' ∈ regions, r.regionId = r'.regionId → r.ptr = r'.ptr

namespace Identified

variable {saved : KimiRegionKind → String → Nat → Option UInt64} {top next : Nat}
  {number : UInt64 → Nat} {regions rest : List KimiTrackedRegion} {r old : KimiTrackedRegion}

theorem nil : Identified saved top next number [] := by
  constructor <;> simp

theorem perm (h : Identified saved top next number regions) {regions' : List KimiTrackedRegion}
    (hperm : regions' ~ regions) : Identified saved top next number regions' := by
  have hmem := fun r => hperm.mem_iff (a := r)
  have hcount : ∀ kind, countKind kind regions' = countKind kind regions :=
    fun kind => hperm.countP_eq _
  constructor
  · simpa only [hmem] using h.key_eq
  · simpa only [hmem, hcount] using h.number_le
  · simpa only [hmem] using h.number_inj
  · simpa only [hmem] using h.id_origin
  · simpa only [hmem] using h.id_inj

/-- Dropping a region: an opaque one, or the last of its kind. -/
theorem drop (h : Identified saved top next number (old :: rest))
    (hptr : ∀ r ∈ rest, r.ptr ≠ old.ptr)
    (hlast : old.kind = .opaqueMutable ∨
      old.stableKey = stableKey old.kind (countKind old.kind (old :: rest)) old.trackedSize) :
    Identified saved top next number rest := by
  have hmem := fun r (hr : r ∈ rest) => mem_cons_of_mem old hr
  refine ⟨fun r hr => h.key_eq r (hmem r hr), ?_, ?_, fun r hr => h.id_origin r (hmem r hr), ?_⟩
  · intro r hr hkind
    have hle := h.number_le r (hmem r hr) hkind
    by_cases hsame : old.kind = r.kind
    · -- the region dropped had the highest number, which no other has
      have hkind' : old.kind ≠ .opaqueMutable := hsame ▸ hkind
      have hnumber : number old.ptr = countKind old.kind (old :: rest) := by
        have hkey := h.key_eq old mem_cons_self hkind'
        exact stableKey_inj (hkey.symm.trans (hlast.resolve_left hkind'))
      have hne : number r.ptr ≠ number old.ptr := fun heq =>
        hptr r hr (h.number_inj r (hmem r hr) old mem_cons_self hsame.symm hkind heq)
      rw [hsame] at hnumber
      have hcount : countKind r.kind (old :: rest) = countKind r.kind rest + 1 := by
        simp [countKind, hsame]
      omega
    · have hcount : countKind r.kind (old :: rest) = countKind r.kind rest := by
        simp [countKind, hsame]
      omega
  · exact fun r hr r' hr' => h.number_inj r (hmem r hr) r' (hmem r' hr')
  · exact fun r hr r' hr' => h.id_inj r (hmem r hr) r' (hmem r' hr')

theorem id_inj_cons
    (hrest : ∀ x ∈ rest, ∀ y ∈ rest, x.regionId = y.regionId → x.ptr = y.ptr)
    (hid : ∀ x ∈ rest, x.regionId ≠ r.regionId) :
    ∀ x ∈ r :: rest, ∀ y ∈ r :: rest, x.regionId = y.regionId → x.ptr = y.ptr := by
  intro x hx y hy heq
  rcases mem_cons.mp hx with rfl | hx' <;> rcases mem_cons.mp hy with rfl | hy'
  · rfl
  · exact absurd heq.symm (hid y hy')
  · exact absurd heq (hid x hx')
  · exact hrest x hx' y hy' heq

/-- Adding a region: an opaque one, or one numbered after the others of its
kind. -/
theorem add (h : Identified saved top next number rest) {next' : Nat} (hnext : next ≤ next')
    (hptr : ∀ x ∈ rest, x.ptr ≠ r.ptr)
    (hkey : r.kind ≠ .opaqueMutable →
      r.stableKey = stableKey r.kind (countKind r.kind rest + 1) r.trackedSize)
    (horigin : (top < r.regionId.toNat ∧ r.regionId.toNat < next') ∨
      (r.kind ≠ .opaqueMutable ∧ saved r.kind r.stableKey r.trackedSize = some r.regionId))
    (hid : ∀ x ∈ rest, x.regionId ≠ r.regionId) :
    Identified saved top next' (update number r.ptr (countKind r.kind rest + 1))
      (r :: rest) := by
  have hself : update number r.ptr (countKind r.kind rest + 1) r.ptr =
      countKind r.kind rest + 1 := Function.update_self _ _ _
  have hother : ∀ x ∈ rest, update number r.ptr (countKind r.kind rest + 1) x.ptr =
      number x.ptr := fun x hx => Function.update_of_ne (hptr x hx) _ _
  have hcount : countKind r.kind (r :: rest) = countKind r.kind rest + 1 := by
    simp [countKind]
  have hmono : ∀ kind, countKind kind rest ≤ countKind kind (r :: rest) :=
    fun kind => (sublist_cons_self r rest).countP_le
  refine ⟨?_, ?_, ?_, ?_, ?_⟩
  · intro x hx hkind
    rcases mem_cons.mp hx with rfl | hx
    · rw [hself]
      exact hkey hkind
    · rw [hother x hx]
      exact h.key_eq x hx hkind
  · intro x hx hkind
    rcases mem_cons.mp hx with rfl | hx
    · rw [hself, hcount]
    · rw [hother x hx]
      exact (h.number_le x hx hkind).trans (hmono _)
  · intro x hx y hy hxy hkind heq
    rcases mem_cons.mp hx with rfl | hx' <;> rcases mem_cons.mp hy with rfl | hy'
    · rfl
    · -- the new number is above all others of the kind
      rw [hself, hother y hy'] at heq
      have := h.number_le y hy' (hxy ▸ hkind)
      rw [← hxy] at this
      omega
    · rw [hself, hother x hx'] at heq
      have := h.number_le x hx' hkind
      rw [hxy] at this
      omega
    · rw [hother x hx', hother y hy'] at heq
      exact h.number_inj x hx' y hy' hxy hkind heq
  · intro x hx
    rcases mem_cons.mp hx with rfl | hx
    · exact horigin
    · rcases h.id_origin x hx with ⟨hlo, hhi⟩ | hsaved
      · exact .inl ⟨hlo, hhi.trans_le hnext⟩
      · exact .inr hsaved
  · exact id_inj_cons h.id_inj hid

/-- An id saved for a key that no region carries is no region's id. -/
theorem ne_saved (h : Identified saved top next number regions) (hsaved : SavedIds saved top)
    {kind : KimiRegionKind} {key : String} {size : Nat} {id : UInt64}
    (hkey : saved kind key size = some id) {x : KimiTrackedRegion} (hx : x ∈ regions)
    (hne : x.kind = kind → x.kind ≠ .opaqueMutable → x.stableKey ≠ key) : x.regionId ≠ id := by
  rintro rfl
  rcases h.id_origin x hx with ⟨hlo, _⟩ | ⟨hkind, hsame⟩
  · have := hsaved.le hkey
    omega
  · obtain ⟨heq, heq'⟩ := hsaved.inj hsame hkey
    exact hne heq hkind heq'

/-- Regions of a kind with different pointers have different keys. -/
theorem key_ne (h : Identified saved top next number regions) {x y : KimiTrackedRegion}
    (hx : x ∈ regions) (hy : y ∈ regions) (hptr : x.ptr ≠ y.ptr) (hkind : x.kind = y.kind)
    (hclass : x.kind ≠ .opaqueMutable) : x.stableKey ≠ y.stableKey := by
  intro heq
  rw [h.key_eq x hx hclass, h.key_eq y hy (hkind ▸ hclass), hkind] at heq
  exact hptr (h.number_inj x hx y hy hkind hclass (stableKey_inj heq))

/-- Replacing a region by one with the same key, and its id or the saved one. -/
theorem replace (h : Identified saved top next number (old :: rest)) (hsaved : SavedIds saved top)
    (hrest : ∀ x ∈ rest, x.ptr ≠ old.ptr) (hptr : r.ptr = old.ptr) (hkind : r.kind = old.kind)
    (hkey : r.stableKey = old.stableKey) (hsize : r.trackedSize = old.trackedSize)
    (hid : r.regionId = old.regionId ∨ (r.kind ≠ .opaqueMutable ∧
      saved r.kind r.stableKey r.trackedSize = some r.regionId)) :
    Identified saved top next number (r :: rest) := by
  have hcount : ∀ kind, countKind kind (r :: rest) = countKind kind (old :: rest) := by
    intro kind
    simp [countKind, countP_cons, hkind]
  have hold : old ∈ old :: rest := mem_cons_self
  have hmem := fun x (hx : x ∈ rest) => mem_cons_of_mem old hx
  -- no other region has the id
  have hne : ∀ x ∈ rest, x.regionId ≠ r.regionId := by
    intro x hx
    rcases hid with hsame | ⟨hclass, hid⟩
    · rw [hsame]
      exact fun heq => hrest x hx (h.id_inj x (hmem x hx) old hold heq)
    · refine h.ne_saved hsaved hid (hmem x hx) fun hk hc => ?_
      rw [hkey]
      exact h.key_ne (hmem x hx) hold (hrest x hx) (hk.trans hkind) hc
  refine ⟨?_, ?_, ?_, ?_, ?_⟩
  · simp only [forall_mem_cons, hkind, hkey, hptr, hsize]
    exact forall_mem_cons.mp h.key_eq
  · simp only [forall_mem_cons, hkind, hptr, hcount]
    exact forall_mem_cons.mp h.number_le
  · simp only [forall_mem_cons, hkind, hptr]
    simpa only [forall_mem_cons] using h.number_inj
  · intro x hx
    rcases mem_cons.mp hx with rfl | hx'
    · rcases hid with hsame | hsaved'
      · rw [hsame, hkind, hkey, hsize]
        exact h.id_origin old hold
      · exact .inr hsaved'
    · exact h.id_origin x (hmem x hx')
  · exact id_inj_cons (fun x hx y hy => h.id_inj x (hmem x hx) y (hmem y hy)) hne

/-- Moving a region, an opaque one or the last of its kind, to the end of
another kind. It takes the id saved for its new key, or keeps one that is not
saved for its old key. -/
theorem move (h : Identified saved top next number (old :: rest)) (hsaved : SavedIds saved top)
    (hrest : ∀ x ∈ rest, x.ptr ≠ old.ptr) (hptr : r.ptr = old.ptr)
    (hlast : old.kind = .opaqueMutable ∨
      old.stableKey = stableKey old.kind (countKind old.kind (old :: rest)) old.trackedSize)
    (hclass : r.kind ≠ .opaqueMutable)
    (hkey : r.stableKey = stableKey r.kind (countKind r.kind rest + 1) r.trackedSize)
    (hid : saved r.kind r.stableKey r.trackedSize = some r.regionId ∨
      (r.regionId = old.regionId ∧ (old.kind = .opaqueMutable ∨
        saved old.kind old.stableKey old.trackedSize = none))) :
    ∃ number, Identified saved top next number (r :: rest) := by
  have hdropped := h.drop hrest hlast
  have hptrs : ∀ x ∈ rest, x.ptr ≠ r.ptr := fun x hx => hptr ▸ hrest x hx
  refine ⟨_, hdropped.add le_rfl hptrs (fun _ => hkey) ?_ ?_⟩
  · rcases hid with hfound | ⟨hsame, hown⟩
    · exact .inr ⟨hclass, hfound⟩
    · rw [hsame]
      refine .inl ((h.id_origin old mem_cons_self).resolve_right ?_)
      rintro ⟨hold, hfound⟩
      rcases hown with hopaque | hnone
      · exact hold hopaque
      · rw [hnone] at hfound
        cases hfound
  · intro x hx
    rcases hid with hfound | ⟨hsame, _⟩
    · refine hdropped.ne_saved hsaved hfound hx fun hxkind hxclass hxkey => ?_
      have hnumber := hdropped.number_le x hx hxclass
      rw [hdropped.key_eq x hx hxclass, hkey, hxkind] at hxkey
      have := stableKey_inj hxkey
      rw [hxkind] at hnumber
      omega
    · rw [hsame]
      exact fun heq =>
        hrest x hx (h.id_inj x (mem_cons_of_mem _ hx) old mem_cons_self heq)

end Identified

/-! ## The saved ids -/

/-- The largest saved id. -/
def topOf (restore : Option KimiRegionManifest) : Nat :=
  match restore with
  | none => 0
  | some manifest => manifest.maxRegionId.toNat

def savedIdsOf (restore : Option KimiRegionManifest) (kind : KimiRegionKind) (key : String)
    (size : Nat) : Option UInt64 :=
  restore.bind fun manifest => manifest.findRegionId kind key size

theorem le_max_pair (x y : UInt64) : x ≤ max x y ∧ y ≤ max x y := by
  show x ≤ (if x ≤ y then y else x) ∧ y ≤ (if x ≤ y then y else x)
  split
  · exact ⟨‹_›, UInt64.le_refl _⟩
  · exact ⟨UInt64.le_refl _, (UInt64.le_total x y).resolve_left ‹_›⟩

/-- The largest id is at least every id. -/
theorem le_foldl_max (ids : List UInt64) (start : UInt64) :
    start ≤ ids.foldl max start ∧ ∀ id ∈ ids, id ≤ ids.foldl max start := by
  induction ids generalizing start with
  | nil => exact ⟨UInt64.le_refl _, by simp⟩
  | cons x ids ih =>
    obtain ⟨hmax, hmem⟩ := ih (max start x)
    obtain ⟨hstart, hx⟩ := le_max_pair start x
    exact ⟨UInt64.le_trans hstart hmax,
      forall_mem_cons.mpr ⟨UInt64.le_trans hx hmax, hmem⟩⟩

theorem savedIds_of_nodup {restore : Option KimiRegionManifest}
    (hnd : ∀ manifest, restore = some manifest →
      (manifest.regions.map KimiRegionSpec.regionId).Nodup) :
    SavedIds (savedIdsOf restore) (topOf restore) := by
  have hspec : ∀ {kind key size id}, savedIdsOf restore kind key size = some id →
      ∃ manifest, restore = some manifest ∧ ∃ spec ∈ manifest.regions, spec.regionId = id ∧
        spec.kind = kind ∧ spec.stableKey = key := by
    intro kind key size id h
    obtain ⟨manifest, hrestore, hfind⟩ := Option.bind_eq_some_iff.mp h
    obtain ⟨spec, hspec, hid⟩ := Option.map_eq_some_iff.mp hfind
    have hprop := find?_some hspec
    simp only [decide_eq_true_eq] at hprop
    exact ⟨manifest, hrestore, spec, mem_of_find?_eq_some hspec, hid, hprop.1, hprop.2.1⟩
  constructor
  · intro kind key size kind' key' size' id h h'
    obtain ⟨manifest, hrestore, spec, hmem, hid, rfl, rfl⟩ := hspec h
    obtain ⟨manifest', hrestore', spec', hmem', hid', rfl, rfl⟩ := hspec h'
    obtain rfl := Option.some.inj (hrestore.symm.trans hrestore')
    obtain rfl : spec = spec' :=
      inj_on_of_nodup_map (hnd manifest hrestore) hmem hmem' (hid.trans hid'.symm)
    exact ⟨rfl, rfl⟩
  · intro kind key size id h
    obtain ⟨manifest, rfl, spec, hmem, rfl, _⟩ := hspec h
    exact (le_foldl_max _ 0).2 _ (mem_map_of_mem hmem)

end Concordia.Kimi
