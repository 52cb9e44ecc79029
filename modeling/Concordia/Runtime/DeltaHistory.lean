import Concordia.Runtime.Restore

/-!
# Deltas over the life of a checkpoint state

A `History` is a checkpoint state together with what its caller passed last for
each region and the epochs it was handed. Along every run of calls the shadow
of an opaque region is the contents passed last (`Remembers`), so a host delta
lists exactly the pages that changed since then. Epochs count the deltas, until
the 64-bit counter wraps.
-/

namespace Concordia.Runtime

open Concordia.Lib Concordia.Aof Concordia.Delta List Function DeltaCheckpointState Nat UInt64

inductive StateCall where
  | registerOpaque (baseAddr : UInt64) (initial : ByteVec)
  | registerBitmap (baseAddr : UInt64) (len : Nat)
  | createHost (regionId : UInt64) (current : ByteVec)
  | createBitmap (regionId : UInt64) (current : ByteVec) (dirtyBitmap : List UInt8)
  | refresh (regionId : UInt64) (current : ByteVec)

structure History where
  state : DeltaCheckpointState
  /-- contents at the last successful host delta or refresh, or at registration -/
  seen : UInt64 → ByteVec
  /-- the epochs handed out -/
  epochs : List UInt64

namespace History

def start (pageSize : Nat) : History where
  state := .new pageSize
  seen := fun _ => default
  epochs := []

variable (h : History)

/-- History after a call that creates a delta, if it succeeds with `seen`. -/
def afterDelta (seen : UInt64 → ByteVec) :
    Except Fault DeltaRecord × DeltaCheckpointState → History
  | (.ok delta, state) => { state := state, seen := seen, epochs := h.epochs ++ [delta.epoch] }
  | (.error _, state) => { h with state := state }

/-- One call; `none` is a call that does not return. -/
def step : StateCall → Option History
  | .registerOpaque baseAddr initial =>
    (h.state.registerOpaqueHostRegion baseAddr initial).map fun (id, state) =>
      { h with state := state, seen := update h.seen id initial }
  | .registerBitmap baseAddr len =>
    (h.state.registerAllocatorBitmapRegion baseAddr len).map fun (_, state) =>
      { h with state := state }
  | .createHost id current =>
    some (h.afterDelta (update h.seen id current) (h.state.createHostDelta id current))
  | .createBitmap id current dirtyBitmap =>
    some (h.afterDelta h.seen (h.state.createBitmapDelta id current dirtyBitmap))
  | .refresh id current =>
    match h.state.refreshOpaqueShadow id current with
    | (.ok _, state) =>
      some { h with state := state, seen := update h.seen id current }
    | (.error _, state) => some { h with state := state }

end History

/-- The runs of a new checkpoint state. -/
def histories (pageSize : Nat) : TSys History StateCall where
  init h := h = History.start pageSize
  step h call t := h.step call = some t

/-! ## What a call can do -/

/-- The effect of a call on the regions, the contents seen and the epochs. -/
inductive Change (h : History) : History → Prop
  | refused : Change h h
  | registered {state : DeltaCheckpointState} {seen : UInt64 → ByteVec} {region : TrackedRegion}
      (hid : region.id = h.state.nextRegionId)
      (hseen : ∀ id, id ≠ region.id → seen id = h.seen id)
      (hshadow : region.kind = .opaqueShadow → region.shadow = some (seen region.id))
      (hregions : state.regions = h.state.regions ++ [region])
      (hnext : state.nextRegionId.toNat = h.state.nextRegionId.toNat + 1)
      (hepoch : state.nextEpoch = h.state.nextEpoch) :
      Change h { h with state := state, seen := seen }
  | refreshed {state : DeltaCheckpointState} {region : TrackedRegion} {id : UInt64}
      {current : ByteVec} (hfind : h.state.findRegion id = some region)
      (hlen : region.len = current.length)
      (hregions : state.regions =
        updateFirst TrackedRegion.id id (·.setShadow current) h.state.regions)
      (hnext : state.nextRegionId = h.state.nextRegionId) {epochs : List UInt64}
      (hepochs : (epochs = h.epochs ∧ state.nextEpoch = h.state.nextEpoch) ∨
        (epochs = h.epochs ++ [h.state.nextEpoch] ∧ state.nextEpoch = h.state.nextEpoch + 1)) :
      Change h { state := state, seen := update h.seen id current, epochs := epochs }
  | listed {state : DeltaCheckpointState} (hregions : state.regions = h.state.regions)
      (hnext : state.nextRegionId = h.state.nextRegionId)
      (hepoch : state.nextEpoch = h.state.nextEpoch + 1) :
      Change h { h with state := state, epochs := h.epochs ++ [h.state.nextEpoch] }

theorem registerRegion_epoch {s state : DeltaCheckpointState} {region : UInt64 → TrackedRegion}
    {id : UInt64} (h : s.registerRegion region = some (id, state)) :
    state.nextEpoch = s.nextEpoch := by
  unfold DeltaCheckpointState.registerRegion at h
  obtain ⟨next, _, hpair⟩ := Option.map_eq_some_iff.mp h
  obtain ⟨_, rfl⟩ := Prod.mk.inj hpair
  rfl

/-- What a call can do. -/
theorem History.step_change {h t : History} {call : StateCall} (hstep : h.step call = some t) :
    Change h t := by
  cases call with
  | registerOpaque baseAddr initial =>
    obtain ⟨⟨id, state⟩, hreg, rfl⟩ := Option.map_eq_some_iff.mp hstep
    obtain ⟨rfl, _, hnext, hregions⟩ := registerRegion_spec hreg
    refine .registered rfl ?_ ?_ hregions hnext (registerRegion_epoch hreg)
    · exact fun id hid => update_of_ne hid initial h.seen
    · intro _
      rw [update_self]
  | registerBitmap baseAddr len =>
    obtain ⟨⟨id, state⟩, hreg, rfl⟩ := Option.map_eq_some_iff.mp hstep
    obtain ⟨rfl, _, hnext, hregions⟩ := registerRegion_spec hreg
    exact .registered rfl (fun _ _ => rfl) (fun hkind => by cases hkind) hregions hnext
      (registerRegion_epoch hreg)
  | createHost id current =>
    obtain rfl := Option.some.inj hstep
    cases hcreate : h.state.createHostDelta id current with
    | mk outcome state =>
      cases outcome with
      | error fault =>
        rw [createHostDelta_error hcreate]
        exact .refused
      | ok delta =>
        obtain ⟨region, _, hfind, _, hlen, _, _, hepoch, hnextEpoch, _, hnext, hregions⟩ :=
          createHostDelta_ok hcreate
        exact .refreshed hfind hlen hregions hnext (.inr ⟨by rw [hepoch], hnextEpoch⟩)
  | createBitmap id current dirtyBitmap =>
    obtain rfl := Option.some.inj hstep
    cases hcreate : h.state.createBitmapDelta id current dirtyBitmap with
    | mk outcome state =>
      cases outcome with
      | error fault =>
        rw [createBitmapDelta_error hcreate]
        exact .refused
      | ok delta =>
        obtain ⟨_, _, _, _, _, hepoch, hnextEpoch, _, hnext, hregions⟩ :=
          createBitmapDelta_ok hcreate
        rw [History.afterDelta, hepoch]
        exact .listed hregions hnext hnextEpoch
  | refresh id current =>
    rw [History.step] at hstep
    cases hrefresh : h.state.refreshOpaqueShadow id current with
    | mk outcome state =>
      rw [hrefresh] at hstep
      cases outcome with
      | error fault =>
        obtain rfl := Option.some.inj hstep
        rw [refreshOpaqueShadow_error hrefresh]
        exact .refused
      | ok _ =>
        obtain rfl := Option.some.inj hstep
        obtain ⟨region, hfind, _, hlen, hstate⟩ :=
          refreshOpaqueShadow_ok hrefresh
        exact .refreshed hfind hlen (hstate ▸ rfl) (hstate ▸ rfl) (.inl ⟨rfl, hstate ▸ rfl⟩)

/-! ## What every run preserves -/

/-- The first `n` epochs. -/
def firstEpochs (n : Nat) : List UInt64 := (List.range n).map fun k => ofNat (k + 1)

theorem firstEpochs_succ (n : Nat) :
    firstEpochs (n + 1) = firstEpochs n ++ [ofNat (n + 1)] := by
  simp [firstEpochs, range_succ]

/-- The shadow of an opaque region is the contents passed last; the epochs are
the first ones in order. -/
structure Remembers (h : History) : Prop where
  registry : Registry h.state
  shadow : ∀ region ∈ h.state.regions, region.kind = .opaqueShadow →
    region.shadow = some (h.seen region.id)
  epochs : h.epochs = firstEpochs h.epochs.length
  next : h.state.nextEpoch = ofNat (h.epochs.length + 1)

namespace Remembers

variable {h t : History}

/-- Handing out the next epoch. -/
theorem epochs_append (hr : Remembers h) :
    h.epochs ++ [h.state.nextEpoch] = firstEpochs (h.epochs ++ [h.state.nextEpoch]).length ∧
      h.state.nextEpoch + 1 =
        ofNat ((h.epochs ++ [h.state.nextEpoch]).length + 1) := by
  have hlen : (h.epochs ++ [h.state.nextEpoch]).length = h.epochs.length + 1 := by simp
  rw [hlen, firstEpochs_succ, ← hr.epochs, ← hr.next]
  refine ⟨rfl, ?_⟩
  rw [hr.next, ofNat_add (h.epochs.length + 1) 1]
  rfl

theorem change (hr : Remembers h) (hchange : Change h t) : Remembers t := by
  cases hchange with
  | refused => exact hr
  | @registered state seen region hid hseen hshadow hregions hnext hepoch =>
    refine ⟨hr.registry.registered hid hshadow hregions hnext, ?_, hr.epochs, hepoch ▸ hr.next⟩
    intro r hmem hkind
    rw [hregions, mem_append, mem_singleton] at hmem
    rcases hmem with hold | rfl
    · show r.shadow = some (seen r.id)
      rw [hseen r.id (hid ▸ hr.registry.id_ne_next hold)]
      exact hr.shadow r hold hkind
    · exact hshadow hkind
  | @refreshed state region id current hfind hlen hregions hnext epochs hepochs =>
    have hmem : ∀ r ∈ state.regions, (r ∈ h.state.regions ∧ r.id ≠ id) ∨
        r = region.setShadow current := by
      intro r hr'
      rw [hregions] at hr'
      rcases mem_updateFirst hr.registry.nodup hr' with hother | ⟨found, hfound, rfl⟩
      · exact .inl hother
      · obtain rfl : region = found := Option.some.inj (hfind.symm.trans hfound)
        exact .inr rfl
    have hset : (region.setShadow current).shadow = some current := by
      simp [TrackedRegion.setShadow, hlen.symm]
    have hids : state.regions.map TrackedRegion.id = h.state.regions.map TrackedRegion.id := by
      rw [hregions, map_updateFirst id fun x => x.setShadow_id current]
    refine ⟨hr.registry.keeps hids hnext fun r hr' _ => ?_, ?_, ?_, ?_⟩
    · exact (hmem r hr').imp And.left fun (heq : r = _) => ⟨current, heq ▸ hset⟩
    · intro r hr' hkind
      rcases hmem r hr' with ⟨hold, hne⟩ | rfl
      · show r.shadow = some (update h.seen id current r.id)
        rw [update_of_ne hne]
        exact hr.shadow r hold hkind
      · show _ = some (update h.seen id current (region.setShadow current).id)
        rw [TrackedRegion.setShadow_id, key_of_lookup hfind, update_self, hset]
    · rcases hepochs with ⟨rfl, _⟩ | ⟨rfl, _⟩
      · exact hr.epochs
      · exact hr.epochs_append.1
    · rcases hepochs with ⟨rfl, heq⟩ | ⟨rfl, heq⟩
      · exact heq.trans hr.next
      · exact heq.trans hr.epochs_append.2
  | @listed state hregions hnext hepoch =>
    refine ⟨?_, hregions ▸ hr.shadow, hr.epochs_append.1, hepoch.trans hr.epochs_append.2⟩
    exact hr.registry.keeps (hregions ▸ rfl) hnext fun r hr' _ => .inl (hregions ▸ hr')

end Remembers

variable {pageSize : Nat}

theorem remembers_of_reachable {h : History} (hreach : (histories pageSize).Reachable h) :
    Remembers h := by
  refine hreach.induct (P := Remembers) ?_ fun h call t hr hstep => hr.change (h.step_change hstep)
  rintro _ rfl
  exact ⟨.of_nil rfl, by simp [History.start, DeltaCheckpointState.new], rfl, rfl⟩

/-! ## Main result -/

/-- The pages of a delta are exactly the page-size blocks of `current` that
differ from `previous`: in increasing order, aligned, apart, inside the region. -/
structure ExactPages (pageSize : Nat) (regionId : UInt64) (previous current : ByteVec)
    (pages : List DirtyPage) : Prop where
  regionId : ∀ page ∈ pages, page.regionId = regionId
  increasing : pages.Pairwise fun p q => p.offset < q.offset
  aligned : ∀ page ∈ pages, pageSize ∣ page.offset.toNat
  apart : pages.Pairwise fun p q => p.offset.toNat + p.data.length ≤ q.offset.toNat
  inside : ∀ page ∈ pages, page.offset.toNat < current.length ∧
    page.offset.toNat + page.data.length ≤ current.length
  data : ∀ page ∈ pages, page.data = pageAt pageSize current page.offset.toNat
  listed : ∀ offset, pageSize ∣ offset → offset < current.length →
    ((∃ page ∈ pages, page.offset.toNat = offset) ↔
      ∃ i, offset ≤ i ∧ i < offset + pageSize ∧ current.data[i]? ≠ previous.data[i]?)

theorem pageDiffers_iff (hpos : 0 < pageSize) {v w : ByteVec} (p : Nat) :
    pageDiffers pageSize v w p = true ↔
      ∃ i, p * pageSize ≤ i ∧ i < p * pageSize + pageSize ∧ v.data[i]? ≠ w.data[i]? := by
  rw [← not_iff_not, Bool.not_eq_true, pageDiffers_eq_false_iff hpos]
  push Not
  exact forall_congr' fun i => by rw [div_eq_iff_mem_page hpos, and_imp]

/-- The pages a host delta lists. -/
theorem exactPages_of_pagesDelta (hpos : 0 < pageSize) {regionId : UInt64}
    {previous current : ByteVec} (hlen : current.length = previous.length) {delta : DeltaRecord}
    (hdelta : PagesDelta pageSize regionId current (hostDirtyPages pageSize previous current)
      delta) : ExactPages pageSize regionId previous current delta.dirtyPages := by
  have hlt : ∀ p ∈ hostDirtyPages pageSize previous current, p * pageSize < current.length :=
    fun p hp => lt_length_of_mem_hostDirtyPages hpos hp
  have hoff : ∀ p ∈ hostDirtyPages pageSize previous current,
      (ofNat (p * pageSize)).toNat = p * pageSize :=
    fun p hp => PagesDelta.offset_toNat hlt hp
  have hmem : ∀ page ∈ delta.dirtyPages, ∃ p ∈ hostDirtyPages pageSize previous current,
      dirtyPage regionId pageSize current (p * pageSize) = page := by
    intro page hpage
    rw [hdelta] at hpage
    exact mem_map.mp hpage
  have hsorted : (hostDirtyPages pageSize previous current).Pairwise (· < ·) :=
    pairwise_lt_range.filter _
  have hgap : ∀ {p q : Nat}, p < q → p * pageSize + pageSize ≤ q * pageSize := by
    intro p q hpq
    rw [← succ_mul]
    exact mul_le_mul_right pageSize hpq
  refine ⟨?_, ?_, ?_, ?_, ?_, ?_, ?_⟩
  · intro page hpage
    obtain ⟨p, _, rfl⟩ := hmem page hpage
    rfl
  · rw [hdelta, pairwise_map]
    refine hsorted.imp_of_mem fun {p q} hp hq hpq => ?_
    show ofNat (p * pageSize) < ofNat (q * pageSize)
    rw [lt_iff_toNat_lt, hoff p hp, hoff q hq]
    exact Nat.lt_of_lt_of_le (Nat.lt_add_of_pos_right hpos) (hgap hpq)
  · intro page hpage
    obtain ⟨p, hp, rfl⟩ := hmem page hpage
    show pageSize ∣ (ofNat (p * pageSize)).toNat
    rw [hoff p hp]
    exact dvd_mul_left pageSize p
  · rw [hdelta, pairwise_map]
    refine hsorted.imp_of_mem fun {p q} hp hq hpq => ?_
    show (ofNat (p * pageSize)).toNat + (pageAt pageSize current _).data.length ≤
      (ofNat (q * pageSize)).toNat
    rw [hoff p hp, hoff q hq, length_pageAt]
    have := hgap hpq
    omega
  · intro page hpage
    obtain ⟨p, hp, rfl⟩ := hmem page hpage
    show (ofNat (p * pageSize)).toNat < _ ∧
      (ofNat (p * pageSize)).toNat + (pageAt pageSize current _).data.length ≤ _
    rw [hoff p hp, length_pageAt]
    have := hlt p hp
    omega
  · intro page hpage
    obtain ⟨p, hp, rfl⟩ := hmem page hpage
    show pageAt pageSize current _ = pageAt pageSize current (ofNat (p * pageSize)).toNat
    rw [hoff p hp]
  · rintro offset ⟨p, rfl⟩ hin
    rw [mul_comm pageSize p] at hin ⊢
    rw [← pageDiffers_iff hpos p]
    constructor
    · rintro ⟨page, hpage, heq⟩
      obtain ⟨q, hq, rfl⟩ := hmem page hpage
      have heq' : (ofNat (q * pageSize)).toNat = p * pageSize := heq
      rw [hoff q hq] at heq'
      obtain rfl := eq_of_mul_eq_mul_right hpos heq'
      exact (mem_filter.mp hq).2
    · intro hdiff
      have hp : p ∈ hostDirtyPages pageSize previous current :=
        (mem_hostDirtyPages_iff hpos hlen).mpr hdiff
      refine ⟨dirtyPage regionId pageSize current (p * pageSize), ?_, hoff p hp⟩
      rw [hdelta]
      exact mem_map_of_mem hp

/-- The next epoch exceeds all epochs handed out as long as the counter has not
wrapped. -/
theorem Remembers.lt_nextEpoch_iff {h : History} (hr : Remembers h) :
    (∀ epoch ∈ h.epochs, epoch < h.state.nextEpoch) ↔ h.epochs.length < 2 ^ 64 - 1 := by
  have hmem : ∀ epoch, epoch ∈ h.epochs ↔
      ∃ k < h.epochs.length, ofNat (k + 1) = epoch := by
    intro epoch
    rw [hr.epochs, firstEpochs, mem_map, ← firstEpochs, ← hr.epochs]
    simp only [mem_range]
  constructor
  · intro hall
    by_contra hlong
    -- the largest epoch is among those handed out
    have hlast : (ofNat (2 ^ 64 - 2 + 1)) ∈ h.epochs :=
      (hmem _).mpr ⟨2 ^ 64 - 2, by omega, rfl⟩
    have hlt := hall _ hlast
    rw [lt_iff_toNat_lt, toNat_ofNat'] at hlt
    have := h.state.nextEpoch.toNat_lt
    omega
  · intro hshort epoch hepoch
    obtain ⟨k, hk, rfl⟩ := (hmem _).mp hepoch
    rw [hr.next, lt_iff_toNat_lt, toNat_ofNat', toNat_ofNat',
      mod_eq_of_lt (by omega), mod_eq_of_lt (by omega)]
    omega

/-- **Host deltas.** In every run, a host delta that is refused (unknown region,
another kind, another size) leaves the state as it was. One that is accepted
lists exactly the pages that changed since the contents passed last, leaves the
contents as shadow and every other region alone, and its epoch exceeds all those
handed out before, as long as fewer than `2 ^ 64 - 1` were. -/
theorem createHostDelta_exact {pageSize : Nat} {h : History}
    (hreach : (histories pageSize).Reachable h) (regionId : UInt64) (current : ByteVec) :
    match h.state.createHostDelta regionId current with
    | (.error _, state) => state = h.state ∧ ∀ region,
        h.state.findRegion regionId = some region → region.kind = .opaqueShadow →
          region.len ≠ current.length
    | (.ok delta, state) =>
        ExactPages h.state.pageSize regionId (h.seen regionId) current delta.dirtyPages ∧
        HoldsShadow state regionId current ∧
        (∀ id ≠ regionId, state.findRegion id = h.state.findRegion id) ∧
        ((∀ epoch ∈ h.epochs, epoch < delta.epoch) ↔ h.epochs.length < 2 ^ 64 - 1) := by
  have hr := remembers_of_reachable hreach
  cases hcreate : h.state.createHostDelta regionId current with
  | mk outcome state =>
    cases outcome with
    | error fault =>
      refine ⟨createHostDelta_error hcreate, ?_⟩
      intro region hfind hkind hlen
      have hholds : HoldsShadow h.state regionId (h.seen region.id) :=
        ⟨region, hfind, hkind, hr.shadow region (mem_of_lookup hfind) hkind⟩
      have hsize := region.shadow_length _ (hr.shadow region (mem_of_lookup hfind) hkind)
      obtain ⟨_, _, hok, _⟩ := hholds.createHostDelta (hlen.symm.trans hsize.symm)
      rw [hcreate] at hok
      cases hok
    | ok delta =>
      obtain ⟨region, shadow, hfind, hkind, hlen, hshadow, hdelta, hepoch, _, _, _, hregions⟩ :=
        createHostDelta_ok hcreate
      have hseen : h.seen regionId = shadow := by
        have hold := hr.shadow region (mem_of_lookup hfind) hkind
        rw [key_of_lookup hfind, hshadow] at hold
        exact (Option.some.inj hold).symm
      have hsize : current.length = shadow.length :=
        hlen.symm.trans (region.shadow_length shadow hshadow).symm
      have hholds : HoldsShadow h.state regionId shadow := ⟨region, hfind, hkind, hshadow⟩
      refine ⟨?_, hholds.setShadow hsize hregions, ?_, ?_⟩
      · rw [hseen]
        exact exactPages_of_pagesDelta h.state.pageSize_pos hsize hdelta
      · intro id hid
        show lookup _ _ state.regions = lookup _ _ _
        rw [hregions]
        exact lookup_updateFirst_of_ne hid (fun x => TrackedRegion.setShadow_id x current) _
      · rw [hepoch]
        exact hr.lt_nextEpoch_iff

theorem createHostDelta_exact_second_page : ∃ (h : History) (delta : DeltaRecord)
    (state : DeltaCheckpointState), (histories 2).Reachable h ∧
    h.state.createHostDelta 1 ⟨[0, 0, 5], by decide⟩ = (.ok delta, state) ∧
    ExactPages 2 1 ⟨[0, 0, 0], by decide⟩ ⟨[0, 0, 5], by decide⟩ delta.dirtyPages := by
  obtain ⟨h, hstep, hsize, hseen, delta, state, hcreate⟩ : ∃ h : History,
      (History.start 2).step (.registerOpaque 0 ⟨[0, 0, 0], by decide⟩) = some h ∧
        h.state.pageSize = 2 ∧ h.seen 1 = ⟨[0, 0, 0], by decide⟩ ∧
        ∃ delta state, h.state.createHostDelta 1 ⟨[0, 0, 5], by decide⟩ = (.ok delta, state) :=
    ⟨_, rfl, rfl, rfl, _, _, rfl⟩
  have hreach : (histories 2).Reachable h := .step (.init rfl) hstep
  have hexact := createHostDelta_exact hreach 1 ⟨[0, 0, 5], by decide⟩
  rw [hcreate, hsize, hseen] at hexact
  exact ⟨h, delta, state, hreach, hcreate, hexact.1⟩

/-! ## The counter wraps -/

/-- Any number of deltas of one region in a row. -/
theorem exists_history (contents : ByteVec) (n : Nat) : ∃ h, (histories 1).Reachable h ∧
    HoldsShadow h.state 1 contents ∧ h.epochs.length = n := by
  induction n with
  | zero =>
    obtain ⟨h, hstep, hholds, hepochs⟩ : ∃ h : History,
        (History.start 1).step (.registerOpaque 0 contents) = some h ∧
          HoldsShadow h.state 1 contents ∧ h.epochs.length = 0 :=
      ⟨_, rfl, ⟨_, rfl, rfl, rfl⟩, rfl⟩
    exact ⟨h, .step (.init rfl) hstep, hholds, hepochs⟩
  | succ n ih =>
    obtain ⟨h, hreach, hholds, hlen⟩ := ih
    obtain ⟨delta, after, hcreate, _, hholds'⟩ := hholds.createHostDelta rfl
    have hstep : h.step (.createHost 1 contents) = some
        { state := after, seen := update h.seen 1 contents
          epochs := h.epochs ++ [delta.epoch] } := by
      rw [History.step, hcreate]
      rfl
    exact ⟨_, .step hreach hstep, hholds', by simp [hlen]⟩

/-- After `2 ^ 64 - 1` deltas the next epoch is no longer the largest. -/
theorem epoch_wraps : ∃ (h : History) (delta : DeltaRecord) (state : DeltaCheckpointState),
    (histories 1).Reachable h ∧
    h.state.createHostDelta 1 ⟨[0], by decide⟩ = (.ok delta, state) ∧
    ∃ epoch ∈ h.epochs, ¬ epoch < delta.epoch := by
  obtain ⟨h, hreach, hholds, hlen⟩ := exists_history ⟨[0], by decide⟩ (2 ^ 64 - 1)
  obtain ⟨delta, state, hcreate, _⟩ := hholds.createHostDelta rfl
  refine ⟨h, delta, state, hreach, hcreate, ?_⟩
  have hnot := (remembers_of_reachable hreach).lt_nextEpoch_iff.not.mpr (by omega)
  obtain ⟨_, _, _, _, _, _, _, hepoch, _⟩ := createHostDelta_ok hcreate
  rw [← hepoch] at hnot
  simpa only [not_forall, exists_prop] using hnot

end Concordia.Runtime
