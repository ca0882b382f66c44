import ProjectDelta.ArenaAdmission

/-!
# How the arena grows

The growth path gives up when both calls of the system succeed and goes on when
the commit fails. It adds twice the missing pages to the capacity and does not
compare the sum to `maxCapacity`. Since the capacity never falls below the baseline,
a request whose doubled pages fit behind the baseline does not leave the zone.
-/

namespace ProjectDelta

namespace ThreadArena

variable (arena : ThreadArena) (size : BitVec 64) (alignment : Alignment)

/-- A failed commit returns `nullptr` and changes nothing; after a successful one there is a block
and the capacity has grown by what was committed. -/
def OutcomeHandled (asserts : Bool) (pageSize : BitVec 64) (os : OsOutcome) : Prop :=
  ∃ r, arena.allocate asserts pageSize os size alignment.value = some r ∧
    (os.commit = false →
      r.block = none ∧ r.arena.capacity = arena.capacity ∧ r.arena.offset = arena.offset) ∧
    (os.commit = true →
      r.block ≠ none ∧ ∃ range, r.request = some range ∧
        r.arena.capacity = arena.capacity + range.length)

variable {arena size alignment} {asserts : Bool} {pageSize : BitVec 64} {os : OsOutcome}

theorem outcomeHandled_iff (hadmits : arena.Admits size alignment.value)
    (hgrow : arena.totalSpace size alignment.value > arena.capacity) :
    arena.OutcomeHandled size alignment asserts pageSize os ↔
      os.commit = true ∧ os.lock = false := by
  have hsome : arena.allocate asserts pageSize os size alignment.value ≠ none :=
    fun hnone => (allocate_eq_none_iff.mp hnone).2 hadmits
  obtain ⟨r, hr⟩ := Option.ne_none_iff_exists'.mp hsome
  have hunique : arena.OutcomeHandled size alignment asserts pageSize os →
      (os.commit = false → r.block = none) ∧ (os.commit = true → r.block ≠ none) := by
    rintro ⟨r', hr', hfailed, hdone⟩
    obtain rfl := Option.some.inj (hr.symm.trans hr')
    exact ⟨fun h => (hfailed h).1, fun h => (hdone h).1⟩
  rcases allocate_cases hr with ⟨rfl, -, hcommit, hlock⟩ | ⟨rfl, -, hos⟩ | ⟨-, hnot⟩
  · constructor
    · exact fun h => absurd rfl ((hunique h).2 hcommit)
    · rintro ⟨-, hfailed⟩
      rw [hlock] at hfailed
      cases hfailed
  · constructor
    · intro h
      have hcommit : os.commit = true := by
        by_contra hfailed
        cases (hunique h).1 (Bool.eq_false_iff.mpr hfailed)
      exact ⟨hcommit, Bool.eq_false_iff.mpr fun hlock => hos ⟨hcommit, hlock⟩⟩
    · rintro ⟨hcommit, -⟩
      refine ⟨_, hr, fun hfailed => ?_, fun _ => ⟨Option.some_ne_none _, _, rfl, rfl⟩⟩
      rw [hcommit] at hfailed
      cases hfailed
  · exact absurd hgrow hnot

/-- The range is twice the missing pages, as far as the product does not wrap. -/
theorem spaceInPages_toNat (arena : ThreadArena) (size : BitVec 64) (alignment page : Alignment)
    (hgrow : arena.capacity.toNat < arena.exactSpace size alignment % 2 ^ 64) :
    (arena.spaceInPages page.value size alignment.value).toNat =
      2 * RoundUp.up (arena.exactSpace size alignment % 2 ^ 64 - arena.capacity.toNat)
        page.value.toNat % 2 ^ 64 := by
  have hbytes : (arena.bytesNeeded size alignment.value).toNat =
      arena.exactSpace size alignment % 2 ^ 64 - arena.capacity.toNat := by
    have hle : arena.capacity ≤ arena.totalSpace size alignment.value := by
      rw [BitVec.le_def, totalSpace_toNat]
      exact hgrow.le
    rw [bytesNeeded, BitVec.toNat_sub_of_le hle, totalSpace_toNat]
  have htwo : (2#64).toNat = 2 := by decide
  rw [spaceInPages, BitVec.toNat_mul, align_toNat_mod, hbytes, htwo]
  omega

theorem dvd_spaceInPages (arena : ThreadArena) (page : Alignment) (size alignment : BitVec 64) :
    page.value.toNat ∣ (arena.spaceInPages page.value size alignment).toNat := by
  rw [spaceInPages, BitVec.toNat_mul]
  exact (Nat.dvd_mod_iff page.dvd_word).mpr (Dvd.dvd.mul_right (dvd_align _ page) _)

end ThreadArena

namespace ArenaHistory

/-! ### The capacity is committed -/

/-- The bytes up to the capacity are committed. -/
structure CapacityCommitted (s : ArenaHistory) : Prop where
  fits : s.arena.backingMemory.toNat + s.arena.capacity.toNat < 2 ^ 64
  covered : ∀ a, s.arena.backingMemory.toNat ≤ a →
    a < s.arena.backingMemory.toNat + s.arena.capacity.toNat → s.Committed a

variable {pageSize : BitVec 64} {asserts : Bool}

theorem CapacityCommitted.step (s : ArenaHistory) (call : ArenaCall) (s' : ArenaHistory)
    (h : CapacityCommitted s) (hg : CommitSucceeds pageSize s call)
    (hn : (machine asserts pageSize).next s call = some s') : CapacityCommitted s' := by
  cases next_step hn with
  | allocate hr =>
      rcases ThreadArena.allocate_cases hr with ⟨rfl, -⟩ | ⟨rfl, hgrow, -⟩ | ⟨rfl, -⟩
      · exact ⟨h.fits, fun a hlo hhi => (h.covered a hlo hhi).afterAllocate _⟩
      · obtain ⟨hok, hrange⟩ := hg hgrow
        obtain ⟨hfits, -, hcontains⟩ := request_contains h.fits hrange
        exact ⟨hfits, covered_afterAllocate _ h.covered
          fun a hlo hhi => ⟨hok, _, rfl, hcontains a hlo hhi⟩⟩
      · exact ⟨h.fits, fun a hlo hhi => (h.covered a hlo hhi).afterAllocate _⟩
  | reset => exact ⟨h.fits, h.covered⟩
  | taskBegin => exact ⟨h.fits, h.covered⟩
  | taskEnd => exact ⟨h.fits, h.covered⟩

/-- A growth step treats the system's outcome right exactly when the commit succeeds and the lock
fails; the capacity stays committed in every run in which no commit fails. -/
theorem growth_outcomes (site : ArenaSite) (asserts : Bool) (pageSize : BitVec 64) :
    (∀ (arena : ThreadArena) (size : BitVec 64) (alignment : Alignment) (os : OsOutcome),
      arena.Admits size alignment.value →
      arena.totalSpace size alignment.value > arena.capacity →
        (arena.OutcomeHandled size alignment asserts pageSize os ↔
          os.commit = true ∧ os.lock = false)) ∧
      ∀ s, (machine asserts pageSize).ReachIf (CommitSucceeds pageSize) (start site) s →
        ∀ a, s.arena.backingMemory.toNat ≤ a →
          a < s.arena.backingMemory.toNat + s.arena.capacity.toNat → s.Committed a := by
  constructor
  · intro arena size alignment os hadmits hgrow
    exact ThreadArena.outcomeHandled_iff hadmits hgrow
  · intro s hs
    have hstart := start_commitInv site
    exact (hs.invariant CapacityCommitted.step ⟨hstart.fits, hstart.covered⟩).covered

theorem growth_outcomes_growing :
    (start transientSite).arena.OutcomeHandled 70000000#64 cacheLine true 4096#64 ⟨true, false⟩ ∧
      ∃ s : ArenaHistory, s.arena.capacity = 72892416#64 ∧
        ∀ a, s.arena.backingMemory.toNat ≤ a →
          a < s.arena.backingMemory.toNat + s.arena.capacity.toNat → s.Committed a := by
  obtain ⟨hstep, hrun⟩ := growth_outcomes transientSite true 4096#64
  constructor
  · exact (hstep _ _ _ _ (by unfold ThreadArena.Admits; decide) (by decide)).mpr ⟨rfl, rfl⟩
  · exact ⟨((machine true 4096#64).exec (start transientSite) growingCalls).getD (start transientSite),
      by decide, hrun _ (growing_reach.mono fun _ _ hg => hg.1)⟩

/-- The commit fails, and the arena hands out a block and grows. -/
theorem failed_commit_grows :
    ¬ ∀ (site : ArenaSite) (asserts : Bool) (pageSize : BitVec 64) (s : ArenaHistory),
      (machine asserts pageSize).Reach (start site) s → ∀ size alignment os,
        s.arena.Admits size alignment.value →
        s.arena.totalSpace size alignment.value > s.arena.capacity →
          s.arena.OutcomeHandled size alignment asserts pageSize os := by
  intro h
  have hhandled := h transientSite true 4096#64 (start transientSite) (Machine.ReachIf.refl _)
    70000000#64 cacheLine ⟨false, false⟩ (by unfold ThreadArena.Admits; decide) (by decide)
  rw [ThreadArena.outcomeHandled_iff (by unfold ThreadArena.Admits; decide) (by decide)] at hhandled
  exact absurd hhandled (by decide)

/-! ### The zone of the arena -/

/-- Padding and size are within the baseline, or twice the pages that they need beyond it fit behind
it. -/
def RequestFits (site : ArenaSite) (page : Alignment) (s : ArenaHistory) : ArenaCall → Prop
  | .allocate size alignment _ =>
      site.baseline.toNat < s.arena.exactSpace size alignment % 2 ^ 64 →
        site.baseline.toNat + 2 * RoundUp.up
          (s.arena.exactSpace size alignment % 2 ^ 64 - site.baseline.toNat) page.value.toNat ≤
            site.maxCapacity.toNat
  | _ => True

/-- The arena keeps to its zone, and has grown by whole pages. -/
structure InZone (site : ArenaSite) (page : Alignment) (s : ArenaHistory) : Prop where
  backing : s.arena.backingMemory = site.pageCoord.virtualAddressBase + site.offset
  maxCapacity : s.arena.maxCapacity = site.maxCapacity
  baseline_le : site.baseline.toNat ≤ s.arena.capacity.toNat
  pages : page.value.toNat ∣ s.arena.capacity.toNat - site.baseline.toNat
  capacity_le : s.arena.capacity.toNat ≤ s.arena.maxCapacity.toNat
  committed : ∀ r ∈ s.committed, r.Inside s.arena.fullRange

variable {site : ArenaSite} {page : Alignment} {s : ArenaHistory}

theorem start_inZone (site : ArenaSite) (page : Alignment) : InZone site page (start site) where
  backing := rfl
  maxCapacity := rfl
  baseline_le := le_rfl
  pages := ⟨0, Nat.sub_self _⟩
  capacity_le := site.baseline_le
  committed := by
    intro r hr
    obtain rfl := List.mem_singleton.mp hr
    exact MemoryRange.inside_of_le le_rfl (Nat.add_le_add_left site.baseline_le _)

theorem InZone.fits (h : InZone site page s) :
    s.arena.backingMemory.toNat + s.arena.maxCapacity.toNat < 2 ^ 64 := by
  rw [h.backing, h.maxCapacity]
  exact site.fits

/-- The doubled pages fit behind the capacity, as that is not below the baseline. -/
theorem InZone.space_fits (h : InZone site page s) {size : BitVec 64} {alignment : Alignment}
    {os : OsOutcome} (hg : RequestFits site page s (.allocate size alignment os))
    (hspace : s.arena.capacity.toNat < s.arena.exactSpace size alignment % 2 ^ 64) :
    s.arena.capacity.toNat + (s.arena.spaceInPages page.value size alignment.value).toNat ≤
      s.arena.maxCapacity.toNat := by
  have hroom := hg (h.baseline_le.trans_lt hspace)
  have hgrown := RoundUp.add_two_up_le page.value_pos h.baseline_le h.pages hspace
  have hmod := Nat.mod_le (2 * RoundUp.up
    (s.arena.exactSpace size alignment % 2 ^ 64 - s.arena.capacity.toNat) page.value.toNat) (2 ^ 64)
  rw [h.maxCapacity, s.arena.spaceInPages_toNat size alignment page hspace]
  omega

/-- What a growth step passes to `Memory_Commit`, and the capacity that it leaves. -/
theorem InZone.request (h : InZone site page s) {size : BitVec 64} {alignment : Alignment}
    {os : OsOutcome} (hg : RequestFits site page s (.allocate size alignment os))
    (hgrow : s.arena.totalSpace size alignment.value > s.arena.capacity) :
    (MemoryRange.mk s.arena.targetAddress
        (s.arena.spaceInPages page.value size alignment.value)).Inside s.arena.fullRange ∧
      (s.arena.capacity + s.arena.spaceInPages page.value size alignment.value).toNat =
        s.arena.capacity.toNat + (s.arena.spaceInPages page.value size alignment.value).toNat ∧
      s.arena.capacity.toNat + (s.arena.spaceInPages page.value size alignment.value).toNat ≤
        s.arena.maxCapacity.toNat := by
  have hfits := h.fits
  have hcapacity := h.capacity_le
  have hspace : s.arena.capacity.toNat < s.arena.exactSpace size alignment % 2 ^ 64 := by
    rwa [gt_iff_lt, BitVec.lt_def, ThreadArena.totalSpace_toNat] at hgrow
  have hroom := h.space_fits hg hspace
  have htarget : s.arena.targetAddress.toNat =
      s.arena.backingMemory.toNat + s.arena.capacity.toNat := targetAddress_toNat (by omega)
  refine ⟨?_, ?_, hroom⟩
  · apply MemoryRange.inside_of_le
    · change s.arena.backingMemory.toNat ≤ s.arena.targetAddress.toNat
      omega
    · change s.arena.targetAddress.toNat +
        (s.arena.spaceInPages page.value size alignment.value).toNat ≤
          s.arena.backingMemory.toNat + s.arena.maxCapacity.toNat
      omega
  · rw [BitVec.toNat_add, Nat.mod_eq_of_lt (by omega)]

/-- Every range that a guarded call passes to `Memory_Commit` is in the zone. -/
theorem InZone.allocate_request (h : InZone site page s) {size : BitVec 64} {alignment : Alignment}
    {os : OsOutcome} {r : Allocation} (hg : RequestFits site page s (.allocate size alignment os))
    (hr : s.arena.allocate asserts page.value os size alignment.value = some r) :
    ∀ range ∈ r.request, range.Inside s.arena.fullRange := by
  intro range hrange
  rcases ThreadArena.allocate_cases hr with ⟨rfl, hgrow, -⟩ | ⟨rfl, hgrow, -⟩ | ⟨rfl, -⟩
  · obtain rfl := Option.some.inj hrange
    exact (h.request hg hgrow).1
  · obtain rfl := Option.some.inj hrange
    exact (h.request hg hgrow).1
  · cases hrange

/-- The growth path adds whole pages to the capacity. -/
theorem InZone.grow (h : InZone site page s) {size : BitVec 64} {alignment : Alignment}
    {os : OsOutcome} {offset : BitVec 64} {block : Option (BitVec 64)} {request : Option MemoryRange}
    (hg : RequestFits site page s (.allocate size alignment os))
    (hgrow : s.arena.totalSpace size alignment.value > s.arena.capacity)
    (hcommitted : ∀ c ∈ if os.commit then request.toList ++ s.committed else s.committed,
      c.Inside s.arena.fullRange) :
    InZone site page (s.afterAllocate size alignment os
      ⟨{ s.arena with
          capacity := s.arena.capacity + s.arena.spaceInPages page.value size alignment.value
          offset := offset }, block, request⟩) := by
  obtain ⟨-, hsum, hle⟩ := h.request hg hgrow
  have hbaseline := h.baseline_le
  refine ⟨h.backing, h.maxCapacity, ?_, ?_, ?_, hcommitted⟩
  · change site.baseline.toNat ≤ (_ + _ : BitVec 64).toNat
    omega
  · change page.value.toNat ∣ (_ + _ : BitVec 64).toNat - site.baseline.toNat
    rw [hsum, Nat.sub_add_comm hbaseline]
    exact Nat.dvd_add h.pages (s.arena.dvd_spaceInPages ..)
  · exact hsum.trans_le hle

theorem InZone.step (s : ArenaHistory) (call : ArenaCall) (s' : ArenaHistory) (h : InZone site page s)
    (hg : RequestFits site page s call) (hn : (machine asserts page.value).next s call = some s') :
    InZone site page s' := by
  cases next_step hn with
  | @allocate size alignment os r hr =>
      have hcommitted : ∀ c ∈ if os.commit then r.request.toList ++ s.committed else s.committed,
          c.Inside s.arena.fullRange := by
        intro c hc
        split at hc
        · rcases List.mem_append.mp hc with hnew | hold
          · exact h.allocate_request hg hr c (Option.mem_toList.mp hnew)
          · exact h.committed c hold
        · exact h.committed c hc
      rcases ThreadArena.allocate_cases hr with ⟨rfl, -⟩ | ⟨rfl, hgrow, -⟩ | ⟨rfl, -⟩
      · exact ⟨h.backing, h.maxCapacity, h.baseline_le, h.pages, h.capacity_le, hcommitted⟩
      · exact h.grow hg hgrow hcommitted
      · exact ⟨h.backing, h.maxCapacity, h.baseline_le, h.pages, h.capacity_le, hcommitted⟩
  | reset | taskBegin | taskEnd =>
      exact ⟨h.backing, h.maxCapacity, h.baseline_le, h.pages, h.capacity_le, h.committed⟩

/-- What the check lets a fresh arena get. -/
theorem start_admits_le {size : BitVec 64} {alignment : Alignment}
    (h : (start site).arena.Admits size alignment.value) :
    (start site).arena.exactSpace size alignment % 2 ^ 64 ≤ site.maxCapacity.toNat := by
  have hle := ((start site).arena.admits_iff size alignment).mp h
  have hoffset : (start site).arena.offset.toNat = 0 := rfl
  rw [ThreadArena.exactNeed_eq, hoffset, Nat.zero_add] at hle
  exact hle

/-- A first request that the check lets through stays in the zone only if it fits. -/
theorem start_requestFits (hpages : page.value.toNat ∣ site.maxCapacity.toNat)
    (hmax : site.maxCapacity.toNat < 2 ^ 63) {size : BitVec 64} {alignment : Alignment}
    {os : OsOutcome} {r : Allocation} (hadmits : (start site).arena.Admits size alignment.value)
    (hr : (start site).arena.allocate asserts page.value os size alignment.value = some r)
    (hinside : ∀ range ∈ r.request, range.Inside (start site).arena.fullRange) :
    RequestFits site page (start site) (.allocate size alignment os) := by
  intro hspace
  have hneed := start_admits_le hadmits
  have hrest : 0 < (start site).arena.exactSpace size alignment % 2 ^ 64 - site.baseline.toNat := by
    omega
  generalize hup : RoundUp.up ((start site).arena.exactSpace size alignment % 2 ^ 64 -
    site.baseline.toNat) page.value.toNat = rounded
  -- the doubled pages do not wrap, as the request fits into whole pages
  have hrounded : rounded ≤ site.maxCapacity.toNat := by
    rw [← hup]
    exact RoundUp.up_le page.value_pos hpages (by omega)
  have hpos : 0 < rounded := by
    rw [← hup]
    exact hrest.trans_le (RoundUp.le_up _ page.value_pos)
  have hlength : ((start site).arena.spaceInPages page.value size alignment.value).toNat =
      2 * rounded := by
    have hword := (start site).arena.spaceInPages_toNat size alignment page hspace
    change _ = 2 * RoundUp.up ((start site).arena.exactSpace size alignment % 2 ^ 64 -
      site.baseline.toNat) page.value.toNat % 2 ^ 64 at hword
    rw [hword, hup]
    exact Nat.mod_eq_of_lt (by omega)
  have htarget : (start site).arena.targetAddress.toNat =
      (start site).arena.backingMemory.toNat + site.baseline.toNat := by
    have hzone := start_inZone site page
    have hfits := hzone.fits
    have hcapacity := hzone.capacity_le
    rw [targetAddress_toNat (by omega)]
    rfl
  have hrequest : ⟨(start site).arena.targetAddress,
      (start site).arena.spaceInPages page.value size alignment.value⟩ ∈ r.request := by
    rcases ThreadArena.allocate_cases hr with ⟨rfl, -⟩ | ⟨rfl, -⟩ | ⟨-, hnot⟩
    · exact rfl
    · exact rfl
    · rw [gt_iff_lt, BitVec.lt_def, ThreadArena.totalSpace_toNat] at hnot
      exact absurd hspace hnot
  -- the last byte of the range
  have hlast := hinside _ hrequest
    ((start site).arena.backingMemory.toNat + site.baseline.toNat + 2 * rounded - 1)
    ⟨by rw [htarget]; omega, by rw [htarget, hlength]; omega⟩
  have hend : (start site).arena.backingMemory.toNat + site.baseline.toNat + 2 * rounded - 1 <
      (start site).arena.backingMemory.toNat + site.maxCapacity.toNat := hlast.2
  omega

/-- In every run whose requests fit behind the baseline with their doubled pages, the capacity stays
below `maxCapacity` and every commit in the zone. The first request of an arena that the check lets
through stays in the zone only then. -/
theorem growth_in_zone (site : ArenaSite) (asserts : Bool) (page : Alignment) :
    (∀ s, (machine asserts page.value).ReachIf (RequestFits site page) (start site) s →
      s.arena.capacity.toNat ≤ s.arena.maxCapacity.toNat ∧
        (∀ r ∈ s.committed, r.Inside s.arena.fullRange) ∧
        ∀ size alignment os r, RequestFits site page s (.allocate size alignment os) →
          s.arena.allocate asserts page.value os size alignment.value = some r →
            ∀ range ∈ r.request, range.Inside s.arena.fullRange) ∧
      (page.value.toNat ∣ site.maxCapacity.toNat → site.maxCapacity.toNat < 2 ^ 63 →
        ∀ size alignment os r, (start site).arena.Admits size alignment.value →
          (start site).arena.allocate asserts page.value os size alignment.value = some r →
            ((∀ range ∈ r.request, range.Inside (start site).arena.fullRange) ↔
              RequestFits site page (start site) (.allocate size alignment os))) := by
  constructor
  · intro s hs
    have hzone := hs.invariant InZone.step (start_inZone site page)
    exact ⟨hzone.capacity_le, hzone.committed, fun _ _ _ _ hg hr => hzone.allocate_request hg hr⟩
  · intro hpages hmax size alignment os r hadmits hr
    exact ⟨start_requestFits hpages hmax hadmits hr,
      fun hg => (start_inZone site page).allocate_request hg hr⟩

instance (site : ArenaSite) (page : Alignment) (s : ArenaHistory) :
    ∀ call, Decidable (RequestFits site page s call)
  | .allocate _ _ _ => by
      unfold RequestFits
      infer_instance
  | .reset | .taskBegin | .taskEnd => isTrue trivial

theorem growth_in_zone_growing : ∃ s : ArenaHistory, s.arena.capacity = 72892416#64 ∧
    s.arena.capacity.toNat ≤ s.arena.maxCapacity.toNat ∧
      ∀ r ∈ s.committed, r.Inside s.arena.fullRange := by
  have hrun := (growth_in_zone transientSite true .smallPage).1
    (((machine true Alignment.smallPage.value).exec (start transientSite) growingCalls).getD
      (start transientSite)) (Machine.reachIf_of_exec growingCalls rfl (by decide))
  exact ⟨_, by decide, hrun.1, hrun.2.1⟩

/-- One request for the whole transient arena. -/
theorem growth_leaves_zone :
    ¬ ∀ (site : ArenaSite) (asserts : Bool) (page : Alignment) (s : ArenaHistory),
      page.value.toNat ∣ site.maxCapacity.toNat →
      (machine asserts page.value).Reach (start site) s →
        ∀ (size : BitVec 64) (alignment : Alignment) (os : OsOutcome) (r : Allocation),
          s.arena.Admits size alignment.value →
          s.arena.allocate asserts page.value os size alignment.value = some r →
            ∀ range ∈ r.request, range.Inside s.arena.fullRange := by
  intro h
  have hinside := h transientSite true .smallPage (start transientSite) (by decide)
    (Machine.ReachIf.refl _) 1073741824#64 cacheLine ⟨true, false⟩ _
    (by unfold ThreadArena.Admits; decide) rfl _ rfl
  have hpast : (MemoryRange.mk (start transientSite).arena.targetAddress
      ((start transientSite).arena.spaceInPages Alignment.smallPage.value 1073741824#64
        cacheLine.value)).Contains 1073807360 := by decide
  have hzone : (start transientSite).arena.fullRange.Contains 1073807360 := hinside _ hpast
  exact absurd hzone (by decide)

end ArenaHistory
end ProjectDelta
