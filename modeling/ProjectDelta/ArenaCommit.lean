import ProjectDelta.ArenaHistory

/-!
# Committed memory of one arena

The committed bytes are the baseline and every range for which `Memory_Commit`
succeeded. The arena grows when `totalSpace` exceeds the capacity, but the block
ends at the offset plus `totalSpace`. `GrowthCovers` says when that end is within
the capacity, or within what the growth path adds to it.
-/

namespace ProjectDelta

namespace ArenaHistory

def Committed (s : ArenaHistory) (a : ℕ) : Prop := ∃ r ∈ s.committed, r.Contains a

instance (s : ArenaHistory) (a : ℕ) : Decidable (s.Committed a) :=
  inferInstanceAs (Decidable (∃ r ∈ s.committed, r.Contains a))

/-- `Memory_Commit` succeeds when it is called, on a range that does not wrap. -/
def CommitSucceeds (pageSize : BitVec 64) (s : ArenaHistory) : ArenaCall → Prop
  | .allocate size alignment os =>
      s.arena.totalSpace size alignment.value > s.arena.capacity →
        os.commit = true ∧ s.arena.targetAddress.toNat +
          (s.arena.spaceInPages pageSize size alignment.value).toNat < 2 ^ 64
  | _ => True

/-- The test against `maxCapacity` as the code makes it. -/
def PassesCheck (s : ArenaHistory) : ArenaCall → Prop
  | .allocate size alignment _ =>
      ¬ s.arena.offset + s.arena.totalSpace size alignment.value > s.arena.maxCapacity
  | _ => True

/-- The end of the block is within the capacity that the call leaves. When the
arena grows and the lock succeeds there is no block. -/
def GrowthCovers (pageSize : BitVec 64) (s : ArenaHistory) : ArenaCall → Prop
  | .allocate size alignment os =>
      if s.arena.totalSpace size alignment.value > s.arena.capacity then
        os.lock = true ∨ s.arena.exactNeed size alignment ≤
          s.arena.capacity.toNat + (s.arena.spaceInPages pageSize size alignment.value).toNat
      else s.arena.exactNeed size alignment ≤ s.arena.capacity.toNat
  | _ => True

/-- The bytes up to the capacity are committed and the offset stays below it. -/
structure CommitInv (s : ArenaHistory) : Prop where
  fits : s.arena.backingMemory.toNat + s.arena.capacity.toNat < 2 ^ 64
  offset_le : s.arena.offset.toNat ≤ s.arena.capacity.toNat
  snapshots_le : ∀ o ∈ s.snapshots, o.toNat ≤ s.arena.capacity.toNat
  covered : ∀ a, s.arena.backingMemory.toNat ≤ a →
    a < s.arena.backingMemory.toNat + s.arena.capacity.toNat → s.Committed a
  returned : ∀ b ∈ s.returned, ∀ a, b.Contains a → s.Committed a

theorem start_commitInv (site : ArenaSite) : CommitInv (start site) where
  fits := by
    have hfits := site.fits
    have hbaseline := site.baseline_le
    change (site.pageCoord.virtualAddressBase + site.offset).toNat + site.baseline.toNat < 2 ^ 64
    omega
  offset_le := Nat.zero_le _
  snapshots_le := fun _ ho => absurd ho List.not_mem_nil
  covered := fun a hlo hhi => ⟨_, List.mem_singleton_self _, hlo, hhi⟩
  returned := fun _ hb => absurd hb List.not_mem_nil

variable {pageSize size : BitVec 64} {alignment : Alignment} {os : OsOutcome} {s : ArenaHistory}

theorem Committed.afterAllocate (r : Allocation) {a : ℕ} (h : s.Committed a) :
    (s.afterAllocate size alignment os r).Committed a := by
  obtain ⟨c, hc, ha⟩ := h
  refine ⟨c, ?_, ha⟩
  change c ∈ if os.commit then r.request.toList ++ s.committed else s.committed
  split
  · exact List.mem_append_right _ hc
  · exact hc

/-- Up to `hi` the bytes are committed when those above `mid` are in the range of the call. -/
theorem covered_afterAllocate (r : Allocation) {lo mid hi : ℕ}
    (hold : ∀ a, lo ≤ a → a < mid → s.Committed a)
    (hnew : ∀ a, mid ≤ a → a < hi → os.commit = true ∧ ∃ c ∈ r.request, c.Contains a) :
    ∀ a, lo ≤ a → a < hi → (s.afterAllocate size alignment os r).Committed a := by
  intro a hlo hhi
  rcases lt_or_ge a mid with hbelow | habove
  · exact (hold a hlo hbelow).afterAllocate r
  · obtain ⟨hcommit, c, hc, ha⟩ := hnew a habove hhi
    refine ⟨c, ?_, ha⟩
    change c ∈ if os.commit then r.request.toList ++ s.committed else s.committed
    rw [if_pos hcommit]
    exact List.mem_append_left _ (Option.mem_toList.mpr hc)

theorem targetAddress_toNat
    (hfits : s.arena.backingMemory.toNat + s.arena.capacity.toNat < 2 ^ 64) :
    s.arena.targetAddress.toNat = s.arena.backingMemory.toNat + s.arena.capacity.toNat := by
  rw [ThreadArena.targetAddress, BitVec.toNat_add, Nat.mod_eq_of_lt hfits]

/-- The range that the growth path commits is what it adds to the capacity. -/
theorem request_contains {space : BitVec 64}
    (hfits : s.arena.backingMemory.toNat + s.arena.capacity.toNat < 2 ^ 64)
    (hrange : s.arena.targetAddress.toNat + space.toNat < 2 ^ 64) :
    s.arena.backingMemory.toNat + (s.arena.capacity + space).toNat < 2 ^ 64 ∧
      (s.arena.capacity + space).toNat = s.arena.capacity.toNat + space.toNat ∧
      ∀ a, s.arena.backingMemory.toNat + s.arena.capacity.toNat ≤ a →
        a < s.arena.backingMemory.toNat + (s.arena.capacity + space).toNat →
          (MemoryRange.mk s.arena.targetAddress space).Contains a := by
  rw [targetAddress_toNat hfits] at hrange
  have hcapacity : (s.arena.capacity + space).toNat = s.arena.capacity.toNat + space.toNat := by
    rw [BitVec.toNat_add, Nat.mod_eq_of_lt (by omega)]
  refine ⟨by omega, hcapacity, fun a hlo hhi => ?_⟩
  change s.arena.targetAddress.toNat ≤ a ∧ a < s.arena.targetAddress.toNat + space.toNat
  rw [targetAddress_toNat hfits]
  omega

/-- An allocation that leaves a committed capacity above its block. -/
theorem CommitInv.handOut (h : CommitInv s) {capacity : BitVec 64} {request : Option MemoryRange}
    (hgrows : s.arena.capacity.toNat ≤ capacity.toNat)
    (hfits : s.arena.backingMemory.toNat + capacity.toNat < 2 ^ 64)
    (hneed : s.arena.exactNeed size alignment ≤ capacity.toNat)
    (hnew : ∀ a, s.arena.backingMemory.toNat + s.arena.capacity.toNat ≤ a →
      a < s.arena.backingMemory.toNat + capacity.toNat →
        os.commit = true ∧ ∃ r ∈ request, r.Contains a) :
    CommitInv (s.afterAllocate size alignment os
      ⟨{ s.arena with
          capacity := capacity
          offset := s.arena.offset + s.arena.totalSpace size alignment.value },
        some (s.arena.alignedAddress alignment.value), request⟩) := by
  have hexact := ThreadArena.exact_of_fits hfits hneed
  have haligned := hexact.aligned
  have hend : s.arena.exactNeed size alignment =
    s.arena.offset.toNat + s.arena.exactPadding alignment + size.toNat := rfl
  have hcovered : ∀ a, s.arena.backingMemory.toNat ≤ a →
      a < s.arena.backingMemory.toNat + capacity.toNat →
      (s.afterAllocate size alignment os
        ⟨{ s.arena with
            capacity := capacity
            offset := s.arena.offset + s.arena.totalSpace size alignment.value },
          some (s.arena.alignedAddress alignment.value), request⟩).Committed a :=
    covered_afterAllocate _ h.covered hnew
  refine ⟨hfits, ?_, fun o ho => (h.snapshots_le o ho).trans hgrows, hcovered, ?_⟩
  · change (s.arena.offset + s.arena.totalSpace size alignment.value).toNat ≤ capacity.toNat
    rw [hexact.offset]
    exact hneed
  · intro b hb a ha
    rcases List.mem_cons.mp hb with rfl | hold
    · obtain ⟨hlo, hhi⟩ : (s.arena.alignedAddress alignment.value).toNat ≤ a ∧
        a < (s.arena.alignedAddress alignment.value).toNat + size.toNat := ha
      exact hcovered a (by omega) (by omega)
    · exact (h.returned b hold a ha).afterAllocate _

theorem CommitInv.allocate {asserts : Bool} {r : Allocation} (h : CommitInv s)
    (hcommit : CommitSucceeds pageSize s (.allocate size alignment os))
    (hcovers : GrowthCovers pageSize s (.allocate size alignment os))
    (hr : s.arena.allocate asserts pageSize os size alignment.value = some r) :
    CommitInv (s.afterAllocate size alignment os r) := by
  simp only [GrowthCovers] at hcovers
  rcases ThreadArena.allocate_cases hr with ⟨rfl, -⟩ | ⟨rfl, hgrow, hos⟩ | ⟨rfl, hgrow⟩
  · exact ⟨h.fits, h.offset_le, h.snapshots_le, fun a hlo hhi => (h.covered a hlo hhi).afterAllocate _,
      fun b hb a ha => (h.returned b hb a ha).afterAllocate _⟩
  · obtain ⟨hok, hrange⟩ := hcommit hgrow
    rw [if_pos hgrow] at hcovers
    have hneed := hcovers.resolve_left fun hlock => hos ⟨hok, hlock⟩
    obtain ⟨hend, hcapacity, hcontains⟩ := request_contains h.fits hrange
    apply h.handOut
    · omega
    · exact hend
    · omega
    · exact fun a hlo hhi => ⟨hok, _, rfl, hcontains a hlo hhi⟩
  · rw [if_neg hgrow] at hcovers
    apply h.handOut le_rfl h.fits hcovers
    intro a hlo hhi
    omega

theorem CommitInv.step {asserts : Bool} (s : ArenaHistory) (call : ArenaCall) (s' : ArenaHistory)
    (h : CommitInv s) (hg : CommitSucceeds pageSize s call ∧ GrowthCovers pageSize s call)
    (hn : (machine asserts pageSize).next s call = some s') : CommitInv s' := by
  cases next_step hn with
  | allocate hr => exact h.allocate hg.1 hg.2 hr
  | reset => exact ⟨h.fits, Nat.zero_le _, h.snapshots_le, h.covered, h.returned⟩
  | taskBegin =>
      have hsnapshots : ∀ o ∈ s.arena.offset :: s.snapshots, o.toNat ≤ s.arena.capacity.toNat :=
        List.forall_mem_cons.mpr ⟨h.offset_le, h.snapshots_le⟩
      exact ⟨h.fits, h.offset_le, hsnapshots, h.covered, h.returned⟩
  | taskEnd hsnap =>
      have hle := h.snapshots_le
      rw [hsnap] at hle
      obtain ⟨hsnapshot, hrest⟩ := List.forall_mem_cons.mp hle
      exact ⟨h.fits, hsnapshot, hrest, h.covered, h.returned⟩

/-- Every block lies in committed bytes, in every run in which the growth test
and the growth cover the offset. -/
theorem returned_committed (site : ArenaSite) (asserts : Bool) (pageSize : BitVec 64)
    (s : ArenaHistory)
    (hs : (machine asserts pageSize).ReachIf
      (fun s call => CommitSucceeds pageSize s call ∧ GrowthCovers pageSize s call) (start site) s) :
    ∀ b ∈ s.returned, ∀ a, b.Contains a → s.Committed a :=
  (hs.invariant CommitInv.step (start_commitInv site)).returned

instance (pageSize : BitVec 64) (s : ArenaHistory) :
    ∀ call, Decidable (CommitSucceeds pageSize s call ∧ GrowthCovers pageSize s call)
  | .allocate _ _ _ => by
      unfold CommitSucceeds GrowthCovers
      infer_instance
  | .reset | .taskBegin | .taskEnd => isTrue ⟨trivial, trivial⟩

/-- The second call grows the arena, with a lock that fails. -/
def growingCalls : List ArenaCall :=
  [.allocate 64#64 cacheLine ⟨true, true⟩, .allocate 70000000#64 cacheLine ⟨true, false⟩]

theorem growing_reach : (machine true 4096#64).ReachIf
    (fun s call => CommitSucceeds 4096#64 s call ∧ GrowthCovers 4096#64 s call) (start transientSite)
    (((machine true 4096#64).exec (start transientSite) growingCalls).getD (start transientSite)) :=
  Machine.reachIf_of_exec growingCalls rfl (by decide)

theorem returned_committed_growing : ∃ s : ArenaHistory,
    s.arena.capacity = 72892416#64 ∧ s.returned.length = 2 ∧
      ∀ b ∈ s.returned, ∀ a, b.Contains a → s.Committed a :=
  ⟨((machine true 4096#64).exec (start transientSite) growingCalls).getD (start transientSite),
    by decide, by decide, returned_committed transientSite true 4096#64 _ growing_reach⟩

/-- The whole baseline, then eight bytes more: no growth, and the second block
starts where the committed bytes end. -/
def consumedBaseline : List ArenaCall :=
  [.allocate MemoryMap.virtZoneTaBaseline cacheLine ⟨true, true⟩,
    .allocate 8#64 cacheLine ⟨true, true⟩]

instance (pageSize : BitVec 64) (s : ArenaHistory) :
    ∀ call, Decidable (CommitSucceeds pageSize s call ∧ PassesCheck s call)
  | .allocate _ _ _ => by
      unfold CommitSucceeds PassesCheck
      infer_instance
  | .reset | .taskBegin | .taskEnd => isTrue ⟨trivial, trivial⟩

theorem block_past_baseline :
    ¬ ∀ (site : ArenaSite) (pageSize : BitVec 64) (s : ArenaHistory),
      (machine true pageSize).ReachIf
        (fun s call => CommitSucceeds pageSize s call ∧ PassesCheck s call) (start site) s →
      ∀ b ∈ s.returned, ∀ a, b.Contains a → s.Committed a := by
  intro h
  let s := ((machine true 4096#64).exec (start transientSite) consumedBaseline).getD
    (start transientSite)
  have hrun : s.Committed 67174400 := h transientSite 4096#64 s
    (Machine.reachIf_of_exec consumedBaseline rfl (by decide)) ⟨67174400#64, 8#64, cacheLine⟩
    List.mem_cons_self 67174400 ⟨by decide, by decide⟩
  exact absurd hrun (by decide)

end ArenaHistory
end ProjectDelta
