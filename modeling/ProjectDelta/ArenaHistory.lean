import Mathlib.Data.List.Flatten
import ProjectDelta.BumpRegions
import ProjectDelta.Machine
import ProjectDelta.ThreadArena

/-!
# Histories of one arena

Allocations, resets and the brackets in which `Scheduler_Sync` runs a task, in
any order. `blocks` is a ghost: the intervals in use, as `BumpRegions` keeps
them. The arena simulates it, so what is in use is disjoint and below the
offset. What is in use need not be committed: the growth test leaves out the
offset.
-/

namespace ProjectDelta

/-- Where and how large an arena is. Its range ends before the address space does. -/
structure ArenaSite where
  pageCoord : ThreadPageCoordinator
  offset : BitVec 64
  baseline : BitVec 64
  maxCapacity : BitVec 64
  fits : (pageCoord.virtualAddressBase + offset).toNat + maxCapacity.toNat < 2 ^ 64
  baseline_le : baseline.toNat ≤ maxCapacity.toNat

structure ArenaBlock where
  start : BitVec 64
  size : BitVec 64
  alignment : Alignment

namespace ArenaBlock

def Contains (b : ArenaBlock) (a : ℕ) : Prop :=
  b.start.toNat ≤ a ∧ a < b.start.toNat + b.size.toNat

end ArenaBlock

/-- `snapshots` are the saved offsets of the open brackets, innermost first. -/
structure ArenaHistory where
  arena : ThreadArena
  snapshots : List (BitVec 64)
  committed : List MemoryRange
  returned : List ArenaBlock
  blocks : BumpRegions ℕ

inductive ArenaCall
  | allocate (size : BitVec 64) (alignment : Alignment) (os : OsOutcome)
  | reset
  | taskBegin
  | taskEnd

namespace ArenaHistory

def start (site : ArenaSite) : ArenaHistory :=
  let (arena, baseline) :=
    ThreadArena.initializeArena site.pageCoord site.offset site.baseline site.maxCapacity
  ⟨arena, [], [baseline], [], ⟨arena.backingMemory.toNat, [], []⟩⟩

def afterAllocate (s : ArenaHistory) (size : BitVec 64) (alignment : Alignment) (os : OsOutcome)
    (r : Allocation) : ArenaHistory :=
  { s with
    arena := r.arena
    committed := if os.commit then r.request.toList ++ s.committed else s.committed
    returned := match r.block with
      | none => s.returned
      | some p => ⟨p, size, alignment⟩ :: s.returned
    blocks := match r.block with
      | none => s.blocks
      | some p => s.blocks.bump p.toNat (p.toNat + size.toNat) }

def machine (asserts : Bool) (pageSize : BitVec 64) : Machine ArenaHistory ArenaCall where
  next s
    | .allocate size alignment os =>
        (s.arena.allocate asserts pageSize os size alignment.value).map
          (s.afterAllocate size alignment os)
    | .reset =>
        some { s with
          arena := s.arena.reset
          blocks := s.blocks.reset s.arena.backingMemory.toNat }
    | .taskBegin =>
        some { s with snapshots := s.arena.offset :: s.snapshots, blocks := s.blocks.enter }
    | .taskEnd => match s.snapshots with
        | [] => none
        | snapshot :: rest =>
            some { s with
              arena := { s.arena with offset := snapshot }
              snapshots := rest
              blocks := s.blocks.leave }

/-- The outcomes of one call. -/
inductive HistoryStep (asserts : Bool) (pageSize : BitVec 64) (s : ArenaHistory) :
    ArenaCall → ArenaHistory → Prop
  | allocate {size : BitVec 64} {alignment : Alignment} {os : OsOutcome} {r : Allocation}
      (h : s.arena.allocate asserts pageSize os size alignment.value = some r) :
      HistoryStep asserts pageSize s (.allocate size alignment os)
        (s.afterAllocate size alignment os r)
  | reset : HistoryStep asserts pageSize s .reset
      { s with
        arena := s.arena.reset
        blocks := s.blocks.reset s.arena.backingMemory.toNat }
  | taskBegin : HistoryStep asserts pageSize s .taskBegin
      { s with snapshots := s.arena.offset :: s.snapshots, blocks := s.blocks.enter }
  | taskEnd {snapshot : BitVec 64} {rest : List (BitVec 64)} (h : s.snapshots = snapshot :: rest) :
      HistoryStep asserts pageSize s .taskEnd
        { s with
          arena := { s.arena with offset := snapshot }
          snapshots := rest
          blocks := s.blocks.leave }

theorem next_step {asserts : Bool} {pageSize : BitVec 64} {s s' : ArenaHistory} {call : ArenaCall}
    (h : (machine asserts pageSize).next s call = some s') :
    HistoryStep asserts pageSize s call s' := by
  cases call with
  | allocate size alignment os =>
      obtain ⟨r, hr, rfl⟩ := Option.map_eq_some_iff.mp h
      exact .allocate hr
  | reset =>
      obtain rfl := Option.some.inj h
      exact .reset
  | taskBegin =>
      obtain rfl := Option.some.inj h
      exact .taskBegin
  | taskEnd =>
      simp only [machine] at h
      split at h
      · cases h
      · rename_i snapshot rest hsnap
        obtain rfl := Option.some.inj h
        exact .taskEnd hsnap

/-- The unbounded sum of offset, padding and size stays within the arena. -/
def ExactFits (s : ArenaHistory) : ArenaCall → Prop
  | .allocate size alignment _ => s.arena.exactNeed size alignment ≤ s.arena.maxCapacity.toNat
  | _ => True

instance (s : ArenaHistory) : ∀ call, Decidable (ExactFits s call)
  | .allocate size alignment _ =>
      inferInstanceAs (Decidable (s.arena.exactNeed size alignment ≤ s.arena.maxCapacity.toNat))
  | .reset | .taskBegin | .taskEnd => isTrue trivial

/-! ### Blocks in use -/

/-- The arena as a bump allocator of absolute addresses. -/
structure Inv (site : ArenaSite) (s : ArenaHistory) : Prop where
  backing : s.arena.backingMemory = site.pageCoord.virtualAddressBase + site.offset
  maxCapacity : s.arena.maxCapacity = site.maxCapacity
  offset_le : s.arena.offset.toNat ≤ site.maxCapacity.toNat
  snapshots_le : ∀ o ∈ s.snapshots, o.toNat ≤ site.maxCapacity.toNat
  top : s.blocks.top = s.arena.backingMemory.toNat + s.arena.offset.toNat
  saved : s.blocks.outer.map Prod.fst =
    s.snapshots.map fun o => s.arena.backingMemory.toNat + o.toNat
  stacked : s.blocks.Stacked
  returned : ∀ b ∈ s.returned, b.alignment.value.toNat ∣ b.start.toNat ∧
    s.arena.backingMemory.toNat ≤ b.start.toNat ∧
    b.start.toNat + b.size.toNat ≤ s.arena.backingMemory.toNat + s.arena.maxCapacity.toNat

theorem start_inv (site : ArenaSite) : Inv site (start site) where
  backing := rfl
  maxCapacity := rfl
  offset_le := Nat.zero_le _
  snapshots_le := fun _ ho => absurd ho List.not_mem_nil
  top := rfl
  saved := rfl
  stacked := BumpRegions.empty_stacked _
  returned := fun _ hb => absurd hb List.not_mem_nil

variable {site : ArenaSite} {s : ArenaHistory}

theorem Inv.fits (h : Inv site s) :
    s.arena.backingMemory.toNat + site.maxCapacity.toNat < 2 ^ 64 := by
  rw [h.backing]
  exact site.fits

/-- A block is handed out at or above the offset and inside the arena. -/
theorem Inv.handOut (h : Inv site s) {size : BitVec 64} {alignment : Alignment} (os : OsOutcome)
    {capacity : BitVec 64} {request : Option MemoryRange}
    (hfits : s.arena.exactNeed size alignment ≤ s.arena.maxCapacity.toNat) :
    Inv site (s.afterAllocate size alignment os
      ⟨{ s.arena with
          capacity := capacity
          offset := s.arena.offset + s.arena.totalSpace size alignment.value },
        some (s.arena.alignedAddress alignment.value), request⟩) := by
  rw [h.maxCapacity] at hfits
  have hexact := ThreadArena.exact_of_fits h.fits hfits
  have haligned := hexact.aligned
  have hneed : s.arena.exactNeed size alignment =
    s.arena.offset.toNat + s.arena.exactPadding alignment + size.toNat := rfl
  have hend : (s.arena.alignedAddress alignment.value).toNat + size.toNat =
      s.arena.backingMemory.toNat + s.arena.exactNeed size alignment := by omega
  refine ⟨h.backing, h.maxCapacity, ?_, h.snapshots_le, ?_, h.saved, ?_, ?_⟩
  · change (s.arena.offset + s.arena.totalSpace size alignment.value).toNat ≤ _
    rw [hexact.offset]
    exact hfits
  · change (s.arena.alignedAddress alignment.value).toNat + size.toNat = s.arena.backingMemory.toNat +
      (s.arena.offset + s.arena.totalSpace size alignment.value).toNat
    rw [hexact.offset, hend]
  · apply h.stacked.bump
    · rw [h.top, haligned]
      omega
    · omega
  · intro b hb
    rcases List.mem_cons.mp hb with rfl | hold
    · refine ⟨dvd_align _ alignment, ?_, ?_⟩
      · change s.arena.backingMemory.toNat ≤ (s.arena.alignedAddress alignment.value).toNat
        omega
      · change (s.arena.alignedAddress alignment.value).toNat + size.toNat ≤
          s.arena.backingMemory.toNat + s.arena.maxCapacity.toNat
        rw [hend, h.maxCapacity]
        omega
    · exact h.returned b hold

theorem Inv.step {asserts : Bool} {pageSize : BitVec 64} (s : ArenaHistory) (call : ArenaCall)
    (s' : ArenaHistory) (h : Inv site s) (hg : ExactFits s call)
    (hn : (machine asserts pageSize).next s call = some s') : Inv site s' := by
  cases next_step hn with
  | @allocate size alignment os r hr =>
      rcases ThreadArena.allocate_cases hr with ⟨rfl, -⟩ | ⟨rfl, -⟩ | ⟨rfl, -⟩
      · exact ⟨h.backing, h.maxCapacity, h.offset_le, h.snapshots_le, h.top, h.saved, h.stacked,
          h.returned⟩
      · exact h.handOut os hg
      · exact h.handOut os hg
  | reset =>
      exact ⟨h.backing, h.maxCapacity, Nat.zero_le _, h.snapshots_le, rfl,
        (BumpRegions.reset_tops _ _).trans h.saved, BumpRegions.reset_stacked _ _, h.returned⟩
  | taskBegin =>
      have hsnapshots : ∀ o ∈ s.arena.offset :: s.snapshots, o.toNat ≤ site.maxCapacity.toNat :=
        List.forall_mem_cons.mpr ⟨h.offset_le, h.snapshots_le⟩
      refine ⟨h.backing, h.maxCapacity, h.offset_le, hsnapshots, h.top, ?_, h.stacked.enter,
        h.returned⟩
      simp [BumpRegions.enter, h.top, h.saved]
  | @taskEnd snapshot rest hsnap =>
      have hsaved := h.saved
      have hle := h.snapshots_le
      rw [hsnap] at hsaved hle
      obtain ⟨hsnapshot, hrest_le⟩ := List.forall_mem_cons.mp hle
      obtain ⟨f, outer, houter, htop, hrest⟩ := List.map_eq_cons_iff.mp hsaved
      have hleave : s.blocks.leave = ⟨f.1, f.2, outer⟩ := by rw [BumpRegions.leave, houter]
      refine ⟨h.backing, h.maxCapacity, hsnapshot, hrest_le, ?_, ?_, h.stacked.leave, h.returned⟩
      · rw [hleave]
        exact htop
      · rw [hleave]
        exact hrest

/-- Every block is aligned and inside the arena; the blocks returned since the last
reset, without those of tasks that have ended, are disjoint and below the offset. -/
theorem live_blocks_disjoint (site : ArenaSite) (asserts : Bool) (pageSize : BitVec 64)
    (s : ArenaHistory) (hs : (machine asserts pageSize).ReachIf ExactFits (start site) s) :
    (∀ b ∈ s.returned, b.alignment.value.toNat ∣ b.start.toNat ∧
        s.arena.backingMemory.toNat ≤ b.start.toNat ∧
        b.start.toNat + b.size.toNat ≤ s.arena.backingMemory.toNat + s.arena.maxCapacity.toNat) ∧
      (s.blocks.live.Pairwise fun b b' =>
        ∀ a, ¬ (b.1 ≤ a ∧ a < b.2 ∧ b'.1 ≤ a ∧ a < b'.2)) ∧
      ∀ b ∈ s.blocks.live, b.2 ≤ s.arena.backingMemory.toNat + s.arena.offset.toNat := by
  have hinv : Inv site s := hs.invariant Inv.step (start_inv site)
  refine ⟨hinv.returned, hinv.stacked.disjoint, ?_⟩
  rw [← hinv.top]
  exact hinv.stacked.below

def transientSite : ArenaSite where
  pageCoord := ⟨BitVec.ofNat 64 65536, 0#64, MemoryMap.virtZoneSpaceLength, BitVec.ofNat 64 4096⟩
  offset := MemoryMap.virtZoneTaOffset
  baseline := MemoryMap.virtZoneTaBaseline
  maxCapacity := MemoryMap.virtZoneTaSize
  fits := by decide
  baseline_le := by decide

def cacheLine : Alignment := ⟨6, by decide⟩

def nestedCalls : List ArenaCall :=
  [.allocate 10#64 cacheLine ⟨true, true⟩, .taskBegin, .allocate 100#64 cacheLine ⟨true, true⟩,
    .taskBegin, .allocate 1#64 cacheLine ⟨true, true⟩, .taskEnd]

/-- Two blocks stay in use when the inner of two brackets has closed. -/
theorem live_blocks_disjoint_nested : ∃ s : ArenaHistory,
    s.blocks.live = [(65600, 65700), (65536, 65546)] ∧ s.arena.offset = 164#64 ∧
      s.blocks.live.Pairwise fun b b' => ∀ a, ¬ (b.1 ≤ a ∧ a < b.2 ∧ b'.1 ≤ a ∧ a < b'.2) :=
  ⟨((machine true 4096#64).exec (start transientSite) nestedCalls).getD (start transientSite),
    by decide, by decide, (live_blocks_disjoint transientSite true 4096#64 _
      (Machine.reachIf_of_exec nestedCalls rfl (by decide))).2.1⟩

end ArenaHistory
end ProjectDelta
