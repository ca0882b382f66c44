import ProjectDelta.ArenaHistory
import ProjectDelta.Lifecycle

/-!
# The blocks of all threads together

Every thread allocates from its own transient arena, the main thread also from the
persistent storage, and only the main thread brackets a task. The calls of the threads
interleave freely; what happens in one arena is a history of that arena alone. Since
the arenas lie in zones of their own, no two blocks in use anywhere in the engine share
memory, and none shares any with the contexts or with a queue.
-/

namespace ProjectDelta

/-- Two intervals, one behind the other. -/
def Apart (b b' : ℕ × ℕ) : Prop := b.2 ≤ b'.1 ∨ b'.2 ≤ b.1

/-- `b` from its first to its last number within `z`. -/
def Within (b z : ℕ × ℕ) : Prop := z.1 ≤ b.1 ∧ b.2 ≤ z.2

theorem Apart.within {b b' z z' : ℕ × ℕ} (h : Apart z z') (hb : Within b z) (hb' : Within b' z') :
    Apart b b' :=
  h.imp (fun hle => hb.2.trans (hle.trans hb'.1)) fun hle => hb'.2.trans (hle.trans hb.1)

def MemoryRange.interval (r : MemoryRange) : ℕ × ℕ :=
  (r.start.toNat, r.start.toNat + r.length.toNat)

theorem MasterPool.Occupies.interval {r : MemoryRange} {start length : ℕ}
    (h : MasterPool.Occupies r start length) : r.interval = (start, start + length) := by
  rw [MemoryRange.interval, h.1, h.2]

namespace ArenaHistory

/-! ### Where the blocks in use are -/

/-- What is in use was returned. -/
def LiveReturned (s : ArenaHistory) : Prop :=
  ∀ b ∈ s.blocks.live, ∃ r ∈ s.returned, b = (r.start.toNat, r.start.toNat + r.size.toNat)

variable {site : ArenaSite} {asserts : Bool} {pageSize : BitVec 64} {s s' : ArenaHistory}
  {call : ArenaCall}

theorem LiveReturned.step (h : s.LiveReturned)
    (hn : (machine asserts pageSize).next s call = some s') : s'.LiveReturned := by
  cases next_step hn with
  | @allocate size alignment os r hr =>
      cases hblock : r.block with
      | none =>
          simp only [LiveReturned, afterAllocate, hblock]
          exact h
      | some p =>
          simp only [LiveReturned, afterAllocate, hblock, BumpRegions.bump_live, List.forall_mem_cons]
          refine ⟨⟨_, List.mem_cons_self, rfl⟩, fun b hb => ?_⟩
          obtain ⟨r', hr', hb'⟩ := h b hb
          exact ⟨r', List.mem_cons_of_mem _ hr', hb'⟩
  | reset =>
      simp only [LiveReturned, BumpRegions.reset_live]
      exact fun b hb => absurd hb List.not_mem_nil
  | taskBegin => exact h
  | taskEnd => exact fun b hb => h b (BumpRegions.mem_live_of_leave hb)

/-- In every history the blocks in use are ordered, and inside the arena. -/
theorem live_within (hs : (machine asserts pageSize).ReachIf ExactFits (start site) s) :
    s.blocks.live.Pairwise Apart ∧
      ∀ b ∈ s.blocks.live, Within b (s.arena.fullRange.interval) := by
  obtain ⟨hinv, hlive⟩ := hs.invariant (I := fun s => Inv site s ∧ s.LiveReturned)
    (fun a call b ha hg hn => ⟨ha.1.step a call b hg hn, ha.2.step hn⟩)
    ⟨start_inv site, fun b hb => absurd hb List.not_mem_nil⟩
  refine ⟨hinv.stacked.ordered.imp Or.inr, fun b hb => ?_⟩
  obtain ⟨r, hr, rfl⟩ := hlive b hb
  exact (hinv.returned r hr).2

/-- No call moves the arena. -/
theorem fullRange_start (hs : (machine asserts pageSize).ReachIf ExactFits (start site) s) :
    s.arena.fullRange = (start site).arena.fullRange := by
  have hinv : Inv site s := hs.invariant Inv.step (start_inv site)
  rw [ThreadArena.fullRange, hinv.backing, hinv.maxCapacity]
  rfl

end ArenaHistory

namespace MasterPool

/-! ### The arenas of a pool -/

/-- The arenas that `ThreadContext_Initialize` makes. -/
inductive ArenaId (pool : MasterPool)
  | transient (ix : Fin pool.count)
  | persistent
  deriving DecidableEq

variable (pool : MasterPool)

def persistentSite : ArenaSite where
  pageCoord := (pool.generic 0).pageCoordinator
  offset := MemoryMap.Main.virtZonePsOffset
  baseline := MemoryMap.Main.virtZonePsBaseline
  maxCapacity := MemoryMap.Main.virtZonePsSize
  fits := by
    have hfits := pool.pool_fits
    have hcount := pool.count_pos
    obtain ⟨hstart, hlength⟩ := pool.persistentRange_occupies
    have hzone := pool.zoneStart_eq 0
    change pool.persistentRange.start.toNat + pool.persistentRange.length.toNat < 2 ^ 64
    omega
  baseline_le := by decide

variable {pool}

namespace ArenaId

def site : ArenaId pool → ArenaSite
  | .transient ix => pool.transientSite ix
  | .persistent => pool.persistentSite

/-- All that the arena may grow to. -/
def range : ArenaId pool → MemoryRange
  | .transient ix => pool.transientRange ix
  | .persistent => pool.persistentRange

theorem start_fullRange (id : ArenaId pool) :
    (ArenaHistory.start id.site).arena.fullRange = id.range := by cases id <;> rfl

theorem apart {id id' : ArenaId pool} (h : id ≠ id') :
    Apart id.range.interval id'.range.interval := by
  have hpersistent := pool.persistentRange_occupies.interval
  cases id with
  | transient ix =>
      have hix := (pool.transientRange_occupies ix.isLt).interval
      cases id' with
      | transient ix' =>
          have hne : ix.val ≠ ix'.val := fun he => h (congrArg ArenaId.transient (Fin.ext he))
          rw [range, range, hix, (pool.transientRange_occupies ix'.isLt).interval, Apart,
            pool.zoneStart_eq ix, pool.zoneStart_eq ix']
          omega
      | persistent =>
          rw [range, range, hix, hpersistent, Apart, pool.zoneStart_eq ix, pool.zoneStart_eq 0]
          omega
  | persistent =>
      cases id' with
      | transient ix' =>
          rw [range, range, hpersistent, (pool.transientRange_occupies ix'.isLt).interval, Apart,
            pool.zoneStart_eq ix', pool.zoneStart_eq 0]
          omega
      | persistent => exact absurd rfl h

theorem within_slab (id : ArenaId pool) :
    Within id.range.interval pool.contexts.slab := by
  have hcount := pool.count_pos
  have hzero := pool.zoneStart_eq 0
  have hlength : pool.length = 34359738368 * pool.count + pool.arrayLength := rfl
  rw [pool.slab_eq]
  cases id with
  | transient ix =>
      rw [range, (pool.transientRange_occupies ix.isLt).interval, Within, pool.zoneStart_eq ix]
      omega
  | persistent =>
      rw [range, pool.persistentRange_occupies.interval, Within]
      omega

theorem apart_contextArray (id : ArenaId pool) :
    Apart id.range.interval pool.contexts.contextArray.interval := by
  have hzero := pool.zoneStart_eq 0
  rw [pool.contextArray_occupies.interval]
  cases id with
  | transient ix =>
      rw [range, (pool.transientRange_occupies ix.isLt).interval, Apart, pool.zoneStart_eq ix]
      omega
  | persistent =>
      rw [range, pool.persistentRange_occupies.interval, Apart]
      omega

theorem apart_queue (id : ArenaId pool) {r : MemoryRange} (hr : r ∈ pool.contexts.queueRanges) :
    Apart id.range.interval r.interval := by
  rw [ThreadContexts.queueRanges, contexts_queues, List.map_map] at hr
  obtain ⟨i, hi, rfl⟩ := List.mem_map.mp hr
  have hqueue := (pool.queueRange_occupies (List.mem_range.mp hi)).interval
  have hzone := pool.zoneStart_eq (i + 1)
  change Apart id.range.interval (pool.queueRange i).interval
  rw [hqueue]
  cases id with
  | transient ix =>
      rw [range, (pool.transientRange_occupies ix.isLt).interval, Apart, pool.zoneStart_eq ix]
      omega
  | persistent =>
      rw [range, pool.persistentRange_occupies.interval, Apart, pool.zoneStart_eq 0]
      omega

end ArenaId

/-! ### The calls of the threads -/

/-- What a thread does to arenas: `Engine::Allocate`, the reset in `WorkerProc` and `Engine::Update`,
and the bracket in which `Scheduler_Sync` runs a task. -/
inductive ArenaMove (pool : MasterPool)
  | allocate (ix : Fin pool.count) (size : BitVec 64) (type : AllocationType) (alignment : Alignment)
      (os : OsOutcome)
  | resetArena (ix : Fin pool.count)
  | taskBegin
  | taskEnd

/-- The histories of all arenas. -/
abbrev Arenas (pool : MasterPool) := ArenaId pool → ArenaHistory

namespace Arenas

variable (s : Arenas pool)

/-- The arena that `Engine::Allocate` takes on thread `ix`; a worker has no persistent one. -/
def choose (ix : Fin pool.count) : AllocationType → Option (ArenaId pool)
  | .transient => some (.transient ix)
  | .persistent => if ix = pool.mainIx then some .persistent else none

def call (asserts : Bool) (id : ArenaId pool) (c : ArenaCall) : Option (Arenas pool) :=
  ((ArenaHistory.machine asserts pool.pageSize.value).next (s id) c).map (Function.update s id)

variable (pool) in
def machine (asserts : Bool) : Machine (Arenas pool) (ArenaMove pool) where
  next s
    | .allocate ix size type alignment os => match choose ix type with
      | some id => s.call asserts id (.allocate size alignment os)
      | none => if asserts then none else some s
    | .resetArena ix => s.call asserts (.transient ix) .reset
    | .taskBegin => s.call asserts (.transient pool.mainIx) .taskBegin
    | .taskEnd => s.call asserts (.transient pool.mainIx) .taskEnd

variable (pool) in
def start : Arenas pool := fun id => ArenaHistory.start id.site

/-- Each allocation fits in the arena that serves it. -/
def Fits : ArenaMove pool → Prop
  | .allocate ix size type alignment os =>
      ∀ id ∈ choose ix type, (s id).ExactFits (.allocate size alignment os)
  | _ => True

instance (move : ArenaMove pool) : Decidable (s.Fits move) := by
  unfold Fits
  cases move <;> infer_instance

variable {s} {s' : Arenas pool} {asserts : Bool}

theorem call_member {id' : ArenaId pool} {c : ArenaCall} (h : s.call asserts id' c = some s')
    (hc : (s id').ExactFits c) (id : ArenaId pool) :
    s' id = s id ∨ ∃ c, (s id).ExactFits c ∧
      (ArenaHistory.machine asserts pool.pageSize.value).next (s id) c = some (s' id) := by
  obtain ⟨a, ha, rfl⟩ := Option.map_eq_some_iff.mp h
  by_cases hid : id = id'
  · subst hid
    rw [Function.update_self]
    exact .inr ⟨c, hc, ha⟩
  · exact .inl (Function.update_of_ne hid a s)

/-- Every move leaves an arena alone or is one call on it. -/
theorem next_member {move : ArenaMove pool} (hg : s.Fits move)
    (hn : (machine pool asserts).next s move = some s') (id : ArenaId pool) :
    s' id = s id ∨ ∃ c, (s id).ExactFits c ∧
      (ArenaHistory.machine asserts pool.pageSize.value).next (s id) c = some (s' id) := by
  cases move with
  | allocate ix size type alignment os =>
      simp only [machine] at hn
      split at hn
      · rename_i id' hchoose
        exact call_member hn (hg id' hchoose) id
      · split at hn
        · cases hn
        · obtain rfl := Option.some.inj hn
          exact .inl rfl
  | resetArena ix =>
      have hreset : s.call asserts (.transient ix) .reset = some s' := hn
      exact call_member hreset trivial id
  | taskBegin =>
      have hbegin : s.call asserts (.transient pool.mainIx) .taskBegin = some s' := hn
      exact call_member hbegin trivial id
  | taskEnd =>
      have hend : s.call asserts (.transient pool.mainIx) .taskEnd = some s' := hn
      exact call_member hend trivial id

/-- In every interleaving each arena goes through a history of its own. -/
theorem reach_member (h : (machine pool asserts).ReachIf Fits (start pool) s) (id : ArenaId pool) :
    (ArenaHistory.machine asserts pool.pageSize.value).ReachIf ArenaHistory.ExactFits
      (ArenaHistory.start id.site) (s id) :=
  h.project (fun s => s id) fun _ _ _ hg hn => next_member hg hn id

theorem live_within (h : (machine pool asserts).ReachIf Fits (start pool) s) (id : ArenaId pool) :
    (s id).blocks.live.Pairwise Apart ∧
      ∀ b ∈ (s id).blocks.live, Within b id.range.interval := by
  have hmember := reach_member h id
  rw [← id.start_fullRange, ← ArenaHistory.fullRange_start hmember]
  exact ArenaHistory.live_within hmember

/-- Whatever the threads allocate, reset and bracket, and in whatever order: all blocks in use, of all
threads, are apart from one another, from the contexts and from the queues, and inside the slab. -/
theorem live_blocks_apart (pool : MasterPool) (asserts : Bool) (s : Arenas pool)
    (h : (machine pool asserts).ReachIf Fits (start pool) s) :
    (∀ id, (s id).blocks.live.Pairwise Apart) ∧
      (∀ id id', id ≠ id' → ∀ b ∈ (s id).blocks.live, ∀ b' ∈ (s id').blocks.live, Apart b b') ∧
      ∀ id, ∀ b ∈ (s id).blocks.live, Within b pool.contexts.slab ∧
        Apart b pool.contexts.contextArray.interval ∧
        ∀ r ∈ pool.contexts.queueRanges, Apart b r.interval := by
  have hlive := live_within h
  refine ⟨fun id => (hlive id).1, fun id id' hne b hb b' hb' => ?_, fun id b hb => ⟨?_, ?_, ?_⟩⟩
  · exact (ArenaId.apart hne).within ((hlive id).2 b hb) ((hlive id').2 b' hb')
  · have hzone := id.within_slab
    have hb' := (hlive id).2 b hb
    exact ⟨hzone.1.trans hb'.1, hb'.2.trans hzone.2⟩
  · exact id.apart_contextArray.within ((hlive id).2 b hb) ⟨le_rfl, le_rfl⟩
  · intro r hr
    exact (id.apart_queue hr).within ((hlive id).2 b hb) ⟨le_rfl, le_rfl⟩

section

open WorkerStart (twoThreadPool)

def workerIx : Fin twoThreadPool.count := ⟨1, by decide⟩

/-- Both threads allocate, the main thread inside a bracket too. -/
def bothThreads : List (ArenaMove twoThreadPool) :=
  [.allocate twoThreadPool.mainIx 100#64 .transient defaultAlignment ⟨true, true⟩,
    .allocate workerIx 16#64 .transient defaultAlignment ⟨true, true⟩, .taskBegin,
    .allocate twoThreadPool.mainIx 1#64 .transient defaultAlignment ⟨true, true⟩,
    .allocate twoThreadPool.mainIx 8#64 .persistent defaultAlignment ⟨true, true⟩,
    .resetArena workerIx, .allocate workerIx 4#64 .transient defaultAlignment ⟨true, true⟩, .taskEnd]

def afterBoth : Arenas twoThreadPool :=
  ((machine twoThreadPool true).exec (start twoThreadPool) bothThreads).getD (start twoThreadPool)

theorem live_blocks_apart_bothThreads :
    (afterBoth (.transient twoThreadPool.mainIx)).blocks.live = [(69632, 69732)] ∧
      (afterBoth (.transient workerIx)).blocks.live = [(34359808000, 34359808004)] ∧
      (afterBoth .persistent).blocks.live = [(1073811456, 1073811464)] ∧
      ∀ id id', id ≠ id' → ∀ b ∈ (afterBoth id).blocks.live,
        ∀ b' ∈ (afterBoth id').blocks.live, Apart b b' := by
  have hreach : (machine twoThreadPool true).ReachIf Fits (start twoThreadPool) afterBoth :=
    Machine.reachIf_of_exec bothThreads rfl (by decide)
  exact ⟨by decide, by decide, by decide, (live_blocks_apart twoThreadPool true _ hreach).2.1⟩

end

end Arenas
end MasterPool
end ProjectDelta
