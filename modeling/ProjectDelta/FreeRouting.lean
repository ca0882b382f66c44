import ProjectDelta.ContextLifetime

/-!
# Where Engine::Free sends a pointer

`IsCustomAllocated` compares with the range of the last pool, both ends included,
and `Shutdown` leaves that range behind. While one `Initialize` is all there is,
every arena block is in the range, and a block of `malloc` can only be in it at its
end or once the pool is released.
-/

namespace ProjectDelta

/-- A request that the arena can serve, and does not answer with `nullptr` for having grown. -/
def ThreadArena.HandsOut (arena : ThreadArena) (size alignment : BitVec 64) (os : OsOutcome) : Prop :=
  (∃ a : Alignment, alignment = a.value ∧ arena.exactNeed size a ≤ arena.maxCapacity.toNat) ∧
    ¬ (arena.totalSpace size alignment > arena.capacity ∧ os.commit = true ∧ os.lock = true)

/-- The logarithm of an alignment is known from its value. -/
theorem exists_alignment_iff {alignment : BitVec 64} {P : Alignment → Prop} :
    (∃ a : Alignment, alignment = a.value ∧ P a) ↔
      ∃ h : alignment.toNat.log2 < 64, alignment = Alignment.value ⟨_, h⟩ ∧ P ⟨_, h⟩ := by
  constructor
  · rintro ⟨⟨log, hlog⟩, rfl, h⟩
    have heq : (Alignment.value ⟨log, hlog⟩).toNat.log2 = log := by
      rw [Alignment.value_toNat, Nat.log2_two_pow]
    simp only [heq]
    exact ⟨hlog, trivial, h⟩
  · rintro ⟨h, heq, hP⟩
    exact ⟨_, heq, hP⟩

instance (arena : ThreadArena) (size alignment : BitVec 64) (os : OsOutcome) :
    Decidable (arena.HandsOut size alignment os) :=
  have : Decidable (∃ a : Alignment, alignment = a.value ∧
      arena.exactNeed size a ≤ arena.maxCapacity.toNat) := decidable_of_iff _ exists_alignment_iff.symm
  inferInstanceAs (Decidable (_ ∧ _))

namespace MasterPool

variable (pool : MasterPool)

/-- A block of at least one byte has none in common with the pool. -/
def Misses (ptr size : BitVec 64) : Prop :=
  ptr.toNat + max 1 size.toNat ≤ pool.base.toNat ∨ pool.base.toNat + pool.length ≤ ptr.toNat

instance (ptr size : BitVec 64) : Decidable (pool.Misses ptr size) :=
  inferInstanceAs (Decidable (_ ∨ _))

end MasterPool

namespace Lifecycle

/-- A call of `Engine::Allocate`. -/
structure AllocationCall where
  t : EngineThread
  size : BitVec 64
  type : AllocationType
  alignment : BitVec 64
  answer : SystemAnswer

/-- The call that a move makes, be it inside `Initialize`. -/
def allocationOf (s : Lifecycle) : LifecycleMove → Option AllocationCall
  | .allocate t size type alignment answer => some ⟨t, size, type, alignment, answer⟩
  | .initStep t answer => match s.pending t with
    | .allocate size type :: _ => some ⟨t, size, type, defaultAlignment.value, answer⟩
    | _ => none
  | _ => none

/-- The block that `malloc` returns for the call is disjoint from every reserved pool. -/
def MallocMisses (s : Lifecycle) (call : AllocationCall) : Prop :=
  s.current call.t = none → call.answer.malloc ≠ 0#64 →
    ∀ g < s.reservations, ∀ p ∈ s.pools g, p.reserved = true →
      p.pool.Misses call.answer.malloc call.size

instance (s : Lifecycle) (call : AllocationCall) : Decidable (s.MallocMisses call) :=
  inferInstanceAs (Decidable (_ → _ → ∀ g < s.reservations, ∀ p ∈ s.pools g, p.reserved = true →
    p.pool.Misses call.answer.malloc call.size))

/-- What is assumed of the system: a block of `malloc` is disjoint from every pool that is reserved
while it is live, and no pool starts at address 0. -/
def HeapDisjoint (s : Lifecycle) (move : LifecycleMove) : Prop :=
  (∀ call ∈ s.allocationOf move, s.MallocMisses call) ∧ match move with
  | .engineInitialize _ pool => 0 < pool.base.toNat ∧
      ∀ l ∈ s.live, l.fromMalloc = true → l.ptr ≠ 0#64 → pool.Misses l.ptr l.size
  | _ => True

/-- The pool of `g_ThreadContexts` is still reserved. -/
def slabReserved (s : Lifecycle) : Bool := s.threadContexts.any s.isReserved

/-- The block that `malloc` returns, or the request to the arena of context `c`. -/
def CallOk (s : Lifecycle) (call : AllocationCall) : Option ContextRef → Prop
  | none => call.answer.malloc ≠ s.masterSlabEnd ∧
      (s.slabReserved = false → s.isCustomAllocated call.answer.malloc = false)
  | some c => s.isReserved c.generation = true ∧ (call.type = .transient ∨ c.ix = 0) ∧
      ∀ p ∈ s.pools c.generation,
        (p.arena call.type c.ix).HandsOut call.size call.alignment call.answer.os

/-- The address that the next step stores in `g_MasterSlabEnd`. -/
def slabEndStore : List InitStep → Option (BitVec 64)
  | .setSlabEnd address :: _ => some address
  | _ => none

/-- `Initialize` is called once. No block of `malloc` is at the end of the slab, nor in it once the
pool is released, and no arena is used then or asked for what it does not hand out. -/
def OneLifetime (s : Lifecycle) (move : LifecycleMove) : Prop :=
  (∀ call ∈ s.allocationOf move, s.CallOk call (s.current call.t)) ∧ match move with
  | .engineInitialize _ _ => s.reservations = 0
  | .initStep t _ => ∀ l ∈ s.live, slabEndStore (s.pending t) ≠ some l.ptr
  | _ => True

instance (s : Lifecycle) (call : AllocationCall) : ∀ c, Decidable (s.CallOk call c)
  | none => inferInstanceAs (Decidable (_ ∧ (_ → _)))
  | some c => inferInstanceAs (Decidable (s.isReserved c.generation = true ∧
      (call.type = .transient ∨ c.ix = 0) ∧ ∀ p ∈ s.pools c.generation,
        (p.arena call.type c.ix).HandsOut call.size call.alignment call.answer.os))

instance (s : Lifecycle) (move : LifecycleMove) : Decidable (s.HeapDisjoint move) := by
  unfold HeapDisjoint
  cases move <;> infer_instance

instance (s : Lifecycle) (move : LifecycleMove) : Decidable (s.OneLifetime move) := by
  unfold OneLifetime
  cases move <;> infer_instance

/-- Assumption and condition together. -/
def RoutedRun (s : Lifecycle) (move : LifecycleMove) : Prop := s.HeapDisjoint move ∧ s.OneLifetime move

instance (s : Lifecycle) (move : LifecycleMove) : Decidable (s.RoutedRun move) :=
  inferInstanceAs (Decidable (_ ∧ _))

/-! ### The invariant -/

/-- The zone of an arena, as its first address and its length. -/
def zoneOf (pool : MasterPool) (type : AllocationType) (ix : ℕ) : ℕ × ℕ :=
  match type with
  | .transient => (pool.zoneStart ix, 1073741824)
  | .persistent => (pool.zoneStart 0 + 1073741824, 2147483648)

/-- An arena that keeps to its zone. -/
structure KeepsZone (zone : ℕ × ℕ) (arena : ThreadArena) : Prop where
  backing : arena.backingMemory.toNat = zone.1
  maxCapacity : arena.maxCapacity.toNat = zone.2
  offset_le : arena.offset.toNat ≤ zone.2

/-- There is one pool, and all that is known of contexts is about it. -/
structure PoolOk (s : Lifecycle) (pool : MasterPool) : Prop where
  only : ∃ p, s.pools 0 = some p ∧ p.pool = pool ∧
    ∀ type, ∀ ix < pool.count, KeepsZone (zoneOf pool type ix) (p.arena type ix)
  others : ∀ g, g ≠ 0 → s.pools g = none
  reservations : s.reservations = 1
  base_pos : 0 < pool.base.toNat
  started : ∀ c ∈ s.started, c.generation = 0 ∧ c.ix < pool.count
  current : ∀ t c, s.current t = some c → c.generation = 0 ∧ c.ix < pool.count
  contexts : ∀ g, s.threadContexts = some g → g = 0

/-- Before `g_MasterSlabEnd` is stored there are no contexts. -/
structure Unpublished (s : Lifecycle) : Prop where
  slabEnd : s.masterSlabEnd = 0#64
  current : ∀ t, s.current t = none
  started : s.started = []
  contexts : s.threadContexts = none
  live : ∀ l ∈ s.live, l.fromMalloc = true ∧ l.ptr ≠ 0#64

/-- A step behind the two stores of the slab. -/
def InitStep.IsLater (pool : MasterPool) : InitStep → Prop
  | .setSlabStart _ | .setSlabEnd _ => False
  | .setThreadContexts generation => generation = 0
  | .startThread ix => ix < pool.count
  | .allocate _ _ | .setCurrent => True

/-- One thread has reserved the pool and has the stores of the slab ahead of it. -/
structure Publishing (s : Lifecycle) (pool : MasterPool) (t : EngineThread) : Prop where
  unpublished : s.Unpublished
  poolOk : s.PoolOk pool
  isReserved : s.isReserved 0 = true
  others : ∀ t', t' ≠ t → s.pending t' = []
  pending : s.pending t = initSteps 0 pool ∨
    (s.pending t = .setSlabEnd pool.contexts.masterSlabEnd :: stepsBehindSlab 0 pool ∧
      s.masterSlabStart = pool.base)
  misses : ∀ l ∈ s.live, pool.Misses l.ptr l.size

structure Published (s : Lifecycle) (pool : MasterPool) : Prop where
  poolOk : s.PoolOk pool
  slabStart : s.masterSlabStart = pool.base
  slabEnd : s.masterSlabEnd = pool.contexts.masterSlabEnd
  pending : ∀ t, ∀ step ∈ s.pending t, InitStep.IsLater pool step
  routed : ∀ l ∈ s.live, (s.passesToFree l.ptr = true ↔ l.fromMalloc = true)

inductive Phase (s : Lifecycle) : Prop
  | fresh (h : s.Unpublished) (hnone : s.reservations = 0) (hunused : ∀ g, s.pools g = none)
      (hpending : ∀ t, s.pending t = [])
  | publishing (pool : MasterPool) (t : EngineThread) (h : s.Publishing pool t)
  | published (pool : MasterPool) (h : s.Published pool)

/-! ### Arenas and their zones -/

theorem within_ofPool (pool : MasterPool) (type : AllocationType) {ix : ℕ} (hix : ix < pool.count) :
    KeepsZone (zoneOf pool type ix) ((PoolState.ofPool pool).arena type ix) := by
  cases type with
  | transient =>
      obtain ⟨hstart, hlength⟩ := pool.transientRange_occupies hix
      exact ⟨hstart, hlength, Nat.zero_le _⟩
  | persistent =>
      obtain ⟨hstart, hlength⟩ := pool.persistentRange_occupies
      exact ⟨hstart, hlength, Nat.zero_le _⟩

theorem zoneOf_inside (pool : MasterPool) (type : AllocationType) {ix : ℕ} (hix : ix < pool.count) :
    pool.base.toNat ≤ (zoneOf pool type ix).1 ∧
      (zoneOf pool type ix).1 + (zoneOf pool type ix).2 ≤ pool.base.toNat + pool.length := by
  have hstart := pool.zoneStart_eq ix
  have hzero := pool.zoneStart_eq 0
  unfold MasterPool.length zoneOf
  cases type <;> dsimp only <;> omega

/-- A block is handed out inside the zone, and the arena keeps to it. -/
theorem KeepsZone.allocate {zone : ℕ × ℕ} {arena : ThreadArena} (h : KeepsZone zone arena)
    (hzone : zone.1 + zone.2 < 2 ^ 64) {size alignment : BitVec 64} {os : OsOutcome}
    (hands : arena.HandsOut size alignment os) {asserts : Bool} {pageSize : BitVec 64} {r : Allocation}
    (hr : arena.allocate asserts pageSize os size alignment = some r) :
    KeepsZone zone r.arena ∧ zone.1 ≤ (r.block.getD 0#64).toNat ∧
      (r.block.getD 0#64).toNat ≤ zone.1 + zone.2 := by
  obtain ⟨⟨a, rfl, hfits⟩, hgrows⟩ := hands
  obtain ⟨hbacking, hmax, hoffset⟩ := h
  have hexact := ThreadArena.exact_of_fits (by rw [hbacking, hmax]; exact hzone) hfits
  have haligned := hexact.aligned
  have hnext := hexact.offset
  have hneed : arena.exactNeed size a =
    arena.offset.toNat + arena.exactPadding a + size.toNat := rfl
  have hblock : zone.1 ≤ (arena.alignedAddress a.value).toNat ∧
      (arena.alignedAddress a.value).toNat ≤ zone.1 + zone.2 := by omega
  rcases ThreadArena.allocate_cases hr with ⟨-, hgrow, hcommit, hlock⟩ | ⟨rfl, -⟩ | ⟨rfl, -⟩
  · exact absurd ⟨hgrow, hcommit, hlock⟩ hgrows
  · exact ⟨⟨hbacking, hmax, by dsimp only; omega⟩, hblock⟩
  · exact ⟨⟨hbacking, hmax, by dsimp only; omega⟩, hblock⟩

theorem setArena_within {pool : MasterPool} {p : PoolState}
    (h : ∀ type, ∀ ix < pool.count, KeepsZone (zoneOf pool type ix) (p.arena type ix))
    {type : AllocationType} {ix : ℕ} {arena : ThreadArena}
    (harena : KeepsZone (zoneOf pool type ix) arena) :
    ∀ type', ∀ ix' < pool.count,
      KeepsZone (zoneOf pool type' ix') ((p.setArena type ix arena).arena type' ix') := by
  intro type' ix' hix'
  have hold := h type' ix' hix'
  cases type <;> cases type'
  · by_cases hx : ix' = ix
    · subst hx
      simp only [PoolState.setArena, PoolState.arena, Function.update_self]
      exact harena
    · simp only [PoolState.setArena, PoolState.arena, Function.update_of_ne hx]
      exact hold
  · exact hold
  · exact hold
  · exact harena

variable {asserts : Bool} {s s' : Lifecycle} {pool : MasterPool}

/-- Nothing that is known of the pool and the contexts has changed. -/
theorem PoolOk.of_same (h : s.PoolOk pool) (hpools : s'.pools = s.pools)
    (hreservations : s'.reservations = s.reservations) (hstarted : s'.started = s.started)
    (hcurrent : s'.current = s.current) (hcontexts : s'.threadContexts = s.threadContexts) :
    s'.PoolOk pool where
  only := by rw [hpools]; exact h.only
  others := by rw [hpools]; exact h.others
  reservations := hreservations.trans h.reservations
  base_pos := h.base_pos
  started := by rw [hstarted]; exact h.started
  current := by rw [hcurrent]; exact h.current
  contexts := by rw [hcontexts]; exact h.contexts

/-- A context in use is one of the pool. -/
theorem PoolOk.ofContext (h : s.PoolOk pool) {t : EngineThread} {c : ContextRef} {p : PoolState}
    (hc : s.current t = some c) (hp : s.pools c.generation = some p) :
    c.generation = 0 ∧ c.ix < pool.count ∧ p.pool = pool ∧
      ∀ type, ∀ ix < pool.count, KeepsZone (zoneOf pool type ix) (p.arena type ix) := by
  obtain ⟨hgeneration, hix⟩ := h.current t c hc
  obtain ⟨p', hp', hpool, harenas⟩ := h.only
  rw [hgeneration, hp'] at hp
  obtain rfl := Option.some.inj hp
  exact ⟨hgeneration, hix, hpool, harenas⟩

/-! ### The recorded range -/

/-- The range that `IsCustomAllocated` compares with includes the end of the pool. -/
theorem isCustomAllocated_iff (hstart : s.masterSlabStart = pool.base)
    (hend : s.masterSlabEnd = pool.contexts.masterSlabEnd) (ptr : BitVec 64) :
    s.isCustomAllocated ptr = true ↔
      pool.base.toNat ≤ ptr.toNat ∧ ptr.toNat ≤ pool.base.toNat + pool.length := by
  unfold isCustomAllocated
  rw [decide_eq_true_iff, hstart, hend, BitVec.le_def, BitVec.le_def,
    pool.masterSlabEnd_toNat]

/-- Before the end of the slab is stored, only a null pointer can be in the range. -/
theorem passesToFree_of_slabEnd_zero (hend : s.masterSlabEnd = 0#64) {ptr : BitVec 64}
    (hptr : ptr ≠ 0#64) : s.passesToFree ptr = true := by
  unfold passesToFree isCustomAllocated
  rw [hend, Bool.not_eq_true', decide_eq_false_iff_not]
  rintro ⟨-, hle⟩
  rw [BitVec.le_def] at hle
  exact hptr (BitVec.eq_of_toNat_eq (Nat.le_zero.mp hle))

/-! ### Before the slab is published -/

/-- Only `malloc` serves calls, and not with a null pointer. -/
theorem Unpublished.allocate (h : s.Unpublished) {call : AllocationCall}
    (hok : s.CallOk call (s.current call.t))
    (hmove : AllocateMove asserts s call.t call.size call.type call.alignment call.answer s') :
    call.answer.malloc ≠ 0#64 ∧ s' = s.handOut call.answer.malloc call.size true ∧ s'.Unpublished := by
  have hcurrent := h.current call.t
  rw [hcurrent] at hok
  obtain ⟨hne, -⟩ := hok
  rw [h.slabEnd] at hne
  cases hmove with
  | malloc =>
      refine ⟨hne, rfl, h.slabEnd, h.current, h.started, h.contexts, ?_⟩
      exact List.forall_mem_cons.mpr ⟨⟨rfl, hne⟩, h.live⟩
  | stale hc | arena hc | refused hc =>
      rw [hcurrent] at hc
      cases hc

/-! ### While the slab is published -/

theorem Published.isCustomAllocated_iff (h : s.Published pool) (ptr : BitVec 64) :
    s.isCustomAllocated ptr = true ↔
      pool.base.toNat ≤ ptr.toNat ∧ ptr.toNat ≤ pool.base.toNat + pool.length :=
  Lifecycle.isCustomAllocated_iff h.slabStart h.slabEnd ptr

/-- What is handed out where it belongs is routed back there. -/
theorem Published.handOut (h : s.Published pool) {ptr size : BitVec 64} {fromMalloc : Bool}
    (hptr : s.isCustomAllocated ptr = !fromMalloc) : (s.handOut ptr size fromMalloc).Published pool := by
  obtain ⟨hpool, hstart, hend, hpending, hrouted⟩ := h
  refine ⟨hpool.of_same rfl rfl rfl rfl rfl, hstart, hend, hpending,
    List.forall_mem_cons.mpr ⟨?_, hrouted⟩⟩
  change (!s.isCustomAllocated ptr) = true ↔ fromMalloc = true
  rw [hptr, Bool.not_not]

/-- The pool goes on with another arena, or without its reservation. -/
theorem Published.setPool (h : s.Published pool) {p : PoolState} (hp : p.pool = pool)
    (harenas : ∀ type, ∀ ix < pool.count, KeepsZone (zoneOf pool type ix) (p.arena type ix)) :
    (s.setPool 0 p).Published pool := by
  obtain ⟨⟨-, hothers, hreservations, hpos, hstarted, hcurrent, hcontexts⟩, hstart, hend,
    hpending, hrouted⟩ := h
  have honly : (s.setPool 0 p).pools 0 = some p := by
    simp only [Lifecycle.setPool, Function.update_self]
  refine ⟨⟨⟨p, honly, hp, harenas⟩, fun g hg => ?_, hreservations, hpos, hstarted, hcurrent,
    hcontexts⟩, hstart, hend, hpending, hrouted⟩
  exact (Function.update_of_ne hg ..).trans (hothers g hg)

/-- A thread gets a context of the pool. -/
theorem Published.setCurrent (h : s.Published pool) (t : EngineThread) {c : ContextRef}
    (hc : c.generation = 0 ∧ c.ix < pool.count) : (s.setCurrent t c).Published pool := by
  obtain ⟨⟨honly, hothers, hreservations, hpos, hstarted, hcurrent, hcontexts⟩, hstart, hend,
    hpending, hrouted⟩ := h
  refine ⟨⟨honly, hothers, hreservations, hpos, hstarted, fun t' c' hc' => ?_, hcontexts⟩, hstart,
    hend, hpending, hrouted⟩
  by_cases hne : t' = t
  · subst hne
    simp only [Lifecycle.setCurrent, Function.update_self] at hc'
    obtain rfl := Option.some.inj hc'
    exact hc
  · simp only [Lifecycle.setCurrent, Function.update_of_ne hne] at hc'
    exact hcurrent t' c' hc'

/-- A block of `malloc` is outside the slab: the pool keeps it out as long as it is reserved. -/
theorem Published.malloc_outside (h : s.Published pool) {call : AllocationCall}
    (hcurrent : s.current call.t = none) (hok : s.CallOk call (s.current call.t))
    (hmisses : s.MallocMisses call) :
    s.isCustomAllocated call.answer.malloc = false := by
  rw [hcurrent] at hok
  obtain ⟨hend, hreleased⟩ := hok
  cases hslab : s.slabReserved with
  | false => exact hreleased hslab
  | true =>
      obtain ⟨g, hg, hreserved⟩ := (Option.any_eq_true _ _).mp hslab
      obtain rfl := h.poolOk.contexts g hg
      obtain ⟨p, hp, hpool, -⟩ := h.poolOk.only
      obtain ⟨p', hp', hp'reserved⟩ := isReserved_iff.mp hreserved
      obtain rfl := Option.some.inj (hp.symm.trans hp')
      rw [← Bool.not_eq_true, h.isCustomAllocated_iff]
      rintro ⟨hlow, hhigh⟩
      have hpos := h.poolOk.base_pos
      have hnonnull : call.answer.malloc ≠ 0#64 := by
        intro hzero
        rw [hzero] at hlow
        exact absurd hlow (Nat.not_le.mpr hpos)
      have hmiss := hmisses hcurrent hnonnull 0 (by rw [h.poolOk.reservations]; exact Nat.one_pos) p hp
        hp'reserved
      rw [hpool] at hmiss
      unfold MasterPool.Misses at hmiss
      have hatEnd : call.answer.malloc.toNat = s.masterSlabEnd.toNat := by
        rw [h.slabEnd, pool.masterSlabEnd_toNat]
        omega
      exact hend (BitVec.eq_of_toNat_eq hatEnd)

theorem Published.allocate (h : s.Published pool) {call : AllocationCall}
    (hok : s.CallOk call (s.current call.t))
    (hmisses : s.MallocMisses call)
    (hmove : AllocateMove asserts s call.t call.size call.type call.alignment call.answer s') :
    s'.Published pool := by
  cases hmove with
  | malloc hnone => exact h.handOut (h.malloc_outside hnone hok hmisses)
  | @stale c p hc hp hreleased =>
      rw [hc] at hok
      obtain ⟨p', hp', hreserved⟩ := isReserved_iff.mp hok.1
      obtain rfl := Option.some.inj (hp.symm.trans hp')
      rw [hreleased] at hreserved
      cases hreserved
  | @arena c p r hc hp hreserved htype hr =>
      rw [hc] at hok
      obtain ⟨hgeneration, hix, hpool, harenas⟩ := h.poolOk.ofContext hc hp
      obtain ⟨hlow, hhigh⟩ := zoneOf_inside pool call.type hix
      have hlt := pool.pool_fits
      have hlength : pool.length = 34359738368 * pool.count + pool.arrayLength := rfl
      obtain ⟨hwithin, hblock⟩ := (harenas call.type c.ix hix).allocate (by omega)
        (hok.2.2 p hp) hr
      have hnext : (s.setPool 0 (p.setArena call.type c.ix r.arena)).Published pool :=
        h.setPool ((setArena_pool ..).trans hpool) (setArena_within harenas hwithin)
      rw [hgeneration]
      refine hnext.handOut ?_
      rw [Bool.not_false, hnext.isCustomAllocated_iff]
      omega
  | @refused c p hc hp hreserved htype =>
      rw [hc] at hok
      exact absurd hok.2.1 htype

/-- The reset of a transient arena. -/
theorem Published.resetArena (h : s.Published pool) {t : EngineThread} {c : ContextRef} {p : PoolState}
    (hc : s.current t = some c) (hp : s.pools c.generation = some p) :
    (s.setPool c.generation
      (p.setArena .transient c.ix (p.transientArenas c.ix).reset)).Published pool := by
  obtain ⟨hgeneration, hix, hpool, harenas⟩ := h.poolOk.ofContext hc hp
  have hwithin := harenas .transient c.ix hix
  rw [hgeneration]
  exact h.setPool ((setArena_pool ..).trans hpool)
    (setArena_within harenas ⟨hwithin.backing, hwithin.maxCapacity, Nat.zero_le _⟩)

/-! ### Steps -/

theorem stepsBehindSlab_later (pool : MasterPool) :
    ∀ step ∈ stepsBehindSlab 0 pool, InitStep.IsLater pool step := by
  unfold stepsBehindSlab
  simp only [List.forall_mem_append, List.forall_mem_cons, List.mem_replicate, List.mem_flatMap,
    List.mem_range]
  refine ⟨⟨⟨⟨rfl, trivial, fun _ h => absurd h List.not_mem_nil⟩, ?_⟩, ?_⟩, ?_⟩
  · rintro step ⟨-, rfl⟩
    trivial
  · exact ⟨trivial, trivial, trivial, trivial, fun _ h => absurd h List.not_mem_nil⟩
  · rintro step ⟨i, hi, hstep⟩
    rcases List.mem_cons.mp hstep with rfl | hstep
    · trivial
    · obtain rfl := List.mem_singleton.mp hstep
      change i + 1 < pool.count
      omega

/-- The first `Initialize` reserves its pool where no block of `malloc` is. -/
theorem Unpublished.beginInitialize (h : s.Unpublished) (hnone : s.reservations = 0)
    (hpending : ∀ t, s.pending t = []) (hunused : ∀ g, s.pools g = none) (t : EngineThread)
    (hpos : 0 < pool.base.toNat)
    (hmisses : ∀ l ∈ s.live, l.fromMalloc = true → l.ptr ≠ 0#64 → pool.Misses l.ptr l.size) :
    (s.beginInitialize t pool).Publishing pool t := by
  have hpools : (s.beginInitialize t pool).pools 0 = some (.ofPool pool) := by
    simp only [Lifecycle.beginInitialize, setPending, Lifecycle.setPool, hnone, Function.update_self]
  have hstarted : (s.beginInitialize t pool).started = [] := h.started
  refine ⟨⟨h.slabEnd, h.current, h.started, h.contexts, h.live⟩, ?_, ?_, ?_, ?_, ?_⟩
  · refine ⟨⟨_, hpools, rfl, fun type ix hix => within_ofPool pool type hix⟩, ?_, ?_, hpos, ?_, ?_, ?_⟩
    · intro g hg
      simp only [Lifecycle.beginInitialize, setPending, Lifecycle.setPool, hnone, Function.update_of_ne hg]
      exact hunused g
    · change s.reservations + 1 = 1
      omega
    · rw [hstarted]
      exact fun _ hc => absurd hc List.not_mem_nil
    · intro t' c hc
      have hcurrent := (h.current t').symm.trans hc
      cases hcurrent
    · intro g hg
      have hcontexts := h.contexts.symm.trans hg
      cases hcontexts
  · exact isReserved_iff.mpr ⟨_, hpools, rfl⟩
  · intro t' ht'
    simp only [Lifecycle.beginInitialize, setPending, Function.update_of_ne ht']
    exact hpending t'
  · left
    simp only [Lifecycle.beginInitialize, setPending, Function.update_self, hnone]
  · intro l hl
    exact hmisses l hl (h.live l hl).1 (h.live l hl).2

/-- The two stores of the slab. The second finds no block of `malloc` at the end of the pool. -/
theorem Publishing.runInitStep {t t' : EngineThread} (h : s.Publishing pool t) {step : InitStep}
    {rest : List InitStep} (ht : s.pending t' = step :: rest) {answer : SystemAnswer}
    (hrun : (s.setPending t' rest).runInitStep asserts t' answer step = some s')
    (hend : ∀ l ∈ s.live, slabEndStore (s.pending t') ≠ some l.ptr) : s'.Phase := by
  obtain ⟨hunpublished, hpool, hreserved, hothers, hpending, hmisses⟩ := h
  have htt : t' = t := by
    by_contra hne
    rw [hothers t' hne] at ht
    cases ht
  subst htt
  have hrest : (s.setPending t' rest).pending t' = rest := by
    simp only [setPending, Function.update_self]
  have hnil : ∀ t, t ≠ t' → (s.setPending t' rest).pending t = [] := by
    intro t hne
    simp only [setPending, Function.update_of_ne hne]
    exact hothers t hne
  rcases hpending with hfirst | ⟨hsecond, hstart⟩
  · rw [hfirst] at ht
    obtain ⟨rfl, rfl⟩ := List.cons.inj ht
    obtain rfl := Option.some.inj hrun
    exact .publishing pool t' ⟨⟨hunpublished.slabEnd, hunpublished.current, hunpublished.started,
      hunpublished.contexts, hunpublished.live⟩, hpool.of_same rfl rfl rfl rfl rfl, hreserved, hnil,
      Or.inr ⟨hrest, rfl⟩, hmisses⟩
  · rw [hsecond] at ht
    obtain ⟨rfl, rfl⟩ := List.cons.inj ht
    obtain rfl := Option.some.inj hrun
    have hpoolOk : ({ s.setPending t' (stepsBehindSlab 0 pool) with
        masterSlabEnd := pool.contexts.masterSlabEnd } : Lifecycle).PoolOk pool :=
      hpool.of_same rfl rfl rfl rfl rfl
    refine .published pool ⟨hpoolOk, hstart, rfl, ?_, ?_⟩
    · intro t step hstep
      by_cases hne : t = t'
      · subst hne
        exact stepsBehindSlab_later pool step (by rwa [← hrest])
      · have hmem : step ∈ ([] : List InitStep) := by rwa [← hnil t hne]
        cases hmem
    · intro l hl
      have hfromMalloc := (hunpublished.live l hl).1
      simp only [hfromMalloc, iff_true, passesToFree, Bool.not_eq_true', ← Bool.not_eq_true]
      have hslab : ({ s.setPending t' (stepsBehindSlab 0 pool) with
          masterSlabEnd := pool.contexts.masterSlabEnd } : Lifecycle).masterSlabStart = pool.base :=
        hstart
      rw [isCustomAllocated_iff hslab rfl]
      rintro ⟨hlow, hhigh⟩
      have hmiss := hmisses l hl
      unfold MasterPool.Misses at hmiss
      have hatEnd : l.ptr.toNat = pool.contexts.masterSlabEnd.toNat := by
        rw [pool.masterSlabEnd_toNat]
        omega
      apply hend l hl
      rw [hsecond, BitVec.eq_of_toNat_eq hatEnd]
      rfl

theorem Published.runInitStep (h : s.Published pool) {t : EngineThread} {step : InitStep}
    {rest : List InitStep} (ht : s.pending t = step :: rest) {answer : SystemAnswer}
    (hrun : (s.setPending t rest).runInitStep asserts t answer step = some s')
    (hg : s.RoutedRun (.initStep t answer)) : s'.Published pool := by
  have hlater := h.pending t step (by rw [ht]; exact List.mem_cons_self)
  have hpopped : (s.setPending t rest).Published pool := by
    obtain ⟨hpool, hstart, hend, hpending, hrouted⟩ := h
    refine ⟨hpool.of_same rfl rfl rfl rfl rfl, hstart, hend, fun t' step' hstep => ?_, hrouted⟩
    by_cases hne : t' = t
    · subst hne
      simp only [setPending, Function.update_self] at hstep
      exact hpending t' step' (by rw [ht]; exact List.mem_cons_of_mem _ hstep)
    · simp only [setPending, Function.update_of_ne hne] at hstep
      exact hpending t' step' hstep
  obtain ⟨hpool, hstart, hend, hpending, hrouted⟩ := id hpopped
  cases step with
  | setSlabStart | setSlabEnd => exact hlater.elim
  | setThreadContexts generation =>
      obtain rfl := Option.some.inj hrun
      obtain rfl : generation = 0 := hlater
      refine ⟨⟨hpool.only, hpool.others, hpool.reservations, hpool.base_pos,
        hpool.started, hpool.current, fun g hg => ?_⟩, hstart, hend, hpending, hrouted⟩
      exact (Option.some.inj hg).symm
  | allocate size type =>
      have hcall : s.allocationOf (.initStep t answer) =
          some ⟨t, size, type, defaultAlignment.value, answer⟩ := by
        simp only [allocationOf, ht]
      have hok := hg.2.1 _ hcall
      have hmisses := hg.1.1 _ hcall
      exact hpopped.allocate hok hmisses (engineAllocate_move hrun)
  | setCurrent =>
      obtain ⟨generation, hcontexts, rfl⟩ := Option.map_eq_some_iff.mp hrun
      obtain rfl := hpool.contexts generation hcontexts
      exact hpopped.setCurrent t ⟨rfl, pool.count_pos⟩
  | startThread ix =>
      obtain ⟨generation, hcontexts, rfl⟩ := Option.map_eq_some_iff.mp hrun
      obtain rfl := hpool.contexts generation hcontexts
      exact ⟨⟨hpool.only, hpool.others, hpool.reservations, hpool.base_pos,
        List.forall_mem_cons.mpr ⟨⟨rfl, hlater⟩, hpool.started⟩, hpool.current, hpool.contexts⟩,
        hstart, hend, hpending, hrouted⟩

theorem release_of_none (h : s.threadContexts = none) : s.release = s := by
  unfold release
  rw [h]

/-- The range stays behind when the pool is released. -/
theorem Published.release (h : s.Published pool) : s.release.Published pool := by
  unfold Lifecycle.release
  cases hcontexts : s.threadContexts with
  | none => exact h
  | some generation =>
      obtain rfl := h.poolOk.contexts generation hcontexts
      obtain ⟨p, hp, hpool, harenas⟩ := h.poolOk.only
      simp only [hp]
      exact h.setPool hpool harenas

/-- Only live pointers go, and a stale access may be recorded. -/
theorem Phase.fewer (h : s.Phase) {live : List LivePointer} (hlive : ∀ l ∈ live, l ∈ s.live)
    (stale : Bool) : ({ s with live := live, staleAccess := stale } : Lifecycle).Phase := by
  cases h with
  | fresh h hnone hunused hpending =>
      exact .fresh ⟨h.slabEnd, h.current, h.started, h.contexts,
        fun l hl => h.live l (hlive l hl)⟩ hnone hunused hpending
  | publishing pool t h =>
      obtain ⟨hunpublished, hpool, hreserved, hothers, hpending, hmisses⟩ := h
      exact .publishing pool t ⟨⟨hunpublished.slabEnd, hunpublished.current, hunpublished.started,
        hunpublished.contexts, fun l hl => hunpublished.live l (hlive l hl)⟩,
        hpool.of_same rfl rfl rfl rfl rfl, hreserved, hothers, hpending,
        fun l hl => hmisses l (hlive l hl)⟩
  | published pool h =>
      obtain ⟨hpool, hstart, hend, hpending, hrouted⟩ := h
      exact .published pool ⟨hpool.of_same rfl rfl rfl rfl rfl, hstart, hend, hpending,
        fun l hl => hrouted l (hlive l hl)⟩

theorem Phase.resetArena (h : s.Phase) {t : EngineThread} {c : ContextRef} {p : PoolState}
    (hc : s.current t = some c) (hp : s.pools c.generation = some p) :
    (s.setPool c.generation
      (p.setArena .transient c.ix (p.transientArenas c.ix).reset)).Phase := by
  have hcontext : ¬ s.Unpublished := by
    intro h
    rw [h.current t] at hc
    cases hc
  cases h with
  | fresh h => exact absurd h hcontext
  | publishing pool t h => exact absurd h.unpublished hcontext
  | published pool h => exact .published pool (h.resetArena hc hp)

theorem Phase.allocate (h : s.Phase) {call : AllocationCall}
    (hok : s.CallOk call (s.current call.t))
    (hmisses : s.MallocMisses call)
    (hmove : AllocateMove asserts s call.t call.size call.type call.alignment call.answer s') :
    s'.Phase := by
  cases h with
  | fresh h hnone hunused hpending =>
      obtain ⟨-, rfl, hnext⟩ := h.allocate hok hmove
      exact .fresh hnext hnone hunused hpending
  | publishing pool t h =>
      obtain ⟨hunpublished, hpool, hreserved, hothers, hpending, hold⟩ := h
      obtain ⟨hnonnull, rfl, hnext⟩ := hunpublished.allocate hok hmove
      obtain ⟨p, hp, hp'reserved⟩ := isReserved_iff.mp hreserved
      obtain ⟨p', hp', hpoolEq, -⟩ := hpool.only
      obtain rfl := Option.some.inj (hp.symm.trans hp')
      have hmiss := hmisses (hunpublished.current call.t) hnonnull 0
        (by rw [hpool.reservations]; exact Nat.one_pos) p hp hp'reserved
      rw [hpoolEq] at hmiss
      exact .publishing pool t ⟨hnext, hpool.of_same rfl rfl rfl rfl rfl, hreserved, hothers, hpending,
        List.forall_mem_cons.mpr ⟨hmiss, hold⟩⟩
  | published pool h => exact .published pool (h.allocate hok hmisses hmove)

theorem Phase.step (s : Lifecycle) (move : LifecycleMove) (s' : Lifecycle) (h : s.Phase)
    (hg : s.RoutedRun move) (hn : (machine asserts).next s move = some s') : s'.Phase := by
  cases (next_step hn).2 with
  | @engineInitialize t pool ht =>
      obtain ⟨-, hpos, hmisses⟩ := hg.1
      have hfirst : s.reservations = 0 := hg.2.2
      cases h with
      | fresh h hnone hunused hpending =>
          exact .publishing pool t (h.beginInitialize hnone hpending hunused t hpos hmisses)
      | publishing pool t h =>
          rw [h.poolOk.reservations] at hfirst
          cases hfirst
      | published pool h =>
          rw [h.poolOk.reservations] at hfirst
          cases hfirst
  | @initStep t answer step rest s' ht hrun =>
      cases h with
      | fresh h hnone hunused hpending =>
          rw [hpending t] at ht
          cases ht
      | publishing pool t h => exact h.runInitStep ht hrun hg.2.2
      | published pool h => exact .published pool (h.runInitStep ht hrun hg)
  | @workerBegins c hc =>
      cases h with
      | fresh h =>
          rw [h.started] at hc
          cases hc
      | publishing pool t h =>
          rw [h.unpublished.started] at hc
          cases hc
      | published pool h =>
          exact .published pool (h.setCurrent _ (h.poolOk.started c hc))
  | allocate ht hmove => exact h.allocate (hg.2.1 _ rfl) (hg.1.1 _ rfl) hmove
  | free ht => exact h.fewer (fun l hl => List.mem_of_mem_eraseIdx hl) _
  | resetStale => exact h.fewer (fun l hl => hl) true
  | resetArena hc hp => exact h.resetArena hc hp
  | shutdown ht =>
      cases h with
      | fresh h hnone hunused hpending =>
          rw [release_of_none h.contexts]
          exact .fresh h hnone hunused hpending
      | publishing pool t h =>
          rw [release_of_none h.unpublished.contexts]
          exact .publishing pool t h
      | published pool h => exact .published pool h.release

theorem start_phase : start.Phase :=
  .fresh ⟨rfl, fun _ => rfl, rfl, rfl, fun _ hl => absurd hl List.not_mem_nil⟩ rfl (fun _ => rfl)
    fun _ => rfl

/-- `Engine::Free` hands exactly the blocks of `malloc` to `::free`, in every run that meets the
condition. -/
theorem free_routes (asserts : Bool) (s : Lifecycle)
    (hs : (machine asserts).ReachIf RoutedRun start s) :
    ∀ l ∈ s.live, (s.passesToFree l.ptr = true ↔ l.fromMalloc = true) := by
  have hphase : s.Phase := hs.invariant Phase.step start_phase
  have hunpublished : s.Unpublished →
      ∀ l ∈ s.live, (s.passesToFree l.ptr = true ↔ l.fromMalloc = true) := by
    intro h l hl
    obtain ⟨hfromMalloc, hptr⟩ := h.live l hl
    exact iff_of_true (passesToFree_of_slabEnd_zero h.slabEnd hptr) hfromMalloc
  cases hphase with
  | fresh h => exact hunpublished h
  | publishing pool t h => exact hunpublished h.unpublished
  | published pool h => exact h.routed

/-! ### Another thread of the application -/

/-- A byte for a thread without a context, at the address that `malloc` finds. -/
def mallocOne (address : BitVec 64) : LifecycleMove :=
  .allocate (.application 1) 1#64 .transient 8#64 ⟨address, ⟨true, true⟩⟩

/-- The block is where the pool was before its release. -/
def blockInReleasedPool : List LifecycleMove :=
  oneWorkerInitialize ++ [.shutdown mainThread, mallocOne 131072#64]

def releasedEnd : Lifecycle := ((machine true).exec start blockInReleasedPool).get rfl

theorem releasedEnd_reach : (machine true).ReachIf HeapDisjoint start releasedEnd :=
  Machine.reachIf_of_exec blockInReleasedPool rfl (by decide)

theorem malloc_block_kept : ¬ ∀ (asserts : Bool) (s : Lifecycle),
    (machine asserts).ReachIf HeapDisjoint start s →
      ∀ l ∈ s.live, (s.passesToFree l.ptr = true ↔ l.fromMalloc = true) := by
  intro h
  have hrouted := h true releasedEnd releasedEnd_reach ⟨131072#64, 1#64, true⟩ List.mem_cons_self
  exact absurd hrouted (by decide)

/-- Blocks of both kinds, some of them freed after the release of the pool. -/
def bothKinds : List LifecycleMove :=
  mallocOne 12288#64 :: oneWorkerInitialize ++
    [mallocOne 16384#64, allocateOne, .shutdown mainThread, .free (.application 1) 1]

def bothKindsEnd : Lifecycle := ((machine true).exec start bothKinds).get rfl

theorem bothKindsEnd_reach : (machine true).ReachIf RoutedRun start bothKindsEnd :=
  Machine.reachIf_of_exec bothKinds rfl (by decide)

theorem bothKindsEnd_routed :
    bothKindsEnd.live.map LivePointer.fromMalloc =
        [false, false, false, false, false, true, true, true] ∧
      ∀ l ∈ bothKindsEnd.live, (bothKindsEnd.passesToFree l.ptr = true ↔ l.fromMalloc = true) :=
  ⟨rfl, free_routes true bothKindsEnd bothKindsEnd_reach⟩

end Lifecycle
end ProjectDelta
