import Mathlib.Data.List.Range
import ProjectDelta.QueueLayout
import ProjectDelta.RecordLayout
import ProjectDelta.ThreadArena

/-!
# The zones of the threads in the master pool

`ThreadContext_Initialize` reserves one pool: first the array of execution
contexts, rounded up to pages, then one zone of 32 GB for each thread. A cursor
runs over the zones; each holds the transient arena of its thread and behind it
the persistent storage of the main thread or the queue of a worker.
-/

namespace ProjectDelta

/-! ### Sizes of the execution contexts -/

/-- `sizeof(GenericExecutionContext)` -/
def sizeofGenericExecutionContext : ℕ :=
  RecordLayout.size 64
    [.scalar 1, .scalar 4, .scalar 8,   -- type, threadIx, threadHandle
      ⟨32, 8⟩, ⟨32, 8⟩, ⟨32, 8⟩]        -- pageCoordinator, transientArena, perThreadTimer

/-- `sizeof(MainExecutionContext)` -/
def sizeofMainExecutionContext : ℕ :=
  RecordLayout.size 64
    [⟨sizeofGenericExecutionContext, 64⟩, ⟨32, 8⟩, .scalar 4]   -- persistentStorage, depCounter

/-- `sizeof(TaskQueue)` -/
def sizeofTaskQueue : ℕ :=
  RecordLayout.size 64
    [⟨8, 64⟩, ⟨8, 64⟩, ⟨8, 64⟩, .scalar 8,   -- top, bottom, size, mask
      .scalar 8, .scalar 8, .scalar 8]        -- tasks, payloads, depCounterPtr

/-- `sizeof(WorkerExecutionContext)` -/
def sizeofWorkerExecutionContext : ℕ :=
  RecordLayout.size 64
    [⟨sizeofGenericExecutionContext, 64⟩, ⟨sizeofTaskQueue, 64⟩,
      .scalar 8, .scalar 1, .scalar 1]        -- sleepSemaphore, isAsleep, shouldClose

def threadExecutionContextStride : BitVec 64 :=
  BitVec.ofNat 64 (max sizeofMainExecutionContext sizeofWorkerExecutionContext)

def threadExecutionContextSize : BitVec 64 :=
  (threadExecutionContextStride + 63#64) &&& ~~~63#64

theorem threadExecutionContextSize_toNat : threadExecutionContextSize.toNat = 384 := by decide

/-! ### ThreadContext_Initialize -/

inductive ThreadType
  | main
  | worker
  deriving DecidableEq

structure GenericExecutionContext where
  type : ThreadType
  threadIx : BitVec 32
  pageCoordinator : ThreadPageCoordinator
  transientArena : ThreadArena

def initializePageCoordinator (pageSize baseAddress : BitVec 64) : ThreadPageCoordinator where
  virtualAddressBase := baseAddress
  commitedOffset := 0#64
  reservedCapacity := MemoryMap.virtZoneSpaceLength
  pageSize := pageSize

/-- The globals and the contexts that the function leaves behind. `committed` are
its calls of `Memory_Commit`. -/
structure ThreadContexts where
  masterSlabStart : BitVec 64
  masterSlabEnd : BitVec 64
  threadContexts : BitVec 64
  contextArray : MemoryRange
  generics : List GenericExecutionContext
  persistentStorage : Option ThreadArena
  queues : List (TaskQueue ByteSlots)
  committed : List MemoryRange

/-- The address of `GetExecutionContext(i)`. -/
def getExecutionContext (threadContexts i : BitVec 64) : BitVec 64 :=
  threadContexts + i * threadExecutionContextSize

/-- In memory that was committed just now, so that `type` and `threadIx` are zero. -/
def preInitialized (pageSize runwayCursor : BitVec 64) : GenericExecutionContext × MemoryRange :=
  let pageCoordinator := initializePageCoordinator pageSize runwayCursor
  let (transientArena, baseline) :=
    ThreadArena.initializeArena pageCoordinator MemoryMap.virtZoneTaOffset
      MemoryMap.virtZoneTaBaseline MemoryMap.virtZoneTaSize
  (⟨.main, 0#32, pageCoordinator, transientArena⟩, baseline)

/-- The loop over the threads, with `count` of them still to come. -/
def preInitialize (pageSize : BitVec 64) :
    ℕ → BitVec 64 → List (GenericExecutionContext × MemoryRange)
  | 0, _ => []
  | count + 1, runwayCursor =>
      preInitialized pageSize runwayCursor ::
        preInitialize pageSize count (runwayCursor + MemoryMap.virtZoneSpaceLength)

def initializePersistentStorage (main : GenericExecutionContext) : ThreadArena × MemoryRange :=
  ThreadArena.initializeArena main.pageCoordinator MemoryMap.Main.virtZonePsOffset
    MemoryMap.Main.virtZonePsBaseline MemoryMap.Main.virtZonePsSize

/-- The role of context `i`. -/
def withRole (i : ℕ) (generic : GenericExecutionContext) : GenericExecutionContext :=
  { generic with
    type := if i = 0 then .main else .worker
    threadIx := BitVec.ofNat 32 i }

def addrSlicePerThread : BitVec 64 := 1#64 <<< 35

def alignedContextArraySize (threadCount : BitVec 32) (pageSize : BitVec 64) : BitVec 64 :=
  align (threadExecutionContextSize * threadCount.setWidth 64) pageSize

def masterPoolSize (threadCount : BitVec 32) (pageSize : BitVec 64) : BitVec 64 :=
  addrSlicePerThread * threadCount.setWidth 64 + alignedContextArraySize threadCount pageSize

/-- `masterPoolBase` is what `Memory_Reserve` returned for `masterPoolSize`; every commit succeeds. -/
def threadContextInitialize (threadCount : BitVec 32) (pageSize masterPoolBase : BitVec 64) :
    ThreadContexts :=
  let contextArray : MemoryRange := ⟨masterPoolBase, alignedContextArraySize threadCount pageSize⟩
  let preInitialized := preInitialize pageSize threadCount.toNat
    (masterPoolBase + alignedContextArraySize threadCount pageSize)
  let generics := (preInitialized.map Prod.fst).mapIdx withRole
  let persistentStorage := generics.head?.map initializePersistentStorage
  let queues := generics.tail.map fun generic =>
    TaskQueue.workerQueue generic.pageCoordinator TaskQueue.zeroedQueue
  { masterSlabStart := masterPoolBase
    masterSlabEnd := masterPoolBase + masterPoolSize threadCount pageSize
    threadContexts := masterPoolBase
    contextArray := contextArray
    generics := generics
    persistentStorage := persistentStorage.map Prod.fst
    queues := queues.map Prod.fst
    committed := contextArray :: preInitialized.map Prod.snd ++
      (persistentStorage.map Prod.snd).toList ++ queues.map Prod.snd }

/-! ### The ranges of the layout -/

def TaskQueue.zone (queue : TaskQueue ByteSlots) : MemoryRange :=
  ⟨queue.slots.tasks, MemoryMap.Worker.virtZoneQueueSize⟩

namespace ThreadContexts

variable (t : ThreadContexts)

/-- `[g_MasterSlabStart, g_MasterSlabEnd)`, empty when the end has wrapped. -/
def slab : ℕ × ℕ := (t.masterSlabStart.toNat, t.masterSlabEnd.toNat)

/-- Every byte of the range is at `g_MasterSlabStart` or above it and below `g_MasterSlabEnd`. -/
def InSlab (r : MemoryRange) : Prop := ∀ a, r.Contains a → t.slab.1 ≤ a ∧ a < t.slab.2

def contextRange (i : ℕ) : MemoryRange :=
  ⟨getExecutionContext t.threadContexts (BitVec.ofNat 64 i), threadExecutionContextSize⟩

def contextRanges : List MemoryRange := (List.range t.generics.length).map t.contextRange

def transientRanges : List MemoryRange :=
  t.generics.map fun generic => generic.transientArena.fullRange

def persistentRanges : List MemoryRange := t.persistentStorage.toList.map ThreadArena.fullRange

def queueRanges : List MemoryRange := t.queues.map TaskQueue.zone

def ranges : List MemoryRange :=
  t.contextRanges ++ (t.transientRanges ++ (t.persistentRanges ++ t.queueRanges))

end ThreadContexts

/-- A reservation of the size that `ThreadContext_Initialize` asks for. It ends before the address
space does, so that the address behind it can be stored. -/
structure MasterPool where
  threadCount : BitVec 32
  pageSize : Alignment
  base : BitVec 64
  one_le : 1 ≤ threadCount.toNat
  aligned : pageSize.value.toNat ∣ base.toNat
  size_lt : 34359738368 * threadCount.toNat +
    RoundUp.up (384 * threadCount.toNat) pageSize.value.toNat < 2 ^ 64
  fits : base.toNat + (34359738368 * threadCount.toNat +
    RoundUp.up (384 * threadCount.toNat) pageSize.value.toNat) < 2 ^ 64

namespace MasterPool

variable (pool : MasterPool)

def contexts : ThreadContexts :=
  threadContextInitialize pool.threadCount pool.pageSize.value pool.base

def count : ℕ := pool.threadCount.toNat

/-- The length of the context array in whole pages. -/
def arrayLength : ℕ := RoundUp.up (384 * pool.count) pool.pageSize.value.toNat

def length : ℕ := 34359738368 * pool.count + pool.arrayLength

theorem count_pos : 0 < pool.count := pool.one_le

theorem pool_lt : 34359738368 * pool.count + pool.arrayLength < 2 ^ 64 := pool.size_lt

theorem pool_fits : pool.base.toNat + (34359738368 * pool.count + pool.arrayLength) < 2 ^ 64 :=
  pool.fits

theorem le_arrayLength : 384 * pool.count ≤ pool.arrayLength :=
  RoundUp.le_up _ pool.pageSize.value_pos

theorem addrSlicePerThread_toNat : addrSlicePerThread.toNat = 34359738368 := by decide

theorem alignedContextArraySize_toNat :
    (alignedContextArraySize pool.threadCount pool.pageSize.value).toNat = pool.arrayLength := by
  have hlt := pool.pool_lt
  have hcount : pool.threadCount.toNat = pool.count := rfl
  have hsize : (threadExecutionContextSize * pool.threadCount.setWidth 64).toNat =
      384 * pool.count := by
    have hwidth := pool.threadCount.isLt
    rw [BitVec.toNat_mul, threadExecutionContextSize_toNat, BitVec.toNat_setWidth]
    omega
  rw [alignedContextArraySize, align_toNat_of_fits _ _ (by rw [hsize]; exact lt_of_le_of_lt (Nat.le_add_left _ _) hlt), hsize]
  rfl

theorem masterPoolSize_toNat :
    (masterPoolSize pool.threadCount pool.pageSize.value).toNat =
      34359738368 * pool.count + pool.arrayLength := by
  have hlt := pool.pool_lt
  have hcount : pool.threadCount.toNat = pool.count := rfl
  have hwidth := pool.threadCount.isLt
  have hslices : (addrSlicePerThread * pool.threadCount.setWidth 64).toNat =
      34359738368 * pool.count := by
    rw [BitVec.toNat_mul, addrSlicePerThread_toNat, BitVec.toNat_setWidth]
    omega
  rw [masterPoolSize, BitVec.toNat_add, hslices, pool.alignedContextArraySize_toNat,
    Nat.mod_eq_of_lt hlt]

/-! ### The zones in closed form -/

/-- Where zone `i` starts. -/
def zoneStart (i : ℕ) : ℕ := pool.base.toNat + pool.arrayLength + 34359738368 * i

/-- The cursor at its `i`th round. -/
def cursor (i : ℕ) : BitVec 64 :=
  pool.base + alignedContextArraySize pool.threadCount pool.pageSize.value +
    BitVec.ofNat 64 i * MemoryMap.virtZoneSpaceLength

theorem cursor_toNat {i : ℕ} (hi : i < pool.count) :
    (pool.cursor i).toNat = pool.zoneStart i := by
  have hfits := pool.pool_fits
  have hlt := pool.pool_lt
  rw [cursor, BitVec.toNat_add, BitVec.toNat_add, BitVec.toNat_mul,
    MemoryMap.virtZoneSpaceLength_toNat, pool.alignedContextArraySize_toNat, BitVec.toNat_ofNat,
    zoneStart]
  omega

end MasterPool

theorem preInitialize_eq (pageSize : BitVec 64) (count : ℕ) (runwayCursor : BitVec 64) :
    preInitialize pageSize count runwayCursor = (List.range count).map fun i =>
      preInitialized pageSize (runwayCursor + BitVec.ofNat 64 i * MemoryMap.virtZoneSpaceLength) := by
  induction count generalizing runwayCursor with
  | zero => rfl
  | succ count ih =>
      have hnext : ∀ i : ℕ, runwayCursor + MemoryMap.virtZoneSpaceLength +
          BitVec.ofNat 64 i * MemoryMap.virtZoneSpaceLength =
          runwayCursor + BitVec.ofNat 64 (i + 1) * MemoryMap.virtZoneSpaceLength := by
        intro i
        rw [BitVec.ofNat_add, BitVec.add_mul, BitVec.one_mul, BitVec.add_assoc,
          BitVec.add_comm MemoryMap.virtZoneSpaceLength]
      rw [List.range_succ_eq_map, List.map_cons, List.map_map, preInitialize, ih]
      have hfirst : runwayCursor + BitVec.ofNat 64 0 * MemoryMap.virtZoneSpaceLength =
          runwayCursor := by rw [BitVec.zero_mul, BitVec.add_zero]
      rw [hfirst]
      refine congrArg (preInitialized pageSize runwayCursor :: ·) (List.map_congr_left fun i _ => ?_)
      rw [hnext]
      rfl

namespace MasterPool

variable (pool : MasterPool)

/-- Context `i` without its role-specific part. -/
def generic (i : ℕ) : GenericExecutionContext :=
  withRole i (preInitialized pool.pageSize.value (pool.cursor i)).1

theorem contexts_generics : pool.contexts.generics = (List.range pool.count).map pool.generic := by
  change ((preInitialize pool.pageSize.value pool.count _).map Prod.fst).mapIdx withRole = _
  rw [preInitialize_eq]
  apply List.ext_getElem
  · simp
  · intro i _ _
    simp only [List.getElem_mapIdx, List.getElem_map, List.getElem_range]
    rfl

theorem range_count : List.range pool.count = 0 :: (List.range (pool.count - 1)).map (· + 1) := by
  obtain ⟨m, hm⟩ : ∃ m, pool.count = m + 1 := ⟨pool.count - 1, by have := pool.count_pos; omega⟩
  rw [hm, List.range_succ_eq_map, Nat.add_sub_cancel]

theorem contexts_persistentStorage : pool.contexts.persistentStorage =
    some (initializePersistentStorage (pool.generic 0)).1 := by
  change (pool.contexts.generics.head?.map initializePersistentStorage).map Prod.fst = _
  rw [contexts_generics, range_count]
  rfl

theorem contexts_queues : pool.contexts.queues = (List.range (pool.count - 1)).map fun i =>
    (TaskQueue.workerQueue (pool.generic (i + 1)).pageCoordinator TaskQueue.zeroedQueue).1 := by
  change (pool.contexts.generics.tail.map fun generic =>
    TaskQueue.workerQueue generic.pageCoordinator TaskQueue.zeroedQueue).map Prod.fst = _
  rw [contexts_generics, range_count, List.map_cons, List.tail_cons, List.map_map, List.map_map,
    List.map_map]
  rfl

/-! ### Each range of the layout -/

def contextRange (i : ℕ) : MemoryRange := pool.contexts.contextRange i

def transientRange (i : ℕ) : MemoryRange := (pool.generic i).transientArena.fullRange

def persistentRange : MemoryRange := (initializePersistentStorage (pool.generic 0)).1.fullRange

/-- The queue of the worker with context `i + 1`. -/
def queueRange (i : ℕ) : MemoryRange :=
  (TaskQueue.workerQueue (pool.generic (i + 1)).pageCoordinator TaskQueue.zeroedQueue).1.zone

theorem contexts_ranges : pool.contexts.ranges =
    (List.range pool.count).map pool.contextRange ++
      ((List.range pool.count).map pool.transientRange ++
        ([pool.persistentRange] ++ (List.range (pool.count - 1)).map pool.queueRange)) := by
  rw [ThreadContexts.ranges, ThreadContexts.contextRanges, ThreadContexts.transientRanges,
    ThreadContexts.persistentRanges, ThreadContexts.queueRanges, contexts_generics,
    contexts_persistentStorage, contexts_queues, List.length_map, List.length_range, List.map_map,
    List.map_map]
  rfl

/-- `r` is the range of bytes from `start` on of the given length. -/
def Occupies (r : MemoryRange) (start length : ℕ) : Prop :=
  r.start.toNat = start ∧ r.length.toNat = length

theorem contextRange_occupies {i : ℕ} (hi : i < pool.count) :
    Occupies (pool.contextRange i) (pool.base.toNat + 384 * i) 384 := by
  have hfits := pool.pool_fits
  have harray := pool.le_arrayLength
  have hcount : pool.count < 2 ^ 32 := pool.threadCount.isLt
  refine ⟨?_, threadExecutionContextSize_toNat⟩
  change (pool.base + BitVec.ofNat 64 i * threadExecutionContextSize).toNat = _
  rw [BitVec.toNat_add, BitVec.toNat_mul, threadExecutionContextSize_toNat, BitVec.toNat_ofNat]
  omega

/-- What `InitializeArena` and `InitializeQueue` compute from the base of zone `i`. -/
theorem cursor_add_toNat {i : ℕ} (hi : i < pool.count) {offset : BitVec 64}
    (hoffset : offset.toNat < 34359738368) :
    (pool.cursor i + offset).toNat = pool.zoneStart i + offset.toNat := by
  have hfits := pool.pool_fits
  have hstart : pool.zoneStart i = pool.base.toNat + pool.arrayLength + 34359738368 * i := rfl
  rw [BitVec.toNat_add, pool.cursor_toNat hi]
  omega

theorem transientRange_occupies {i : ℕ} (hi : i < pool.count) :
    Occupies (pool.transientRange i) (pool.zoneStart i) 1073741824 := by
  refine ⟨?_, MemoryMap.virtZoneTaSize_toNat⟩
  exact pool.cursor_add_toNat hi (by decide)

theorem persistentRange_occupies :
    Occupies pool.persistentRange (pool.zoneStart 0 + 1073741824) 2147483648 := by
  refine ⟨?_, MemoryMap.Main.virtZonePsSize_toNat⟩
  exact pool.cursor_add_toNat pool.count_pos (by decide)

theorem queueRange_occupies {i : ℕ} (hi : i < pool.count - 1) :
    Occupies (pool.queueRange i) (pool.zoneStart (i + 1) + 1073741824) 65536 := by
  refine ⟨?_, MemoryMap.Worker.virtZoneQueueSize_toNat⟩
  exact pool.cursor_add_toNat (by omega) (by decide)

theorem Occupies.disjoint {r r' : MemoryRange} {start length start' length' : ℕ}
    (h : Occupies r start length) (h' : Occupies r' start' length')
    (hends : start + length ≤ start' ∨ start' + length' ≤ start) : r.Disjoint r' := by
  apply MemoryRange.disjoint_of_ordered
  rw [h.1, h.2, h'.1, h'.2]
  exact hends

theorem Occupies.inside {r r' : MemoryRange} {start length start' length' : ℕ}
    (h : Occupies r start length) (h' : Occupies r' start' length')
    (hstart : start' ≤ start) (hend : start + length ≤ start' + length') : r.Inside r' := by
  apply MemoryRange.inside_of_le
  · rw [h.1, h'.1]
    exact hstart
  · rw [h.1, h.2, h'.1, h'.2]
    exact hend

/-- A family of ranges in the order of their addresses. -/
theorem pairwise_disjoint_family {n : ℕ} (f : ℕ → MemoryRange) (start : ℕ → ℕ) (length : ℕ)
    (hf : ∀ i < n, Occupies (f i) (start i) length)
    (hordered : ∀ i j, i < j → start i + length ≤ start j) :
    ((List.range n).map f).Pairwise MemoryRange.Disjoint := by
  rw [List.pairwise_map]
  apply List.Pairwise.imp_of_mem _ List.pairwise_lt_range
  intro i j hi hj hij
  exact (hf i (List.mem_range.mp hi)).disjoint (hf j (List.mem_range.mp hj)) (Or.inl (hordered i j hij))

theorem forall_mem_family {n : ℕ} {f : ℕ → MemoryRange} {P : MemoryRange → Prop}
    (h : ∀ i < n, P (f i)) : ∀ r ∈ (List.range n).map f, P r := by
  intro r hr
  obtain ⟨i, hi, rfl⟩ := List.mem_map.mp hr
  exact h i (List.mem_range.mp hi)

section

variable {P : MemoryRange → Prop}

theorem forall_behindArenas (hpersistent : P pool.persistentRange)
    (hqueue : ∀ i < pool.count - 1, P (pool.queueRange i)) :
    ∀ r ∈ [pool.persistentRange] ++ (List.range (pool.count - 1)).map pool.queueRange, P r := by
  rw [List.singleton_append, List.forall_mem_cons]
  exact ⟨hpersistent, forall_mem_family hqueue⟩

theorem forall_zones (htransient : ∀ i < pool.count, P (pool.transientRange i))
    (hpersistent : P pool.persistentRange) (hqueue : ∀ i < pool.count - 1, P (pool.queueRange i)) :
    ∀ r ∈ (List.range pool.count).map pool.transientRange ++
      ([pool.persistentRange] ++ (List.range (pool.count - 1)).map pool.queueRange), P r := by
  rw [List.forall_mem_append]
  exact ⟨forall_mem_family htransient, pool.forall_behindArenas hpersistent hqueue⟩

theorem forall_ranges (hcontext : ∀ i < pool.count, P (pool.contextRange i))
    (htransient : ∀ i < pool.count, P (pool.transientRange i))
    (hpersistent : P pool.persistentRange) (hqueue : ∀ i < pool.count - 1, P (pool.queueRange i)) :
    ∀ r ∈ pool.contexts.ranges, P r := by
  rw [contexts_ranges, List.forall_mem_append]
  exact ⟨forall_mem_family hcontext, pool.forall_zones htransient hpersistent hqueue⟩

end

theorem zoneStart_eq (i : ℕ) :
    pool.zoneStart i = pool.base.toNat + pool.arrayLength + 34359738368 * i := rfl

theorem ranges_pairwise : pool.contexts.ranges.Pairwise MemoryRange.Disjoint := by
  have harray := pool.le_arrayLength
  have hzone := pool.zoneStart_eq
  have hzero := hzone 0
  rw [contexts_ranges, List.pairwise_append, List.pairwise_append, List.pairwise_append]
  refine ⟨?_, ⟨?_, ⟨List.pairwise_singleton _ _, ?_, ?_⟩, ?_⟩, ?_⟩
  · apply pairwise_disjoint_family _ _ _ fun i hi => pool.contextRange_occupies hi
    omega
  · apply pairwise_disjoint_family _ _ _ fun i hi => pool.transientRange_occupies hi
    intro i j hij
    rw [hzone i, hzone j]
    omega
  · apply pairwise_disjoint_family _ _ _ fun i hi => pool.queueRange_occupies hi
    intro i j hij
    rw [hzone (i + 1), hzone (j + 1)]
    omega
  · rw [List.forall_mem_singleton]
    apply forall_mem_family
    intro j hj
    apply pool.persistentRange_occupies.disjoint (pool.queueRange_occupies hj)
    rw [hzone (j + 1)]
    omega
  · apply forall_mem_family
    intro i hi
    have htransient := pool.transientRange_occupies hi
    have hstart := hzone i
    refine pool.forall_behindArenas ?_ ?_
    · -- in zone 0 the persistent storage is behind the arena, every other zone is above it
      apply htransient.disjoint pool.persistentRange_occupies
      rcases Nat.eq_zero_or_pos i with rfl | hpos <;> omega
    · intro j hj
      apply htransient.disjoint (pool.queueRange_occupies hj)
      rw [hzone (j + 1)]
      omega
  · apply forall_mem_family
    intro i hi
    have hcontext := pool.contextRange_occupies hi
    refine pool.forall_zones ?_ ?_ ?_
    · intro j hj
      apply hcontext.disjoint (pool.transientRange_occupies hj)
      rw [hzone j]
      omega
    · apply hcontext.disjoint pool.persistentRange_occupies
      omega
    · intro j hj
      apply hcontext.disjoint (pool.queueRange_occupies hj)
      rw [hzone (j + 1)]
      omega

theorem masterSlabEnd_toNat :
    pool.contexts.masterSlabEnd.toNat = pool.base.toNat + pool.length := by
  change (pool.base + masterPoolSize pool.threadCount pool.pageSize.value).toNat = _
  rw [BitVec.toNat_add, masterPoolSize_toNat]
  exact Nat.mod_eq_of_lt pool.pool_fits

theorem slab_eq : pool.contexts.slab = (pool.base.toNat, pool.base.toNat + pool.length) :=
  congrArg (Prod.mk pool.base.toNat) pool.masterSlabEnd_toNat

theorem contextArray_occupies :
    Occupies pool.contexts.contextArray pool.base.toNat pool.arrayLength :=
  ⟨rfl, pool.alignedContextArraySize_toNat⟩

theorem Occupies.inSlab {pool : MasterPool} {r : MemoryRange} {start length : ℕ}
    (h : Occupies r start length) (hstart : pool.base.toNat ≤ start)
    (hend : start + length ≤ pool.base.toNat + pool.length) :
    pool.contexts.InSlab r := by
  intro a ha
  rw [MemoryRange.Contains, h.1, h.2] at ha
  rw [slab_eq]
  exact ⟨hstart.trans ha.1, ha.2.trans_le hend⟩

theorem ranges_inSlab : ∀ r ∈ pool.contexts.ranges, pool.contexts.InSlab r := by
  have harray := pool.le_arrayLength
  have hzone := pool.zoneStart_eq
  have hzero := hzone 0
  have hcount := pool.count_pos
  have hlength : pool.length = 34359738368 * pool.count + pool.arrayLength := rfl
  refine pool.forall_ranges ?_ ?_ ?_ ?_
  · intro i hi
    apply (pool.contextRange_occupies hi).inSlab <;> omega
  · intro i hi
    apply (pool.transientRange_occupies hi).inSlab <;> rw [hzone i] <;> omega
  · apply pool.persistentRange_occupies.inSlab <;> omega
  · intro i hi
    apply (pool.queueRange_occupies hi).inSlab <;> rw [hzone (i + 1)] <;> omega

theorem contextRange_inside_array {i : ℕ} (hi : i < pool.count) :
    (pool.contextRange i).Inside pool.contexts.contextArray := by
  have harray := pool.le_arrayLength
  apply (pool.contextRange_occupies hi).inside pool.contextArray_occupies <;> omega

theorem contextStart_in_array {i : ℕ} (hi : i < pool.count) :
    pool.contexts.contextArray.Contains (pool.contextRange i).start.toNat := by
  apply pool.contextRange_inside_array hi
  have hlength := (pool.contextRange_occupies hi).2
  constructor <;> omega

theorem contextStart_injective {i j : ℕ} (hi : i < pool.count) (hj : j < pool.count)
    (h : (pool.contextRange i).start = (pool.contextRange j).start) : i = j := by
  have hstart := (pool.contextRange_occupies hi).1
  rw [h, (pool.contextRange_occupies hj).1] at hstart
  omega

/-- Both the base and the stride are multiples of 64, as far as the page is. -/
theorem dvd_contextRange {i : ℕ} (hi : i < pool.count) :
    min 64 pool.pageSize.value.toNat ∣ (pool.contextRange i).start.toNat := by
  rw [(pool.contextRange_occupies hi).1]
  have hpow : min 64 pool.pageSize.value.toNat = 2 ^ min 6 pool.pageSize.log := by
    rw [pool.pageSize.value_toNat, show (64 : ℕ) = 2 ^ 6 by rfl]
    exact ((pow_right_mono₀ (by decide)).map_min).symm
  have hpage : min 64 pool.pageSize.value.toNat ∣ pool.pageSize.value.toNat := by
    rw [hpow, pool.pageSize.value_toNat]
    exact pow_dvd_pow 2 (min_le_right _ _)
  have hline : min 64 pool.pageSize.value.toNat ∣ 384 * i := by
    rw [hpow]
    exact (pow_dvd_pow 2 (min_le_left _ _)).trans ⟨6 * i, by ring⟩
  exact Nat.dvd_add (hpage.trans pool.aligned) hline

/-- The ranges of the contexts, arenas and queues are disjoint and in the slab, and the
contexts are in the committed array, on boundaries of 64 bytes or of a smaller page. -/
theorem zones_disjoint (pool : MasterPool) :
    let t := pool.contexts
    (t.contextRanges.length = pool.count ∧ t.transientRanges.length = pool.count ∧
        t.persistentRanges.length = 1 ∧ t.queueRanges.length = pool.count - 1) ∧
      t.ranges.Pairwise MemoryRange.Disjoint ∧ (∀ r ∈ t.ranges, t.InSlab r) ∧
      ∀ r ∈ t.contextRanges, r.Inside t.contextArray ∧
        min 64 pool.pageSize.value.toNat ∣ r.start.toNat := by
  intro t
  refine ⟨⟨?_, ?_, ?_, ?_⟩, pool.ranges_pairwise, pool.ranges_inSlab, ?_⟩
  · rw [ThreadContexts.contextRanges, contexts_generics]
    simp
  · rw [ThreadContexts.transientRanges, contexts_generics]
    simp
  · rw [ThreadContexts.persistentRanges, contexts_persistentStorage]
    rfl
  · rw [ThreadContexts.queueRanges, contexts_queues]
    simp
  · rw [ThreadContexts.contextRanges, contexts_generics, List.length_map, List.length_range]
    apply forall_mem_family
    intro i hi
    exact ⟨pool.contextRange_inside_array hi, pool.dvd_contextRange hi⟩

/-- One thread, pages of a single byte and a reservation at an odd address. -/
def oddPool : MasterPool where
  threadCount := 1#32
  pageSize := ⟨0, by decide⟩
  base := 1#64
  one_le := by decide
  aligned := by decide
  size_lt := by decide
  fits := by decide

theorem contexts_not_64_aligned : ¬ ∀ pool : MasterPool,
    ∀ r ∈ pool.contexts.contextRanges, 64 ∣ r.start.toNat := by
  intro h
  have haligned := h oddPool (oddPool.contexts.contextRange 0)
    (List.mem_map.mpr ⟨0, List.mem_range.mpr (by decide), rfl⟩)
  exact absurd haligned (by decide)

end MasterPool
end ProjectDelta
