import Mathlib.Algebra.Order.BigOperators.Group.Finset
import ProjectDelta.ThreadLayout

/-!
# The memory budget

`MemoryConfig_Initialize` splits the part of the RAM that the engine may use into
the memory to be locked and a global pool. Its assertion compares the lock to a
difference that has wrapped when the RAM is too small, so it only ever rejects a
machine that can hold the lock but not twice. The lock itself is the sum of what
each thread is meant to hold, in whole pages, and more than start-up commits.
-/

namespace ProjectDelta

structure EngineMemoryConfig where
  totalPhysicalRam : BitVec 64
  maxAllowedPhysical : BitVec 64
  threadSoftBaseline : BitVec 64
  activeLockAllocation : BitVec 64
  globalPoolSize : BitVec 64

namespace EngineMemoryConfig

def precomputableConst : BitVec 64 :=
  threadExecutionContextSize + MemoryMap.virtZoneTaBaseline + MemoryMap.Worker.virtZoneBaselineSum

def rawLockBudget (totalThreads : BitVec 32) : BitVec 64 :=
  totalThreads.setWidth 64 * precomputableConst + MemoryMap.Main.virtZoneBaselineSum -
    MemoryMap.Worker.virtZoneBaselineSum

def maxAllowed (physicalRamInstalled : BitVec 64) : BitVec 64 := physicalRamInstalled / 10#64 * 7#64

/-- `MemoryConfig_Initialize`; `none` is its failed assertion. -/
def memoryConfigInitialize (asserts : Bool) (physicalRamInstalled pageSize : BitVec 64)
    (totalThreads : BitVec 32) : Option EngineMemoryConfig :=
  let activeLockAllocation := align (rawLockBudget totalThreads) pageSize
  let globalPoolSize := maxAllowed physicalRamInstalled - activeLockAllocation
  if asserts ∧ ¬ activeLockAllocation ≤ globalPoolSize then none
  else some
    { totalPhysicalRam := physicalRamInstalled
      maxAllowedPhysical := maxAllowed physicalRamInstalled
      threadSoftBaseline := MemoryMap.virtZoneTaBaseline
      activeLockAllocation := activeLockAllocation
      globalPoolSize := globalPoolSize }

/-! ### The words of the budget -/

/-- What the threads lock, in whole pages and unbounded arithmetic. -/
def lockBudget (totalThreads : BitVec 32) (page : Alignment) : ℕ :=
  RoundUp.up (335544704 * totalThreads.toNat + 1879048192) page.value.toNat

theorem rawLockBudget_toNat (totalThreads : BitVec 32) :
    (rawLockBudget totalThreads).toNat = 335544704 * totalThreads.toNat + 1879048192 := by
  have hconst : precomputableConst.toNat = 335544704 := by decide
  have hmain : MemoryMap.Main.virtZoneBaselineSum.toNat = 2147483648 := by decide
  have hworker : MemoryMap.Worker.virtZoneBaselineSum.toNat = 268435456 := by decide
  have hthreads := totalThreads.isLt
  rw [rawLockBudget, BitVec.toNat_sub, BitVec.toNat_add, BitVec.toNat_mul, BitVec.toNat_setWidth,
    hconst, hmain, hworker]
  omega

/-- The rounded budget is at most half of the address space, whatever the page. -/
theorem lockBudget_le (totalThreads : BitVec 32) (page : Alignment) :
    lockBudget totalThreads page ≤ 2 ^ 63 := by
  have hthreads := totalThreads.isLt
  apply RoundUp.up_le page.value_pos
  · rw [page.value_toNat]
    exact pow_dvd_pow 2 (Nat.le_of_lt_succ page.fits)
  · omega

theorem activeLockAllocation_toNat (totalThreads : BitVec 32) (page : Alignment) :
    (align (rawLockBudget totalThreads) page.value).toNat = lockBudget totalThreads page := by
  have hle := lockBudget_le totalThreads page
  have hfits : RoundUp.up (rawLockBudget totalThreads).toNat page.value.toNat < 2 ^ 64 := by
    rw [rawLockBudget_toNat]
    exact hle.trans_lt (by decide)
  rw [align_toNat_of_fits _ _ hfits, rawLockBudget_toNat, lockBudget]

theorem maxAllowed_toNat (ram : BitVec 64) : (maxAllowed ram).toNat = ram.toNat / 10 * 7 := by
  have hram := ram.isLt
  have hten : (10#64).toNat = 10 := by decide
  have hseven : (7#64).toNat = 7 := by decide
  rw [maxAllowed, BitVec.toNat_mul, BitVec.toNat_udiv, hten, hseven]
  omega

/-! ### The partition -/

/-- The two parts make up the allowed RAM. -/
structure Partitions (config : EngineMemoryConfig) (ram : BitVec 64) : Prop where
  sum : config.activeLockAllocation.toNat + config.globalPoolSize.toNat =
    config.maxAllowedPhysical.toNat
  share : 10 * config.maxAllowedPhysical.toNat ≤ 7 * ram.toNat
  lock_le : config.activeLockAllocation ≤ config.globalPoolSize

/-- What passes the assertion partitions the allowed RAM, and a machine that cannot hold the
lock is rejected. -/
def Guarded (ram : BitVec 64) (page : Alignment) (totalThreads : BitVec 32) : Prop :=
  (∀ config, memoryConfigInitialize true ram page.value totalThreads = some config →
      config.Partitions ram) ∧
    ((maxAllowed ram).toNat < lockBudget totalThreads page →
      memoryConfigInitialize true ram page.value totalThreads = none)

variable {ram : BitVec 64} {page : Alignment} {totalThreads : BitVec 32}

/-- The difference has wrapped, and the lock is at most half of what it wraps to. -/
theorem assertion_passes_of_lt (h : (maxAllowed ram).toNat < lockBudget totalThreads page) :
    memoryConfigInitialize true ram page.value totalThreads ≠ none := by
  have hactive := activeLockAllocation_toNat totalThreads page
  have hhalf := lockBudget_le totalThreads page
  have hpasses : align (rawLockBudget totalThreads) page.value ≤
      maxAllowed ram - align (rawLockBudget totalThreads) page.value := by
    rw [BitVec.le_def, BitVec.toNat_sub, hactive]
    omega
  simp [memoryConfigInitialize, hpasses]

theorem partitions_of_le (h : lockBudget totalThreads page ≤ (maxAllowed ram).toNat)
    {config : EngineMemoryConfig}
    (hconfig : memoryConfigInitialize true ram page.value totalThreads = some config) :
    config.Partitions ram := by
  have hactive := activeLockAllocation_toNat totalThreads page
  have hmax := maxAllowed_toNat ram
  by_cases hpasses : align (rawLockBudget totalThreads) page.value ≤
      maxAllowed ram - align (rawLockBudget totalThreads) page.value
  · simp only [memoryConfigInitialize, hpasses, not_true, and_false, if_false] at hconfig
    obtain rfl := Option.some.inj hconfig
    refine ⟨?_, ?_, hpasses⟩
    · change (align (rawLockBudget totalThreads) page.value).toNat +
        (maxAllowed ram - align (rawLockBudget totalThreads) page.value).toNat = (maxAllowed ram).toNat
      rw [BitVec.toNat_sub_of_le (by rw [BitVec.le_def, hactive]; exact h), hactive]
      omega
    · change 10 * (maxAllowed ram).toNat ≤ 7 * ram.toNat
      omega
  · simp [memoryConfigInitialize, hpasses] at hconfig

/-- The assertion guards the budget exactly on the machines whose allowed RAM holds the lock. -/
theorem guarded_iff (ram : BitVec 64) (page : Alignment) (totalThreads : BitVec 32) :
    Guarded ram page totalThreads ↔
      RoundUp.up (335544704 * totalThreads.toNat + 1879048192) page.value.toNat ≤
        ram.toNat / 10 * 7 := by
  rw [← maxAllowed_toNat]
  constructor
  · intro h
    by_contra hlt
    exact assertion_passes_of_lt (not_le.mp hlt) (h.2 (not_le.mp hlt))
  · intro h
    exact ⟨fun _ hconfig => partitions_of_le h hconfig, fun hlt => absurd h (not_le.mpr hlt)⟩

/-- Sixteen cores and 4 GB of RAM. -/
theorem too_small_machine_passes : ¬ ∀ (ram : BitVec 64) (page : Alignment)
    (totalThreads : BitVec 32), 1 ≤ totalThreads.toNat → Guarded ram page totalThreads := by
  intro h
  have hguarded := (h 4294967296#64 .smallPage 16#32 (by decide)).2
  exact absurd (hguarded (by decide)) (by decide)

/-! ### The lock and what start-up commits -/

/-- What thread `i` is meant to hold: its context, its transient arena and the zones of its role. -/
def lockShare (i : ℕ) : ℕ :=
  threadExecutionContextSize.toNat + MemoryMap.virtZoneTaBaseline.toNat +
    if i = 0 then MemoryMap.Main.virtZoneBaselineSum.toNat
    else MemoryMap.Worker.virtZoneBaselineSum.toNat

def plainSum (threads : ℕ) : ℕ := ∑ i ∈ Finset.range threads, lockShare i

theorem lockShare_zero : lockShare 0 = 2214592896 := by decide

theorem lockShare_succ (i : ℕ) : lockShare (i + 1) = 335544704 := by
  have hworker : threadExecutionContextSize.toNat + MemoryMap.virtZoneTaBaseline.toNat +
      MemoryMap.Worker.virtZoneBaselineSum.toNat = 335544704 := by decide
  rw [lockShare, if_neg (Nat.succ_ne_zero i), hworker]

/-- The sum as it was rearranged for the code. -/
theorem plainSum_eq {threads : ℕ} (h : 1 ≤ threads) :
    plainSum threads = 335544704 * threads + 1879048192 := by
  obtain ⟨workers, rfl⟩ := Nat.exists_eq_add_of_le' h
  have hworkers : ∑ i ∈ Finset.range workers, lockShare (i + 1) = workers * 335544704 := by
    rw [Finset.sum_const_nat fun i _ => lockShare_succ i, Finset.card_range]
  rw [plainSum, Finset.sum_range_succ', hworkers, lockShare_zero]
  omega

/-- The bytes of several ranges together. -/
def totalLength : List MemoryRange → ℕ
  | [] => 0
  | r :: ranges => r.length.toNat + totalLength ranges

theorem totalLength_append (ranges ranges' : List MemoryRange) :
    totalLength (ranges ++ ranges') = totalLength ranges + totalLength ranges' := by
  induction ranges with
  | nil => exact (Nat.zero_add _).symm
  | cons r ranges ih =>
      rw [List.cons_append, totalLength, totalLength, ih]
      omega

theorem totalLength_of_forall {c : ℕ} {ranges : List MemoryRange}
    (h : ∀ r ∈ ranges, r.length.toNat = c) : totalLength ranges = c * ranges.length := by
  induction ranges with
  | nil => rfl
  | cons r ranges ih =>
      obtain ⟨hr, hranges⟩ := List.forall_mem_cons.mp h
      rw [totalLength, hr, ih hranges, List.length_cons, Nat.mul_succ, Nat.add_comm]

theorem virtZoneTaBaseline_toNat : MemoryMap.virtZoneTaBaseline.toNat = 67108864 := by decide

theorem virtZonePsBaseline_toNat : MemoryMap.Main.virtZonePsBaseline.toNat = 67108864 := by decide

/-- The context array, a baseline for each thread, one for the persistent storage, and the queues. -/
theorem committed_length (base : BitVec 64) (hthreads : 1 ≤ totalThreads.toNat) :
    totalLength (threadContextInitialize totalThreads page.value base).committed =
      (alignedContextArraySize totalThreads page.value).toNat + 67108864 * totalThreads.toNat +
        67108864 + 65536 * (totalThreads.toNat - 1) := by
  let zones := preInitialize page.value totalThreads.toNat
    (base + alignedContextArraySize totalThreads page.value)
  let generics := (zones.map Prod.fst).mapIdx withRole
  have hzones : zones.length = totalThreads.toNat := by
    simp only [zones, preInitialize_eq, List.length_map, List.length_range]
  have hgenerics : generics.length = totalThreads.toNat := by
    simp only [generics, List.length_mapIdx, List.length_map, hzones]
  have hbaselines : totalLength (zones.map Prod.snd) = 67108864 * totalThreads.toNat := by
    rw [← hzones, ← List.length_map (f := Prod.snd)]
    apply totalLength_of_forall
    simp only [zones, preInitialize_eq, List.map_map]
    exact MasterPool.forall_mem_family fun i _ => virtZoneTaBaseline_toNat
  have hstorage : totalLength
      ((generics.head?.map initializePersistentStorage).map Prod.snd).toList = 67108864 := by
    cases hmain : generics with
    | nil =>
        rw [hmain, List.length_nil] at hgenerics
        omega
    | cons main workers => exact virtZonePsBaseline_toNat
  have hqueues : totalLength ((generics.tail.map fun generic =>
      TaskQueue.workerQueue generic.pageCoordinator TaskQueue.zeroedQueue).map Prod.snd) =
        65536 * (totalThreads.toNat - 1) := by
    rw [← hgenerics, ← List.length_tail, List.map_map,
      ← List.length_map (f := Prod.snd ∘ fun generic : GenericExecutionContext =>
        TaskQueue.workerQueue generic.pageCoordinator TaskQueue.zeroedQueue)]
    apply totalLength_of_forall
    intro r hr
    obtain ⟨generic, -, rfl⟩ := List.mem_map.mp hr
    exact MemoryMap.Worker.virtZoneQueueSize_toNat
  change totalLength (_ :: zones.map Prod.snd ++
    ((generics.head?.map initializePersistentStorage).map Prod.snd).toList ++ _) = _
  rw [totalLength_append, totalLength_append, hstorage, hqueues, totalLength, hbaselines]

theorem alignedContextArraySize_lt (totalThreads : BitVec 32) {page : Alignment}
    (hpage : page.value.toNat ∣ 65536) :
    (alignedContextArraySize totalThreads page.value).toNat < 384 * totalThreads.toNat + 65536 := by
  have hle := Nat.le_of_dvd (by decide) hpage
  have hwidth := totalThreads.isLt
  have hsize : (threadExecutionContextSize * totalThreads.setWidth 64).toNat =
      384 * totalThreads.toNat := by
    rw [BitVec.toNat_mul, threadExecutionContextSize_toNat, BitVec.toNat_setWidth]
    omega
  have hmod := Nat.div_mul_le_self
    ((384 * totalThreads.toNat + (page.value.toNat - 1)) % 2 ^ 64) page.value.toNat
  have hpos := page.value_pos
  rw [alignedContextArraySize, align_toNat, hsize]
  omega

/-- The lock is the plain sum over the threads in whole pages, and start-up commits no more. -/
theorem lock_covers_commits (ram base : BitVec 64) (page : Alignment) (totalThreads : BitVec 32)
    (hthreads : 1 ≤ totalThreads.toNat) (hpage : page.value.toNat ∣ 65536) :
    (∃ config, memoryConfigInitialize false ram page.value totalThreads = some config) ∧
      ∀ asserts config, memoryConfigInitialize asserts ram page.value totalThreads = some config →
        IsLeast {m | page.value.toNat ∣ m ∧ plainSum totalThreads.toNat ≤ m}
            config.activeLockAllocation.toNat ∧
          totalLength (threadContextInitialize totalThreads page.value base).committed ≤
            config.activeLockAllocation.toNat := by
  refine ⟨⟨_, rfl⟩, fun asserts config hconfig => ?_⟩
  have hactive : config.activeLockAllocation.toNat = lockBudget totalThreads page := by
    rw [← activeLockAllocation_toNat]
    unfold memoryConfigInitialize at hconfig
    dsimp only at hconfig
    split_ifs at hconfig
    obtain rfl := Option.some.inj hconfig
    rfl
  have hsum := plainSum_eq hthreads
  have hbudget : lockBudget totalThreads page =
      RoundUp.up (plainSum totalThreads.toNat) page.value.toNat := by rw [hsum, lockBudget]
  have hle := RoundUp.le_up (plainSum totalThreads.toNat) page.value_pos
  rw [hactive, hbudget]
  refine ⟨⟨⟨RoundUp.dvd_up _ _, hle⟩, fun m hm => RoundUp.up_le page.value_pos hm.1 hm.2⟩, ?_⟩
  have harray := alignedContextArraySize_lt totalThreads hpage
  rw [committed_length base hthreads]
  omega

/-- Eight threads with pages of 4 KB on a machine of 16 GB. -/
theorem lock_covers_commits_eight : plainSum 8 = 4563405824 ∧
    totalLength (threadContextInitialize 8#32 Alignment.smallPage.value 65536#64).committed ≤
      4563406848 := by
  obtain ⟨-, hlock⟩ := lock_covers_commits 17179869184#64 65536#64 .smallPage 8#32 (by decide)
    (by decide)
  exact ⟨plainSum_eq (by decide), (hlock true _ rfl).2⟩

end EngineMemoryConfig
end ProjectDelta
