import ProjectDelta.CyclicScan
import ProjectDelta.Engine
import ProjectDelta.MemoryBudget
import ProjectDelta.Platform

/-!
# The worker indices of the scheduler

`Scheduler_ProcessTaskBatch` and `Scheduler_Sync` compute indices of contexts with
remainders by `g_WorkerCount`, which is the number of physical cores less one. One
step is one round of either loop, and whether a steal succeeds comes with the move.
A machine with a single core gets through `Engine::Initialize` and has no worker.
-/

namespace ProjectDelta

/-- `VirtualAlloc` behind `Memory_Reserve` and `Memory_Commit`, with `0` for a null pointer. It
fails when it is asked for no bytes. -/
structure OsMemory where
  reserve : BitVec 64 → BitVec 64
  commit : BitVec 64 → BitVec 64 → BitVec 64
  commit_zero : ∀ address, commit address 0#64 = 0#64

/-- `g_ThreadCount` and `g_WorkerCount` -/
structure SchedulerGlobals where
  threadCount : BitVec 32
  workerCount : BitVec 32
  deriving DecidableEq

/-- `Engine::Initialize` up to the first use of a context; `none` is a failed assertion or a write
through a null `g_ThreadContexts`. -/
def initializeScheduler (asserts : Bool) (os : OsMemory) (physicalInstalled : BitVec 64)
    (osInfo : OSInfo) : Option SchedulerGlobals :=
  let totalThreads := osInfo.cpuPhysicalCoreCount
  let pageSize := osInfo.osPageSize.setWidth 64
  (EngineMemoryConfig.memoryConfigInitialize asserts physicalInstalled pageSize totalThreads).bind
    fun _ =>
      let masterPoolBase := os.reserve (masterPoolSize totalThreads pageSize)
      let threadContexts := os.commit masterPoolBase (alignedContextArraySize totalThreads pageSize)
      if asserts ∧ (masterPoolBase = 0#64 ∨ threadContexts = 0#64) then none
      else if threadContexts = 0#64 then none
      else some ⟨totalThreads, totalThreads - 1#32⟩

/-- `a % b`; `none` is a division by zero. -/
def remainder {w : ℕ} (a b : BitVec w) : Option (BitVec w) := if b = 0#w then none else some (a % b)

namespace SchedulerGlobals

variable (g : SchedulerGlobals)

/-- `1 + (i % g_WorkerCount)` of `Scheduler_ProcessTaskBatch` -/
def targetIx (i : BitVec 64) : Option (BitVec 64) :=
  (remainder i (g.workerCount.setWidth 64)).map (1#64 + ·)

/-- `1 + (workerIx % g_WorkerCount)` of `Scheduler_Sync` -/
def nextWorkerIx (workerIx : BitVec 32) : Option (BitVec 32) :=
  (remainder workerIx g.workerCount).map (1#32 + ·)

end SchedulerGlobals

/-- At the head of one of the two loops, or outside of them. -/
inductive SchedulerPc
  | outside
  | batch (i length : BitVec 64)
  | sync (workerIx consecutiveEmptyQueues : BitVec 32)

/-- `used` are the indices passed to `GetExecutionContext`. -/
structure SchedulerIndices where
  pc : SchedulerPc
  used : List (BitVec 64)
  dividedByZero : Bool

inductive SchedulerMove
  | processTaskBatch (length : BitVec 64)
  | sync
  | round (stolen : Bool)

namespace SchedulerIndices

def start : SchedulerIndices := ⟨.outside, [], false⟩

def divideByZero (s : SchedulerIndices) : SchedulerIndices := { s with dividedByZero := true }

/-- `GetExecutionContext(ix)`, and on to `pc`. -/
def useIx (s : SchedulerIndices) (ix : BitVec 64) (pc : SchedulerPc) : SchedulerIndices :=
  { s with pc := pc, used := ix :: s.used }

def round (g : SchedulerGlobals) (s : SchedulerIndices) (stolen : Bool) : Option SchedulerIndices :=
  match s.pc with
  | .outside => none
  | .batch i length =>
      if i < length then match g.targetIx i with
        | none => some s.divideByZero
        | some targetIx => some (s.useIx targetIx (.batch (i + 1#64) length))
      else some { s with pc := .outside }
  | .sync workerIx empties =>
      if empties < g.threadCount then
        let s' := s.useIx (workerIx.setWidth 64) s.pc
        match g.nextWorkerIx workerIx with
        | none => some s'.divideByZero
        | some next => some { s' with pc := .sync next (if stolen then 0#32 else empties + 1#32) }
      else some { s with pc := .outside }

def machine (g : SchedulerGlobals) : Machine SchedulerIndices SchedulerMove where
  next s move :=
    if s.dividedByZero then none
    else match move, s.pc with
      | .processTaskBatch length, .outside => some { s with pc := .batch 0#64 length }
      | .sync, .outside => some { s with pc := .sync 1#32 0#32 }
      | .round stolen, _ => s.round g stolen
      | _, _ => none

/-- No remainder by zero was taken, and every index was one of a worker. -/
structure Safe (g : SchedulerGlobals) (s : SchedulerIndices) : Prop where
  divides : s.dividedByZero = false
  inRange : ∀ ix ∈ s.used, 1 ≤ ix.toNat ∧ ix.toNat ≤ g.threadCount.toNat - 1

end SchedulerIndices

/-! ### With workers -/

/-- The globals of an engine with at least one worker. -/
structure SchedulerGlobals.HasWorkers (g : SchedulerGlobals) : Prop where
  workerCount : g.workerCount.toNat = g.threadCount.toNat - 1
  two_le : 2 ≤ g.threadCount.toNat

namespace SchedulerGlobals.HasWorkers

variable {g : SchedulerGlobals}

theorem remainder_eq (h : g.HasWorkers) (workerIx : BitVec 32) :
    remainder workerIx g.workerCount = some (workerIx % g.workerCount) := by
  have hcount := h.workerCount
  have htwo := h.two_le
  refine if_neg fun hzero => ?_
  rw [hzero, BitVec.toNat_zero] at hcount
  omega

/-- The index of a batch entry, as in `Engine`. -/
theorem targetIx_eq (h : g.HasWorkers) (i : BitVec 64) :
    ∃ ix, g.targetIx i = some ix ∧ ix.toNat = Engine.targetIx g.workerCount.toNat i.toNat := by
  have hcount := h.workerCount
  have htwo := h.two_le
  have hlt := g.workerCount.isLt
  have hwide : (g.workerCount.setWidth 64).toNat = g.workerCount.toNat := by
    rw [BitVec.toNat_setWidth]
    omega
  have hne : g.workerCount.setWidth 64 ≠ 0#64 := by
    intro hzero
    rw [hzero, BitVec.toNat_zero] at hwide
    omega
  refine ⟨1#64 + i % g.workerCount.setWidth 64, ?_, ?_⟩
  · rw [SchedulerGlobals.targetIx, remainder, if_neg hne, Option.map_some]
  · have hmod : i.toNat % g.workerCount.toNat < g.workerCount.toNat := Nat.mod_lt _ (by omega)
    rw [BitVec.toNat_add, BitVec.toNat_umod, hwide, BitVec.toNat_ofNat, Engine.targetIx]
    omega

/-- The cursor of the scan. -/
theorem nextWorkerIx_eq (h : g.HasWorkers) (workerIx : BitVec 32) :
    ∃ ix, g.nextWorkerIx workerIx = some ix ∧
      ix.toNat = CyclicScan.next g.workerCount.toNat workerIx.toNat := by
  have hcount := h.workerCount
  have htwo := h.two_le
  have hlt := g.threadCount.isLt
  refine ⟨1#32 + workerIx % g.workerCount, ?_, ?_⟩
  · rw [SchedulerGlobals.nextWorkerIx, h.remainder_eq, Option.map_some]
  · have hmod : workerIx.toNat % g.workerCount.toNat < g.workerCount.toNat :=
      Nat.mod_lt _ (by omega)
    rw [BitVec.toNat_add, BitVec.toNat_umod, BitVec.toNat_ofNat, CyclicScan.next]
    omega

/-- Both are indices of workers. -/
theorem next_bounds (h : g.HasWorkers) (i : ℕ) :
    1 ≤ CyclicScan.next g.workerCount.toNat i ∧
      CyclicScan.next g.workerCount.toNat i ≤ g.threadCount.toNat - 1 := by
  have hcount := h.workerCount
  have htwo := h.two_le
  exact ⟨CyclicScan.one_le_next _ i, hcount ▸ CyclicScan.next_le (by omega) i⟩

end SchedulerGlobals.HasWorkers

namespace SchedulerIndices

variable {g : SchedulerGlobals} {s s' : SchedulerIndices}

/-- The cursor of a running scan is the index of a worker. -/
structure Inv (g : SchedulerGlobals) (s : SchedulerIndices) : Prop where
  safe : s.Safe g
  cursor : ∀ workerIx empties, s.pc = .sync workerIx empties →
    1 ≤ workerIx.toNat ∧ workerIx.toNat ≤ g.threadCount.toNat - 1

theorem Safe.useIx (h : s.Safe g) {ix : BitVec 64} (pc : SchedulerPc) (hone : 1 ≤ ix.toNat)
    (hle : ix.toNat ≤ g.threadCount.toNat - 1) : (s.useIx ix pc).Safe g :=
  ⟨h.divides, List.forall_mem_cons.mpr ⟨⟨hone, hle⟩, h.inRange⟩⟩

theorem Inv.outside (h : s.Inv g) : Inv g { s with pc := .outside } :=
  ⟨⟨h.safe.divides, h.safe.inRange⟩, fun _ _ hpc => by cases hpc⟩

theorem Inv.round (hworkers : g.HasWorkers) (h : s.Inv g) {stolen : Bool}
    (hround : s.round g stolen = some s') : s'.Inv g := by
  unfold SchedulerIndices.round at hround
  cases hpc : s.pc with
  | outside =>
      rw [hpc] at hround
      cases hround
  | batch i length =>
      simp only [hpc] at hround
      split_ifs at hround
      · obtain ⟨ix, hix, hvalue⟩ := hworkers.targetIx_eq i
        obtain ⟨hone, hle⟩ := hworkers.next_bounds i.toNat
        rw [hix] at hround
        obtain rfl := Option.some.inj hround
        have hone' : 1 ≤ ix.toNat := hvalue ▸ hone
        have hle' : ix.toNat ≤ g.threadCount.toNat - 1 := hvalue ▸ hle
        exact ⟨h.safe.useIx _ hone' hle', fun _ _ hpc => by cases hpc⟩
      · obtain rfl := Option.some.inj hround
        exact h.outside
  | sync workerIx empties =>
      simp only [hpc] at hround
      split at hround
      · obtain ⟨ix, hix, hvalue⟩ := hworkers.nextWorkerIx_eq workerIx
        obtain ⟨hone, hle⟩ := hworkers.next_bounds workerIx.toNat
        obtain ⟨hone', hle'⟩ := h.cursor workerIx empties hpc
        have hwide : (workerIx.setWidth 64).toNat = workerIx.toNat := by
          have hlt := workerIx.isLt
          rw [BitVec.toNat_setWidth]
          omega
        have hused : (s.useIx (workerIx.setWidth 64) s.pc).Safe g :=
          h.safe.useIx s.pc (by omega) (by omega)
        simp only [hix] at hround
        obtain rfl := Option.some.inj hround
        refine ⟨⟨hused.divides, hused.inRange⟩, fun workerIx' empties' hpc' => ?_⟩
        obtain ⟨rfl, -⟩ := SchedulerPc.sync.inj hpc'
        exact hvalue ▸ ⟨hone, hle⟩
      · obtain rfl := Option.some.inj hround
        exact h.outside

theorem Inv.step (hworkers : g.HasWorkers) (s : SchedulerIndices) (move : SchedulerMove)
    (s' : SchedulerIndices) (h : s.Inv g) (hn : (machine g).next s move = some s') : s'.Inv g := by
  have htwo := hworkers.two_le
  simp only [machine, h.safe.divides, Bool.false_eq_true, if_false] at hn
  split at hn
  · obtain rfl := Option.some.inj hn
    exact ⟨⟨rfl, h.safe.inRange⟩, fun _ _ hpc => by cases hpc⟩
  · obtain rfl := Option.some.inj hn
    refine ⟨⟨rfl, h.safe.inRange⟩, fun workerIx empties hpc => ?_⟩
    obtain ⟨rfl, -⟩ := SchedulerPc.sync.inj hpc
    exact ⟨Nat.le_refl 1, Nat.le_sub_of_add_le htwo⟩
  · exact h.round hworkers hn
  · cases hn

theorem start_inv (g : SchedulerGlobals) : start.Inv g :=
  ⟨⟨rfl, fun _ hix => absurd hix List.not_mem_nil⟩, fun _ _ hpc => by cases hpc⟩

/-! ### Every core count -/

theorem round_sync_used {workerIx empties : BitVec 32} (hpc : s.pc = .sync workerIx empties)
    (hgoes : empties < g.threadCount) (stolen : Bool) :
    ∃ s', s.round g stolen = some s' ∧ s'.used = workerIx.setWidth 64 :: s.used := by
  unfold SchedulerIndices.round
  simp only [hpc, if_pos hgoes]
  cases g.nextWorkerIx workerIx with
  | none => exact ⟨_, rfl, rfl⟩
  | some next => exact ⟨_, rfl, rfl⟩

/-- Without a worker, the first round of `Scheduler_Sync` uses the context behind the last one. -/
theorem not_safe_of_single (h : g.threadCount.toNat = 1) :
    ¬ ∀ s, (machine g).Reach start s → s.Safe g := by
  intro hall
  have hgoes : 0#32 < g.threadCount := by
    rw [BitVec.lt_def, h]
    exact Nat.one_pos
  have hsync : (machine g).Reach start ⟨.sync 1#32 0#32, [], false⟩ :=
    Machine.ReachIf.tail (Machine.ReachIf.refl start) trivial (l := .sync) rfl
  obtain ⟨s', hround, hused⟩ :=
    round_sync_used (s := ⟨.sync 1#32 0#32, [], false⟩) rfl hgoes false
  have hsafe := hall s' (hsync.tail trivial (l := .round false) hround)
  obtain ⟨-, hle⟩ := hsafe.inRange 1#64 (by rw [hused]; exact List.mem_cons_self)
  rw [h] at hle
  exact absurd hle (by decide)

/-- Where `Engine::Initialize` gets through, the globals are these. -/
theorem initializeScheduler_eq {asserts : Bool} {os : OsMemory} {physicalInstalled : BitVec 64}
    {osInfo : OSInfo} (h : initializeScheduler asserts os physicalInstalled osInfo = some g) :
    g = ⟨osInfo.cpuPhysicalCoreCount, osInfo.cpuPhysicalCoreCount - 1#32⟩ ∧
      1 ≤ osInfo.cpuPhysicalCoreCount.toNat := by
  obtain ⟨config, -, h⟩ := Option.bind_eq_some_iff.mp h
  dsimp only at h
  split_ifs at h with hassert hnull
  refine ⟨(Option.some.inj h).symm, ?_⟩
  by_contra hzero
  have hcount : osInfo.cpuPhysicalCoreCount = 0#32 := BitVec.eq_of_toNat_eq (by simp; omega)
  have hempty : alignedContextArraySize 0#32 (osInfo.osPageSize.setWidth 64) = 0#64 := by
    simp [alignedContextArraySize, align]
  rw [hcount, hempty] at hnull
  exact hnull (os.commit_zero _)

/-- Whatever the core count that `Engine::Initialize` gets through with: the indices are safe, for
every batch and every outcome of the steals, exactly when it is at least two. -/
theorem indices_safe_iff (asserts : Bool) (os : OsMemory) (physicalInstalled : BitVec 64)
    (osInfo : OSInfo) (g : SchedulerGlobals)
    (hg : initializeScheduler asserts os physicalInstalled osInfo = some g) :
    (∀ s, (machine g).Reach start s → s.Safe g) ↔ 2 ≤ osInfo.cpuPhysicalCoreCount.toNat := by
  obtain ⟨rfl, hone⟩ := initializeScheduler_eq hg
  constructor
  · intro hall
    by_contra hless
    exact not_safe_of_single (by change osInfo.cpuPhysicalCoreCount.toNat = 1; omega) hall
  · intro htwo s hs
    have hworkers : SchedulerGlobals.HasWorkers
        ⟨osInfo.cpuPhysicalCoreCount, osInfo.cpuPhysicalCoreCount - 1#32⟩ := by
      refine ⟨?_, htwo⟩
      have hle : 1#32 ≤ osInfo.cpuPhysicalCoreCount := hone
      exact BitVec.toNat_sub_of_le hle
    exact (hs.invariant (fun a move b ha _ hn => Inv.step hworkers a move b ha hn)
      (start_inv _)).safe

/-- A reservation at 65536 where every commit succeeds. -/
def plainMemory : OsMemory where
  reserve _ := 65536#64
  commit address size := if size = 0#64 then 0#64 else address
  commit_zero _ := rfl

/-- The records of a machine with `cores` physical cores. -/
def coreInfo (cores : ℕ) : OSInfo :=
  platformInitialize 4096#32 (some (List.replicate cores ⟨.relationProcessorCore, [1#64]⟩))

theorem indices_safe_four : initializeScheduler true plainMemory 17179869184#64 (coreInfo 4) =
      some ⟨4#32, 3#32⟩ ∧
    ∀ s, (machine ⟨4#32, 3#32⟩).Reach start s → s.Safe ⟨4#32, 3#32⟩ := by
  have hg : initializeScheduler true plainMemory 17179869184#64 (coreInfo 4) =
      some ⟨4#32, 3#32⟩ := by decide
  exact ⟨hg, (indices_safe_iff true plainMemory 17179869184#64 (coreInfo 4) _ hg).mpr (by decide)⟩

/-- A batch of one task on a machine with a single core. -/
theorem single_core_divides_by_zero : ¬ ∀ (asserts : Bool) (os : OsMemory)
    (physicalInstalled : BitVec 64) (osInfo : OSInfo) (g : SchedulerGlobals),
    initializeScheduler asserts os physicalInstalled osInfo = some g →
      ∀ s, (machine g).Reach start s → s.Safe g := by
  intro h
  have hsafe := h true plainMemory 17179869184#64 (coreInfo 1) ⟨1#32, 0#32⟩ (by decide)
    ⟨.batch 0#64 1#64, [], true⟩
    (Machine.reach_of_exec [.processTaskBatch 1#64, .round false] rfl)
  exact absurd hsafe.divides (by decide)

end SchedulerIndices
end ProjectDelta
