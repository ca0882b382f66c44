import ProjectDelta.Machine
import ProjectDelta.WorkerStart

/-!
# Engine lifecycles

`Engine::Initialize`, `Shutdown`, `Allocate` and `Free` on any threads. A call of
`Initialize` reserves a pool and then takes one step for each store to a global
and for each `operator new` inside it, so other threads run in between. Pools are
numbered in the order of their reservations, and a context is known by its pool and
its index. The answers of `malloc` and of the operating system come with the moves;
what `Initialize` reserves and commits at its start it gets.
-/

namespace ProjectDelta

inductive AllocationType
  | transient
  | persistent
  deriving DecidableEq

/-- A thread of the application, the main thread among them, or worker `ix` of a pool. -/
inductive EngineThread
  | application (id : ℕ)
  | worker (generation ix : ℕ)
  deriving DecidableEq

/-- What `tl_CurrentThreadContext` points to. -/
structure ContextRef where
  generation : ℕ
  ix : ℕ

structure PoolState where
  pool : MasterPool
  reserved : Bool
  transientArenas : ℕ → ThreadArena
  persistentStorage : ThreadArena

/-- What `Engine::Allocate` returned, `0` for `nullptr`. -/
structure LivePointer where
  ptr : BitVec 64
  size : BitVec 64
  fromMalloc : Bool

/-- The result of `malloc` and the outcome of a growth, should they be asked for. -/
structure SystemAnswer where
  malloc : BitVec 64
  os : OsOutcome

/-- The steps of `Engine::Initialize` behind the reservation. -/
inductive InitStep
  | setSlabStart (address : BitVec 64)
  | setSlabEnd (address : BitVec 64)
  | setThreadContexts (generation : ℕ)
  | allocate (size : BitVec 64) (type : AllocationType)
  | setCurrent
  | startThread (ix : ℕ)

/-- `current` is `tl_CurrentThreadContext` of each thread and `threadContexts` the pool of
`g_ThreadContexts`. `staleAccess` records the use of a context in a released pool. -/
structure Lifecycle where
  pools : ℕ → Option PoolState
  reservations : ℕ
  masterSlabStart : BitVec 64
  masterSlabEnd : BitVec 64
  threadContexts : Option ℕ
  current : EngineThread → Option ContextRef
  pending : EngineThread → List InitStep
  started : List ContextRef
  live : List LivePointer
  staleAccess : Bool

/-- `free` takes the `k`th live pointer, the newest first. `resetArena` is the reset of the
transient arena in `WorkerProc` and `Engine::Update`. -/
inductive LifecycleMove
  | engineInitialize (t : EngineThread) (pool : MasterPool)
  | initStep (t : EngineThread) (answer : SystemAnswer)
  | workerBegins (c : ContextRef)
  | allocate (t : EngineThread) (size : BitVec 64) (type : AllocationType) (alignment : BitVec 64)
      (answer : SystemAnswer)
  | free (t : EngineThread) (k : ℕ)
  | resetArena (t : EngineThread)
  | shutdown (t : EngineThread)

/-- The sizes of `Thread`, `Semaphore` and `ThreadHandle`. -/
def sizeofHandle : ℕ := 8

/-- The steps that follow the two stores of the slab, for `pool.count - 1` workers. -/
def stepsBehindSlab (generation : ℕ) (pool : MasterPool) : List InitStep :=
  let handle : InitStep := .allocate (BitVec.ofNat 64 sizeofHandle) .persistent
  let workers := pool.count - 1
  [.setThreadContexts generation, handle] ++
    List.replicate workers handle ++   -- Sync_CreateSemaphore
    [.setCurrent, handle,
      .allocate (BitVec.ofNat 64 (sizeofHandle * workers)) .persistent,
      .allocate (BitVec.ofNat 64 (sizeofThreadCreateInfo * workers)) .transient] ++
    (List.range workers).flatMap fun i => [handle, .startThread (i + 1)]

def initSteps (generation : ℕ) (pool : MasterPool) : List InitStep :=
  .setSlabStart pool.contexts.masterSlabStart :: .setSlabEnd pool.contexts.masterSlabEnd ::
    stepsBehindSlab generation pool

namespace PoolState

def ofPool (pool : MasterPool) : PoolState where
  pool := pool
  reserved := true
  transientArenas ix := (pool.generic ix).transientArena
  persistentStorage := (initializePersistentStorage (pool.generic 0)).1

def arena (p : PoolState) (type : AllocationType) (ix : ℕ) : ThreadArena :=
  match type with
  | .transient => p.transientArenas ix
  | .persistent => p.persistentStorage

def setArena (p : PoolState) (type : AllocationType) (ix : ℕ) (arena : ThreadArena) : PoolState :=
  match type with
  | .transient => { p with transientArenas := Function.update p.transientArenas ix arena }
  | .persistent => { p with persistentStorage := arena }

end PoolState

namespace Lifecycle

def start : Lifecycle where
  pools _ := none
  reservations := 0
  masterSlabStart := 0#64
  masterSlabEnd := 0#64
  threadContexts := none
  current _ := none
  pending _ := []
  started := []
  live := []
  staleAccess := false

def setPool (s : Lifecycle) (generation : ℕ) (p : PoolState) : Lifecycle :=
  { s with pools := Function.update s.pools generation (some p) }

def setCurrent (s : Lifecycle) (t : EngineThread) (c : ContextRef) : Lifecycle :=
  { s with current := Function.update s.current t (some c) }

def setPending (s : Lifecycle) (t : EngineThread) (steps : List InitStep) : Lifecycle :=
  { s with pending := Function.update s.pending t steps }

def handOut (s : Lifecycle) (ptr size : BitVec 64) (fromMalloc : Bool) : Lifecycle :=
  { s with live := ⟨ptr, size, fromMalloc⟩ :: s.live }

/-- `IsCustomAllocated` -/
def isCustomAllocated (s : Lifecycle) (ptr : BitVec 64) : Bool :=
  decide (s.masterSlabStart ≤ ptr ∧ ptr ≤ s.masterSlabEnd)

/-- Whether `Engine::Free` calls `::free`. -/
def passesToFree (s : Lifecycle) (ptr : BitVec 64) : Bool := !s.isCustomAllocated ptr

/-- The branch of `Engine::Allocate` for a thread with context `c`. -/
def allocateIn (asserts : Bool) (s : Lifecycle) (c : ContextRef) (size : BitVec 64)
    (type : AllocationType) (alignment : BitVec 64) (os : OsOutcome) : Option Lifecycle :=
  (s.pools c.generation).bind fun p =>
    if p.reserved = false then some { s with staleAccess := true }
    else if type = .transient ∨ c.ix = 0 then
      ((p.arena type c.ix).allocate asserts p.pool.pageSize.value os size alignment).map fun r =>
        (s.setPool c.generation (p.setArena type c.ix r.arena)).handOut (r.block.getD 0#64) size false
    else if asserts then none
    else some (s.handOut 0#64 size false)

/-- `Engine::Allocate` on thread `t`; `none` is a failed assertion. -/
def engineAllocate (asserts : Bool) (s : Lifecycle) (t : EngineThread) (size : BitVec 64)
    (type : AllocationType) (alignment : BitVec 64) (answer : SystemAnswer) : Option Lifecycle :=
  match s.current t with
  | none => some (s.handOut answer.malloc size true)
  | some c => s.allocateIn asserts c size type alignment answer.os

/-- `ThreadArena_Reset(GetTransientArena())` -/
def resetArena (s : Lifecycle) (t : EngineThread) : Option Lifecycle :=
  (s.current t).bind fun c => (s.pools c.generation).map fun p =>
    if p.reserved = false then { s with staleAccess := true }
    else s.setPool c.generation (p.setArena .transient c.ix (p.transientArenas c.ix).reset)

/-- What `operator new` writes into its block is left out, so that a null answer of `malloc` is
recorded like a block. -/
def runInitStep (asserts : Bool) (s : Lifecycle) (t : EngineThread) (answer : SystemAnswer) :
    InitStep → Option Lifecycle
  | .setSlabStart address => some { s with masterSlabStart := address }
  | .setSlabEnd address => some { s with masterSlabEnd := address }
  | .setThreadContexts generation => some { s with threadContexts := some generation }
  | .allocate size type => s.engineAllocate asserts t size type defaultAlignment.value answer
  | .setCurrent => s.threadContexts.map fun generation => s.setCurrent t ⟨generation, 0⟩
  | .startThread ix =>
      s.threadContexts.map fun generation => { s with started := ⟨generation, ix⟩ :: s.started }

/-- `Memory_Reserve`, and the pool as `ThreadContext_Initialize` lays it out. The reservation and the
commits behind it succeed, and the assertions on them and on the memory limit hold. -/
def beginInitialize (s : Lifecycle) (t : EngineThread) (pool : MasterPool) : Lifecycle :=
  { (s.setPool s.reservations (.ofPool pool)).setPending t (initSteps s.reservations pool) with
    reservations := s.reservations + 1 }

/-- `Memory_Release(g_ThreadContexts)`; a pool that is released already stays so. -/
def release (s : Lifecycle) : Lifecycle :=
  match s.threadContexts with
  | none => s
  | some generation => match s.pools generation with
    | none => s
    | some p => s.setPool generation { p with reserved := false }

/-- Outside `Initialize`, and for a worker past the start of `WorkerProc`. -/
def mayCall (s : Lifecycle) (t : EngineThread) : Bool :=
  (s.pending t).isEmpty && match t with
    | .application _ => true
    | .worker _ _ => (s.current t).isSome

def machine (asserts : Bool) : Machine Lifecycle LifecycleMove where
  next s move :=
    if s.staleAccess then none
    else match move with
      | .engineInitialize t pool => if s.mayCall t then some (s.beginInitialize t pool) else none
      | .initStep t answer => match s.pending t with
        | [] => none
        | step :: rest => (s.setPending t rest).runInitStep asserts t answer step
      | .workerBegins c =>
          if s.started.any fun c' => c'.generation = c.generation ∧ c'.ix = c.ix then
            some (s.setCurrent (.worker c.generation c.ix) c)
          else none
      | .allocate t size type alignment answer =>
          if s.mayCall t then s.engineAllocate asserts t size type alignment answer else none
      | .free t k =>
          if s.mayCall t ∧ k < s.live.length then some { s with live := s.live.eraseIdx k } else none
      | .resetArena t => if s.mayCall t then s.resetArena t else none
      | .shutdown t => if s.mayCall t then some s.release else none

/-! ### What a step does -/

variable {asserts : Bool} {s s' : Lifecycle}

/-- The outcomes of `Engine::Allocate`. -/
inductive AllocateMove (asserts : Bool) (s : Lifecycle) (t : EngineThread) (size : BitVec 64)
    (type : AllocationType) (alignment : BitVec 64) (answer : SystemAnswer) : Lifecycle → Prop
  | malloc (h : s.current t = none) :
      AllocateMove asserts s t size type alignment answer (s.handOut answer.malloc size true)
  | stale {c : ContextRef} {p : PoolState} (hc : s.current t = some c)
      (hp : s.pools c.generation = some p) (h : p.reserved = false) :
      AllocateMove asserts s t size type alignment answer { s with staleAccess := true }
  | arena {c : ContextRef} {p : PoolState} {r : Allocation} (hc : s.current t = some c)
      (hp : s.pools c.generation = some p) (h : p.reserved = true)
      (htype : type = .transient ∨ c.ix = 0)
      (hr : (p.arena type c.ix).allocate asserts p.pool.pageSize.value answer.os size alignment =
        some r) :
      AllocateMove asserts s t size type alignment answer
        ((s.setPool c.generation (p.setArena type c.ix r.arena)).handOut (r.block.getD 0#64) size false)
  | refused {c : ContextRef} {p : PoolState} (hc : s.current t = some c)
      (hp : s.pools c.generation = some p) (h : p.reserved = true)
      (htype : ¬ (type = .transient ∨ c.ix = 0)) :
      AllocateMove asserts s t size type alignment answer (s.handOut 0#64 size false)

theorem engineAllocate_move {t : EngineThread} {size : BitVec 64} {type : AllocationType}
    {alignment : BitVec 64} {answer : SystemAnswer}
    (h : s.engineAllocate asserts t size type alignment answer = some s') :
    AllocateMove asserts s t size type alignment answer s' := by
  unfold engineAllocate at h
  cases hc : s.current t with
  | none =>
      rw [hc] at h
      obtain rfl := Option.some.inj h
      exact .malloc hc
  | some c =>
      simp only [hc] at h
      obtain ⟨p, hp, h⟩ := Option.bind_eq_some_iff.mp h
      split_ifs at h with hreserved htype
      · obtain rfl := Option.some.inj h
        exact .stale hc hp hreserved
      · obtain ⟨r, hr, rfl⟩ := Option.map_eq_some_iff.mp h
        exact .arena hc hp (Bool.eq_true_of_not_eq_false hreserved) htype hr
      · obtain rfl := Option.some.inj h
        exact .refused hc hp (Bool.eq_true_of_not_eq_false hreserved) htype

/-- The outcomes of one move. -/
inductive LifecycleStep (asserts : Bool) (s : Lifecycle) : LifecycleMove → Lifecycle → Prop
  | engineInitialize {t : EngineThread} (pool : MasterPool) (ht : s.mayCall t = true) :
      LifecycleStep asserts s (.engineInitialize t pool) (s.beginInitialize t pool)
  | initStep {t : EngineThread} {answer : SystemAnswer} {step : InitStep} {rest : List InitStep}
      {s' : Lifecycle} (ht : s.pending t = step :: rest)
      (h : (s.setPending t rest).runInitStep asserts t answer step = some s') :
      LifecycleStep asserts s (.initStep t answer) s'
  | workerBegins {c : ContextRef} (hc : c ∈ s.started) :
      LifecycleStep asserts s (.workerBegins c) (s.setCurrent (.worker c.generation c.ix) c)
  | allocate {t : EngineThread} {size : BitVec 64} {type : AllocationType} {alignment : BitVec 64}
      {answer : SystemAnswer} {s' : Lifecycle} (ht : s.mayCall t = true)
      (h : AllocateMove asserts s t size type alignment answer s') :
      LifecycleStep asserts s (.allocate t size type alignment answer) s'
  | free {t : EngineThread} {k : ℕ} (ht : s.mayCall t = true) :
      LifecycleStep asserts s (.free t k) { s with live := s.live.eraseIdx k }
  | resetStale {t : EngineThread} {c : ContextRef} {p : PoolState} (hc : s.current t = some c)
      (hp : s.pools c.generation = some p) (h : p.reserved = false) :
      LifecycleStep asserts s (.resetArena t) { s with staleAccess := true }
  | resetArena {t : EngineThread} {c : ContextRef} {p : PoolState} (hc : s.current t = some c)
      (hp : s.pools c.generation = some p) (h : p.reserved = true) :
      LifecycleStep asserts s (.resetArena t)
        (s.setPool c.generation (p.setArena .transient c.ix (p.transientArenas c.ix).reset))
  | shutdown {t : EngineThread} (ht : s.mayCall t = true) :
      LifecycleStep asserts s (.shutdown t) s.release

theorem next_step {move : LifecycleMove} (h : (machine asserts).next s move = some s') :
    s.staleAccess = false ∧ LifecycleStep asserts s move s' := by
  simp only [machine] at h
  split at h
  · cases h
  rename_i hstale
  refine ⟨Bool.eq_false_of_not_eq_true hstale, ?_⟩
  cases move with
  | engineInitialize t pool =>
      simp only at h
      split_ifs at h with ht
      obtain rfl := Option.some.inj h
      exact .engineInitialize pool ht
  | initStep t answer =>
      simp only at h
      cases hpending : s.pending t with
      | nil => simp [hpending] at h
      | cons step rest =>
          simp only [hpending] at h
          exact .initStep hpending h
  | workerBegins c =>
      simp only at h
      split_ifs at h with hc
      obtain rfl := Option.some.inj h
      obtain ⟨⟨g, i⟩, hmem, heq⟩ := List.any_eq_true.mp hc
      obtain ⟨rfl, rfl⟩ := of_decide_eq_true heq
      exact .workerBegins hmem
  | allocate t size type alignment answer =>
      simp only at h
      split_ifs at h with ht
      exact .allocate ht (engineAllocate_move h)
  | free t k =>
      simp only at h
      split_ifs at h with ht
      obtain rfl := Option.some.inj h
      exact .free ht.1
  | resetArena t =>
      simp only at h
      split_ifs at h with ht
      obtain ⟨c, hc, h⟩ := Option.bind_eq_some_iff.mp h
      obtain ⟨p, hp, rfl⟩ := Option.map_eq_some_iff.mp h
      split_ifs with hreserved
      · exact .resetStale hc hp hreserved
      · exact .resetArena hc hp (Bool.eq_true_of_not_eq_false hreserved)
  | shutdown t =>
      simp only at h
      split_ifs at h with ht
      obtain rfl := Option.some.inj h
      exact .shutdown ht

theorem pending_of_mayCall {t : EngineThread} (h : s.mayCall t = true) : s.pending t = [] :=
  List.isEmpty_iff.mp (Bool.and_eq_true_iff.mp h).1

/-! ### Pools that are reserved -/

def isReserved (s : Lifecycle) (generation : ℕ) : Bool :=
  (s.pools generation).any PoolState.reserved

theorem isReserved_iff {generation : ℕ} :
    s.isReserved generation = true ↔ ∃ p, s.pools generation = some p ∧ p.reserved = true := by
  unfold isReserved
  cases s.pools generation <;> simp

theorem isReserved_setPool (s : Lifecycle) (generation g : ℕ) (p : PoolState) :
    (s.setPool generation p).isReserved g = if g = generation then p.reserved else s.isReserved g := by
  unfold isReserved setPool
  by_cases hg : g = generation
  · subst hg
    simp
  · simp [hg]

theorem setArena_reserved (p : PoolState) (type : AllocationType) (ix : ℕ) (arena : ThreadArena) :
    (p.setArena type ix arena).reserved = p.reserved := by cases type <;> rfl

theorem setArena_pool (p : PoolState) (type : AllocationType) (ix : ℕ) (arena : ThreadArena) :
    (p.setArena type ix arena).pool = p.pool := by cases type <;> rfl

end Lifecycle
end ProjectDelta
