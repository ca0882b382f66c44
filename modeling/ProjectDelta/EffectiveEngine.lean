import ProjectDelta.EffectPoints
import ProjectDelta.Quiescence
import ProjectDelta.Simulation

/-!
# The engine as its queue calls take effect

`accessQueues` makes every load, store and exchange of a queue call a step of its
own. `effective` is the state of the engine with whole operations after exactly the
calls that have taken effect: a worker whose pop has its result is past the pop, and
the main thread is past a push that has found room. A move that makes no access to a
queue is the same move in both engines.
-/

namespace ProjectDelta

variable {τ π : Type}

/-- Each access to a queue is one step. -/
abbrev accessQueues (τ π : Type) : EngineQueues τ π := QueueModel.accesses (TaskRef τ) (Option π)

/-- The pop that a worker is making. -/
def WorkerPc.pop : WorkerPc (accessQueues τ π) → Option (PopPc (TaskRef τ) (Option π))
  | .popping fr => some fr
  | _ => none

/-- A worker has made an access of a pop. -/
def WorkerPc.popStarted (pc : WorkerPc (accessQueues τ π)) : Bool :=
  pc.pop.any PopPc.started

/-- The call of the main thread on the queue of a worker. -/
def MainPc.use (workerCount ix : ℕ) :
    MainPc (accessQueues τ π) → QueueUse (TaskRef τ) (Option π)
  | .pushing i _ fr => if Engine.targetIx workerCount i = ix then .push fr else .nothing
  | .stealing workerIx _ fr => if workerIx = ix then .steal fr else .nothing
  | _ => .nothing

/-! ### The state after the calls that have taken effect -/

/-- Where the return of a push takes the main thread. -/
def MainPc.pushReturns {Q : EngineQueues τ π} (i : ℕ) (rest : List (Entry τ π)) :
    Option (Entry τ π) → MainPc Q
  | some e => .inlineReady i rest e
  | none => .loadAsleep i rest

/-- Where the return of a pop takes the worker. -/
def WorkerPc.popReturns {Q : EngineQueues τ π} : Option (Entry τ π) → WorkerPc Q
  | some e => .ready e
  | none => .resetArena

/-- Where a worker is once its pop has the result, if it has one. -/
def WorkerPc.afterPop : Option (Option (Entry τ π)) → WorkerPc (atomicQueues τ π)
  | none => .popping ()
  | some r => .popReturns r

def WorkerPc.effective (helped : Bool) (q : TaskQueue (Cells (TaskRef τ) (Option π))) :
    WorkerPc (accessQueues τ π) → WorkerPc (atomicQueues τ π)
  | .checkClose => .checkClose
  | .popping fr => .afterPop (TaskQueue.popResult helped q fr)
  | .ready e => .ready e
  | .running e => .running e
  | .decrement => .decrement
  | .resetArena => .resetArena
  | .storeAsleep => .storeAsleep
  | .recheckClose => .recheckClose
  | .wait => .wait
  | .storeAwake => .storeAwake
  | .left => .left

def WorkerExecutionContext.effective (helped : Bool) (use : QueueUse (TaskRef τ) (Option π))
    (ctx : WorkerExecutionContext (accessQueues τ π)) :
    WorkerExecutionContext (atomicQueues τ π) where
  taskQueue := ctx.taskQueue.effective helped use ctx.pc.pop
  transientArena := ctx.transientArena
  sleepSemaphore := ctx.sleepSemaphore
  isAsleep := ctx.isAsleep
  shouldClose := ctx.shouldClose
  pc := ctx.pc.effective helped ctx.taskQueue

def MainPc.effective : MainPc (accessQueues τ π) → MainPc (atomicQueues τ π)
  | .outside => .outside
  | .synced => .synced
  | .submitting i rest => .submitting i rest
  | .pushing i rest fr => match PushPc.waiting fr with
    | some e => .pushing i rest e
    | none => .loadAsleep i rest
  | .inlineReady i rest e => .inlineReady i rest e
  | .inlineRunning i rest e => .inlineRunning i rest e
  | .loadAsleep i rest => .loadAsleep i rest
  | .signal i rest => .signal i rest
  | .syncing workerIx empties => .syncing workerIx empties
  | .stealing workerIx empties _ => .stealing workerIx empties ()
  | .stolen workerIx e => .stolen workerIx e
  | .stolenRunning workerIx e snapshot => .stolenRunning workerIx e snapshot
  | .joining => .joining
  | .releasing => .releasing
  | .closed => .closed

namespace WorkerExecutionContext

variable {helped : Bool} {use use' : QueueUse (TaskRef τ) (Option π)}
  {ctx ctx' : WorkerExecutionContext (accessQueues τ π)}

/-- Before a push has stored anything it does not matter which call the main thread is in. -/
theorem effective_use (h : use.pushStarted = false) (h' : use'.pushStarted = false) :
    ctx.effective helped use = ctx.effective helped use' := by
  rw [effective, effective, TaskQueue.effective_of_not_started h,
    TaskQueue.effective_of_not_started h']

theorem effective_depCounterPtr (q : TaskQueue (Cells (TaskRef τ) (Option π)))
    (pop : Option (PopPc (TaskRef τ) (Option π))) :
    (q.effective helped use pop).depCounterPtr = q.depCounterPtr := by
  have hpush : (q.afterPush use).depCounterPtr = q.depCounterPtr := by
    cases use with
    | nothing | steal => rfl
    | push fr => cases fr <;> rfl
  cases helped <;> exact hpush

/-- Outside its pops a worker does the same in both engines. -/
theorem step_effective (helped : Bool) (use : QueueUse (TaskRef τ) (Option π))
    (h : ctx.pc.pop = none) :
    (ctx.effective helped use).step = ctx.step.map fun r => (r.1.effective helped use, r.2) := by
  obtain ⟨queue, arena, semaphore, asleep, close, pc⟩ := ctx
  have hptr : (queue.effective helped use pc.pop).depCounterPtr = queue.depCounterPtr :=
    effective_depCounterPtr queue pc.pop
  cases pc with
  | popping fr => cases h
  | decrement =>
      simp only [effective, WorkerPc.effective, step, hptr]
      cases queue.depCounterPtr <;> rfl
  | wait => cases semaphore <;> rfl
  | checkClose | recheckClose => cases close <;> rfl
  | _ => rfl

/-- Outside its pops a worker leaves its queue alone. -/
theorem step_queue {effect : SharedEffect} (h : Engine.WorkerMove ctx ctx.pc ctx' effect)
    (hpop : ctx.pc.pop = none) :
    ctx'.taskQueue = ctx.taskQueue ∧ (ctx'.pc.pop = none ∨ ctx'.pc.pop = some .loadBottom) := by
  generalize hpc : ctx.pc = pc at h
  rw [hpc] at hpop
  cases h with
  | popAccess | popped | popFailed => cases hpop
  | goOn => exact ⟨rfl, .inr rfl⟩
  | decrementNull => exact ⟨rfl, .inl (by rw [hpc]; rfl)⟩
  | _ => exact ⟨rfl, .inl rfl⟩

end WorkerExecutionContext

/-- What the game sees of a move: its own calls, and the ends of its tasks. -/
def EngineMove.visible : EngineMove τ π → Bool
  | .main | .worker _ => false
  | _ => true

namespace Engine

variable {workerCount : ℕ} {asserts : Bool} {helped : ℕ → Bool}

def effective (workerCount : ℕ) (helped : ℕ → Bool) (s : Engine (accessQueues τ π)) :
    Engine (atomicQueues τ π) where
  workers ix := (s.workers ix).effective (helped ix) (s.main.use workerCount ix)
  depCounter := s.depCounter
  transientArena := s.transientArena
  main := s.main.effective
  poolReserved := s.poolReserved
  crashed := s.crashed
  submitted := s.submitted
  batchStart := s.batchStart
  finished := s.finished

/-- No access of a push is made while its worker pops, and none of a pop while its queue is pushed
onto. -/
def Apart (workerCount : ℕ) (s : Engine (accessQueues τ π)) : EngineMove τ π → Prop
  | .main => match s.main with
    | .pushing i _ _ => (s.workers (targetIx workerCount i)).pc.popStarted = false
    | _ => True
  | .worker ix => match (s.workers ix).pc with
    | .popping _ => (s.main.use workerCount ix).pushStarted = false
    | _ => True
  | _ => True

/-- The calls on every queue are where `effective` takes them to be. -/
structure AccessesOk (workerCount : ℕ) (helped : ℕ → Bool) (s : Engine (accessQueues τ π)) : Prop where
  calls : ∀ ix, TaskQueue.CallsOk (helped ix) (s.main.use workerCount ix) (s.workers ix).pc.pop
    (s.workers ix).taskQueue
  popper : ∀ ix fr, (s.workers ix).pc.pop = some fr → 1 ≤ ix ∧ ix ≤ workerCount
  pool : s.poolReserved = !s.main.isClosed

/-! ### Moves that make no access to a queue -/

/-- The move is an access to a queue. -/
def accessesQueue (s : Engine (accessQueues τ π)) : EngineMove τ π → Bool
  | .main => match s.main with
    | .pushing _ _ _ | .stealing _ _ _ => true
    | _ => false
  | .worker ix => match (s.workers ix).pc with
    | .popping _ => true
    | _ => false
  | _ => false

/-- The main thread has made an access of a push. -/
theorem use_not_started (workerCount : ℕ) {s : Engine (accessQueues τ π)}
    (h : s.accessesQueue .main = false) (ix : ℕ) :
    (s.main.use workerCount ix).pushStarted = false := by
  rw [accessesQueue] at h
  cases hmain : s.main with
  | pushing | stealing => rw [hmain] at h; cases h
  | _ => rfl

/-- The main thread goes on, and no push is past its first access. -/
theorem effective_main (helped : ℕ → Bool) {s : Engine (accessQueues τ π)}
    (h : ∀ ix, (s.main.use workerCount ix).pushStarted = false) (pc : MainPc (accessQueues τ π))
    (hpc : ∀ ix, (pc.use workerCount ix).pushStarted = false) :
    ({ s with main := pc } : Engine (accessQueues τ π)).effective workerCount helped =
      { s.effective workerCount helped with main := pc.effective } := by
  have hworkers : ∀ ix, (s.workers ix).effective (helped ix) (pc.use workerCount ix) =
      (s.workers ix).effective (helped ix) (s.main.use workerCount ix) := fun ix =>
    WorkerExecutionContext.effective_use (hpc ix) (h ix)
  simp only [effective, hworkers]

/-- One worker is set, and the main thread goes on at the queue of this worker. -/
theorem effective_setWorker_main (workerCount : ℕ) (helped : ℕ → Bool)
    (s : Engine (accessQueues τ π)) (ix : ℕ) (b : Bool) (ctx : WorkerExecutionContext (accessQueues τ π)) (pc : MainPc (accessQueues τ π))
    (huse : ∀ j, j ≠ ix → pc.use workerCount j = s.main.use workerCount j) :
    ({ s.setWorker ix ctx with main := pc } : Engine (accessQueues τ π)).effective workerCount
        (Function.update helped ix b) =
      { (s.effective workerCount helped).setWorker ix (ctx.effective b (pc.use workerCount ix)) with
        main := pc.effective } := by
  have hworkers : (fun j => ((s.setWorker ix ctx).workers j).effective
      (Function.update helped ix b j) (pc.use workerCount j)) =
      Function.update (fun j => (s.workers j).effective (helped j) (s.main.use workerCount j)) ix
        (ctx.effective b (pc.use workerCount ix)) := by
    funext j
    rcases eq_or_ne j ix with rfl | hj
    · rw [setWorker_self, Function.update_self, Function.update_self]
    · rw [setWorker_ne s ctx hj, Function.update_of_ne hj, Function.update_of_ne hj, huse j hj]
  rw [effective, hworkers]
  rfl

theorem effective_setWorker (workerCount : ℕ) (helped : ℕ → Bool) (s : Engine (accessQueues τ π))
    (ix : ℕ) (b : Bool) (ctx : WorkerExecutionContext (accessQueues τ π)) :
    (s.setWorker ix ctx).effective workerCount (Function.update helped ix b) =
      (s.effective workerCount helped).setWorker ix
        (ctx.effective b (s.main.use workerCount ix)) :=
  effective_setWorker_main workerCount helped s ix b ctx s.main fun _ _ => rfl

theorem effective_signalSemaphore (workerCount : ℕ) (helped : ℕ → Bool) (s : Engine (accessQueues τ π)) (ix : ℕ) :
    (s.signalSemaphore ix).effective workerCount helped =
      (s.effective workerCount helped).signalSemaphore ix := by
  have hset := effective_setWorker workerCount helped s ix (helped ix)
    { s.workers ix with sleepSemaphore := min ((s.workers ix).sleepSemaphore + 1) 1000000 }
  rw [Function.update_eq_self] at hset
  exact hset

theorem effective_hasLeft (b : Bool) (q : TaskQueue (Cells (TaskRef τ) (Option π)))
    (pc : WorkerPc (accessQueues τ π)) : (pc.effective b q).hasLeft = pc.hasLeft := by
  cases pc with
  | popping fr =>
      simp only [WorkerPc.effective]
      rcases TaskQueue.popResult b q fr with _ | _ | e <;> rfl
  | _ => rfl

theorem effective_waitReturns (workerCount : ℕ) (helped : ℕ → Bool) (s : Engine (accessQueues τ π))
    (values : List WaitValue) :
    (s.effective workerCount helped).waitReturns values = s.waitReturns values := by
  have hleft : ∀ ix, ((s.effective workerCount helped).workers ix).pc.hasLeft =
      (s.workers ix).pc.hasLeft := fun ix => effective_hasLeft _ _ _
  simp only [waitReturns, hleft]

theorem use_enterPush (i ix : ℕ) (rest : List (Entry τ π)) (e : Entry τ π) :
    ((MainPc.pushing i rest ((accessQueues τ π).push.enter e)).use workerCount ix).pushStarted =
      false := by
  simp only [MainPc.use]
  split <;> rfl

theorem use_stealing (workerIx empties ix : ℕ) (fr : StealPc (TaskRef τ) (Option π)) :
    ((MainPc.stealing workerIx empties fr : MainPc (accessQueues τ π)).use workerCount ix).pushStarted =
      false := by
  simp only [MainPc.use]
  split <;> rfl

/-- Outside its queue calls the main thread does the same in both engines. -/
theorem mainStep_effective (helped : ℕ → Bool) {s : Engine (accessQueues τ π)}
    (h : s.accessesQueue .main = false) :
    (s.effective workerCount helped).mainStep workerCount asserts =
      (s.mainStep workerCount asserts).map fun s' => s'.effective workerCount helped := by
  have huse := use_not_started workerCount h
  have hgo : ∀ pc : MainPc (accessQueues τ π), (∀ ix, (pc.use workerCount ix).pushStarted = false) →
      { s.effective workerCount helped with main := pc.effective } =
        ({ s with main := pc } : Engine (accessQueues τ π)).effective workerCount helped :=
    fun pc hpc => (effective_main helped huse pc hpc).symm
  have heffective : (s.effective workerCount helped).main = s.main.effective := rfl
  cases hmain : s.main with
  | pushing | stealing =>
      rw [accessesQueue, hmain] at h
      cases h
  | outside | synced | inlineRunning | stolenRunning | closed =>
      simp only [mainStep, heffective, hmain]
      rfl
  | submitting i rest =>
      cases rest with
      | nil =>
          simp only [mainStep, heffective, hmain]
          exact congrArg some (hgo .outside fun _ => rfl)
      | cons e rest =>
          simp only [mainStep, heffective, hmain, MainPc.effective]
          split
          · rfl
          · exact congrArg some (hgo _ (use_enterPush i · rest e))
  | inlineReady i rest e =>
      simp only [mainStep, heffective, hmain]
      exact congrArg some (hgo (.inlineRunning i rest e) fun _ => rfl)
  | loadAsleep i rest =>
      have hasleep : ((s.effective workerCount helped).workers (targetIx workerCount i)).isAsleep =
          (s.workers (targetIx workerCount i)).isAsleep := rfl
      simp only [mainStep, heffective, hmain, MainPc.effective, hasleep]
      split
      · exact congrArg some (hgo (.signal i rest) fun _ => rfl)
      · exact congrArg some (hgo (.submitting (i + 1) rest) fun _ => rfl)
  | signal i rest =>
      have hsignal := effective_signalSemaphore workerCount helped { s with main := .outside }
        (targetIx workerCount i)
      rw [effective_main helped huse .outside fun _ => rfl] at hsignal
      simp only [mainStep, heffective, hmain]
      exact congrArg (fun t : Engine (atomicQueues τ π) =>
        some { t with main := .submitting (i + 1) rest }) hsignal.symm
  | syncing workerIx empties =>
      simp only [mainStep, heffective, hmain, MainPc.effective]
      split
      · exact congrArg some (hgo _ (use_stealing workerIx empties · _))
      · exact congrArg some (hgo .synced fun _ => rfl)
  | stolen workerIx e =>
      have harena : (s.effective workerCount helped).transientArena = s.transientArena := rfl
      simp only [mainStep, heffective, hmain, MainPc.effective, harena]
      split
      · rfl
      · exact congrArg some (hgo (.stolenRunning workerIx e s.transientArena.offset) fun _ => rfl)
  | joining =>
      simp only [mainStep, heffective, hmain, MainPc.effective, effective_waitReturns]
      split
      · exact congrArg some (hgo .releasing fun _ => rfl)
      · rfl
  | releasing =>
      simp only [mainStep, heffective, hmain]
      exact congrArg (fun t : Engine (atomicQueues τ π) => some { t with poolReserved := false })
        (hgo .closed fun _ => rfl)

theorem effective_idle (workerCount : ℕ) (helped : ℕ → Bool) (s : Engine (accessQueues τ π)) :
    (s.effective workerCount helped).idle = s.idle := by
  have heffective : (s.effective workerCount helped).main = s.main.effective := rfl
  rw [idle, idle, heffective]
  cases s.main with
  | pushing i rest fr => cases fr <;> rfl
  | _ => rfl

theorem idle_use {s : Engine (accessQueues τ π)} (h : s.idle = true) (ix : ℕ) :
    s.main.use workerCount ix = .nothing := by
  rw [idle] at h
  cases hmain : s.main with
  | pushing | stealing => rw [hmain] at h; cases h
  | _ => rfl

/-- A task of the main thread ends in the same way in both engines. -/
theorem mainTaskEnds_effective (helped : ℕ → Bool) (s : Engine (accessQueues τ π))
    (arena : ThreadArena) :
    (s.effective workerCount helped).mainTaskEnds workerCount arena =
      (s.mainTaskEnds workerCount arena).map fun s' => s'.effective workerCount helped := by
  have heffective : (s.effective workerCount helped).main = s.main.effective := rfl
  cases hmain : s.main with
  | inlineRunning i rest e =>
      have huse : ∀ ix, (s.main.use workerCount ix).pushStarted = false := fun ix => by rw [hmain]; rfl
      simp only [mainTaskEnds, heffective, hmain]
      exact congrArg (fun t : Engine (atomicQueues τ π) =>
        some { t with transientArena := arena, finished := e :: s.finished })
        (effective_main helped huse (.loadAsleep i rest) fun _ => rfl).symm
  | stolenRunning workerIx e snapshot =>
      have huse : ∀ ix, (s.main.use workerCount ix).pushStarted = false := fun ix => by rw [hmain]; rfl
      simp only [mainTaskEnds, heffective, hmain]
      exact congrArg (fun t : Engine (atomicQueues τ π) =>
        some { t with transientArena := { arena with offset := snapshot }, finished := e :: s.finished })
        (effective_main helped huse (.syncing (targetIx workerCount workerIx) 0) fun _ => rfl).symm
  | pushing i rest fr =>
      simp only [mainTaskEnds, heffective, hmain]
      cases fr <;> rfl
  | _ =>
      simp only [mainTaskEnds, heffective, hmain]
      rfl

theorem workerStep_effective (helped : ℕ → Bool) {s : Engine (accessQueues τ π)} {ix : ℕ}
    (h : (s.workers ix).pc.pop = none) :
    (s.effective workerCount helped).workerStep ix =
      (s.workerStep ix).map fun s' => s'.effective workerCount helped := by
  have hstep := WorkerExecutionContext.step_effective (helped ix) (s.main.use workerCount ix) h
  have hworker : (s.effective workerCount helped).workers ix =
      (s.workers ix).effective (helped ix) (s.main.use workerCount ix) := rfl
  rw [workerStep, workerStep, hworker, hstep, Option.map_map, Option.map_map]
  congr 1
  funext r
  have hset := effective_setWorker workerCount helped s ix (helped ix) r.1
  rw [Function.update_eq_self] at hset
  obtain ⟨ctx, effect⟩ := r
  cases effect with
  | nothing => exact hset.symm
  | decrement =>
      exact congrArg (fun t : Engine (atomicQueues τ π) =>
        { t with depCounter := s.depCounter - 1#32 }) hset.symm
  | crash => exact congrArg Engine.crash hset.symm

theorem workerTaskEnds_effective (helped : ℕ → Bool) (s : Engine (accessQueues τ π)) (ix : ℕ)
    (arena : ThreadArena) :
    (s.effective workerCount helped).workerTaskEnds ix arena =
      (s.workerTaskEnds ix arena).map fun s' => s'.effective workerCount helped := by
  have hpc : ((s.effective workerCount helped).workers ix).pc =
      (s.workers ix).pc.effective (helped ix) (s.workers ix).taskQueue := rfl
  cases hworker : (s.workers ix).pc with
  | running e =>
      have hset := effective_setWorker workerCount helped s ix (helped ix)
        { s.workers ix with transientArena := arena, pc := .decrement }
      have hctx : ({ s.workers ix with transientArena := arena, pc := .decrement } :
          WorkerExecutionContext (accessQueues τ π)).effective (helped ix) (s.main.use workerCount ix) =
          { (s.effective workerCount helped).workers ix with
            transientArena := arena, pc := .decrement } := by
        simp only [WorkerExecutionContext.effective, effective, hworker]
        rfl
      rw [Function.update_eq_self, hctx] at hset
      simp only [workerTaskEnds, hpc, hworker]
      exact congrArg (fun t : Engine (atomicQueues τ π) => some { t with finished := e :: s.finished })
        hset.symm
  | popping fr =>
      simp only [workerTaskEnds, hpc, hworker, WorkerPc.effective]
      rcases TaskQueue.popResult (helped ix) (s.workers ix).taskQueue fr with _ | _ | e <;> rfl
  | _ =>
      simp only [workerTaskEnds, hpc, hworker]
      rfl

/-- A move that makes no access to a queue is the same move in both engines. -/
theorem next_effective (helped : ℕ → Bool) {s : Engine (accessQueues τ π)} {move : EngineMove τ π}
    (h : s.accessesQueue move = false) :
    (machine _ workerCount asserts).next (s.effective workerCount helped) move =
      ((machine _ workerCount asserts).next s move).map fun s' => s'.effective workerCount helped := by
  have hidle := effective_idle workerCount helped s
  have hcrashed : (s.effective workerCount helped).crashed = s.crashed := rfl
  have hpool : (s.effective workerCount helped).poolReserved = s.poolReserved := rfl
  have hgo : s.idle = true → ∀ pc : MainPc (accessQueues τ π),
      (∀ ix, (pc.use workerCount ix).pushStarted = false) →
      { s.effective workerCount helped with main := pc.effective } =
        ({ s with main := pc } : Engine (accessQueues τ π)).effective workerCount helped :=
    fun hi pc hpc => (effective_main helped (fun ix => by rw [idle_use hi]; rfl) pc hpc).symm
  simp only [machine, hcrashed]
  split
  · rfl
  cases move with
  | batch tasks =>
      simp only [hidle]
      split <;> rename_i hi
      · exact congrArg (fun t : Engine (atomicQueues τ π) => some { t with
          depCounter := BitVec.ofNat 32 tasks.length
          submitted := s.submitted + tasks.length
          batchStart := s.submitted }) (hgo hi (.submitting 0 (s.submit tasks)) fun _ => rfl)
      · rfl
  | sync =>
      simp only [hidle]
      split <;> rename_i hi
      · exact congrArg some (hgo hi (.syncing 1 0) fun _ => rfl)
      · rfl
  | shutdown =>
      simp only [hidle]
      split <;> rename_i hi
      · exact congrArg some (hgo hi .joining fun _ => rfl)
      · rfl
  | main => exact mainStep_effective helped h
  | mainTaskEnds arena => exact mainTaskEnds_effective helped s arena
  | worker ix =>
      have hpop : (s.workers ix).pc.pop = none := by
        rw [accessesQueue] at h
        cases hpc : (s.workers ix).pc with
        | popping => rw [hpc] at h; cases h
        | _ => rfl
      simp only [hpool]
      split
      · split
        · exact workerStep_effective helped hpop
        · rfl
      · rfl
  | workerTaskEnds ix arena =>
      simp only [hpool]
      split
      · split
        · exact workerTaskEnds_effective helped s ix arena
        · rfl
      · rfl

theorem AccessesOk.of_main {s s' : Engine (accessQueues τ π)} (h : AccessesOk workerCount helped s)
    (hworkers : s'.workers = s.workers)
    (huse : ∀ ix, TaskQueue.UseOk (helped ix) (s.workers ix).taskQueue (s.workers ix).pc.pop
      (s'.main.use workerCount ix)) (hpool : s'.poolReserved = !s'.main.isClosed) :
    AccessesOk workerCount helped s' where
  calls ix := by
    rw [hworkers]
    exact (h.calls ix).withUse (huse ix)
  popper ix := by
    rw [hworkers]
    exact h.popper ix
  pool := hpool

/-- One worker is set, with the calls on its queue. -/
theorem AccessesOk.of_setWorker {s s' : Engine (accessQueues τ π)} {ix : ℕ} {b : Bool}
    {ctx : WorkerExecutionContext (accessQueues τ π)} (h : AccessesOk workerCount helped s)
    (hworkers : s'.workers = (s.setWorker ix ctx).workers)
    (huse : ∀ j, j ≠ ix → s'.main.use workerCount j = s.main.use workerCount j)
    (hcalls : TaskQueue.CallsOk b (s'.main.use workerCount ix) ctx.pc.pop ctx.taskQueue)
    (hpopper : ∀ fr, ctx.pc.pop = some fr → 1 ≤ ix ∧ ix ≤ workerCount)
    (hpool : s'.poolReserved = !s'.main.isClosed) :
    AccessesOk workerCount (Function.update helped ix b) s' where
  calls j := by
    rcases eq_or_ne j ix with rfl | hj
    · rw [hworkers, setWorker_self, Function.update_self]
      exact hcalls
    · rw [hworkers, setWorker_ne s ctx hj, Function.update_of_ne hj, huse j hj]
      exact h.calls j
  popper j := by
    rcases eq_or_ne j ix with rfl | hj
    · rw [hworkers, setWorker_self]
      exact hpopper
    · rw [hworkers, setWorker_ne s ctx hj]
      exact h.popper j
  pool := hpool

theorem useOk_enterPush (i : ℕ) (rest : List (Entry τ π)) (e : Entry τ π) (ix : ℕ) (b : Bool)
    (q : TaskQueue (Cells (TaskRef τ) (Option π))) (pop : Option (PopPc (TaskRef τ) (Option π))) :
    TaskQueue.UseOk b q pop
      ((MainPc.pushing i rest ((accessQueues τ π).push.enter e)).use workerCount ix) := by
  simp only [MainPc.use]
  split <;> trivial

theorem useOk_enterSteal (workerIx empties ix : ℕ) (b : Bool)
    (q : TaskQueue (Cells (TaskRef τ) (Option π))) (pop : Option (PopPc (TaskRef τ) (Option π))) :
    TaskQueue.UseOk b q pop ((MainPc.stealing workerIx empties ((accessQueues τ π).steal.enter ())).use
      workerCount ix) := by
  simp only [MainPc.use]
  split <;> trivial

/-- A move that makes no access to a queue leaves the calls on the queues where they are. -/
theorem AccessesOk.next {s s' : Engine (accessQueues τ π)} {move : EngineMove τ π}
    (h : AccessesOk workerCount helped s) (hacc : s.accessesQueue move = false)
    (hn : (machine _ workerCount asserts).next s move = some s') :
    AccessesOk workerCount helped s' := by
  have hpool := pool_next h.pool hn
  cases (next_step hn).2 with
  | workerGone | taskGone => exact ⟨h.calls, h.popper, hpool⟩
  | batch | sync | shutdown | inlineEnds | stolenEnds =>
      exact h.of_main rfl (fun _ => trivial) hpool
  | main hmove =>
      generalize hmain : s.main = pc at hmove
      rw [accessesQueue, hmain] at hacc
      cases hmove with
      | crash => exact ⟨h.calls, h.popper, hpool⟩
      | pushAccess | pushInline | pushed | stealAccess | stole | stealFailed => cases hacc
      | enterPush i e rest => exact h.of_main rfl (fun _ => useOk_enterPush i rest e _ _ _ _) hpool
      | enterSteal => exact h.of_main rfl (fun _ => useOk_enterSteal _ _ _ _ _ _) hpool
      | signal i rest =>
          rw [← Function.update_eq_self (targetIx workerCount i) helped]
          refine h.of_setWorker rfl (fun j _ => ?_) ?_ (h.popper (targetIx workerCount i)) hpool
          · rw [hmain]
            rfl
          · exact (h.calls (targetIx workerCount i)).withUse trivial
      | _ => exact h.of_main rfl (fun _ => trivial) hpool
  | @worker ix ctx effect h1 h2 hmove =>
      have hpop : (s.workers ix).pc.pop = none := by
        rw [accessesQueue] at hacc
        cases hpc : (s.workers ix).pc with
        | popping => rw [hpc] at hacc; cases hacc
        | _ => rfl
      obtain ⟨hqueue, hpc⟩ := WorkerExecutionContext.step_queue hmove hpop
      have hcalls := h.calls ix
      rw [hpop] at hcalls
      have hctx : TaskQueue.CallsOk (helped ix) (s.main.use workerCount ix) ctx.pc.pop
          ctx.taskQueue := by
        rw [hqueue]
        rcases hpc with hnone | henter
        · rw [hnone]
          exact hcalls
        · rw [henter]
          exact hcalls.enterPop
      have hmain := apply_main (s.setWorker ix ctx) effect
      rw [← Function.update_eq_self ix helped]
      refine h.of_setWorker (apply_workers _ effect) (fun j _ => ?_) ?_ (fun _ _ => ⟨h1, h2⟩) hpool
      · rw [hmain]
        rfl
      · rw [hmain]
        exact hctx
  | @workerEnds ix e arena h1 h2 hpc =>
      have hcalls := h.calls ix
      rw [hpc] at hcalls
      rw [← Function.update_eq_self ix helped]
      exact h.of_setWorker rfl (fun _ _ => rfl) hcalls (fun _ _ => ⟨h1, h2⟩) hpool

end Engine
end ProjectDelta
