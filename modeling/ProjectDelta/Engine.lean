import ProjectDelta.Machine
import ProjectDelta.QueueCalls
import ProjectDelta.ThreadArena

/-!
# The main thread, the workers and their queues

One machine for `Scheduler_ProcessTaskBatch`, `Scheduler_Sync`, `WorkerProc` and
the shutdown sequence, with `workerCount` workers numbered from 1. The queue
operations are those of a `QueueModel`; every other access to `depCounter`,
`isAsleep`, `shouldClose` and the semaphore is one step. A task is a begin and an
end step, and may leave any arena behind. Tasks submit nothing.

`serial`, `submitted`, `batchStart` and `finished` are ghosts that tell the
occurrences of a task apart. A crash (a failed assertion, a null dereference, a
division by zero, memory that is gone) stops every thread.
-/

namespace ProjectDelta

/-- A task pointer, with the number of its submission. -/
structure TaskRef (τ : Type) where
  serial : ℕ
  fn : τ

/-- A task and its payload; `none` is a null payload. -/
abbrev Entry (τ π : Type) := TaskRef τ × Option π

abbrev EngineQueues (τ π : Type) := QueueModel (TaskRef τ) (Option π)

/-- Each queue operation is one step. -/
abbrev atomicQueues (τ π : Type) : EngineQueues τ π := QueueModel.atomic (TaskRef τ) (Option π)

variable {τ π : Type}

/-- Program points of `WorkerProc`. -/
inductive WorkerPc (Q : EngineQueues τ π)
  | checkClose
  | popping (fr : Q.pop.Frame)
  | ready (e : Entry τ π)
  | running (e : Entry τ π)
  | decrement
  | resetArena
  | storeAsleep
  | recheckClose
  | wait
  | storeAwake
  | left

def WorkerPc.hasLeft {Q : EngineQueues τ π} : WorkerPc Q → Bool
  | .left => true
  | _ => false

/-- The context of a worker, with its program point and its semaphore's count. -/
structure WorkerExecutionContext (Q : EngineQueues τ π) where
  taskQueue : TaskQueue (Cells (TaskRef τ) (Option π))
  transientArena : ThreadArena
  sleepSemaphore : ℕ
  isAsleep : Bool
  shouldClose : Bool
  pc : WorkerPc Q

/-- What a step of a worker does outside its own context. -/
inductive SharedEffect
  | nothing
  | decrement
  | crash

/-- Program points of the main thread: in the game's code, in
`Scheduler_ProcessTaskBatch`, in `Scheduler_Sync` and in `Engine::Shutdown`.
`i` and `rest` are the loop index and the entries from it on. -/
inductive MainPc (Q : EngineQueues τ π)
  | outside
  | synced
  | submitting (i : ℕ) (rest : List (Entry τ π))
  | pushing (i : ℕ) (rest : List (Entry τ π)) (fr : Q.push.Frame)
  | inlineReady (i : ℕ) (rest : List (Entry τ π)) (e : Entry τ π)
  | inlineRunning (i : ℕ) (rest : List (Entry τ π)) (e : Entry τ π)
  | loadAsleep (i : ℕ) (rest : List (Entry τ π))
  | signal (i : ℕ) (rest : List (Entry τ π))
  | syncing (workerIx consecutiveEmptyQueues : ℕ)
  | stealing (workerIx consecutiveEmptyQueues : ℕ) (fr : Q.steal.Frame)
  | stolen (workerIx : ℕ) (e : Entry τ π)
  | stolenRunning (workerIx : ℕ) (e : Entry τ π) (snapshot : BitVec 64)
  | joining
  | releasing
  | closed

structure Engine (Q : EngineQueues τ π) where
  workers : ℕ → WorkerExecutionContext Q
  depCounter : BitVec 32
  transientArena : ThreadArena
  main : MainPc Q
  poolReserved : Bool
  crashed : Bool
  submitted : ℕ
  batchStart : ℕ
  finished : List (Entry τ π)

inductive EngineMove (τ π : Type)
  | batch (tasks : List (τ × Option π))
  | sync
  | shutdown
  | main
  | mainTaskEnds (arena : ThreadArena)
  | worker (ix : ℕ)
  | workerTaskEnds (ix : ℕ) (arena : ThreadArena)

/-! ### WorkerProc -/

namespace WorkerExecutionContext

variable {Q : EngineQueues τ π}

def HasWork (ctx : WorkerExecutionContext Q) : Prop := ctx.taskQueue.top < ctx.taskQueue.bottom

instance (ctx : WorkerExecutionContext Q) : Decidable ctx.HasWork :=
  inferInstanceAs (Decidable (ctx.taskQueue.top < ctx.taskQueue.bottom))

def step (ctx : WorkerExecutionContext Q) : Option (WorkerExecutionContext Q × SharedEffect) :=
  match ctx.pc with
  | .checkClose =>
      some ({ ctx with pc := if ctx.shouldClose then .left else .popping (Q.pop.enter ()) }, .nothing)
  | .popping fr => match Q.pop.step ctx.taskQueue fr with
    | (q, .inl fr') => some ({ ctx with taskQueue := q, pc := .popping fr' }, .nothing)
    | (q, .inr (some e)) => some ({ ctx with taskQueue := q, pc := .ready e }, .nothing)
    | (q, .inr none) => some ({ ctx with taskQueue := q, pc := .resetArena }, .nothing)
  | .ready e => some ({ ctx with pc := .running e }, .nothing)
  | .running _ => none
  | .decrement => match ctx.taskQueue.depCounterPtr with
    | .null => some (ctx, .crash)
    | .mainDepCounter => some ({ ctx with pc := .checkClose }, .decrement)
  | .resetArena =>
      some ({ ctx with transientArena := ctx.transientArena.reset, pc := .storeAsleep }, .nothing)
  | .storeAsleep => some ({ ctx with isAsleep := true, pc := .recheckClose }, .nothing)
  | .recheckClose => some ({ ctx with pc := if ctx.shouldClose then .storeAwake else .wait }, .nothing)
  | .wait =>
      if ctx.sleepSemaphore = 0 then none
      else some ({ ctx with sleepSemaphore := ctx.sleepSemaphore - 1, pc := .storeAwake }, .nothing)
  | .storeAwake => some ({ ctx with isAsleep := false, pc := .checkClose }, .nothing)
  | .left => none

end WorkerExecutionContext

/-- What the array given to `WaitForMultipleObjects` holds for a worker. -/
inductive WaitValue
  | handle (ix : ℕ)
  | threadStruct (ix : ℕ)

/-- `s_Threads`: pointers to `Thread`, which `Thread_JoinMultiple` passes on as handles. -/
def sThreads (count : ℕ) : List WaitValue := (List.range count).map fun i => .threadStruct (i + 1)

namespace Engine

variable {Q : EngineQueues τ π}

def setWorker (s : Engine Q) (ix : ℕ) (ctx : WorkerExecutionContext Q) : Engine Q :=
  { s with workers := Function.update s.workers ix ctx }

def crash (s : Engine Q) : Engine Q := { s with crashed := true }

def apply (s : Engine Q) : SharedEffect → Engine Q
  | .nothing => s
  | .decrement => { s with depCounter := s.depCounter - 1#32 }
  | .crash => s.crash

def workerStep (s : Engine Q) (ix : ℕ) : Option (Engine Q) :=
  (s.workers ix).step.map fun r => (s.setWorker ix r.1).apply r.2

def workerTaskEnds (s : Engine Q) (ix : ℕ) (arena : ThreadArena) : Option (Engine Q) :=
  match (s.workers ix).pc with
  | .running e =>
      some { s with
        workers := Function.update s.workers ix
          { s.workers ix with transientArena := arena, pc := .decrement }
        finished := e :: s.finished }
  | _ => none

/-! ### The main thread -/

/-- `1 + (i % g_WorkerCount)` -/
def targetIx (workerCount i : ℕ) : ℕ := 1 + i % workerCount

/-- The accesses of one queue call on the queue of a worker. -/
def setQueue (s : Engine Q) (ix : ℕ) (q : TaskQueue (Cells (TaskRef τ) (Option π))) : Engine Q :=
  s.setWorker ix { s.workers ix with taskQueue := q }

/-- `ReleaseSemaphore` with a maximum count of 1000000. -/
def signalSemaphore (s : Engine Q) (ix : ℕ) : Engine Q :=
  s.setWorker ix
    { s.workers ix with sleepSemaphore := min ((s.workers ix).sleepSemaphore + 1) 1000000 }

/-- The wait fails at once on a value that is not a handle; otherwise it returns
when every thread has ended. -/
def waitReturns (s : Engine Q) (values : List WaitValue) : Bool :=
  values.any (fun v => match v with
    | .handle _ => false
    | .threadStruct _ => true) ||
  values.all fun v => match v with
    | .handle ix => (s.workers ix).pc.hasLeft
    | .threadStruct _ => false

def submit (s : Engine Q) (tasks : List (τ × Option π)) : List (Entry τ π) :=
  tasks.mapIdx fun i t => (⟨s.submitted + i, t.1⟩, t.2)

/-- The store of the counter and the entry of the loop. -/
def beginBatch (s : Engine Q) (tasks : List (τ × Option π)) : Engine Q :=
  { s with
    depCounter := BitVec.ofNat 32 tasks.length
    main := .submitting 0 (s.submit tasks)
    submitted := s.submitted + tasks.length
    batchStart := s.submitted }

def mainStep (workerCount : ℕ) (asserts : Bool) (s : Engine Q) : Option (Engine Q) :=
  match s.main with
  | .outside | .synced => none
  | .submitting i rest => match rest with
    | [] => some { s with main := .outside }
    | e :: rest =>
        if workerCount = 0 then some s.crash
        else some { s with main := .pushing i rest (Q.push.enter e) }
  | .pushing i rest fr =>
      match Q.push.step (s.workers (targetIx workerCount i)).taskQueue fr with
      | (q, .inl fr') =>
          some { s.setQueue (targetIx workerCount i) q with main := .pushing i rest fr' }
      | (q, .inr (some e)) =>
          some { s.setQueue (targetIx workerCount i) q with main := .inlineReady i rest e }
      | (q, .inr none) =>
          some { s.setQueue (targetIx workerCount i) q with main := .loadAsleep i rest }
  | .inlineReady i rest e => some { s with main := .inlineRunning i rest e }
  | .inlineRunning _ _ _ => none
  | .loadAsleep i rest =>
      if (s.workers (targetIx workerCount i)).isAsleep then some { s with main := .signal i rest }
      else some { s with main := .submitting (i + 1) rest }
  | .signal i rest =>
      some { s.signalSemaphore (targetIx workerCount i) with main := .submitting (i + 1) rest }
  | .syncing workerIx empties =>
      if empties < workerCount + 1 then
        some { s with main := .stealing workerIx empties (Q.steal.enter ()) }
      else some { s with main := .synced }
  | .stealing workerIx empties fr =>
      match Q.steal.step (s.workers workerIx).taskQueue fr with
      | (q, .inl fr') => some { s.setQueue workerIx q with main := .stealing workerIx empties fr' }
      | (q, .inr (some e)) => some { s.setQueue workerIx q with main := .stolen workerIx e }
      | (q, .inr none) =>
          if workerCount = 0 then some s.crash
          else
            some { s.setQueue workerIx q with
              main := .syncing (targetIx workerCount workerIx) (empties + 1) }
  | .stolen workerIx e =>
      if asserts ∧ e.2.isNone then some s.crash
      else some { s with main := .stolenRunning workerIx e s.transientArena.offset }
  | .stolenRunning _ _ _ => none
  | .joining =>
      if s.waitReturns (sThreads workerCount) then some { s with main := .releasing } else none
  | .releasing => some { s with main := .closed, poolReserved := false }
  | .closed => none

def mainTaskEnds (workerCount : ℕ) (s : Engine Q) (arena : ThreadArena) : Option (Engine Q) :=
  match s.main with
  | .inlineRunning i rest e =>
      some { s with
        transientArena := arena
        main := .loadAsleep i rest
        finished := e :: s.finished }
  | .stolenRunning workerIx e snapshot =>
      some { s with
        transientArena := { arena with offset := snapshot }
        main := .syncing (targetIx workerCount workerIx) 0
        finished := e :: s.finished }
  | _ => none

/-- In the game's code, where it may call the engine. -/
def idle (s : Engine Q) : Bool := match s.main with
  | .outside | .synced => true
  | _ => false

/-- Inside `Scheduler_ProcessTaskBatch`. -/
def inProcessTaskBatch (s : Engine Q) : Bool := match s.main with
  | .submitting _ _ | .pushing _ _ _ | .inlineReady _ _ _ | .inlineRunning _ _ _
  | .loadAsleep _ _ | .signal _ _ => true
  | _ => false

variable (Q) in
def machine (workerCount : ℕ) (asserts : Bool) : Machine (Engine Q) (EngineMove τ π) where
  next s move :=
    if s.crashed then none
    else match move with
      | .batch tasks => if s.idle then some (s.beginBatch tasks) else none
      | .sync => if s.idle then some { s with main := .syncing 1 0 } else none
      | .shutdown => if s.idle then some { s with main := .joining } else none
      | .main => s.mainStep workerCount asserts
      | .mainTaskEnds arena => s.mainTaskEnds workerCount arena
      | .worker ix =>
          if 1 ≤ ix ∧ ix ≤ workerCount then
            if s.poolReserved then s.workerStep ix else some s.crash
          else none
      | .workerTaskEnds ix arena =>
          if 1 ≤ ix ∧ ix ≤ workerCount then
            if s.poolReserved then s.workerTaskEnds ix arena else some s.crash
          else none

/-- After `Engine::Initialize`: every worker is at the head of its loop, with an
empty queue of `2 ^ k` cells. -/
def start (k : ℕ) (slots : ℕ → Cells (TaskRef τ) (Option π)) (depCounterPtr : DependencyCounterPtr)
    (arenas : ℕ → ThreadArena) : Engine Q where
  workers ix := ⟨.ofCells k (slots ix) depCounterPtr, arenas ix, 0, false, false, .checkClose⟩
  depCounter := 0#32
  transientArena := arenas 0
  main := .outside
  poolReserved := true
  crashed := false
  submitted := 0
  batchStart := 0
  finished := []

/-- One worker and a queue of one cell, for runs on fixed inputs. -/
def oneWorker (Q : EngineQueues Unit Unit) : Engine Q :=
  start 0 (fun _ => ⟨fun _ => ⟨0, ()⟩, fun _ => none⟩) .null fun _ => ⟨0, 0, 0, 0⟩

/-! ### What a step does -/

/-- The outcomes of `WorkerExecutionContext.step` at each program point. -/
inductive WorkerMove (ctx : WorkerExecutionContext Q) :
    WorkerPc Q → WorkerExecutionContext Q → SharedEffect → Prop
  | goOn (h : ctx.shouldClose = false) :
      WorkerMove ctx .checkClose { ctx with pc := .popping (Q.pop.enter ()) } .nothing
  | leave (h : ctx.shouldClose = true) :
      WorkerMove ctx .checkClose { ctx with pc := .left } .nothing
  | popAccess {fr fr' : Q.pop.Frame} {q : TaskQueue (Cells (TaskRef τ) (Option π))}
      (h : Q.pop.step ctx.taskQueue fr = (q, .inl fr')) :
      WorkerMove ctx (.popping fr) { ctx with taskQueue := q, pc := .popping fr' } .nothing
  | popped {fr : Q.pop.Frame} {q : TaskQueue (Cells (TaskRef τ) (Option π))} {e : Entry τ π}
      (h : Q.pop.step ctx.taskQueue fr = (q, .inr (some e))) :
      WorkerMove ctx (.popping fr) { ctx with taskQueue := q, pc := .ready e } .nothing
  | popFailed {fr : Q.pop.Frame} {q : TaskQueue (Cells (TaskRef τ) (Option π))}
      (h : Q.pop.step ctx.taskQueue fr = (q, .inr none)) :
      WorkerMove ctx (.popping fr) { ctx with taskQueue := q, pc := .resetArena } .nothing
  | begin (e : Entry τ π) : WorkerMove ctx (.ready e) { ctx with pc := .running e } .nothing
  | decrementNull (h : ctx.taskQueue.depCounterPtr = .null) : WorkerMove ctx .decrement ctx .crash
  | decrement (h : ctx.taskQueue.depCounterPtr = .mainDepCounter) :
      WorkerMove ctx .decrement { ctx with pc := .checkClose } .decrement
  | reset :
      WorkerMove ctx .resetArena
        { ctx with transientArena := ctx.transientArena.reset, pc := .storeAsleep } .nothing
  | fallAsleep :
      WorkerMove ctx .storeAsleep { ctx with isAsleep := true, pc := .recheckClose } .nothing
  | stayAwake (h : ctx.shouldClose = true) :
      WorkerMove ctx .recheckClose { ctx with pc := .storeAwake } .nothing
  | goWait (h : ctx.shouldClose = false) :
      WorkerMove ctx .recheckClose { ctx with pc := .wait } .nothing
  | wake (h : ctx.sleepSemaphore ≠ 0) :
      WorkerMove ctx .wait
        { ctx with sleepSemaphore := ctx.sleepSemaphore - 1, pc := .storeAwake } .nothing
  | awake : WorkerMove ctx .storeAwake { ctx with isAsleep := false, pc := .checkClose } .nothing

theorem step_move {ctx : WorkerExecutionContext Q} {r : WorkerExecutionContext Q × SharedEffect}
    (h : ctx.step = some r) : WorkerMove ctx ctx.pc r.1 r.2 := by
  unfold WorkerExecutionContext.step at h
  cases hpc : ctx.pc with
  | running | left =>
      rw [hpc] at h
      cases h
  | checkClose =>
      rw [hpc] at h
      obtain rfl := Option.some.inj h
      dsimp only
      split <;> rename_i hclose
      · exact .leave hclose
      · exact .goOn (Bool.eq_false_of_not_eq_true hclose)
  | popping fr =>
      simp only [hpc] at h
      split at h <;> rename_i hstep <;> obtain rfl := Option.some.inj h
      · exact .popAccess hstep
      · exact .popped hstep
      · exact .popFailed hstep
  | ready e =>
      rw [hpc] at h
      obtain rfl := Option.some.inj h
      exact .begin e
  | decrement =>
      simp only [hpc] at h
      split at h <;> rename_i hptr <;> obtain rfl := Option.some.inj h
      · exact .decrementNull hptr
      · exact .decrement hptr
  | resetArena =>
      rw [hpc] at h
      obtain rfl := Option.some.inj h
      exact .reset
  | storeAsleep =>
      rw [hpc] at h
      obtain rfl := Option.some.inj h
      exact .fallAsleep
  | recheckClose =>
      rw [hpc] at h
      obtain rfl := Option.some.inj h
      dsimp only
      split <;> rename_i hclose
      · exact .stayAwake hclose
      · exact .goWait (Bool.eq_false_of_not_eq_true hclose)
  | wait =>
      simp only [hpc] at h
      split at h
      · cases h
      · rename_i hsem
        obtain rfl := Option.some.inj h
        exact .wake hsem
  | storeAwake =>
      rw [hpc] at h
      obtain rfl := Option.some.inj h
      exact .awake

/-- The outcomes of `mainStep` at each program point. -/
inductive MainMove (workerCount : ℕ) (asserts : Bool) (s : Engine Q) : MainPc Q → Engine Q → Prop
  | crash (pc : MainPc Q) : MainMove workerCount asserts s pc s.crash
  | batchDone (i : ℕ) : MainMove workerCount asserts s (.submitting i []) { s with main := .outside }
  | enterPush (i : ℕ) (e : Entry τ π) (rest : List (Entry τ π)) :
      MainMove workerCount asserts s (.submitting i (e :: rest))
        { s with main := .pushing i rest (Q.push.enter e) }
  | pushAccess {i : ℕ} {rest : List (Entry τ π)} {fr fr' : Q.push.Frame}
      {q : TaskQueue (Cells (TaskRef τ) (Option π))}
      (h : Q.push.step (s.workers (targetIx workerCount i)).taskQueue fr = (q, .inl fr')) :
      MainMove workerCount asserts s (.pushing i rest fr)
        { s.setQueue (targetIx workerCount i) q with main := .pushing i rest fr' }
  | pushInline {i : ℕ} {rest : List (Entry τ π)} {fr : Q.push.Frame} {e : Entry τ π}
      {q : TaskQueue (Cells (TaskRef τ) (Option π))}
      (h : Q.push.step (s.workers (targetIx workerCount i)).taskQueue fr = (q, .inr (some e))) :
      MainMove workerCount asserts s (.pushing i rest fr)
        { s.setQueue (targetIx workerCount i) q with main := .inlineReady i rest e }
  | pushed {i : ℕ} {rest : List (Entry τ π)} {fr : Q.push.Frame}
      {q : TaskQueue (Cells (TaskRef τ) (Option π))}
      (h : Q.push.step (s.workers (targetIx workerCount i)).taskQueue fr = (q, .inr none)) :
      MainMove workerCount asserts s (.pushing i rest fr)
        { s.setQueue (targetIx workerCount i) q with main := .loadAsleep i rest }
  | beginInline (i : ℕ) (rest : List (Entry τ π)) (e : Entry τ π) :
      MainMove workerCount asserts s (.inlineReady i rest e)
        { s with main := .inlineRunning i rest e }
  | asleep {i : ℕ} {rest : List (Entry τ π)}
      (h : (s.workers (targetIx workerCount i)).isAsleep = true) :
      MainMove workerCount asserts s (.loadAsleep i rest) { s with main := .signal i rest }
  | awake {i : ℕ} {rest : List (Entry τ π)}
      (h : (s.workers (targetIx workerCount i)).isAsleep = false) :
      MainMove workerCount asserts s (.loadAsleep i rest) { s with main := .submitting (i + 1) rest }
  | signal (i : ℕ) (rest : List (Entry τ π)) :
      MainMove workerCount asserts s (.signal i rest)
        { s.signalSemaphore (targetIx workerCount i) with main := .submitting (i + 1) rest }
  | enterSteal {workerIx empties : ℕ} (h : empties < workerCount + 1) :
      MainMove workerCount asserts s (.syncing workerIx empties)
        { s with main := .stealing workerIx empties (Q.steal.enter ()) }
  | synced {workerIx empties : ℕ} (h : workerCount + 1 ≤ empties) :
      MainMove workerCount asserts s (.syncing workerIx empties) { s with main := .synced }
  | stealAccess {workerIx empties : ℕ} {fr fr' : Q.steal.Frame}
      {q : TaskQueue (Cells (TaskRef τ) (Option π))}
      (h : Q.steal.step (s.workers workerIx).taskQueue fr = (q, .inl fr')) :
      MainMove workerCount asserts s (.stealing workerIx empties fr)
        { s.setQueue workerIx q with main := .stealing workerIx empties fr' }
  | stole {workerIx empties : ℕ} {fr : Q.steal.Frame} {e : Entry τ π}
      {q : TaskQueue (Cells (TaskRef τ) (Option π))}
      (h : Q.steal.step (s.workers workerIx).taskQueue fr = (q, .inr (some e))) :
      MainMove workerCount asserts s (.stealing workerIx empties fr)
        { s.setQueue workerIx q with main := .stolen workerIx e }
  | stealFailed {workerIx empties : ℕ} {fr : Q.steal.Frame}
      {q : TaskQueue (Cells (TaskRef τ) (Option π))}
      (h : Q.steal.step (s.workers workerIx).taskQueue fr = (q, .inr none)) :
      MainMove workerCount asserts s (.stealing workerIx empties fr)
        { s.setQueue workerIx q with
          main := .syncing (targetIx workerCount workerIx) (empties + 1) }
  | beginStolen {workerIx : ℕ} {e : Entry τ π} (h : ¬ (asserts ∧ e.2.isNone)) :
      MainMove workerCount asserts s (.stolen workerIx e)
        { s with main := .stolenRunning workerIx e s.transientArena.offset }
  | joined (h : s.waitReturns (sThreads workerCount) = true) :
      MainMove workerCount asserts s .joining { s with main := .releasing }
  | release :
      MainMove workerCount asserts s .releasing { s with main := .closed, poolReserved := false }

variable {workerCount : ℕ} {asserts : Bool} {s s' : Engine Q}

theorem mainStep_move (h : s.mainStep workerCount asserts = some s') :
    MainMove workerCount asserts s s.main s' := by
  unfold mainStep at h
  cases hmain : s.main with
  | outside | synced | inlineRunning | stolenRunning | closed =>
      rw [hmain] at h
      cases h
  | submitting i rest =>
      cases rest with
      | nil =>
          rw [hmain] at h
          obtain rfl := Option.some.inj h
          exact .batchDone i
      | cons e rest =>
          simp only [hmain] at h
          split at h <;> obtain rfl := Option.some.inj h
          · exact .crash _
          · exact .enterPush i e rest
  | pushing i rest fr =>
      simp only [hmain] at h
      split at h <;> rename_i hstep <;> obtain rfl := Option.some.inj h
      · exact .pushAccess hstep
      · exact .pushInline hstep
      · exact .pushed hstep
  | inlineReady i rest e =>
      rw [hmain] at h
      obtain rfl := Option.some.inj h
      exact .beginInline i rest e
  | loadAsleep i rest =>
      simp only [hmain] at h
      split at h <;> rename_i hasleep <;> obtain rfl := Option.some.inj h
      · exact .asleep hasleep
      · exact .awake (Bool.eq_false_of_not_eq_true hasleep)
  | signal i rest =>
      rw [hmain] at h
      obtain rfl := Option.some.inj h
      exact .signal i rest
  | syncing workerIx empties =>
      simp only [hmain] at h
      split at h <;> rename_i hcount <;> obtain rfl := Option.some.inj h
      · exact .enterSteal hcount
      · exact .synced (Nat.le_of_not_lt hcount)
  | stealing workerIx empties fr =>
      simp only [hmain] at h
      split at h <;> rename_i hstep
      · obtain rfl := Option.some.inj h
        exact .stealAccess hstep
      · obtain rfl := Option.some.inj h
        exact .stole hstep
      · split at h <;> obtain rfl := Option.some.inj h
        · exact .crash _
        · exact .stealFailed hstep
  | stolen workerIx e =>
      simp only [hmain] at h
      split at h <;> rename_i hassert <;> obtain rfl := Option.some.inj h
      · exact .crash _
      · exact .beginStolen hassert
  | joining =>
      simp only [hmain] at h
      split at h <;> rename_i hwait
      · obtain rfl := Option.some.inj h
        exact .joined hwait
      · cases h
  | releasing =>
      rw [hmain] at h
      obtain rfl := Option.some.inj h
      exact .release

/-- The outcomes of one move of the machine. -/
inductive EngineStep (workerCount : ℕ) (asserts : Bool) (s : Engine Q) :
    EngineMove τ π → Engine Q → Prop
  | workerGone (ix : ℕ) (h : s.poolReserved = false) :
      EngineStep workerCount asserts s (.worker ix) s.crash
  | taskGone (ix : ℕ) (arena : ThreadArena) (h : s.poolReserved = false) :
      EngineStep workerCount asserts s (.workerTaskEnds ix arena) s.crash
  | batch (tasks : List (τ × Option π)) (h : s.idle = true) :
      EngineStep workerCount asserts s (.batch tasks) (s.beginBatch tasks)
  | sync (h : s.idle = true) :
      EngineStep workerCount asserts s .sync { s with main := .syncing 1 0 }
  | shutdown (h : s.idle = true) :
      EngineStep workerCount asserts s .shutdown { s with main := .joining }
  | main {s' : Engine Q} (h : MainMove workerCount asserts s s.main s') :
      EngineStep workerCount asserts s .main s'
  | inlineEnds {i : ℕ} {rest : List (Entry τ π)} {e : Entry τ π} (arena : ThreadArena)
      (h : s.main = .inlineRunning i rest e) :
      EngineStep workerCount asserts s (.mainTaskEnds arena)
        { s with
          transientArena := arena
          main := .loadAsleep i rest
          finished := e :: s.finished }
  | stolenEnds {workerIx : ℕ} {e : Entry τ π} {snapshot : BitVec 64} (arena : ThreadArena)
      (h : s.main = .stolenRunning workerIx e snapshot) :
      EngineStep workerCount asserts s (.mainTaskEnds arena)
        { s with
          transientArena := { arena with offset := snapshot }
          main := .syncing (targetIx workerCount workerIx) 0
          finished := e :: s.finished }
  | worker {ix : ℕ} {ctx : WorkerExecutionContext Q} {effect : SharedEffect} (h1 : 1 ≤ ix)
      (h2 : ix ≤ workerCount) (h : WorkerMove (s.workers ix) (s.workers ix).pc ctx effect) :
      EngineStep workerCount asserts s (.worker ix) ((s.setWorker ix ctx).apply effect)
  | workerEnds {ix : ℕ} {e : Entry τ π} (arena : ThreadArena) (h1 : 1 ≤ ix)
      (h2 : ix ≤ workerCount) (h : (s.workers ix).pc = .running e) :
      EngineStep workerCount asserts s (.workerTaskEnds ix arena)
        { s.setWorker ix { s.workers ix with transientArena := arena, pc := .decrement } with
          finished := e :: s.finished }

/-- No step of the main thread itself changes the counter or submits a task. -/
theorem MainMove.counts {pc : MainPc Q} (h : MainMove workerCount asserts s pc s') :
    s'.depCounter = s.depCounter ∧ s'.submitted = s.submitted ∧ s'.batchStart = s.batchStart := by
  cases h <;> exact ⟨rfl, rfl, rfl⟩

theorem next_main (h : s.crashed = false) :
    (machine Q workerCount asserts).next s .main = s.mainStep workerCount asserts := by
  simp only [machine, h]
  exact if_neg Bool.false_ne_true

theorem next_mainTaskEnds {arena : ThreadArena}
    (h : (machine Q workerCount asserts).next s (.mainTaskEnds arena) = some s') :
    s.mainTaskEnds workerCount arena = some s' := by
  simp only [machine] at h
  split_ifs at h
  exact h

theorem next_step {move : EngineMove τ π} (h : (machine Q workerCount asserts).next s move = some s') :
    s.crashed = false ∧ EngineStep workerCount asserts s move s' := by
  simp only [machine] at h
  split at h
  · cases h
  rename_i hcrashed
  refine ⟨Bool.eq_false_of_not_eq_true hcrashed, ?_⟩
  cases move with
  | batch tasks =>
      simp only at h
      split at h <;> rename_i hidle
      · obtain rfl := Option.some.inj h
        exact .batch tasks hidle
      · cases h
  | sync =>
      simp only at h
      split at h <;> rename_i hidle
      · obtain rfl := Option.some.inj h
        exact .sync hidle
      · cases h
  | shutdown =>
      simp only at h
      split at h <;> rename_i hidle
      · obtain rfl := Option.some.inj h
        exact .shutdown hidle
      · cases h
  | main => exact .main (mainStep_move h)
  | mainTaskEnds arena =>
      simp only [mainTaskEnds] at h
      split at h <;> rename_i hmain
      · obtain rfl := Option.some.inj h
        exact .inlineEnds arena hmain
      · obtain rfl := Option.some.inj h
        exact .stolenEnds arena hmain
      · cases h
  | worker ix =>
      simp only at h
      split at h <;> rename_i hix
      · split at h <;> rename_i hpool
        · obtain ⟨r, hr, rfl⟩ := Option.map_eq_some_iff.mp h
          exact .worker hix.1 hix.2 (step_move hr)
        · obtain rfl := Option.some.inj h
          exact .workerGone ix (Bool.eq_false_of_not_eq_true hpool)
      · cases h
  | workerTaskEnds ix arena =>
      simp only at h
      split at h <;> rename_i hix
      · split at h <;> rename_i hpool
        · simp only [workerTaskEnds] at h
          split at h <;> rename_i hpc
          · obtain rfl := Option.some.inj h
            exact .workerEnds arena hix.1 hix.2 hpc
          · cases h
        · obtain rfl := Option.some.inj h
          exact .taskGone ix arena (Bool.eq_false_of_not_eq_true hpool)
      · cases h

/-! ### What a move does to the context of a worker -/

theorem setWorker_self (s : Engine Q) (ix : ℕ) (ctx : WorkerExecutionContext Q) :
    (s.setWorker ix ctx).workers ix = ctx := by simp only [setWorker, Function.update_self]

theorem setWorker_ne (s : Engine Q) {ix j : ℕ} (ctx : WorkerExecutionContext Q) (h : j ≠ ix) :
    (s.setWorker ix ctx).workers j = s.workers j := by
  simp only [setWorker, Function.update_of_ne h]

/-- What holds of the new context of one worker and of the others as they were holds of all. -/
theorem forall_setWorker {s : Engine Q} {ix : ℕ} {ctx : WorkerExecutionContext Q}
    {P : ℕ → WorkerExecutionContext Q → Prop} (hix : P ix ctx)
    (h : ∀ j, j ≠ ix → P j (s.workers j)) (j : ℕ) : P j ((s.setWorker ix ctx).workers j) := by
  by_cases hj : j = ix
  · subst hj
    rw [setWorker_self]
    exact hix
  · rw [setWorker_ne s ctx hj]
    exact h j hj

theorem apply_workers (s : Engine Q) (effect : SharedEffect) :
    (s.apply effect).workers = s.workers := by cases effect <;> rfl

theorem apply_main (s : Engine Q) (effect : SharedEffect) : (s.apply effect).main = s.main := by
  cases effect <;> rfl

theorem apply_ghosts (s : Engine Q) (effect : SharedEffect) :
    (s.apply effect).submitted = s.submitted ∧ (s.apply effect).finished = s.finished := by
  cases effect <;> exact ⟨rfl, rfl⟩

/-- A worker moves, or the main thread uses its queue or its semaphore. -/
inductive WorkerChange (ctx : WorkerExecutionContext Q) : WorkerExecutionContext Q → Prop
  | same : WorkerChange ctx ctx
  | step {ctx' : WorkerExecutionContext Q} {effect : SharedEffect}
      (h : WorkerMove ctx ctx.pc ctx' effect) : WorkerChange ctx ctx'
  | taskEnds {e : Entry τ π} (arena : ThreadArena) (h : ctx.pc = .running e) :
      WorkerChange ctx { ctx with transientArena := arena, pc := .decrement }
  | push (fr : Q.push.Frame) :
      WorkerChange ctx { ctx with taskQueue := (Q.push.step ctx.taskQueue fr).1 }
  | steal (fr : Q.steal.Frame) :
      WorkerChange ctx { ctx with taskQueue := (Q.steal.step ctx.taskQueue fr).1 }
  | signal : WorkerChange ctx { ctx with sleepSemaphore := min (ctx.sleepSemaphore + 1) 1000000 }

theorem setWorker_change {s : Engine Q} {ix : ℕ} {ctx : WorkerExecutionContext Q}
    (h : WorkerChange (s.workers ix) ctx) (j : ℕ) :
    WorkerChange (s.workers j) ((s.setWorker ix ctx).workers j) :=
  forall_setWorker (P := fun j c => WorkerChange (s.workers j) c) h (fun _ _ => .same) j

theorem push_change {s : Engine Q} {ix : ℕ} {fr : Q.push.Frame}
    {q : TaskQueue (Cells (TaskRef τ) (Option π))} {r : Q.push.Frame ⊕ Option (Entry τ π)}
    (h : Q.push.step (s.workers ix).taskQueue fr = (q, r)) (j : ℕ) :
    WorkerChange (s.workers j) ((s.setQueue ix q).workers j) := by
  have hq : q = (Q.push.step (s.workers ix).taskQueue fr).1 := by rw [h]
  subst hq
  exact setWorker_change (.push fr) j

theorem steal_change {s : Engine Q} {ix : ℕ} {fr : Q.steal.Frame}
    {q : TaskQueue (Cells (TaskRef τ) (Option π))} {r : Q.steal.Frame ⊕ Option (Entry τ π)}
    (h : Q.steal.step (s.workers ix).taskQueue fr = (q, r)) (j : ℕ) :
    WorkerChange (s.workers j) ((s.setQueue ix q).workers j) := by
  have hq : q = (Q.steal.step (s.workers ix).taskQueue fr).1 := by rw [h]
  subst hq
  exact setWorker_change (.steal fr) j

theorem next_change {move : EngineMove τ π}
    (h : (machine Q workerCount asserts).next s move = some s') (j : ℕ) :
    WorkerChange (s.workers j) (s'.workers j) := by
  cases (next_step h).2 with
  | main hmove =>
      generalize s.main = pc at hmove
      cases hmove with
      | pushAccess hstep => exact push_change hstep j
      | pushInline hstep => exact push_change hstep j
      | pushed hstep => exact push_change hstep j
      | stealAccess hstep => exact steal_change hstep j
      | stole hstep => exact steal_change hstep j
      | stealFailed hstep => exact steal_change hstep j
      | signal i rest => exact setWorker_change .signal j
      | _ => exact .same
  | worker h1 h2 hmove =>
      rw [apply_workers]
      exact setWorker_change (.step hmove) j
  | workerEnds arena h1 h2 hpc => exact setWorker_change (.taskEnds arena hpc) j
  | _ => exact .same

end Engine
end ProjectDelta
