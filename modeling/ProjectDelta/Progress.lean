import ProjectDelta.Conservation
import ProjectDelta.Shutdown

/-!
# No thread spins

Between two calls of the game the threads make only so many moves, however they
interleave: a worker that finds no task goes to sleep and stays asleep until it is
signalled, and `Scheduler_Sync` starts its count again only after a task it stole.
`potential` prices everything that can still cause a move: a program point, a count
of a semaphore, a task in a queue, a task still to be pushed.
-/

namespace ProjectDelta

variable {τ π : Type}

/-- A call of the game, and not a move of a thread. -/
def EngineMove.isCall : EngineMove τ π → Bool
  | .batch _ | .sync | .shutdown => true
  | _ => false

/-- The tasks a queue counts. -/
def TaskQueue.pending {σ : Type} (q : TaskQueue σ) : ℕ := (q.bottom - q.top).toNat

namespace TaskQueue

variable {σ : Type} [SlotMemory σ τ π] {q q' : TaskQueue σ}

theorem push_pending {p : τ × π} {r : Option (τ × π)} (h : q.push p.1 p.2 = (q', r)) :
    q'.pending ≤ q.pending + 1 := by
  by_cases hfull : q.bottom - q.top > q.size
  · rw [q.push_full p.1 p.2 hfull] at h
    obtain rfl := (Prod.mk.inj h).1
    exact Nat.le_succ _
  · rw [q.push_room p.1 p.2 hfull] at h
    obtain rfl := (Prod.mk.inj h).1
    simp only [pending, setBottom_bottom, setBottom_top, storePayload_top, storeTask_top]
    omega

theorem pop_pending {e : τ × π} (h : q.pop = (q', some e)) : q'.pending + 1 = q.pending := by
  rcases lt_trichotomy (q.top + 1) q.bottom with hmore | hlast | hempty
  · rw [q.pop_more hmore] at h
    obtain rfl := (Prod.mk.inj h).1
    simp only [pending, setBottom_bottom, setBottom_top]
    omega
  · rw [q.pop_last hlast] at h
    obtain rfl := (Prod.mk.inj h).1
    simp only [pending, setTop_bottom, setTop_top]
    omega
  · rw [q.pop_empty (by omega)] at h
    cases (Prod.mk.inj h).2

theorem steal_pending {e : τ × π} (h : q.steal = (q', some e)) : q'.pending + 1 = q.pending := by
  rcases lt_or_ge q.top q.bottom with hlt | hle
  · rw [q.steal_oldest hlt] at h
    obtain rfl := (Prod.mk.inj h).1
    simp only [pending, setTop_bottom, setTop_top]
    omega
  · rw [q.steal_empty hle] at h
    cases (Prod.mk.inj h).2

end TaskQueue

/-! ### Prices -/

/-- A task sends a worker once round its loop, or the scan of `Scheduler_Sync` once round the queues. -/
def taskPrice (workerCount : ℕ) : ℕ := 2 * workerCount + 6

/-- The moves from here to the wait, when no further task and no signal comes. -/
def WorkerPc.weight : WorkerPc (atomicQueues τ π) → ℕ
  | .wait | .left => 0
  | .recheckClose => 1
  | .storeAsleep => 2
  | .resetArena => 3
  | .popping _ => 4
  | .checkClose => 5
  | .storeAwake | .decrement => 6
  | .running _ => 7
  | .ready _ => 8

def WorkerExecutionContext.weight (workerCount : ℕ)
    (ctx : WorkerExecutionContext (atomicQueues τ π)) : ℕ :=
  ctx.pc.weight + 7 * ctx.sleepSemaphore + taskPrice workerCount * ctx.taskQueue.pending

/-- The moves from here to the end of the call, with the price of the tasks still to be pushed. -/
def MainPc.weight (workerCount : ℕ) : MainPc (atomicQueues τ π) → ℕ
  | .outside | .synced | .closed => 0
  | .submitting _ rest => (taskPrice workerCount + 11) * rest.length + 1
  | .pushing _ rest _ => (taskPrice workerCount + 11) * rest.length + taskPrice workerCount + 11
  | .inlineReady _ rest _ => (taskPrice workerCount + 11) * rest.length + 12
  | .inlineRunning _ rest _ => (taskPrice workerCount + 11) * rest.length + 11
  | .loadAsleep _ rest => (taskPrice workerCount + 11) * rest.length + 10
  | .signal _ rest => (taskPrice workerCount + 11) * rest.length + 9
  | .syncing _ empties => 2 * (workerCount + 1 - empties) + 1
  | .stealing _ empties _ => 2 * (workerCount - empties) + 2
  | .stolen _ _ => 2 * workerCount + 5
  | .stolenRunning _ _ _ => 2 * workerCount + 4
  | .joining => 2
  | .releasing => 1

/-- The moves that a call can cause. -/
def callPrice (workerCount : ℕ) : EngineMove τ π → ℕ
  | .batch tasks => (taskPrice workerCount + 11) * tasks.length + 1
  | .sync => 2 * workerCount + 3
  | .shutdown => 2
  | _ => 0

namespace Engine

variable {workerCount : ℕ} {asserts : Bool}

def potential (workerCount : ℕ) (s : Engine (atomicQueues τ π)) : ℕ :=
  (if s.crashed then 0 else 1) + s.main.weight workerCount +
    s.overWorkers workerCount (WorkerExecutionContext.weight workerCount)

/-! ### Every move pays -/

/-- A move of a worker that is not told to close lowers its weight, or crashes. -/
theorem WorkerMove.pays (workerCount : ℕ) {ctx ctx' : WorkerExecutionContext (atomicQueues τ π)}
    {effect : SharedEffect} (hopen : ctx.shouldClose = false)
    (hmove : WorkerMove ctx ctx.pc ctx' effect) :
    (effect ≠ .crash ∧ 1 + ctx'.weight workerCount ≤ ctx.weight workerCount) ∨
      (effect = .crash ∧ ctx' = ctx) := by
  obtain ⟨queue, arena, semaphore, asleep, close, pc⟩ := ctx
  cases hmove with
  | decrementNull hptr => exact Or.inr ⟨rfl, rfl⟩
  | popAccess hpop => exact (QueueModel.atomic_pop_returns hpop).elim
  | @popped fr q e hpop =>
      have hpending : q.pending + 1 = queue.pending :=
        TaskQueue.pop_pending (QueueModel.atomic_pop hpop)
      refine Or.inl ⟨SharedEffect.noConfusion, ?_⟩
      simp only [WorkerExecutionContext.weight, WorkerPc.weight, ← hpending, taskPrice, mul_add]
      omega
  | @popFailed fr q hpop =>
      obtain ⟨rfl, -⟩ := TaskQueue.pop_none (QueueModel.atomic_pop hpop)
      refine Or.inl ⟨SharedEffect.noConfusion, ?_⟩
      simp only [WorkerExecutionContext.weight, WorkerPc.weight]
      omega
  | leave hclose | stayAwake hclose => rw [hopen] at hclose; cases hclose
  | wake hsignal =>
      have hpos : semaphore ≠ 0 := hsignal
      refine Or.inl ⟨SharedEffect.noConfusion, ?_⟩
      simp only [WorkerExecutionContext.weight, WorkerPc.weight]
      omega
  | _ =>
      refine Or.inl ⟨SharedEffect.noConfusion, ?_⟩
      simp only [WorkerExecutionContext.weight, WorkerPc.weight]
      omega

/-- A step that touches no worker. -/
theorem potential_of_main {s s' : Engine (atomicQueues τ π)} (paid added : ℕ)
    (hcrashed : s'.crashed = s.crashed) (hworkers : s'.workers = s.workers)
    (hmain : paid + s'.main.weight workerCount ≤ s.main.weight workerCount + added) :
    paid + s'.potential workerCount ≤ s.potential workerCount + added := by
  rw [potential, potential, hcrashed, overWorkers_congr hworkers]
  omega

/-- A step that touches one worker. -/
theorem potential_of_setWorker {s s' : Engine (atomicQueues τ π)} {ix : ℕ}
    (ctx : WorkerExecutionContext (atomicQueues τ π)) (hcrashed : s'.crashed = s.crashed)
    (h1 : 1 ≤ ix) (h2 : ix ≤ workerCount) (hworkers : s'.workers = (s.setWorker ix ctx).workers)
    (hpays : 1 + s'.main.weight workerCount + ctx.weight workerCount ≤
      s.main.weight workerCount + (s.workers ix).weight workerCount) :
    1 + s'.potential workerCount ≤ s.potential workerCount := by
  have hsum := overWorkers_setWorker (WorkerExecutionContext.weight workerCount) s h1 h2 ctx
  rw [potential, potential, hcrashed, overWorkers_congr hworkers]
  omega

theorem potential_of_crash {s : Engine (atomicQueues τ π)} (h : s.crashed = false) :
    1 + s.crash.potential workerCount ≤ s.potential workerCount := by
  have hsum : s.crash.overWorkers workerCount (WorkerExecutionContext.weight workerCount) =
      s.overWorkers workerCount (WorkerExecutionContext.weight workerCount) := overWorkers_congr rfl
  rw [potential, potential, hsum, h]
  exact Nat.le_of_eq (by simp [crash]; omega)

theorem MainMove.pays {s s' : Engine (atomicQueues τ π)} (hW : 1 ≤ workerCount)
    (hcrashed : s.crashed = false) (hscan : ScanIx workerCount s.main)
    (hmove : MainMove workerCount asserts s s.main s') :
    1 + s'.potential workerCount ≤ s.potential workerCount := by
  generalize hmain : s.main = pc at hmove
  rw [hmain] at hscan
  cases hmove with
  | crash => exact potential_of_crash hcrashed
  | pushAccess hpush => exact (QueueModel.atomic_push_returns hpush).elim
  | stealAccess hsteal => exact (QueueModel.atomic_steal_returns hsteal).elim
  | @pushInline i rest p e q hpush =>
      obtain ⟨rfl, -⟩ := TaskQueue.push_inline (QueueModel.atomic_push hpush)
      rw [setQueue_taskQueue]
      refine potential_of_main 1 0 ?_ ?_ ?_
      · rfl
      · rfl
      · simp only [hmain, MainPc.weight, taskPrice]
        omega
  | @pushed i rest p q hpush =>
      obtain ⟨h1, h2⟩ := targetIx_bounds hW i
      have hpending := TaskQueue.push_pending (QueueModel.atomic_push hpush)
      have hprice := Nat.mul_le_mul_left (taskPrice workerCount) hpending
      refine potential_of_setWorker { s.workers (targetIx workerCount i) with taskQueue := q }
        ?_ h1 h2 ?_ ?_
      · rfl
      · rfl
      · simp only [hmain, MainPc.weight, WorkerExecutionContext.weight, mul_add] at hprice ⊢
        omega
  | @stole ix empties fr e q hsteal =>
      have hpending := TaskQueue.steal_pending (QueueModel.atomic_steal hsteal)
      refine potential_of_setWorker { s.workers ix with taskQueue := q } ?_ hscan.1 hscan.2 ?_ ?_
      · rfl
      · rfl
      · simp only [hmain, MainPc.weight, WorkerExecutionContext.weight, ← hpending, mul_add]
        rw [taskPrice]
        omega
  | @stealFailed ix empties fr q hsteal =>
      obtain ⟨rfl, -⟩ := TaskQueue.steal_none (QueueModel.atomic_steal hsteal)
      rw [setQueue_taskQueue]
      refine potential_of_main 1 0 ?_ ?_ ?_
      · rfl
      · rfl
      · simp only [hmain, MainPc.weight]
        omega
  | signal i rest =>
      obtain ⟨h1, h2⟩ := targetIx_bounds hW i
      refine potential_of_setWorker { s.workers (targetIx workerCount i) with
        sleepSemaphore := min ((s.workers (targetIx workerCount i)).sleepSemaphore + 1) 1000000 }
        ?_ h1 h2 ?_ ?_
      · rfl
      · rfl
      · simp only [hmain, MainPc.weight, WorkerExecutionContext.weight]
        omega
  | _ =>
      refine potential_of_main 1 0 ?_ ?_ ?_
      · rfl
      · rfl
      · simp only [hmain, MainPc.weight, List.length_cons, mul_add]
        omega

theorem apply_crashed {s : Engine (atomicQueues τ π)} {effect : SharedEffect}
    (h : effect ≠ .crash) : (s.apply effect).crashed = s.crashed := by
  cases effect with
  | crash => exact (h rfl).elim
  | _ => rfl

theorem setWorker_workers (s : Engine (atomicQueues τ π)) (ix : ℕ) :
    s.setWorker ix (s.workers ix) = s := by
  unfold setWorker
  exact congrArg (fun w => { s with workers := w }) (Function.update_eq_self ix s.workers)

/-- A call adds its price, and every other move uses something up. -/
theorem next_pays {s s' : Engine (atomicQueues τ π)} {move : EngineMove τ π} (hW : 1 ≤ workerCount)
    (hscan : ScanIx workerCount s.main) (hstays : ∀ ix, (s.workers ix).Stays)
    (hn : (machine _ workerCount asserts).next s move = some s') :
    (if !move.isCall then 1 else 0) + s'.potential workerCount ≤
      s.potential workerCount + callPrice workerCount move := by
  obtain ⟨hcrashed, hstep⟩ := next_step hn
  cases hstep with
  | workerGone | taskGone => exact potential_of_crash hcrashed
  | batch tasks h =>
      refine potential_of_main 0 _ ?_ ?_ ?_
      · rfl
      · rfl
      · simp only [beginBatch, MainPc.weight, callPrice, submit, List.length_mapIdx]
        omega
  | sync h =>
      refine potential_of_main 0 _ ?_ ?_ ?_
      · rfl
      · rfl
      · simp only [MainPc.weight, callPrice]
        omega
  | shutdown h =>
      refine potential_of_main 0 _ ?_ ?_ ?_
      · rfl
      · rfl
      · simp only [MainPc.weight, callPrice]
        omega
  | main hmove => exact hmove.pays hW hcrashed hscan
  | inlineEnds arena hmain =>
      refine potential_of_main 1 0 ?_ ?_ ?_
      · rfl
      · rfl
      · simp only [hmain, MainPc.weight]
        omega
  | stolenEnds arena hmain =>
      refine potential_of_main 1 0 ?_ ?_ ?_
      · rfl
      · rfl
      · simp only [hmain, MainPc.weight]
        omega
  | @worker ix ctx effect h1 h2 hmove =>
      rcases hmove.pays workerCount (hstays ix).1 with ⟨heffect, hpays⟩ | ⟨rfl, rfl⟩
      · have hmain := apply_main (s.setWorker ix ctx) effect
        refine potential_of_setWorker ctx (apply_crashed heffect) h1 h2 (apply_workers _ effect) ?_
        rw [hmain, show (s.setWorker ix ctx).main = s.main from rfl, add_right_comm,
          add_comm (s.main.weight workerCount)]
        exact Nat.add_le_add_right hpays _
      · rw [setWorker_workers]
        exact potential_of_crash hcrashed
  | @workerEnds ix e arena h1 h2 hpc =>
      refine potential_of_setWorker { s.workers ix with transientArena := arena, pc := .decrement }
        ?_ h1 h2 ?_ ?_
      · rfl
      · rfl
      · simp only [setWorker, WorkerExecutionContext.weight, WorkerPc.weight, hpc]
        omega

/-! ### A run -/

theorem exec_pays {s s' : Engine (atomicQueues τ π)} (hW : 1 ≤ workerCount)
    (hscan : ScanIx workerCount s.main) (hstays : ∀ ix, (s.workers ix).Stays)
    (moves : List (EngineMove τ π)) (h : (machine _ workerCount asserts).exec s moves = some s') :
    moves.countP (fun move => !move.isCall) + s'.potential workerCount ≤
      s.potential workerCount + Machine.outlay (callPrice workerCount) moves :=
  Machine.exec_outlay
    (I := fun a => ScanIx workerCount a.main ∧ ∀ ix, (a.workers ix).Stays)
    (fun _ _ _ ha _ hn => ⟨⟨ha.1.next hW hn, fun ix => (next_change hn ix).stays (ha.2 ix)⟩,
      next_pays hW ha.1 ha.2 hn⟩) moves h (Machine.obeys_true s moves) ⟨hscan, hstays⟩

theorem start_potential (k : ℕ) (slots : ℕ → Cells (TaskRef τ) (Option π)) (p : DependencyCounterPtr)
    (arenas : ℕ → ThreadArena) :
    (start k slots p arenas : Engine (atomicQueues τ π)).potential workerCount =
      5 * workerCount + 1 := by
  have hworker : ∀ ix ∈ Finset.Icc 1 workerCount,
      ((start k slots p arenas : Engine (atomicQueues τ π)).workers ix).weight workerCount = 5 :=
    fun _ _ => rfl
  have hsum := Finset.sum_const_nat hworker
  rw [Nat.card_Icc] at hsum
  rw [potential, overWorkers, hsum]
  simp only [start, MainPc.weight, Bool.false_eq_true, if_false]
  omega

/-- In every interleaving the threads make no more moves than the calls made so far account for:
`2 * workerCount + 17` for a task, `2 * workerCount + 3` for a `Scheduler_Sync`, one more for each
batch and two for a shutdown. -/
theorem moves_bounded (workerCount : ℕ) (hW : 1 ≤ workerCount) (asserts : Bool) (k : ℕ)
    (slots : ℕ → Cells (TaskRef τ) (Option π)) (p : DependencyCounterPtr) (arenas : ℕ → ThreadArena)
    (moves : List (EngineMove τ π)) (s : Engine (atomicQueues τ π))
    (h : (machine _ workerCount asserts).exec (start k slots p arenas) moves = some s) :
    moves.countP (fun move => !move.isCall) ≤
      5 * workerCount + 1 + Machine.outlay (callPrice workerCount) moves := by
  have hpays := exec_pays hW (start_sound k slots p arenas).scan (start_stays k slots p arenas)
    moves h
  rw [start_potential] at hpays
  exact (Nat.le_add_right _ _).trans hpays

theorem moves_bounded_shared :
    sharedBatch.countP (fun move => !move.isCall) = 15 ∧
      sharedBatch.countP (fun move => !move.isCall) ≤ 50 := by
  have hbound := moves_bounded 1 le_rfl true 1 _ .null _ sharedBatch afterShared sharedBatch_exec
  exact ⟨rfl, hbound⟩

end Engine
end ProjectDelta
