import ProjectDelta.Engine
import ProjectDelta.QueueLayout

/-!
# What the dependency counter counts

`Scheduler_ProcessTaskBatch` stores the length of the batch, truncated to 32 bits.
Nothing decrements it afterwards: the two paths on which the main thread runs a task
never do, and a worker decrements through `depCounterPtr`, which
`InitializeQueue` leaves null. So the counter stays at the length of the batch.
-/

namespace ProjectDelta

variable {τ π : Type} {Q : EngineQueues τ π}

namespace Engine

def batchSerials (s : Engine Q) : List ℕ :=
  (List.range (s.submitted - s.batchStart)).map fun i => s.batchStart + i

def hasFinished (s : Engine Q) (n : ℕ) : Bool := s.finished.any fun e => e.1.serial == n

/-- The tasks of the last batch that have finished. -/
def finishedOfBatch (s : Engine Q) : ℕ := s.batchSerials.countP s.hasFinished

def unfinishedOfBatch (s : Engine Q) : ℕ := s.batchSerials.countP fun n => !s.hasFinished n

theorem finished_add_unfinished (s : Engine Q) :
    s.finishedOfBatch + s.unfinishedOfBatch = s.submitted - s.batchStart := by
  have hsplit := List.length_eq_countP_add_countP s.hasFinished (l := s.batchSerials)
  have hlength : s.batchSerials.length = s.submitted - s.batchStart := by simp [batchSerials]
  rw [hlength] at hsplit
  rw [finishedOfBatch, unfinishedOfBatch, hsplit]
  congr 2
  funext n
  simp

structure CounterInv (s : Engine Q) : Prop where
  null : ∀ ix, (s.workers ix).taskQueue.depCounterPtr = .null
  started : s.batchStart ≤ s.submitted
  counter : s.depCounter = BitVec.ofNat 32 (s.submitted - s.batchStart)

theorem WorkerChange.depCounterPtr {ctx ctx' : WorkerExecutionContext Q} (h : WorkerChange ctx ctx') :
    ctx'.taskQueue.depCounterPtr = ctx.taskQueue.depCounterPtr := by
  cases h with
  | step hmove =>
      generalize ctx.pc = pc at hmove
      cases hmove with
      | @popAccess fr _ q hpop | @popped fr q _ hpop | @popFailed fr q hpop =>
          have hptr := Q.pop_depCounterPtr ctx.taskQueue fr
          rw [hpop] at hptr
          exact hptr
      | _ => rfl
  | push fr => exact Q.push_depCounterPtr ctx.taskQueue fr
  | steal fr => exact Q.steal_depCounterPtr ctx.taskQueue fr
  | _ => rfl

theorem CounterInv.of_counts {s s' : Engine Q} (h : CounterInv s)
    (hnull : ∀ ix, (s'.workers ix).taskQueue.depCounterPtr = .null)
    (hcounts : s'.depCounter = s.depCounter ∧ s'.submitted = s.submitted ∧
      s'.batchStart = s.batchStart) : CounterInv s' := by
  obtain ⟨hcounter, hsubmitted, hstart⟩ := hcounts
  refine ⟨hnull, ?_, ?_⟩
  · rw [hsubmitted, hstart]
    exact h.started
  · rw [hcounter, hsubmitted, hstart]
    exact h.counter

theorem CounterInv.step {workerCount : ℕ} {asserts : Bool} (s : Engine Q) (move : EngineMove τ π)
    (s' : Engine Q) (h : CounterInv s) (_ : True)
    (hn : (machine Q workerCount asserts).next s move = some s') : CounterInv s' := by
  have hnull : ∀ ix, (s'.workers ix).taskQueue.depCounterPtr = .null :=
    fun ix => (next_change hn ix).depCounterPtr.trans (h.null ix)
  cases (next_step hn).2 with
  | batch tasks hidle =>
      refine ⟨hnull, Nat.le_add_right _ _, ?_⟩
      simp only [beginBatch, Nat.add_sub_cancel_left]
  | main hmove => exact h.of_counts hnull hmove.counts
  | @worker ix ctx effect h1 h2 hmove =>
      generalize (s.workers ix).pc = pc at hmove
      cases hmove with
      | decrement hptr =>
          rw [h.null ix] at hptr
          cases hptr
      | _ => exact h.of_counts hnull ⟨rfl, rfl, rfl⟩
  | _ => exact h.of_counts hnull ⟨rfl, rfl, rfl⟩

/-- The pointer that `ThreadContext_Initialize` leaves in the queue of a worker. -/
def initialCounterPtr (pageCoord : ThreadPageCoordinator) : DependencyCounterPtr :=
  (TaskQueue.workerQueue pageCoord TaskQueue.zeroedQueue).1.depCounterPtr

theorem start_counterInv (k : ℕ) (slots : ℕ → Cells (TaskRef τ) (Option π))
    (pageCoord : ThreadPageCoordinator) (arenas : ℕ → ThreadArena) :
    CounterInv (start k slots (initialCounterPtr pageCoord) arenas : Engine Q) :=
  ⟨fun _ => rfl, le_rfl, rfl⟩

theorem CounterInv.counts_iff {s : Engine Q} (h : CounterInv s) :
    s.depCounter.toNat = s.unfinishedOfBatch ↔
      s.finishedOfBatch = 2 ^ 32 * ((s.submitted - s.batchStart) / 2 ^ 32) := by
  have hsum := s.finished_add_unfinished
  rw [h.counter, BitVec.toNat_ofNat]
  omega

/-- The counter is the number of unfinished tasks of the last batch exactly while the number of
finished ones is the part of the length that the 32 bits drop. -/
theorem depCounter_eq_unfinished_iff (Q : EngineQueues τ π) (workerCount : ℕ) (asserts : Bool)
    (k : ℕ) (slots : ℕ → Cells (TaskRef τ) (Option π)) (pageCoord : ThreadPageCoordinator)
    (arenas : ℕ → ThreadArena) (s : Engine Q)
    (hs : (machine Q workerCount asserts).Reach
      (start k slots (initialCounterPtr pageCoord) arenas) s) :
    s.depCounter.toNat = s.unfinishedOfBatch ↔
      s.finishedOfBatch = 2 ^ 32 * ((s.submitted - s.batchStart) / 2 ^ 32) := by
  have hinv : CounterInv s := hs.invariant CounterInv.step (start_counterInv k slots pageCoord arenas)
  exact hinv.counts_iff

/-- One task is pushed and then stolen and run by `Scheduler_Sync`. -/
def stolenTask : List (EngineMove Unit Unit) :=
  [.batch [((), some ())], .main, .main, .main, .main, .sync, .main, .main, .main,
    .mainTaskEnds ⟨0, 0, 0, 0⟩]

def afterStolenTask : Engine (QueueModel.atomic (TaskRef Unit) (Option Unit)) :=
  ((machine _ 1 true).exec (oneWorker _) stolenTask).getD (oneWorker _)

theorem stolenTask_reach : (machine _ 1 true).Reach (oneWorker _) afterStolenTask :=
  Machine.reach_of_exec stolenTask rfl

theorem stolenTask_counts :
    afterStolenTask.depCounter = 1#32 ∧
      (afterStolenTask.depCounter.toNat = afterStolenTask.unfinishedOfBatch ↔
        afterStolenTask.finishedOfBatch =
          2 ^ 32 * ((afterStolenTask.submitted - afterStolenTask.batchStart) / 2 ^ 32)) :=
  ⟨rfl, depCounter_eq_unfinished_iff _ 1 true 0 _ ⟨0, 0, 0, 0⟩ _ afterStolenTask stolenTask_reach⟩

/-- The first batch is submitted in full, its only task has finished, and the counter
is still one. -/
theorem counter_misses_stolen_task :
    ¬ ∀ s : Engine (QueueModel.atomic (TaskRef Unit) (Option Unit)),
      (machine _ 1 true).Reach (oneWorker _) s → s.inProcessTaskBatch = false → s.batchStart = 0 →
        s.depCounter.toNat = s.unfinishedOfBatch := by
  intro h
  exact absurd (h afterStolenTask stolenTask_reach rfl rfl) (by decide)

end Engine
end ProjectDelta
