import Mathlib.Algebra.Order.BigOperators.Group.Finset
import Mathlib.Algebra.Order.Group.Multiset
import Mathlib.Order.Interval.Finset.Nat
import Mathlib.Tactic.Abel
import ProjectDelta.Barrier

/-!
# Every submitted task is in one place

Finished, in the hands of the main thread, in the hands of a worker or in a queue:
`allEntries` puts the four together, and a step only moves entries between them.
So the tasks that a schedule submits are accounted for at every point of every
interleaving, each of them once, as long as no push is made onto a queue that
holds exactly `size` entries.
-/

namespace ProjectDelta

variable {τ π : Type}

namespace Engine

section Sums

variable {Q : EngineQueues τ π} {M : Type*} [AddCommMonoid M]

/-- A quantity of the contexts, added up over the workers. -/
def overWorkers (workerCount : ℕ) (f : WorkerExecutionContext Q → M) (s : Engine Q) : M :=
  ∑ ix ∈ Finset.Icc 1 workerCount, f (s.workers ix)

theorem overWorkers_congr {workerCount : ℕ} {f : WorkerExecutionContext Q → M} {s s' : Engine Q}
    (h : s'.workers = s.workers) : s'.overWorkers workerCount f = s.overWorkers workerCount f := by
  rw [overWorkers, overWorkers, h]

/-- Only the term of the worker that is set changes. -/
theorem overWorkers_setWorker {workerCount : ℕ} (f : WorkerExecutionContext Q → M) (s : Engine Q)
    {ix : ℕ} (h1 : 1 ≤ ix) (h2 : ix ≤ workerCount) (ctx : WorkerExecutionContext Q) :
    (s.setWorker ix ctx).overWorkers workerCount f + f (s.workers ix) =
      s.overWorkers workerCount f + f ctx := by
  have hmem : ix ∈ Finset.Icc 1 workerCount := Finset.mem_Icc.mpr ⟨h1, h2⟩
  have hrest : ∑ j ∈ (Finset.Icc 1 workerCount).erase ix, f ((s.setWorker ix ctx).workers j) =
      ∑ j ∈ (Finset.Icc 1 workerCount).erase ix, f (s.workers j) := by
    refine Finset.sum_congr rfl fun j hj => ?_
    rw [setWorker_ne s ctx (Finset.ne_of_mem_erase hj)]
  rw [overWorkers, overWorkers, ← Finset.add_sum_erase _ _ hmem, ← Finset.add_sum_erase _ _ hmem,
    hrest, setWorker_self]
  abel

end Sums

variable {workerCount : ℕ} {asserts : Bool} {n : ℕ}

/-- No push is made onto a queue that holds exactly `size` entries. -/
def RoomToPush (workerCount : ℕ) (s : Engine (atomicQueues τ π)) : EngineMove τ π → Prop
  | .main => match s.main with
    | .pushing i _ _ =>
        let queue := (s.workers (targetIx workerCount i)).taskQueue
        queue.bottom - queue.top ≠ queue.size
    | _ => True
  | _ => True

/-- All entries there are: finished, with the main thread, and with the workers. -/
def allEntries (workerCount : ℕ) (s : Engine (atomicQueues τ π)) : Multiset (Entry τ π) :=
  (s.finished : Multiset (Entry τ π)) + s.main.entries +
    s.overWorkers workerCount fun ctx => (ctx.entries : Multiset (Entry τ π))

/-- The entries of a batch whose first task gets the number `first`. -/
def batchEntries (first : ℕ) (tasks : List (τ × Option π)) : List (Entry τ π) :=
  tasks.mapIdx fun i t => (⟨first + i, t.1⟩, t.2)

/-- The entries of all batches of a schedule, numbered in the order of submission. -/
def submittedBy : ℕ → List (EngineMove τ π) → List (Entry τ π)
  | _, [] => []
  | first, .batch tasks :: moves =>
      batchEntries first tasks ++ submittedBy (first + tasks.length) moves
  | first, _ :: moves => submittedBy first moves

theorem batchEntries_serials (first : ℕ) (tasks : List (τ × Option π)) :
    (batchEntries first tasks).map (fun e => e.1.serial) = List.range' first tasks.length := by
  apply List.ext_getElem
  · simp [batchEntries]
  · intro i h1 h2
    simp [batchEntries]

theorem submittedBy_serials (first : ℕ) (moves : List (EngineMove τ π)) :
    ∃ count, (submittedBy first moves).map (fun e => e.1.serial) = List.range' first count := by
  induction moves generalizing first with
  | nil => exact ⟨0, rfl⟩
  | cons move moves ih =>
      cases move with
      | batch tasks =>
          obtain ⟨count, hcount⟩ := ih (first + tasks.length)
          refine ⟨tasks.length + count, ?_⟩
          rw [submittedBy, List.map_append, batchEntries_serials, hcount, List.range'_append_1]
      | _ => exact ih first

/-! ### One step -/

/-- The worker the scan stands at exists. -/
def ScanIx (workerCount : ℕ) : MainPc (atomicQueues τ π) → Prop
  | .syncing ix _ | .stealing ix _ _ | .stolen ix _ | .stolenRunning ix _ _ =>
      1 ≤ ix ∧ ix ≤ workerCount
  | _ => True

theorem ScanIx.next {s s' : Engine (atomicQueues τ π)} {move : EngineMove τ π} (hW : 1 ≤ workerCount)
    (h : ScanIx workerCount s.main)
    (hn : (machine _ workerCount asserts).next s move = some s') : ScanIx workerCount s'.main := by
  cases (next_step hn).2 with
  | workerGone | taskGone => exact h
  | batch | shutdown | inlineEnds => trivial
  | sync => exact ⟨le_rfl, hW⟩
  | main hmove =>
      generalize hmain : s.main = pc at hmove
      rw [hmain] at h
      cases hmove with
      | crash => rw [← hmain] at h; exact h
      | stealAccess | stole | enterSteal | beginStolen => exact h
      | @stealFailed ix => exact targetIx_bounds hW ix
      | _ => trivial
  | @stolenEnds ix => exact targetIx_bounds hW ix
  | @worker ix ctx effect =>
      rw [apply_main]
      exact h
  | workerEnds => exact h

structure Sound (workerCount n : ℕ) (s : Engine (atomicQueues τ π)) : Prop where
  queues : ∀ ix, QueueOk n (s.workers ix)
  scan : ScanIx workerCount s.main

/-- The step moves entries and neither makes nor drops one. -/
structure Moves (workerCount n : ℕ) (s s' : Engine (atomicQueues τ π)) : Prop where
  queues : ∀ ix, QueueOk n (s'.workers ix)
  entries : s'.allEntries workerCount = s.allEntries workerCount

/-- A step that touches no worker. -/
theorem Moves.of_main {s s' : Engine (atomicQueues τ π)} (hq : ∀ ix, QueueOk n (s.workers ix))
    (hworkers : s'.workers = s.workers)
    (hmain : (s'.finished : Multiset (Entry τ π)) + s'.main.entries = s.finished + s.main.entries) :
    Moves workerCount n s s' :=
  ⟨fun ix => hworkers ▸ hq ix, by rw [allEntries, allEntries, hmain, overWorkers_congr hworkers]⟩

/-- A step that touches one worker: what the main thread and this worker have together stays. -/
theorem Moves.of_setWorker {s s' : Engine (atomicQueues τ π)} {ix : ℕ}
    {ctx : WorkerExecutionContext (atomicQueues τ π)} (hq : ∀ ix, QueueOk n (s.workers ix))
    (h1 : 1 ≤ ix) (h2 : ix ≤ workerCount) (hworkers : s'.workers = (s.setWorker ix ctx).workers)
    (hctx : QueueOk n ctx)
    (hbalance : (s'.finished : Multiset (Entry τ π)) + s'.main.entries + ctx.entries =
      s.finished + s.main.entries + (s.workers ix).entries) : Moves workerCount n s s' := by
  refine ⟨fun j => hworkers ▸ forall_setWorker (P := fun _ c => QueueOk n c) hctx
    (fun j _ => hq j) j, ?_⟩
  have hsum := overWorkers_setWorker (fun c => (c.entries : Multiset (Entry τ π))) s h1 h2 ctx
  rw [allEntries, allEntries, overWorkers_congr hworkers]
  apply add_right_cancel (b := ((s.workers ix).entries : Multiset (Entry τ π)))
  rw [add_assoc, hsum, ← add_assoc, add_right_comm, hbalance]
  abel

/-- An entry goes from the head of one list to the end of another. -/
theorem appended_balance (finished rest taken held : List (Entry τ π)) (e : Entry τ π) :
    (finished : Multiset (Entry τ π)) + rest + ((taken ++ (held ++ [e]) : List (Entry τ π))) =
      finished + ((e :: rest : List (Entry τ π))) + ((taken ++ held : List (Entry τ π))) := by
  simp only [← Multiset.coe_add, ← Multiset.cons_coe, ← Multiset.singleton_add, Multiset.coe_nil]
  abel

/-- A worker takes an entry out of its queue, and keeps the others. -/
theorem QueueOk.moves {ctx ctx' : WorkerExecutionContext (atomicQueues τ π)} {effect : SharedEffect}
    (h : QueueOk n ctx) (hmove : WorkerMove ctx ctx.pc ctx' effect) :
    QueueOk n ctx' ∧ (ctx'.entries : Multiset (Entry τ π)) = ctx.entries := by
  refine ⟨(h.worker hmove).1, ?_⟩
  obtain ⟨queue, arena, semaphore, asleep, close, pc⟩ := ctx
  cases hmove with
  | popAccess hpop => exact (QueueModel.atomic_pop_returns hpop).elim
  | @popped fr q e hpop =>
      obtain ⟨-, hsplit⟩ := pop_held h (QueueModel.atomic_pop hpop)
      have hheld : queue.held = q.held ++ [e] := hsplit
      simp only [WorkerExecutionContext.entries, WorkerPc.taken, List.nil_append, hheld]
      exact Multiset.coe_eq_coe.mpr (List.perm_append_comm)
  | @popFailed fr q hpop =>
      obtain ⟨rfl, -⟩ := TaskQueue.pop_none (QueueModel.atomic_pop hpop)
      rfl
  | _ => rfl

theorem Moves.main {s s' : Engine (atomicQueues τ π)} (hW : 1 ≤ workerCount)
    (h : Sound workerCount n s) (hg : RoomToPush workerCount s .main)
    (hmove : MainMove workerCount asserts s s.main s') :
    Moves workerCount n s s' := by
  obtain ⟨hq, hscan⟩ := h
  generalize hmain : s.main = pc at hmove
  cases hmove with
  | pushAccess hpush => exact (QueueModel.atomic_push_returns hpush).elim
  | stealAccess hsteal => exact (QueueModel.atomic_steal_returns hsteal).elim
  | crash => exact .of_main hq rfl rfl
  | @pushInline i rest p e q hpush =>
      -- the ring never holds more than `size` entries
      obtain ⟨-, -, hfull⟩ := TaskQueue.push_inline (QueueModel.atomic_push hpush)
      have hrep : TaskQueue.Represents n _ _ := hq (targetIx workerCount i)
      have hw := hrep.window
      have hfits := hrep.fits
      have hs := hrep.size
      omega
  | @pushed i rest p q hpush =>
      have hroom : (s.workers (targetIx workerCount i)).taskQueue.bottom -
          (s.workers (targetIx workerCount i)).taskQueue.top ≠
          (s.workers (targetIx workerCount i)).taskQueue.size := by
        simpa only [RoomToPush, hmain] using hg
      obtain ⟨hok, hsplit⟩ := push_held (hq _) hroom (QueueModel.atomic_push hpush)
      obtain ⟨h1, h2⟩ := targetIx_bounds hW i
      have hctx : QueueOk n { s.workers (targetIx workerCount i) with taskQueue := q } := hok
      refine .of_setWorker hq h1 h2 ?_ hctx ?_
      · rfl
      · have hmine : s.main.entries = (p : Entry τ π) :: rest := by rw [hmain]; rfl
        rw [hmine]
        simp only [WorkerExecutionContext.entries, hsplit]
        exact appended_balance s.finished rest _ _ p
  | @stole ix empties fr e q hsteal =>
      simp only [ScanIx, hmain] at hscan
      obtain ⟨hok, hsplit⟩ := steal_held (hq ix) (QueueModel.atomic_steal hsteal)
      have hctx : QueueOk n { s.workers ix with taskQueue := q } := hok
      refine .of_setWorker hq hscan.1 hscan.2 ?_ hctx ?_
      · rfl
      · simp only [setQueue, setWorker, hmain, MainPc.entries, WorkerExecutionContext.entries, hsplit,
          ← Multiset.coe_add, ← Multiset.cons_coe, ← Multiset.singleton_add, Multiset.coe_nil]
        abel
  | @stealFailed ix empties fr q hsteal =>
      obtain ⟨rfl, -⟩ := TaskQueue.steal_none (QueueModel.atomic_steal hsteal)
      rw [setQueue_taskQueue]
      exact .of_main hq rfl (by simp only [hmain, MainPc.entries])
  | signal i rest =>
      obtain ⟨h1, h2⟩ := targetIx_bounds hW i
      have hctx : QueueOk n { s.workers (targetIx workerCount i) with
          sleepSemaphore := min ((s.workers (targetIx workerCount i)).sleepSemaphore + 1) 1000000 } :=
        hq (targetIx workerCount i)
      refine .of_setWorker hq h1 h2 ?_ hctx ?_
      · rfl
      · simp only [signalSemaphore, setWorker, hmain, MainPc.entries, WorkerExecutionContext.entries]
  | enterPush i e rest => exact .of_main hq rfl (by rw [hmain]; rfl)
  | _ => exact .of_main hq rfl (by simp only [hmain, MainPc.entries])

/-- What a move adds to the entries. -/
def newEntries (s : Engine (atomicQueues τ π)) : EngineMove τ π → List (Entry τ π)
  | .batch tasks => s.submit tasks
  | _ => []

theorem Moves.added {s s' : Engine (atomicQueues τ π)} {move : EngineMove τ π}
    (h : Moves workerCount n s s') (hnew : s.newEntries move = []) :
    (∀ ix, QueueOk n (s'.workers ix)) ∧
      s'.allEntries workerCount = s.allEntries workerCount + s.newEntries move :=
  ⟨h.queues, by rw [hnew, Multiset.coe_nil, add_zero]; exact h.entries⟩

theorem Sound.moves {s s' : Engine (atomicQueues τ π)} {move : EngineMove τ π} (hW : 1 ≤ workerCount)
    (h : Sound workerCount n s) (hg : RoomToPush workerCount s move)
    (hn : (machine _ workerCount asserts).next s move = some s') :
    (∀ ix, QueueOk n (s'.workers ix)) ∧
      s'.allEntries workerCount = s.allEntries workerCount + s.newEntries move := by
  have hq := h.queues
  cases (next_step hn).2 with
  | workerGone | taskGone => exact Moves.added (.of_main hq rfl rfl) rfl
  | batch tasks hidle =>
      refine ⟨hq, ?_⟩
      have hnew : (s.beginBatch tasks).main.entries = s.submit tasks := rfl
      have hsum : (s.beginBatch tasks).overWorkers workerCount
          (fun ctx => (ctx.entries : Multiset (Entry τ π))) = _ := overWorkers_congr (s := s) rfl
      have hfinished : (s.beginBatch tasks).finished = s.finished := rfl
      rw [allEntries, allEntries, idle_entries hidle, hnew, hsum, hfinished, newEntries,
        Multiset.coe_nil]
      abel
  | sync hidle =>
      exact Moves.added (.of_main hq rfl (by rw [idle_entries hidle]; rfl)) rfl
  | shutdown hidle =>
      exact Moves.added (.of_main hq rfl (by rw [idle_entries hidle]; rfl)) rfl
  | main hmove => exact (Moves.main hW h hg hmove).added rfl
  | inlineEnds arena hmain =>
      refine Moves.added (.of_main hq rfl ?_) rfl
      simp only [hmain, MainPc.entries, ← Multiset.cons_coe, ← Multiset.singleton_add]
      abel
  | stolenEnds arena hmain =>
      refine Moves.added (.of_main hq rfl ?_) rfl
      simp only [hmain, MainPc.entries, ← Multiset.cons_coe, ← Multiset.singleton_add,
        Multiset.coe_nil]
      abel
  | @worker ix ctx effect h1 h2 hmove =>
      obtain ⟨hok, hentries⟩ := (hq ix).moves hmove
      obtain ⟨-, hfinished⟩ := apply_ghosts (s.setWorker ix ctx) effect
      refine Moves.added (.of_setWorker hq h1 h2 (apply_workers _ effect) hok ?_) rfl
      rw [hfinished, apply_main (s.setWorker ix ctx) effect, hentries]
      rfl
  | @workerEnds ix e arena h1 h2 hpc =>
      have hctx : QueueOk n { s.workers ix with transientArena := arena, pc := .decrement } := hq ix
      refine Moves.added (.of_setWorker hq h1 h2 ?_ hctx ?_) rfl
      · rfl
      · simp only [setWorker, WorkerExecutionContext.entries, WorkerPc.taken, hpc,
          ← Multiset.cons_coe, ← Multiset.singleton_add, ← Multiset.coe_add, Multiset.coe_nil]
        abel

theorem Sound.step {s s' : Engine (atomicQueues τ π)} {move : EngineMove τ π} (hW : 1 ≤ workerCount)
    (h : Sound workerCount n s) (hg : RoomToPush workerCount s move)
    (hn : (machine _ workerCount asserts).next s move = some s') :
    Sound workerCount n s' ∧
      s'.allEntries workerCount = s.allEntries workerCount + s.newEntries move :=
  ⟨⟨(h.moves hW hg hn).1, h.scan.next hW hn⟩, (h.moves hW hg hn).2⟩

/-! ### A run -/

theorem next_submitted {s s' : Engine (atomicQueues τ π)} {move : EngineMove τ π}
    (hn : (machine _ workerCount asserts).next s move = some s') (moves : List (EngineMove τ π)) :
    submittedBy s.submitted (move :: moves) =
      s.newEntries move ++ submittedBy s'.submitted moves := by
  cases (next_step hn).2 with
  | main hmove =>
      obtain ⟨-, hsubmitted, -⟩ := hmove.counts
      rw [hsubmitted]
      rfl
  | @worker ix ctx effect h1 h2 hmove =>
      obtain ⟨hsubmitted, -⟩ := apply_ghosts (s.setWorker ix ctx) effect
      rw [hsubmitted]
      rfl
  | _ => rfl

theorem Sound.run {s s' : Engine (atomicQueues τ π)} (hW : 1 ≤ workerCount)
    (moves : List (EngineMove τ π)) (h : (machine _ workerCount asserts).exec s moves = some s')
    (hG : (machine _ workerCount asserts).Obeys (RoomToPush workerCount) s moves)
    (hs : Sound workerCount n s) :
    Sound workerCount n s' ∧ s'.allEntries workerCount =
      s.allEntries workerCount + submittedBy s.submitted moves := by
  induction moves generalizing s with
  | nil =>
      obtain rfl : s = s' := Option.some.inj h
      exact ⟨hs, by rw [submittedBy, Multiset.coe_nil, add_zero]⟩
  | cons move moves ih =>
      obtain ⟨a, hn, ha⟩ := Option.bind_eq_some_iff.mp h
      obtain ⟨hsa, hadd⟩ := hs.step hW hG.1 hn
      obtain ⟨hs', hrest⟩ := ih ha (hG.2 a hn) hsa
      refine ⟨hs', ?_⟩
      rw [hrest, hadd, next_submitted hn, ← Multiset.coe_add, add_assoc]

theorem start_sound (k : ℕ) (slots : ℕ → Cells (TaskRef τ) (Option π)) (p : DependencyCounterPtr)
    (arenas : ℕ → ThreadArena) :
    Sound workerCount (2 ^ k) (start k slots p arenas : Engine (atomicQueues τ π)) where
  queues ix := represents_held (TaskQueue.ofCells_represents k (slots ix) p)
  scan := trivial

theorem start_allEntries (k : ℕ) (slots : ℕ → Cells (TaskRef τ) (Option π))
    (p : DependencyCounterPtr) (arenas : ℕ → ThreadArena) :
    (start k slots p arenas : Engine (atomicQueues τ π)).allEntries workerCount = 0 := by
  have hheld : ∀ ix, (TaskQueue.ofCells k (slots ix) p).held = [] := fun ix =>
    (TaskQueue.ofCells_represents k (slots ix) p).held
  simp [allEntries, overWorkers, start, MainPc.entries, WorkerExecutionContext.entries,
    WorkerPc.taken, hheld]

/-- Submissions are numbered apart, so no part of them holds a number twice. -/
theorem serials_nodup {l : List (Entry τ π)} {moves : List (EngineMove τ π)}
    (h : (l : Multiset (Entry τ π)) ≤ submittedBy 0 moves) :
    (l.map fun e => e.1.serial).Nodup := by
  obtain ⟨count, hserials⟩ := submittedBy_serials 0 moves
  have hmap : ((l.map fun e => e.1.serial : List ℕ) : Multiset ℕ) ≤
      (submittedBy 0 moves).map fun e => e.1.serial :=
    Multiset.map_le_map (f := fun e : Entry τ π => e.1.serial) h
  rw [hserials] at hmap
  exact Multiset.coe_nodup.mp (Multiset.nodup_of_le hmap (Multiset.coe_nodup.mpr List.nodup_range'))

theorem finished_le_allEntries (workerCount : ℕ) (s : Engine (atomicQueues τ π)) :
    (s.finished : Multiset (Entry τ π)) ≤ s.allEntries workerCount := by
  rw [allEntries, add_assoc]
  exact Multiset.le_add_right _ _

/-- The submitted entries are those that are anywhere. -/
theorem allEntries_eq (hW : 1 ≤ workerCount) (k : ℕ) (slots : ℕ → Cells (TaskRef τ) (Option π))
    (p : DependencyCounterPtr) (arenas : ℕ → ThreadArena) (moves : List (EngineMove τ π))
    {s : Engine (atomicQueues τ π)}
    (h : (machine _ workerCount asserts).exec (start k slots p arenas) moves = some s)
    (hG : (machine _ workerCount asserts).Obeys (RoomToPush workerCount) (start k slots p arenas)
      moves) : s.allEntries workerCount = submittedBy 0 moves := by
  obtain ⟨-, hrun⟩ := (start_sound k slots p arenas).run hW moves h hG
  rw [start_allEntries, zero_add] at hrun
  exact hrun

theorem finished_nodup (hW : 1 ≤ workerCount) (k : ℕ) (slots : ℕ → Cells (TaskRef τ) (Option π))
    (p : DependencyCounterPtr) (arenas : ℕ → ThreadArena) (moves : List (EngineMove τ π))
    {s : Engine (atomicQueues τ π)}
    (h : (machine _ workerCount asserts).exec (start k slots p arenas) moves = some s)
    (hG : (machine _ workerCount asserts).Obeys (RoomToPush workerCount) (start k slots p arenas)
      moves) : (s.finished.map fun e => e.1.serial).Nodup :=
  serials_nodup (allEntries_eq hW k slots p arenas moves h hG ▸ finished_le_allEntries workerCount s)

/-- At every point of every interleaving the tasks submitted so far are, each of them once, finished,
with the main thread, with a worker or in a queue; none is run to its end twice. -/
theorem each_task_once (workerCount : ℕ) (hW : 1 ≤ workerCount) (asserts : Bool) (k : ℕ)
    (slots : ℕ → Cells (TaskRef τ) (Option π)) (p : DependencyCounterPtr) (arenas : ℕ → ThreadArena)
    (moves : List (EngineMove τ π)) (s : Engine (atomicQueues τ π))
    (h : (machine _ workerCount asserts).exec (start k slots p arenas) moves = some s)
    (hG : (machine _ workerCount asserts).Obeys (RoomToPush workerCount) (start k slots p arenas)
      moves) :
    s.allEntries workerCount = submittedBy 0 moves ∧
      (s.finished.map fun e => e.1.serial).Nodup :=
  ⟨allEntries_eq hW k slots p arenas moves h hG, finished_nodup hW k slots p arenas moves h hG⟩

instance (s : Engine (atomicQueues τ π)) : ∀ move, Decidable (RoomToPush workerCount s move)
  | .main => match hm : s.main with
    | .pushing i rest p =>
        let queue := (s.workers (targetIx workerCount i)).taskQueue
        decidable_of_iff (queue.bottom - queue.top ≠ queue.size) (by simp [RoomToPush, hm, queue])
    | .outside | .synced | .submitting _ _ | .stealing _ _ _ | .inlineReady _ _ _
    | .inlineRunning _ _ _ | .loadAsleep _ _ | .signal _ _ | .syncing _ _ | .stolen _ _
    | .stolenRunning _ _ _ | .joining | .releasing | .closed => isTrue (by simp [RoomToPush, hm])
  | .batch _ | .sync | .shutdown | .mainTaskEnds _ | .worker _ | .workerTaskEnds _ _ => isTrue trivial

/-- Two tasks for one worker: the main thread steals the first while the worker takes the second. -/
def sharedBatch : List (EngineMove Unit Unit) :=
  .batch [((), some ()), ((), none)] :: List.replicate 7 .main ++
    [.sync, .main, .main, .worker 1, .worker 1, .main, .worker 1, .workerTaskEnds 1 ⟨0, 0, 0, 0⟩,
      .mainTaskEnds ⟨0, 0, 0, 0⟩]

def twoCells : Engine (atomicQueues Unit Unit) :=
  start 1 (fun _ => ⟨fun _ => ⟨0, ()⟩, fun _ => none⟩) .null fun _ => ⟨0, 0, 0, 0⟩

def afterShared : Engine (atomicQueues Unit Unit) :=
  ((machine _ 1 true).exec twoCells sharedBatch).getD twoCells

theorem sharedBatch_exec : (machine _ 1 true).exec twoCells sharedBatch = some afterShared := rfl

theorem sharedBatch_room : (machine _ 1 true).Obeys (RoomToPush 1) twoCells sharedBatch := by decide

theorem each_task_once_shared :
    afterShared.finished.length = 2 ∧ afterShared.allEntries 1 = submittedBy 0 sharedBatch ∧
      (afterShared.finished.map fun e => e.1.serial).Nodup :=
  ⟨rfl, each_task_once 1 le_rfl true 1 _ .null _ sharedBatch afterShared sharedBatch_exec
    sharedBatch_room⟩

/-- The main thread steals both tasks and scans the queue twice more. -/
def stolenBatch : List (EngineMove Unit Unit) :=
  [[.batch [((), some ()), ((), some ())]], List.replicate 7 .main, [.sync],
    List.replicate 3 .main, [.mainTaskEnds ⟨0, 0, 64#64, 0⟩], List.replicate 3 .main,
    [.mainTaskEnds ⟨0, 0, 128#64, 0⟩], List.replicate 5 .main].flatten

end Engine
end ProjectDelta
