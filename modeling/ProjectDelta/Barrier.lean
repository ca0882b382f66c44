import ProjectDelta.CyclicScan
import ProjectDelta.Engine
import ProjectDelta.QueueRefinement

/-!
# Scheduler_Sync as a barrier

`Scheduler_Sync` returns after `workerCount + 1` failed steals in a row. By then
every queue has been seen empty, and without pushes an empty queue stays empty. But a
task leaves its queue before it runs, so a worker may still be busy with one.
`SyncSettled` asks that nobody is when the last steal fails, and that no push
overwrites an entry. Under it every task submitted so far has finished.
-/

namespace ProjectDelta

variable {τ π : Type}

/-- The entry that a worker has taken out of its queue and not finished. -/
def WorkerPc.taken : WorkerPc (atomicQueues τ π) → List (Entry τ π)
  | .ready e | .running e => [e]
  | _ => []

/-- The entries that the main thread has still to push, is pushing or is running. -/
def MainPc.entries : MainPc (atomicQueues τ π) → List (Entry τ π)
  | .submitting _ rest | .loadAsleep _ rest | .signal _ rest => rest
  | .pushing _ rest p => (p : Entry τ π) :: rest
  | .inlineReady _ rest e | .inlineRunning _ rest e => e :: rest
  | .stolen _ e | .stolenRunning _ e _ => [e]
  | _ => []

/-- The entries of a worker, in its hands or in its queue. -/
def WorkerExecutionContext.entries (ctx : WorkerExecutionContext (atomicQueues τ π)) :
    List (Entry τ π) := ctx.pc.taken ++ ctx.taskQueue.held

namespace Engine

variable {workerCount : ℕ} {asserts : Bool}

/-- Every task of every batch submitted so far has been run to its end. -/
def AllFinished (s : Engine (atomicQueues τ π)) : Prop :=
  ∀ n < s.submitted, ∃ e ∈ s.finished, e.1.serial = n

def NobodyBusy (workerCount : ℕ) (s : Engine (atomicQueues τ π)) : Prop :=
  ∀ ix, 1 ≤ ix → ix ≤ workerCount → (s.workers ix).pc.taken = []

/-- No push is made onto a queue that holds exactly `size` entries, and when the last of
the failed steals in a row fails no worker holds a task. -/
def SyncSettled (workerCount : ℕ) (s : Engine (atomicQueues τ π)) : EngineMove τ π → Prop
  | .main => match s.main with
    | .pushing i _ _ =>
        let queue := (s.workers (targetIx workerCount i)).taskQueue
        queue.bottom - queue.top ≠ queue.size
    | .stealing workerIx empties _ =>
        empties = workerCount → ¬ (s.workers workerIx).HasWork → NobodyBusy workerCount s
    | _ => True
  | _ => True

/-! ### One queue -/

/-- The queue of a worker is a ring that holds at most `n` entries. -/
def QueueOk (n : ℕ) (ctx : WorkerExecutionContext (atomicQueues τ π)) : Prop :=
  ctx.taskQueue.Represents n ctx.taskQueue.held

variable {n : ℕ} {q q' : TaskQueue (Cells (TaskRef τ) (Option π))}

theorem represents_held {l : List (Entry τ π)} (h : q.Represents n l) : q.Represents n q.held := by
  have hl := h.held
  exact hl ▸ h

theorem work_iff_held (h : q.Represents n q.held) : q.top < q.bottom ↔ q.held ≠ [] := by
  have hw := h.window
  rw [ne_eq, ← List.length_eq_zero_iff]
  omega

theorem pop_held {e : Entry τ π} (h : q.Represents n q.held) (hpop : q.pop = (q', some e)) :
    q'.Represents n q'.held ∧ q.held = q'.held ++ [e] := by
  obtain ⟨hout, hrep⟩ := h.pop
  simp only [TaskQueue.perform, hpop] at hout hrep
  have hlast : q.held.getLast? = some e := by simpa using hout.symm
  refine ⟨represents_held hrep, ?_⟩
  rw [hrep.held]
  exact (List.dropLast_append_getLast? e hlast).symm

theorem steal_held {e : Entry τ π} (h : q.Represents n q.held) (hsteal : q.steal = (q', some e)) :
    q'.Represents n q'.held ∧ q.held = e :: q'.held := by
  obtain ⟨hout, hrep⟩ := h.steal
  simp only [TaskQueue.perform, hsteal] at hout hrep
  have hhead : q.held.head? = some e := by simpa using hout.symm
  refine ⟨represents_held hrep, ?_⟩
  rw [hrep.held]
  exact (List.cons_head?_tail hhead).symm

theorem push_held {p : Entry τ π} (h : q.Represents n q.held)
    (hroom : q.bottom - q.top ≠ q.size) (hpush : q.push p.1 p.2 = (q', none)) :
    q'.Represents n q'.held ∧ q'.held = q.held ++ [p] := by
  have hw := h.window
  have hfits := h.fits
  have hs := h.size
  obtain ⟨-, hrep⟩ := h.push p (by omega)
  simp only [TaskQueue.perform, hpush] at hrep
  exact ⟨represents_held hrep, hrep.held⟩

/-! ### No entry is lost -/

theorem setQueue_taskQueue (s : Engine (atomicQueues τ π)) (ix : ℕ) :
    s.setQueue ix (s.workers ix).taskQueue = s := by
  unfold setQueue setWorker
  exact congrArg (fun w => { s with workers := w }) (Function.update_eq_self ix s.workers)

/-- Finished, with the main thread, or with a worker. -/
def Present (workerCount : ℕ) (s : Engine (atomicQueues τ π)) (e : Entry τ π) : Prop :=
  e ∈ s.finished ∨ e ∈ s.main.entries ∨
    ∃ ix, 1 ≤ ix ∧ ix ≤ workerCount ∧ e ∈ (s.workers ix).entries

/-- The queues stay in order and no entry is lost. -/
structure Kept (workerCount n : ℕ) (s s' : Engine (atomicQueues τ π)) : Prop where
  queues : ∀ ix, QueueOk n (s'.workers ix)
  present : ∀ e, Present workerCount s e → Present workerCount s' e

/-- A step that touches no worker. -/
theorem Kept.of_main {s s' : Engine (atomicQueues τ π)} (hq : ∀ ix, QueueOk n (s.workers ix))
    (hworkers : s'.workers = s.workers) (hfinished : ∀ e ∈ s.finished, e ∈ s'.finished)
    (hmain : ∀ e ∈ s.main.entries, e ∈ s'.finished ∨ e ∈ s'.main.entries) :
    Kept workerCount n s s' := by
  refine ⟨fun ix => hworkers ▸ hq ix, fun e he => ?_⟩
  rcases he with hf | hm | hw
  · exact Or.inl (hfinished e hf)
  · rcases hmain e hm with hf | hm'
    · exact Or.inl hf
    · exact Or.inr (Or.inl hm')
  · exact Or.inr (Or.inr (hworkers ▸ hw))

/-- A step that touches one worker. -/
theorem Kept.of_setWorker {s s' : Engine (atomicQueues τ π)} {ix : ℕ}
    {ctx : WorkerExecutionContext (atomicQueues τ π)} (hq : ∀ ix, QueueOk n (s.workers ix))
    (h1 : 1 ≤ ix) (h2 : ix ≤ workerCount) (hworkers : s'.workers = (s.setWorker ix ctx).workers)
    (hctx : QueueOk n ctx) (hfinished : ∀ e ∈ s.finished, e ∈ s'.finished)
    (hmain : ∀ e ∈ s.main.entries, e ∈ s'.main.entries ∨ e ∈ ctx.entries)
    (hix : ∀ e ∈ (s.workers ix).entries,
      e ∈ s'.finished ∨ e ∈ s'.main.entries ∨ e ∈ ctx.entries) :
    Kept workerCount n s s' := by
  have hown : (s'.workers ix) = ctx := by rw [hworkers, setWorker_self]
  refine ⟨fun j => hworkers ▸ forall_setWorker (P := fun _ c => QueueOk n c) hctx
    (fun j _ => hq j) j, fun e he => ?_⟩
  rcases he with hf | hm | ⟨j, hj1, hj2, hw⟩
  · exact Or.inl (hfinished e hf)
  · rcases hmain e hm with hm' | hc
    · exact Or.inr (Or.inl hm')
    · exact Or.inr (Or.inr ⟨ix, h1, h2, hown ▸ hc⟩)
  · by_cases hj : j = ix
    · subst hj
      rcases hix e hw with hf | hm | hc
      · exact Or.inl hf
      · exact Or.inr (Or.inl hm)
      · exact Or.inr (Or.inr ⟨j, h1, h2, hown ▸ hc⟩)
    · refine Or.inr (Or.inr ⟨j, hj1, hj2, ?_⟩)
      rw [hworkers, setWorker_ne s ctx hj]
      exact hw

/-- A worker takes entries out of its queue, and neither loses nor gets one. -/
theorem QueueOk.worker {ctx ctx' : WorkerExecutionContext (atomicQueues τ π)} {effect : SharedEffect}
    (h : QueueOk n ctx) (hmove : WorkerMove ctx ctx.pc ctx' effect) :
    QueueOk n ctx' ∧ (∀ e ∈ ctx.entries, e ∈ ctx'.entries) := by
  obtain ⟨queue, arena, semaphore, asleep, close, pc⟩ := ctx
  cases hmove with
  | popAccess hpop => exact (QueueModel.atomic_pop_returns hpop).elim
  | @popped fr q e hpop =>
      obtain ⟨hok, hsplit⟩ := pop_held h (QueueModel.atomic_pop hpop)
      refine ⟨hok, fun e' he' => ?_⟩
      simp only [WorkerExecutionContext.entries, WorkerPc.taken, List.nil_append] at he' ⊢
      rw [hsplit] at he'
      simpa [or_comm] using he'
  | @popFailed fr q hpop =>
      obtain ⟨rfl, -⟩ := TaskQueue.pop_none (QueueModel.atomic_pop hpop)
      exact ⟨h, fun e' he' => he'⟩
  | _ => exact ⟨h, fun e' he' => he'⟩

/-! ### What the scan has seen -/

/-- The queues visited last are empty, and a finished scan found no worker busy. -/
def ScanOk (workerCount : ℕ) (s : Engine (atomicQueues τ π)) : Prop :=
  match s.main with
  | .syncing ix e => 1 ≤ ix ∧ ix ≤ workerCount ∧
      CyclicScan.Visited workerCount ix e (fun j => ¬ (s.workers j).HasWork) ∧
      (workerCount + 1 ≤ e → NobodyBusy workerCount s)
  | .stealing ix e _ => 1 ≤ ix ∧ ix ≤ workerCount ∧ e ≤ workerCount ∧
      CyclicScan.Visited workerCount ix e (fun j => ¬ (s.workers j).HasWork)
  | .stolen ix _ | .stolenRunning ix _ _ => 1 ≤ ix ∧ ix ≤ workerCount
  | .synced => AllFinished s
  | _ => True

theorem targetIx_bounds (hW : 1 ≤ workerCount) (i : ℕ) :
    1 ≤ targetIx workerCount i ∧ targetIx workerCount i ≤ workerCount :=
  ⟨CyclicScan.one_le_next workerCount i, CyclicScan.next_le hW i⟩

theorem Kept.main {s s' : Engine (atomicQueues τ π)} (hW : 1 ≤ workerCount)
    (hq : ∀ ix, QueueOk n (s.workers ix)) (hscan : ScanOk workerCount s)
    (hg : SyncSettled workerCount s .main) (hmove : MainMove workerCount asserts s s.main s') :
    Kept workerCount n s s' := by
  generalize hmain : s.main = pc at hmove
  cases hmove with
  | pushAccess hpush => exact (QueueModel.atomic_push_returns hpush).elim
  | stealAccess hsteal => exact (QueueModel.atomic_steal_returns hsteal).elim
  | @pushInline i rest p e q hpush =>
      -- the ring never holds more than `size` entries
      obtain ⟨-, -, hfull⟩ := TaskQueue.push_inline (QueueModel.atomic_push hpush)
      have hrep : TaskQueue.Represents n _ _ := hq (targetIx workerCount i)
      have hw := hrep.window
      have hfits := hrep.fits
      have hs := hrep.size
      omega
  | @pushed i rest p q hpush =>
      have hroom : (s.workers (targetIx workerCount i)).taskQueue.bottom -
          (s.workers (targetIx workerCount i)).taskQueue.top ≠
          (s.workers (targetIx workerCount i)).taskQueue.size := by
        simpa only [SyncSettled, hmain] using hg
      obtain ⟨hok, hsplit⟩ := push_held (hq _) hroom (QueueModel.atomic_push hpush)
      obtain ⟨h1, h2⟩ := targetIx_bounds hW i
      have hctx : QueueOk n { s.workers (targetIx workerCount i) with taskQueue := q } := hok
      refine Kept.of_setWorker hq h1 h2 ?_ hctx (fun e he => he) ?_ ?_
      · rfl
      · intro e he
        rw [hmain] at he
        rcases List.mem_cons.mp he with rfl | hrest
        · exact Or.inr (List.mem_append_right _ (hsplit ▸ List.mem_append_right _ (List.mem_singleton_self _)))
        · exact Or.inl hrest
      · intro e he
        rcases List.mem_append.mp he with htaken | hheld
        · exact Or.inr (Or.inr (List.mem_append_left _ htaken))
        · exact Or.inr (Or.inr (List.mem_append_right _ (hsplit ▸ List.mem_append_left _ hheld)))
  | @stole ix empties fr e q hsteal =>
      simp only [ScanOk, hmain] at hscan
      obtain ⟨hok, hsplit⟩ := steal_held (hq ix) (QueueModel.atomic_steal hsteal)
      have hctx : QueueOk n { s.workers ix with taskQueue := q } := hok
      refine Kept.of_setWorker hq hscan.1 hscan.2.1 ?_ hctx (fun e he => he) ?_ ?_
      · rfl
      · intro e' he'
        rw [hmain] at he'
        cases he'
      · intro e' he'
        rcases List.mem_append.mp he' with htaken | hheld
        · exact Or.inr (Or.inr (List.mem_append_left _ htaken))
        · rcases List.mem_cons.mp (hsplit ▸ hheld) with rfl | htail
          · exact Or.inr (Or.inl (List.mem_singleton_self _))
          · exact Or.inr (Or.inr (List.mem_append_right _ htail))
  | @stealFailed ix empties fr q hsteal =>
      obtain ⟨rfl, -⟩ := TaskQueue.steal_none (QueueModel.atomic_steal hsteal)
      rw [setQueue_taskQueue]
      exact .of_main hq rfl (fun e he => he) fun e he => by rw [hmain] at he; cases he
  | signal i rest =>
      obtain ⟨h1, h2⟩ := targetIx_bounds hW i
      have hctx : QueueOk n { s.workers (targetIx workerCount i) with
          sleepSemaphore := min ((s.workers (targetIx workerCount i)).sleepSemaphore + 1) 1000000 } :=
        hq (targetIx workerCount i)
      refine Kept.of_setWorker hq h1 h2 ?_ hctx (fun e he => he) ?_ ?_
      · rfl
      · intro e he
        rw [hmain] at he
        exact Or.inl he
      · exact fun e he => Or.inr (Or.inr he)
  | crash =>
      exact .of_main hq rfl (fun e he => he) fun e he => Or.inr he
  | _ =>
      exact .of_main hq rfl (fun e he => he) fun e he => by rw [hmain] at he; exact Or.inr he

theorem idle_entries {s : Engine (atomicQueues τ π)} (h : s.idle = true) : s.main.entries = [] := by
  unfold idle at h
  unfold MainPc.entries
  cases hmain : s.main <;> simp_all

theorem Kept.next {s s' : Engine (atomicQueues τ π)} {move : EngineMove τ π}
    (hW : 1 ≤ workerCount) (hq : ∀ ix, QueueOk n (s.workers ix)) (hscan : ScanOk workerCount s)
    (hg : SyncSettled workerCount s move)
    (hn : (machine _ workerCount asserts).next s move = some s') : Kept workerCount n s s' := by
  have hidle : s.idle = true → ∀ e ∈ s.main.entries, e ∈ s'.finished ∨ e ∈ s'.main.entries := by
    intro h e he
    rw [idle_entries h] at he
    cases he
  cases (next_step hn).2 with
  | workerGone | taskGone => exact .of_main hq rfl (fun e he => he) fun e he => Or.inr he
  | batch tasks h => exact .of_main hq rfl (fun e he => he) (hidle h)
  | sync h => exact .of_main hq rfl (fun e he => he) (hidle h)
  | shutdown h => exact .of_main hq rfl (fun e he => he) (hidle h)
  | main hmove => exact .main hW hq hscan hg hmove
  | inlineEnds arena hmain =>
      refine .of_main hq rfl (fun e he => List.mem_cons_of_mem _ he) fun e he => ?_
      rw [hmain] at he
      rcases List.mem_cons.mp he with rfl | hrest
      · exact Or.inl List.mem_cons_self
      · exact Or.inr hrest
  | stolenEnds arena hmain =>
      refine .of_main hq rfl (fun e he => List.mem_cons_of_mem _ he) fun e he => ?_
      rw [hmain] at he
      obtain rfl := List.mem_singleton.mp he
      exact Or.inl List.mem_cons_self
  | @worker ix ctx effect h1 h2 hmove =>
      obtain ⟨hok, hentries⟩ := (hq ix).worker hmove
      obtain ⟨-, hfinished⟩ := apply_ghosts (s.setWorker ix ctx) effect
      refine .of_setWorker hq h1 h2 (apply_workers _ effect) hok ?_ ?_ ?_
      · exact fun e he => hfinished ▸ he
      · exact fun e he => Or.inl (apply_main (s.setWorker ix ctx) effect ▸ he)
      · exact fun e he => Or.inr (Or.inr (hentries e he))
  | @workerEnds ix e arena h1 h2 hpc =>
      have hctx : QueueOk n { s.workers ix with transientArena := arena, pc := .decrement } := hq ix
      refine .of_setWorker hq h1 h2 ?_ hctx (fun e he => List.mem_cons_of_mem _ he)
        (fun e he => Or.inl he) ?_
      · rfl
      · intro e' he'
        rw [WorkerExecutionContext.entries, hpc] at he'
        rcases List.mem_cons.mp he' with rfl | hheld
        · exact Or.inl List.mem_cons_self
        · exact Or.inr (Or.inr hheld)

/-- A worker adds nothing to its queue, and comes by a task only through its queue. -/
theorem QueueOk.quiet {ctx ctx' : WorkerExecutionContext (atomicQueues τ π)} {effect : SharedEffect}
    (h : QueueOk n ctx) (hmove : WorkerMove ctx ctx.pc ctx' effect) :
    (ctx'.HasWork → ctx.HasWork) ∧ (ctx.pc.taken = [] → ¬ ctx.HasWork → ctx'.pc.taken = []) := by
  obtain ⟨queue, arena, semaphore, asleep, close, pc⟩ := ctx
  cases hmove with
  | popAccess hpop => exact (QueueModel.atomic_pop_returns hpop).elim
  | @popped fr q e hpop =>
      obtain ⟨-, hsplit⟩ := pop_held h (QueueModel.atomic_pop hpop)
      have hwork : queue.top < queue.bottom := by
        rw [work_iff_held h, hsplit]
        exact List.append_ne_nil_of_right_ne_nil _ (List.cons_ne_nil e [])
      exact ⟨fun _ => hwork, fun _ hidle => (hidle hwork).elim⟩
  | @popFailed fr q hpop =>
      obtain ⟨rfl, -⟩ := TaskQueue.pop_none (QueueModel.atomic_pop hpop)
      exact ⟨id, fun _ _ => rfl⟩
  | begin e => exact ⟨id, fun htaken _ => by cases htaken⟩
  | decrementNull | decrement | goOn | leave | reset | fallAsleep | stayAwake | goWait | wake
    | awake => exact ⟨id, fun _ _ => rfl⟩

/-- A step of a worker: the main thread stays where it is. -/
theorem ScanOk.of_worker {s s' : Engine (atomicQueues τ π)} (h : ScanOk workerCount s)
    (hmain : s'.main = s.main) (hsubmitted : s'.submitted = s.submitted)
    (hfinished : ∀ e ∈ s.finished, e ∈ s'.finished)
    (hwork : ∀ j, (s'.workers j).HasWork → (s.workers j).HasWork)
    (hbusy : ∀ j, (s.workers j).pc.taken = [] → ¬ (s.workers j).HasWork →
      (s'.workers j).pc.taken = []) : ScanOk workerCount s' := by
  unfold ScanOk at h ⊢
  rw [hmain]
  split at h
  · rename_i ix e hpc
    obtain ⟨h1, h2, hvisited, hnobody⟩ := h
    refine ⟨h1, h2, hvisited.mono fun j hj hw => hj (hwork j hw), fun he j hj1 hj2 => ?_⟩
    exact hbusy j (hnobody he j hj1 hj2) (hvisited.all (by omega) h1 h2 hj1 hj2)
  · obtain ⟨h1, h2, he, hvisited⟩ := h
    exact ⟨h1, h2, he, hvisited.mono fun j hj hw => hj (hwork j hw)⟩
  · exact h
  · exact h
  · intro m hm
    obtain ⟨e, he, hserial⟩ := h m (hsubmitted ▸ hm)
    exact ⟨e, hfinished e he, hserial⟩
  · trivial

/-- The queues are rings, every task is finished or held by somebody, and the scan has
seen what it counts. -/
structure BarrierInv (workerCount n : ℕ) (s : Engine (atomicQueues τ π)) : Prop where
  queues : ∀ ix, QueueOk n (s.workers ix)
  located : ∀ m < s.submitted, ∃ e, Present workerCount s e ∧ e.1.serial = m
  scan : ScanOk workerCount s

/-- When the scan is over, every entry is among the finished ones. -/
theorem BarrierInv.allFinished {s : Engine (atomicQueues τ π)} {ix e : ℕ}
    (h : BarrierInv workerCount n s) (hmain : s.main = .syncing ix e)
    (hcount : workerCount + 1 ≤ e) : AllFinished s := by
  obtain ⟨hq, hlocated, hscan⟩ := h
  simp only [ScanOk, hmain] at hscan
  obtain ⟨h1, h2, hvisited, hnobody⟩ := hscan
  intro m hm
  obtain ⟨entry, hpresent, hserial⟩ := hlocated m hm
  rcases hpresent with hf | hmine | ⟨j, hj1, hj2, hw⟩
  · exact ⟨entry, hf, hserial⟩
  · rw [hmain] at hmine
    cases hmine
  · have hempty : ¬ (s.workers j).HasWork := hvisited.all (by omega) h1 h2 hj1 hj2
    have hnil : (s.workers j).taskQueue.held = [] := by
      by_contra hne
      exact hempty ((work_iff_held (hq j)).mpr hne)
    rw [WorkerExecutionContext.entries, hnobody hcount j hj1 hj2, hnil] at hw
    cases hw

theorem ScanOk.main {s s' : Engine (atomicQueues τ π)} (hW : 1 ≤ workerCount)
    (h : BarrierInv workerCount n s) (hg : SyncSettled workerCount s .main)
    (hmove : MainMove workerCount asserts s s.main s') : ScanOk workerCount s' := by
  have hscan := h.scan
  generalize hmain : s.main = pc at hmove
  cases hmove with
  | crash => exact hscan
  | stealAccess hsteal => exact (QueueModel.atomic_steal_returns hsteal).elim
  | @enterSteal ix empties hcount =>
      simp only [ScanOk, hmain] at hscan ⊢
      exact ⟨hscan.1, hscan.2.1, Nat.le_of_lt_succ hcount, hscan.2.2.1⟩
  | @synced ix empties hcount => exact h.allFinished hmain hcount
  | @stole ix empties fr e q hsteal =>
      simp only [ScanOk, hmain] at hscan ⊢
      exact ⟨hscan.1, hscan.2.1⟩
  | @stealFailed ix empties fr q hsteal =>
      obtain ⟨rfl, hempty⟩ := TaskQueue.steal_none (QueueModel.atomic_steal hsteal)
      simp only [SyncSettled, hmain] at hg
      simp only [ScanOk, hmain] at hscan
      rw [setQueue_taskQueue]
      obtain ⟨h1, h2, he, hvisited⟩ := hscan
      obtain ⟨hn1, hn2⟩ := targetIx_bounds hW ix
      have hidle : ¬ (s.workers ix).HasWork := not_lt.mpr hempty
      exact ⟨hn1, hn2, hvisited.visit h1 h2 hidle, fun hlast => hg (by omega) hidle⟩
  | @beginStolen ix e hassert =>
      simp only [ScanOk, hmain] at hscan ⊢
      exact hscan
  | pushAccess | pushInline | pushed | batchDone | enterPush | beginInline | asleep | awake | signal
    | joined | release => trivial

/-! ### The barrier -/

/-- Only a batch submits tasks, and it hands all of them to the main thread. -/
theorem located_next {s s' : Engine (atomicQueues τ π)} {move : EngineMove τ π}
    (h : ∀ m < s.submitted, ∃ e, Present workerCount s e ∧ e.1.serial = m)
    (hpresent : ∀ e, Present workerCount s e → Present workerCount s' e)
    (hn : (machine _ workerCount asserts).next s move = some s') (m : ℕ) (hm : m < s'.submitted) :
    ∃ e, Present workerCount s' e ∧ e.1.serial = m := by
  have hkeep : m < s.submitted → ∃ e, Present workerCount s' e ∧ e.1.serial = m := by
    intro hold
    obtain ⟨e, he, hserial⟩ := h m hold
    exact ⟨e, hpresent e he, hserial⟩
  cases (next_step hn).2 with
  | batch tasks hidle =>
      rcases Nat.lt_or_ge m s.submitted with hold | hnew
      · exact hkeep hold
      · have hlt : m - s.submitted < tasks.length := by
          have : m < s.submitted + tasks.length := hm
          omega
        refine ⟨(⟨s.submitted + (m - s.submitted), (tasks[m - s.submitted]).1⟩,
          (tasks[m - s.submitted]).2), Or.inr (Or.inl ?_), Nat.add_sub_cancel' hnew⟩
        exact List.mem_mapIdx.mpr ⟨m - s.submitted, hlt, rfl⟩
  | main hmove =>
      obtain ⟨-, hsubmitted, -⟩ := hmove.counts
      exact hkeep (hsubmitted ▸ hm)
  | @worker ix ctx effect h1 h2 hmove =>
      obtain ⟨hsubmitted, -⟩ := apply_ghosts (s.setWorker ix ctx) effect
      exact hkeep (hsubmitted ▸ hm)
  | _ => exact hkeep hm

theorem scan_next {s s' : Engine (atomicQueues τ π)} {move : EngineMove τ π}
    (hW : 1 ≤ workerCount) (h : BarrierInv workerCount n s) (hg : SyncSettled workerCount s move)
    (hn : (machine _ workerCount asserts).next s move = some s') : ScanOk workerCount s' := by
  cases (next_step hn).2 with
  | workerGone | taskGone => exact h.scan
  | batch | shutdown | inlineEnds => trivial
  | sync hidle => exact ⟨le_rfl, hW, CyclicScan.visited_zero _ _ _, fun hcount => by omega⟩
  | main hmove => exact .main hW h hg hmove
  | @stolenEnds ix e snapshot arena hmain =>
      obtain ⟨h1, h2⟩ := targetIx_bounds hW ix
      exact ⟨h1, h2, CyclicScan.visited_zero _ _ _, fun hcount => by omega⟩
  | @worker ix ctx effect h1 h2 hmove =>
      obtain ⟨hsubmitted, hfinished⟩ := apply_ghosts (s.setWorker ix ctx) effect
      obtain ⟨hwork, hbusy⟩ := (h.queues ix).quiet hmove
      refine h.scan.of_worker (apply_main _ effect) hsubmitted (fun e he => hfinished ▸ he) ?_ ?_
      all_goals rw [apply_workers]
      · exact forall_setWorker (P := fun j c => c.HasWork → (s.workers j).HasWork) hwork
          fun j _ => id
      · exact forall_setWorker (P := fun j c => (s.workers j).pc.taken = [] →
          ¬ (s.workers j).HasWork → c.pc.taken = []) hbusy fun j _ htaken _ => htaken
  | @workerEnds ix e arena h1 h2 hpc =>
      refine h.scan.of_worker rfl rfl (fun e he => List.mem_cons_of_mem _ he) ?_ ?_
      · exact forall_setWorker (P := fun j c => c.HasWork → (s.workers j).HasWork) id fun j _ => id
      · exact forall_setWorker (P := fun j c => (s.workers j).pc.taken = [] →
          ¬ (s.workers j).HasWork → c.pc.taken = []) (fun _ _ => rfl) fun j _ htaken _ => htaken

theorem BarrierInv.step (hW : 1 ≤ workerCount) (s : Engine (atomicQueues τ π))
    (move : EngineMove τ π) (s' : Engine (atomicQueues τ π)) (h : BarrierInv workerCount n s)
    (hg : SyncSettled workerCount s move)
    (hn : (machine _ workerCount asserts).next s move = some s') : BarrierInv workerCount n s' := by
  obtain ⟨hqueues, hpresent⟩ := Kept.next hW h.queues h.scan hg hn
  exact ⟨hqueues, located_next h.located hpresent hn, scan_next hW h hg hn⟩

theorem start_barrierInv (k : ℕ) (slots : ℕ → Cells (TaskRef τ) (Option π))
    (p : DependencyCounterPtr) (arenas : ℕ → ThreadArena) :
    BarrierInv workerCount (2 ^ k) (start k slots p arenas : Engine (atomicQueues τ π)) where
  queues ix := represents_held (TaskQueue.ofCells_represents k (slots ix) p)
  located m hm := (Nat.not_lt_zero m hm).elim
  scan := trivial

/-- Whenever `Scheduler_Sync` returns, every task submitted before has finished, in every run
in which the scan ends settled. -/
theorem sync_barrier (workerCount : ℕ) (hW : 1 ≤ workerCount) (asserts : Bool) (k : ℕ)
    (slots : ℕ → Cells (TaskRef τ) (Option π)) (p : DependencyCounterPtr) (arenas : ℕ → ThreadArena)
    (s : Engine (atomicQueues τ π))
    (hs : (machine _ workerCount asserts).ReachIf (SyncSettled workerCount)
      (start k slots p arenas) s) (hmain : s.main = .synced) : AllFinished s := by
  have hinv : BarrierInv workerCount (2 ^ k) s :=
    hs.invariant (BarrierInv.step hW) (start_barrierInv k slots p arenas)
  have hscan := hinv.scan
  simpa only [ScanOk, hmain] using hscan

instance (s : Engine (atomicQueues τ π)) : Decidable (NobodyBusy workerCount s) :=
  decidable_of_iff (∀ ix < workerCount + 1, 1 ≤ ix → (s.workers ix).pc.taken = [])
    ⟨fun h ix h1 h2 => h ix (Nat.lt_succ_of_le h2) h1,
      fun h ix h2 h1 => h ix h1 (Nat.le_of_lt_succ h2)⟩

instance (s : Engine (atomicQueues τ π)) : ∀ move, Decidable (SyncSettled workerCount s move)
  | .main => match hm : s.main with
    | .pushing i rest p =>
        let queue := (s.workers (targetIx workerCount i)).taskQueue
        decidable_of_iff (queue.bottom - queue.top ≠ queue.size) (by simp [SyncSettled, hm, queue])
    | .stealing ix empties fr =>
        decidable_of_iff
          (empties = workerCount → ¬ (s.workers ix).HasWork → NobodyBusy workerCount s)
          (by simp [SyncSettled, hm])
    | .outside | .synced | .submitting _ _ | .inlineReady _ _ _ | .inlineRunning _ _ _
    | .loadAsleep _ _ | .signal _ _ | .syncing _ _ | .stolen _ _ | .stolenRunning _ _ _
    | .joining | .releasing | .closed => isTrue (by simp [SyncSettled, hm])
  | .batch _ | .sync | .shutdown | .mainTaskEnds _ | .worker _ | .workerTaskEnds _ _ => isTrue trivial

/-- The worker has ended its task when the scan begins. -/
def syncAfterTask : List (EngineMove Unit Unit) :=
  .batch [((), some ())] :: List.replicate 4 .main ++ List.replicate 3 (.worker 1) ++
    .workerTaskEnds 1 ⟨0, 0, 0, 0⟩ :: .sync :: List.replicate 5 .main

def afterSync : Engine (atomicQueues Unit Unit) :=
  ((machine _ 1 true).exec (oneWorker _) syncAfterTask).getD (oneWorker _)

theorem afterSync_reach : (machine _ 1 true).ReachIf (SyncSettled 1) (oneWorker _) afterSync :=
  Machine.reachIf_of_exec syncAfterTask rfl (by decide)

theorem afterSync_allFinished : afterSync.submitted = 1 ∧ AllFinished afterSync :=
  ⟨rfl, sync_barrier 1 le_rfl true 0 _ .null _ afterSync afterSync_reach rfl⟩

/-- The worker has taken its task and is still running it when the scan begins. -/
def syncDuringTask : List (EngineMove Unit Unit) :=
  .batch [((), some ())] :: List.replicate 4 .main ++ List.replicate 3 (.worker 1) ++
    .sync :: List.replicate 5 .main

theorem sync_returns_during_task :
    ¬ ∀ s : Engine (atomicQueues Unit Unit),
      (machine _ 1 true).Reach (oneWorker _) s → s.main = .synced → AllFinished s := by
  intro h
  obtain ⟨e, he, -⟩ := h (((machine _ 1 true).exec (oneWorker _) syncDuringTask).getD (oneWorker _))
    (Machine.reach_of_exec syncDuringTask rfl) rfl 0 Nat.zero_lt_one
  cases he

end Engine
end ProjectDelta
