import ProjectDelta.Engine

/-!
# Waking a sleeping worker

A worker whose pop failed stores `isAsleep` two steps later. A push that falls in
between finds the flag down and sends no signal; the worker then waits with work
in its queue. `FlagSettled` keeps the main thread from reading the flag of a
worker in that gap. Under it, work for a worker that waits always comes with a
signal, sent or about to be sent.
-/

namespace ProjectDelta

variable {τ π : Type}

namespace WorkerExecutionContext

variable {Q : EngineQueues τ π}

/-- The pop has failed and the flag is still down. -/
def Drowsy (ctx : WorkerExecutionContext Q) : Prop := match ctx.pc with
  | .resetArena | .storeAsleep => True
  | _ => False

instance (ctx : WorkerExecutionContext Q) : Decidable ctx.Drowsy := match ctx with
  | ⟨_, _, _, _, _, .resetArena⟩ | ⟨_, _, _, _, _, .storeAsleep⟩ => isTrue trivial
  | ⟨_, _, _, _, _, .checkClose⟩ | ⟨_, _, _, _, _, .popping _⟩ | ⟨_, _, _, _, _, .ready _⟩
  | ⟨_, _, _, _, _, .running _⟩ | ⟨_, _, _, _, _, .decrement⟩ | ⟨_, _, _, _, _, .recheckClose⟩
  | ⟨_, _, _, _, _, .wait⟩ | ⟨_, _, _, _, _, .storeAwake⟩ | ⟨_, _, _, _, _, .left⟩ => isFalse id

/-- The flag is up and the semaphore is still to be waited for. -/
def Dozing (ctx : WorkerExecutionContext Q) : Prop := match ctx.pc with
  | .recheckClose | .wait => True
  | _ => False

end WorkerExecutionContext

namespace Engine

variable {workerCount : ℕ} {asserts : Bool}

/-- The main thread is about to read the flag of worker `ix`. -/
def LoadsAsleep (workerCount : ℕ) (pc : MainPc (atomicQueues τ π)) (ix : ℕ) : Prop :=
  match pc with
  | .loadAsleep i _ => targetIx workerCount i = ix
  | _ => False

/-- The main thread is about to signal worker `ix`. -/
def Signals (workerCount : ℕ) (pc : MainPc (atomicQueues τ π)) (ix : ℕ) : Prop :=
  match pc with
  | .signal i _ => targetIx workerCount i = ix
  | _ => False

/-- The flag is not read while its worker is between the failed pop and the store of the flag,
with work in its queue. -/
def FlagSettled (workerCount : ℕ) (s : Engine (atomicQueues τ π)) : EngineMove τ π → Prop
  | .main => match s.main with
    | .loadAsleep i _ =>
        ¬ ((s.workers (targetIx workerCount i)).Drowsy ∧ (s.workers (targetIx workerCount i)).HasWork)
    | _ => True
  | _ => True

/-- A worker waits for a signal that nobody is about to send, with work in its queue. -/
def LostWakeUp (workerCount : ℕ) (s : Engine (atomicQueues τ π)) : Prop :=
  s.inProcessTaskBatch = false ∧ ∃ ix, 1 ≤ ix ∧ ix ≤ workerCount ∧
    (s.workers ix).pc = .wait ∧ (s.workers ix).sleepSemaphore = 0 ∧ (s.workers ix).HasWork

/-! ### The invariant -/

structure WakeOk (ctx : WorkerExecutionContext (atomicQueues τ π)) (loads signals : Prop) : Prop where
  drowsy : ctx.Drowsy → ctx.HasWork → loads
  flag : ctx.Dozing → ctx.isAsleep = true
  woken : ctx.Dozing → ctx.HasWork → 0 < ctx.sleepSemaphore ∨ loads ∨ signals

def WakeInv (workerCount : ℕ) (s : Engine (atomicQueues τ π)) : Prop :=
  ∀ ix, WakeOk (s.workers ix) (LoadsAsleep workerCount s.main ix) (Signals workerCount s.main ix)

theorem WakeOk.awake {ctx : WorkerExecutionContext (atomicQueues τ π)} (hdrowsy : ¬ ctx.Drowsy)
    (hdozing : ¬ ctx.Dozing) (loads signals : Prop) : WakeOk ctx loads signals :=
  ⟨fun h => (hdrowsy h).elim, fun h => (hdozing h).elim, fun h => (hdozing h).elim⟩

theorem WakeOk.mono {ctx ctx' : WorkerExecutionContext (atomicQueues τ π)}
    {loads signals loads' signals' : Prop} (h : WakeOk ctx loads signals) (hpc : ctx'.pc = ctx.pc)
    (hflag : ctx'.isAsleep = ctx.isAsleep) (hsem : ctx.sleepSemaphore ≤ ctx'.sleepSemaphore)
    (hwork : ctx'.HasWork → ctx.HasWork) (hloads : loads → loads') (hsignals : signals → signals') :
    WakeOk ctx' loads' signals' := by
  have hdrowsy : ctx'.Drowsy → ctx.Drowsy := by
    unfold WorkerExecutionContext.Drowsy
    rw [hpc]
    exact id
  have hdozing : ctx'.Dozing → ctx.Dozing := by
    unfold WorkerExecutionContext.Dozing
    rw [hpc]
    exact id
  refine ⟨fun h1 h2 => hloads (h.drowsy (hdrowsy h1) (hwork h2)),
    fun h1 => hflag.trans (h.flag (hdozing h1)), fun h1 h2 => ?_⟩
  rcases h.woken (hdozing h1) (hwork h2) with hpos | hl | hs
  · exact Or.inl (hpos.trans_le hsem)
  · exact Or.inr (Or.inl (hloads hl))
  · exact Or.inr (Or.inr (hsignals hs))

theorem WakeOk.worker {ctx ctx' : WorkerExecutionContext (atomicQueues τ π)} {effect : SharedEffect}
    {loads signals : Prop} (h : WakeOk ctx loads signals) (hmove : WorkerMove ctx ctx.pc ctx' effect) :
    WakeOk ctx' loads signals := by
  obtain ⟨queue, arena, semaphore, asleep, close, pc⟩ := ctx
  cases hmove with
  | @popFailed fr q hpop =>
      obtain ⟨rfl, hempty⟩ := TaskQueue.pop_none (QueueModel.atomic_pop hpop)
      have hidle : ¬ q.top < q.bottom := not_lt.mpr hempty
      exact ⟨fun _ hwork => (hidle hwork).elim, False.elim, False.elim⟩
  | reset => exact ⟨fun _ hwork => h.drowsy trivial hwork, False.elim, False.elim⟩
  | fallAsleep =>
      exact ⟨False.elim, fun _ => rfl, fun _ hwork => Or.inr (Or.inl (h.drowsy trivial hwork))⟩
  | goWait hopen => exact ⟨False.elim, fun _ => h.flag trivial, fun _ hwork => h.woken trivial hwork⟩
  | decrementNull hptr => exact h
  | _ => exact .awake id id loads signals

/-- The main thread neither reads a flag nor signals, before and after the step, and a queue
only loses work. -/
theorem WakeInv.of_quiet {s s' : Engine (atomicQueues τ π)} (h : WakeInv workerCount s)
    (hquiet : ∀ ix, ¬ LoadsAsleep workerCount s.main ix ∧ ¬ Signals workerCount s.main ix)
    (hworkers : ∀ ix, (s'.workers ix).pc = (s.workers ix).pc ∧
      (s'.workers ix).isAsleep = (s.workers ix).isAsleep ∧
      (s'.workers ix).sleepSemaphore = (s.workers ix).sleepSemaphore ∧
      ((s'.workers ix).HasWork → (s.workers ix).HasWork)) : WakeInv workerCount s' := by
  intro ix
  obtain ⟨hpc, hflag, hsem, hwork⟩ := hworkers ix
  exact (h ix).mono hpc hflag hsem.ge hwork (fun hl => ((hquiet ix).1 hl).elim)
    fun hs => ((hquiet ix).2 hs).elim

theorem setQueue_fields (s : Engine (atomicQueues τ π)) (ix : ℕ)
    {q : TaskQueue (Cells (TaskRef τ) (Option π))}
    (hq : q.top < q.bottom → (s.workers ix).HasWork) (j : ℕ) :
    ((s.setQueue ix q).workers j).pc = (s.workers j).pc ∧
      ((s.setQueue ix q).workers j).isAsleep = (s.workers j).isAsleep ∧
      ((s.setQueue ix q).workers j).sleepSemaphore = (s.workers j).sleepSemaphore ∧
      (((s.setQueue ix q).workers j).HasWork → (s.workers j).HasWork) := by
  refine forall_setWorker (P := fun j c => c.pc = (s.workers j).pc ∧
    c.isAsleep = (s.workers j).isAsleep ∧ c.sleepSemaphore = (s.workers j).sleepSemaphore ∧
    (c.HasWork → (s.workers j).HasWork)) ?_ (fun _ _ => ⟨rfl, rfl, rfl, id⟩) j
  exact ⟨rfl, rfl, rfl, hq⟩

/-- A step that touches only the worker the main thread is at. -/
theorem WakeInv.of_target {s s' : Engine (atomicQueues τ π)} (h : WakeInv workerCount s) (i : ℕ)
    (hothers : ∀ ix, targetIx workerCount i ≠ ix → s'.workers ix = s.workers ix ∧
      ¬ LoadsAsleep workerCount s.main ix ∧ ¬ Signals workerCount s.main ix)
    (htarget : WakeOk (s'.workers (targetIx workerCount i))
      (LoadsAsleep workerCount s'.main (targetIx workerCount i))
      (Signals workerCount s'.main (targetIx workerCount i))) : WakeInv workerCount s' := by
  intro ix
  by_cases hix : targetIx workerCount i = ix
  · exact hix ▸ htarget
  · obtain ⟨hsame, hloads, hsignals⟩ := hothers ix hix
    rw [hsame]
    exact (h ix).mono rfl rfl le_rfl id (fun hl => (hloads hl).elim) fun hs => (hsignals hs).elim

theorem WakeInv.main {s s' : Engine (atomicQueues τ π)} (h : WakeInv workerCount s)
    (hg : FlagSettled workerCount s .main) (hmove : MainMove workerCount asserts s s.main s') :
    WakeInv workerCount s' := by
  generalize hmain : s.main = pc at hmove
  cases hmove with
  | crash => exact h
  | @pushAccess i rest p fr q hpush => exact (QueueModel.atomic_push_returns hpush).elim
  | @stealAccess workerIx empties u fr q hsteal => exact (QueueModel.atomic_steal_returns hsteal).elim
  | @pushed i rest p q hpush =>
      have hold := h (targetIx workerCount i)
      apply h.of_target i
      · intro ix hix
        refine ⟨s.setWorker_ne _ (Ne.symm hix), ?_⟩
        simp [hmain, LoadsAsleep, Signals]
      · change WakeOk ((s.setQueue (targetIx workerCount i) q).workers (targetIx workerCount i)) _ _
        rw [setQueue, setWorker_self]
        exact ⟨fun _ _ => rfl, hold.flag, fun _ _ => Or.inr (Or.inl rfl)⟩
  | @pushInline i rest p e q hpush =>
      obtain ⟨rfl, -, -⟩ := TaskQueue.push_inline (QueueModel.atomic_push hpush)
      exact h.of_quiet (by simp [hmain, LoadsAsleep, Signals]) (s.setQueue_fields _ id)
  | @stole workerIx empties fr e q hsteal =>
      exact h.of_quiet (by simp [hmain, LoadsAsleep, Signals])
        (s.setQueue_fields _ (TaskQueue.steal_work (QueueModel.atomic_steal hsteal)))
  | @stealFailed workerIx empties fr q hsteal =>
      exact h.of_quiet (by simp [hmain, LoadsAsleep, Signals])
        (s.setQueue_fields _ (TaskQueue.steal_work (QueueModel.atomic_steal hsteal)))
  | @asleep i rest hasleep =>
      have hsettled : ¬ ((s.workers (targetIx workerCount i)).Drowsy ∧
          (s.workers (targetIx workerCount i)).HasWork) := by simpa [FlagSettled, hmain] using hg
      have hold := h (targetIx workerCount i)
      apply h.of_target i
      · intro ix hix
        exact ⟨rfl, by simpa [hmain, LoadsAsleep] using hix, by simp [hmain, Signals]⟩
      · exact ⟨fun h1 h2 => (hsettled ⟨h1, h2⟩).elim, hold.flag, fun _ _ => Or.inr (Or.inr rfl)⟩
  | @awake i rest hawake =>
      have hsettled : ¬ ((s.workers (targetIx workerCount i)).Drowsy ∧
          (s.workers (targetIx workerCount i)).HasWork) := by simpa [FlagSettled, hmain] using hg
      have hold := h (targetIx workerCount i)
      have hdozing : ¬ (s.workers (targetIx workerCount i)).Dozing := by
        intro hd
        rw [hold.flag hd] at hawake
        cases hawake
      apply h.of_target i
      · intro ix hix
        exact ⟨rfl, by simpa [hmain, LoadsAsleep] using hix, by simp [hmain, Signals]⟩
      · exact ⟨fun h1 h2 => (hsettled ⟨h1, h2⟩).elim, fun h1 => (hdozing h1).elim,
          fun h1 => (hdozing h1).elim⟩
  | signal i rest =>
      have hold := h (targetIx workerCount i)
      rw [hmain] at hold
      apply h.of_target i
      · intro ix hix
        exact ⟨s.setWorker_ne _ (Ne.symm hix), by simp [hmain, LoadsAsleep],
          by simpa [hmain, Signals] using hix⟩
      · change WakeOk ((s.signalSemaphore (targetIx workerCount i)).workers (targetIx workerCount i)) _ _
        rw [signalSemaphore, setWorker_self]
        refine ⟨fun h1 h2 => (hold.drowsy h1 h2).elim, hold.flag, fun _ _ => Or.inl ?_⟩
        exact lt_min (Nat.succ_pos _) (by omega)
  | _ =>
      exact h.of_quiet (by simp [hmain, LoadsAsleep, Signals]) fun ix => ⟨rfl, rfl, rfl, id⟩

theorem idle_quiet {s : Engine (atomicQueues τ π)} (h : s.idle = true) (ix : ℕ) :
    ¬ LoadsAsleep workerCount s.main ix ∧ ¬ Signals workerCount s.main ix := by
  unfold idle at h
  cases hmain : s.main <;> simp_all [LoadsAsleep, Signals]

/-- A step of one worker. -/
theorem WakeInv.of_worker {s s' : Engine (atomicQueues τ π)} (h : WakeInv workerCount s) (ix : ℕ)
    (hmain : s'.main = s.main) (hothers : ∀ j, j ≠ ix → s'.workers j = s.workers j)
    (hix : WakeOk (s'.workers ix) (LoadsAsleep workerCount s.main ix)
      (Signals workerCount s.main ix)) : WakeInv workerCount s' := by
  intro j
  rw [hmain]
  by_cases hj : j = ix
  · exact hj ▸ hix
  · rw [hothers j hj]
    exact h j

theorem WakeInv.step (s : Engine (atomicQueues τ π)) (move : EngineMove τ π)
    (s' : Engine (atomicQueues τ π)) (h : WakeInv workerCount s)
    (hg : FlagSettled workerCount s move)
    (hn : (machine _ workerCount asserts).next s move = some s') : WakeInv workerCount s' := by
  cases (next_step hn).2 with
  | workerGone | taskGone => exact h
  | batch tasks hidle => exact h.of_quiet (idle_quiet hidle) fun ix => ⟨rfl, rfl, rfl, id⟩
  | sync hidle => exact h.of_quiet (idle_quiet hidle) fun ix => ⟨rfl, rfl, rfl, id⟩
  | shutdown hidle => exact h.of_quiet (idle_quiet hidle) fun ix => ⟨rfl, rfl, rfl, id⟩
  | main hmove => exact h.main hg hmove
  | inlineEnds arena hmain =>
      exact h.of_quiet (by simp [hmain, LoadsAsleep, Signals]) fun ix => ⟨rfl, rfl, rfl, id⟩
  | stolenEnds arena hmain =>
      exact h.of_quiet (by simp [hmain, LoadsAsleep, Signals]) fun ix => ⟨rfl, rfl, rfl, id⟩
  | @worker ix ctx effect h1 h2 hmove =>
      apply h.of_worker ix (apply_main (s.setWorker ix ctx) effect)
      · intro j hj
        rw [apply_workers, setWorker_ne s ctx hj]
      · rw [apply_workers, setWorker_self]
        exact (h ix).worker hmove
  | @workerEnds ix e arena h1 h2 hpc =>
      have hothers : ∀ j, j ≠ ix → (s.setWorker ix { s.workers ix with
          transientArena := arena, pc := .decrement }).workers j = s.workers j :=
        fun j hj => s.setWorker_ne _ hj
      refine h.of_worker ix ?_ hothers ?_
      · rfl
      · rw [setWorker_self]
        exact .awake id id _ _

theorem start_wakeInv (k : ℕ) (slots : ℕ → Cells (TaskRef τ) (Option π)) (p : DependencyCounterPtr)
    (arenas : ℕ → ThreadArena) :
    WakeInv workerCount (start k slots p arenas : Engine (atomicQueues τ π)) :=
  fun _ => .awake id id _ _

theorem WakeInv.not_lost {s : Engine (atomicQueues τ π)} (h : WakeInv workerCount s) :
    ¬ LostWakeUp workerCount s := by
  rintro ⟨hmain, ix, -, -, hpc, hsem, hwork⟩
  have hdozing : (s.workers ix).Dozing := by rw [WorkerExecutionContext.Dozing, hpc]; trivial
  rcases (h ix).woken hdozing hwork with hpos | hloads | hsignals
  · omega
  · unfold inProcessTaskBatch at hmain
    unfold LoadsAsleep at hloads
    cases hm : s.main <;> simp [hm] at hmain hloads
  · unfold inProcessTaskBatch at hmain
    unfold Signals at hsignals
    cases hm : s.main <;> simp [hm] at hmain hsignals

/-- No wake-up is lost, in every run in which flags are read settled. -/
theorem no_lost_wakeUp (workerCount : ℕ) (asserts : Bool) (k : ℕ)
    (slots : ℕ → Cells (TaskRef τ) (Option π)) (p : DependencyCounterPtr) (arenas : ℕ → ThreadArena)
    (s : Engine (atomicQueues τ π))
    (hs : (machine _ workerCount asserts).ReachIf (FlagSettled workerCount)
      (start k slots p arenas) s) : ¬ LostWakeUp workerCount s :=
  (hs.invariant WakeInv.step (start_wakeInv k slots p arenas)).not_lost

instance (s : Engine (atomicQueues τ π)) : ∀ move, Decidable (FlagSettled workerCount s move)
  | .main => match hm : s.main with
    | .loadAsleep i rest =>
        decidable_of_iff (¬ ((s.workers (targetIx workerCount i)).Drowsy ∧
          (s.workers (targetIx workerCount i)).HasWork)) (by simp [FlagSettled, hm])
    | .outside | .synced | .submitting _ _ | .pushing _ _ _ | .inlineReady _ _ _
    | .inlineRunning _ _ _ | .signal _ _ | .syncing _ _ | .stealing _ _ _ | .stolen _ _
    | .stolenRunning _ _ _ | .joining | .releasing | .closed =>
        isTrue (by simp [FlagSettled, hm])
  | .batch _ | .sync | .shutdown | .mainTaskEnds _ | .worker _ | .workerTaskEnds _ _ => isTrue trivial

/-- The worker is asleep before the batch comes, and the batch signals it. -/
def batchForSleeper : List (EngineMove Unit Unit) :=
  List.replicate 5 (.worker 1) ++ .batch [((), some ())] :: List.replicate 5 .main

theorem no_lost_wakeUp_sleeper : ∃ s : Engine (atomicQueues Unit Unit),
    (s.workers 1).pc = .wait ∧ (s.workers 1).sleepSemaphore = 1 ∧ ¬ LostWakeUp 1 s :=
  ⟨((machine _ 1 true).exec (oneWorker _) batchForSleeper).getD (oneWorker _), rfl, rfl,
    no_lost_wakeUp 1 true 0 _ .null _ _ (Machine.reachIf_of_exec batchForSleeper rfl (by decide))⟩

/-- The batch comes between the failed pop and the store of the flag. -/
def batchInGap : List (EngineMove Unit Unit) :=
  [.worker 1, .worker 1, .batch [((), some ())]] ++ List.replicate 4 .main ++
    List.replicate 3 (.worker 1)

theorem wakeUp_lost_in_gap :
    ¬ ∀ s : Engine (atomicQueues Unit Unit),
      (machine _ 1 true).Reach (oneWorker _) s → ¬ LostWakeUp 1 s := by
  intro h
  exact h (((machine _ 1 true).exec (oneWorker _) batchInGap).getD (oneWorker _))
    (Machine.reach_of_exec batchInGap rfl) ⟨rfl, 1, le_rfl, le_rfl, rfl, rfl, by decide⟩

end Engine
end ProjectDelta
