import ProjectDelta.AccessSteps

/-!
# The engine, one access at a time

As long as no access of a push falls into a pop of the same worker, nor one of a pop
into a push, each run of single accesses has a run of whole operations with the same
calls of the game and the same task ends that leads to the same state. So what holds
of every such run of whole operations holds of the accesses.
-/

namespace ProjectDelta

variable {τ π : Type}

namespace Engine

variable {workerCount : ℕ} {asserts : Bool} {helped : ℕ → Bool}
  {G : Engine (accessQueues τ π) → EngineMove τ π → Prop}
  {H : Engine (atomicQueues τ π) → EngineMove τ π → Prop}

theorem start_accessesOk (k : ℕ) (slots : ℕ → Cells (TaskRef τ) (Option π)) (p : DependencyCounterPtr)
    (arenas : ℕ → ThreadArena) :
    AccessesOk workerCount (fun _ => false) (start k slots p arenas : Engine (accessQueues τ π)) where
  calls _ := ⟨le_rfl, trivial, trivial, fun hhelped => by cases hhelped⟩
  popper _ _ hfr := by cases hfr
  pool := rfl

/-- A run of accesses has a run of whole operations to the state after the calls that have taken
effect. -/
theorem exec_effective (hGH : Transfers workerCount G H) {k : ℕ}
    {slots : ℕ → Cells (TaskRef τ) (Option π)} {p : DependencyCounterPtr} {arenas : ℕ → ThreadArena}
    (moves : List (EngineMove τ π)) {s : Engine (accessQueues τ π)}
    (h : (machine _ workerCount asserts).exec (start k slots p arenas) moves = some s)
    (hG : (machine _ workerCount asserts).Obeys G (start k slots p arenas) moves) :
    ∃ moves' helped, (machine _ workerCount asserts).exec (start k slots p arenas) moves' =
        some (s.effective workerCount helped) ∧
      (machine _ workerCount asserts).Obeys H (start k slots p arenas) moves' ∧
      moves'.filter EngineMove.visible = moves.filter EngineMove.visible ∧
      AccessesOk workerCount helped s := by
  obtain ⟨moves', t, hexec, hobeys, hvisible, helped, rfl, hok⟩ :=
    Machine.exec_simulates (M := machine (accessQueues τ π) workerCount asserts)
      (N := machine (atomicQueues τ π) workerCount asserts) (H := H)
      (R := fun s t => ∃ helped, t = s.effective workerCount helped ∧ AccessesOk workerCount helped s)
      (fun a l b a' hR hG hn => by
        obtain ⟨helped, rfl, hok⟩ := hR
        obtain ⟨helped', hok', hmatches⟩ := hok.step hGH hG hn
        exact ⟨_, hmatches, helped', rfl, hok'⟩)
      moves h hG ⟨fun _ => false, rfl, start_accessesOk k slots p arenas⟩
  exact ⟨moves', helped, hexec, hobeys, hvisible, hok⟩

/-- What can be told apart without looking into a call that is under way. -/
structure Agrees (workerCount : ℕ) (s : Engine (accessQueues τ π)) (t : Engine (atomicQueues τ π)) :
    Prop where
  finished : t.finished = s.finished
  submitted : t.submitted = s.submitted
  depCounter : t.depCounter = s.depCounter
  transientArena : t.transientArena = s.transientArena
  poolReserved : t.poolReserved = s.poolReserved
  crashed : t.crashed = s.crashed
  idle : t.idle = s.idle
  workers : ∀ ix, (t.workers ix).transientArena = (s.workers ix).transientArena ∧
    (t.workers ix).sleepSemaphore = (s.workers ix).sleepSemaphore ∧
    (t.workers ix).isAsleep = (s.workers ix).isAsleep ∧
    (t.workers ix).shouldClose = (s.workers ix).shouldClose ∧
    (t.workers ix).pc.hasLeft = (s.workers ix).pc.hasLeft
  queues : ∀ ix, s.main.use workerCount ix = .nothing → (s.workers ix).pc.pop = none →
    (t.workers ix).taskQueue = (s.workers ix).taskQueue

theorem AccessesOk.agrees {s : Engine (accessQueues τ π)} (h : AccessesOk workerCount helped s) :
    Agrees workerCount s (s.effective workerCount helped) where
  finished := rfl
  submitted := rfl
  depCounter := rfl
  transientArena := rfl
  poolReserved := rfl
  crashed := rfl
  idle := effective_idle workerCount helped s
  workers ix := ⟨rfl, rfl, rfl, rfl, effective_hasLeft _ _ _⟩
  queues ix huse hpop := by
    have hcalls := h.calls ix
    rw [hpop] at hcalls
    have hfalse := hcalls.not_helped_of_not_started fun fr hfr => by cases hfr
    simp only [effective, WorkerExecutionContext.effective, huse, hpop, hfalse]
    rfl

/-- Single accesses do what whole operations do: as long as no push and no pop on one queue overlap,
every run of the engine has a run of whole queue operations with the same calls of the game and the
same task ends, to a state that agrees with it. -/
theorem accesses_refine_operations (workerCount : ℕ) (asserts : Bool) (k : ℕ)
    (slots : ℕ → Cells (TaskRef τ) (Option π)) (p : DependencyCounterPtr) (arenas : ℕ → ThreadArena)
    (moves : List (EngineMove τ π)) (s : Engine (accessQueues τ π))
    (h : (machine _ workerCount asserts).exec (start k slots p arenas) moves = some s)
    (hG : (machine _ workerCount asserts).Obeys (Apart workerCount) (start k slots p arenas) moves) :
    ∃ moves' t, (machine (atomicQueues τ π) workerCount asserts).exec (start k slots p arenas) moves' =
        some t ∧
      moves'.filter EngineMove.visible = moves.filter EngineMove.visible ∧ Agrees workerCount s t := by
  have hall : Transfers (τ := τ) (π := π) workerCount (Apart workerCount) fun _ _ => True :=
    ⟨fun _ _ ha => ha, fun _ _ _ => trivial, fun _ _ _ _ => trivial, fun _ _ _ _ _ => trivial⟩
  obtain ⟨moves', helped, hexec, -, hvisible, hok⟩ := exec_effective hall moves h hG
  exact ⟨moves', s.effective workerCount helped, hexec, hvisible, hok.agrees⟩

instance (s : Engine (accessQueues τ π)) : ∀ move, Decidable (Apart workerCount s move)
  | .main => match hm : s.main with
    | .pushing i rest fr =>
        decidable_of_iff ((s.workers (targetIx workerCount i)).pc.popStarted = false) (by
          simp [Apart, hm])
    | .outside | .synced | .submitting _ _ | .stealing _ _ _ | .inlineReady _ _ _
    | .inlineRunning _ _ _ | .loadAsleep _ _ | .signal _ _ | .syncing _ _ | .stolen _ _
    | .stolenRunning _ _ _ | .joining | .releasing | .closed => isTrue (by simp [Apart, hm])
  | .worker ix => match hp : (s.workers ix).pc with
    | .popping fr =>
        decidable_of_iff ((s.main.use workerCount ix).pushStarted = false) (by simp [Apart, hp])
    | .checkClose | .ready _ | .running _ | .decrement | .resetArena | .storeAsleep | .recheckClose
    | .wait | .storeAwake | .left => isTrue (by simp [Apart, hp])
  | .batch _ | .sync | .shutdown | .mainTaskEnds _ | .workerTaskEnds _ _ => isTrue trivial

/-- The steal of the main thread and the pop of the worker, access by access in turn. -/
def overlapping : List (EngineMove Unit Unit) :=
  .batch [((), some ()), ((), none)] :: List.replicate 15 .main ++
    [.sync, .main, .worker 1, .worker 1, .main, .worker 1, .main, .worker 1, .main, .worker 1, .main,
      .worker 1, .main, .main, .worker 1, .workerTaskEnds 1 ⟨0, 0, 0, 0⟩,
      .mainTaskEnds ⟨0, 0, 0, 0⟩]

def twoCellAccesses : Engine (accessQueues Unit Unit) :=
  start 1 (fun _ => ⟨fun _ => ⟨0, ()⟩, fun _ => none⟩) .null fun _ => ⟨0, 0, 0, 0⟩

def afterOverlapping : Engine (accessQueues Unit Unit) :=
  ((machine _ 1 true).exec twoCellAccesses overlapping).getD twoCellAccesses

theorem overlapping_exec :
    (machine _ 1 true).exec twoCellAccesses overlapping = some afterOverlapping := rfl

theorem overlapping_apart : (machine _ 1 true).Obeys (Apart 1) twoCellAccesses overlapping := by decide

theorem accesses_refine_operations_overlapping :
    afterOverlapping.finished.length = 2 ∧ ∃ moves' t,
      (machine (atomicQueues Unit Unit) 1 true).exec twoCells moves' = some t ∧
        moves'.filter EngineMove.visible = overlapping.filter EngineMove.visible ∧
        Agrees 1 afterOverlapping t :=
  ⟨rfl, accesses_refine_operations 1 true 1 _ .null _ overlapping afterOverlapping
    overlapping_exec overlapping_apart⟩

/-! ### Settled runs, one access at a time -/

/-- Pushes and pops keep apart, no push overruns its queue, and no flag is read in the gap. -/
def Undisturbed (workerCount : ℕ) (s : Engine (accessQueues τ π)) (move : EngineMove τ π) : Prop :=
  Apart workerCount s move ∧ match move with
    | .main => match s.main with
      | .pushing i _ _ =>
          let queue := (s.workers (targetIx workerCount i)).taskQueue
          queue.bottom - queue.top ≠ queue.size
      | .loadAsleep i _ =>
          ¬ ((s.workers (targetIx workerCount i)).Drowsy ∧ (s.workers (targetIx workerCount i)).HasWork)
      | _ => True
    | _ => True

/-- A worker whose pop has taken effect without an entry has an empty queue. -/
theorem drowsy_of_effective {b : Bool} {ctx : WorkerExecutionContext (accessQueues τ π)}
    (h : TaskQueue.CallsOk b .nothing ctx.pc.pop ctx.taskQueue)
    (hdrowsy : (ctx.effective b .nothing).Drowsy) (hwork : (ctx.effective b .nothing).HasWork) :
    ctx.Drowsy ∧ ctx.HasWork := by
  obtain ⟨queue, arena, semaphore, asleep, close, pc⟩ := ctx
  cases pc with
  | popping fr =>
      have hok := h.popOk
      cases fr with
      | restoreEmpty c | restoreLost c =>
          obtain ⟨-, htop⟩ : queue.bottom = c ∧ queue.top = c + 1 := hok
          have hfalse : b = false := TaskQueue.CallsOk.not_helped h rfl
          subst hfalse
          have hlt : queue.top < c + 1 := hwork
          omega
      | loadBottom | storeBottom | restoreTaken => cases hdrowsy
      | loadTop | exchangeTop => cases b <;> cases hdrowsy
      | loadTask c t | loadPayload c t task =>
          simp only [WorkerExecutionContext.Drowsy, WorkerExecutionContext.effective,
            WorkerPc.effective, TaskQueue.popResult] at hdrowsy
          split_ifs at hdrowsy <;> cases hdrowsy
  | resetArena | storeAsleep =>
      have hfalse := h.not_helped_of_not_started fun fr hfr => by cases hfr
      subst hfalse
      exact ⟨trivial, hwork⟩
  | _ => cases hdrowsy

/-- Until a push has found room, its queue is as it effectively is. -/
theorem AccessesOk.effective_queue {s : Engine (accessQueues τ π)} {i : ℕ} {rest : List (Entry τ π)}
    {fr : PushPc (TaskRef τ) (Option π)} {p : Entry τ π} (h : AccessesOk workerCount helped s)
    (hmain : s.main = .pushing i rest fr)
    (hg : (s.workers (targetIx workerCount i)).pc.popStarted = false) (hp : fr.waiting = some p) :
    ((s.effective workerCount helped).workers (targetIx workerCount i)).taskQueue =
      (s.workers (targetIx workerCount i)).taskQueue := by
  have huse : s.main.use workerCount (targetIx workerCount i) = .push fr := by
    rw [hmain]
    exact use_pushing_self workerCount i rest fr
  have hpop := pop_not_started hg
  have hfalse := (h.calls (targetIx workerCount i)).not_helped_of_not_started hpop
  simp only [effective, WorkerExecutionContext.effective, huse, hfalse]
  rw [TaskQueue.effective_push hpop, TaskQueue.afterPush_of_waiting hp]

theorem transfers_undisturbed :
    Transfers (τ := τ) (π := π) workerCount (Undisturbed workerCount) (Settled workerCount) where
  apart _ _ hG := hG.1
  others t move hmove := by
    cases move with
    | main => exact (hmove rfl).elim
    | _ => exact ⟨trivial, trivial⟩
  steals t ix empties hmain := by
    simp only [Settled, RoomToPush, FlagSettled, hmain]
    exact ⟨trivial, trivial⟩
  main s helped hok hG hstores := by
    obtain ⟨hapart, hG⟩ := hG
    have heffective : (s.effective workerCount helped).main = s.main.effective := rfl
    simp only [Settled, RoomToPush, FlagSettled, heffective]
    cases hmain : s.main with
    | pushing i rest fr =>
        rw [Apart, hmain] at hapart
        rw [stores, hmain] at hstores
        simp only [hmain] at hG
        cases hwaiting : PushPc.waiting fr with
        | none =>
            simp only [hwaiting] at hstores
            cases hstores
        | some p =>
            simp only [MainPc.effective, hwaiting]
            refine ⟨?_, trivial⟩
            rw [hok.effective_queue hmain hapart hwaiting]
            exact hG
    | loadAsleep i rest =>
        simp only [hmain] at hG
        refine ⟨trivial, fun hlost => hG ?_⟩
        have huse : s.main.use workerCount (targetIx workerCount i) = .nothing := by rw [hmain]; rfl
        have hcalls := hok.calls (targetIx workerCount i)
        rw [huse] at hcalls
        have hworker : (s.effective workerCount helped).workers (targetIx workerCount i) =
            (s.workers (targetIx workerCount i)).effective (helped (targetIx workerCount i)) .nothing := by
          rw [← huse]
          rfl
        rw [hworker] at hlost
        exact drowsy_of_effective hcalls hlost.1 hlost.2
    | _ => exact ⟨trivial, trivial⟩

/-- An access to a queue is always possible. -/
theorem AccessesOk.access_possible {s : Engine (accessQueues τ π)} {move : EngineMove τ π}
    (h : AccessesOk workerCount helped s) (hcrashed : s.crashed = false)
    (hacc : s.accessesQueue move = true) :
    (machine _ workerCount asserts).next s move ≠ none := by
  cases move with
  | main =>
      rw [next_main hcrashed, mainStep]
      cases hmain : s.main with
      | pushing i rest fr =>
          simp only
          split <;> exact Option.some_ne_none _
      | stealing ix empties fr =>
          simp only
          split
          · exact Option.some_ne_none _
          · exact Option.some_ne_none _
          · split <;> exact Option.some_ne_none _
      | _ =>
          rw [accessesQueue, hmain] at hacc
          cases hacc
  | worker ix =>
      cases hpc : (s.workers ix).pc with
      | popping fr =>
          have hbounds := h.popper ix fr (by rw [hpc]; rfl)
          cases hpool : s.poolReserved with
          | true =>
              rw [next_worker hcrashed hpool hbounds.1 hbounds.2, workerStep,
                WorkerExecutionContext.step, hpc]
              simp only
              split <;> exact Option.some_ne_none _
          | false =>
              rw [next_workerGone hcrashed hpool hbounds.1 hbounds.2]
              exact Option.some_ne_none _
      | _ =>
          rw [accessesQueue, hpc] at hacc
          cases hacc
  | _ => cases hacc

/-- Where no access and no other move is possible, no operation is. -/
theorem AccessesOk.atRest {s : Engine (accessQueues τ π)} (h : AccessesOk workerCount helped s)
    (hcrashed : s.crashed = false) (hrest : AtRest workerCount asserts s) :
    AtRest workerCount asserts (s.effective workerCount helped) := by
  intro move hmove
  have hstuck := hrest move hmove
  cases hacc : s.accessesQueue move with
  | false =>
      rw [next_effective helped hacc, hstuck]
      rfl
  | true => exact (h.access_possible hcrashed hacc hstuck).elim

theorem asleep_of_effective {b : Bool} {use : QueueUse (TaskRef τ) (Option π)}
    {ctx : WorkerExecutionContext (accessQueues τ π)}
    (h : TaskQueue.CallsOk b use ctx.pc.pop ctx.taskQueue) (huse : use = .nothing)
    (hasleep : (ctx.effective b use).Asleep) : ctx.Asleep := by
  subst huse
  obtain ⟨queue, arena, semaphore, asleep, close, pc⟩ := ctx
  obtain ⟨hpc, hflag, hsignals, hqueue, harena⟩ := hasleep
  cases pc with
  | wait =>
      have hfalse := h.not_helped_of_not_started fun fr hfr => by cases hfr
      subst hfalse
      exact ⟨rfl, hflag, hsignals, hqueue, harena⟩
  | popping fr =>
      simp only [WorkerExecutionContext.effective, WorkerPc.effective] at hpc
      rcases hresult : TaskQueue.popResult b queue fr with _ | _ | e <;> rw [hresult] at hpc <;> cases hpc
  | _ => cases hpc

/-- The calls of the game tell which tasks are submitted. -/
theorem submittedBy_visible (first : ℕ) (moves : List (EngineMove τ π)) :
    submittedBy first (moves.filter EngineMove.visible) = submittedBy first moves := by
  induction moves generalizing first with
  | nil => rfl
  | cons move moves ih =>
      cases move with
      | batch tasks =>
          rw [List.filter_cons_of_pos (by rfl), submittedBy, submittedBy, ih]
      | main | worker =>
          rw [List.filter_cons_of_neg Bool.false_ne_true, ih]
          rfl
      | _ =>
          rw [List.filter_cons_of_pos (by rfl)]
          exact ih first

/-- One access at a time, as long as pushes and pops keep apart, no push overruns its queue and no
flag is read in the gap: no task is run to its end twice, and when nothing moves any more every task
submitted has been, the main thread is in the game's code and every worker is asleep. -/
theorem accesses_all_done (workerCount : ℕ) (hW : 1 ≤ workerCount) (asserts : Bool) (k : ℕ)
    (slots : ℕ → Cells (TaskRef τ) (Option π)) (p : DependencyCounterPtr) (arenas : ℕ → ThreadArena)
    (moves : List (EngineMove τ π)) (s : Engine (accessQueues τ π))
    (h : (machine _ workerCount asserts).exec (start k slots p arenas) moves = some s)
    (hG : (machine _ workerCount asserts).Obeys (Undisturbed workerCount) (start k slots p arenas)
      moves) :
    (s.finished.map fun e => e.1.serial).Nodup ∧
      (∀ e ∈ s.finished, e ∈ submittedBy 0 moves) ∧
      (s.crashed = false → AtRest workerCount asserts s →
        s.idle = true ∧ (∀ ix, 1 ≤ ix → ix ≤ workerCount → (s.workers ix).Asleep) ∧
          s.finished.Perm (submittedBy 0 moves)) := by
  obtain ⟨moves', helped, hexec, hobeys, hvisible, hok⟩ := exec_effective transfers_undisturbed moves h hG
  have hsubmitted : submittedBy 0 moves' = submittedBy 0 moves := by
    rw [← submittedBy_visible 0 moves', hvisible, submittedBy_visible]
  have hroom := hobeys.mono fun _ _ => And.left
  obtain ⟨-, hrun⟩ := (start_sound k slots p arenas).run hW moves' hexec hroom
  rw [start_allEntries, zero_add] at hrun
  have hle : (s.finished : Multiset (Entry τ π)) ≤ submittedBy 0 moves' := by
    have hfinished := finished_le_allEntries workerCount (s.effective workerCount helped)
    rw [hrun] at hfinished
    exact hfinished
  refine ⟨serials_nodup hle, fun e he => ?_, fun hcrashed hrest => ?_⟩
  · rw [← hsubmitted]
    exact Multiset.mem_coe.mp (Multiset.mem_of_le hle (Multiset.mem_coe.mpr he))
  · have hinv := exec_restInv hW moves' (start_restInv k slots p arenas) hexec hobeys
    obtain ⟨hidle, hasleep⟩ := hinv.idle_asleep hW hcrashed (hok.atRest hcrashed hrest)
    have hperm := finished_of_asleep hW hexec hroom hidle hasleep
    rw [hsubmitted] at hperm
    rw [effective_idle] at hidle
    exact ⟨hidle, fun ix h1 h2 => asleep_of_effective (hok.calls ix) (idle_use hidle ix)
      (hasleep ix h1 h2), hperm⟩

instance (s : Engine (accessQueues τ π)) : ∀ move, Decidable (Undisturbed workerCount s move)
  | .main => match hm : s.main with
    | .pushing i rest fr =>
        let queue := (s.workers (targetIx workerCount i)).taskQueue
        decidable_of_iff (Apart workerCount s .main ∧ queue.bottom - queue.top ≠ queue.size)
          (by simp [Undisturbed, hm, queue])
    | .loadAsleep i rest =>
        decidable_of_iff (Apart workerCount s .main ∧ ¬ ((s.workers (targetIx workerCount i)).Drowsy ∧
          (s.workers (targetIx workerCount i)).HasWork)) (by simp [Undisturbed, hm])
    | .outside | .synced | .submitting _ _ | .stealing _ _ _ | .inlineReady _ _ _
    | .inlineRunning _ _ _ | .signal _ _ | .syncing _ _ | .stolen _ _
    | .stolenRunning _ _ _ | .joining | .releasing | .closed =>
        decidable_of_iff (Apart workerCount s .main) (by simp [Undisturbed, hm])
  | .batch tasks | .sync | .shutdown | .mainTaskEnds arena | .worker ix | .workerTaskEnds ix arena =>
      inferInstanceAs (Decidable (Apart workerCount s _ ∧ True))

/-- The main thread steals both tasks. The worker has announced a pop of the second and loses it, and
goes to sleep while the main thread scans the queue again. -/
def quieting : List (EngineMove Unit Unit) :=
  [[.batch [((), some ()), ((), some ())]], List.replicate 15 .main, [.sync], List.replicate 7 .main,
    [.mainTaskEnds ⟨0, 0, 0, 0⟩], List.replicate 2 (.worker 1), List.replicate 3 .main,
    List.replicate 4 (.worker 1), List.replicate 4 .main, List.replicate 2 (.worker 1),
    [.mainTaskEnds ⟨0, 0, 0, 0⟩], (List.replicate 3 [.main, .worker 1]).flatten,
    List.replicate 4 .main].flatten

def afterQuieting : Engine (accessQueues Unit Unit) :=
  ((machine _ 1 true).exec twoCellAccesses quieting).getD twoCellAccesses

theorem afterQuieting_rest : AtRest 1 true afterQuieting := by
  intro move hmove
  cases move with
  | main | mainTaskEnds => rfl
  | worker ix =>
      by_cases hix : 1 ≤ ix ∧ ix ≤ 1
      · obtain rfl : ix = 1 := by omega
        rfl
      · exact if_neg hix
  | workerTaskEnds ix arena =>
      by_cases hix : 1 ≤ ix ∧ ix ≤ 1
      · obtain rfl : ix = 1 := by omega
        rfl
      · exact if_neg hix
  | _ => cases hmove

theorem accesses_all_done_quieting :
    afterQuieting.finished.length = 2 ∧ afterQuieting.idle = true ∧
      (∀ ix, 1 ≤ ix → ix ≤ 1 → (afterQuieting.workers ix).Asleep) ∧
      afterQuieting.finished.Perm (submittedBy 0 quieting) := by
  have hexec : (machine _ 1 true).exec twoCellAccesses quieting = some afterQuieting := rfl
  have hundisturbed : (machine _ 1 true).Obeys (Undisturbed 1) twoCellAccesses quieting := by decide
  obtain ⟨-, -, hrest⟩ := accesses_all_done 1 le_rfl true 1 _ .null _ _ afterQuieting hexec
    hundisturbed
  exact ⟨rfl, hrest rfl afterQuieting_rest⟩

end Engine
end ProjectDelta
