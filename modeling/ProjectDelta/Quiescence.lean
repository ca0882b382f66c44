import ProjectDelta.DependencyCounter
import ProjectDelta.Progress
import ProjectDelta.WakeUp

/-!
# When nothing moves any more

A thread stops only where the program means it to: a worker in its wait, with its
flag up, its semaphore at zero, its queue empty and its transient arena reset, and
the main thread in the game's code. Together with `moves_bounded` this says that
the workers run every batch to its end whatever the game does next, unless one of
them crashes on a null `depCounterPtr`.
-/

namespace ProjectDelta

variable {τ π : Type}

/-- Between the reset of the transient arena and the end of the wait. -/
def WorkerPc.pastReset {Q : EngineQueues τ π} : WorkerPc Q → Bool
  | .storeAsleep | .recheckClose | .wait => true
  | _ => false

def MainPc.isClosed {Q : EngineQueues τ π} : MainPc Q → Bool
  | .closed => true
  | _ => false

/-- The worker waits for a signal, with nothing to do. -/
structure WorkerExecutionContext.Asleep {Q : EngineQueues τ π} (ctx : WorkerExecutionContext Q) :
    Prop where
  pc : ctx.pc = .wait
  flag : ctx.isAsleep = true
  signals : ctx.sleepSemaphore = 0
  queue : ctx.taskQueue.held = []
  arena : ctx.transientArena.offset = 0#64

/-- A move of a worker thread. -/
def EngineMove.isWorkers : EngineMove τ π → Bool
  | .worker _ | .workerTaskEnds _ _ => true
  | _ => false

namespace Engine

variable {workerCount n : ℕ} {asserts : Bool}

/-! ### What the threads leave behind -/

theorem WorkerChange.arena {Q : EngineQueues τ π} {ctx ctx' : WorkerExecutionContext Q}
    (h : WorkerChange ctx ctx')
    (hctx : ctx.pc.pastReset = true → ctx.transientArena.offset = 0#64) :
    ctx'.pc.pastReset = true → ctx'.transientArena.offset = 0#64 := by
  cases h with
  | step hmove =>
      generalize hpc : ctx.pc = pc at hmove
      rw [hpc] at hctx
      cases hmove with
      | reset => exact fun _ => rfl
      | fallAsleep => exact fun _ => hctx rfl
      | goWait => exact fun _ => hctx rfl
      | decrementNull => rw [hpc]; exact hctx
      | _ => exact fun hpast => (Bool.false_ne_true hpast).elim
  | taskEnds arena hpc => exact fun hpast => (Bool.false_ne_true hpast).elim
  | _ => exact hctx

theorem pool_next {Q : EngineQueues τ π} {s s' : Engine Q} {move : EngineMove τ π}
    (h : s.poolReserved = !s.main.isClosed)
    (hn : (machine Q workerCount asserts).next s move = some s') :
    s'.poolReserved = !s'.main.isClosed := by
  have hopen : s.main.isClosed = false → s.poolReserved = true := by
    intro hmain
    rw [h, hmain]
    rfl
  have hidle : s.idle = true → s.poolReserved = true := by
    intro hi
    refine hopen ?_
    unfold idle at hi
    cases hmain : s.main with
    | closed => rw [hmain] at hi; cases hi
    | _ => rfl
  cases (next_step hn).2 with
  | workerGone | taskGone => exact h
  | batch tasks hi => exact hidle hi
  | sync hi => exact hidle hi
  | shutdown hi => exact hidle hi
  | main hmove =>
      generalize hmain : s.main = pc at hmove
      cases hmove with
      | crash => exact h
      | release => rfl
      | _ => exact hopen (by rw [hmain]; rfl)
  | inlineEnds arena hmain => exact hopen (by rw [hmain]; rfl)
  | stolenEnds arena hmain => exact hopen (by rw [hmain]; rfl)
  | @worker ix ctx effect => cases effect <;> exact h
  | workerEnds => exact h

/-- No push overruns a queue, and no flag is read in the gap. -/
def Settled (workerCount : ℕ) (s : Engine (atomicQueues τ π)) (move : EngineMove τ π) : Prop :=
  RoomToPush workerCount s move ∧ FlagSettled workerCount s move

/-- All that holds at every point of a settled run. -/
structure RestInv (workerCount n : ℕ) (p : DependencyCounterPtr) (s : Engine (atomicQueues τ π)) :
    Prop where
  sound : Sound workerCount n s
  wake : WakeInv workerCount s
  stays : ∀ ix, (s.workers ix).Stays
  arenas : ∀ ix, (s.workers ix).pc.pastReset = true → (s.workers ix).transientArena.offset = 0#64
  pool : s.poolReserved = !s.main.isClosed
  pointers : ∀ ix, (s.workers ix).taskQueue.depCounterPtr = p

theorem RestInv.step {p : DependencyCounterPtr} (hW : 1 ≤ workerCount)
    (s : Engine (atomicQueues τ π)) (move : EngineMove τ π) (s' : Engine (atomicQueues τ π))
    (h : RestInv workerCount n p s) (hg : Settled workerCount s move)
    (hn : (machine _ workerCount asserts).next s move = some s') : RestInv workerCount n p s' where
  sound := (h.sound.step hW hg.1 hn).1
  wake := h.wake.step s move s' hg.2 hn
  stays ix := (next_change hn ix).stays (h.stays ix)
  arenas ix := (next_change hn ix).arena (h.arenas ix)
  pool := pool_next h.pool hn
  pointers ix := (next_change hn ix).depCounterPtr.trans (h.pointers ix)

theorem start_restInv (k : ℕ) (slots : ℕ → Cells (TaskRef τ) (Option π)) (p : DependencyCounterPtr)
    (arenas : ℕ → ThreadArena) :
    RestInv workerCount (2 ^ k) p (start k slots p arenas : Engine (atomicQueues τ π)) where
  sound := start_sound k slots p arenas
  wake := start_wakeInv k slots p arenas
  stays := start_stays k slots p arenas
  arenas _ hpast := (Bool.false_ne_true hpast).elim
  pool := rfl
  pointers _ := rfl

/-! ### Where a thread can stop -/

/-- A worker stops only in its wait. -/
theorem step_eq_none {ctx : WorkerExecutionContext (atomicQueues τ π)} (hstays : ctx.Stays)
    (h : ctx.step = none) :
    (∃ e, ctx.pc = .running e) ∨ (ctx.pc = .wait ∧ ctx.sleepSemaphore = 0) := by
  unfold WorkerExecutionContext.step at h
  cases hpc : ctx.pc with
  | running e => exact Or.inl ⟨e, rfl⟩
  | wait =>
      simp only [hpc] at h
      split at h
      · exact Or.inr ⟨rfl, ‹_›⟩
      · cases h
  | left =>
      have hleft := hstays.2
      rw [hpc] at hleft
      cases hleft
  | popping fr =>
      simp only [hpc] at h
      split at h <;> cases h
  | decrement =>
      simp only [hpc] at h
      split at h <;> cases h
  | _ =>
      simp only [hpc] at h
      cases h

/-- The main thread stops only in the game's code, with the engine or after it. -/
theorem mainStep_eq_none {s : Engine (atomicQueues τ π)} (hW : 1 ≤ workerCount)
    (h : s.mainStep workerCount asserts = none) (arena : ThreadArena)
    (hends : s.mainTaskEnds workerCount arena = none) : s.idle = true ∨ s.main = .closed := by
  unfold mainStep at h
  unfold mainTaskEnds at hends
  cases hmain : s.main with
  | outside | synced => exact Or.inl (by rw [idle, hmain])
  | closed => exact Or.inr rfl
  | joining =>
      simp only [hmain, waitReturns_sThreads s hW, if_true] at h
      cases h
  | submitting i rest =>
      simp only [hmain] at h
      split at h
      · cases h
      · split at h <;> cases h
  | stealing ix empties fr =>
      simp only [hmain] at h
      split at h
      · cases h
      · cases h
      · split at h <;> cases h
  | inlineRunning | stolenRunning =>
      simp only [hmain] at hends
      cases hends
  | pushing | loadAsleep | syncing | stolen =>
      simp only [hmain] at h
      split at h <;> cases h
  | _ =>
      simp only [hmain] at h
      cases h

/-- No thread can make a move. -/
def AtRest {Q : EngineQueues τ π} (workerCount : ℕ) (asserts : Bool) (s : Engine Q) : Prop :=
  ∀ move, move.isCall = false → (machine _ workerCount asserts).next s move = none

/-- No worker can make a move. -/
def WorkersAtRest {Q : EngineQueues τ π} (workerCount : ℕ) (asserts : Bool) (s : Engine Q) : Prop :=
  ∀ move, move.isWorkers = true → (machine _ workerCount asserts).next s move = none

theorem AtRest.workers {Q : EngineQueues τ π} {s : Engine Q} (h : AtRest workerCount asserts s) :
    WorkersAtRest workerCount asserts s := by
  intro move hmove
  cases move with
  | worker | workerTaskEnds => exact h _ rfl
  | _ => cases hmove

theorem next_worker {Q : EngineQueues τ π} {s : Engine Q} (hcrashed : s.crashed = false)
    (hpool : s.poolReserved = true) {ix : ℕ} (h1 : 1 ≤ ix) (h2 : ix ≤ workerCount) :
    (machine _ workerCount asserts).next s (.worker ix) = s.workerStep ix := by
  simp only [machine, hcrashed, hpool, h1, h2, and_self, if_true, Bool.false_eq_true, if_false]

theorem next_workerTaskEnds {s : Engine (atomicQueues τ π)} (hcrashed : s.crashed = false)
    (hpool : s.poolReserved = true) {ix : ℕ} (h1 : 1 ≤ ix) (h2 : ix ≤ workerCount)
    (arena : ThreadArena) : (machine _ workerCount asserts).next s (.workerTaskEnds ix arena) =
      s.workerTaskEnds ix arena := by
  simp only [machine, hcrashed, hpool, h1, h2, and_self, if_true, Bool.false_eq_true, if_false]

theorem idle_facts {s : Engine (atomicQueues τ π)} (h : s.idle = true) :
    s.main.isClosed = false ∧ s.inProcessTaskBatch = false := by
  unfold idle at h
  unfold inProcessTaskBatch
  cases hmain : s.main with
  | outside | synced => exact ⟨rfl, rfl⟩
  | _ => rw [hmain] at h; cases h

theorem RestInv.poolReserved {p : DependencyCounterPtr} {s : Engine (atomicQueues τ π)}
    (h : RestInv workerCount n p s) (hidle : s.idle = true) : s.poolReserved = true := by
  rw [h.pool, (idle_facts hidle).1]
  rfl

/-- A worker that cannot move is asleep, and nothing was left in its queue for want of a signal. -/
theorem RestInv.asleep {p : DependencyCounterPtr} {s : Engine (atomicQueues τ π)}
    (h : RestInv workerCount n p s) (hcrashed : s.crashed = false) (hidle : s.idle = true)
    (hrest : WorkersAtRest workerCount asserts s) {ix : ℕ} (h1 : 1 ≤ ix) (h2 : ix ≤ workerCount) :
    (s.workers ix).Asleep := by
  have hpool := h.poolReserved hidle
  have hstep : (s.workers ix).step = none := by
    have hstuck := hrest (.worker ix) rfl
    rw [next_worker hcrashed hpool h1 h2, workerStep] at hstuck
    exact Option.map_eq_none_iff.mp hstuck
  rcases step_eq_none (h.stays ix) hstep with ⟨e, hrunning⟩ | ⟨hpc, hsignals⟩
  · have hstuck := hrest (.workerTaskEnds ix ⟨0, 0, 0, 0⟩) rfl
    rw [next_workerTaskEnds hcrashed hpool h1 h2, workerTaskEnds, hrunning] at hstuck
    cases hstuck
  · have hidleQueue : ¬ (s.workers ix).HasWork := fun hwork =>
      h.wake.not_lost ⟨(idle_facts hidle).2, ix, h1, h2, hpc, hsignals, hwork⟩
    refine ⟨hpc, (h.wake ix).flag (by rw [WorkerExecutionContext.Dozing, hpc]; trivial), hsignals, ?_,
      h.arenas ix (by rw [hpc]; rfl)⟩
    by_contra hne
    exact hidleQueue ((work_iff_held (h.sound.queues ix)).mpr hne)

/-- With the main thread in the game's code and every worker asleep, all entries are finished. -/
theorem allEntries_asleep {s : Engine (atomicQueues τ π)} (hidle : s.idle = true)
    (hasleep : ∀ ix, 1 ≤ ix → ix ≤ workerCount → (s.workers ix).Asleep) :
    s.allEntries workerCount = s.finished := by
  have hsum : s.overWorkers workerCount
      (fun ctx => (ctx.entries : Multiset (Entry τ π))) = 0 := by
    refine Finset.sum_eq_zero fun ix hix => ?_
    obtain ⟨h1, h2⟩ := Finset.mem_Icc.mp hix
    change ((s.workers ix).entries : Multiset (Entry τ π)) = 0
    rw [WorkerExecutionContext.entries, (hasleep ix h1 h2).pc, (hasleep ix h1 h2).queue]
    rfl
  rw [allEntries, hsum, idle_entries hidle, Multiset.coe_nil, add_zero, add_zero]

theorem exec_restInv {p : DependencyCounterPtr} {s s' : Engine (atomicQueues τ π)}
    (hW : 1 ≤ workerCount) (moves : List (EngineMove τ π)) (hs : RestInv workerCount n p s)
    (h : (machine _ workerCount asserts).exec s moves = some s')
    (hG : (machine _ workerCount asserts).Obeys (Settled workerCount) s moves) :
    RestInv workerCount n p s' :=
  (Machine.reachIf_of_exec moves h hG).invariant (RestInv.step hW) hs

/-- Where no thread can move, the main thread is in the game's code and every worker is asleep. -/
theorem RestInv.idle_asleep {p : DependencyCounterPtr} {s : Engine (atomicQueues τ π)}
    (h : RestInv workerCount n p s) (hW : 1 ≤ workerCount) (hcrashed : s.crashed = false)
    (hrest : AtRest workerCount asserts s) :
    s.idle = true ∧ ∀ ix, 1 ≤ ix → ix ≤ workerCount → (s.workers ix).Asleep := by
  have hmain : s.mainStep workerCount asserts = none := by
    have hstuck := hrest .main rfl
    rwa [next_main hcrashed] at hstuck
  have hends : s.mainTaskEnds workerCount ⟨0, 0, 0, 0⟩ = none := by
    have hstuck := hrest (.mainTaskEnds ⟨0, 0, 0, 0⟩) rfl
    simpa only [machine, hcrashed, Bool.false_eq_true, if_false] using hstuck
  have hidle : s.idle = true := by
    refine (mainStep_eq_none hW hmain _ hends).resolve_right fun hclosed => ?_
    -- the pool is gone, and a worker that moves now crashes
    have hpool : s.poolReserved = false := by rw [h.pool, hclosed]; rfl
    have hstuck := hrest (.worker 1) rfl
    simp only [machine, hcrashed, hpool, le_refl, hW, and_self, if_true, Bool.false_eq_true,
      if_false] at hstuck
    cases hstuck
  exact ⟨hidle, fun ix h1 h2 => h.asleep hcrashed hidle hrest.workers h1 h2⟩

/-- After a run that ends with every worker asleep, the finished entries are those submitted. -/
theorem finished_of_asleep (hW : 1 ≤ workerCount) {k : ℕ}
    {slots : ℕ → Cells (TaskRef τ) (Option π)} {p : DependencyCounterPtr} {arenas : ℕ → ThreadArena}
    {moves : List (EngineMove τ π)} {s : Engine (atomicQueues τ π)}
    (h : (machine _ workerCount asserts).exec (start k slots p arenas) moves = some s)
    (hG : (machine _ workerCount asserts).Obeys (RoomToPush workerCount) (start k slots p arenas)
      moves) (hidle : s.idle = true)
    (hasleep : ∀ ix, 1 ≤ ix → ix ≤ workerCount → (s.workers ix).Asleep) :
    s.finished.Perm (submittedBy 0 moves) := by
  obtain ⟨-, hall⟩ := (start_sound k slots p arenas).run hW moves h hG
  refine Multiset.coe_eq_coe.mp ?_
  rw [← allEntries_asleep hidle hasleep, hall, start_allEntries, zero_add]
  rfl

/-- When no thread can move, the main thread is back in the game's code, every worker is asleep with
an empty queue, and every task submitted has been run to its end, once. -/
theorem rest_all_done (workerCount : ℕ) (hW : 1 ≤ workerCount) (asserts : Bool) (k : ℕ)
    (slots : ℕ → Cells (TaskRef τ) (Option π)) (p : DependencyCounterPtr) (arenas : ℕ → ThreadArena)
    (moves : List (EngineMove τ π)) (s : Engine (atomicQueues τ π))
    (h : (machine _ workerCount asserts).exec (start k slots p arenas) moves = some s)
    (hG : (machine _ workerCount asserts).Obeys (Settled workerCount) (start k slots p arenas) moves)
    (hcrashed : s.crashed = false) (hrest : AtRest workerCount asserts s) :
    s.idle = true ∧ (∀ ix, 1 ≤ ix → ix ≤ workerCount → (s.workers ix).Asleep) ∧
      s.finished.Perm (submittedBy 0 moves) := by
  have hinv := exec_restInv hW moves (start_restInv k slots p arenas) h hG
  obtain ⟨hidle, hasleep⟩ := hinv.idle_asleep hW hcrashed hrest
  exact ⟨hidle, hasleep, finished_of_asleep hW h (hG.mono fun _ _ => And.left) hidle hasleep⟩

instance (s : Engine (atomicQueues τ π)) (move : EngineMove τ π) :
    Decidable (Settled workerCount s move) :=
  inferInstanceAs (Decidable (_ ∧ _))

def afterStolen : Engine (atomicQueues Unit Unit) :=
  ((machine _ 1 true).exec twoCells stolenBatch).getD twoCells

theorem stolenBatch_exec : (machine _ 1 true).exec twoCells stolenBatch = some afterStolen := rfl

theorem stolenBatch_settled : (machine _ 1 true).Obeys (Settled 1) twoCells stolenBatch := by decide

/-- The worker goes to sleep, without having found a task. -/
def fallingAsleep : List (EngineMove Unit Unit) := List.replicate 5 (.worker 1)

def afterAsleep : Engine (atomicQueues Unit Unit) :=
  ((machine _ 1 true).exec afterStolen fallingAsleep).getD twoCells

theorem afterAsleep_rest : AtRest 1 true afterAsleep := by
  intro move hmove
  cases move with
  | main | mainTaskEnds => rfl
  | worker ix =>
      by_cases hix : 1 ≤ ix ∧ ix ≤ 1
      · obtain rfl : ix = 1 := by omega
        rfl
      · exact if_neg hix
  | workerTaskEnds ix arena =>
      by_cases hix : 1 ≤ ix ∧ ix ≤ 1
      · obtain rfl : ix = 1 := by omega
        rfl
      · exact if_neg hix
  | _ => cases hmove

theorem rest_all_done_stolen :
    afterAsleep.finished.length = 2 ∧ afterAsleep.idle = true ∧
      (∀ ix, 1 ≤ ix → ix ≤ 1 → (afterAsleep.workers ix).Asleep) ∧
      afterAsleep.finished.Perm (submittedBy 0 (stolenBatch ++ fallingAsleep)) := by
  have hexec : (machine _ 1 true).exec twoCells (stolenBatch ++ fallingAsleep) = some afterAsleep :=
    rfl
  have hsettled : (machine _ 1 true).Obeys (Settled 1) twoCells (stolenBatch ++ fallingAsleep) := by
    decide
  exact ⟨rfl, rest_all_done 1 le_rfl true 1 _ .null _ _ afterAsleep hexec hsettled rfl
    afterAsleep_rest⟩

/-! ### The workers alone -/

/-- The main thread stays in the game's code, and only a null pointer can crash a worker. -/
structure DrainInv (workerCount n : ℕ) (p : DependencyCounterPtr) (s : Engine (atomicQueues τ π)) :
    Prop where
  rest : RestInv workerCount n p s
  idle : s.idle = true
  crashed : s.crashed = true → p = .null

theorem settled_of_isWorkers {move : EngineMove τ π} (h : move.isWorkers = true)
    (s : Engine (atomicQueues τ π)) : Settled workerCount s move := by
  cases move with
  | worker | workerTaskEnds => exact ⟨trivial, trivial⟩
  | _ => cases h

theorem DrainInv.step {p : DependencyCounterPtr} {s s' : Engine (atomicQueues τ π)}
    {move : EngineMove τ π} (hW : 1 ≤ workerCount) (h : DrainInv workerCount n p s)
    (hmove : move.isWorkers = true)
    (hn : (machine _ workerCount asserts).next s move = some s') :
    DrainInv workerCount n p s' := by
  have hrest := h.rest.step hW s move s' (settled_of_isWorkers hmove s) hn
  have hpool := h.rest.poolReserved h.idle
  cases (next_step hn).2 with
  | workerGone ix hgone | taskGone ix arena hgone => rw [hpool] at hgone; cases hgone
  | @worker ix ctx effect h1 h2 hstep =>
      have hmain := apply_main (s.setWorker ix ctx) effect
      refine ⟨hrest, ?_, fun hcrash => ?_⟩
      · rw [Engine.idle, hmain]
        exact h.idle
      · rcases hstep.pays workerCount (h.rest.stays ix).1 with ⟨hne, -⟩ | ⟨rfl, -⟩
        · rw [apply_crashed hne] at hcrash
          exact h.crashed hcrash
        · rw [← h.rest.pointers ix]
          generalize (s.workers ix).pc = pc at hstep
          cases hstep with
          | decrementNull hptr => exact hptr
  | workerEnds arena h1 h2 hpc => exact ⟨hrest, h.idle, h.crashed⟩
  | _ => cases hmove

theorem submittedBy_isWorkers {ls : List (EngineMove τ π)} (h : ∀ m ∈ ls, m.isWorkers = true)
    (first : ℕ) : submittedBy first ls = [] := by
  induction ls generalizing first with
  | nil => rfl
  | cons move ls ih =>
      obtain ⟨hmove, hls⟩ := List.forall_mem_cons.mp h
      cases move with
      | worker | workerTaskEnds => exact ih hls first
      | _ => cases hmove

theorem isWorkers_free (workerCount : ℕ) {ls : List (EngineMove τ π)} (h : ∀ m ∈ ls, m.isWorkers = true) :
    ls.countP (fun move => !move.isCall) = ls.length ∧
      Machine.outlay (callPrice workerCount) ls = 0 := by
  induction ls with
  | nil => exact ⟨rfl, rfl⟩
  | cons move ls ih =>
      obtain ⟨hmove, hls⟩ := List.forall_mem_cons.mp h
      obtain ⟨hcount, hcost⟩ := ih hls
      cases move with
      | worker | workerTaskEnds =>
          refine ⟨?_, ?_⟩
          · rw [List.countP_cons, hcount]
            rfl
          · rw [Machine.outlay, hcost]
            rfl
      | _ => cases hmove

theorem DrainInv.exec {p : DependencyCounterPtr} {s s' : Engine (atomicQueues τ π)}
    (hW : 1 ≤ workerCount) (h : DrainInv workerCount n p s) {ls : List (EngineMove τ π)}
    (hls : ∀ m ∈ ls, m.isWorkers = true)
    (hexec : (machine _ workerCount asserts).exec s ls = some s') : DrainInv workerCount n p s' :=
  (Machine.reachIf_of_exec (G := fun _ move => move.isWorkers = true) ls hexec
    (Machine.obeys_of_forall (fun m hm _ => hls m hm) s)).invariant
    (fun _ _ _ ha hmove hn => ha.step hW hmove hn) h

theorem DrainInv.pays {p : DependencyCounterPtr} {s s' : Engine (atomicQueues τ π)}
    {move : EngineMove τ π} (hW : 1 ≤ workerCount) (h : DrainInv workerCount n p s)
    (hmove : move.isWorkers = true)
    (hn : (machine _ workerCount asserts).next s move = some s') :
    s'.potential workerCount < s.potential workerCount := by
  have hpays := next_pays hW h.rest.sound.scan h.rest.stays hn
  cases move with
  | worker | workerTaskEnds =>
      simp only [EngineMove.isCall, callPrice, Bool.not_false, if_true] at hpays
      omega
  | _ => cases hmove

/-- Once the game's code has the main thread again, the workers come to rest by themselves: in every
order of their moves, within a bound fixed by the calls so far, and unless a null `depCounterPtr`
crashes one of them, with every task run to its end. -/
theorem workers_drain (workerCount : ℕ) (hW : 1 ≤ workerCount) (asserts : Bool) (k : ℕ)
    (slots : ℕ → Cells (TaskRef τ) (Option π)) (p : DependencyCounterPtr) (arenas : ℕ → ThreadArena)
    (moves : List (EngineMove τ π)) (s : Engine (atomicQueues τ π))
    (h : (machine _ workerCount asserts).exec (start k slots p arenas) moves = some s)
    (hG : (machine _ workerCount asserts).Obeys (Settled workerCount) (start k slots p arenas) moves)
    (hcrashed : s.crashed = false) (hidle : s.idle = true) :
    (∃ ls s', (∀ m ∈ ls, m.isWorkers = true) ∧
      (machine _ workerCount asserts).exec s ls = some s' ∧ WorkersAtRest workerCount asserts s') ∧
    ∀ ls s', (∀ m ∈ ls, m.isWorkers = true) → (machine _ workerCount asserts).exec s ls = some s' →
      ls.length ≤ 5 * workerCount + 1 + Machine.outlay (callPrice workerCount) moves ∧
      (s'.crashed = true → p = .null) ∧
      (s'.crashed = false → WorkersAtRest workerCount asserts s' →
        (∀ ix, 1 ≤ ix → ix ≤ workerCount → (s'.workers ix).Asleep) ∧
        s'.finished.Perm (submittedBy 0 moves)) := by
  have hrest := exec_restInv hW moves (start_restInv k slots p arenas) h hG
  have hinv : DrainInv workerCount (2 ^ k) p s :=
    ⟨hrest, hidle, fun hcrash => (Bool.false_ne_true (hcrashed.symm.trans hcrash)).elim⟩
  refine ⟨?_, fun ls s' hls hexec => ⟨?_, ?_, fun halive hstuck => ?_⟩⟩
  · exact Machine.exists_run_to_rest (fun _ _ _ ha hmove hn => ⟨ha.step hW hmove hn, ha.pays hW hmove hn⟩)
      hinv
  · have hbefore := exec_pays hW (start_sound k slots p arenas).scan (start_stays k slots p arenas)
      moves h
    have hafter := exec_pays hW hrest.sound.scan hrest.stays ls hexec
    obtain ⟨hcount, hcost⟩ := isWorkers_free workerCount hls
    rw [start_potential] at hbefore
    rw [hcount, hcost] at hafter
    omega
  · exact (hinv.exec hW hls hexec).crashed
  · have hinv' := hinv.exec hW hls hexec
    have hasleep : ∀ ix, 1 ≤ ix → ix ≤ workerCount → (s'.workers ix).Asleep :=
      fun ix h1 h2 => hinv'.rest.asleep halive hinv'.idle hstuck h1 h2
    obtain ⟨-, hall⟩ := (start_sound k slots p arenas).run hW moves h (hG.mono fun _ _ => And.left)
    obtain ⟨-, hall'⟩ := hrest.sound.run hW ls hexec
      (Machine.obeys_of_forall (fun m hm a => (settled_of_isWorkers (hls m hm) a).1) s)
    refine ⟨hasleep, Multiset.coe_eq_coe.mp ?_⟩
    rw [← allEntries_asleep hinv'.idle hasleep, hall', hall, submittedBy_isWorkers hls,
      start_allEntries, zero_add, Multiset.coe_nil, add_zero]
    rfl

theorem workers_drain_stolen :
    (∀ ix, 1 ≤ ix → ix ≤ 1 → (afterAsleep.workers ix).Asleep) ∧
      afterAsleep.finished.Perm (submittedBy 0 stolenBatch) := by
  have hdrain := workers_drain 1 le_rfl true 1 _ .null _ stolenBatch afterStolen
    stolenBatch_exec stolenBatch_settled rfl rfl
  obtain ⟨-, -, hrest⟩ := hdrain.2 fallingAsleep afterAsleep (by decide) rfl
  exact hrest rfl afterAsleep_rest.workers

end Engine
end ProjectDelta
