import Mathlib.Algebra.Order.BigOperators.Group.Finset
import Mathlib.Data.Int.Interval
import Mathlib.Order.Interval.Finset.Nat
import ProjectDelta.CyclicScan
import ProjectDelta.DrainedQueue
import ProjectDelta.ThreadArena

/-!
# The queues that Scheduler_Sync leaves behind

The main thread steals in a cycle while the workers pop, access by access, and
nobody pushes. Every success takes an entry, and a full round of failures has
seen every queue empty, so the loop ends and leaves nothing behind but what a pop
in progress holds.
-/

namespace ProjectDelta

/-! ### Scheduler_Sync against the pops of the workers -/

/-- Program points of `Scheduler_Sync`: at the head of the loop, in `TaskQueue_Steal`, before the
assertion and in the task. -/
inductive SyncPc (τ π : Type)
  | head (workerIx consecutiveEmptyQueues : ℕ)
  | stealing (workerIx consecutiveEmptyQueues : ℕ)
  | stolen (workerIx : ℕ) (task : Option τ) (payload : Option π)
  | running (workerIx : ℕ) (snapshot : BitVec 64)
  | returned

/-- Each queue with its owner and the main thread as its only thief. `none` is a null task or
payload; `iterations` and `mainSteps` count. -/
structure SyncState (σ τ π : Type) where
  queues : ℕ → DuelState Unit σ (Option τ) (Option π)
  main : SyncPc τ π
  transientArena : ThreadArena
  crashed : Bool
  iterations : ℕ
  mainSteps : ℕ

/-- `taskReturns` is the end of the task that the main thread runs, with the arena it leaves. -/
inductive SyncMove
  | main
  | taskReturns (arena : ThreadArena)
  | worker (ix : ℕ)

namespace SyncState

variable {σ τ π : Type} [SlotMemory σ (Option τ) (Option π)]

def start (q₀ : ℕ → TaskQueue σ) (arena : ThreadArena) : SyncState σ τ π :=
  ⟨fun ix => DuelState.start (q₀ ix), .head 1 0, arena, false, 0, 0⟩

def setQueue (s : SyncState σ τ π) (ix : ℕ) (d : DuelState Unit σ (Option τ) (Option π)) :
    SyncState σ τ π :=
  { s with queues := Function.update s.queues ix d }

/-- The next access of the steal from queue `workerIx`. -/
def stealAccess (workerCount : ℕ) (s : SyncState σ τ π) (workerIx empties : ℕ) :
    Option (SyncState σ τ π) :=
  let d := s.queues workerIx
  let s' := s.setQueue workerIx (d.thiefStep ())
  (d.thief ()).map fun pc => match (d.queue.stealStep pc).2 with
    | .inl _ => s'
    | .inr none => { s' with main := .head (CyclicScan.next workerCount workerIx) (empties + 1) }
    | .inr (some e) => { s' with main := .stolen workerIx e.1 e.2 }

def mainStep (workerCount : ℕ) (asserts : Bool) (s : SyncState σ τ π) : Option (SyncState σ τ π) :=
  match s.main with
  | .head workerIx empties =>
      if empties < workerCount + 1 then
        some { s.setQueue workerIx ((s.queues workerIx).thiefStep ()) with
          main := .stealing workerIx empties
          iterations := s.iterations + 1 }
      else some { s with main := .returned }
  | .stealing workerIx empties => s.stealAccess workerCount workerIx empties
  | .stolen workerIx task payload =>
      if asserts ∧ ¬ (task.isSome ∧ payload.isSome) then some { s with crashed := true }
      else if task.isNone then some { s with crashed := true }
      else some { s with main := .running workerIx s.transientArena.offset }
  | .running _ _ => none
  | .returned => none

def taskReturns (workerCount : ℕ) (s : SyncState σ τ π) (arena : ThreadArena) :
    Option (SyncState σ τ π) :=
  match s.main with
  | .running workerIx snapshot =>
      some { s with
        transientArena := { arena with offset := snapshot }
        main := .head (CyclicScan.next workerCount workerIx) 0 }
  | _ => none

def countStep (s : SyncState σ τ π) : SyncState σ τ π := { s with mainSteps := s.mainSteps + 1 }

variable (σ τ π) in
def machine (workerCount : ℕ) (asserts : Bool) : Machine (SyncState σ τ π) SyncMove where
  next s move :=
    if s.crashed then none
    else match move with
      | .main => (s.mainStep workerCount asserts).map countStep
      | .taskReturns arena => (s.taskReturns workerCount arena).map countStep
      | .worker ix =>
          if 1 ≤ ix ∧ ix ≤ workerCount then some (s.setQueue ix (s.queues ix).ownerStep) else none

/-! ### The invariant -/

def entries (workerCount : ℕ) (q₀ : ℕ → TaskQueue σ) : ℕ :=
  ∑ ix ∈ Finset.Icc 1 workerCount, ((q₀ ix).bottom - (q₀ ix).top).toNat

/-- How many entries the steals and pops have returned so far. -/
def returnedCount (workerCount : ℕ) (s : SyncState σ τ π) : ℕ :=
  ∑ ix ∈ Finset.Icc 1 workerCount, (s.queues ix).returned.length

/-- At queue `workerIx` after `empties` failures in a row, with `extra` iterations under way. -/
structure ScanOk (workerCount : ℕ) (s : SyncState σ τ π) (workerIx empties extra : ℕ) : Prop where
  one_le : 1 ≤ workerIx
  le : workerIx ≤ workerCount
  empties_le : empties + extra ≤ workerCount + 1
  visited : CyclicScan.Visited workerCount workerIx empties fun j => (s.queues j).Drained
  iterations : s.iterations ≤ s.returnedCount workerCount * (workerCount + 1) + empties + extra

/-- An iteration has at most eight steps of the main thread. -/
def MainOk (workerCount : ℕ) (s : SyncState σ τ π) : Prop :=
  match s.main with
  | .head workerIx empties =>
      s.ScanOk workerCount workerIx empties 0 ∧ s.mainSteps ≤ 8 * s.iterations
  | .stealing workerIx empties =>
      s.ScanOk workerCount workerIx empties 1 ∧ ∃ pc, (s.queues workerIx).thief () = some pc ∧
        s.mainSteps + pc.left + 2 ≤ 8 * s.iterations
  | .stolen workerIx task payload =>
      s.ScanOk workerCount workerIx 0 0 ∧ task.isSome ∧ payload.isSome ∧
        s.mainSteps + 2 ≤ 8 * s.iterations
  | .running workerIx _ =>
      s.ScanOk workerCount workerIx 0 0 ∧ s.mainSteps + 1 ≤ 8 * s.iterations
  | .returned =>
      (∀ j, 1 ≤ j → j ≤ workerCount → (s.queues j).Drained) ∧
        s.iterations ≤ (s.returnedCount workerCount + 1) * (workerCount + 1) ∧
          s.mainSteps ≤ 8 * s.iterations + 1

structure Inv (workerCount : ℕ) (q₀ : ℕ → TaskQueue σ) (s : SyncState σ τ π) : Prop where
  queue : ∀ j, 1 ≤ j → j ≤ workerCount → (s.queues j).Inv (q₀ j)
  sees : ∀ j, 1 ≤ j → j ≤ workerCount → (s.queues j).Sees
  idle : ∀ j, (∀ empties, s.main ≠ .stealing j empties) → (s.queues j).thief () = none
  alive : s.crashed = false
  main : s.MainOk workerCount

variable {workerCount : ℕ} {asserts : Bool} {q₀ : ℕ → TaskQueue σ} {s s' : SyncState σ τ π}

omit [SlotMemory σ (Option τ) (Option π)] in
theorem setQueue_self (s : SyncState σ τ π) (ix : ℕ)
    (d : DuelState Unit σ (Option τ) (Option π)) : (s.setQueue ix d).queues ix = d :=
  Function.update_self ..

omit [SlotMemory σ (Option τ) (Option π)] in
theorem setQueue_ne (s : SyncState σ τ π) {ix j : ℕ} (h : j ≠ ix)
    (d : DuelState Unit σ (Option τ) (Option π)) : (s.setQueue ix d).queues j = s.queues j :=
  Function.update_of_ne h ..

omit [SlotMemory σ (Option τ) (Option π)] in
theorem forall_setQueue {P : ℕ → DuelState Unit σ (Option τ) (Option π) → Prop} {ix : ℕ}
    {d : DuelState Unit σ (Option τ) (Option π)}
    (h : ∀ j, 1 ≤ j → j ≤ workerCount → P j (s.queues j)) (hd : P ix d) :
    ∀ j, 1 ≤ j → j ≤ workerCount → P j ((s.setQueue ix d).queues j) := by
  intro j hj hle
  by_cases hjx : j = ix
  · subst hjx
    rw [setQueue_self]
    exact hd
  · rw [setQueue_ne s hjx]
    exact h j hj hle

/-- Queues on which nothing that was seen empty comes back and nothing returned is lost. -/
structure Progress (s s' : SyncState σ τ π) : Prop where
  drained : ∀ j, (s.queues j).Drained → (s'.queues j).Drained
  returned : ∀ j, (s.queues j).returned.length ≤ (s'.queues j).returned.length

omit [SlotMemory σ (Option τ) (Option π)] in
theorem Progress.of_queues (h : s'.queues = s.queues) : Progress s s' where
  drained j hj := by rwa [h]
  returned j := by rw [h]

omit [SlotMemory σ (Option τ) (Option π)] in
theorem Progress.of_setQueue {ix : ℕ} {d : DuelState Unit σ (Option τ) (Option π)}
    (hdrained : (s.queues ix).Drained → d.Drained)
    (hreturned : (s.queues ix).returned.length ≤ d.returned.length) :
    Progress s (s.setQueue ix d) where
  drained j hj := by
    by_cases hjx : j = ix
    · subst hjx
      rw [setQueue_self]
      exact hdrained hj
    · rwa [setQueue_ne s hjx]
  returned j := by
    by_cases hjx : j = ix
    · subst hjx
      rw [setQueue_self]
      exact hreturned
    · rw [setQueue_ne s hjx]

omit [SlotMemory σ (Option τ) (Option π)] in
theorem Progress.returnedCount (h : Progress s s') (workerCount : ℕ) :
    s.returnedCount workerCount ≤ s'.returnedCount workerCount :=
  Finset.sum_le_sum fun j _ => h.returned j

omit [SlotMemory σ (Option τ) (Option π)] in
theorem Progress.returnedCount_lt (h : Progress s s') {ix : ℕ} (hix : 1 ≤ ix)
    (hle : ix ≤ workerCount) (hlt : (s.queues ix).returned.length < (s'.queues ix).returned.length) :
    s.returnedCount workerCount < s'.returnedCount workerCount :=
  Finset.sum_lt_sum (fun j _ => h.returned j) ⟨ix, Finset.mem_Icc.mpr ⟨hix, hle⟩, hlt⟩

omit [SlotMemory σ (Option τ) (Option π)] in
theorem ScanOk.mono {ix empties extra : ℕ} (h : s.ScanOk workerCount ix empties extra)
    (hp : Progress s s') (hit : s'.iterations = s.iterations) :
    s'.ScanOk workerCount ix empties extra where
  one_le := h.one_le
  le := h.le
  empties_le := h.empties_le
  visited := h.visited.mono hp.drained
  iterations := by
    have hcount := Nat.mul_le_mul_right (workerCount + 1) (hp.returnedCount workerCount)
    have hold := h.iterations
    omega

omit [SlotMemory σ (Option τ) (Option π)] in
/-- What the main thread relies on survives the steps of the workers. -/
theorem MainOk.mono (h : s.MainOk workerCount) (hp : Progress s s') (hmain : s'.main = s.main)
    (hit : s'.iterations = s.iterations) (hsteps : s'.mainSteps = s.mainSteps)
    (hthief : ∀ j, (s'.queues j).thief = (s.queues j).thief) : s'.MainOk workerCount := by
  unfold MainOk at h ⊢
  rw [hmain, hit, hsteps]
  cases hpc : s.main with
  | head ix empties =>
      rw [hpc] at h
      exact ⟨h.1.mono hp hit, h.2⟩
  | stealing ix empties =>
      simp only [hpc, hthief] at h ⊢
      exact ⟨h.1.mono hp hit, h.2⟩
  | stolen ix task payload =>
      rw [hpc] at h
      exact ⟨h.1.mono hp hit, h.2⟩
  | running ix snapshot =>
      rw [hpc] at h
      exact ⟨h.1.mono hp hit, h.2⟩
  | returned =>
      rw [hpc] at h
      have hcount := Nat.mul_le_mul_right (workerCount + 1)
        (Nat.succ_le_succ (hp.returnedCount workerCount))
      exact ⟨fun j hj hle => hp.drained j (h.1 j hj hle), h.2.1.trans hcount, h.2.2⟩

/-! ### Steps -/

theorem Inv.worker (h : s.Inv workerCount q₀) {ix : ℕ} (hix : 1 ≤ ix) (hle : ix ≤ workerCount) :
    (s.setQueue ix (s.queues ix).ownerStep).Inv workerCount q₀ := by
  have hinv := h.queue ix hix hle
  have hthief : ∀ j, ((s.setQueue ix (s.queues ix).ownerStep).queues j).thief =
      (s.queues j).thief := by
    intro j
    by_cases hj : j = ix
    · subst hj
      rw [setQueue_self, DuelState.ownerStep_thief]
    · rw [setQueue_ne s hj]
  have hp := Progress.of_setQueue (s := s) hinv.drained_ownerStep
    (DuelState.ownerStep_returned (s.queues ix))
  exact ⟨forall_setQueue h.queue (DuelState.ownerStep_inv hinv),
    forall_setQueue h.sees (hinv.sees_ownerStep (h.sees ix hix hle)),
    fun j hj => by rw [hthief]; exact h.idle j hj, h.alive, h.main.mono hp rfl rfl rfl hthief⟩

/-- A new iteration: one more failure would still leave the counter within its bound. -/
theorem Inv.head (h : s.Inv workerCount q₀) {ix empties : ℕ} (hmain : s.main = .head ix empties)
    (hlt : empties < workerCount + 1) :
    ({ s.setQueue ix ((s.queues ix).thiefStep ()) with
      main := .stealing ix empties
      iterations := s.iterations + 1
      mainSteps := s.mainSteps + 1 } : SyncState σ τ π).Inv workerCount q₀ := by
  have hok := h.main
  unfold MainOk at hok
  rw [hmain] at hok
  obtain ⟨hscan, hsteps⟩ := hok
  have hidle : (s.queues ix).thief () = none := h.idle ix (by rw [hmain]; simp)
  have hstart : (s.queues ix).thiefStep () =
      { s.queues ix with thief := Function.update (s.queues ix).thief () (some .loadTop) } := by
    simp only [DuelState.thiefStep, hidle]
  have hp : Progress s (s.setQueue ix ((s.queues ix).thiefStep ())) := by
    rw [hstart]
    exact Progress.of_setQueue id le_rfl
  refine ⟨forall_setQueue h.queue (DuelState.thiefStep_inv (h.queue ix hscan.one_le hscan.le) ()),
    forall_setQueue h.sees ?_, ?_, h.alive, ?_⟩
  · simp [DuelState.Sees, hstart]
  · intro j hj
    have hne : j ≠ ix := fun heq => hj empties (by rw [heq])
    change ((s.setQueue ix _).queues j).thief () = none
    rw [setQueue_ne s hne]
    exact h.idle j (by rw [hmain]; simp)
  · have hcount := Nat.mul_le_mul_right (workerCount + 1) (hp.returnedCount workerCount)
    have hiter := hscan.iterations
    have hempties := hscan.empties_le
    refine ⟨⟨hscan.one_le, hscan.le, by omega, hscan.visited.mono hp.drained, ?_⟩, .loadTop, ?_, ?_⟩
    · change s.iterations + 1 ≤ returnedCount workerCount (s.setQueue ix _) * _ + empties + 1
      omega
    · change ((s.setQueue ix _).queues ix).thief () = _
      rw [setQueue_self, hstart]
      exact Function.update_self () _ (s.queues ix).thief
    · change s.mainSteps + 1 + 5 + 2 ≤ 8 * (s.iterations + 1)
      omega

/-- The loop ends after a failure at every queue. -/
theorem Inv.leave (h : s.Inv workerCount q₀) {ix empties : ℕ} (hmain : s.main = .head ix empties)
    (hge : ¬ empties < workerCount + 1) :
    ({ s with main := .returned, mainSteps := s.mainSteps + 1 } : SyncState σ τ π).Inv
      workerCount q₀ := by
  have hok := h.main
  unfold MainOk at hok
  rw [hmain] at hok
  obtain ⟨hscan, hsteps⟩ := hok
  have hempties := hscan.empties_le
  have hiter := hscan.iterations
  have hexpand : (s.returnedCount workerCount + 1) * (workerCount + 1) =
      s.returnedCount workerCount * (workerCount + 1) + (workerCount + 1) := by ring
  refine ⟨h.queue, h.sees, fun j _ => h.idle j (by rw [hmain]; simp), h.alive, ?_, ?_, ?_⟩
  · intro j hj hle
    exact hscan.visited.all (by omega) hscan.one_le hscan.le hj hle
  · change s.iterations ≤ (s.returnedCount workerCount + 1) * (workerCount + 1)
    omega
  · change s.mainSteps + 1 ≤ 8 * s.iterations + 1
    omega

/-- The entries at the start have a task and a payload. -/
def NonNull (workerCount : ℕ) (q₀ : ℕ → TaskQueue σ) : Prop :=
  ∀ j, 1 ≤ j → j ≤ workerCount → ∀ i, (q₀ j).top ≤ i → i < (q₀ j).bottom →
    ((q₀ j).pairAt i).1.isSome ∧ ((q₀ j).pairAt i).2.isSome

/-- Only the queue that the main thread steals from has a thief inside. -/
theorem Inv.idle_setQueue (h : s.Inv workerCount q₀) {ix empties : ℕ}
    (hmain : s.main = .stealing ix empties) {d : DuelState Unit σ (Option τ) (Option π)}
    (hd : d.thief () = none) (j : ℕ) : ((s.setQueue ix d).queues j).thief () = none := by
  by_cases hj : j = ix
  · subst hj
    rw [setQueue_self]
    exact hd
  · rw [setQueue_ne s hj]
    apply h.idle j
    intro empties' heq
    rw [hmain] at heq
    exact hj (SyncPc.stealing.inj heq).1.symm

theorem Inv.stealAccess (h : s.Inv workerCount q₀) (hnonnull : NonNull workerCount q₀)
    {ix empties : ℕ} (hmain : s.main = .stealing ix empties)
    (hstep : s.stealAccess workerCount ix empties = some s') :
    s'.countStep.Inv workerCount q₀ := by
  have hok := h.main
  unfold MainOk at hok
  rw [hmain] at hok
  obtain ⟨hscan, pc, hthief, hsteps⟩ := hok
  have hinv := h.queue ix hscan.one_le hscan.le
  have hinv' := DuelState.thiefStep_inv hinv ()
  have hsees := h.sees ix hscan.one_le hscan.le
  have hiter := hscan.iterations
  have hempties := hscan.empties_le
  have hqueue := forall_setQueue h.queue hinv'
  have hleft : 1 ≤ pc.left := by cases pc <;> simp [StealPc.left]
  have hnext := CyclicScan.next_le (hscan.one_le.trans hscan.le) ix
  simp only [SyncState.stealAccess, hthief, Option.map_some, Option.some.injEq] at hstep
  cases hinv.thiefMove hsees hthief with
  | goesOn pc' hpc hduel hpcleft hsees' =>
      have hp : Progress s (s.setQueue ix ((s.queues ix).thiefStep ())) := by
        rw [hduel]
        exact Progress.of_setQueue id le_rfl
      rw [hpc] at hstep
      subst hstep
      refine ⟨hqueue, forall_setQueue h.sees hsees', ?_, h.alive, ?_⟩
      · intro j hj
        have hne : j ≠ ix := fun heq => hj empties (by rw [heq]; exact hmain)
        change ((s.setQueue ix _).queues j).thief () = none
        rw [setQueue_ne s hne]
        exact h.idle j hj
      · have hthief' : ((s.setQueue ix ((s.queues ix).thiefStep ())).queues ix).thief () =
            some pc' := by
          rw [setQueue_self, hduel]
          exact Function.update_self () _ (s.queues ix).thief
        unfold MainOk
        simp only [countStep, setQueue, hmain]
        exact ⟨hscan.mono ⟨hp.drained, hp.returned⟩ rfl, pc', hthief', by omega⟩
  | fails hpc hduel hdrained =>
      have hthief' : ((s.queues ix).thiefStep ()).thief () = none := by
        rw [hduel]
        exact Function.update_self () _ (s.queues ix).thief
      have hdrained' : ((s.queues ix).thiefStep ()).Drained := by
        rw [hduel]
        exact hdrained
      have hp : Progress s (s.setQueue ix ((s.queues ix).thiefStep ())) := by
        rw [hduel]
        exact Progress.of_setQueue id le_rfl
      have hcount := Nat.mul_le_mul_right (workerCount + 1) (hp.returnedCount workerCount)
      rw [hpc] at hstep
      subst hstep
      refine ⟨hqueue, forall_setQueue h.sees (by simp only [DuelState.Sees, hthief']),
        fun j _ => h.idle_setQueue hmain hthief' j, h.alive, ?_⟩
      have hvisited := (hscan.visited.mono hp.drained).visit hscan.one_le hscan.le
        (by rw [setQueue_self]; exact hdrained')
      refine ⟨⟨CyclicScan.one_le_next _ _, hnext, by omega, hvisited, ?_⟩, ?_⟩
      · change s.iterations ≤ returnedCount workerCount (s.setQueue ix _) * _ + (empties + 1) + 0
        omega
      · change s.mainSteps + 1 ≤ 8 * s.iterations
        omega
  | steals e t hpc hduel htop =>
      have hthief' : ((s.queues ix).thiefStep ()).thief () = none := by
        rw [hduel]
        exact Function.update_self () _ (s.queues ix).thief
      have hmem : (t, e) ∈ ((s.queues ix).thiefStep ()).returned := by
        rw [hduel]
        exact List.mem_cons_self
      obtain ⟨hlow, hhigh⟩ := hinv'.mem_window_of_mem_taken (List.mem_map_of_mem hmem)
      obtain ⟨htask, hpayload⟩ := hnonnull ix hscan.one_le hscan.le t hlow hhigh
      have hpair : e = (q₀ ix).pairAt t := hinv'.pairs _ hmem
      have hlength : (s.queues ix).returned.length <
          ((s.queues ix).thiefStep ()).returned.length := by
        rw [hduel]
        exact Nat.lt_succ_self _
      have hp : Progress s (s.setQueue ix ((s.queues ix).thiefStep ())) := by
        apply Progress.of_setQueue _ hlength.le
        rw [hduel]
        intro hdrained
        exact hdrained.trans (by rw [← htop]; exact (Int.lt_succ _).le)
      have hcount := Nat.mul_le_mul_right (workerCount + 1) (hp.returnedCount_lt hscan.one_le hscan.le
        (by rw [setQueue_self]; exact hlength))
      rw [hpc] at hstep
      subst hstep
      refine ⟨hqueue, forall_setQueue h.sees (by simp only [DuelState.Sees, hthief']),
        fun j _ => h.idle_setQueue hmain hthief' j, h.alive, ?_⟩
      refine ⟨⟨hscan.one_le, hscan.le, by omega, CyclicScan.visited_zero _ _ _, ?_⟩,
        by rw [hpair]; exact htask, by rw [hpair]; exact hpayload, ?_⟩
      · change s.iterations ≤ returnedCount workerCount (s.setQueue ix _) * _ + 0 + 0
        rw [Nat.succ_mul] at hcount
        omega
      · change s.mainSteps + 1 + 2 ≤ 8 * s.iterations
        omega

/-- The assertion passes: no null entry was in a queue. -/
theorem Inv.stolen (h : s.Inv workerCount q₀) (asserts : Bool) {ix : ℕ} {task : Option τ} {payload : Option π}
    (hmain : s.main = .stolen ix task payload) :
    (asserts = true ∧ ¬ (task.isSome ∧ payload.isSome)) = False ∧ task.isNone = false ∧
      ({ s with
        main := .running ix s.transientArena.offset
        mainSteps := s.mainSteps + 1 } : SyncState σ τ π).Inv workerCount q₀ := by
  have hok := h.main
  unfold MainOk at hok
  rw [hmain] at hok
  obtain ⟨hscan, htask, hpayload, hsteps⟩ := hok
  refine ⟨by simp [htask, hpayload], by simpa using htask, h.queue, h.sees,
    fun j _ => h.idle j (by rw [hmain]; simp), h.alive, ?_, ?_⟩
  · exact hscan.mono (Progress.of_queues rfl) rfl
  · change s.mainSteps + 1 + 1 ≤ 8 * s.iterations
    omega

theorem Inv.taskReturns (h : s.Inv workerCount q₀) {arena : ThreadArena}
    (hstep : s.taskReturns workerCount arena = some s') : s'.countStep.Inv workerCount q₀ := by
  have hok := h.main
  unfold MainOk at hok
  cases hmain : s.main with
  | running ix snapshot =>
      rw [hmain] at hok
      obtain ⟨hscan, hsteps⟩ := hok
      simp only [SyncState.taskReturns, hmain, Option.some.injEq] at hstep
      subst hstep
      have hiter := hscan.iterations
      refine ⟨h.queue, h.sees, fun j _ => h.idle j (by rw [hmain]; simp), h.alive, ?_, ?_⟩
      · exact ⟨CyclicScan.one_le_next _ _, CyclicScan.next_le (hscan.one_le.trans hscan.le) _,
          Nat.zero_le _, CyclicScan.visited_zero _ _ _, hiter⟩
      · change s.mainSteps + 1 ≤ 8 * s.iterations
        omega
  | _ => simp [SyncState.taskReturns, hmain] at hstep

theorem Inv.mainStep (h : s.Inv workerCount q₀) (hnonnull : NonNull workerCount q₀)
    (hstep : s.mainStep workerCount asserts = some s') : s'.countStep.Inv workerCount q₀ := by
  cases hmain : s.main with
  | head ix empties =>
      simp only [SyncState.mainStep, hmain] at hstep
      split_ifs at hstep with hlt
      · obtain rfl := Option.some.inj hstep
        exact h.head hmain hlt
      · obtain rfl := Option.some.inj hstep
        exact h.leave hmain hlt
  | stealing ix empties =>
      simp only [SyncState.mainStep, hmain] at hstep
      exact h.stealAccess hnonnull hmain hstep
  | stolen ix task payload =>
      obtain ⟨hassert, htask, hinv⟩ := h.stolen asserts hmain
      simp only [SyncState.mainStep, hmain, hassert, htask, if_false, Bool.false_eq_true] at hstep
      obtain rfl := Option.some.inj hstep
      exact hinv
  | running ix snapshot => simp [SyncState.mainStep, hmain] at hstep
  | returned => simp [SyncState.mainStep, hmain] at hstep

theorem Inv.step (hnonnull : NonNull workerCount q₀) (s : SyncState σ τ π) (move : SyncMove)
    (s' : SyncState σ τ π) (h : s.Inv workerCount q₀)
    (hn : (machine σ τ π workerCount asserts).next s move = some s') : s'.Inv workerCount q₀ := by
  simp only [machine, h.alive, Bool.false_eq_true, if_false] at hn
  cases move with
  | main =>
      obtain ⟨s'', hstep, rfl⟩ := Option.map_eq_some_iff.mp hn
      exact h.mainStep hnonnull hstep
  | taskReturns arena =>
      obtain ⟨s'', hstep, rfl⟩ := Option.map_eq_some_iff.mp hn
      exact h.taskReturns hstep
  | worker ix =>
      simp only at hn
      split_ifs at hn with hix
      obtain rfl := Option.some.inj hn
      exact h.worker hix.1 hix.2

theorem start_inv (hW : 1 ≤ workerCount)
    (hwindow : ∀ j, 1 ≤ j → j ≤ workerCount → (q₀ j).top ≤ (q₀ j).bottom) (arena : ThreadArena) :
    (start q₀ arena : SyncState σ τ π).Inv workerCount q₀ where
  queue j hj hle := DuelState.start_inv (q₀ j) (hwindow j hj hle)
  sees _ _ _ := trivial
  idle _ _ := rfl
  alive := rfl
  main := ⟨⟨le_rfl, hW, Nat.zero_le _, CyclicScan.visited_zero _ _ _, Nat.zero_le _⟩, Nat.zero_le _⟩

/-! ### The bounds -/

/-- No queue returns more than it held. -/
theorem Inv.returnedCount_le (h : s.Inv workerCount q₀) :
    s.returnedCount workerCount ≤ entries workerCount q₀ := by
  apply Finset.sum_le_sum
  intro j hj
  obtain ⟨hone, hle⟩ := Finset.mem_Icc.mp hj
  have hinv := h.queue j hone hle
  have hsubset : (s.queues j).taken.toFinset ⊆ Finset.Ico (q₀ j).top (q₀ j).bottom := by
    intro i hi
    exact Finset.mem_Ico.mpr (hinv.mem_window_of_mem_taken (List.mem_toFinset.mp hi))
  have hcard := Finset.card_le_card hsubset
  rwa [List.toFinset_card_of_nodup hinv.nodup, Int.card_Ico, DuelState.taken, List.length_map] at hcard

theorem Inv.iterations_le (h : s.Inv workerCount q₀) :
    s.iterations ≤ (s.returnedCount workerCount + 1) * (workerCount + 1) ∧
      s.mainSteps ≤ 8 * s.iterations + 1 := by
  have hok := h.main
  have hexpand : (s.returnedCount workerCount + 1) * (workerCount + 1) =
      s.returnedCount workerCount * (workerCount + 1) + (workerCount + 1) := by ring
  unfold MainOk at hok
  cases hmain : s.main with
  | head ix empties =>
      rw [hmain] at hok
      have hiter := hok.1.iterations
      have hempties := hok.1.empties_le
      omega
  | stealing ix empties =>
      rw [hmain] at hok
      obtain ⟨hscan, pc, -, hsteps⟩ := hok
      have hiter := hscan.iterations
      have hempties := hscan.empties_le
      omega
  | stolen ix task payload =>
      rw [hmain] at hok
      have hiter := hok.1.iterations
      omega
  | running ix snapshot =>
      rw [hmain] at hok
      have hiter := hok.1.iterations
      omega
  | returned =>
      rw [hmain] at hok
      exact hok.2

/-- Until the function returns, the main thread has a step to make. -/
theorem Inv.not_stuck (h : s.Inv workerCount q₀) (hmain : s.main ≠ .returned) (arena : ThreadArena) :
    (machine σ τ π workerCount asserts).next s .main ≠ none ∨
      (machine σ τ π workerCount asserts).next s (.taskReturns arena) ≠ none := by
  have hok := h.main
  unfold MainOk at hok
  simp only [machine, h.alive, Bool.false_eq_true, if_false, ne_eq, Option.map_eq_none_iff]
  cases hpc : s.main with
  | head ix empties =>
      left
      simp only [SyncState.mainStep, hpc]
      split_ifs <;> simp
  | stealing ix empties =>
      left
      rw [hpc] at hok
      obtain ⟨-, pc, hthief, -⟩ := hok
      simp [SyncState.mainStep, hpc, SyncState.stealAccess, hthief]
  | stolen ix task payload =>
      left
      simp only [SyncState.mainStep, hpc]
      split_ifs <;> simp
  | running ix snapshot =>
      right
      simp [SyncState.taskReturns, hpc]
  | returned => exact absurd hpc hmain

/-- `Scheduler_Sync` makes at most `(N + 1) * (W + 1)` iterations of at most eight steps each and is
never stuck; when it returns, every entry has been returned or is the one that a pop in progress
will return. -/
theorem sync_drains (workerCount : ℕ) (hW : 1 ≤ workerCount) (asserts : Bool)
    (q₀ : ℕ → TaskQueue σ) (hwindow : ∀ j, 1 ≤ j → j ≤ workerCount → (q₀ j).top ≤ (q₀ j).bottom)
    (hnonnull : NonNull workerCount q₀) (arena : ThreadArena) (s : SyncState σ τ π)
    (hs : (machine σ τ π workerCount asserts).Reach (start q₀ arena) s) :
    s.iterations ≤ (entries workerCount q₀ + 1) * (workerCount + 1) ∧
      s.mainSteps ≤ 8 * s.iterations + 1 ∧ s.crashed = false ∧
      (s.main ≠ .returned → ∀ arena, (machine σ τ π workerCount asserts).next s .main ≠ none ∨
        (machine σ τ π workerCount asserts).next s (.taskReturns arena) ≠ none) ∧
      (s.main = .returned → ∀ j, 1 ≤ j → j ≤ workerCount →
        ∀ i, (q₀ j).top ≤ i → i < (q₀ j).bottom →
          i ∈ (s.queues j).taken ∨ (s.queues j).WillReturn i) := by
  have hinv : s.Inv workerCount q₀ := hs.invariant
    (fun a move b ha _ hn => Inv.step hnonnull a move b ha hn) (start_inv hW hwindow arena)
  obtain ⟨hiter, hsteps⟩ := hinv.iterations_le
  refine ⟨hiter.trans ?_, hsteps, hinv.alive, fun hmain arena => hinv.not_stuck hmain arena, ?_⟩
  · exact Nat.mul_le_mul_right _ (Nat.succ_le_succ hinv.returnedCount_le)
  · intro hmain j hj hle i hlow hhigh
    have hok := hinv.main
    unfold MainOk at hok
    rw [hmain] at hok
    exact (hinv.queue j hj hle).taken_or_willReturn (hok.1 j hj hle) hlow hhigh

/-- One worker with two entries. -/
def drainQueues : ℕ → TaskQueue (Cells (Option ℕ) (Option ℕ)) := fun _ =>
  ⟨0, 2, 4, 3, ⟨fun ix => some ix.toNat, fun ix => some ix.toNat⟩, .null⟩

/-- The main thread steals the first entry; the worker has decremented the bottom for the second
one when two steals fail. -/
def drainSchedule : List SyncMove :=
  List.replicate 7 .main ++ [.taskReturns ⟨0, 0, 0, 0⟩] ++ List.replicate 3 (.worker 1) ++
    List.replicate 7 .main

def drainEnd : SyncState (Cells (Option ℕ) (Option ℕ)) ℕ ℕ :=
  ((machine _ ℕ ℕ 1 true).exec (start drainQueues ⟨0, 0, 0, 0⟩) drainSchedule).getD
    (start drainQueues ⟨0, 0, 0, 0⟩)

theorem drainEnd_reach :
    (machine _ ℕ ℕ 1 true).Reach (start drainQueues ⟨0, 0, 0, 0⟩) drainEnd :=
  Machine.reach_of_exec drainSchedule rfl

theorem drainEnd_drained : drainEnd.iterations ≤ 6 ∧
    ∀ i, 0 ≤ i → i < 2 → i ∈ (drainEnd.queues 1).taken ∨ (drainEnd.queues 1).WillReturn i := by
  have hend := sync_drains 1 le_rfl true drainQueues (fun _ _ _ => show (0 : ℤ) ≤ 2 by decide)
    (fun _ _ _ _ _ _ => ⟨rfl, rfl⟩) ⟨0, 0, 0, 0⟩ drainEnd drainEnd_reach
  exact ⟨hend.1, hend.2.2.2.2 rfl 1 le_rfl le_rfl⟩

end SyncState
end ProjectDelta
