import ProjectDelta.EffectiveEngine

/-!
# One access and the operations that match it

An access to a queue is matched by no step of the engine with whole operations, by
one whole push, pop or steal, or, when a steal fails because the worker is about to
take the last entry, by that pop and the steal.
-/

namespace ProjectDelta

variable {τ π : Type}

namespace Engine

variable {workerCount : ℕ} {asserts : Bool} {helped : ℕ → Bool}

/-! ### Calls that return -/

section Returns

variable {Q : EngineQueues τ π} {s : Engine Q} {q : TaskQueue (Cells (TaskRef τ) (Option π))}
  {r : Option (Entry τ π)}

def stealReturns (workerCount : ℕ) (s : Engine Q) (ix empties : ℕ)
    (q : TaskQueue (Cells (TaskRef τ) (Option π))) : Option (Entry τ π) → Engine Q
  | some e => { s.setQueue ix q with main := .stolen ix e }
  | none => if workerCount = 0 then s.crash else
      { s.setQueue ix q with main := .syncing (targetIx workerCount ix) (empties + 1) }

theorem mainStep_pushReturns {i : ℕ} {rest : List (Entry τ π)} {fr : Q.push.Frame}
    (hmain : s.main = .pushing i rest fr)
    (hstep : Q.push.step (s.workers (targetIx workerCount i)).taskQueue fr = (q, .inr r)) :
    s.mainStep workerCount asserts = some
      { s.setQueue (targetIx workerCount i) q with main := .pushReturns i rest r } := by
  simp only [mainStep, hmain, hstep]
  cases r <;> rfl

theorem mainStep_stealReturns {ix empties : ℕ} {fr : Q.steal.Frame}
    (hmain : s.main = .stealing ix empties fr)
    (hstep : Q.steal.step (s.workers ix).taskQueue fr = (q, .inr r)) :
    s.mainStep workerCount asserts = some (s.stealReturns workerCount ix empties q r) := by
  simp only [mainStep, hmain, hstep]
  cases r with
  | some e => rfl
  | none =>
      simp only [stealReturns]
      split <;> rfl

theorem step_popReturns {ctx : WorkerExecutionContext Q} {fr : Q.pop.Frame}
    (hpc : ctx.pc = .popping fr) (hstep : Q.pop.step ctx.taskQueue fr = (q, .inr r)) :
    ctx.step = some ({ ctx with taskQueue := q, pc := .popReturns r }, .nothing) := by
  simp only [WorkerExecutionContext.step, hpc, hstep]
  cases r <;> rfl

theorem setWorker_eq_self (s : Engine Q) (ix : ℕ) : s.setWorker ix (s.workers ix) = s := by
  rw [setWorker, Function.update_eq_self]

theorem next_workerGone {ix : ℕ} (hcrashed : s.crashed = false) (hpool : s.poolReserved = false)
    (h1 : 1 ≤ ix) (h2 : ix ≤ workerCount) :
    (machine Q workerCount asserts).next s (.worker ix) = some s.crash := by
  simp only [machine, hcrashed, hpool, h1, h2, and_self, if_true, Bool.false_eq_true, if_false]

end Returns

/-- A worker makes a whole pop. -/
theorem next_pop {t : Engine (atomicQueues τ π)} {ix : ℕ}
    {q : TaskQueue (Cells (TaskRef τ) (Option π))} {r : Option (Entry τ π)}
    (hcrashed : t.crashed = false) (hpool : t.poolReserved = true) (h1 : 1 ≤ ix)
    (h2 : ix ≤ workerCount) (hpc : (t.workers ix).pc = .popping ())
    (hpop : (t.workers ix).taskQueue.pop = (q, r)) :
    (machine _ workerCount asserts).next t (.worker ix) = some
      (t.setWorker ix { t.workers ix with taskQueue := q, pc := .popReturns r }) := by
  have hstep : (atomicQueues τ π).pop.step (t.workers ix).taskQueue () = (q, .inr r) :=
    SharedCall.atomic_step (f := fun (_ : Unit) (q : TaskQueue (Cells (TaskRef τ) (Option π))) => q.pop)
      hpop
  rw [next_worker hcrashed hpool h1 h2, workerStep, step_popReturns hpc hstep]
  rfl

/-! ### One access -/

section Matches

variable {H : Engine (atomicQueues τ π) → EngineMove τ π → Prop}

/-- A worker is set, and nothing has taken effect. -/
theorem effective_unchanged {s : Engine (accessQueues τ π)} {ix : ℕ} {b : Bool}
    {ctx : WorkerExecutionContext (accessQueues τ π)}
    (h : ctx.effective b (s.main.use workerCount ix) =
      (s.workers ix).effective (helped ix) (s.main.use workerCount ix)) :
    (s.setWorker ix ctx).effective workerCount (Function.update helped ix b) =
      s.effective workerCount helped := by
  rw [effective_setWorker, h]
  exact setWorker_eq_self _ ix

/-- The pop of a worker takes effect. -/
theorem next_effective_pop {s : Engine (accessQueues τ π)} {ix : ℕ} {b : Bool}
    {ctx : WorkerExecutionContext (accessQueues τ π)} {fr : PopPc (TaskRef τ) (Option π)}
    {r : Option (Entry τ π)} (hcrashed : s.crashed = false) (hpool : s.poolReserved = true)
    (h1 : 1 ≤ ix) (h2 : ix ≤ workerCount) (hpc : (s.workers ix).pc = .popping fr)
    (hnone : TaskQueue.popResult (helped ix) (s.workers ix).taskQueue fr = none)
    (hctx : ctx.effective b (s.main.use workerCount ix) =
      { (s.workers ix).effective (helped ix) (s.main.use workerCount ix) with
        taskQueue := ctx.taskQueue.effective b (s.main.use workerCount ix) ctx.pc.pop
        pc := .popReturns r })
    (hpop : ((s.workers ix).taskQueue.effective (helped ix) (s.main.use workerCount ix)
      (some fr)).pop = (ctx.taskQueue.effective b (s.main.use workerCount ix) ctx.pc.pop, r)) :
    (machine _ workerCount asserts).next (s.effective workerCount helped) (.worker ix) =
      some ((s.setWorker ix ctx).effective workerCount (Function.update helped ix b)) := by
  have hbefore : (s.effective workerCount helped).workers ix =
      (s.workers ix).effective (helped ix) (s.main.use workerCount ix) := rfl
  rw [effective_setWorker, hctx, ← hbefore]
  refine next_pop hcrashed hpool h1 h2 ?_ ?_
  · rw [hbefore]
    simp only [WorkerExecutionContext.effective, WorkerPc.effective, hpc, hnone]
    rfl
  · rw [hbefore]
    simp only [WorkerExecutionContext.effective, hpc]
    exact hpop

/-- One access of a pop is matched by no step or by the whole pop. -/
theorem AccessesOk.pop_matches {s s' : Engine (accessQueues τ π)} {ix : ℕ}
    {fr : PopPc (TaskRef τ) (Option π)} (h : AccessesOk workerCount helped s)
    (hcrashed : s.crashed = false) (hpool : s.poolReserved = true) (h1 : 1 ≤ ix)
    (h2 : ix ≤ workerCount) (hpc : (s.workers ix).pc = .popping fr)
    (hg : (s.main.use workerCount ix).pushStarted = false)
    (hH : H (s.effective workerCount helped) (.worker ix)) (hn : s.workerStep ix = some s') :
    ∃ helped', AccessesOk workerCount helped' s' ∧
      (machine _ workerCount asserts).Matches H EngineMove.visible (s.effective workerCount helped)
        (.worker ix) (s'.effective workerCount helped') := by
  have hcalls := h.calls ix
  rw [hpc] at hcalls
  have hok := TaskQueue.CallsOk.pop_step hcalls hg
  rcases hstep : (s.workers ix).taskQueue.popStep fr with ⟨q, fr' | r⟩
  · rw [hstep] at hok
    obtain ⟨b, hcalls', hcases⟩ := hok
    have haccess : (accessQueues τ π).pop.step (s.workers ix).taskQueue fr = (q, .inl fr') := hstep
    rw [workerStep, WorkerExecutionContext.step, hpc] at hn
    simp only [haccess] at hn
    obtain rfl := Option.some.inj hn
    refine ⟨Function.update helped ix b, h.of_setWorker rfl (fun _ _ => rfl) hcalls'
      (fun _ _ => ⟨h1, h2⟩) h.pool, ?_⟩
    rcases hcases with ⟨hresult, hqueue⟩ | ⟨r, hnone, hresult, hpop⟩
    · refine Machine.matches_nothing (effective_unchanged ?_) rfl
      simp only [WorkerExecutionContext.effective, WorkerPc.effective, WorkerPc.pop, hpc, hresult, hqueue]
    · refine Machine.matches_same hH (next_effective_pop (r := r) hcrashed hpool h1 h2 hpc hnone ?_ hpop)
      simp only [WorkerExecutionContext.effective, WorkerPc.effective, hresult]
      rfl
  · rw [hstep] at hok
    obtain ⟨hcalls', hresult, hqueue⟩ := hok
    rw [workerStep, step_popReturns hpc hstep] at hn
    obtain rfl := Option.some.inj hn
    have hreturned : (WorkerPc.popReturns r : WorkerPc (accessQueues τ π)).pop = none := by
      cases r <;> rfl
    refine ⟨Function.update helped ix false, h.of_setWorker rfl (fun _ _ => rfl) ?_
      (fun _ _ => ⟨h1, h2⟩) h.pool, ?_⟩
    · rw [hreturned]
      exact hcalls'
    · refine Machine.matches_nothing (effective_unchanged ?_) rfl
      cases r <;> simp only [WorkerExecutionContext.effective, WorkerPc.popReturns,
        WorkerPc.effective, WorkerPc.pop, WorkerPc.afterPop, hpc, hresult, hqueue]

/-- The main thread makes an access to a queue, and the pop of the worker stays where it is. -/
theorem effective_access {s : Engine (accessQueues τ π)} {ix : ℕ} {b : Bool}
    {q : TaskQueue (Cells (TaskRef τ) (Option π))} {pc : MainPc (accessQueues τ π)}
    (huse : ∀ j, j ≠ ix → pc.use workerCount j = s.main.use workerCount j)
    (hpc : (s.workers ix).pc.effective b q =
      (s.workers ix).pc.effective (helped ix) (s.workers ix).taskQueue) :
    ({ s.setQueue ix q with main := pc } : Engine (accessQueues τ π)).effective workerCount
        (Function.update helped ix b) =
      { (s.effective workerCount helped).setQueue ix
          (q.effective b (pc.use workerCount ix) (s.workers ix).pc.pop) with
        main := pc.effective } := by
  have hctx : ({ s.workers ix with taskQueue := q } :
      WorkerExecutionContext (accessQueues τ π)).effective b (pc.use workerCount ix) =
      { (s.effective workerCount helped).workers ix with
        taskQueue := q.effective b (pc.use workerCount ix) (s.workers ix).pc.pop } := by
    simp only [WorkerExecutionContext.effective, effective, hpc]
  have hset := effective_setWorker_main workerCount helped s ix b
    { s.workers ix with taskQueue := q } pc huse
  rw [hctx] at hset
  exact hset

theorem pop_eq_some {pc : WorkerPc (accessQueues τ π)} {fr : PopPc (TaskRef τ) (Option π)}
    (h : pc.pop = some fr) : pc = .popping fr := by
  cases pc with
  | popping fr' => exact congrArg WorkerPc.popping (Option.some.inj h)
  | _ => cases h

theorem pop_not_started {pc : WorkerPc (accessQueues τ π)} (h : pc.popStarted = false)
    (fr : PopPc (TaskRef τ) (Option π)) (hfr : pc.pop = some fr) : fr.started = false := by
  rw [WorkerPc.popStarted, hfr] at h
  exact h

theorem effective_of_not_started {pc : WorkerPc (accessQueues τ π)} (h : pc.popStarted = false)
    (b b' : Bool) (q q' : TaskQueue (Cells (TaskRef τ) (Option π))) :
    pc.effective b q = pc.effective b' q' := by
  cases pc with
  | popping fr =>
      cases fr with
      | loadBottom => rfl
      | _ => cases h
  | _ => rfl

theorem effective_same {s : Engine (accessQueues τ π)} {ix : ℕ} {b : Bool}
    {q : TaskQueue (Cells (TaskRef τ) (Option π))} {pc : MainPc (accessQueues τ π)}
    (huse : ∀ j, j ≠ ix → pc.use workerCount j = s.main.use workerCount j)
    (hpc : (s.workers ix).pc.effective b q =
      (s.workers ix).pc.effective (helped ix) (s.workers ix).taskQueue)
    (hqueue : q.effective b (pc.use workerCount ix) (s.workers ix).pc.pop =
      (s.workers ix).taskQueue.effective (helped ix) (s.main.use workerCount ix) (s.workers ix).pc.pop)
    (hmain : pc.effective = s.main.effective) :
    ({ s.setQueue ix q with main := pc } : Engine (accessQueues τ π)).effective workerCount
        (Function.update helped ix b) = s.effective workerCount helped := by
  have hself : (s.effective workerCount helped).setQueue ix
      ((s.workers ix).taskQueue.effective (helped ix) (s.main.use workerCount ix)
        (s.workers ix).pc.pop) = s.effective workerCount helped :=
    setQueue_taskQueue (s.effective workerCount helped) ix
  rw [effective_access huse hpc, hqueue, hself, hmain]
  rfl

theorem use_pushing_ne (workerCount i : ℕ) (rest : List (Entry τ π)) (fr : PushPc (TaskRef τ) (Option π))
    {j : ℕ} (hj : j ≠ targetIx workerCount i) :
    (MainPc.pushing i rest fr : MainPc (accessQueues τ π)).use workerCount j = .nothing :=
  if_neg (Ne.symm hj)

theorem use_pushing_self (workerCount i : ℕ) (rest : List (Entry τ π))
    (fr : PushPc (TaskRef τ) (Option π)) :
    (MainPc.pushing i rest fr : MainPc (accessQueues τ π)).use workerCount (targetIx workerCount i) =
      .push fr := if_pos rfl

/-- The push of the main thread takes effect. -/
theorem next_effective_push {s : Engine (accessQueues τ π)} {i : ℕ} {rest : List (Entry τ π)}
    {p : Entry τ π} {b : Bool} {q : TaskQueue (Cells (TaskRef τ) (Option π))}
    {pc : MainPc (accessQueues τ π)} {r : Option (Entry τ π)} (hcrashed : s.crashed = false)
    (hmain : s.main.effective = .pushing i rest p)
    (huse : ∀ j, j ≠ targetIx workerCount i → pc.use workerCount j = s.main.use workerCount j)
    (hself : (s.workers (targetIx workerCount i)).pc.effective b q =
      (s.workers (targetIx workerCount i)).pc.effective (helped (targetIx workerCount i))
        (s.workers (targetIx workerCount i)).taskQueue)
    (hpc : pc.effective = .pushReturns i rest r)
    (hpush : ((s.workers (targetIx workerCount i)).taskQueue.effective (helped (targetIx workerCount i))
      (s.main.use workerCount (targetIx workerCount i))
      (s.workers (targetIx workerCount i)).pc.pop).push p.1 p.2 =
      (q.effective b (pc.use workerCount (targetIx workerCount i))
        (s.workers (targetIx workerCount i)).pc.pop, r)) :
    (machine _ workerCount asserts).next (s.effective workerCount helped) .main =
      some (({ s.setQueue (targetIx workerCount i) q with main := pc } :
        Engine (accessQueues τ π)).effective workerCount
          (Function.update helped (targetIx workerCount i) b)) := by
  have hgoes : (s.effective workerCount helped).crashed = false := hcrashed
  rw [effective_access huse hself, next_main hgoes, hpc]
  exact mainStep_pushReturns hmain (QueueModel.atomic_push_step hpush)

theorem AccessesOk.of_access {s : Engine (accessQueues τ π)} {ix : ℕ} {b : Bool}
    {q : TaskQueue (Cells (TaskRef τ) (Option π))} {pc : MainPc (accessQueues τ π)}
    (h : AccessesOk workerCount helped s)
    (huse : ∀ j, j ≠ ix → pc.use workerCount j = s.main.use workerCount j)
    (hcalls : TaskQueue.CallsOk b (pc.use workerCount ix) (s.workers ix).pc.pop q)
    (hpool : s.poolReserved = true) (hpc : pc.isClosed = false) :
    AccessesOk workerCount (Function.update helped ix b)
      ({ s.setQueue ix q with main := pc } : Engine (accessQueues τ π)) := by
  refine h.of_setWorker rfl huse hcalls (h.popper ix) ?_
  change s.poolReserved = !pc.isClosed
  rw [hpool, hpc]
  rfl

/-- One access of a push is matched by no step or by the whole push. -/
theorem AccessesOk.push_matches {s s' : Engine (accessQueues τ π)} {i : ℕ} {rest : List (Entry τ π)}
    {fr : PushPc (TaskRef τ) (Option π)} (h : AccessesOk workerCount helped s)
    (hcrashed : s.crashed = false) (hmain : s.main = .pushing i rest fr)
    (hg : (s.workers (targetIx workerCount i)).pc.popStarted = false)
    (hH : (∃ p, fr.waiting = some p) → H (s.effective workerCount helped) .main)
    (hn : s.mainStep workerCount asserts = some s') :
    ∃ helped', AccessesOk workerCount helped' s' ∧
      (machine _ workerCount asserts).Matches H EngineMove.visible (s.effective workerCount helped)
        .main (s'.effective workerCount helped') := by
  have huse : s.main.use workerCount (targetIx workerCount i) = .push fr := by
    rw [hmain]
    exact use_pushing_self workerCount i rest fr
  have hpop := pop_not_started hg
  have hcalls := h.calls (targetIx workerCount i)
  have hfalse := hcalls.not_helped_of_not_started hpop
  rw [huse, hfalse] at hcalls
  have hok := hcalls.push_step hpop
  have hpool : s.poolReserved = true := by rw [h.pool, hmain]; rfl
  have hother : ∀ j, j ≠ targetIx workerCount i → s.main.use workerCount j = .nothing := by
    intro j hj
    rw [hmain]
    exact use_pushing_ne workerCount i rest fr hj
  have hself : ∀ q, (s.workers (targetIx workerCount i)).pc.effective false q =
      (s.workers (targetIx workerCount i)).pc.effective (helped (targetIx workerCount i))
        (s.workers (targetIx workerCount i)).taskQueue :=
    fun q => effective_of_not_started hg _ _ _ _
  have hbefore : ∀ p, fr.waiting = some p → s.main.effective = .pushing i rest p := by
    intro p hp
    simp only [hmain, MainPc.effective, hp]
  rcases hstep : (s.workers (targetIx workerCount i)).taskQueue.pushStep fr with ⟨q, fr' | r⟩
  · rw [hstep] at hok
    obtain ⟨hcalls', hcases⟩ := hok
    have haccess : (accessQueues τ π).push.step (s.workers (targetIx workerCount i)).taskQueue fr =
        (q, .inl fr') := hstep
    rw [mainStep, hmain] at hn
    simp only [haccess] at hn
    obtain rfl := Option.some.inj hn
    have huse' := use_pushing_self workerCount i rest fr'
    have hother' : ∀ j, j ≠ targetIx workerCount i →
        (MainPc.pushing i rest fr' : MainPc (accessQueues τ π)).use workerCount j =
          s.main.use workerCount j := by
      intro j hj
      rw [hother j hj]
      exact use_pushing_ne workerCount i rest fr' hj
    refine ⟨Function.update helped (targetIx workerCount i) false,
      h.of_access hother' (by rw [huse']; exact hcalls') hpool rfl, ?_⟩
    rcases hcases with ⟨hwaiting, hqueue⟩ | ⟨p, hp, hdone, hpush⟩
    · refine Machine.matches_nothing (effective_same hother' (hself q) ?_ ?_) rfl
      · rw [huse, huse', hfalse]
        exact hqueue
      · simp only [hmain, MainPc.effective, hwaiting]
    · refine Machine.matches_same (hH ⟨p, hp⟩)
        (next_effective_push (r := none) hcrashed (hbefore p hp) hother' (hself q) ?_ ?_)
      · simp only [MainPc.effective, hdone]
        rfl
      · rw [huse, huse', hfalse]
        exact hpush
  · rw [hstep] at hok
    obtain ⟨hcalls', hcases⟩ := hok
    rw [mainStep_pushReturns hmain hstep] at hn
    obtain rfl := Option.some.inj hn
    have huse' : ∀ j, (MainPc.pushReturns i rest r : MainPc (accessQueues τ π)).use workerCount j =
        .nothing := by
      intro j
      cases r <;> rfl
    have hother' : ∀ j, j ≠ targetIx workerCount i →
        (MainPc.pushReturns i rest r : MainPc (accessQueues τ π)).use workerCount j =
          s.main.use workerCount j := by
      intro j hj
      rw [hother j hj, huse']
    refine ⟨Function.update helped (targetIx workerCount i) false,
      h.of_access hother' (by rw [huse']; exact hcalls') hpool (by cases r <;> rfl), ?_⟩
    rcases hcases with ⟨p, hp, hpush⟩ | ⟨hdone, rfl, hqueue⟩
    · refine Machine.matches_same (hH ⟨p, hp⟩)
        (next_effective_push (r := r) hcrashed (hbefore p hp) hother' (hself q) ?_ ?_)
      · cases r <;> rfl
      · rw [huse, huse', hfalse]
        exact hpush
    · refine Machine.matches_nothing (effective_same hother' (hself q) ?_ ?_) rfl
      · rw [huse, huse', hfalse]
        exact hqueue
      · simp only [hmain, MainPc.effective, hdone]
        rfl

theorem use_stealing_ne (workerCount ix empties : ℕ) (fr : StealPc (TaskRef τ) (Option π))
    {j : ℕ} (hj : j ≠ ix) :
    (MainPc.stealing ix empties fr : MainPc (accessQueues τ π)).use workerCount j = .nothing :=
  if_neg (Ne.symm hj)

theorem use_stealing_self (workerCount ix empties : ℕ) (fr : StealPc (TaskRef τ) (Option π)) :
    (MainPc.stealing ix empties fr : MainPc (accessQueues τ π)).use workerCount ix = .steal fr :=
  if_pos rfl

/-- The steal of the main thread takes effect. -/
theorem AccessesOk.steal_returns {s : Engine (accessQueues τ π)} {ix empties : ℕ}
    {fr : StealPc (TaskRef τ) (Option π)} {q : TaskQueue (Cells (TaskRef τ) (Option π))}
    {r : Option (Entry τ π)} (asserts : Bool) (h : AccessesOk workerCount helped s)
    (hcrashed : s.crashed = false) (hmain : s.main = .stealing ix empties fr)
    (hcalls : TaskQueue.CallsOk (helped ix) .nothing (s.workers ix).pc.pop q)
    (hpair : ∀ i, q.pairAt i = (s.workers ix).taskQueue.pairAt i)
    (hsteal : ((s.workers ix).taskQueue.effective (helped ix) .nothing (s.workers ix).pc.pop).steal =
      (q.effective (helped ix) .nothing (s.workers ix).pc.pop, r)) :
    AccessesOk workerCount helped (s.stealReturns workerCount ix empties q r) ∧
      (machine _ workerCount asserts).next (s.effective workerCount helped) .main =
        some ((s.stealReturns workerCount ix empties q r).effective workerCount helped) := by
  have hpool : s.poolReserved = true := by rw [h.pool, hmain]; rfl
  have hself : (s.workers ix).pc.effective (helped ix) q =
      (s.workers ix).pc.effective (helped ix) (s.workers ix).taskQueue := by
    cases (s.workers ix).pc with
    | popping fr => exact congrArg WorkerPc.afterPop (TaskQueue.popResult_congr hpair fr)
    | _ => rfl
  have hnext : (machine _ workerCount asserts).next (s.effective workerCount helped) .main =
      some ((s.effective workerCount helped).stealReturns workerCount ix empties
        (q.effective (helped ix) .nothing (s.workers ix).pc.pop) r) := by
    have hgoes : (s.effective workerCount helped).crashed = false := hcrashed
    have heffective : (s.effective workerCount helped).main = .stealing ix empties () := by
      change s.main.effective = _
      rw [hmain]
      rfl
    rw [next_main hgoes]
    refine mainStep_stealReturns heffective (QueueModel.atomic_steal_step ?_ _)
    have huse : s.main.use workerCount ix = .steal fr := by
      rw [hmain]
      exact use_stealing_self workerCount ix empties fr
    change ((s.workers ix).taskQueue.effective (helped ix) (s.main.use workerCount ix)
      (s.workers ix).pc.pop).steal = _
    rw [huse]
    exact hsteal
  have hgo : ∀ pc : MainPc (accessQueues τ π), (∀ j, pc.use workerCount j = .nothing) →
      pc.isClosed = false →
      AccessesOk workerCount helped { s.setQueue ix q with main := pc } ∧
        ({ s.setQueue ix q with main := pc } : Engine (accessQueues τ π)).effective workerCount helped =
          { (s.effective workerCount helped).setQueue ix
              (q.effective (helped ix) .nothing (s.workers ix).pc.pop) with
            main := pc.effective } := by
    intro pc hpc hclosed
    have huse : ∀ j, j ≠ ix → pc.use workerCount j = s.main.use workerCount j := by
      intro j hj
      rw [hpc, hmain]
      exact (use_stealing_ne workerCount ix empties fr hj).symm
    have haccess := h.of_access (b := helped ix) huse (by rw [hpc]; exact hcalls) hpool hclosed
    have heffective := effective_access huse hself
    rw [Function.update_eq_self] at haccess heffective
    rw [hpc] at heffective
    exact ⟨haccess, heffective⟩
  rw [hnext]
  cases r with
  | some e =>
      obtain ⟨haccess, heffective⟩ := hgo (.stolen ix e) (fun _ => rfl) rfl
      exact ⟨haccess, congrArg some heffective.symm⟩
  | none =>
      simp only [stealReturns]
      split
      · exact ⟨⟨h.calls, h.popper, h.pool⟩, rfl⟩
      · obtain ⟨haccess, heffective⟩ := hgo (.syncing (targetIx workerCount ix) (empties + 1))
          (fun _ => rfl) rfl
        exact ⟨haccess, congrArg some heffective.symm⟩

/-- One access of a steal is matched by no step, by the whole steal, or by a pop and the steal. -/
theorem AccessesOk.steal_matches {s s' : Engine (accessQueues τ π)} {ix empties : ℕ}
    {fr : StealPc (TaskRef τ) (Option π)} (h : AccessesOk workerCount helped s)
    (hcrashed : s.crashed = false) (hmain : s.main = .stealing ix empties fr)
    (hworker : ∀ t, H t (.worker ix))
    (hsteal : ∀ t : Engine (atomicQueues τ π), t.main = .stealing ix empties () → H t .main)
    (hn : s.mainStep workerCount asserts = some s') :
    ∃ helped', AccessesOk workerCount helped' s' ∧
      (machine _ workerCount asserts).Matches H EngineMove.visible (s.effective workerCount helped)
        .main (s'.effective workerCount helped') := by
  have hpool : s.poolReserved = true := by rw [h.pool, hmain]; rfl
  have huse : s.main.use workerCount ix = .steal fr := by
    rw [hmain]
    exact use_stealing_self workerCount ix empties fr
  have heffective : ∀ helped, (s.effective workerCount helped).main = .stealing ix empties () := by
    intro helped
    change s.main.effective = _
    rw [hmain]
    rfl
  have hcalls := h.calls ix
  rw [huse] at hcalls
  have hok := hcalls.steal_step
  rcases hstep : (s.workers ix).taskQueue.stealStep fr with ⟨q, fr' | r⟩
  · rw [hstep] at hok
    obtain ⟨rfl, hcalls'⟩ := hok
    have haccess : (accessQueues τ π).steal.step (s.workers ix).taskQueue fr =
        ((s.workers ix).taskQueue, .inl fr') := hstep
    rw [mainStep, hmain] at hn
    simp only [haccess] at hn
    obtain rfl := Option.some.inj hn
    have huse' := use_stealing_self workerCount ix empties fr'
    have hother : ∀ j, j ≠ ix →
        (MainPc.stealing ix empties fr' : MainPc (accessQueues τ π)).use workerCount j =
          s.main.use workerCount j := by
      intro j hj
      rw [hmain, use_stealing_ne workerCount ix empties fr' hj]
      exact (use_stealing_ne workerCount ix empties fr hj).symm
    refine ⟨Function.update helped ix (helped ix),
      h.of_access hother (by rw [huse']; exact hcalls') hpool rfl,
      Machine.matches_nothing (effective_same hother rfl ?_ ?_) rfl⟩
    · rw [huse, huse']
      rfl
    · rw [hmain]
      rfl
  · rw [hstep] at hok
    rw [mainStep_stealReturns hmain hstep] at hn
    obtain rfl := Option.some.inj hn
    rcases hok with ⟨hcalls', hpair, hsteals⟩ | ⟨hfalse, rfl, rfl, hcalls', ⟨fr', hfr', hnone, htaken⟩,
      hpop, hfails⟩
    · obtain ⟨hok', hnext⟩ := h.steal_returns asserts hcrashed hmain hcalls' hpair hsteals
      exact ⟨helped, hok', Machine.matches_same (hsteal _ (heffective helped)) hnext⟩
    · -- the worker is about to take the last entry: its pop goes first
      have hpopper := h.popper ix fr' hfr'
      have hpc : (s.workers ix).pc = .popping fr' := pop_eq_some hfr'
      have hmid : AccessesOk workerCount (Function.update helped ix true) s := by
        have hsame : s.workers = (s.setWorker ix (s.workers ix)).workers := by rw [setWorker_eq_self]
        refine h.of_setWorker hsame (fun _ _ => rfl) ?_ (h.popper ix) h.pool
        rw [huse]
        exact hcalls'
      have hpopped : (machine _ workerCount asserts).next (s.effective workerCount helped)
          (.worker ix) = some (s.effective workerCount (Function.update helped ix true)) := by
        have hbefore : TaskQueue.popResult (helped ix) (s.workers ix).taskQueue fr' = none := by
          rw [hfalse]
          exact hnone
        have hctx : (s.workers ix).effective true (s.main.use workerCount ix) =
            { (s.workers ix).effective (helped ix) (s.main.use workerCount ix) with
              taskQueue := (s.workers ix).taskQueue.effective true (s.main.use workerCount ix)
                (s.workers ix).pc.pop
              pc := .popReturns (some ((s.workers ix).taskQueue.pairAt (s.workers ix).taskQueue.top)) } := by
          simp only [WorkerExecutionContext.effective, WorkerPc.effective, hpc, htaken]
          rfl
        have heffect : (machine _ workerCount asserts).next (s.effective workerCount helped)
            (.worker ix) = some ((s.setWorker ix (s.workers ix)).effective workerCount
              (Function.update helped ix true)) :=
          next_effective_pop hcrashed hpool hpopper.1 hpopper.2 hpc hbefore hctx
            (by rw [huse, hfalse, ← hfr']; exact hpop)
        rw [setWorker_eq_self] at heffect
        exact heffect
      have hhelped : Function.update helped ix true ix = true := Function.update_self ix true helped
      obtain ⟨hok', hnext⟩ := hmid.steal_returns asserts hcrashed hmain
        (by rw [hhelped]; exact hcalls'.withUse trivial) (fun _ => rfl) (by rw [hhelped]; exact hfails)
      exact ⟨_, hok', (Machine.matches_same (hsteal _ (heffective _)) hnext).before rfl (hworker _)
        hpopped⟩

/-- The main thread is storing what it pushes. -/
def stores (s : Engine (accessQueues τ π)) : Bool := match s.main with
  | .pushing _ _ fr => (PushPc.waiting fr).isNone
  | _ => false

/-- Runs of accesses that keep to `G` are runs of operations that keep to `H`, which says nothing
but when the main thread may push and read the flags. -/
structure Transfers (workerCount : ℕ) (G : Engine (accessQueues τ π) → EngineMove τ π → Prop)
    (H : Engine (atomicQueues τ π) → EngineMove τ π → Prop) : Prop where
  apart : ∀ s move, G s move → Apart workerCount s move
  others : ∀ t move, move ≠ .main → H t move
  steals : ∀ t ix empties, t.main = .stealing ix empties () → H t .main
  main : ∀ s helped, AccessesOk workerCount helped s → G s .main → s.stores = false →
    H (s.effective workerCount helped) .main

variable {G : Engine (accessQueues τ π) → EngineMove τ π → Prop}

theorem AccessesOk.step {s s' : Engine (accessQueues τ π)} {move : EngineMove τ π}
    (hGH : Transfers workerCount G H) (h : AccessesOk workerCount helped s) (hG : G s move)
    (hn : (machine _ workerCount asserts).next s move = some s') :
    ∃ helped', AccessesOk workerCount helped' s' ∧
      (machine _ workerCount asserts).Matches H EngineMove.visible (s.effective workerCount helped)
        move (s'.effective workerCount helped') := by
  have hcrashed := (next_step hn).1
  have hapart := hGH.apart s move hG
  cases hacc : s.accessesQueue move with
  | false =>
      have hH : H (s.effective workerCount helped) move := by
        by_cases hmove : move = .main
        · subst hmove
          refine hGH.main s helped h hG ?_
          rw [accessesQueue] at hacc
          rw [stores]
          cases hmain : s.main with
          | pushing => rw [hmain] at hacc; cases hacc
          | _ => rfl
        · exact hGH.others _ move hmove
      refine ⟨helped, h.next hacc hn, Machine.matches_same hH ?_⟩
      rw [next_effective helped hacc, hn]
      rfl
  | true =>
      cases move with
      | main =>
          rw [next_main hcrashed] at hn
          cases hmain : s.main with
          | pushing i rest fr =>
              rw [Apart, hmain] at hapart
              refine h.push_matches hcrashed hmain hapart ?_ hn
              rintro ⟨p, hp⟩
              refine hGH.main s helped h hG ?_
              rw [stores, hmain]
              exact congrArg Option.isNone hp
          | stealing ix empties fr =>
              exact h.steal_matches hcrashed hmain (fun t => hGH.others t _ (fun he => by cases he))
                (fun t ht => hGH.steals t ix empties ht) hn
          | _ =>
              rw [accessesQueue, hmain] at hacc
              cases hacc
      | worker ix =>
          cases hpc : (s.workers ix).pc with
          | popping fr =>
              have hbounds := h.popper ix fr (by rw [hpc]; rfl)
              have hH : H (s.effective workerCount helped) (.worker ix) :=
                hGH.others _ _ fun he => by cases he
              rw [Apart, hpc] at hapart
              cases hpool : s.poolReserved with
              | true =>
                  rw [next_worker hcrashed hpool hbounds.1 hbounds.2] at hn
                  exact h.pop_matches hcrashed hpool hbounds.1 hbounds.2 hpc hapart hH hn
              | false =>
                  rw [next_workerGone hcrashed hpool hbounds.1 hbounds.2] at hn
                  obtain rfl := Option.some.inj hn
                  exact ⟨helped, ⟨h.calls, h.popper, h.pool⟩,
                    Machine.matches_same hH (next_workerGone hcrashed hpool hbounds.1 hbounds.2)⟩
          | _ =>
              rw [accessesQueue, hpc] at hacc
              cases hacc
      | _ => cases hacc

end Matches

end Engine
end ProjectDelta
