import ProjectDelta.Engine

/-!
# Shutting the engine down

No step of the program stores `shouldClose`, so no worker ever leaves
`WorkerProc`. The join returns all the same, because `Thread_JoinMultiple` hands
`WaitForMultipleObjects` pointers that are not handles, and the master pool is
released while the workers still run on it.
-/

namespace ProjectDelta

variable {τ π : Type} {Q : EngineQueues τ π}

/-- The worker is in its loop and is not told to leave it. -/
def WorkerExecutionContext.Stays (ctx : WorkerExecutionContext Q) : Prop :=
  ctx.shouldClose = false ∧ ctx.pc.hasLeft = false

namespace Engine

theorem WorkerChange.stays {ctx ctx' : WorkerExecutionContext Q} (h : WorkerChange ctx ctx')
    (hctx : ctx.Stays) : ctx'.Stays := by
  obtain ⟨hclose, hleft⟩ := hctx
  cases h with
  | step hmove =>
      generalize ctx.pc = pc at hmove
      cases hmove with
      | leave htrue => rw [hclose] at htrue; cases htrue
      | decrementNull => exact ⟨hclose, hleft⟩
      | _ => exact ⟨hclose, rfl⟩
  | taskEnds arena hpc => exact ⟨hclose, rfl⟩
  | _ => exact ⟨hclose, hleft⟩

variable {workerCount : ℕ} {asserts : Bool}

theorem reach_stays {s s' : Engine Q} (hs : (machine Q workerCount asserts).Reach s s')
    (h : ∀ ix, (s.workers ix).Stays) (ix : ℕ) : (s'.workers ix).Stays := by
  have hinv : ∀ j, (s'.workers j).Stays := hs.invariant (I := fun a => ∀ j, (a.workers j).Stays)
    (fun a l b ha _ hn j => (next_change hn j).stays (ha j)) h
  exact hinv ix

def AllLeft (workerCount : ℕ) (s : Engine Q) : Prop :=
  ∀ ix, 1 ≤ ix → ix ≤ workerCount → (s.workers ix).pc.hasLeft = true

/-- From here on the master pool is released only after every worker has left. -/
def ReleasedAfterWorkers (workerCount : ℕ) (asserts : Bool) (s : Engine Q) : Prop :=
  ∀ a b, (machine Q workerCount asserts).Reach s a → a.main = .releasing →
    (machine Q workerCount asserts).next a .main = some b → AllLeft workerCount a

/-- Some continuation ends with every worker gone and the join over. -/
def JoinsWorkers (workerCount : ℕ) (asserts : Bool) (s : Engine Q) : Prop :=
  ∃ a, (machine Q workerCount asserts).Reach s a ∧ AllLeft workerCount a ∧
    (a.main = .releasing ∨ a.main = .closed)

theorem not_allLeft {s : Engine Q} (hcount : 1 ≤ workerCount) (h : ∀ ix, (s.workers ix).Stays) :
    ¬ AllLeft workerCount s := by
  intro hall
  have hleft := hall 1 le_rfl hcount
  rw [(h 1).2] at hleft
  cases hleft

/-- The join returns at once, whatever the workers do. -/
theorem waitReturns_sThreads (s : Engine Q) (hcount : 1 ≤ workerCount) :
    s.waitReturns (sThreads workerCount) = true := by
  have hmem : WaitValue.threadStruct 1 ∈ sThreads workerCount :=
    List.mem_map.mpr ⟨0, List.mem_range.mpr hcount, rfl⟩
  rw [waitReturns, Bool.or_eq_true]
  left
  exact List.any_eq_true.mpr ⟨_, hmem, rfl⟩

theorem releases_at_once (asserts : Bool) {s : Engine Q} (hcount : 1 ≤ workerCount) (hcrashed : s.crashed = false) :
    ∃ a b, (machine Q workerCount asserts).Reach { s with main := .joining } a ∧
      a.main = .releasing ∧ (machine Q workerCount asserts).next a .main = some b := by
  let joining : Engine Q := { s with main := .joining }
  let releasing : Engine Q := { s with main := .releasing }
  have hjoin : (machine Q workerCount asserts).next joining .main = some releasing :=
    (next_main (s := joining) hcrashed).trans (if_pos (waitReturns_sThreads joining hcount))
  have hrelease : (machine Q workerCount asserts).next releasing .main =
      some { s with main := .closed, poolReserved := false } := next_main (s := releasing) hcrashed
  exact ⟨_, _, (Machine.ReachIf.refl joining).tail trivial hjoin, rfl, hrelease⟩

theorem not_releasedAfterWorkers {s : Engine Q} (hcount : 1 ≤ workerCount)
    (hcrashed : s.crashed = false) (hstays : ∀ ix, (s.workers ix).Stays) :
    ¬ ReleasedAfterWorkers workerCount asserts { s with main := .joining } := by
  intro h
  obtain ⟨a, b, ha, hmain, hb⟩ := releases_at_once asserts hcount hcrashed
  exact not_allLeft hcount (reach_stays ha hstays) (h a b ha hmain hb)

theorem not_joinsWorkers {s : Engine Q} (hcount : 1 ≤ workerCount)
    (hstays : ∀ ix, (s.workers ix).Stays) : ¬ JoinsWorkers workerCount asserts s := by
  rintro ⟨a, ha, hall, -⟩
  exact not_allLeft hcount (reach_stays ha hstays) hall

theorem start_stays (k : ℕ) (slots : ℕ → Cells (TaskRef τ) (Option π)) (p : DependencyCounterPtr)
    (arenas : ℕ → ThreadArena) (ix : ℕ) :
    ((start k slots p arenas : Engine Q).workers ix).Stays := ⟨rfl, rfl⟩

/-- Shutdown is never ordered after the workers: the pool is released under them,
and no continuation sees them leave. -/
theorem shutdown_before_workers (Q : EngineQueues τ π) (workerCount : ℕ) (hcount : 1 ≤ workerCount)
    (asserts : Bool) (k : ℕ) (slots : ℕ → Cells (TaskRef τ) (Option π)) (p : DependencyCounterPtr)
    (arenas : ℕ → ThreadArena) (s s' : Engine Q)
    (hs : (machine Q workerCount asserts).Reach (start k slots p arenas) s)
    (hshutdown : (machine Q workerCount asserts).next s .shutdown = some s') :
    ¬ ReleasedAfterWorkers workerCount asserts s' ∧ ¬ JoinsWorkers workerCount asserts s' := by
  have hstays : ∀ ix, (s.workers ix).Stays := reach_stays hs (start_stays k slots p arenas)
  obtain ⟨hcrashed, hstep⟩ := next_step hshutdown
  cases hstep with
  | shutdown hidle =>
      exact ⟨not_releasedAfterWorkers hcount hcrashed hstays,
        not_joinsWorkers (s := { s with main := .joining }) hcount hstays⟩

theorem shutdown_before_one_worker :
    let s : Engine (QueueModel.accesses (TaskRef Unit) (Option Unit)) :=
      { oneWorker _ with main := .joining }
    ¬ ReleasedAfterWorkers 1 true s ∧ ¬ JoinsWorkers 1 true s :=
  shutdown_before_workers _ 1 le_rfl true 0 _ .null _ (oneWorker _) _ (Machine.ReachIf.refl _) rfl

/-- Shutdown right after start-up: the pool goes while the worker is in its loop. -/
theorem pool_released_under_worker :
    ¬ ∀ s s' : Engine (QueueModel.accesses (TaskRef Unit) (Option Unit)),
      (machine _ 1 true).Reach (oneWorker _) s → (machine _ 1 true).next s .shutdown = some s' →
        ReleasedAfterWorkers 1 true s' ∧ JoinsWorkers 1 true s' := by
  intro h
  have hordered := h (oneWorker _) _ (Machine.ReachIf.refl _) rfl
  exact not_releasedAfterWorkers le_rfl rfl (start_stays 0 _ .null _) hordered.1

end Engine
end ProjectDelta
