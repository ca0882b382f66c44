import ProjectDelta.Conservation

/-!
# Entries in any run, with overfull pushes too

A push onto a queue of exactly `size` entries stores its pair over the oldest one: the
new entry is then there twice, and the old one is gone. Still no step makes an entry
other than the one that it pushes. So every entry that is anywhere was submitted, and
an entry that `TaskQueue_Push` runs itself is nowhere else, then and ever after.
-/

namespace ProjectDelta

variable {τ π : Type}

namespace TaskQueue

variable {q q' : TaskQueue (Cells τ π)} {p e : τ × π} {P : τ × π → Bool}

/-- A pop takes the newest pair, whatever the slots hold. -/
theorem pop_split (h : q.pop = (q', some e)) : q.held = q'.held ++ [e] := by
  rcases lt_trichotomy (q.top + 1) q.bottom with hmore | hlast | hempty
  · rw [q.pop_more hmore] at h
    obtain ⟨rfl, he⟩ := Prod.mk.inj h
    obtain rfl := Option.some.inj he
    have hle : q.top ≤ q.bottom - 1 := by omega
    have hsnoc := q.pairsIn_snoc hle
    rw [Int.sub_add_cancel] at hsnoc
    exact hsnoc
  · rw [q.pop_last hlast] at h
    obtain ⟨rfl, he⟩ := Prod.mk.inj h
    obtain rfl := Option.some.inj he
    have hrest : (q.setTop (q.top + 1)).held = [] := q.pairsIn_empty hlast.ge
    rw [hrest, held, q.pairsIn_cons (by omega), q.pairsIn_empty hlast.ge]
    rfl
  · rw [q.pop_empty (by omega)] at h
    cases (Prod.mk.inj h).2

theorem steal_split (h : q.steal = (q', some e)) : q.held = e :: q'.held := by
  rcases lt_or_ge q.top q.bottom with hlt | hle
  · rw [q.steal_oldest hlt] at h
    obtain ⟨rfl, he⟩ := Prod.mk.inj h
    obtain rfl := Option.some.inj he
    exact q.pairsIn_cons hlt
  · rw [q.steal_empty hle] at h
    cases (Prod.mk.inj h).2

/-- A slot holds the stored pair or what it held before. -/
theorem pairAt_store (q : TaskQueue (Cells τ π)) (task : τ) (payload : π) (b i : ℤ) :
    ((q.storeTask (q.slotIx b) task).storePayload (q.slotIx b) payload).pairAt i = (task, payload) ∨
      ((q.storeTask (q.slotIx b) task).storePayload (q.slotIx b) payload).pairAt i = q.pairAt i := by
  by_cases hslot : q.slotIx i = q.slotIx b
  · rw [← hslot]
    exact .inl (q.pairAt_store_self task payload i)
  · exact .inr (q.pairAt_store_ne task payload hslot)

/-- Pairs other than the pushed one do not become more, be there room for it or not. -/
theorem push_countP_le (h : q.push p.1 p.2 = (q', none)) (hp : P p = false) :
    q'.held.countP P ≤ q.held.countP P := by
  by_cases hfull : q.bottom - q.top > q.size
  · rw [q.push_full p.1 p.2 hfull] at h
    cases (Prod.mk.inj h).2
  · rw [q.push_room p.1 p.2 hfull] at h
    obtain ⟨rfl, -⟩ := Prod.mk.inj h
    generalize hstored : (q.storeTask (q.slotIx q.bottom) p.1).storePayload (q.slotIx q.bottom) p.2 =
      stored
    have hslots : ∀ i, stored.pairAt i = p ∨ stored.pairAt i = q.pairAt i := by
      rw [← hstored]
      exact q.pairAt_store p.1 p.2 q.bottom
    have hlast : stored.pairAt q.bottom = p := by
      rw [← hstored]
      exact q.pairAt_store_self p.1 p.2 q.bottom
    have htop : stored.top = q.top := by rw [← hstored]; rfl
    have hold : (stored.pairsIn q.top q.bottom).countP P ≤ q.held.countP P := by
      rw [pairsIn, held, pairsIn, List.countP_map, List.countP_map]
      refine List.countP_mono_left fun i _ hi => ?_
      rcases hslots i with hnew | hsame
      · rw [Function.comp_apply, hnew, hp] at hi
        cases hi
      · rwa [Function.comp_apply, hsame] at hi
    change (stored.pairsIn stored.top (q.bottom + 1)).countP P ≤ _
    rw [htop]
    rcases le_or_gt q.top q.bottom with hle | hlt
    · rw [stored.pairsIn_snoc hle, List.countP_append, hlast, List.countP_singleton, hp]
      exact hold
    · rw [stored.pairsIn_empty (by omega), List.countP_nil]
      exact Nat.zero_le _

end TaskQueue

/-- The entries that main has still to push, or runs in place of a push. -/
def MainPc.upcoming : MainPc (atomicQueues τ π) → List (Entry τ π)
  | .stolen _ _ | .stolenRunning _ _ _ => []
  | pc => pc.entries

namespace Engine

variable {workerCount : ℕ} {asserts : Bool} {P : Entry τ π → Bool}
  {s s' : Engine (atomicQueues τ π)} {move : EngineMove τ π}

/-- How many entries meet `P`, wherever they are. -/
def countEntries (workerCount : ℕ) (P : Entry τ π → Bool) (s : Engine (atomicQueues τ π)) : ℕ :=
  s.finished.countP P + s.main.entries.countP P +
    s.overWorkers workerCount fun ctx => ctx.entries.countP P

def hasSerial (m : ℕ) (e : Entry τ π) : Bool := e.1.serial == m

theorem countP_hasSerial (l : List (Entry τ π)) (m : ℕ) :
    l.countP (hasSerial m) = (l.map fun e => e.1.serial).count m :=
  (List.countP_map (p := fun n => n == m)).symm

/-! ### One step -/

theorem countEntries_of_main (hworkers : s'.workers = s.workers)
    (hmain : s'.finished.countP P + s'.main.entries.countP P ≤
      s.finished.countP P + s.main.entries.countP P) :
    s'.countEntries workerCount P ≤ s.countEntries workerCount P := by
  rw [countEntries, countEntries, overWorkers_congr hworkers]
  exact Nat.add_le_add_right hmain _

theorem countEntries_of_setWorker {ix : ℕ} {ctx : WorkerExecutionContext (atomicQueues τ π)}
    (h1 : 1 ≤ ix) (h2 : ix ≤ workerCount) (hworkers : s'.workers = (s.setWorker ix ctx).workers)
    (hbalance : s'.finished.countP P + s'.main.entries.countP P + ctx.entries.countP P ≤
      s.finished.countP P + s.main.entries.countP P + (s.workers ix).entries.countP P) :
    s'.countEntries workerCount P ≤ s.countEntries workerCount P := by
  have hsum := overWorkers_setWorker (fun c => c.entries.countP P) s h1 h2 ctx
  rw [countEntries, countEntries, overWorkers_congr hworkers]
  omega

theorem WorkerMove.countP_eq {ctx ctx' : WorkerExecutionContext (atomicQueues τ π)}
    {effect : SharedEffect} (hmove : WorkerMove ctx ctx.pc ctx' effect) :
    ctx'.entries.countP P = ctx.entries.countP P := by
  obtain ⟨queue, arena, semaphore, asleep, close, pc⟩ := ctx
  cases hmove with
  | popAccess hpop => exact (QueueModel.atomic_pop_returns hpop).elim
  | popped hpop =>
      have hsplit := TaskQueue.pop_split (QueueModel.atomic_pop hpop)
      simp only [WorkerExecutionContext.entries, WorkerPc.taken, List.nil_append, hsplit]
      exact (List.perm_append_comm.countP_eq P).symm
  | popFailed hpop =>
      obtain ⟨rfl, -⟩ := TaskQueue.pop_none (QueueModel.atomic_pop hpop)
      rfl
  | _ => rfl

/-- A step of main, where `p` is what it may be pushing. -/
theorem MainMove.countEntries_le (hW : 1 ≤ workerCount) (hscan : ScanIx workerCount s.main)
    (hpush : ∀ i rest p, s.main = .pushing i rest p → s'.main = .loadAsleep i rest → P p = false)
    (hmove : MainMove workerCount asserts s s.main s') :
    s'.countEntries workerCount P ≤ s.countEntries workerCount P := by
  generalize hmain : s.main = pc at hmove
  cases hmove with
  | pushAccess hstep => exact (QueueModel.atomic_push_returns hstep).elim
  | stealAccess hstep => exact (QueueModel.atomic_steal_returns hstep).elim
  | crash => exact countEntries_of_main rfl le_rfl
  | @pushInline i rest p e q hstep =>
      obtain ⟨rfl, rfl, -⟩ := TaskQueue.push_inline (QueueModel.atomic_push hstep)
      rw [setQueue_taskQueue]
      exact countEntries_of_main rfl (by rw [hmain]; exact le_rfl)
  | @pushed i rest p q hstep =>
      have hp := hpush i rest p hmain rfl
      have hqueue := TaskQueue.push_countP_le (QueueModel.atomic_push hstep) hp
      obtain ⟨h1, h2⟩ := targetIx_bounds hW i
      have hmine : s.main.entries.countP P = rest.countP P := by
        rw [hmain]
        exact List.countP_cons_of_neg (Bool.eq_false_iff.mp hp)
      refine countEntries_of_setWorker h1 h2 rfl ?_
      rw [hmine]
      simp only [setQueue, setWorker, MainPc.entries, WorkerExecutionContext.entries,
        List.countP_append]
      omega
  | @stole ix empties fr e q hstep =>
      simp only [ScanIx, hmain] at hscan
      have hsplit := TaskQueue.steal_split (QueueModel.atomic_steal hstep)
      refine countEntries_of_setWorker hscan.1 hscan.2 rfl ?_
      simp only [setQueue, setWorker, hmain, MainPc.entries, WorkerExecutionContext.entries, hsplit,
        List.countP_append, List.countP_cons, List.countP_nil]
      omega
  | @stealFailed ix empties fr q hstep =>
      obtain ⟨rfl, -⟩ := TaskQueue.steal_none (QueueModel.atomic_steal hstep)
      rw [setQueue_taskQueue]
      exact countEntries_of_main rfl (by rw [hmain]; exact le_rfl)
  | signal i rest =>
      obtain ⟨h1, h2⟩ := targetIx_bounds hW i
      refine countEntries_of_setWorker h1 h2 rfl ?_
      rw [hmain]
      exact le_rfl
  | enterPush i e rest => exact countEntries_of_main rfl (by rw [hmain]; exact le_rfl)
  | _ => exact countEntries_of_main rfl (by rw [hmain]; exact le_rfl)

/-- No step makes an entry other than the one that it pushes, and those of a new batch. -/
theorem countEntries_step (hW : 1 ≤ workerCount) (hscan : ScanIx workerCount s.main)
    (hpush : ∀ i rest p, s.main = .pushing i rest p → s'.main = .loadAsleep i rest → P p = false)
    (hn : (machine _ workerCount asserts).next s move = some s') :
    s'.countEntries workerCount P ≤
      s.countEntries workerCount P + (s.newEntries move).countP P := by
  have hold : s'.countEntries workerCount P ≤ s.countEntries workerCount P →
      s'.countEntries workerCount P ≤
        s.countEntries workerCount P + (s.newEntries move).countP P :=
    fun h => h.trans (Nat.le_add_right _ _)
  cases (next_step hn).2 with
  | workerGone | taskGone => exact hold le_rfl
  | batch tasks hidle =>
      have hsum : (s.beginBatch tasks).overWorkers workerCount
          (fun ctx => ctx.entries.countP P) = _ := overWorkers_congr (s := s) rfl
      rw [countEntries, countEntries, hsum, idle_entries hidle]
      change s.finished.countP P + (s.submit tasks).countP P + _ ≤ _ + (s.submit tasks).countP P
      rw [List.countP_nil]
      omega
  | sync hidle | shutdown hidle =>
      exact hold (countEntries_of_main rfl (by rw [idle_entries hidle]; exact le_rfl))
  | main hmove => exact hold (hmove.countEntries_le hW hscan hpush)
  | inlineEnds arena hmain | stolenEnds arena hmain =>
      refine hold (countEntries_of_main rfl ?_)
      simp only [hmain, MainPc.entries, List.countP_cons, List.countP_nil]
      omega
  | @worker ix ctx effect h1 h2 hmove =>
      obtain ⟨-, hfinished⟩ := apply_ghosts (s.setWorker ix ctx) effect
      refine hold (countEntries_of_setWorker h1 h2 (apply_workers _ effect) ?_)
      rw [hfinished, apply_main (s.setWorker ix ctx) effect, WorkerMove.countP_eq hmove]
      exact le_rfl
  | @workerEnds ix e arena h1 h2 hpc =>
      refine hold (countEntries_of_setWorker h1 h2 rfl ?_)
      simp only [setWorker, WorkerExecutionContext.entries, WorkerPc.taken, hpc, List.countP_append,
        List.countP_cons, List.countP_nil]
      omega

/-- What is pushed is among the entries of main. -/
theorem pushed_of_countEntries_zero (hzero : s.countEntries workerCount P = 0) {i : ℕ}
    {rest : List (Entry τ π)} {p : Entry τ π} (hmain : s.main = .pushing i rest p) :
    P p = false := by
  have hmine : s.main.entries.countP P = 0 := by
    rw [countEntries] at hzero
    omega
  rw [hmain] at hmine
  exact Bool.eq_false_iff.mpr (List.countP_eq_zero.mp hmine p List.mem_cons_self)

/-! ### Runs -/

/-- What main has still to push is nowhere else, and later numbers are nowhere yet. -/
structure UpcomingOnce (workerCount : ℕ) (s : Engine (atomicQueues τ π)) : Prop where
  scan : ScanIx workerCount s.main
  unused : ∀ m, s.submitted ≤ m → s.countEntries workerCount (hasSerial m) = 0
  once : ∀ e ∈ s.main.upcoming, s.countEntries workerCount (hasSerial e.1.serial) ≤ 1

/-- The numbers that a move hands out. -/
theorem newEntries_serials (s : Engine (atomicQueues τ π)) (move : EngineMove τ π) :
    ∃ count, (s.newEntries move).map (fun e => e.1.serial) = List.range' s.submitted count := by
  cases move with
  | batch tasks => exact ⟨tasks.length, batchEntries_serials s.submitted tasks⟩
  | _ => exact ⟨0, rfl⟩

theorem newEntries_count_le (s : Engine (atomicQueues τ π)) (move : EngineMove τ π) (m : ℕ) :
    (s.newEntries move).countP (hasSerial m) ≤ 1 := by
  obtain ⟨count, hserials⟩ := s.newEntries_serials move
  rw [countP_hasSerial, hserials]
  exact List.nodup_iff_count_le_one.mp List.nodup_range' m

theorem newEntries_count_zero (s : Engine (atomicQueues τ π)) (move : EngineMove τ π) {m : ℕ}
    (hm : m < s.submitted) : (s.newEntries move).countP (hasSerial m) = 0 := by
  obtain ⟨count, hserials⟩ := s.newEntries_serials move
  rw [countP_hasSerial, hserials]
  refine List.count_eq_zero_of_not_mem fun hmem => ?_
  have hrange := List.mem_range'_1.mp hmem
  omega

/-- A move that submits no batch leaves main with entries that it had. -/
theorem upcoming_next (hbatch : ∀ tasks, move ≠ .batch tasks)
    (hn : (machine _ workerCount asserts).next s move = some s') :
    s'.submitted = s.submitted ∧ ∀ e ∈ s'.main.upcoming, e ∈ s.main.upcoming := by
  cases (next_step hn).2 with
  | batch tasks => exact absurd rfl (hbatch tasks)
  | workerGone | taskGone | workerEnds => exact ⟨rfl, fun _ he => he⟩
  | sync | shutdown | stolenEnds => exact ⟨rfl, fun _ he => absurd he List.not_mem_nil⟩
  | inlineEnds arena hmain =>
      refine ⟨rfl, fun e he => ?_⟩
      rw [hmain]
      exact List.mem_cons_of_mem _ he
  | @worker ix ctx effect =>
      refine ⟨(apply_ghosts (s.setWorker ix ctx) effect).1, fun e he => ?_⟩
      rwa [apply_main (s.setWorker ix ctx) effect] at he
  | main hmove =>
      refine ⟨hmove.counts.2.1, fun e he => ?_⟩
      generalize hmain : s.main = pc at hmove
      cases hmove with
      | crash => rwa [← hmain]
      | pushAccess hstep => exact (QueueModel.atomic_push_returns hstep).elim
      | stealAccess hstep => exact (QueueModel.atomic_steal_returns hstep).elim
      | pushInline hstep =>
          obtain ⟨-, rfl, -⟩ := TaskQueue.push_inline (QueueModel.atomic_push hstep)
          exact he
      | pushed => exact List.mem_cons_of_mem _ he
      | enterPush | beginInline | asleep | awake | signal => exact he
      | _ => exact absurd he List.not_mem_nil

/-- A number that is in one place stays in one place, when it is not the one being pushed. -/
theorem UpcomingOnce.stays (hW : 1 ≤ workerCount) (h : UpcomingOnce workerCount s) {m : ℕ}
    (hone : s.countEntries workerCount (hasSerial m) ≤ 1)
    (hpush : ∀ i rest p, s.main = .pushing i rest p → s'.main = .loadAsleep i rest →
      hasSerial m (p : Entry τ π) = false)
    (hn : (machine _ workerCount asserts).next s move = some s') :
    s'.countEntries workerCount (hasSerial m) ≤ 1 := by
  have hle := countEntries_step hW h.scan hpush hn
  have hnew := s.newEntries_count_le move m
  rcases lt_or_ge m s.submitted with hlt | hge
  · rw [s.newEntries_count_zero move hlt] at hle
    exact hle.trans hone
  · rw [h.unused m hge] at hle
    omega

/-- The number of a finished entry that is nowhere else is not pushed again. -/
theorem UpcomingOnce.finished_stays (hW : 1 ≤ workerCount) (h : UpcomingOnce workerCount s)
    {e : Entry τ π} (he : e ∈ s.finished)
    (hone : s.countEntries workerCount (hasSerial e.1.serial) ≤ 1)
    (hn : (machine _ workerCount asserts).next s move = some s') :
    s'.countEntries workerCount (hasSerial e.1.serial) ≤ 1 := by
  refine h.stays hW hone (fun i rest p hmain _ => ?_) hn
  by_contra hserial
  have hpushed : 0 < s.main.entries.countP (hasSerial e.1.serial) := by
    rw [hmain]
    exact List.countP_pos_iff.mpr ⟨p, List.mem_cons_self, Bool.eq_true_of_not_eq_false hserial⟩
  have hfinished : 0 < s.finished.countP (hasSerial e.1.serial) :=
    List.countP_pos_iff.mpr ⟨e, he, beq_self_eq_true _⟩
  rw [countEntries] at hone
  omega

/-- A number that is nowhere is only put somewhere by a batch that brings it. -/
theorem UpcomingOnce.unused_stays (hW : 1 ≤ workerCount) (h : UpcomingOnce workerCount s) {m : ℕ}
    (hm : s.submitted ≤ m) (hnew : (s.newEntries move).countP (hasSerial m) = 0)
    (hn : (machine _ workerCount asserts).next s move = some s') :
    s'.countEntries workerCount (hasSerial m) = 0 := by
  have hzero := h.unused m hm
  have hle := countEntries_step (P := hasSerial m) hW h.scan
    (fun i rest p hmain _ => pushed_of_countEntries_zero hzero hmain) hn
  omega

/-- The entries of a batch are new, each with a number of its own. -/
theorem UpcomingOnce.batch (hW : 1 ≤ workerCount) (h : UpcomingOnce workerCount s)
    {tasks : List (τ × Option π)}
    (hn : (machine _ workerCount asserts).next s (.batch tasks) = some (s.beginBatch tasks)) :
    UpcomingOnce workerCount (s.beginBatch tasks) := by
  have hserials := batchEntries_serials s.submitted tasks
  refine ⟨trivial, fun m hm => ?_, fun e he => ?_⟩
  · change s.submitted + tasks.length ≤ m at hm
    refine h.unused_stays hW (by omega) ?_ hn
    rw [countP_hasSerial]
    refine List.count_eq_zero_of_not_mem fun hmem => ?_
    change m ∈ (batchEntries s.submitted tasks).map (fun e => e.1.serial) at hmem
    rw [hserials] at hmem
    have hlt := (List.mem_range'_1.mp hmem).2
    omega
  · have hmem : e.1.serial ∈ (batchEntries s.submitted tasks).map (fun e => e.1.serial) :=
      List.mem_map_of_mem he
    rw [hserials] at hmem
    have hunused := h.unused _ (List.mem_range'_1.mp hmem).1
    exact h.stays hW (by omega) (fun i rest p _ hmain => by cases hmain) hn

theorem UpcomingOnce.step (hW : 1 ≤ workerCount) (h : UpcomingOnce workerCount s)
    (hn : (machine _ workerCount asserts).next s move = some s') : UpcomingOnce workerCount s' := by
  by_cases hbatch : ∃ tasks, move = .batch tasks
  · obtain ⟨tasks, rfl⟩ := hbatch
    obtain ⟨-, hbegin⟩ := next_step hn
    cases hbegin
    exact h.batch hW hn
  · obtain ⟨hsubmitted, hupcoming⟩ := upcoming_next (fun tasks ht => hbatch ⟨tasks, ht⟩) hn
    refine ⟨h.scan.next hW hn, fun m hm => h.unused_stays hW (hsubmitted ▸ hm) ?_ hn, fun e he => ?_⟩
    · cases move with
      | batch tasks => exact absurd ⟨tasks, rfl⟩ hbatch
      | _ => rfl
    · have hone := h.once e (hupcoming e he)
      refine h.stays hW hone (fun i rest p hmain hpushed => ?_) hn
      -- another entry of the batch with the number of the pushed one would be a second place
      by_contra hserial
      rw [hpushed] at he
      have hfirst : hasSerial e.1.serial (p : Entry τ π) = true := Bool.eq_true_of_not_eq_false hserial
      have hrest : 0 < rest.countP (hasSerial e.1.serial) :=
        List.countP_pos_iff.mpr ⟨e, he, beq_self_eq_true _⟩
      have htwo : s.main.entries.countP (hasSerial e.1.serial) =
          rest.countP (hasSerial e.1.serial) + 1 := by
        rw [hmain]
        exact List.countP_cons_of_pos hfirst
      rw [countEntries] at hone
      omega

end Engine
end ProjectDelta
