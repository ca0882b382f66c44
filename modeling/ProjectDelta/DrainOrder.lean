import ProjectDelta.Barrier
import ProjectDelta.RoundRobin

/-!
# A batch drained by the main thread alone

`Scheduler_ProcessTaskBatch` deals a batch to the queues in turn, and
`Scheduler_Sync` steals from them in the same turn. While no worker consumes, the
queue whose turn it is has the next entry at its old end, so the tasks run in the
order of the batch.
-/

namespace ProjectDelta

variable {τ π : Type}

def WorkerPc.takesNothing : WorkerPc (atomicQueues τ π) → Bool
  | .popping _ | .decrement => false
  | _ => true

def MainPc.isOutside : MainPc (atomicQueues τ π) → Bool
  | .outside => true
  | _ => false

namespace Engine

open RoundRobin (turn share)

/-- The batch, one `Scheduler_Sync` after it and the tasks of the main thread, while no worker
takes an entry or has a task to finish. -/
def BatchThenSync (s : Engine (atomicQueues τ π)) : EngineMove τ π → Prop
  | .main | .mainTaskEnds _ => True
  | .sync => s.main.isOutside = true
  | .worker ix => (s.workers ix).pc.takesNothing = true
  | _ => False

instance (s : Engine (atomicQueues τ π)) : ∀ move, Decidable (BatchThenSync s move)
  | .main | .mainTaskEnds _ => isTrue trivial
  | .sync => inferInstanceAs (Decidable (s.main.isOutside = true))
  | .worker ix => inferInstanceAs (Decidable ((s.workers ix).pc.takesNothing = true))
  | .batch _ | .shutdown | .workerTaskEnds _ _ => isFalse id

/-- The moves that belong to the main thread. -/
def isMainMove : EngineMove τ π → Bool
  | .worker _ | .workerTaskEnds _ _ => false
  | _ => true

/-- The engine runs, with its pool. -/
def Alive (s : Engine (atomicQueues τ π)) : Prop := s.crashed = false ∧ s.poolReserved = true

/-- The queue of each worker holds its share. -/
def Shares (workerCount n : ℕ) (s : Engine (atomicQueues τ π)) (f : ℕ → List (Entry τ π)) : Prop :=
  ∀ j, 1 ≤ j → j ≤ workerCount → (s.workers j).taskQueue.Represents n (f j)

/-- Where the main thread is in the batch `all`, with at most `left` moves to go; `old` had
finished before. -/
def OrderOk (workerCount n : ℕ) (all old : List (Entry τ π)) (s : Engine (atomicQueues τ π))
    (left : ℕ) : Prop :=
  match s.main with
  | .submitting i rest => ∃ done, all = done ++ rest ∧ done.length = i ∧ s.finished = old ∧
      Shares workerCount n s (fun j => share workerCount j 0 done) ∧
        left = 4 * rest.length + 4 * all.length + 2 * workerCount + 5
  | .pushing i rest fr => ∃ done e, fr = (atomicQueues τ π).push.enter e ∧
      all = done ++ e :: rest ∧ done.length = i ∧ s.finished = old ∧
      Shares workerCount n s (fun j => share workerCount j 0 done) ∧
        left = 4 * rest.length + 4 * all.length + 2 * workerCount + 8
  | .loadAsleep i rest => ∃ done, all = done ++ rest ∧ done.length = i + 1 ∧ s.finished = old ∧
      Shares workerCount n s (fun j => share workerCount j 0 done) ∧
        left = 4 * rest.length + 4 * all.length + 2 * workerCount + 7
  | .signal i rest => ∃ done, all = done ++ rest ∧ done.length = i + 1 ∧ s.finished = old ∧
      Shares workerCount n s (fun j => share workerCount j 0 done) ∧
        left = 4 * rest.length + 4 * all.length + 2 * workerCount + 6
  | .outside => s.finished = old ∧ Shares workerCount n s (fun j => share workerCount j 0 all) ∧
      left = 4 * all.length + 2 * workerCount + 4
  | .syncing workerIx empties => ∃ gone rest, all = gone ++ rest ∧
      s.finished = gone.reverse ++ old ∧
      Shares workerCount n s (fun j => share workerCount j gone.length rest) ∧
      (rest ≠ [] → empties = 0 ∧ workerIx = turn workerCount gone.length) ∧
      (1 ≤ workerIx ∧ workerIx ≤ workerCount) ∧ empties ≤ workerCount + 1 ∧
        left = 4 * rest.length + 2 * (workerCount + 1 - empties) + 1
  | .stealing workerIx empties _ => ∃ gone rest, all = gone ++ rest ∧
      s.finished = gone.reverse ++ old ∧
      Shares workerCount n s (fun j => share workerCount j gone.length rest) ∧
      (rest ≠ [] → empties = 0 ∧ workerIx = turn workerCount gone.length) ∧
      (1 ≤ workerIx ∧ workerIx ≤ workerCount) ∧ empties ≤ workerCount ∧
        left = 4 * rest.length + 2 * (workerCount + 1 - empties)
  | .stolen workerIx e => ∃ gone rest, all = gone ++ e :: rest ∧
      s.finished = gone.reverse ++ old ∧
      Shares workerCount n s (fun j => share workerCount j (gone.length + 1) rest) ∧
      workerIx = turn workerCount gone.length ∧ left = 4 * rest.length + 2 * workerCount + 5
  | .stolenRunning workerIx e _ => ∃ gone rest, all = gone ++ e :: rest ∧
      s.finished = gone.reverse ++ old ∧
      Shares workerCount n s (fun j => share workerCount j (gone.length + 1) rest) ∧
      workerIx = turn workerCount gone.length ∧ left = 4 * rest.length + 2 * workerCount + 4
  | .synced => s.finished = all.reverse ++ old ∧ Shares workerCount n s (fun _ => []) ∧ left = 0
  | _ => False

variable {workerCount n left : ℕ} {asserts : Bool} {all old : List (Entry τ π)}
  {s s' : Engine (atomicQueues τ π)}

/-! ### One queue -/

theorem represents_push {q : TaskQueue (Cells (TaskRef τ) (Option π))} {l : List (Entry τ π)}
    (h : q.Represents n l) (e : Entry τ π) (hroom : l.length < n) :
    ∃ q', q.push e.1 e.2 = (q', none) ∧ q'.Represents n (l ++ [e]) := by
  obtain ⟨hout, hrep⟩ := h.push e hroom
  rcases hpush : q.push e.1 e.2 with ⟨q', _ | r⟩
  · simp only [TaskQueue.perform, hpush] at hrep
    exact ⟨q', rfl, hrep⟩
  · simp only [TaskQueue.perform, hpush] at hout
    cases hout

theorem represents_steal {q : TaskQueue (Cells (TaskRef τ) (Option π))} {l : List (Entry τ π)}
    (h : q.Represents n l) : ∃ q', q.steal = (q', l.head?) ∧ q'.Represents n l.tail := by
  obtain ⟨hout, hrep⟩ := h.steal
  simp only [TaskQueue.perform, BoundedDeque.Outcome.returned.injEq] at hout hrep
  exact ⟨q.steal.1, Prod.ext rfl hout, hrep⟩

theorem Shares.setQueue {f g : ℕ → List (Entry τ π)} (h : Shares workerCount n s f) {ix : ℕ}
    {q : TaskQueue (Cells (TaskRef τ) (Option π))} (hq : q.Represents n (g ix))
    (hg : ∀ j, j ≠ ix → g j = f j) : Shares workerCount n (s.setQueue ix q) g := by
  intro j hj hle
  by_cases hjx : j = ix
  · subst hjx
    simp only [Engine.setQueue, setWorker_self]
    exact hq
  · simp only [Engine.setQueue, setWorker_ne s _ hjx]
    rw [hg j hjx]
    exact h j hj hle

theorem Shares.signalSemaphore {f : ℕ → List (Entry τ π)} (h : Shares workerCount n s f) (ix : ℕ) :
    Shares workerCount n (s.signalSemaphore ix) f := by
  intro j hj hle
  by_cases hjx : j = ix
  · subst hjx
    simp only [Engine.signalSemaphore, setWorker_self]
    exact h j hj hle
  · simp only [Engine.signalSemaphore, setWorker_ne s _ hjx]
    exact h j hj hle

/-! ### Steps -/

/-- The target of position `i` has room: it has had `i / workerCount` entries. -/
theorem represents_push_share {done rest : List (Entry τ π)} {e : Entry τ π} (hW : 1 ≤ workerCount)
    (hall : all = done ++ e :: rest) (hlength : all.length ≤ workerCount * n)
    (h : Shares workerCount n s fun j => share workerCount j 0 done) :
    ∃ q', (s.workers (targetIx workerCount done.length)).taskQueue.push e.1 e.2 = (q', none) ∧
      Shares workerCount n (s.setQueue (targetIx workerCount done.length) q')
        fun j => share workerCount j 0 (done ++ [e]) := by
  have hroom : (share workerCount (turn workerCount done.length) 0 done).length < n := by
    rw [RoundRobin.length_share_turn hW]
    apply Nat.div_lt_of_lt_mul
    rw [hall, List.length_append, List.length_cons] at hlength
    omega
  obtain ⟨q', hpush, hrep⟩ := represents_push
    (h _ (RoundRobin.one_le_turn _ _) (RoundRobin.turn_le hW done.length)) e hroom
  refine ⟨q', hpush, h.setQueue ?_ fun j hj => ?_⟩
  · rw [RoundRobin.share_append_turn done e (by rw [Nat.zero_add]; rfl)]
    exact hrep
  · exact RoundRobin.share_append_other done e (by rw [Nat.zero_add]; exact fun heq => hj heq.symm)

/-- A step of the main thread inside `Scheduler_ProcessTaskBatch`. -/
theorem OrderOk.submit (hW : 1 ≤ workerCount) (hlength : all.length ≤ workerCount * n)
    (h : OrderOk workerCount n all old s left) (hin : s.inProcessTaskBatch = true) :
    ∃ s', s.mainStep workerCount asserts = some s' ∧ (s.Alive → s'.Alive) ∧
      ∃ m < left, OrderOk workerCount n all old s' m := by
  unfold OrderOk at h
  cases hmain : s.main with
  | submitting i rest =>
      rw [hmain] at h
      obtain ⟨done, hall, hdone, hfinished, hshares, hleft⟩ := h
      cases rest with
      | nil =>
          rw [List.append_nil] at hall
          subst hall
          refine ⟨{ s with main := .outside }, by simp only [mainStep, hmain], id, _, ?_,
            hfinished, hshares, rfl⟩
          omega
      | cons e rest =>
          refine ⟨{ s with main := .pushing i rest ((atomicQueues τ π).push.enter e) }, ?_, id, _,
            ?_, done, e, rfl, hall, hdone, hfinished, hshares, rfl⟩
          · simp only [mainStep, hmain, if_neg (show ¬ workerCount = 0 by omega)]
          · rw [hleft, List.length_cons]
            omega
  | pushing i rest fr =>
      rw [hmain] at h
      obtain ⟨done, e, hfr, hall, rfl, hfinished, hshares, hleft⟩ := h
      obtain ⟨q', hpush, hshares'⟩ := represents_push_share hW hall hlength hshares
      refine ⟨{ s.setQueue (targetIx workerCount done.length) q' with
        main := .loadAsleep done.length rest },
        by simp only [mainStep, hmain, hfr, QueueModel.atomic_push_step hpush], id, _, ?_, done ++ [e],
        by simpa using hall, by simp, hfinished, hshares', rfl⟩
      omega
  | loadAsleep i rest =>
      rw [hmain] at h
      obtain ⟨done, hall, hdone, hfinished, hshares, hleft⟩ := h
      by_cases hasleep : (s.workers (targetIx workerCount i)).isAsleep = true
      · refine ⟨{ s with main := .signal i rest }, by simp only [mainStep, hmain, if_pos hasleep],
          id, _, ?_, done, hall, hdone, hfinished, hshares, rfl⟩
        omega
      · refine ⟨{ s with main := .submitting (i + 1) rest },
          by simp only [mainStep, hmain, if_neg hasleep], id, _, ?_, done, hall, hdone, hfinished,
          hshares, rfl⟩
        omega
  | signal i rest =>
      rw [hmain] at h
      obtain ⟨done, hall, hdone, hfinished, hshares, hleft⟩ := h
      refine ⟨{ s.signalSemaphore (targetIx workerCount i) with main := .submitting (i + 1) rest },
        by simp only [mainStep, hmain], id, _, ?_, done, hall, hdone, hfinished,
        hshares.signalSemaphore _, rfl⟩
      omega
  | inlineReady | inlineRunning =>
      rw [hmain] at h
      exact h.elim
  | _ => simp [inProcessTaskBatch, hmain] at hin

/-- The queue whose turn it is gives up the next entry; the others are not touched. -/
theorem represents_steal_share {k : ℕ} {e : Entry τ π} {rest : List (Entry τ π)} (hW : 1 ≤ workerCount)
    (h : Shares workerCount n s fun j => share workerCount j k (e :: rest)) :
    ∃ q', (s.workers (turn workerCount k)).taskQueue.steal = (q', some e) ∧
      Shares workerCount n (s.setQueue (turn workerCount k) q')
        fun j => share workerCount j (k + 1) rest := by
  have hrep : (s.workers (turn workerCount k)).taskQueue.Represents n
      (share workerCount (turn workerCount k) k (e :: rest)) :=
    h _ (RoundRobin.one_le_turn _ _) (RoundRobin.turn_le hW k)
  rw [RoundRobin.share_turn e rest rfl] at hrep
  obtain ⟨q', hsteal, hrep'⟩ := represents_steal hrep
  refine ⟨q', hsteal, h.setQueue hrep' fun j hj => ?_⟩
  exact (RoundRobin.share_other e rest fun heq => hj heq.symm).symm

/-- Every queue is empty once the whole batch is out. -/
theorem steal_empty_share {k ix : ℕ} (hix : 1 ≤ ix) (hle : ix ≤ workerCount)
    (h : Shares workerCount n s fun j => share workerCount j k []) :
    ∃ q', (s.workers ix).taskQueue.steal = (q', none) ∧
      Shares workerCount n (s.setQueue ix q') fun j => share workerCount j k [] := by
  obtain ⟨q', hsteal, hrep⟩ := represents_steal (h ix hix hle)
  exact ⟨q', hsteal, h.setQueue hrep fun _ _ => rfl⟩

/-- A step of the main thread inside `Scheduler_Sync`. -/
theorem OrderOk.sync (hW : 1 ≤ workerCount) (hnonnull : ∀ e ∈ all, e.2.isSome)
    (h : OrderOk workerCount n all old s left) (hin : s.inProcessTaskBatch = false)
    (hidle : s.idle = false) (htask : ∀ ix e snapshot, s.main ≠ .stolenRunning ix e snapshot) :
    ∃ s', s.mainStep workerCount asserts = some s' ∧ (s.Alive → s'.Alive) ∧
      ∃ m < left, OrderOk workerCount n all old s' m := by
  unfold OrderOk at h
  cases hmain : s.main with
  | syncing ix empties =>
      rw [hmain] at h
      obtain ⟨gone, rest, hall, hfinished, hshares, hturn, hix, hempties, hleft⟩ := h
      by_cases hlt : empties < workerCount + 1
      · refine ⟨{ s with main := .stealing ix empties ((atomicQueues τ π).steal.enter ()) },
          by simp only [mainStep, hmain, if_pos hlt], id, _, ?_, gone, rest, hall, hfinished, hshares,
          hturn, hix, by omega, rfl⟩
        omega
      · -- a full round of failures, so the batch is out
        have hrest : rest = [] := by
          by_contra hne
          obtain ⟨hzero, -⟩ := hturn hne
          omega
        subst hrest
        rw [List.append_nil] at hall
        subst hall
        refine ⟨{ s with main := .synced }, by simp only [mainStep, hmain, if_neg hlt], id, 0, ?_,
          hfinished, hshares, rfl⟩
        omega
  | stealing ix empties fr =>
      rw [hmain] at h
      obtain ⟨gone, rest, hall, hfinished, hshares, hturn, ⟨hone, hle⟩, hempties, hleft⟩ := h
      cases rest with
      | nil =>
          obtain ⟨q', hsteal, hshares'⟩ := steal_empty_share hone hle hshares
          refine ⟨{ s.setQueue ix q' with
            main := .syncing (targetIx workerCount ix) (empties + 1) },
            by simp only [mainStep, hmain, QueueModel.atomic_steal_step hsteal,
              if_neg (show ¬ workerCount = 0 by omega)], id, _, ?_, gone, [], hall, hfinished,
            hshares', fun hne => absurd rfl hne, targetIx_bounds hW ix, by omega, rfl⟩
          rw [hleft, List.length_nil]
          omega
      | cons e rest =>
          obtain ⟨rfl, rfl⟩ := hturn (List.cons_ne_nil e rest)
          obtain ⟨q', hsteal, hshares'⟩ := represents_steal_share hW hshares
          refine ⟨{ s.setQueue (turn workerCount gone.length) q' with
            main := .stolen (turn workerCount gone.length) e },
            by simp only [mainStep, hmain, QueueModel.atomic_steal_step hsteal], id, _, ?_, gone, rest,
            hall, hfinished, hshares', rfl, rfl⟩
          rw [hleft, List.length_cons]
          omega
  | stolen ix e =>
      rw [hmain] at h
      obtain ⟨gone, rest, hall, hfinished, hshares, hturn, hleft⟩ := h
      have hsome : e.2.isSome := hnonnull e (by rw [hall]; simp)
      have hnone : ¬ (asserts = true ∧ e.2.isNone = true) := by
        rintro ⟨-, hnull⟩
        rw [Option.isNone_iff_eq_none] at hnull
        rw [hnull] at hsome
        cases hsome
      refine ⟨{ s with main := .stolenRunning ix e s.transientArena.offset },
        by simp only [mainStep, hmain, if_neg hnone], id, _, ?_, gone, rest, hall, hfinished, hshares,
        hturn, rfl⟩
      omega
  | stolenRunning ix e snapshot => exact absurd hmain (htask ix e snapshot)
  | outside | synced => simp [idle, hmain] at hidle
  | joining | releasing | closed =>
      rw [hmain] at h
      exact h.elim
  | _ => simp [inProcessTaskBatch, hmain] at hin

/-- The task of the main thread ends, and the next queue has the turn. -/
theorem OrderOk.taskEnds (hW : 1 ≤ workerCount) (h : OrderOk workerCount n all old s left)
    {arena : ThreadArena} (hstep : s.mainTaskEnds workerCount arena = some s') :
    (s.Alive → s'.Alive) ∧ ∃ m < left, OrderOk workerCount n all old s' m := by
  unfold OrderOk at h
  cases hmain : s.main with
  | stolenRunning ix e snapshot =>
      rw [hmain] at h
      obtain ⟨gone, rest, hall, hfinished, hshares, rfl, hleft⟩ := h
      simp only [mainTaskEnds, hmain, Option.some.injEq] at hstep
      subst hstep
      refine ⟨id, _, ?_, gone ++ [e], rest, by simpa using hall, by simp [hfinished], ?_, ?_,
        targetIx_bounds hW _, Nat.zero_le _, rfl⟩
      · omega
      · rw [List.length_append, List.length_singleton]
        exact hshares
      · intro _
        rw [List.length_append, List.length_singleton]
        exact ⟨rfl, RoundRobin.next_turn workerCount gone.length⟩
  | inlineRunning =>
      rw [hmain] at h
      exact h.elim
  | _ => simp [mainTaskEnds, hmain] at hstep

/-- `Scheduler_Sync` is called on the dealt batch. -/
theorem OrderOk.begin (hW : 1 ≤ workerCount) (h : OrderOk workerCount n all old s left)
    (hmain : s.main = .outside) :
    ∃ m < left, OrderOk workerCount n all old { s with main := .syncing 1 0 } m := by
  unfold OrderOk at h
  rw [hmain] at h
  obtain ⟨hfinished, hshares, hleft⟩ := h
  refine ⟨_, ?_, [], all, rfl, hfinished, hshares, fun _ => ⟨rfl, ?_⟩, ⟨le_rfl, hW⟩, Nat.zero_le _, rfl⟩
  · omega
  · rw [turn, List.length_nil, Nat.zero_mod]

/-- A worker that takes nothing leaves the queues as they are. -/
theorem takesNothing_step {ctx ctx' : WorkerExecutionContext (atomicQueues τ π)}
    {effect : SharedEffect} (hpc : ctx.pc.takesNothing = true) (h : WorkerMove ctx ctx.pc ctx' effect) :
    ctx'.taskQueue = ctx.taskQueue ∧ effect = .nothing := by
  generalize ctx.pc = pc at h hpc
  cases h with
  | popAccess | popped | popFailed | decrementNull | decrement => cases hpc
  | _ => exact ⟨rfl, rfl⟩

theorem OrderOk.worker (h : OrderOk workerCount n all old s left) {ix : ℕ}
    {ctx : WorkerExecutionContext (atomicQueues τ π)}
    (hqueue : ctx.taskQueue = (s.workers ix).taskQueue) :
    OrderOk workerCount n all old (s.setWorker ix ctx) left := by
  have hshares : Shares workerCount n (s.setWorker ix ctx) = Shares workerCount n s := by
    funext f
    refine propext (forall_congr' fun j => ?_)
    by_cases hj : j = ix
    · subst hj
      rw [setWorker_self, hqueue]
    · rw [setWorker_ne s ctx hj]
  unfold OrderOk at h ⊢
  rw [hshares]
  exact h

variable (asserts) in
/-- Outside the tasks and the game's code the main thread can go on by itself. -/
theorem OrderOk.main (hW : 1 ≤ workerCount) (hlength : all.length ≤ workerCount * n)
    (hnonnull : ∀ e ∈ all, e.2.isSome) (h : OrderOk workerCount n all old s left) :
    s.idle = true ∨ (∃ ix e snapshot, s.main = .stolenRunning ix e snapshot) ∨
      ∃ s', s.mainStep workerCount asserts = some s' ∧ (s.Alive → s'.Alive) ∧
        ∃ m < left, OrderOk workerCount n all old s' m := by
  by_cases hin : s.inProcessTaskBatch = true
  · exact .inr (.inr (h.submit hW hlength hin))
  by_cases hidle : s.idle = true
  · exact .inl hidle
  by_cases htask : ∃ ix e snapshot, s.main = .stolenRunning ix e snapshot
  · exact .inr (.inl htask)
  · refine .inr (.inr (h.sync hW hnonnull (Bool.eq_false_of_not_eq_true hin)
      (Bool.eq_false_of_not_eq_true hidle) fun ix e snapshot hmain => ?_))
    exact htask ⟨ix, e, snapshot, hmain⟩

/-- Every step of such a run of the main thread uses up one of the moves that are left. -/
theorem OrderOk.next (hW : 1 ≤ workerCount) (hlength : all.length ≤ workerCount * n)
    (hnonnull : ∀ e ∈ all, e.2.isSome) (a : Engine (atomicQueues τ π)) (m : ℕ)
    (move : EngineMove τ π) (b : Engine (atomicQueues τ π))
    (h : a.Alive ∧ OrderOk workerCount n all old a m) (hg : BatchThenSync a move)
    (hn : (machine (atomicQueues τ π) workerCount asserts).next a move = some b) :
    ∃ m', (if isMainMove move then 1 else 0) + m' ≤ m ∧ b.Alive ∧ OrderOk workerCount n all old b m' := by
  obtain ⟨halive, hok⟩ := h
  cases move with
  | main =>
      rw [next_main halive.1] at hn
      obtain hidle | ⟨ix, e, snapshot, hmain⟩ | ⟨s', hs', hstays, m', hlt, hok'⟩ :=
        hok.main asserts hW hlength hnonnull
      · unfold idle at hidle
        unfold mainStep at hn
        split at hidle <;> rename_i hmain
        · rw [hmain] at hn
          cases hn
        · rw [hmain] at hn
          cases hn
        · cases hidle
      · simp only [mainStep, hmain] at hn
        cases hn
      · obtain rfl : s' = b := Option.some.inj (hs'.symm.trans hn)
        have hpaid : 1 + m' ≤ m := by omega
        exact ⟨m', hpaid, hstays halive, hok'⟩
  | mainTaskEnds arena =>
      simp only [machine, halive.1, Bool.false_eq_true, if_false] at hn
      obtain ⟨hstays, m', hlt, hok'⟩ := hok.taskEnds hW hn
      have hpaid : 1 + m' ≤ m := by omega
      exact ⟨m', hpaid, hstays halive, hok'⟩
  | sync =>
      cases hmain : a.main with
      | outside =>
          cases (next_step hn).2
          obtain ⟨m', hlt, hok'⟩ := hok.begin hW hmain
          have hpaid : 1 + m' ≤ m := by omega
          exact ⟨m', hpaid, halive, hok'⟩
      | _ => simp [BatchThenSync, MainPc.isOutside, hmain] at hg
  | worker ix =>
      cases (next_step hn).2 with
      | workerGone _ hpool =>
          rw [halive.2] at hpool
          cases hpool
      | worker h1 h2 hmove =>
          obtain ⟨hqueue, rfl⟩ := takesNothing_step hg hmove
          exact ⟨m, Nat.le_of_eq (Nat.zero_add m), halive, hok.worker hqueue⟩
  | batch | shutdown | workerTaskEnds => exact hg.elim

/-- Until `Scheduler_Sync` returns, the main thread has a move. -/
theorem OrderOk.not_stuck (hW : 1 ≤ workerCount) (hlength : all.length ≤ workerCount * n)
    (hnonnull : ∀ e ∈ all, e.2.isSome) (halive : s.Alive)
    (h : OrderOk workerCount n all old s left) (arena : ThreadArena) :
    s.main = .synced ∨ ∃ move, isMainMove move = true ∧ BatchThenSync s move ∧
      (machine (atomicQueues τ π) workerCount asserts).next s move ≠ none := by
  obtain hidle | ⟨ix, e, snapshot, hmain⟩ | ⟨s', hs', -⟩ :=
    h.main asserts hW hlength hnonnull
  · cases hmain : s.main with
    | outside =>
        refine .inr ⟨.sync, rfl, ?_, ?_⟩
        · simp only [BatchThenSync, MainPc.isOutside, hmain]
        · simp [machine, halive.1, idle, hmain]
    | synced => exact .inl rfl
    | _ => simp [idle, hmain] at hidle
  · refine .inr ⟨.mainTaskEnds arena, rfl, trivial, ?_⟩
    simp [machine, halive.1, mainTaskEnds, hmain]
  · refine .inr ⟨.main, rfl, trivial, ?_⟩
    rw [next_main halive.1, hs']
    exact Option.some_ne_none s'

/-! ### A whole batch -/

theorem length_submit (s : Engine (atomicQueues τ π)) (tasks : List (τ × Option π)) :
    (s.submit tasks).length = tasks.length := List.length_mapIdx

theorem submit_nonnull (s : Engine (atomicQueues τ π)) {tasks : List (τ × Option π)}
    (h : ∀ t ∈ tasks, t.2.isSome) : ∀ e ∈ s.submit tasks, e.2.isSome := by
  intro e he
  obtain ⟨i, hi, rfl⟩ := List.mem_mapIdx.mp he
  exact h _ (List.getElem_mem hi)

/-- An empty ring of `n` cells, at any position. -/
def EmptyRing (n : ℕ) (q : TaskQueue (Cells (TaskRef τ) (Option π))) : Prop :=
  q.IsRing ∧ q.size = n ∧ q.top = q.bottom

theorem represents_nil_iff {q : TaskQueue (Cells (TaskRef τ) (Option π))} :
    q.Represents n [] ↔ EmptyRing n q := by
  constructor
  · intro h
    have hwindow := h.window
    rw [List.length_nil, Nat.cast_zero, add_zero] at hwindow
    exact ⟨h.ring, h.size, hwindow.symm⟩
  · rintro ⟨hring, hsize, htop⟩
    refine ⟨hring, hsize, ?_, Nat.zero_le n, TaskQueue.pairsIn_empty q htop.ge⟩
    rw [List.length_nil, Nat.cast_zero, add_zero, htop]

/-- Nothing of the batch is dealt yet. -/
theorem OrderOk.start (s₀ : Engine (atomicQueues τ π)) (tasks : List (τ × Option π))
    (hempty : Shares workerCount n s₀ fun _ => []) :
    OrderOk workerCount n (s₀.submit tasks) s₀.finished (s₀.beginBatch tasks)
      (8 * tasks.length + 2 * workerCount + 5) := by
  refine ⟨[], rfl, rfl, rfl, hempty, ?_⟩
  rw [length_submit]
  omega

/-- `Scheduler_ProcessTaskBatch` and `Scheduler_Sync` on empty queues of `n` cells while no worker
consumes: the main thread gets to the end, and then every task has run once, with its payload, in the
order of the batch, and the queues are empty. -/
theorem drain_in_order (workerCount n : ℕ) (asserts : Bool) (hW : 1 ≤ workerCount)
    (s₀ : Engine (atomicQueues τ π)) (halive : s₀.Alive)
    (hempty : ∀ ix, 1 ≤ ix → ix ≤ workerCount → EmptyRing n (s₀.workers ix).taskQueue)
    (tasks : List (τ × Option π)) (hlength : tasks.length ≤ workerCount * n)
    (hnonnull : ∀ t ∈ tasks, t.2.isSome) (schedule : List (EngineMove τ π))
    (s : Engine (atomicQueues τ π))
    (hrun : (machine (atomicQueues τ π) workerCount asserts).exec s₀ (.batch tasks :: schedule) =
      some s)
    (hobeys : (machine (atomicQueues τ π) workerCount asserts).Obeys BatchThenSync
      (s₀.beginBatch tasks) schedule) :
    schedule.countP isMainMove ≤ 8 * tasks.length + 2 * workerCount + 5 ∧ s.crashed = false ∧
      (s.main = .synced ∨ ∃ move, isMainMove move = true ∧ BatchThenSync s move ∧
        (machine (atomicQueues τ π) workerCount asserts).next s move ≠ none) ∧
      (s.main = .synced → s.finished = (s₀.submit tasks).reverse ++ s₀.finished ∧
        ∀ ix, 1 ≤ ix → ix ≤ workerCount → EmptyRing n (s.workers ix).taskQueue) := by
  have hsubmit : (s₀.submit tasks).length ≤ workerCount * n := by rwa [length_submit]
  obtain ⟨_, hbatch, hexec⟩ := Option.bind_eq_some_iff.mp hrun
  cases (next_step hbatch).2
  have hstart := OrderOk.start s₀ tasks fun ix hix hle => represents_nil_iff.mpr (hempty ix hix hle)
  obtain ⟨left, hbound, hlast, hok⟩ := Machine.exec_bound
    (R := fun a m => a.Alive ∧ OrderOk workerCount n (s₀.submit tasks) s₀.finished a m)
    (OrderOk.next hW hsubmit (submit_nonnull s₀ hnonnull)) schedule hexec hobeys ⟨halive, hstart⟩
  refine ⟨by omega, hlast.1,
    hok.not_stuck hW hsubmit (submit_nonnull s₀ hnonnull) hlast s.transientArena, fun hmain => ?_⟩
  unfold OrderOk at hok
  rw [hmain] at hok
  exact ⟨hok.1, fun ix hix hle => represents_nil_iff.mp (hok.2.1 ix hix hle)⟩

/-- Two workers with a queue of one cell each. -/
def twoWorkers : Engine (atomicQueues ℕ ℕ) :=
  start 0 (fun _ => ⟨fun _ => ⟨0, 0⟩, fun _ => none⟩) .null fun _ => ⟨0, 0, 0, 0⟩

/-- The first worker looks at its flag, and its next move would be to pop. -/
def fullBatchSchedule : List (EngineMove ℕ ℕ) :=
  .worker 1 :: List.replicate 7 .main ++ [.sync] ++
    (List.replicate 2 [.main, .main, .main, .mainTaskEnds ⟨0, 0, 0, 0⟩]).flatten ++
      List.replicate 7 .main

def fullBatchEnd : Engine (atomicQueues ℕ ℕ) :=
  ((machine _ 2 true).exec twoWorkers
    (.batch [(4, some 0), (7, some 1)] :: fullBatchSchedule)).getD twoWorkers

theorem fullBatchEnd_exec : (machine _ 2 true).exec twoWorkers
    (.batch [(4, some 0), (7, some 1)] :: fullBatchSchedule) = some fullBatchEnd := rfl

theorem fullBatchEnd_in_order : fullBatchEnd.finished = [(⟨1, 7⟩, some 1), (⟨0, 4⟩, some 0)] ∧
    EmptyRing 1 (fullBatchEnd.workers 2).taskQueue := by
  have hend := drain_in_order 2 1 true (by decide) twoWorkers ⟨rfl, rfl⟩
    (fun ix _ _ => represents_nil_iff.mp (TaskQueue.ofCells_represents 0 _ _))
    [(4, some 0), (7, some 1)] (by decide) (by decide) fullBatchSchedule fullBatchEnd
    fullBatchEnd_exec ?_
  · obtain ⟨hfinished, hempty⟩ := hend.2.2.2 rfl
    exact ⟨hfinished, hempty 2 (by decide) le_rfl⟩
  · decide

end Engine
end ProjectDelta
