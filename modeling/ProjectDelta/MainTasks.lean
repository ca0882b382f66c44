import ProjectDelta.EntryCounts

/-!
# The tasks that main runs itself

`TaskQueue_Push` on a full queue and `Scheduler_Sync` both call a task on the main
thread. Only the second puts the offset of main's transient arena back, and only
the second asserts that there is a payload. The log adds to a run of the engine
which tasks main has come to hold, which calls of them have returned, and whether
the assertion has failed.

Each call is one of an entry of a batch, with its own payload. `TaskQueue_Push` calls
an entry that is in no queue, so once; a stolen one may be in the queue a second time,
when a push has found exactly `size` entries there and overwritten one.
-/

namespace ProjectDelta

/-- A task that main is about to call or is in, be it inside `TaskQueue_Push`, with the offset of
main's arena before the call. -/
structure HeldTask (τ π : Type) where
  entry : Entry τ π
  inline : Bool
  offset : BitVec 64

/-- A call that has returned, with the offset behind it. -/
structure MainCall (τ π : Type) extends HeldTask τ π where
  after : BitVec 64

variable {τ π : Type} {Q : EngineQueues τ π}

namespace Engine

def held (s : Engine Q) : Option (HeldTask τ π) := match s.main with
  | .inlineReady _ _ e | .inlineRunning _ _ e => some ⟨e, true, s.transientArena.offset⟩
  | .stolen _ e | .stolenRunning _ e _ => some ⟨e, false, s.transientArena.offset⟩
  | _ => none

/-- A task that ends inside `TaskQueue_Push` leaves the offset as it was. -/
def keepsOffset (s : Engine Q) (move : EngineMove τ π) : Bool := match s.main, move with
  | .inlineRunning _ _ _, .mainTaskEnds arena => arena.offset = s.transientArena.offset
  | _, _ => true

/-- What `Scheduler_Sync` is about to call has a payload, or the assertion is compiled out. -/
def passesAssert (asserts : Bool) (s : Engine Q) (move : EngineMove τ π) : Bool :=
  match s.main, move with
  | .stolen _ e, .main => ¬ (asserts ∧ e.2.isNone)
  | _, _ => true

end Engine

/-- The newest entries come first. -/
structure MainLog (Q : EngineQueues τ π) where
  engine : Engine Q
  taken : List (HeldTask τ π)
  calls : List (MainCall τ π)
  assertFailed : Bool

namespace MainLog

def start (engine : Engine Q) : MainLog Q := ⟨engine, [], [], false⟩

def record (s : MainLog Q) (move : EngineMove τ π) (engine : Engine Q) : MainLog Q :=
  match move with
  | .main =>
      { s with
        engine := engine
        taken := if s.engine.held.isNone then engine.held.toList ++ s.taken else s.taken
        assertFailed := s.assertFailed || s.engine.held.isSome && engine.crashed }
  | .mainTaskEnds _ =>
      { s with
        engine := engine
        calls := (s.engine.held.map fun task => ⟨task, engine.transientArena.offset⟩).toList ++
          s.calls }
  | _ => { s with engine := engine }

variable (Q) in
def machine (workerCount : ℕ) (asserts : Bool) : Machine (MainLog Q) (EngineMove τ π) where
  next s move := ((Engine.machine Q workerCount asserts).next s.engine move).map (s.record move)

/-- The condition on a move under which the two ways agree. -/
def Agrees (asserts : Bool) (s : MainLog Q) (move : EngineMove τ π) : Prop :=
  s.engine.keepsOffset move = true ∧ s.engine.passesAssert asserts move = true

instance (asserts : Bool) (s : MainLog Q) (move : EngineMove τ π) :
    Decidable (s.Agrees asserts move) := inferInstanceAs (Decidable (_ ∧ _))

variable {workerCount : ℕ} {asserts : Bool}

theorem record_engine (s : MainLog Q) (move : EngineMove τ π) (engine : Engine Q) :
    (s.record move engine).engine = engine := by cases move <;> rfl

theorem record_calls (s : MainLog Q) {move : EngineMove τ π} (engine : Engine Q)
    (hends : ∀ arena, move ≠ .mainTaskEnds arena) : (s.record move engine).calls = s.calls := by
  cases move with
  | mainTaskEnds arena => exact absurd rfl (hends arena)
  | _ => rfl

end MainLog

/-! ### What a move does to the task that main holds -/

namespace Engine

variable {workerCount : ℕ} {asserts : Bool} {s s' : Engine Q} {move : EngineMove τ π}

/-- The end of a call finishes the entry that main holds. -/
theorem mainTaskEnds_finished {arena : ThreadArena}
    (h : s.mainTaskEnds workerCount arena = some s') :
    ∃ task, s.held = some task ∧ s'.finished = task.entry :: s.finished := by
  unfold mainTaskEnds at h
  split at h <;> rename_i hmain
  · obtain rfl := Option.some.inj h
    exact ⟨_, by rw [held, hmain], rfl⟩
  · obtain rfl := Option.some.inj h
    exact ⟨_, by rw [held, hmain], rfl⟩
  · cases h

/-- Nothing that is finished is forgotten. -/
theorem next_finished (h : (machine Q workerCount asserts).next s move = some s') :
    s.finished.Sublist s'.finished := by
  cases (next_step h).2 with
  | main hmove =>
      generalize s.main = pc at hmove
      cases hmove <;> exact List.Sublist.refl _
  | inlineEnds | stolenEnds | workerEnds => exact List.sublist_cons_self _ _
  | @worker ix ctx effect =>
      rw [(apply_ghosts (s.setWorker ix ctx) effect).2]
      exact List.Sublist.refl _
  | _ => exact List.Sublist.refl _

/-- What main runs inside `TaskQueue_Push` is still to be pushed. -/
theorem held_inline {s : Engine (atomicQueues τ π)} {task : HeldTask τ π} (h : s.held = some task)
    (hinline : task.inline = true) : task.entry ∈ s.main.upcoming := by
  unfold held at h
  split at h <;> rename_i hmain
  case h_5 => cases h
  all_goals
    obtain rfl := Option.some.inj h
    rw [hmain]
  · exact List.mem_cons_self
  · exact List.mem_cons_self
  · cases hinline
  · cases hinline

end Engine

/-! ### Runs -/

namespace MainLog

variable {workerCount : ℕ} {asserts : Bool} {s s' : MainLog Q} {move : EngineMove τ π}

/-- Every task that main has come to hold has been called once, or is still held. -/
def Accounted (s : MainLog Q) : Prop :=
  s.taken = s.engine.held.toList ++ s.calls.map MainCall.toHeldTask

/-- The calls that have returned are among the tasks run to their end. -/
def Recorded (s : MainLog Q) : Prop :=
  (s.calls.map fun call => call.entry).Sublist s.engine.finished

theorem Recorded.step (h : s.Recorded) (hn : (machine Q workerCount asserts).next s move = some s') :
    s'.Recorded := by
  obtain ⟨engine, hnext, rfl⟩ := Option.map_eq_some_iff.mp hn
  rw [Recorded, record_engine]
  by_cases hends : ∃ arena, move = .mainTaskEnds arena
  · obtain ⟨arena, rfl⟩ := hends
    obtain ⟨task, hheld, hfinished⟩ :=
      Engine.mainTaskEnds_finished (Engine.next_mainTaskEnds hnext)
    rw [hfinished]
    simp only [record, hheld]
    exact h.cons_cons _
  · rw [s.record_calls engine fun arena he => hends ⟨arena, he⟩]
    exact h.trans (Engine.next_finished hnext)

/-- What main has run in place of a push is nowhere else. -/
structure InlineOnce (workerCount : ℕ) (s : MainLog (atomicQueues τ π)) : Prop where
  recorded : s.Recorded
  upcoming : Engine.UpcomingOnce workerCount s.engine
  calls : ∀ call ∈ s.calls, call.inline = true →
    s.engine.countEntries workerCount (Engine.hasSerial call.entry.1.serial) ≤ 1

theorem Recorded.mem_finished (h : s.Recorded) {call : MainCall τ π} (hcall : call ∈ s.calls) :
    call.entry ∈ s.engine.finished := h.subset (List.mem_map_of_mem hcall)

theorem InlineOnce.step {s s' : MainLog (atomicQueues τ π)} {move : EngineMove τ π}
    (hW : 1 ≤ workerCount) (h : s.InlineOnce workerCount)
    (hn : (machine _ workerCount asserts).next s move = some s') : s'.InlineOnce workerCount := by
  refine ⟨h.recorded.step hn, ?_, ?_⟩ <;>
    obtain ⟨engine, hnext, rfl⟩ := Option.map_eq_some_iff.mp hn <;> rw [record_engine]
  · exact h.upcoming.step hW hnext
  have hold : ∀ call ∈ s.calls, call.inline = true →
      engine.countEntries workerCount (Engine.hasSerial call.entry.1.serial) ≤ 1 :=
    fun call hcall hinline => h.upcoming.finished_stays hW (h.recorded.mem_finished hcall)
      (h.calls call hcall hinline) hnext
  by_cases hends : ∃ arena, move = .mainTaskEnds arena
  · obtain ⟨arena, rfl⟩ := hends
    obtain ⟨task, hheld, -⟩ := Engine.mainTaskEnds_finished (Engine.next_mainTaskEnds hnext)
    have hcalls : (s.record (.mainTaskEnds arena) engine).calls =
        ⟨task, engine.transientArena.offset⟩ :: s.calls := by simp [record, hheld]
    rw [hcalls, List.forall_mem_cons]
    refine ⟨fun hinline => ?_, hold⟩
    refine h.upcoming.stays hW (h.upcoming.once _ (Engine.held_inline hheld hinline)) ?_ hnext
    intro i rest p hmain
    rw [Engine.held, hmain] at hheld
    cases hheld
  · rw [s.record_calls engine fun arena he => hends ⟨arena, he⟩]
    exact hold

def arenaAt (offset : BitVec 64) : ThreadArena := ⟨0, 0, offset, 0⟩

/-- The third push finds the queue of one cell full. The inline task ends with an arena of its own,
and `Scheduler_Sync` then gets the other two, each of which allocates. -/
def overfull (payload : Option Unit) (inlineEnd : ThreadArena) : List (EngineMove Unit Unit) :=
  let allocates : EngineMove Unit Unit := .mainTaskEnds (arenaAt 64#64)
  [[.batch [((), payload), ((), payload), ((), payload)]],
    List.replicate 9 .main, [.mainTaskEnds inlineEnd], List.replicate 2 .main, [.sync],
    List.replicate 3 .main, [allocates], List.replicate 3 .main, [allocates],
    List.replicate 5 .main].flatten

end MainLog
end ProjectDelta
