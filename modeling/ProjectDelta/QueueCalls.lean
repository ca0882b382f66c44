import ProjectDelta.SharedCall
import ProjectDelta.TaskQueue

/-!
# The queue operations as sequences of shared accesses

Every atomic load, store and compare-exchange and every slot access of
`TaskQueue_Push`, `TaskQueue_Pop` and `TaskQueue_Steal` is one step, in program
order. The steps interleave in a single global order, so the fences between them
order nothing further. A program point carries the locals that are live there.
-/

namespace ProjectDelta

/-- Program points of `TaskQueue_Push`; `b` is the loaded bottom. -/
inductive PushPc (τ π : Type)
  | loadBottom (task : τ) (payload : π)
  | loadTop (task : τ) (payload : π) (b : ℤ)
  | storeTask (task : τ) (payload : π) (b : ℤ)
  | storePayload (task : τ) (payload : π) (b : ℤ)
  | storeBottom (task : τ) (payload : π) (b : ℤ)

/-- Program points of `TaskQueue_Pop`; `b` is the decremented bottom. -/
inductive PopPc (τ π : Type)
  | loadBottom
  | storeBottom (b : ℤ)
  | loadTop (b : ℤ)
  | restoreEmpty (b : ℤ)
  | loadTask (b t : ℤ)
  | loadPayload (b t : ℤ) (task : τ)
  | exchangeTop (b t : ℤ) (task : τ) (payload : π)
  | restoreLost (b : ℤ)
  | restoreTaken (b : ℤ) (task : τ) (payload : π)

/-- Program points of `TaskQueue_Steal`; `t` is the loaded top. -/
inductive StealPc (τ π : Type)
  | loadTop
  | loadBottom (t : ℤ)
  | loadTask (t : ℤ)
  | loadPayload (t : ℤ) (task : τ)
  | exchangeTop (t : ℤ) (task : τ) (payload : π)

namespace TaskQueue

variable {σ τ π : Type} [SlotMemory σ τ π]

def pushStep (q : TaskQueue σ) : PushPc τ π → TaskQueue σ × (PushPc τ π ⊕ Option (τ × π))
  | .loadBottom task payload => (q, .inl (.loadTop task payload q.bottom))
  | .loadTop task payload b =>
      if b - q.top > q.size then (q, .inr (some (task, payload)))
      else (q, .inl (.storeTask task payload b))
  | .storeTask task payload b =>
      (q.storeTask (q.slotIx b) task, .inl (.storePayload task payload b))
  | .storePayload task payload b =>
      (q.storePayload (q.slotIx b) payload, .inl (.storeBottom task payload b))
  | .storeBottom _ _ b => (q.setBottom (b + 1), .inr none)

def popStep (q : TaskQueue σ) : PopPc τ π → TaskQueue σ × (PopPc τ π ⊕ Option (τ × π))
  | .loadBottom => (q, .inl (.storeBottom (q.bottom - 1)))
  | .storeBottom b => (q.setBottom b, .inl (.loadTop b))
  | .loadTop b =>
      if q.top > b then (q, .inl (.restoreEmpty b)) else (q, .inl (.loadTask b q.top))
  | .restoreEmpty b => (q.setBottom (b + 1), .inr none)
  | .loadTask b t =>
      (q, .inl (.loadPayload b t (SlotMemory.loadTask q.slots (q.slotIx b))))
  | .loadPayload b t task =>
      let payload := SlotMemory.loadPayload q.slots (q.slotIx b)
      if t = b then (q, .inl (.exchangeTop b t task payload)) else (q, .inr (some (task, payload)))
  | .exchangeTop b t task payload =>
      let (q, exchanged) := q.compareExchangeTop t (t + 1)
      if exchanged then (q, .inl (.restoreTaken b task payload)) else (q, .inl (.restoreLost b))
  | .restoreLost b => (q.setBottom (b + 1), .inr none)
  | .restoreTaken b task payload => (q.setBottom (b + 1), .inr (some (task, payload)))

def stealStep (q : TaskQueue σ) : StealPc τ π → TaskQueue σ × (StealPc τ π ⊕ Option (τ × π))
  | .loadTop => (q, .inl (.loadBottom q.top))
  | .loadBottom t => if t ≥ q.bottom then (q, .inr none) else (q, .inl (.loadTask t))
  | .loadTask t =>
      (q, .inl (.loadPayload t (SlotMemory.loadTask q.slots (q.slotIx t))))
  | .loadPayload t task =>
      (q, .inl (.exchangeTop t task (SlotMemory.loadPayload q.slots (q.slotIx t))))
  | .exchangeTop t task payload =>
      let (q, exchanged) := q.compareExchangeTop t (t + 1)
      if exchanged then (q, .inr (some (task, payload))) else (q, .inr none)

/-! ### Compare-exchange -/

theorem compareExchangeTop_eq (q : TaskQueue σ) {expected : ℤ} (desired : ℤ)
    (h : q.top = expected) : q.compareExchangeTop expected desired = (q.setTop desired, true) :=
  if_pos h

theorem compareExchangeTop_ne (q : TaskQueue σ) {expected : ℤ} (desired : ℤ)
    (h : q.top ≠ expected) : q.compareExchangeTop expected desired = (q, false) :=
  if_neg h

theorem compareExchangeTop_fields (q : TaskQueue σ) (expected desired : ℤ) :
    (q.compareExchangeTop expected desired).1.bottom = q.bottom ∧
      (q.compareExchangeTop expected desired).1.size = q.size ∧
      (q.compareExchangeTop expected desired).1.mask = q.mask ∧
      (q.compareExchangeTop expected desired).1.slots = q.slots ∧
      (q.compareExchangeTop expected desired).1.depCounterPtr = q.depCounterPtr := by
  by_cases h : q.top = expected
  · rw [compareExchangeTop_eq q desired h]
    exact ⟨rfl, rfl, rfl, rfl, rfl⟩
  · rw [compareExchangeTop_ne q desired h]
    exact ⟨rfl, rfl, rfl, rfl, rfl⟩

/-! ### The calls -/

variable (σ) in
def pushCall : SharedCall (TaskQueue σ) (τ × π) (Option (τ × π)) where
  Frame := PushPc τ π
  enter p := .loadBottom p.1 p.2
  step := pushStep

variable (σ) in
def popCall : SharedCall (TaskQueue σ) Unit (Option (τ × π)) where
  Frame := PopPc τ π
  enter _ := .loadBottom
  step := popStep

variable (σ) in
def stealCall : SharedCall (TaskQueue σ) Unit (Option (τ × π)) where
  Frame := StealPc τ π
  enter _ := .loadTop
  step := stealStep

/-- Run alone, the accesses of a push are `TaskQueue.push`. -/
theorem pushCall_computes : (pushCall σ (τ := τ) (π := π)).Computes fun p q => q.push p.1 p.2 := by
  rintro ⟨task, payload⟩ q
  by_cases hfull : q.bottom - q.top > q.size
  · refine ⟨2, ?_⟩
    simp only [q.push_full task payload hfull]
    simp [SharedCall.alone, pushCall, pushStep, hfull]
  · refine ⟨5, ?_⟩
    simp only [q.push_room task payload hfull]
    simp [SharedCall.alone, pushCall, pushStep, hfull, slotIx]

theorem popCall_computes : (popCall σ (τ := τ) (π := π)).Computes fun _ q => q.pop := by
  intro _ q
  rcases lt_trichotomy (q.top + 1) q.bottom with hmore | hlast | hempty
  · refine ⟨5, ?_⟩
    simp only [q.pop_more hmore]
    have hngt : ¬ q.top > q.bottom - 1 := by omega
    have hne : q.top ≠ q.bottom - 1 := by omega
    simp [SharedCall.alone, popCall, popStep, hngt, hne, pairAt, slotIx]
  · refine ⟨7, ?_⟩
    simp only [q.pop_last hlast]
    have heq : q.bottom - 1 = q.top := by omega
    simp [SharedCall.alone, popCall, popStep, heq, compareExchangeTop, pairAt, slotIx, setBottom, setTop,
      hlast]
  · refine ⟨4, ?_⟩
    simp only [q.pop_empty (show q.bottom ≤ q.top by omega)]
    have hgt : q.top > q.bottom - 1 := by omega
    simp [SharedCall.alone, popCall, popStep, hgt]

theorem stealCall_computes : (stealCall σ (τ := τ) (π := π)).Computes fun _ q => q.steal := by
  intro _ q
  by_cases h : q.top < q.bottom
  · refine ⟨5, ?_⟩
    simp only [q.steal_oldest h]
    have hnge : ¬ q.top ≥ q.bottom := by omega
    simp [SharedCall.alone, stealCall, stealStep, hnge, compareExchangeTop, pairAt, slotIx]
  · refine ⟨2, ?_⟩
    have hge : q.top ≥ q.bottom := by omega
    simp only [q.steal_empty hge]
    simp [SharedCall.alone, stealCall, stealStep, hge]

/-! ### No call changes the counter pointer -/

theorem pushCall_depCounterPtr :
    (pushCall σ (τ := τ) (π := π)).Frames fun q => q.depCounterPtr := by
  intro q fr
  cases fr with
  | loadTop task payload b =>
      simp only [pushCall, pushStep]
      split <;> rfl
  | _ => rfl

theorem popCall_depCounterPtr :
    (popCall σ (τ := τ) (π := π)).Frames fun q => q.depCounterPtr := by
  intro q fr
  cases fr with
  | loadTop b =>
      simp only [popCall, popStep]
      split <;> rfl
  | loadPayload b t task =>
      simp only [popCall, popStep]
      split <;> rfl
  | exchangeTop b t task payload =>
      obtain ⟨-, -, -, -, hptr⟩ := q.compareExchangeTop_fields t (t + 1)
      simp only [popCall, popStep]
      split <;> exact hptr
  | _ => rfl

theorem stealCall_depCounterPtr :
    (stealCall σ (τ := τ) (π := π)).Frames fun q => q.depCounterPtr := by
  intro q fr
  cases fr with
  | loadBottom t =>
      simp only [stealCall, stealStep]
      split <;> rfl
  | exchangeTop t task payload =>
      obtain ⟨-, -, -, -, hptr⟩ := q.compareExchangeTop_fields t (t + 1)
      simp only [stealCall, stealStep]
      split <;> exact hptr
  | _ => rfl

end TaskQueue

/-! ### Queue models -/

/-- How finely the three queue operations interleave with other threads. Run
alone, each is the sequential operation. -/
structure QueueModel (τ π : Type) where
  push : SharedCall (TaskQueue (Cells τ π)) (τ × π) (Option (τ × π))
  pop : SharedCall (TaskQueue (Cells τ π)) Unit (Option (τ × π))
  steal : SharedCall (TaskQueue (Cells τ π)) Unit (Option (τ × π))
  push_computes : push.Computes fun p q => q.push p.1 p.2
  pop_computes : pop.Computes fun _ q => q.pop
  steal_computes : steal.Computes fun _ q => q.steal
  push_depCounterPtr : push.Frames fun q => q.depCounterPtr
  pop_depCounterPtr : pop.Frames fun q => q.depCounterPtr
  steal_depCounterPtr : steal.Frames fun q => q.depCounterPtr

namespace QueueModel

variable (τ π : Type)

/-- Every access to the queue is a step of its own. -/
def accesses : QueueModel τ π where
  push := TaskQueue.pushCall (Cells τ π)
  pop := TaskQueue.popCall (Cells τ π)
  steal := TaskQueue.stealCall (Cells τ π)
  push_computes := TaskQueue.pushCall_computes
  pop_computes := TaskQueue.popCall_computes
  steal_computes := TaskQueue.stealCall_computes
  push_depCounterPtr := TaskQueue.pushCall_depCounterPtr
  pop_depCounterPtr := TaskQueue.popCall_depCounterPtr
  steal_depCounterPtr := TaskQueue.stealCall_depCounterPtr

/-- Every operation is one step. -/
def atomic : QueueModel τ π where
  push := .atomic fun p q => q.push p.1 p.2
  pop := .atomic fun _ q => q.pop
  steal := .atomic fun _ q => q.steal
  push_computes := SharedCall.atomic_computes _
  pop_computes := SharedCall.atomic_computes _
  steal_computes := SharedCall.atomic_computes _
  push_depCounterPtr := SharedCall.atomic_frames fun p q => TaskQueue.push_depCounterPtr q p.1 p.2
  pop_depCounterPtr := SharedCall.atomic_frames fun _ q => TaskQueue.pop_depCounterPtr q
  steal_depCounterPtr := SharedCall.atomic_frames fun _ q => TaskQueue.steal_depCounterPtr q

variable {τ π} {q q' : TaskQueue (Cells τ π)} {r : Option (τ × π)}

theorem atomic_push {p : τ × π} (h : (atomic τ π).push.step q p = (q', .inr r)) :
    q.push p.1 p.2 = (q', r) :=
  SharedCall.atomic_returns (f := fun (p : τ × π) (q : TaskQueue (Cells τ π)) => q.push p.1 p.2) h

theorem atomic_pop {u : Unit} (h : (atomic τ π).pop.step q u = (q', .inr r)) : q.pop = (q', r) :=
  SharedCall.atomic_returns (f := fun (_ : Unit) (q : TaskQueue (Cells τ π)) => q.pop) h

theorem atomic_steal {u : Unit} (h : (atomic τ π).steal.step q u = (q', .inr r)) :
    q.steal = (q', r) :=
  SharedCall.atomic_returns (f := fun (_ : Unit) (q : TaskQueue (Cells τ π)) => q.steal) h

theorem atomic_push_step {p : τ × π} (h : q.push p.1 p.2 = (q', r)) :
    (atomic τ π).push.step q ((atomic τ π).push.enter p) = (q', .inr r) :=
  SharedCall.atomic_step (f := fun (p : τ × π) (q : TaskQueue (Cells τ π)) => q.push p.1 p.2) h

theorem atomic_steal_step (h : q.steal = (q', r)) (fr : (atomic τ π).steal.Frame) :
    (atomic τ π).steal.step q fr = (q', .inr r) :=
  SharedCall.atomic_step (f := fun (_ : Unit) (q : TaskQueue (Cells τ π)) => q.steal) h

theorem atomic_push_returns {p : τ × π} {fr : (atomic τ π).push.Frame}
    (h : (atomic τ π).push.step q p = (q', .inl fr)) : False := by
  cases (Prod.mk.inj h).2

theorem atomic_pop_returns {u : Unit} {fr : (atomic τ π).pop.Frame}
    (h : (atomic τ π).pop.step q u = (q', .inl fr)) : False := by
  cases (Prod.mk.inj h).2

theorem atomic_steal_returns {u : Unit} {fr : (atomic τ π).steal.Frame}
    (h : (atomic τ π).steal.step q u = (q', .inl fr)) : False := by
  cases (Prod.mk.inj h).2

end QueueModel

end ProjectDelta
