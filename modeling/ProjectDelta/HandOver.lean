import Mathlib.Algebra.Order.Group.Multiset
import Mathlib.Tactic.Abel
import ProjectDelta.Machine
import ProjectDelta.QueueCalls

/-!
# Handing a batch over from the main thread to a worker

The main thread pushes its part of a batch onto a queue while the worker that
owns the queue pops from it, one access at a time. Both write `bottom` with plain
stores, so an unlucky placement of a push inside a pop loses an entry or hands
it out twice.

`PushUndisturbed` says when the next access of a push does no harm. It looks at
the state before that access only. Runs that respect it account for every pair.
-/

namespace ProjectDelta

variable {τ π : Type}

def PushPc.pair : PushPc τ π → τ × π
  | .loadBottom task payload | .loadTop task payload _ | .storeTask task payload _
  | .storePayload task payload _ | .storeBottom task payload _ => (task, payload)

/-- `batch` is what the main thread has still to push onto this queue; `ran` and
`returned` are ghosts. -/
structure HandOverState (τ π : Type) where
  queue : TaskQueue (Cells τ π)
  batch : List (τ × π)
  main : Option (PushPc τ π)
  worker : Option (PopPc τ π)
  ran : List (τ × π)
  returned : List (τ × π)

inductive HandOverThread
  | main
  | worker

namespace HandOverState

def mainStep (s : HandOverState τ π) : Option (HandOverState τ π) :=
  match s.main, s.batch with
  | none, [] => none
  | none, p :: rest => some { s with main := some (.loadBottom p.1 p.2), batch := rest }
  | some pc, _ => match s.queue.pushStep pc with
    | (q, .inl pc') => some { s with queue := q, main := some pc' }
    | (q, .inr r) => some { s with queue := q, main := none, ran := r.toList ++ s.ran }

def workerStep (s : HandOverState τ π) : HandOverState τ π :=
  match s.worker with
  | none => { s with worker := some .loadBottom }
  | some pc => match s.queue.popStep pc with
    | (q, .inl pc') => { s with queue := q, worker := some pc' }
    | (q, .inr r) => { s with queue := q, worker := none, returned := r.toList ++ s.returned }

variable (τ π) in
def machine : Machine (HandOverState τ π) HandOverThread where
  next s
    | .main => s.mainStep
    | .worker => some s.workerStep

def start (q : TaskQueue (Cells τ π)) (batch : List (τ × π)) : HandOverState τ π :=
  ⟨q, batch, none, none, [], []⟩

def Quiescent (s : HandOverState τ π) : Prop := s.main = none ∧ s.worker = none

/-- Every pair of the batch is still to be pushed, was run inline, was returned
by one pop, or sits at one index of the window, and nothing else was. -/
def ExactlyOnce (batch : List (τ × π)) (s : HandOverState τ π) : Prop :=
  (batch : Multiset (τ × π)) = s.batch + s.ran + s.returned + s.queue.held

/-! ### When a push does no harm -/

/-- The task cell of index `i` is still to be read. -/
def TaskUnread (s : HandOverState τ π) (i : ℤ) : Prop :=
  (s.queue.top ≤ i ∧ i < s.queue.bottom) ∨
    match s.worker with
    | some (.loadTop b) => i = b ∧ s.queue.top ≤ b
    | some (.loadTask b _) => i = b
    | _ => False

/-- The payload cell of index `i` is still to be read. -/
def PayloadUnread (s : HandOverState τ π) (i : ℤ) : Prop :=
  TaskUnread s i ∨
    match s.worker with
    | some (.loadPayload b _ _) => i = b
    | _ => False

/-- The pop in progress has loaded `bottom` or reads the last entry, and so will
store `bottom` again without looking at it. -/
def PopOwesBottom (s : HandOverState τ π) : Prop :=
  match s.worker with
  | some (.storeBottom _) | some (.restoreEmpty _) | some (.exchangeTop _ _ _ _)
  | some (.restoreLost _) | some (.restoreTaken _ _ _) => True
  | some (.loadTop b) => b ≤ s.queue.top
  | some (.loadTask b t) | some (.loadPayload b t _) => t = b
  | _ => False

/-- A push writes a slot only when no unread entry lies in it, and stores
`bottom` only over the value it loaded and while the pop in progress, if any,
has no store to `bottom` outstanding. -/
def PushUndisturbed (s : HandOverState τ π) : HandOverThread → Prop
  | .worker => True
  | .main => match s.main with
    | some (.storeTask _ _ b) => ∀ i, TaskUnread s i → s.queue.slotIx i ≠ s.queue.slotIx b
    | some (.storePayload _ _ b) => ∀ i, PayloadUnread s i → s.queue.slotIx i ≠ s.queue.slotIx b
    | some (.storeBottom _ _ b) => s.queue.bottom = b ∧ ¬ PopOwesBottom s
    | _ => True

/-! ### The invariant -/

/-- The pair of the push in progress. -/
def inHand : Option (PushPc τ π) → List (τ × π)
  | none => []
  | some pc => [pc.pair]

/-- The entry that the pop in progress has taken out of the window. -/
def inFlight (q : TaskQueue (Cells τ π)) : Option (PopPc τ π) → List (τ × π)
  | some (.loadTop b) => if q.top ≤ b then [q.pairAt b] else []
  | some (.loadTask b _) => [q.pairAt b]
  | some (.loadPayload b _ task) => [(task, (q.pairAt b).2)]
  | some (.exchangeTop _ _ task payload) | some (.restoreTaken _ task payload) => [(task, payload)]
  | _ => []

def WorkerOk (q : TaskQueue (Cells τ π)) : Option (PopPc τ π) → Prop
  | none | some .loadBottom => q.top ≤ q.bottom
  | some (.storeBottom b) => q.bottom = b + 1 ∧ q.top ≤ b + 1
  | some (.loadTop b) => q.bottom = b ∧ q.top ≤ b + 1
  | some (.restoreEmpty b) => q.bottom = b ∧ q.top = b + 1
  | some (.loadTask b t) | some (.loadPayload b t _) => q.bottom = b ∧ q.top = t ∧ t ≤ b
  | some (.exchangeTop b t _ _) => q.bottom = b ∧ q.top = t ∧ t = b
  | some (.restoreLost _) => False
  | some (.restoreTaken b _ _) => q.bottom = b ∧ q.top = b + 1

/-- What a push has written stays readable and lies over no unread entry. -/
def MainOk (s : HandOverState τ π) : Prop :=
  match s.main with
  | some (.storePayload task _ b) =>
      (∀ i, TaskUnread s i → s.queue.slotIx i ≠ s.queue.slotIx b) ∧ (s.queue.pairAt b).1 = task
  | some (.storeBottom task payload b) =>
      (∀ i, PayloadUnread s i → s.queue.slotIx i ≠ s.queue.slotIx b) ∧
        s.queue.pairAt b = (task, payload)
  | _ => True

structure Inv (batch : List (τ × π)) (s : HandOverState τ π) : Prop where
  worker : WorkerOk s.queue s.worker
  main : MainOk s
  accounted : (batch : Multiset (τ × π)) =
    s.batch + inHand s.main + s.ran + s.returned + inFlight s.queue s.worker + s.queue.held

theorem start_inv {q : TaskQueue (Cells τ π)} (hq : q.top = q.bottom) (batch : List (τ × π)) :
    Inv batch (start q batch) where
  worker := hq.le
  main := trivial
  accounted := by
    simp [start, inHand, inFlight, TaskQueue.held, q.pairsIn_empty hq.ge]

theorem Inv.exactlyOnce {batch : List (τ × π)} {s : HandOverState τ π} (h : Inv batch s)
    (hq : s.Quiescent) : s.ExactlyOnce batch := by
  have hacc := h.accounted
  rw [hq.1, hq.2] at hacc
  simpa [ExactlyOnce, inHand, inFlight] using hacc

/-! ### One access of the worker -/

/-- A pop only ever shrinks the set of unread cells, so what a push has written
stays safe. -/
theorem MainOk.of_unread {s s' : HandOverState τ π} (h : MainOk s) (hmain : s'.main = s.main)
    (hslots : s'.queue.slots = s.queue.slots) (hmask : s'.queue.mask = s.queue.mask)
    (htask : ∀ i, TaskUnread s' i → TaskUnread s i)
    (hpayload : ∀ i, PayloadUnread s' i → PayloadUnread s i) : MainOk s' := by
  have hix : ∀ i, s'.queue.slotIx i = s.queue.slotIx i := TaskQueue.slotIx_congr hmask
  have hpair : ∀ i, s'.queue.pairAt i = s.queue.pairAt i := by
    intro i
    simp only [TaskQueue.pairAt, hix, hslots]
  unfold MainOk at h ⊢
  rw [hmain]
  rcases hm : s.main with _ | pc
  · trivial
  · cases pc with
    | storePayload task payload b =>
        simp only [hm, hix, hpair] at h ⊢
        exact ⟨fun i hi => h.1 i (htask i hi), h.2⟩
    | storeBottom task payload b =>
        simp only [hm, hix, hpair] at h ⊢
        exact ⟨fun i hi => h.1 i (hpayload i hi), h.2⟩
    | _ => trivial

/-- What a pop's access must show: the worker's own entries only change hands,
and no cell becomes unread again. -/
theorem Inv.of_pop {batch : List (τ × π)} {s s' : HandOverState τ π} (h : Inv batch s)
    (hbatch : s'.batch = s.batch) (hmain : s'.main = s.main) (hran : s'.ran = s.ran)
    (hslots : s'.queue.slots = s.queue.slots) (hmask : s'.queue.mask = s.queue.mask)
    (hworker : WorkerOk s'.queue s'.worker)
    (htask : ∀ i, TaskUnread s' i → TaskUnread s i)
    (hpayload : ∀ i, PayloadUnread s' i → PayloadUnread s i)
    (hentries : (s'.returned : Multiset (τ × π)) + inFlight s'.queue s'.worker + s'.queue.held =
      s.returned + inFlight s.queue s.worker + s.queue.held) : Inv batch s' where
  worker := hworker
  main := h.main.of_unread hmain hslots hmask htask hpayload
  accounted := by
    have hacc := h.accounted
    rw [add_assoc, add_assoc, ← add_assoc (s.returned : Multiset (τ × π)), ← hentries] at hacc
    rw [hbatch, hmain, hran, hacc]
    abel

/-- Away from the payload read, a payload cell is unread exactly when the task cell is. -/
theorem payloadUnread_mono {s s' : HandOverState τ π}
    (h : ∀ i, TaskUnread s' i → TaskUnread s i)
    (hpc : ∀ b t task, s'.worker ≠ some (.loadPayload b t task)) (i : ℤ)
    (hi : PayloadUnread s' i) : PayloadUnread s i := by
  rcases hi with htask | hpayload
  · exact Or.inl (h i htask)
  · split at hpayload
    · exact (hpc _ _ _ ‹_›).elim
    · exact hpayload.elim

/-- Points of a pop at which it has no cell to read. -/
def PopHasRead : Option (PopPc τ π) → Prop
  | none | some .loadBottom | some (.restoreTaken _ _ _) => True
  | _ => False

theorem not_payloadUnread {s : HandOverState τ π} (hempty : s.queue.bottom ≤ s.queue.top)
    (hread : PopHasRead s.worker) (i : ℤ) : ¬ PayloadUnread s i := by
  obtain ⟨q, rest, main, worker, ran, returned⟩ := s
  have hle : q.bottom ≤ q.top := hempty
  rcases worker with _ | pc
  · rintro ((hi | hi) | hi)
    · omega
    · exact hi
    · exact hi
  · cases pc with
    | loadBottom | restoreTaken =>
        rintro ((hi | hi) | hi)
        · omega
        · exact hi
        · exact hi
    | _ => exact hread.elim

theorem inFlight_loadTop {q : TaskQueue (Cells τ π)} {b : ℤ} (h : q.top ≤ b) :
    inFlight q (some (.loadTop b)) = [q.pairAt b] := if_pos h

theorem inFlight_loadTop_empty {q : TaskQueue (Cells τ π)} {b : ℤ} (h : b < q.top) :
    inFlight q (some (.loadTop b)) = [] := if_neg (not_le.mpr h)

section Pop

variable {batch rest ran returned : List (τ × π)} {q : TaskQueue (Cells τ π)}
  {main : Option (PushPc τ π)}

theorem Inv.pop_loadsBottom (h : Inv batch ⟨q, rest, main, some .loadBottom, ran, returned⟩) :
    Inv batch ⟨q, rest, main, some (.storeBottom (q.bottom - 1)), ran, returned⟩ := by
  have hle : q.top ≤ q.bottom := h.worker
  have hok : WorkerOk q (some (.storeBottom (q.bottom - 1))) := ⟨by omega, by omega⟩
  exact h.of_pop rfl rfl rfl rfl rfl hok (fun i hi => hi) (fun i hi => hi) rfl

/-- The newest entry, if there is one, moves from the window into the pop. -/
theorem Inv.pop_storesBottom {b : ℤ}
    (h : Inv batch ⟨q, rest, main, some (.storeBottom b), ran, returned⟩) :
    Inv batch ⟨q.setBottom b, rest, main, some (.loadTop b), ran, returned⟩ := by
  obtain ⟨hb, ht⟩ : q.bottom = b + 1 ∧ q.top ≤ b + 1 := h.worker
  have hunread : ∀ i, TaskUnread ⟨q.setBottom b, rest, main, some (.loadTop b), ran, returned⟩ i →
      TaskUnread ⟨q, rest, main, some (.storeBottom b), ran, returned⟩ i := by
    intro i hi
    simp only [TaskUnread, TaskQueue.setBottom_top, TaskQueue.setBottom_bottom, or_false] at hi ⊢
    omega
  refine h.of_pop rfl rfl rfl rfl rfl ⟨rfl, ht⟩ hunread
    (payloadUnread_mono hunread fun _ _ _ h => by cases h) ?_
  change (returned : Multiset (τ × π)) + inFlight (q.setBottom b) (some (.loadTop b)) +
    q.pairsIn q.top b = returned + ([] : List (τ × π)) + q.pairsIn q.top q.bottom
  rw [hb]
  rcases le_or_gt q.top b with hle | hlt
  · rw [inFlight_loadTop (q := q.setBottom b) hle, q.pairsIn_snoc hle, ← Multiset.coe_add,
      TaskQueue.setBottom_pairAt, Multiset.coe_nil]
    abel
  · rw [inFlight_loadTop_empty (q := q.setBottom b) hlt, q.pairsIn_empty hlt.le,
      q.pairsIn_empty (show b + 1 ≤ q.top from hlt)]

theorem Inv.pop_loadsTop {b : ℤ}
    (h : Inv batch ⟨q, rest, main, some (.loadTop b), ran, returned⟩) (hle : q.top ≤ b) :
    Inv batch ⟨q, rest, main, some (.loadTask b q.top), ran, returned⟩ := by
  obtain ⟨hb, -⟩ : q.bottom = b ∧ q.top ≤ b + 1 := h.worker
  have hunread : ∀ i, TaskUnread ⟨q, rest, main, some (.loadTask b q.top), ran, returned⟩ i →
      TaskUnread ⟨q, rest, main, some (.loadTop b), ran, returned⟩ i := by
    rintro i (hi | rfl)
    · exact Or.inl hi
    · exact Or.inr ⟨rfl, hle⟩
  refine h.of_pop rfl rfl rfl rfl rfl ⟨hb, rfl, hle⟩ hunread
    (payloadUnread_mono hunread fun _ _ _ h => by cases h) ?_
  simp only [inFlight_loadTop hle]
  rfl

theorem Inv.pop_loadsTop_empty {b : ℤ}
    (h : Inv batch ⟨q, rest, main, some (.loadTop b), ran, returned⟩) (hlt : b < q.top) :
    Inv batch ⟨q, rest, main, some (.restoreEmpty b), ran, returned⟩ := by
  obtain ⟨hb, ht⟩ : q.bottom = b ∧ q.top ≤ b + 1 := h.worker
  have hunread : ∀ i, TaskUnread ⟨q, rest, main, some (.restoreEmpty b), ran, returned⟩ i →
      TaskUnread ⟨q, rest, main, some (.loadTop b), ran, returned⟩ i := by
    rintro i (hi | hi)
    · exact Or.inl hi
    · exact hi.elim
  have htop : q.top = b + 1 := by omega
  refine h.of_pop rfl rfl rfl rfl rfl ⟨hb, htop⟩ hunread
    (payloadUnread_mono hunread fun _ _ _ h => by cases h) ?_
  simp only [inFlight_loadTop_empty hlt]
  rfl

theorem Inv.pop_restoresEmpty {b : ℤ}
    (h : Inv batch ⟨q, rest, main, some (.restoreEmpty b), ran, returned⟩) :
    Inv batch ⟨q.setBottom (b + 1), rest, main, none, ran, returned⟩ := by
  obtain ⟨hb, ht⟩ : q.bottom = b ∧ q.top = b + 1 := h.worker
  have hunread : ∀ i, ¬ PayloadUnread ⟨q.setBottom (b + 1), rest, main, none, ran, returned⟩ i :=
    not_payloadUnread ht.ge trivial
  refine h.of_pop rfl rfl rfl rfl rfl ht.le (fun i hi => (hunread i (Or.inl hi)).elim)
    (fun i hi => (hunread i hi).elim) ?_
  change (returned : Multiset (τ × π)) + ([] : List (τ × π)) + q.pairsIn q.top (b + 1) =
    returned + ([] : List (τ × π)) + q.pairsIn q.top q.bottom
  rw [q.pairsIn_empty ht.ge, q.pairsIn_empty (show q.bottom ≤ q.top by omega)]

theorem Inv.pop_loadsTask {b t : ℤ}
    (h : Inv batch ⟨q, rest, main, some (.loadTask b t), ran, returned⟩) :
    Inv batch ⟨q, rest, main, some (.loadPayload b t (q.pairAt b).1), ran, returned⟩ := by
  have hok : WorkerOk q (some (.loadTask b t)) := h.worker
  have hpayload : ∀ i, PayloadUnread ⟨q, rest, main, some (.loadPayload b t (q.pairAt b).1), ran,
      returned⟩ i → TaskUnread ⟨q, rest, main, some (.loadTask b t), ran, returned⟩ i := by
    rintro i ((hi | hi) | rfl)
    · exact Or.inl hi
    · exact hi.elim
    · exact Or.inr rfl
  exact h.of_pop rfl rfl rfl rfl rfl hok (fun i hi => hpayload i (Or.inl hi))
    (fun i hi => Or.inl (hpayload i hi)) rfl

/-- The last entry has to be won from the thieves. -/
theorem Inv.pop_loadsPayload_last {t : ℤ} {task : τ}
    (h : Inv batch ⟨q, rest, main, some (.loadPayload t t task), ran, returned⟩) :
    Inv batch ⟨q, rest, main, some (.exchangeTop t t task (q.pairAt t).2), ran, returned⟩ := by
  obtain ⟨hb, ht, -⟩ : q.bottom = t ∧ q.top = t ∧ t ≤ t := h.worker
  exact h.of_pop rfl rfl rfl rfl rfl ⟨hb, ht, rfl⟩ (fun i hi => hi)
    (fun i hi => Or.inl (hi.resolve_right id)) rfl

theorem Inv.pop_returns_more {b t : ℤ} {task : τ}
    (h : Inv batch ⟨q, rest, main, some (.loadPayload b t task), ran, returned⟩) :
    Inv batch ⟨q, rest, main, none, ran, (task, (q.pairAt b).2) :: returned⟩ := by
  obtain ⟨hb, ht, hle⟩ : q.bottom = b ∧ q.top = t ∧ t ≤ b := h.worker
  have hok : q.top ≤ q.bottom := by omega
  refine h.of_pop rfl rfl rfl rfl rfl hok (fun i hi => hi)
    (fun i hi => Or.inl (hi.resolve_right id)) ?_
  simp only [inFlight, ← Multiset.singleton_add, ← Multiset.cons_coe, Multiset.coe_nil]
  abel

theorem Inv.pop_exchangesTop {b t : ℤ} {task : τ} {payload : π}
    (h : Inv batch ⟨q, rest, main, some (.exchangeTop b t task payload), ran, returned⟩) :
    Inv batch ⟨q.setTop (t + 1), rest, main, some (.restoreTaken b task payload), ran, returned⟩ := by
  obtain ⟨hb, ht, rfl⟩ : q.bottom = b ∧ q.top = t ∧ t = b := h.worker
  have hle : q.bottom ≤ t + 1 := by omega
  have hunread : ∀ i, ¬ PayloadUnread ⟨q.setTop (t + 1), rest, main,
      some (.restoreTaken t task payload), ran, returned⟩ i := not_payloadUnread hle trivial
  refine h.of_pop rfl rfl rfl rfl rfl ⟨hb, rfl⟩ (fun i hi => (hunread i (Or.inl hi)).elim)
    (fun i hi => (hunread i hi).elim) ?_
  change (returned : Multiset (τ × π)) + ([(task, payload)] : List (τ × π)) +
    q.pairsIn (t + 1) q.bottom = returned + ([(task, payload)] : List (τ × π)) + q.pairsIn q.top q.bottom
  rw [q.pairsIn_empty hle, q.pairsIn_empty (show q.bottom ≤ q.top by omega)]

theorem Inv.pop_returns_last {b : ℤ} {task : τ} {payload : π}
    (h : Inv batch ⟨q, rest, main, some (.restoreTaken b task payload), ran, returned⟩) :
    Inv batch ⟨q.setBottom (b + 1), rest, main, none, ran, (task, payload) :: returned⟩ := by
  obtain ⟨hb, ht⟩ : q.bottom = b ∧ q.top = b + 1 := h.worker
  have hunread : ∀ i, ¬ PayloadUnread ⟨q.setBottom (b + 1), rest, main, none, ran,
      (task, payload) :: returned⟩ i := not_payloadUnread ht.ge trivial
  refine h.of_pop rfl rfl rfl rfl rfl ht.le (fun i hi => (hunread i (Or.inl hi)).elim)
    (fun i hi => (hunread i hi).elim) ?_
  change (((task, payload) :: returned : List (τ × π)) : Multiset (τ × π)) +
      ([] : List (τ × π)) + q.pairsIn q.top (b + 1) =
    returned + ([(task, payload)] : List (τ × π)) + q.pairsIn q.top q.bottom
  rw [q.pairsIn_empty ht.ge, q.pairsIn_empty (show q.bottom ≤ q.top by omega),
    ← Multiset.cons_coe, ← Multiset.singleton_add, Multiset.coe_singleton, Multiset.coe_nil]
  abel

end Pop

theorem Inv.workerStep {batch : List (τ × π)} {s : HandOverState τ π} (h : Inv batch s) :
    Inv batch s.workerStep := by
  obtain ⟨q, rest, main, worker, ran, returned⟩ := s
  have hw : WorkerOk q worker := h.worker
  rcases worker with _ | pc
  · exact h.of_pop rfl rfl rfl rfl rfl hw (fun i hi => hi) (fun i hi => hi) rfl
  · cases pc with
    | loadBottom => exact h.pop_loadsBottom
    | storeBottom b => exact h.pop_storesBottom
    | loadTop b =>
        rcases le_or_gt q.top b with hle | hlt
        · have hstep : HandOverState.workerStep ⟨q, rest, main, some (.loadTop b), ran, returned⟩ =
              ⟨q, rest, main, some (.loadTask b q.top), ran, returned⟩ := by
            simp [HandOverState.workerStep, TaskQueue.popStep, not_lt.mpr hle]
          rw [hstep]
          exact h.pop_loadsTop hle
        · have hstep : HandOverState.workerStep ⟨q, rest, main, some (.loadTop b), ran, returned⟩ =
              ⟨q, rest, main, some (.restoreEmpty b), ran, returned⟩ := by
            simp [HandOverState.workerStep, TaskQueue.popStep, hlt]
          rw [hstep]
          exact h.pop_loadsTop_empty hlt
    | restoreEmpty b => exact h.pop_restoresEmpty
    | loadTask b t => exact h.pop_loadsTask
    | loadPayload b t task =>
        obtain ⟨-, -, hle⟩ : q.bottom = b ∧ q.top = t ∧ t ≤ b := hw
        rcases hle.eq_or_lt with rfl | hlt
        · have hstep : HandOverState.workerStep ⟨q, rest, main, some (.loadPayload t t task), ran, returned⟩ =
              ⟨q, rest, main, some (.exchangeTop t t task (q.pairAt t).2), ran, returned⟩ := by
            simp [HandOverState.workerStep, TaskQueue.popStep, TaskQueue.pairAt]
          rw [hstep]
          exact h.pop_loadsPayload_last
        · have hstep : HandOverState.workerStep ⟨q, rest, main, some (.loadPayload b t task), ran, returned⟩ =
              ⟨q, rest, main, none, ran, (task, (q.pairAt b).2) :: returned⟩ := by
            simp [HandOverState.workerStep, TaskQueue.popStep, TaskQueue.pairAt, hlt.ne]
          rw [hstep]
          exact h.pop_returns_more
    | exchangeTop b t task payload =>
        obtain ⟨-, ht, -⟩ : q.bottom = b ∧ q.top = t ∧ t = b := hw
        have hstep : HandOverState.workerStep ⟨q, rest, main, some (.exchangeTop b t task payload), ran,
            returned⟩ = ⟨q.setTop (t + 1), rest, main, some (.restoreTaken b task payload), ran, returned⟩ := by
          simp [HandOverState.workerStep, TaskQueue.popStep, TaskQueue.compareExchangeTop, ht]
        rw [hstep]
        exact h.pop_exchangesTop
    | restoreLost b => exact hw.elim
    | restoreTaken b task payload => exact h.pop_returns_last

/-! ### One access of the main thread -/

/-- A push that writes only read cells leaves every entry of the pop and of the
window as it was. -/
theorem entries_storeTask (s : HandOverState τ π) (task : τ) {b : ℤ}
    (h : ∀ i, TaskUnread s i → s.queue.slotIx i ≠ s.queue.slotIx b) :
    inFlight (s.queue.storeTask (s.queue.slotIx b) task) s.worker = inFlight s.queue s.worker ∧
      (s.queue.storeTask (s.queue.slotIx b) task).held = s.queue.held := by
  obtain ⟨q, rest, main, worker, ran, returned⟩ := s
  constructor
  · rcases worker with _ | pc
    · rfl
    · cases pc with
      | loadTop c =>
          rcases le_or_gt q.top c with hle | hlt
          · have hne : q.slotIx c ≠ q.slotIx b := h c (Or.inr ⟨rfl, hle⟩)
            rw [inFlight_loadTop hle, inFlight_loadTop (by exact hle), q.pairAt_storeTask_ne task hne]
          · rw [inFlight_loadTop_empty hlt, inFlight_loadTop_empty (by exact hlt)]
      | loadTask c t =>
          have hne : q.slotIx c ≠ q.slotIx b := h c (Or.inr rfl)
          exact congrArg (fun p => [p]) (q.pairAt_storeTask_ne task hne)
      | _ => rfl
  · apply TaskQueue.pairsIn_congr
    intro i hlo hhi
    exact q.pairAt_storeTask_ne task (h i (Or.inl ⟨hlo, hhi⟩))

theorem entries_storePayload (s : HandOverState τ π) (payload : π) {b : ℤ}
    (h : ∀ i, PayloadUnread s i → s.queue.slotIx i ≠ s.queue.slotIx b) :
    inFlight (s.queue.storePayload (s.queue.slotIx b) payload) s.worker = inFlight s.queue s.worker ∧
      (s.queue.storePayload (s.queue.slotIx b) payload).held = s.queue.held := by
  obtain ⟨q, rest, main, worker, ran, returned⟩ := s
  constructor
  · rcases worker with _ | pc
    · rfl
    · cases pc with
      | loadTop c =>
          rcases le_or_gt q.top c with hle | hlt
          · have hne : q.slotIx c ≠ q.slotIx b := h c (Or.inl (Or.inr ⟨rfl, hle⟩))
            rw [inFlight_loadTop hle, inFlight_loadTop (by exact hle), q.pairAt_storePayload_ne payload hne]
          · rw [inFlight_loadTop_empty hlt, inFlight_loadTop_empty (by exact hlt)]
      | loadTask c t =>
          have hne : q.slotIx c ≠ q.slotIx b := h c (Or.inl (Or.inr rfl))
          exact congrArg (fun p => [p]) (q.pairAt_storePayload_ne payload hne)
      | loadPayload c t task =>
          have hne : q.slotIx c ≠ q.slotIx b := h c (Or.inr rfl)
          exact congrArg (fun p => [(task, p.2)]) (q.pairAt_storePayload_ne payload hne)
      | _ => rfl
  · apply TaskQueue.pairsIn_congr
    intro i hlo hhi
    exact q.pairAt_storePayload_ne payload (h i (Or.inl (Or.inl ⟨hlo, hhi⟩)))

/-- When `bottom` is stored over the value the push loaded, no pop can be half-way. -/
theorem Inv.worker_idle {batch : List (τ × π)} {s : HandOverState τ π} (h : Inv batch s)
    {task : τ} {payload : π} {b : ℤ} (hmain : s.main = some (.storeBottom task payload b))
    (hb : s.queue.bottom = b) (howes : ¬ PopOwesBottom s) :
    s.worker = none ∨ s.worker = some .loadBottom := by
  obtain ⟨q, rest, main, worker, ran, returned⟩ := s
  have hw : WorkerOk q worker := h.worker
  obtain rfl : main = some (.storeBottom task payload b) := hmain
  obtain rfl : q.bottom = b := hb
  have hsafe : ∀ i, PayloadUnread ⟨q, rest, some (.storeBottom task payload q.bottom), worker, ran,
      returned⟩ i → q.slotIx i ≠ q.slotIx q.bottom := h.main.1
  rcases worker with _ | pc
  · exact Or.inl rfl
  · cases pc with
    | loadBottom => exact Or.inr rfl
    | loadTop c =>
        -- the pop holds index `c = b`, so its cell would have been overwritten
        obtain ⟨hc, -⟩ : q.bottom = c ∧ q.top ≤ c + 1 := hw
        have hle : q.top ≤ c := (not_le.mp howes).le
        exact (hsafe c (Or.inl (Or.inr ⟨rfl, hle⟩)) (by rw [hc])).elim
    | loadTask c t =>
        obtain ⟨hc, -⟩ : q.bottom = c ∧ q.top = t ∧ t ≤ c := hw
        exact (hsafe c (Or.inl (Or.inr rfl)) (by rw [hc])).elim
    | loadPayload c t task' =>
        obtain ⟨hc, -⟩ : q.bottom = c ∧ q.top = t ∧ t ≤ c := hw
        exact (hsafe c (Or.inr rfl) (by rw [hc])).elim
    | _ => exact (howes trivial).elim

theorem WorkerOk.of_bounds {q q' : TaskQueue (Cells τ π)} {worker : Option (PopPc τ π)}
    (h : WorkerOk q worker) (htop : q'.top = q.top) (hbottom : q'.bottom = q.bottom) :
    WorkerOk q' worker := by
  unfold WorkerOk at h ⊢
  rw [htop, hbottom]
  exact h

theorem Inv.mainStep {batch : List (τ × π)} {s s' : HandOverState τ π} (h : Inv batch s)
    (hg : PushUndisturbed s .main) (hn : s.mainStep = some s') : Inv batch s' := by
  obtain ⟨q, rest, main, worker, ran, returned⟩ := s
  have hw : WorkerOk q worker := h.worker
  have hacc : (batch : Multiset (τ × π)) =
    rest + inHand main + ran + returned + inFlight q worker + q.held := h.accounted
  rcases main with _ | pc
  · rcases rest with _ | ⟨p, rest⟩
    · cases hn
    · obtain rfl := Option.some.inj hn
      refine ⟨hw, trivial, ?_⟩
      rw [hacc, ← Multiset.cons_coe, ← Multiset.singleton_add]
      simp only [inHand, PushPc.pair, Multiset.coe_nil, Multiset.coe_singleton]
      abel
  · cases pc with
    | loadBottom task payload =>
        obtain rfl := Option.some.inj hn
        exact ⟨hw, trivial, hacc⟩
    | loadTop task payload b =>
        by_cases hfull : b - q.top > q.size
        · have hstep : HandOverState.mainStep ⟨q, rest, some (.loadTop task payload b), worker, ran,
              returned⟩ = some ⟨q, rest, none, worker, (task, payload) :: ran, returned⟩ := by
            simp [HandOverState.mainStep, TaskQueue.pushStep, hfull]
          obtain rfl := Option.some.inj (hstep.symm.trans hn)
          refine ⟨hw, trivial, ?_⟩
          rw [hacc, ← Multiset.cons_coe, ← Multiset.singleton_add]
          simp only [inHand, PushPc.pair, Multiset.coe_nil, Multiset.coe_singleton]
          abel
        · have hstep : HandOverState.mainStep ⟨q, rest, some (.loadTop task payload b), worker, ran,
              returned⟩ = some ⟨q, rest, some (.storeTask task payload b), worker, ran, returned⟩ := by
            simp [HandOverState.mainStep, TaskQueue.pushStep, hfull]
          obtain rfl := Option.some.inj (hstep.symm.trans hn)
          exact ⟨hw, trivial, hacc⟩
    | storeTask task payload b =>
        obtain rfl := Option.some.inj hn
        let s : HandOverState τ π := ⟨q, rest, some (.storeTask task payload b), worker, ran, returned⟩
        have hread : ∀ i, TaskUnread s i → q.slotIx i ≠ q.slotIx b := hg
        refine ⟨hw.of_bounds rfl rfl, ⟨hread, ?_⟩, ?_⟩
        · exact Function.update_self (q.slotIx b) task q.slots.tasks
        · obtain ⟨hflight, hheld⟩ := entries_storeTask s task hread
          rw [hacc, ← hflight, ← hheld]
          rfl
    | storePayload task payload b =>
        obtain rfl := Option.some.inj hn
        let s : HandOverState τ π := ⟨q, rest, some (.storePayload task payload b), worker, ran, returned⟩
        have hread : ∀ i, PayloadUnread s i → q.slotIx i ≠ q.slotIx b := hg
        have htask : (q.pairAt b).1 = task := h.main.2
        refine ⟨hw.of_bounds rfl rfl, ⟨hread, ?_⟩, ?_⟩
        · have hpayload : ((q.storePayload (q.slotIx b) payload).pairAt b).2 = payload := by
            simp [TaskQueue.pairAt, TaskQueue.storePayload, TaskQueue.slotIx, SlotMemory.loadPayload,
              SlotMemory.storePayload]
          exact Prod.ext htask hpayload
        · obtain ⟨hflight, hheld⟩ := entries_storePayload s payload hread
          rw [hacc, ← hflight, ← hheld]
          rfl
    | storeBottom task payload b =>
        obtain ⟨rfl, howes⟩ : q.bottom = b ∧ ¬ PopOwesBottom _ := hg
        obtain rfl := Option.some.inj hn
        have hpair : q.pairAt q.bottom = (task, payload) := h.main.2
        have hidle : worker = none ∨ worker = some .loadBottom := h.worker_idle rfl rfl howes
        have hle : q.top ≤ q.bottom := by rcases hidle with rfl | rfl <;> exact hw
        have hflight : inFlight q worker = [] := by rcases hidle with rfl | rfl <;> rfl
        have hflight' : inFlight (q.setBottom (q.bottom + 1)) worker = [] := by
          rcases hidle with rfl | rfl <;> rfl
        have hok : WorkerOk (q.setBottom (q.bottom + 1)) worker := by
          have hgrown : q.top ≤ q.bottom + 1 := by omega
          rcases hidle with rfl | rfl <;> exact hgrown
        have hheld : (q.setBottom (q.bottom + 1)).held = q.held ++ [(task, payload)] := by
          rw [← hpair]
          exact q.pairsIn_snoc hle
        refine ⟨hok, trivial, ?_⟩
        change (batch : Multiset (τ × π)) = rest + ([] : List (τ × π)) + ran + returned +
          inFlight (q.setBottom (q.bottom + 1)) worker + (q.setBottom (q.bottom + 1)).held
        rw [hacc, hflight, hflight', hheld, ← Multiset.coe_add]
        simp only [inHand, PushPc.pair, Multiset.coe_nil]
        abel

/-! ### Runs -/

theorem Inv.step {batch : List (τ × π)} (s : HandOverState τ π) (l : HandOverThread)
    (s' : HandOverState τ π) (h : Inv batch s) (hg : PushUndisturbed s l)
    (hn : (machine τ π).next s l = some s') : Inv batch s' := by
  cases l with
  | main => exact h.mainStep hg hn
  | worker =>
      obtain rfl := Option.some.inj hn
      exact h.workerStep

/-- Exactly-once hand-over, in every run whose pushes are not disturbed. -/
theorem exactlyOnce_of_undisturbed (k : ℕ) (slots : Cells τ π) (p : DependencyCounterPtr)
    (batch : List (τ × π)) (s : HandOverState τ π)
    (hrun : (machine τ π).ReachIf PushUndisturbed (start (.ofCells k slots p) batch) s)
    (hquiet : s.Quiescent) : s.ExactlyOnce batch := by
  have hinv : Inv batch s := hrun.invariant Inv.step (start_inv rfl batch)
  exact hinv.exactlyOnce hquiet

def oneCell : TaskQueue (Cells ℕ ℕ) := .ofCells 0 ⟨fun _ => 0, fun _ => 0⟩ .null

/-- The push runs between the start of a pop and its first access. -/
theorem exactlyOnce_after_pop : ∃ s : HandOverState ℕ ℕ,
    s.returned = [(7, 8)] ∧ s.queue.top = 1 ∧ s.ExactlyOnce [(7, 8)] := by
  let schedule : List HandOverThread := .worker :: List.replicate 6 .main ++ List.replicate 7 .worker
  refine ⟨((machine ℕ ℕ).exec (start oneCell [(7, 8)]) schedule).getD (start oneCell []), rfl, rfl,
    exactlyOnce_of_undisturbed 0 ⟨fun _ => 0, fun _ => 0⟩ .null [(7, 8)] _
      (Machine.reachIf_of_exec schedule rfl ?_) ⟨rfl, rfl⟩⟩
  have hworker : ∀ n s, (machine ℕ ℕ).Obeys PushUndisturbed s (List.replicate n .worker) := by
    intro n
    induction n with
    | zero => exact fun s => trivial
    | succ n ih => exact fun s => ⟨trivial, fun s' _ => ih s'⟩
  refine ⟨trivial, fun s₁ h₁ => ⟨?_, fun s₂ h₂ => ⟨?_, fun s₃ h₃ => ⟨?_, fun s₄ h₄ => ⟨?_,
    fun s₅ h₅ => ⟨?_, fun s₆ h₆ => ⟨?_, fun s₇ _ => hworker 7 s₇⟩⟩⟩⟩⟩⟩⟩
  all_goals
    obtain rfl := Option.some.inj h₁
    try obtain rfl := Option.some.inj h₂
    try obtain rfl := Option.some.inj h₃
    try obtain rfl := Option.some.inj h₄
    try obtain rfl := Option.some.inj h₅
    try obtain rfl := Option.some.inj h₆
  · trivial
  · trivial
  · trivial
  · exact fun i hi => (not_payloadUnread le_rfl (by trivial) i (Or.inl hi)).elim
  · exact fun i hi => (not_payloadUnread le_rfl (by trivial) i hi).elim
  · exact ⟨rfl, id⟩

/-- A pop that has read `bottom` before the push and stores it after: the pair is
neither run, nor returned, nor held. -/
theorem push_inside_pop_loses_entry :
    ¬ ∀ (k : ℕ) (slots : Cells ℕ ℕ) (p : DependencyCounterPtr) (batch : List (ℕ × ℕ))
      (s : HandOverState ℕ ℕ),
      (machine ℕ ℕ).Reach (start (.ofCells k slots p) batch) s → s.Quiescent →
        s.ExactlyOnce batch := by
  intro h
  let schedule : List HandOverThread :=
    .worker :: .worker :: List.replicate 6 .main ++ List.replicate 3 .worker
  have hlost := h 0 ⟨fun _ => 0, fun _ => 0⟩ .null [(7, 8)]
    (((machine ℕ ℕ).exec (start oneCell [(7, 8)]) schedule).getD (start oneCell []))
    (Machine.reach_of_exec schedule rfl) ⟨rfl, rfl⟩
  have hcard := congrArg Multiset.card hlost
  exact absurd hcard (by decide)

end HandOverState
end ProjectDelta
