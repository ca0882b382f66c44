import ProjectDelta.RingIndex

/-!
# The task queue of a worker

`TaskQueue` is the structure of `EngineTypes.h` and `push`, `pop` and `steal`
are the queue operations of `ThreadContext.cpp`, each run from start to end by
one thread. The two slot arrays are reached through `SlotMemory`, so that the
same operations run over separate cells and over raw bytes.

A `queue_index_t` is a signed 64-bit counter that stays far below `2 ^ 63`; it is an
integer here.
-/

namespace ProjectDelta

/-- What a `DependencyCounter*` can hold: there is one counter, in the main context. -/
inductive DependencyCounterPtr
  | null
  | mainDepCounter
  deriving DecidableEq

/-- The arrays `tasks` and `payloads`, read and written at a masked index. -/
class SlotMemory (σ : Type) (τ π : outParam Type) where
  loadTask : σ → ℤ → τ
  loadPayload : σ → ℤ → π
  storeTask : σ → ℤ → τ → σ
  storePayload : σ → ℤ → π → σ

/-- Slots as distinct cells: a task and a payload never share memory. -/
structure Cells (τ π : Type) where
  tasks : ℤ → τ
  payloads : ℤ → π

instance (τ π : Type) : SlotMemory (Cells τ π) τ π where
  loadTask m ix := m.tasks ix
  loadPayload m ix := m.payloads ix
  storeTask m ix task := { m with tasks := Function.update m.tasks ix task }
  storePayload m ix payload := { m with payloads := Function.update m.payloads ix payload }

structure TaskQueue (σ : Type) where
  top : ℤ
  bottom : ℤ
  size : ℤ
  mask : ℤ
  slots : σ
  depCounterPtr : DependencyCounterPtr

namespace TaskQueue

variable {σ τ π : Type} [SlotMemory σ τ π]

/-- `b & queue->mask` -/
def slotIx (q : TaskQueue σ) (b : ℤ) : ℤ := Int.land b q.mask

def setTop (q : TaskQueue σ) (t : ℤ) : TaskQueue σ := { q with top := t }

def setBottom (q : TaskQueue σ) (b : ℤ) : TaskQueue σ := { q with bottom := b }

def storeTask (q : TaskQueue σ) (ix : ℤ) (task : τ) : TaskQueue σ :=
  { q with slots := SlotMemory.storeTask q.slots ix task }

def storePayload (q : TaskQueue σ) (ix : ℤ) (payload : π) : TaskQueue σ :=
  { q with slots := SlotMemory.storePayload q.slots ix payload }

/-- `top.compare_exchange_strong(expected, desired)` -/
def compareExchangeTop (q : TaskQueue σ) (expected desired : ℤ) : TaskQueue σ × Bool :=
  if q.top = expected then (q.setTop desired, true) else (q, false)

/-- The result is the pair that the call executes itself because the queue is full. -/
def push (q : TaskQueue σ) (task : τ) (payload : π) : TaskQueue σ × Option (τ × π) :=
  let b := q.bottom
  let t := q.top
  if b - t > q.size then (q, some (task, payload))
  else
    let ix := q.slotIx b
    (((q.storeTask ix task).storePayload ix payload).setBottom (b + 1), none)

def pop (q : TaskQueue σ) : TaskQueue σ × Option (τ × π) :=
  let b := q.bottom - 1
  let q := q.setBottom b
  let t := q.top
  if t > b then (q.setBottom (b + 1), none)
  else
    let ix := q.slotIx b
    let task := SlotMemory.loadTask q.slots ix
    let payload := SlotMemory.loadPayload q.slots ix
    if t = b then
      let (q, exchanged) := q.compareExchangeTop t (t + 1)
      if exchanged then (q.setBottom (b + 1), some (task, payload))
      else (q.setBottom (b + 1), none)
    else (q, some (task, payload))

def steal (q : TaskQueue σ) : TaskQueue σ × Option (τ × π) :=
  let t := q.top
  let b := q.bottom
  if t ≥ b then (q, none)
  else
    let ix := q.slotIx t
    let task := SlotMemory.loadTask q.slots ix
    let payload := SlotMemory.loadPayload q.slots ix
    let (q, exchanged) := q.compareExchangeTop t (t + 1)
    if exchanged then (q, some (task, payload)) else (q, none)

/-! ### Fields after each update -/

@[simp] theorem setTop_top (q : TaskQueue σ) (t : ℤ) : (q.setTop t).top = t := rfl

@[simp] theorem setTop_bottom (q : TaskQueue σ) (t : ℤ) : (q.setTop t).bottom = q.bottom := rfl

@[simp] theorem setTop_size (q : TaskQueue σ) (t : ℤ) : (q.setTop t).size = q.size := rfl

@[simp] theorem setTop_mask (q : TaskQueue σ) (t : ℤ) : (q.setTop t).mask = q.mask := rfl

@[simp] theorem setTop_slots (q : TaskQueue σ) (t : ℤ) : (q.setTop t).slots = q.slots := rfl

@[simp] theorem setTop_depCounterPtr (q : TaskQueue σ) (t : ℤ) :
    (q.setTop t).depCounterPtr = q.depCounterPtr := rfl

@[simp] theorem setBottom_top (q : TaskQueue σ) (b : ℤ) : (q.setBottom b).top = q.top := rfl

@[simp] theorem setBottom_bottom (q : TaskQueue σ) (b : ℤ) :
    (q.setBottom b).bottom = b := rfl

@[simp] theorem setBottom_size (q : TaskQueue σ) (b : ℤ) :
    (q.setBottom b).size = q.size := rfl

@[simp] theorem setBottom_mask (q : TaskQueue σ) (b : ℤ) :
    (q.setBottom b).mask = q.mask := rfl

@[simp] theorem setBottom_slots (q : TaskQueue σ) (b : ℤ) :
    (q.setBottom b).slots = q.slots := rfl

@[simp] theorem setBottom_depCounterPtr (q : TaskQueue σ) (b : ℤ) :
    (q.setBottom b).depCounterPtr = q.depCounterPtr := rfl

@[simp] theorem setBottom_setBottom (q : TaskQueue σ) (b c : ℤ) :
    (q.setBottom b).setBottom c = q.setBottom c := rfl

@[simp] theorem setBottom_self (q : TaskQueue σ) : q.setBottom q.bottom = q := rfl

@[simp] theorem storeTask_top (q : TaskQueue σ) (ix : ℤ) (task : τ) :
    (q.storeTask ix task).top = q.top := rfl

@[simp] theorem storeTask_bottom (q : TaskQueue σ) (ix : ℤ) (task : τ) :
    (q.storeTask ix task).bottom = q.bottom := rfl

@[simp] theorem storeTask_size (q : TaskQueue σ) (ix : ℤ) (task : τ) :
    (q.storeTask ix task).size = q.size := rfl

@[simp] theorem storeTask_mask (q : TaskQueue σ) (ix : ℤ) (task : τ) :
    (q.storeTask ix task).mask = q.mask := rfl

@[simp] theorem storeTask_depCounterPtr (q : TaskQueue σ) (ix : ℤ) (task : τ) :
    (q.storeTask ix task).depCounterPtr = q.depCounterPtr := rfl

@[simp] theorem storePayload_top (q : TaskQueue σ) (ix : ℤ) (payload : π) :
    (q.storePayload ix payload).top = q.top := rfl

@[simp] theorem storePayload_bottom (q : TaskQueue σ) (ix : ℤ) (payload : π) :
    (q.storePayload ix payload).bottom = q.bottom := rfl

@[simp] theorem storePayload_size (q : TaskQueue σ) (ix : ℤ) (payload : π) :
    (q.storePayload ix payload).size = q.size := rfl

@[simp] theorem storePayload_mask (q : TaskQueue σ) (ix : ℤ) (payload : π) :
    (q.storePayload ix payload).mask = q.mask := rfl

@[simp] theorem storePayload_depCounterPtr (q : TaskQueue σ) (ix : ℤ) (payload : π) :
    (q.storePayload ix payload).depCounterPtr = q.depCounterPtr := rfl

theorem slotIx_congr {q q' : TaskQueue σ} (h : q'.mask = q.mask) (b : ℤ) :
    q'.slotIx b = q.slotIx b := by simp only [slotIx, h]

/-! ### The pairs of the window -/

/-- The pair whose index is `i`, as a reader of slot `i & mask` finds it. -/
def pairAt (q : TaskQueue σ) (i : ℤ) : τ × π :=
  (SlotMemory.loadTask q.slots (q.slotIx i), SlotMemory.loadPayload q.slots (q.slotIx i))

/-- The pairs from index `lo` up to and without index `hi`, oldest first. -/
def pairsIn (q : TaskQueue σ) (lo hi : ℤ) : List (τ × π) :=
  (Int.range lo hi).map q.pairAt

def held (q : TaskQueue σ) : List (τ × π) := q.pairsIn q.top q.bottom

@[simp] theorem setBottom_pairAt (q : TaskQueue σ) (b i : ℤ) :
    (q.setBottom b).pairAt i = q.pairAt i := rfl

@[simp] theorem setTop_pairsIn (q : TaskQueue σ) (t lo hi : ℤ) :
    (q.setTop t).pairsIn lo hi = q.pairsIn lo hi := rfl

@[simp] theorem setBottom_pairsIn (q : TaskQueue σ) (b lo hi : ℤ) :
    (q.setBottom b).pairsIn lo hi = q.pairsIn lo hi := rfl

theorem pairsIn_empty (q : TaskQueue σ) {lo hi : ℤ} (h : hi ≤ lo) :
    q.pairsIn lo hi = [] := by simp [pairsIn, RingIndex.range_empty h]

theorem pairsIn_snoc (q : TaskQueue σ) {lo hi : ℤ} (h : lo ≤ hi) :
    q.pairsIn lo (hi + 1) = q.pairsIn lo hi ++ [q.pairAt hi] := by
  simp [pairsIn, RingIndex.range_snoc h]

theorem pairsIn_cons (q : TaskQueue σ) {lo hi : ℤ} (h : lo < hi) :
    q.pairsIn lo hi = q.pairAt lo :: q.pairsIn (lo + 1) hi := by
  simp [pairsIn, RingIndex.range_cons h]

theorem length_pairsIn (q : TaskQueue σ) (lo hi : ℤ) :
    (q.pairsIn lo hi).length = (hi - lo).toNat := by
  simp [pairsIn, RingIndex.length_range]

theorem pairsIn_congr {q q' : TaskQueue σ} {lo hi : ℤ}
    (h : ∀ i, lo ≤ i → i < hi → q'.pairAt i = q.pairAt i) :
    q'.pairsIn lo hi = q.pairsIn lo hi := RingIndex.map_range_congr h

/-! ### What one call does -/

theorem push_full (q : TaskQueue σ) (task : τ) (payload : π) (h : q.bottom - q.top > q.size) :
    q.push task payload = (q, some (task, payload)) := if_pos h

theorem push_room (q : TaskQueue σ) (task : τ) (payload : π) (h : ¬ q.bottom - q.top > q.size) :
    q.push task payload =
      (((q.storeTask (q.slotIx q.bottom) task).storePayload (q.slotIx q.bottom) payload).setBottom
        (q.bottom + 1), none) := if_neg h

theorem pop_empty (q : TaskQueue σ) (h : q.bottom ≤ q.top) : q.pop = (q, none) := by
  have hgt : (q.setBottom (q.bottom - 1)).top > q.bottom - 1 := by rw [setBottom_top]; omega
  rw [pop, if_pos hgt, setBottom_setBottom, Int.sub_add_cancel, setBottom_self]

theorem pop_last (q : TaskQueue σ) (h : q.top + 1 = q.bottom) :
    q.pop = (q.setTop (q.top + 1), some (q.pairAt q.top)) := by
  have heq : q.bottom - 1 = q.top := by omega
  have hngt : ¬ (q.setBottom q.top).top > q.top := by rw [setBottom_top]; omega
  rw [pop, heq, if_neg hngt, if_pos (setBottom_top q q.top)]
  simp only [compareExchangeTop, if_pos, setBottom, setTop, h]
  rfl

theorem pop_more (q : TaskQueue σ) (h : q.top + 1 < q.bottom) :
    q.pop = (q.setBottom (q.bottom - 1), some (q.pairAt (q.bottom - 1))) := by
  have hngt : ¬ (q.setBottom (q.bottom - 1)).top > q.bottom - 1 := by rw [setBottom_top]; omega
  have hne : (q.setBottom (q.bottom - 1)).top ≠ q.bottom - 1 := by rw [setBottom_top]; omega
  rw [pop, if_neg hngt, if_neg hne]
  rfl

theorem steal_empty (q : TaskQueue σ) (h : q.bottom ≤ q.top) : q.steal = (q, none) := if_pos h

theorem steal_oldest (q : TaskQueue σ) (h : q.top < q.bottom) :
    q.steal = (q.setTop (q.top + 1), some (q.pairAt q.top)) := by
  have hnge : ¬ q.top ≥ q.bottom := by omega
  simp only [steal, if_neg hnge, compareExchangeTop, if_pos]
  rfl

/-- A pop fails only on an empty queue. -/
theorem pop_none {q q' : TaskQueue σ} (h : q.pop = (q', none)) : q' = q ∧ q.bottom ≤ q.top := by
  rcases lt_trichotomy (q.top + 1) q.bottom with hmore | hlast | hempty
  · rw [q.pop_more hmore] at h
    cases h
  · rw [q.pop_last hlast] at h
    cases h
  · have hle : q.bottom ≤ q.top := by omega
    rw [q.pop_empty hle] at h
    exact ⟨(Prod.mk.inj h).1.symm, hle⟩

theorem steal_none {q q' : TaskQueue σ} (h : q.steal = (q', none)) : q' = q ∧ q.bottom ≤ q.top := by
  rcases lt_or_ge q.top q.bottom with hlt | hle
  · rw [q.steal_oldest hlt] at h
    cases h
  · rw [q.steal_empty hle] at h
    exact ⟨(Prod.mk.inj h).1.symm, hle⟩

theorem steal_work {q q' : TaskQueue σ} {r : Option (τ × π)} (h : q.steal = (q', r))
    (hwork : q'.top < q'.bottom) : q.top < q.bottom := by
  by_contra hidle
  rw [q.steal_empty (not_lt.mp hidle)] at h
  obtain rfl := (Prod.mk.inj h).1
  exact hidle hwork

/-- A push that runs its task leaves the queue as it is. -/
theorem push_inline {q q' : TaskQueue σ} {p e : τ × π} (h : q.push p.1 p.2 = (q', some e)) :
    q' = q ∧ e = p ∧ q.bottom - q.top > q.size := by
  by_cases hfull : q.bottom - q.top > q.size
  · rw [q.push_full p.1 p.2 hfull] at h
    obtain ⟨hq, he⟩ := Prod.mk.inj h
    exact ⟨hq.symm, (Option.some.inj he).symm, hfull⟩
  · rw [q.push_room p.1 p.2 hfull] at h
    cases (Prod.mk.inj h).2

theorem push_depCounterPtr (q : TaskQueue σ) (task : τ) (payload : π) :
    (q.push task payload).1.depCounterPtr = q.depCounterPtr := by
  by_cases h : q.bottom - q.top > q.size
  · rw [q.push_full task payload h]
  · rw [q.push_room task payload h]
    rfl

theorem pop_depCounterPtr (q : TaskQueue σ) : q.pop.1.depCounterPtr = q.depCounterPtr := by
  rcases lt_trichotomy (q.top + 1) q.bottom with hmore | hlast | hempty
  · rw [q.pop_more hmore, setBottom_depCounterPtr]
  · rw [q.pop_last hlast, setTop_depCounterPtr]
  · rw [q.pop_empty (by omega)]

theorem steal_depCounterPtr (q : TaskQueue σ) : q.steal.1.depCounterPtr = q.depCounterPtr := by
  rcases lt_or_ge q.top q.bottom with h | h
  · rw [q.steal_oldest h, setTop_depCounterPtr]
  · rw [q.steal_empty h]

/-! ### Rings of cells -/

/-- The queue is a ring: its length is a power of two and the mask keeps the low bits. -/
def IsRing (q : TaskQueue σ) : Prop := ∃ k : ℕ, q.size = 2 ^ k ∧ q.mask = q.size - 1

theorem IsRing.slotIx_eq {q : TaskQueue σ} (h : q.IsRing) (i : ℤ) :
    q.slotIx i = i % q.size := by
  obtain ⟨k, hs, hm⟩ := h
  rw [slotIx, hm, hs, RingIndex.land_mask]

theorem IsRing.slotIx_ne {q : TaskQueue σ} (h : q.IsRing) {i j : ℤ} (hij : i < j)
    (hn : j - i < q.size) : q.slotIx i ≠ q.slotIx j := by
  rw [h.slotIx_eq, h.slotIx_eq]
  exact RingIndex.emod_ne_of_near hij hn

/-- An empty queue of `2 ^ k` cells. -/
def ofCells (k : ℕ) (slots : Cells τ π) (depCounterPtr : DependencyCounterPtr) :
    TaskQueue (Cells τ π) :=
  ⟨0, 0, 2 ^ k, 2 ^ k - 1, slots, depCounterPtr⟩

theorem ofCells_isRing (k : ℕ) (slots : Cells τ π) (p : DependencyCounterPtr) :
    (ofCells k slots p).IsRing := ⟨k, rfl, rfl⟩

theorem pairAt_storeTask_ne (q : TaskQueue (Cells τ π)) {ix : ℤ} (task : τ) {i : ℤ}
    (h : q.slotIx i ≠ ix) : (q.storeTask ix task).pairAt i = q.pairAt i := by
  simp [pairAt, storeTask, slotIx, SlotMemory.loadTask, SlotMemory.loadPayload,
    SlotMemory.storeTask, Function.update_of_ne (show Int.land i q.mask ≠ ix from h)]

theorem pairAt_storePayload_ne (q : TaskQueue (Cells τ π)) {ix : ℤ} (payload : π) {i : ℤ}
    (h : q.slotIx i ≠ ix) : (q.storePayload ix payload).pairAt i = q.pairAt i := by
  simp [pairAt, storePayload, slotIx, SlotMemory.loadTask, SlotMemory.loadPayload,
    SlotMemory.storePayload, Function.update_of_ne (show Int.land i q.mask ≠ ix from h)]

theorem pairAt_store_ne (q : TaskQueue (Cells τ π)) {ix : ℤ} (task : τ) (payload : π) {i : ℤ}
    (h : q.slotIx i ≠ ix) :
    ((q.storeTask ix task).storePayload ix payload).pairAt i = q.pairAt i := by
  rw [pairAt_storePayload_ne (q.storeTask ix task) payload h, pairAt_storeTask_ne q task h]

theorem pairAt_store_self (q : TaskQueue (Cells τ π)) (task : τ) (payload : π) (i : ℤ) :
    ((q.storeTask (q.slotIx i) task).storePayload (q.slotIx i) payload).pairAt i =
      (task, payload) := by
  simp [pairAt, storeTask, storePayload, slotIx, SlotMemory.loadTask, SlotMemory.loadPayload,
    SlotMemory.storeTask, SlotMemory.storePayload]

end TaskQueue
end ProjectDelta
