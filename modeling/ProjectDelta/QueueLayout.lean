import ProjectDelta.ByteMemory
import ProjectDelta.MemoryMap
import ProjectDelta.QueueRefinement

/-!
# The slot arrays of a worker queue in memory

`InitializeQueue` carves both arrays out of one committed block. `size` is a
number of entries, yet it is added to a byte pointer, so `payloads` starts
`size` bytes after `tasks` and not `size` entries after it: payload slot `i` is
task slot `i + 512`.
-/

namespace ProjectDelta

open BoundedDeque (Op Outcome)

/-- The arrays as pointers into byte memory, with 8-byte elements. -/
structure ByteSlots where
  tasks : BitVec 64
  payloads : BitVec 64
  memory : ByteMemory

namespace ByteSlots

/-- `&array[ix]` -/
def element (array : BitVec 64) (ix : ℤ) : ℕ := (array + 8#64 * BitVec.ofInt 64 ix).toNat

def loadPtr (m : ByteSlots) (a : ℕ) : BitVec 64 := BitVec.ofNat 64 (m.memory.load a 8)

def storePtr (m : ByteSlots) (a : ℕ) (v : BitVec 64) : ByteSlots :=
  { m with memory := m.memory.store a 8 v.toNat }

instance : SlotMemory ByteSlots (BitVec 64) (BitVec 64) where
  loadTask m ix := m.loadPtr (element m.tasks ix)
  loadPayload m ix := m.loadPtr (element m.payloads ix)
  storeTask m ix task := m.storePtr (element m.tasks ix) task
  storePayload m ix payload := m.storePtr (element m.payloads ix) payload

@[simp] theorem storePtr_tasks (m : ByteSlots) (a : ℕ) (v : BitVec 64) :
    (m.storePtr a v).tasks = m.tasks := rfl

@[simp] theorem storePtr_payloads (m : ByteSlots) (a : ℕ) (v : BitVec 64) :
    (m.storePtr a v).payloads = m.payloads := rfl

theorem loadPtr_storePtr_self (m : ByteSlots) (a : ℕ) (v : BitVec 64) :
    (m.storePtr a v).loadPtr a = v := by
  have hfits : v.toNat < 256 ^ 8 := v.isLt
  rw [loadPtr, storePtr, ByteMemory.load_store_self, Nat.mod_eq_of_lt hfits, BitVec.ofNat_toNat,
    BitVec.setWidth_eq]

theorem loadPtr_storePtr_disjoint (m : ByteSlots) {a b : ℕ} (v : BitVec 64)
    (h : b + 8 ≤ a ∨ a + 8 ≤ b) : (m.storePtr a v).loadPtr b = m.loadPtr b := by
  rw [loadPtr, storePtr, ByteMemory.load_store_disjoint m.memory v.toNat h, loadPtr]

/-- The element address when the array does not wrap round the address space. -/
theorem element_of_fits {array : BitVec 64} {n : ℕ} (h : array.toNat + 8 * n < 2 ^ 64) :
    element array n = array.toNat + 8 * n := by
  have hix : (BitVec.ofInt 64 (n : ℤ)).toNat = n := by
    rw [BitVec.ofInt_natCast, BitVec.toNat_ofNat, Nat.mod_eq_of_lt (by omega)]
  rw [element, BitVec.toNat_add, BitVec.toNat_mul, hix]
  simp only [BitVec.toNat_ofNat]
  omega

end ByteSlots

namespace TaskQueue

/-- `sizeof(task_t) + sizeof(payload_t)` -/
def fieldSize : BitVec 64 := 16#64

/-- The second component is what `Memory_Commit` is called with. `depCounter` is
never stored. -/
def initializeQueue (pageCoord : ThreadPageCoordinator) (queue : TaskQueue ByteSlots)
    (_depCounter : DependencyCounterPtr) (offset memSize : BitVec 64) :
    TaskQueue ByteSlots × MemoryRange :=
  let size := memSize / fieldSize
  let pTarget := pageCoord.virtualAddressBase + offset
  ({ queue with
      size := size.toInt
      mask := size.toInt - 1
      top := 0
      bottom := 0
      slots := { queue.slots with tasks := pTarget, payloads := pTarget + size } },
    ⟨pTarget, memSize⟩)

/-- The call of `ThreadContext_Initialize` for a worker. -/
def workerQueue (pageCoord : ThreadPageCoordinator) (queue : TaskQueue ByteSlots) :
    TaskQueue ByteSlots × MemoryRange :=
  initializeQueue pageCoord queue .mainDepCounter MemoryMap.Worker.virtZoneQueueOffset
    MemoryMap.Worker.virtZoneQueueSize

/-! ### Where the arrays lie -/

def tasksRange (q : TaskQueue ByteSlots) : MemoryRange :=
  ⟨q.slots.tasks, 8#64 * BitVec.ofInt 64 q.size⟩

def payloadsRange (q : TaskQueue ByteSlots) : MemoryRange :=
  ⟨q.slots.payloads, 8#64 * BitVec.ofInt 64 q.size⟩

variable (z : Zone) (q₀ : TaskQueue ByteSlots)

theorem workerQueue_tasks :
    (workerQueue z.toThreadPageCoordinator q₀).1.slots.tasks.toNat =
      z.virtualAddressBase.toNat + 1073741824 := by
  have hbase := z.base_lt
  change (z.virtualAddressBase + MemoryMap.Worker.virtZoneQueueOffset).toNat = _
  rw [BitVec.toNat_add, MemoryMap.Worker.virtZoneQueueOffset_toNat]
  omega

/-- The second array starts 4096 bytes, not 4096 entries, after the first. -/
theorem workerQueue_payloads :
    (workerQueue z.toThreadPageCoordinator q₀).1.slots.payloads.toNat =
      (workerQueue z.toThreadPageCoordinator q₀).1.slots.tasks.toNat + 4096 := by
  have hbase := z.base_lt
  have htasks := workerQueue_tasks z q₀
  have hsize : (MemoryMap.Worker.virtZoneQueueSize / fieldSize).toNat = 4096 := by decide
  change ((workerQueue z.toThreadPageCoordinator q₀).1.slots.tasks +
    MemoryMap.Worker.virtZoneQueueSize / fieldSize).toNat = _
  rw [BitVec.toNat_add, hsize]
  omega

theorem workerQueue_size : (workerQueue z.toThreadPageCoordinator q₀).1.size = 4096 := by
  change (MemoryMap.Worker.virtZoneQueueSize / fieldSize).toInt = 4096
  decide

theorem workerQueue_isRing : (workerQueue z.toThreadPageCoordinator q₀).1.IsRing :=
  ⟨12, workerQueue_size z q₀, rfl⟩

/-! ### What a batch of pushes leaves in the arrays -/

/-- The pair that a reader of index `i` finds after the pairs of `ps` were pushed:
its payload slot is the task slot of index `i + 512`. -/
def readBack (ps : List (BitVec 64 × BitVec 64)) (i : ℕ) : BitVec 64 × BitVec 64 :=
  ((ps.getD i default).1, match ps[i + 512]? with
    | some p => p.1
    | none => (ps.getD i default).2)

/-- The arrays of `q` lie `4096` bytes apart from each other and do not wrap. -/
structure Overlapping (q : TaskQueue ByteSlots) : Prop where
  ring : q.IsRing
  size : q.size = 4096
  payloads : q.slots.payloads.toNat = q.slots.tasks.toNat + 4096
  fits : q.slots.tasks.toNat + 65536 ≤ 2 ^ 64

theorem workerQueue_overlapping :
    Overlapping (workerQueue z.toThreadPageCoordinator q₀).1 where
  ring := workerQueue_isRing z q₀
  size := workerQueue_size z q₀
  payloads := workerQueue_payloads z q₀
  fits := by
    have hbase := z.base_lt
    have htasks := workerQueue_tasks z q₀
    omega

theorem Overlapping.slotIx {q : TaskQueue ByteSlots} (h : Overlapping q) {i : ℕ} (hi : i < 4096) :
    q.slotIx i = i := by
  rw [h.ring.slotIx_eq, h.size]
  omega

theorem Overlapping.pairAt {q : TaskQueue ByteSlots} (h : Overlapping q) {i : ℕ} (hi : i < 4096) :
    q.pairAt i = (q.slots.loadPtr (q.slots.tasks.toNat + 8 * i),
      q.slots.loadPtr (q.slots.tasks.toNat + 8 * (i + 512))) := by
  have hfits := h.fits
  have hpayloads := h.payloads
  change (q.slots.loadPtr (ByteSlots.element q.slots.tasks (q.slotIx i)),
    q.slots.loadPtr (ByteSlots.element q.slots.payloads (q.slotIx i))) = _
  rw [h.slotIx hi, ByteSlots.element_of_fits (by omega), ByteSlots.element_of_fits (by omega),
    hpayloads, show q.slots.tasks.toNat + 4096 + 8 * i = q.slots.tasks.toNat + 8 * (i + 512) by ring]

/-- The state after the pairs of `ps` were pushed. -/
structure Filled (ps : List (BitVec 64 × BitVec 64)) (q : TaskQueue ByteSlots) : Prop
    extends Overlapping q where
  top : q.top = 0
  bottom : q.bottom = ps.length
  read : ∀ i : ℕ, i < ps.length → q.pairAt i = readBack ps i

theorem readBack_snoc_old {ps : List (BitVec 64 × BitVec 64)} (p : BitVec 64 × BitVec 64) {i : ℕ}
    (hi : i < ps.length) : readBack (ps ++ [p]) i =
      ((readBack ps i).1, if i + 512 = ps.length then p.1 else (readBack ps i).2) := by
  have hget : (ps ++ [p]).getD i default = ps.getD i default := List.getD_append ps [p] default i hi
  rw [readBack, readBack, hget]
  rcases lt_trichotomy (i + 512) ps.length with hlt | heq | hgt
  · simp [List.getElem?_append_left hlt, hlt.ne]
  · simp [heq]
  · have hnone : (ps ++ [p])[i + 512]? = none := List.getElem?_eq_none (by simp; omega)
    have hnone' : ps[i + 512]? = none := List.getElem?_eq_none hgt.le
    simp [hnone, hnone', hgt.ne']

theorem readBack_snoc_new (ps : List (BitVec 64 × BitVec 64)) (p : BitVec 64 × BitVec 64) :
    readBack (ps ++ [p]) ps.length = p := by
  simp [readBack]

theorem Filled.push {ps : List (BitVec 64 × BitVec 64)} {q : TaskQueue ByteSlots}
    (h : Filled ps q) (p : BitVec 64 × BitVec 64) (hroom : ps.length < 4096) :
    (q.perform (.push p)).2 = .queued ∧ Filled (ps ++ [p]) (q.perform (.push p)).1 := by
  have hnot : ¬ q.bottom - q.top > q.size := by rw [h.bottom, h.top, h.size]; omega
  have hfits := h.fits
  have hslot : q.slotIx q.bottom = ps.length := by rw [h.bottom, h.slotIx hroom]
  simp only [perform, q.push_room p.1 p.2 hnot, hslot]
  refine ⟨trivial, ?_⟩
  let q' := ((q.storeTask (ps.length : ℤ) p.1).storePayload (ps.length : ℤ) p.2).setBottom (q.bottom + 1)
  have hover : Overlapping q' := ⟨h.ring, h.size, h.payloads, h.fits⟩
  have hslots : q'.slots = (q.slots.storePtr (q.slots.tasks.toNat + 8 * ps.length) p.1).storePtr
      (q.slots.tasks.toNat + 8 * (ps.length + 512)) p.2 := by
    have htask : ByteSlots.element q.slots.tasks ps.length = q.slots.tasks.toNat + 8 * ps.length :=
      ByteSlots.element_of_fits (by omega)
    have hpayload : ByteSlots.element q.slots.payloads ps.length =
        q.slots.tasks.toNat + 8 * (ps.length + 512) := by
      rw [ByteSlots.element_of_fits (by rw [h.payloads]; omega), h.payloads]
      ring
    rw [← htask, ← hpayload]
    rfl
  have hbase : q'.slots.tasks = q.slots.tasks := rfl
  refine ⟨hover, h.top, ?_, ?_⟩
  · change q.bottom + 1 = _
    rw [h.bottom, List.length_append]
    push_cast
    rfl
  intro i hi
  change q'.pairAt i = _
  rw [List.length_append, List.length_singleton] at hi
  rw [hover.pairAt (by omega), hbase, hslots]
  rcases Nat.lt_succ_iff_lt_or_eq.mp hi with hold | rfl
  · have hread := h.read i hold
    rw [h.pairAt (by omega)] at hread
    rw [readBack_snoc_old p hold, ← hread, ByteSlots.loadPtr_storePtr_disjoint _ _ (by omega),
      ByteSlots.loadPtr_storePtr_disjoint _ _ (by omega),
      ByteSlots.loadPtr_storePtr_disjoint _ _ (by omega)]
    by_cases hmeet : i + 512 = ps.length
    · -- the new task lands on payload slot `i`
      rw [if_pos hmeet, hmeet, ByteSlots.loadPtr_storePtr_self]
    · rw [if_neg hmeet, ByteSlots.loadPtr_storePtr_disjoint _ _ (by omega)]
  · rw [readBack_snoc_new, ByteSlots.loadPtr_storePtr_self,
      ByteSlots.loadPtr_storePtr_disjoint _ _ (by omega), ByteSlots.loadPtr_storePtr_self]

theorem workerQueue_filled : Filled [] (workerQueue z.toThreadPageCoordinator q₀).1 where
  toOverlapping := workerQueue_overlapping z q₀
  top := rfl
  bottom := rfl
  read := fun i hi => absurd hi (Nat.not_lt_zero i)

theorem Filled.pushes {q : TaskQueue ByteSlots} (h : Filled [] q)
    (ps : List (BitVec 64 × BitVec 64)) (hps : ps.length ≤ 4096) :
    Mealy.outcomes perform q (ps.map .push) = List.replicate ps.length .queued ∧
      Filled ps (Mealy.final perform q (ps.map .push)) := by
  induction ps using List.reverseRecOn with
  | nil => exact ⟨rfl, h⟩
  | append_singleton ps p ih =>
      rw [List.length_append, List.length_singleton] at hps
      obtain ⟨hout, hfilled⟩ := ih (by omega)
      obtain ⟨hqueued, hnext⟩ := hfilled.push p (by omega)
      rw [List.map_append, Mealy.outcomes_append, Mealy.final_append, hout, List.length_append,
        List.replicate_add]
      exact ⟨congrArg (List.replicate ps.length Outcome.queued ++ [·]) hqueued, hnext⟩

/-! ### The layout against its purpose -/

/-- `m` pushes onto the empty queue are read back by `m` steals, in order and unchanged. -/
def ReadsBack (q : TaskQueue ByteSlots) (ps : List (BitVec 64 × BitVec 64)) : Prop :=
  Mealy.outcomes perform q (ps.map .push ++ List.replicate ps.length .steal) =
    List.replicate ps.length .queued ++ ps.map fun p => .returned (some p)

/-- Task `i + 512` and payload `i` are the same word whenever both were pushed. -/
def ClashesAgree (ps : List (BitVec 64 × BitVec 64)) : Prop :=
  ∀ i p p', ps[i]? = some p → ps[i + 512]? = some p' → p'.1 = p.2

theorem readBack_eq_iff (ps : List (BitVec 64 × BitVec 64)) :
    (List.range ps.length).map (readBack ps) = ps ↔ ClashesAgree ps := by
  have hread : ∀ i p, ps[i]? = some p → (readBack ps i = p ↔
      ∀ p', ps[i + 512]? = some p' → p'.1 = p.2) := by
    intro i p hp
    have hget : ps.getD i default = p := by rw [List.getD_eq_getElem?_getD, hp, Option.getD_some]
    rw [readBack, hget]
    cases ps[i + 512]? with
    | none => simp
    | some p' => simp [Prod.ext_iff]
  constructor
  · intro h i p p' hp hp'
    have hi : i < ps.length := (List.getElem?_eq_some_iff.mp hp).1
    have hat : ((List.range ps.length).map (readBack ps))[i]? = some p := by rw [h, hp]
    rw [List.getElem?_map, List.getElem?_range hi, Option.map_some] at hat
    exact (hread i p hp).mp (Option.some.inj hat) p' hp'
  · intro h
    apply List.ext_getElem?
    intro i
    rcases lt_or_ge i ps.length with hi | hi
    · obtain ⟨p, hp⟩ : ∃ p, ps[i]? = some p := ⟨ps[i], List.getElem?_eq_getElem hi⟩
      rw [List.getElem?_map, List.getElem?_range hi, hp, Option.map_some]
      exact congrArg some ((hread i p hp).mpr (h i p · hp))
    · rw [List.getElem?_eq_none hi, List.getElem?_eq_none (by simpa using hi)]

theorem Filled.pairsIn {ps : List (BitVec 64 × BitVec 64)} {q : TaskQueue ByteSlots}
    (h : Filled ps q) : q.pairsIn 0 ps.length = (List.range ps.length).map (readBack ps) := by
  rw [TaskQueue.pairsIn, Int.range, sub_zero, Int.toNat_natCast, List.map_map]
  apply List.map_congr_left
  intro i hi
  have hlt : i < ps.length := List.mem_range.mp hi
  rw [Function.comp_apply, zero_add]
  exact h.read i hlt

theorem readsBack_iff {ps : List (BitVec 64 × BitVec 64)} (hps : ps.length ≤ 4096) :
    ReadsBack (workerQueue z.toThreadPageCoordinator q₀).1 ps ↔ ClashesAgree ps := by
  obtain ⟨hout, hfilled⟩ := (workerQueue_filled z q₀).pushes ps hps
  have hsteals := outcomes_steals (Mealy.final perform (workerQueue z.toThreadPageCoordinator q₀).1
    (ps.map .push)) ps.length (by rw [hfilled.top, hfilled.bottom, zero_add])
  rw [hfilled.top, zero_add, hfilled.pairsIn] at hsteals
  rw [ReadsBack, Mealy.outcomes_append, hout, hsteals, List.append_cancel_left_eq, ← readBack_eq_iff]
  constructor
  · intro h
    have hinj : Function.Injective fun p : BitVec 64 × BitVec 64 => Outcome.returned (some p) :=
      fun a b hab => by simpa using hab
    exact List.map_injective_iff.mpr hinj h
  · intro h
    rw [h]

theorem ranges_of_overlapping {q : TaskQueue ByteSlots} (h : Overlapping q) :
    ¬ q.tasksRange.Disjoint q.payloadsRange := by
  have hlength : (8#64 * BitVec.ofInt 64 4096).toNat = 32768 := by decide
  have hpayloads := h.payloads
  intro hdisjoint
  apply hdisjoint q.slots.payloads.toNat
  simp only [MemoryRange.Contains, tasksRange, payloadsRange, h.size, hlength]
  omega

/-- The arrays lie in the committed block but overlap; a batch is read back
exactly when the words that share memory happen to agree. -/
theorem workerQueue_layout (z : Zone) (q₀ : TaskQueue ByteSlots) :
    let q := (workerQueue z.toThreadPageCoordinator q₀).1
    let committed := (workerQueue z.toThreadPageCoordinator q₀).2
    ¬ q.tasksRange.Disjoint q.payloadsRange ∧
      q.tasksRange.Inside committed ∧ q.payloadsRange.Inside committed ∧
      ∀ ps : List (BitVec 64 × BitVec 64), (ps.length : ℤ) ≤ q.size →
        (ReadsBack q ps ↔ ClashesAgree ps) := by
  intro q committed
  have hover : Overlapping q := workerQueue_overlapping z q₀
  have hlength : (8#64 * BitVec.ofInt 64 4096).toNat = 32768 := by decide
  have hstart : committed.start = q.slots.tasks := rfl
  have hmem : committed.length.toNat = 65536 := by
    change MemoryMap.Worker.virtZoneQueueSize.toNat = 65536
    decide
  have hpayloads := hover.payloads
  refine ⟨ranges_of_overlapping hover, ?_, ?_, ?_⟩
  · intro a ha
    simp only [MemoryRange.Contains, tasksRange, hover.size, hlength, hstart, hmem] at ha ⊢
    omega
  · intro a ha
    simp only [MemoryRange.Contains, payloadsRange, hover.size, hlength, hstart, hmem] at ha ⊢
    omega
  · intro ps hps
    rw [hover.size] at hps
    exact readsBack_iff z q₀ (by omega)

def firstZone : Zone := ⟨⟨0, 0, MemoryMap.virtZoneSpaceLength, 4096⟩, by decide⟩

/-- A queue in freshly committed memory. -/
def zeroedQueue : TaskQueue ByteSlots := ⟨0, 0, 0, 0, ⟨0, 0, fun _ => 0⟩, .null⟩

/-- The task of the pair numbered 512 lands on the payload of the first pair. -/
theorem payload_overwritten_by_task :
    ¬ ReadsBack (workerQueue firstZone.toThreadPageCoordinator zeroedQueue).1
      (List.replicate 513 (1, 2)) := by
  have hlength : (List.replicate 513 ((1, 2) : BitVec 64 × BitVec 64)).length ≤ 4096 := by
    rw [List.length_replicate]
    omega
  rw [readsBack_iff firstZone zeroedQueue hlength]
  intro h
  have hclash := h 0 (1, 2) (1, 2) (List.getElem?_replicate_of_lt (by omega))
    (List.getElem?_replicate_of_lt (by omega))
  exact absurd hclash (by decide)

end TaskQueue
end ProjectDelta
