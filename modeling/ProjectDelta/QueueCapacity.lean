import ProjectDelta.QueueLayout

/-!
# How many entries the overlapping arrays carry

Task slot `i + 512` is payload slot `i`, so a push spoils an entry that is held only
when the two are 512 indices apart. As long as the window stays within 512 entries the
bytes of a worker queue serve every sequence of calls as separate cells do, all round
the ring of 4096 slots. One entry more and a payload is lost.
-/

namespace BoundedDeque

variable {α : Type*} {n : ℕ} {l : List α}

theorem step_push (h : l.length < n) (a : α) : step n l (.push a) = (l ++ [a], .queued) := if_pos h

/-- Pushes that fit are all queued. -/
theorem run_pushes (h : l.length ≤ n) : Mealy.final (step n) [] (l.map .push) = l ∧
    Mealy.outcomes (step n) [] (l.map .push) = List.replicate l.length .queued := by
  induction l using List.reverseRecOn with
  | nil => exact ⟨rfl, rfl⟩
  | append_singleton l a ih =>
      rw [List.length_append, List.length_singleton] at h
      obtain ⟨hfinal, houtcomes⟩ := ih (Nat.le_of_succ_le h)
      rw [List.map_append, Mealy.final_append, Mealy.outcomes_append, hfinal, houtcomes,
        List.map_singleton, Mealy.final_cons, Mealy.final_nil, Mealy.outcomes, step_push h,
        List.length_append, List.replicate_add]
      exact ⟨rfl, rfl⟩

end BoundedDeque

namespace ProjectDelta
namespace TaskQueue

open BoundedDeque (Op Outcome)

/-! ### Two queues with the same window -/

section Window

variable {σ σ' τ π : Type} [SlotMemory σ τ π] [SlotMemory σ' τ π]

structure SameWindow (q : TaskQueue σ) (c : TaskQueue σ') : Prop where
  top : q.top = c.top
  bottom : q.bottom = c.bottom
  size : q.size = c.size
  pairs : ∀ i, c.top ≤ i → i < c.bottom → q.pairAt i = c.pairAt i

variable {q : TaskQueue σ} {c : TaskQueue σ'}

/-- A pop reads the window alone. -/
theorem SameWindow.pop (h : SameWindow q c) :
    (q.perform .pop).2 = (c.perform .pop).2 ∧
      SameWindow (q.perform .pop).1 (c.perform .pop).1 := by
  have htop := h.top
  have hbottom := h.bottom
  rcases lt_trichotomy (c.top + 1) c.bottom with hmore | hlast | hempty
  · have hpair : q.pairAt (q.bottom - 1) = c.pairAt (c.bottom - 1) := by
      rw [hbottom]
      exact h.pairs _ (by omega) (by omega)
    simp only [perform, q.pop_more (by omega), c.pop_more hmore, hpair]
    refine ⟨trivial, htop, ?_, h.size, fun i hlo hhi => h.pairs i hlo ?_⟩
    · rw [setBottom_bottom, setBottom_bottom, hbottom]
    · rw [setBottom_bottom] at hhi
      omega
  · have hpair : q.pairAt q.top = c.pairAt c.top := by
      rw [htop]
      exact h.pairs _ le_rfl (by omega)
    simp only [perform, q.pop_last (by omega), c.pop_last hlast, hpair]
    refine ⟨trivial, ?_, hbottom, h.size, fun i hlo hhi => h.pairs i ?_ hhi⟩
    · rw [setTop_top, setTop_top, htop]
    · rw [setTop_top] at hlo
      omega
  · simp only [perform, q.pop_empty (by omega), c.pop_empty (by omega)]
    exact ⟨trivial, h⟩

theorem SameWindow.steal (h : SameWindow q c) :
    (q.perform .steal).2 = (c.perform .steal).2 ∧
      SameWindow (q.perform .steal).1 (c.perform .steal).1 := by
  have htop := h.top
  have hbottom := h.bottom
  rcases lt_or_ge c.top c.bottom with hlt | hge
  · have hpair : q.pairAt q.top = c.pairAt c.top := by
      rw [htop]
      exact h.pairs _ le_rfl hlt
    simp only [perform, q.steal_oldest (by omega), c.steal_oldest hlt, hpair]
    refine ⟨trivial, ?_, hbottom, h.size, fun i hlo hhi => h.pairs i ?_ hhi⟩
    · rw [setTop_top, setTop_top, htop]
    · rw [setTop_top] at hlo
      omega
  · simp only [perform, q.steal_empty (by omega), c.steal_empty hge]
    exact ⟨trivial, h⟩

end Window

/-! ### A push into the overlapping arrays -/

/-- The slot of index `i`. -/
def cell (i : ℤ) : ℕ := (i % 4096).toNat

theorem cell_lt (i : ℤ) : cell i < 4096 := by
  unfold cell
  omega

/-- Within 512 entries no slot of the one array is a slot of the other. -/
theorem cell_apart {i b : ℤ} (hlo : i < b) (hhi : b < i + 512) :
    cell b ≠ cell i ∧ cell b ≠ cell i + 512 ∧ cell b + 512 ≠ cell i := by
  unfold cell
  omega

section Bytes

variable {q : TaskQueue ByteSlots}

theorem Overlapping.slotIx_cell (h : Overlapping q) (i : ℤ) : q.slotIx i = cell i := by
  rw [h.ring.slotIx_eq, h.size, cell, Int.toNat_of_nonneg (Int.emod_nonneg i (by omega))]

/-- The words of index `i`, all round the ring. -/
theorem Overlapping.pairAt_cell (h : Overlapping q) (i : ℤ) :
    q.pairAt i = (q.slots.loadPtr (q.slots.tasks.toNat + 8 * cell i),
      q.slots.loadPtr (q.slots.tasks.toNat + 8 * (cell i + 512))) := by
  have hcell := h.pairAt (cell_lt i)
  rwa [TaskQueue.pairAt, h.slotIx (cell_lt i), ← h.slotIx_cell i] at hcell

/-- The bytes after the two stores of a push. -/
theorem Overlapping.store_slots (h : Overlapping q) (b : ℤ) (task payload : BitVec 64) :
    ((q.storeTask (q.slotIx b) task).storePayload (q.slotIx b) payload).slots =
      (q.slots.storePtr (q.slots.tasks.toNat + 8 * cell b) task).storePtr
        (q.slots.tasks.toNat + 8 * (cell b + 512)) payload := by
  have hfits := h.fits
  have hpayloads := h.payloads
  have hcell := cell_lt b
  have htask : ByteSlots.element q.slots.tasks (q.slotIx b) = q.slots.tasks.toNat + 8 * cell b := by
    rw [h.slotIx_cell, ByteSlots.element_of_fits (by omega)]
  have hpayload : ByteSlots.element q.slots.payloads (q.slotIx b) =
      q.slots.tasks.toNat + 8 * (cell b + 512) := by
    rw [h.slotIx_cell, ByteSlots.element_of_fits (by omega)]
    omega
  rw [← htask, ← hpayload]
  rfl

theorem Overlapping.pairAt_store_self (h : Overlapping q) (b : ℤ) (task payload : BitVec 64) :
    ((q.storeTask (q.slotIx b) task).storePayload (q.slotIx b) payload).pairAt b =
      (task, payload) := by
  have hstored : Overlapping ((q.storeTask (q.slotIx b) task).storePayload (q.slotIx b) payload) :=
    ⟨h.ring, h.size, h.payloads, h.fits⟩
  have hbase : ((q.storeTask (q.slotIx b) task).storePayload (q.slotIx b) payload).slots.tasks =
    q.slots.tasks := rfl
  rw [hstored.pairAt_cell, hbase, h.store_slots, ByteSlots.loadPtr_storePtr_self,
    ByteSlots.loadPtr_storePtr_disjoint _ _ (by omega), ByteSlots.loadPtr_storePtr_self]

theorem Overlapping.pairAt_store_near (h : Overlapping q) {i b : ℤ} (hlo : i < b) (hhi : b < i + 512)
    (task payload : BitVec 64) :
    ((q.storeTask (q.slotIx b) task).storePayload (q.slotIx b) payload).pairAt i = q.pairAt i := by
  have hstored : Overlapping ((q.storeTask (q.slotIx b) task).storePayload (q.slotIx b) payload) :=
    ⟨h.ring, h.size, h.payloads, h.fits⟩
  have hbase : ((q.storeTask (q.slotIx b) task).storePayload (q.slotIx b) payload).slots.tasks =
    q.slots.tasks := rfl
  obtain ⟨hsame, htask, hpayload⟩ := cell_apart hlo hhi
  rw [hstored.pairAt_cell, h.pairAt_cell, hbase, h.store_slots,
    ByteSlots.loadPtr_storePtr_disjoint _ _ (by omega),
    ByteSlots.loadPtr_storePtr_disjoint _ _ (by omega),
    ByteSlots.loadPtr_storePtr_disjoint _ _ (by omega),
    ByteSlots.loadPtr_storePtr_disjoint _ _ (by omega)]

/-- No operation moves the arrays. -/
theorem Overlapping.perform (h : Overlapping q) (op : Op (BitVec 64 × BitVec 64)) :
    Overlapping (q.perform op).1 := by
  obtain ⟨hring, hsize, hpayloads, hfits⟩ := h
  cases op with
  | push p =>
      by_cases hfull : q.bottom - q.top > q.size
      · simp only [TaskQueue.perform, q.push_full p.1 p.2 hfull]
        exact ⟨hring, hsize, hpayloads, hfits⟩
      · simp only [TaskQueue.perform, q.push_room p.1 p.2 hfull]
        exact ⟨hring, hsize, hpayloads, hfits⟩
  | pop =>
      rcases lt_trichotomy (q.top + 1) q.bottom with hmore | hlast | hempty
      · simp only [TaskQueue.perform, q.pop_more hmore]
        exact ⟨hring, hsize, hpayloads, hfits⟩
      · simp only [TaskQueue.perform, q.pop_last hlast]
        exact ⟨hring, hsize, hpayloads, hfits⟩
      · simp only [TaskQueue.perform, q.pop_empty (show q.bottom ≤ q.top by omega)]
        exact ⟨hring, hsize, hpayloads, hfits⟩
  | steal =>
      rcases lt_or_ge q.top q.bottom with hlt | hge
      · simp only [TaskQueue.perform, q.steal_oldest hlt]
        exact ⟨hring, hsize, hpayloads, hfits⟩
      · simp only [TaskQueue.perform, q.steal_empty hge]
        exact ⟨hring, hsize, hpayloads, hfits⟩

/-- The bytes take a push as cells do while fewer than 512 entries are held. -/
theorem SameWindow.push {c : TaskQueue (Cells (BitVec 64) (BitVec 64))} (h : SameWindow q c)
    (hq : Overlapping q) (hc : c.IsRing) (hroom : c.bottom < c.top + 512)
    (p : BitVec 64 × BitVec 64) :
    (q.perform (.push p)).2 = (c.perform (.push p)).2 ∧
      SameWindow (q.perform (.push p)).1 (c.perform (.push p)).1 := by
  have htop := h.top
  have hbottom := h.bottom
  have hsize := h.size
  have hlength := hq.size
  simp only [TaskQueue.perform, q.push_room p.1 p.2 (by omega), c.push_room p.1 p.2 (by omega)]
  refine ⟨trivial, htop, ?_, hsize, fun i hlo hhi => ?_⟩
  · rw [setBottom_bottom, setBottom_bottom, hbottom]
  rw [setBottom_bottom] at hhi
  have hlo : c.top ≤ i := hlo
  rw [setBottom_pairAt, setBottom_pairAt, hbottom]
  rcases (Int.lt_add_one_iff.mp hhi).lt_or_eq with hold | rfl
  · have hne : c.slotIx i ≠ c.slotIx c.bottom := hc.slotIx_ne hold (by omega)
    rw [hq.pairAt_store_near hold (by omega), pairAt_store_ne c p.1 p.2 hne]
    exact h.pairs i hlo hold
  · rw [hq.pairAt_store_self, pairAt_store_self]

/-! ### Every sequence of calls -/

/-- The bytes hold the list as cells would. -/
structure Carries (n : ℕ) (q : TaskQueue ByteSlots) (l : List (BitVec 64 × BitVec 64)) : Prop where
  overlapping : Overlapping q
  fits : l.length ≤ n
  cells : ∃ c : TaskQueue (Cells (BitVec 64) (BitVec 64)), SameWindow q c ∧ Represents 4096 c l

theorem Overlapping.carries_nil (h : Overlapping q) (n : ℕ) (hempty : q.top = 0 ∧ q.bottom = 0) :
    Carries n q [] := by
  refine ⟨h, Nat.zero_le n, ofCells 12 ⟨fun _ => 0#64, fun _ => 0#64⟩ .null, ?_,
    ofCells_represents 12 _ _⟩
  exact ⟨hempty.1, hempty.2, h.size, fun i hlo hhi => absurd hhi (not_lt.mpr hlo)⟩

theorem Carries.perform {n : ℕ} (hn : n ≤ 512) {l : List (BitVec 64 × BitVec 64)} (h : Carries n q l)
    {op : Op (BitVec 64 × BitVec 64)} (hop : ∀ p, op = .push p → l.length ≠ n) :
    (q.perform op).2 = (BoundedDeque.step n l op).2 ∧
      Carries n (q.perform op).1 (BoundedDeque.step n l op).1 := by
  obtain ⟨hover, hfits, c, hwindow, hcells⟩ := h
  have hover' := hover.perform op
  obtain ⟨hout, hcells'⟩ := hcells.perform fun p hp => by have := hop p hp; omega
  cases op with
  | push p =>
      have hlt : l.length < n := lt_of_le_of_ne hfits (hop p rfl)
      have hroom : c.bottom < c.top + 512 := by rw [hcells.window]; omega
      obtain ⟨hsame, hwindow'⟩ := hwindow.push hover hcells.ring hroom p
      rw [BoundedDeque.step_push (by omega)] at hout hcells'
      rw [BoundedDeque.step_push hlt]
      refine ⟨hsame.trans hout, hover', ?_, _, hwindow', hcells'⟩
      rw [List.length_append, List.length_singleton]
      exact hlt
  | pop =>
      obtain ⟨hsame, hwindow'⟩ := hwindow.pop
      refine ⟨hsame.trans hout, hover', ?_, _, hwindow', hcells'⟩
      exact List.length_dropLast.trans_le ((Nat.sub_le _ _).trans hfits)
  | steal =>
      obtain ⟨hsame, hwindow'⟩ := hwindow.steal
      refine ⟨hsame.trans hout, hover', ?_, _, hwindow', hcells'⟩
      exact List.length_tail.trans_le ((Nat.sub_le _ _).trans hfits)

theorem Carries.held {n : ℕ} {l : List (BitVec 64 × BitVec 64)} (h : Carries n q l) : q.held = l := by
  obtain ⟨-, -, c, hwindow, hcells⟩ := h
  calc q.held = c.held := by
        unfold TaskQueue.held
        rw [hwindow.top, hwindow.bottom]
        exact RingIndex.map_range_congr hwindow.pairs
    _ = l := hcells.held

end Bytes

/-- As many pushes as fit, and a steal. -/
theorem neverPushedFull_pushes_steal {α β : Type} {n : ℕ} {ps : List (α × β)} (h : ps.length ≤ n) :
    NeverPushedFull n (ps.map .push ++ [.steal]) := by
  rintro pre p post he
  have hat : (ps.map Op.push ++ [Op.steal])[pre.length]? = some (.push p) := by
    rw [he, List.getElem?_append_right le_rfl, Nat.sub_self]
    rfl
  have hlt : pre.length < ps.length := by
    by_contra hge
    rw [List.getElem?_append_right (by rw [List.length_map]; omega), List.length_map] at hat
    cases hsub : pre.length - ps.length with
    | zero => simp [hsub] at hat
    | succ k => simp [hsub] at hat
  have hpre : pre = (ps.take pre.length).map .push := by
    have htake := congrArg (List.take pre.length) he
    rw [List.take_left, List.take_append_of_le_length (by rw [List.length_map]; omega),
      ← List.map_take] at htake
    exact htake.symm
  have hfinal := (BoundedDeque.run_pushes (n := n) (l := ps.take pre.length)
    (by rw [List.length_take]; omega)).1
  rw [hpre, hfinal, List.length_take]
  omega

/-- The task of the pair numbered 512 lies on the payload of the first one. -/
theorem readBack_replicate (p : BitVec 64 × BitVec 64) :
    readBack (p :: List.replicate 512 p) 0 = (p.1, p.1) := by
  have hlast : (p :: List.replicate 512 p)[0 + 512]? = some p := by
    rw [← List.replicate_succ]
    exact List.getElem?_replicate_of_lt (by omega)
  rw [readBack, hlast]
  rfl

/-- A queue that serves as the list gives a thief the first pair as it was pushed. -/
theorem readBack_first {n : ℕ} {p : BitVec 64 × BitVec 64} {ps : List (BitVec 64 × BitVec 64)}
    {q : TaskQueue ByteSlots} (hempty : Filled [] q) (hps : (p :: ps).length ≤ 4096)
    (hn : (p :: ps).length ≤ n)
    (h : Mealy.outcomes perform q ((p :: ps).map .push ++ [.steal]) =
      Mealy.outcomes (BoundedDeque.step n) [] ((p :: ps).map .push ++ [.steal])) :
    readBack (p :: ps) 0 = p := by
  obtain ⟨-, hfilled⟩ := hempty.pushes (p :: ps) hps
  rw [Mealy.outcomes_append, Mealy.outcomes_append, (BoundedDeque.run_pushes hn).1] at h
  have hlast := (List.append_inj' h rfl).2
  have hheld : (Mealy.final perform q ((p :: ps).map .push)).top <
      (Mealy.final perform q ((p :: ps).map .push)).bottom := by
    rw [hfilled.top, hfilled.bottom, List.length_cons]
    omega
  have hread := hfilled.read 0 (Nat.zero_lt_succ _)
  simp only [Mealy.outcomes, perform, steal_oldest _ hheld, BoundedDeque.step, List.head?_cons,
    List.cons.injEq, Outcome.returned.injEq, Option.some.injEq, and_true, hfilled.top] at hlast
  exact hread.symm.trans hlast

/-- The queue of a worker serves as a bounded list of `n` entries, for every sequence of calls that
does not push onto `n` held entries, exactly when `n` is at most an eighth of its `size`. -/
theorem workerQueue_capacity (z : Zone) (q₀ : TaskQueue ByteSlots) (n : ℕ) :
    (∀ ops, NeverPushedFull n ops →
      Mealy.outcomes perform (workerQueue z.toThreadPageCoordinator q₀).1 ops =
          Mealy.outcomes (BoundedDeque.step n) [] ops ∧
        (Mealy.final perform (workerQueue z.toThreadPageCoordinator q₀).1 ops).held =
          Mealy.final (BoundedDeque.step n) [] ops) ↔ n ≤ 512 := by
  have hover := workerQueue_overlapping z q₀
  constructor
  · intro h
    by_contra hn
    let p : BitVec 64 × BitVec 64 := (1, 2)
    have hlength : (p :: List.replicate 512 p).length = 513 := List.length_replicate (n := 513)
    have hfits : NeverPushedFull n ((p :: List.replicate 512 p).map .push ++ [.steal]) :=
      neverPushedFull_pushes_steal (by omega)
    have houtcomes := (h _ hfits).1
    have hread := readBack_first (workerQueue_filled z q₀) (by omega) (by omega) houtcomes
    rw [readBack_replicate] at hread
    exact absurd hread (by decide)
  · intro hn ops hops
    have hobeys : Mealy.Obeys (BoundedDeque.step n) (fun l op => ∀ p, op = .push p → l.length ≠ n) []
        ops := by
      rw [Mealy.obeys_iff]
      rintro pre op post he p rfl
      exact hops pre p post he
    obtain ⟨houtcomes, hcarries⟩ := Mealy.simulates perform (BoundedDeque.step n)
      (fun _ _ _ hR hG => Carries.perform hn hR hG) (hover.carries_nil n ⟨rfl, rfl⟩) hobeys
    exact ⟨houtcomes, hcarries.held⟩

end TaskQueue
end ProjectDelta
