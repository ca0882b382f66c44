import ProjectDelta.BoundedDeque
import ProjectDelta.TaskQueue

/-!
# Sequential calls against the bounded list

Complete calls, one at a time, on a ring of `2 ^ k` cells, compared with
`BoundedDeque.step (2 ^ k)`. The window `[top, bottom)` slides round the ring;
`Represents` reads the list off it. `TaskQueue_Push` compares with `>`, so it
still appends when exactly `2 ^ k` pairs are held, and the two part there.
-/

namespace ProjectDelta

open BoundedDeque (Op Outcome)
open scoped List

namespace TaskQueue

variable {σ τ π : Type} [SlotMemory σ τ π]

def perform (q : TaskQueue σ) : Op (τ × π) → TaskQueue σ × Outcome (τ × π)
  | .push p => match q.push p.1 p.2 with
    | (q', some p) => (q', .ran p)
    | (q', none) => (q', .queued)
  | .pop => (q.pop.1, .returned q.pop.2)
  | .steal => (q.steal.1, .returned q.steal.2)

/-- Steals run alone return the window from its old end. -/
theorem outcomes_steals (q : TaskQueue σ) (n : ℕ) (h : q.top + n ≤ q.bottom) :
    Mealy.outcomes perform q (List.replicate n .steal) =
      (q.pairsIn q.top (q.top + n)).map fun p => .returned (some p) := by
  induction n generalizing q with
  | zero => simp [Mealy.outcomes, pairsIn_empty]
  | succ n ih =>
      push_cast at h ⊢
      have hlt : q.top < q.bottom := by omega
      have hrest := ih (q.setTop (q.top + 1)) (by rw [setTop_top, setTop_bottom]; omega)
      rw [setTop_top, setTop_pairsIn, show q.top + 1 + (n : ℤ) = q.top + (n + 1) by ring] at hrest
      rw [List.replicate_succ, Mealy.outcomes, pairsIn_cons q (by omega), List.map_cons, ← hrest]
      simp only [perform, q.steal_oldest hlt]

structure Represents (n : ℕ) (q : TaskQueue (Cells τ π)) (l : List (τ × π)) : Prop where
  ring : q.IsRing
  size : q.size = n
  window : q.bottom = q.top + l.length
  fits : l.length ≤ n
  held : q.held = l

theorem ofCells_represents (k : ℕ) (slots : Cells τ π) (p : DependencyCounterPtr) :
    Represents (2 ^ k) (ofCells k slots p) [] where
  ring := ofCells_isRing k slots p
  size := by simp [ofCells]
  window := rfl
  fits := Nat.zero_le _
  held := pairsIn_empty _ le_rfl

theorem Represents.push {n : ℕ} {q : TaskQueue (Cells τ π)} {l : List (τ × π)}
    (h : Represents n q l) (p : τ × π) (hroom : l.length < n) :
    (q.perform (.push p)).2 = .queued ∧ Represents n (q.perform (.push p)).1 (l ++ [p]) := by
  have hw := h.window
  have hs := h.size
  have hnot : ¬ q.bottom - q.top > q.size := by omega
  simp only [perform, q.push_room p.1 p.2 hnot]
  refine ⟨trivial, h.ring, hs, ?_, by simpa using Nat.succ_le_of_lt hroom, ?_⟩
  · simp only [setBottom_bottom, setBottom_top, storePayload_top, storeTask_top,
      List.length_append, List.length_cons, List.length_nil]
    push_cast
    omega
  · rw [TaskQueue.held, setBottom_pairsIn, setBottom_bottom, setBottom_top, storePayload_top, storeTask_top,
      pairsIn_snoc _ (by omega), pairAt_store_self, ← h.held, TaskQueue.held]
    congr 1
    apply pairsIn_congr
    intro i h1 h2
    -- the cell written is less than a revolution above every index held
    have hne : q.slotIx i ≠ q.slotIx q.bottom := h.ring.slotIx_ne h2 (by omega)
    exact pairAt_store_ne q p.1 p.2 hne

theorem Represents.pop {n : ℕ} {q : TaskQueue (Cells τ π)} {l : List (τ × π)}
    (h : Represents n q l) :
    (q.perform .pop).2 = .returned l.getLast? ∧ Represents n (q.perform .pop).1 l.dropLast := by
  have hw := h.window
  have hheld := h.held
  have hfits := h.fits
  rcases List.eq_nil_or_concat' l with rfl | ⟨l', p, rfl⟩
  · simp only [List.length_nil, Nat.cast_zero, add_zero] at hw
    simp only [perform, q.pop_empty hw.le]
    exact ⟨rfl, h⟩
  · simp only [List.length_append, List.length_cons, List.length_nil, zero_add] at hw hfits
    push_cast at hw
    rw [List.getLast?_concat, List.dropLast_concat]
    have hsplit : q.pairsIn q.top (q.bottom - 1) ++ [q.pairAt (q.bottom - 1)] = l' ++ [p] := by
      rw [← pairsIn_snoc q (by omega), Int.sub_add_cancel]
      exact hheld
    obtain ⟨hinit, hlast⟩ := List.append_inj' hsplit rfl
    obtain rfl : q.pairAt (q.bottom - 1) = p := (List.cons.inj hlast).1
    by_cases hone : q.top + 1 = q.bottom
    · have hb : q.bottom - 1 = q.top := by omega
      simp only [perform, q.pop_last hone, hb]
      have hnil : l' = [] := List.eq_nil_of_length_eq_zero (by omega)
      subst hnil
      refine ⟨trivial, h.ring, h.size, ?_, Nat.zero_le n, pairsIn_empty _ ?_⟩
      · simpa using hone.symm
      · simpa using hone.ge
    · simp only [perform, q.pop_more (by omega)]
      refine ⟨trivial, h.ring, h.size, ?_, by omega, hinit⟩
      simp only [setBottom_bottom, setBottom_top]
      omega

theorem Represents.steal {n : ℕ} {q : TaskQueue (Cells τ π)} {l : List (τ × π)}
    (h : Represents n q l) :
    (q.perform .steal).2 = .returned l.head? ∧ Represents n (q.perform .steal).1 l.tail := by
  have hw := h.window
  have hheld := h.held
  have hfits := h.fits
  cases l with
  | nil =>
      simp only [List.length_nil, Nat.cast_zero, add_zero] at hw
      simp only [perform, q.steal_empty hw.le]
      exact ⟨rfl, h⟩
  | cons p l =>
      rw [List.head?_cons, List.tail_cons]
      simp only [List.length_cons] at hw hfits
      push_cast at hw
      rw [TaskQueue.held, pairsIn_cons q (by omega)] at hheld
      obtain ⟨rfl, htail⟩ := List.cons.inj hheld
      simp only [perform, q.steal_oldest (by omega)]
      refine ⟨trivial, h.ring, h.size, ?_, by omega, htail⟩
      simp only [setTop_bottom, setTop_top]
      omega

/-- No push of the list is made while the bounded list is full. -/
def NeverPushedFull (n : ℕ) (ops : List (Op (τ × π))) : Prop :=
  ∀ pre p post, ops = pre ++ .push p :: post →
    (Mealy.final (BoundedDeque.step n) [] pre).length ≠ n

/-- After every part of the call sequence, the outcomes and the pairs held are
those of the bounded list, and every pair pushed was run at once, returned once,
or is still held. -/
def BehavesAsBoundedList (n : ℕ) (q : TaskQueue (Cells τ π)) (ops : List (Op (τ × π))) : Prop :=
  ∀ pre, pre <+: ops →
    Mealy.outcomes perform q pre = Mealy.outcomes (BoundedDeque.step n) [] pre ∧
      (Mealy.final perform q pre).held = Mealy.final (BoundedDeque.step n) [] pre ∧
      BoundedDeque.pushes pre ~
        BoundedDeque.left (Mealy.outcomes perform q pre) ++ (Mealy.final perform q pre).held

theorem Represents.perform {n : ℕ} {q : TaskQueue (Cells τ π)} {l : List (τ × π)}
    (h : Represents n q l) {op : Op (τ × π)} (hop : ∀ p, op = .push p → l.length ≠ n) :
    (q.perform op).2 = (BoundedDeque.step n l op).2 ∧
      Represents n (q.perform op).1 (BoundedDeque.step n l op).1 := by
  cases op with
  | push p =>
      have hroom : l.length < n := by
        have := hop p rfl
        have := h.fits
        omega
      simpa only [BoundedDeque.step, if_pos hroom] using h.push p hroom
  | pop => exact h.pop
  | steal => exact h.steal

theorem Represents.run {n : ℕ} {q : TaskQueue (Cells τ π)} (h : Represents n q [])
    {ops : List (Op (τ × π))} (hops : NeverPushedFull n ops) :
    Mealy.outcomes TaskQueue.perform q ops = Mealy.outcomes (BoundedDeque.step n) [] ops ∧
      Represents n (Mealy.final TaskQueue.perform q ops)
        (Mealy.final (BoundedDeque.step n) [] ops) := by
  refine Mealy.simulates TaskQueue.perform (BoundedDeque.step n)
    (G := fun l op => ∀ p, op = .push p → l.length ≠ n)
    (fun _ _ _ hR hG => hR.perform hG) h ?_
  rw [Mealy.obeys_iff]
  rintro pre op post he p rfl
  exact hops pre p post he

/-- With exactly `n` pairs held the push still appends. -/
theorem perform_push_at_size {q : TaskQueue (Cells τ π)} (hfull : q.bottom - q.top = q.size)
    (p : τ × π) : (q.perform (.push p)).2 = .queued := by
  simp only [perform, q.push_room p.1 p.2 (by omega)]

theorem perform_size (q : TaskQueue (Cells τ π)) (op : Op (τ × π)) :
    (q.perform op).1.size = q.size := by
  cases op with
  | push p =>
      by_cases h : q.bottom - q.top > q.size
      · simp only [perform, q.push_full p.1 p.2 h]
      · simp only [perform, q.push_room p.1 p.2 h]
        rfl
  | pop =>
      rcases lt_trichotomy (q.top + 1) q.bottom with h | h | h
      · simp only [perform, q.pop_more h, setBottom_size]
      · simp only [perform, q.pop_last h, setTop_size]
      · simp only [perform, q.pop_empty (show q.bottom ≤ q.top by omega)]
  | steal =>
      rcases lt_or_ge q.top q.bottom with h | h
      · simp only [perform, q.steal_oldest h, setTop_size]
      · simp only [perform, q.steal_empty h]

/-- The queue is the bounded list exactly on the call sequences that never push
onto a queue holding `2 ^ k` pairs. -/
theorem behavesAsBoundedList_iff (k : ℕ) (slots : Cells τ π) (p : DependencyCounterPtr)
    (ops : List (Op (τ × π))) :
    BehavesAsBoundedList (2 ^ k) (ofCells k slots p) ops ↔ NeverPushedFull (2 ^ k) ops := by
  have h0 := ofCells_represents k slots p
  constructor
  · rintro h pre a post rfl hfull
    obtain ⟨hpre, hheld, -⟩ := h pre (List.prefix_append _ _)
    obtain ⟨hnext, -, -⟩ := h (pre ++ [.push a]) ⟨post, by simp⟩
    rw [Mealy.outcomes_append, Mealy.outcomes_append, hpre] at hnext
    have hlast := (List.append_inj' hnext rfl).2
    simp only [Mealy.outcomes, List.cons.injEq, and_true] at hlast
    have hwindow := congrArg List.length hheld
    rw [held, length_pairsIn, hfull] at hwindow
    have hsize : (Mealy.final perform (ofCells k slots p) pre).size = 2 ^ k :=
      Mealy.final_invariant perform (I := fun q => q.size = 2 ^ k)
        (fun q op hq => (perform_size q op).trans hq) rfl pre
    have hpos : 0 < 2 ^ k := Nat.two_pow_pos k
    have hcast : ((2 ^ k : ℕ) : ℤ) = 2 ^ k := by push_cast; rfl
    rw [perform_push_at_size (by rw [hsize]; omega) a, BoundedDeque.step, if_neg (by omega)] at hlast
    cases hlast
  · intro h pre hprefix
    have hpre : NeverPushedFull (2 ^ k) pre := by
      obtain ⟨rest, rfl⟩ := hprefix
      rintro pre' a post rfl
      exact h pre' a (post ++ rest) (by simp)
    obtain ⟨hout, hrep⟩ := h0.run hpre
    refine ⟨hout, hrep.held, ?_⟩
    rw [hout, hrep.held]
    simpa using BoundedDeque.run_perm (2 ^ k) [] pre

def overfull : List (Op (ℕ × ℕ)) := [.push (0, 0), .push (1, 1), .push (2, 2), .steal]

/-- Two cells and three pushes: nothing is run at once, and the steal that
follows returns the third pair, which was written over the first. -/
theorem overfull_not_boundedList :
    ¬ BehavesAsBoundedList (2 ^ 1) (ofCells 1 ⟨fun _ => 0, fun _ => 0⟩ .null) overfull := by
  intro h
  obtain ⟨hout, -, -⟩ := h overfull List.prefix_rfl
  exact absurd hout (by decide)

end TaskQueue
end ProjectDelta
