import ProjectDelta.OwnerThieves
import ProjectDelta.QueueRefinement
import ProjectDelta.Traces

/-!
# Pops and steals take effect at once

One owner and any number of thieves, as in `Scheduler_Sync`. Each pop takes effect
at one of its own accesses: at the load of the top when that shows an empty queue
or more than one entry, and at the compare-exchange otherwise. A steal that wins
takes effect at its compare-exchange; one that fails has no effect. In the order
of these accesses the calls are calls on a list, one after the other, and
`contents` is that list: the window up to `takeLimit`.
-/

namespace ProjectDelta

open BoundedDeque (Op Outcome)

variable {ι σ τ π : Type} [SlotMemory σ τ π]

namespace DuelState

/-- The entries that no call has taken effect on. -/
def contents (s : DuelState ι σ τ π) : List (τ × π) :=
  s.queue.pairsIn s.queue.top (takeLimit s.queue s.owner)

/-- The access of the owner at which its pop takes effect, and the result. -/
def popEffect (q : TaskQueue σ) : Option (PopPc τ π) → List (Op (τ × π) × Outcome (τ × π))
  | some (.loadTop b) =>
      if q.top > b then [(.pop, .returned none)]
      else if q.top = b then []
      else [(.pop, .returned (some (q.pairAt b)))]
  | some (.exchangeTop _ t task payload) =>
      if q.top = t then [(.pop, .returned (some (task, payload)))] else [(.pop, .returned none)]
  | _ => []

def stealEffect (q : TaskQueue σ) : Option (StealPc τ π) → List (Op (τ × π) × Outcome (τ × π))
  | some (.exchangeTop t task payload) =>
      if q.top = t then [(.steal, .returned (some (task, payload)))] else []
  | _ => []

/-- What takes effect in a move. -/
def effect (s : DuelState ι σ τ π) : DuelThread ι → List (Op (τ × π) × Outcome (τ × π))
  | .owner => popEffect s.queue s.owner
  | .thief k => stealEffect s.queue (s.thief k)

/-- What a move returns to its caller; a steal that fails had no effect. -/
def answer (s : DuelState ι σ τ π) : DuelThread ι → List (Op (τ × π) × Outcome (τ × π))
  | .owner => match s.owner with
    | none => []
    | some pc => match (s.queue.popStep pc).2 with
      | .inl _ => []
      | .inr r => [(.pop, .returned r)]
  | .thief k => match s.thief k with
    | none => []
    | some pc => match (s.queue.stealStep pc).2 with
      | .inr (some p) => [(.steal, .returned (some p))]
      | _ => []

/-- The pop that has taken effect and not returned. -/
def popUnderWay (q : TaskQueue σ) : Option (PopPc τ π) → List (Op (τ × π) × Outcome (τ × π))
  | some (.restoreEmpty _) | some (.restoreLost _) => [(.pop, .returned none)]
  | some (.loadTask b t) | some (.loadPayload b t _) =>
      if t = b then [] else [(.pop, .returned (some (q.pairAt b)))]
  | some (.restoreTaken _ task payload) => [(.pop, .returned (some (task, payload)))]
  | _ => []

def underWay (s : DuelState ι σ τ π) : DuelThread ι → List (Op (τ × π) × Outcome (τ × π))
  | .owner => popUnderWay s.queue s.owner
  | .thief _ => []

/-- Only what one thread does. -/
def ofThread [DecidableEq ι] (thread : DuelThread ι)
    (emit : DuelState ι σ τ π → DuelThread ι → List (Op (τ × π) × Outcome (τ × π)))
    (s : DuelState ι σ τ π) (mover : DuelThread ι) : List (Op (τ × π) × Outcome (τ × π)) :=
  if mover = thread then emit s mover else []

/-! ### One access -/

/-- What is emitted takes `l` to `l'` on the list. -/
def Takes (emitted : List (Op (τ × π) × Outcome (τ × π))) (l l' : List (τ × π)) : Prop :=
  Mealy.outcomes (BoundedDeque.step 0) l (emitted.map Prod.fst) = emitted.map Prod.snd ∧
    Mealy.final (BoundedDeque.step 0) l (emitted.map Prod.fst) = l'

theorem takes_nothing (l : List (τ × π)) : Takes [] l l := ⟨rfl, rfl⟩

theorem takes_pop_empty {l : List (τ × π)} (h : l = []) :
    Takes [(.pop, .returned none)] l l := by
  subst h
  exact ⟨rfl, rfl⟩

theorem takes_pop_last (l : List (τ × π)) (p : τ × π) :
    Takes [(.pop, .returned (some p))] (l ++ [p]) l := by
  refine ⟨?_, ?_⟩
  · simp only [List.map_cons, List.map_nil, Mealy.outcomes, BoundedDeque.step, List.getLast?_concat]
  · simp only [List.map_cons, List.map_nil, Mealy.final_cons, Mealy.final_nil, BoundedDeque.step,
      List.dropLast_concat]

theorem takes_steal_first (l : List (τ × π)) (p : τ × π) :
    Takes [(.steal, .returned (some p))] (p :: l) l := ⟨rfl, rfl⟩

theorem Inv.owner_takes {q₀ : TaskQueue σ} {s : DuelState ι σ τ π} (h : Inv q₀ s) :
    Takes (s.effect .owner) s.contents s.ownerStep.contents := by
  have hok := h.owner
  have hlim := h.top_le
  rcases howner : s.owner with _ | pc
  · simp only [effect, popEffect, contents, ownerStep, howner, takeLimit]
    exact takes_nothing _
  · rw [howner] at hok hlim
    cases pc with
    | loadBottom =>
        simp only [effect, popEffect, contents, ownerStep, howner, takeLimit, TaskQueue.popStep,
          Int.sub_add_cancel]
        exact takes_nothing _
    | storeBottom b =>
        simp only [effect, popEffect, contents, ownerStep, howner, takeLimit, TaskQueue.popStep,
          TaskQueue.setBottom_pairsIn, TaskQueue.setBottom_top]
        exact takes_nothing _
    | loadTop b =>
        simp only [takeLimit] at hlim
        rcases lt_trichotomy s.queue.top b with hlt | heq | hgt
        · have hngt : ¬ s.queue.top > b := by omega
          have hne : s.queue.top ≠ b := by omega
          simp only [effect, popEffect, contents, ownerStep, howner, takeLimit, TaskQueue.popStep,
            if_neg hngt, if_neg hne]
          rw [s.queue.pairsIn_snoc hlt.le]
          exact takes_pop_last _ _
        · have hngt : ¬ s.queue.top > b := by omega
          simp only [effect, popEffect, contents, ownerStep, howner, takeLimit, TaskQueue.popStep,
            if_neg hngt, if_pos heq]
          exact takes_nothing _
        · simp only [effect, popEffect, contents, ownerStep, howner, takeLimit, TaskQueue.popStep,
            if_pos hgt]
          exact takes_pop_empty (s.queue.pairsIn_empty (by omega))
    | restoreEmpty b | restoreLost b | restoreTaken b task payload =>
        simp only [effect, popEffect, contents, ownerStep, howner, takeLimit, TaskQueue.popStep,
          TaskQueue.setBottom_pairsIn, TaskQueue.setBottom_top, TaskQueue.setBottom_bottom]
        exact takes_nothing _
    | loadTask b t =>
        simp only [effect, popEffect, contents, ownerStep, howner, takeLimit, TaskQueue.popStep]
        exact takes_nothing _
    | loadPayload b t task =>
        simp only [OwnerOk] at hok
        by_cases hlast : t = b
        · simp only [effect, popEffect, contents, ownerStep, howner, takeLimit, TaskQueue.popStep,
            if_pos hlast]
          exact takes_nothing _
        · simp only [effect, popEffect, contents, ownerStep, howner, takeLimit, TaskQueue.popStep,
            if_neg hlast, hok.1]
          exact takes_nothing _
    | exchangeTop b t task payload =>
        simp only [OwnerOk, takeLimit] at hok hlim
        obtain ⟨hb, -, hle, rfl, hpair⟩ := hok
        by_cases htop : s.queue.top = t
        · simp only [effect, popEffect, contents, ownerStep, howner, takeLimit, TaskQueue.popStep,
            s.queue.compareExchangeTop_eq (t + 1) htop, if_pos htop, if_true,
            TaskQueue.setTop_pairsIn, TaskQueue.setTop_top]
          rw [hpair, ← h.pairAt t, htop, s.queue.pairsIn_snoc le_rfl,
            s.queue.pairsIn_empty (show t ≤ t from le_rfl), s.queue.pairsIn_empty (show t + 1 ≤ t + 1 from le_rfl)]
          exact takes_pop_last [] _
        · simp only [effect, popEffect, contents, ownerStep, howner, takeLimit, TaskQueue.popStep,
            s.queue.compareExchangeTop_ne (t + 1) htop, if_neg htop, Bool.false_eq_true, if_false]
          exact takes_pop_empty (s.queue.pairsIn_empty (by omega))

omit [SlotMemory σ τ π] in
theorem takeLimit_setTop (q : TaskQueue σ) (t : ℤ) (pc : Option (PopPc τ π)) :
    takeLimit (q.setTop t) pc = takeLimit q pc := by
  rcases pc with _ | pc
  · rfl
  · cases pc <;> rfl

/-- What the owner's pop is to return, with the accesses it has yet to make. -/
theorem Inv.owner_keeps {q₀ : TaskQueue σ} {s : DuelState ι σ τ π} (h : Inv q₀ s) :
    s.underWay .owner ++ s.effect .owner = s.answer .owner ++ s.ownerStep.underWay .owner := by
  have hok := h.owner
  rcases howner : s.owner with _ | pc
  · simp only [underWay, effect, answer, popUnderWay, popEffect, ownerStep, howner]
  · rw [howner] at hok
    cases pc with
    | loadTop b =>
        rcases lt_trichotomy s.queue.top b with hlt | heq | hgt
        · have hngt : ¬ s.queue.top > b := by omega
          have hne : s.queue.top ≠ b := by omega
          simp only [underWay, effect, answer, popUnderWay, popEffect, ownerStep, howner,
            TaskQueue.popStep, if_neg hngt, if_neg hne]
        · have hngt : ¬ s.queue.top > b := by omega
          simp only [underWay, effect, answer, popUnderWay, popEffect, ownerStep, howner,
            TaskQueue.popStep, if_neg hngt, if_pos heq]
        · simp only [underWay, effect, answer, popUnderWay, popEffect, ownerStep, howner,
            TaskQueue.popStep, if_pos hgt]
    | loadPayload b t task =>
        simp only [OwnerOk] at hok
        obtain ⟨-, -, -, -, htask⟩ := hok
        by_cases hlast : t = b
        · simp only [underWay, effect, answer, popUnderWay, popEffect, ownerStep, howner,
            TaskQueue.popStep, if_pos hlast]
        · have hpair : s.queue.pairAt b =
              (task, SlotMemory.loadPayload s.queue.slots (s.queue.slotIx b)) := by
            rw [htask, ← h.pairAt]
            rfl
          simp only [underWay, effect, answer, popUnderWay, popEffect, ownerStep, howner,
            TaskQueue.popStep, if_neg hlast, hpair]
    | exchangeTop b t task payload =>
        by_cases htop : s.queue.top = t
        · simp only [underWay, effect, answer, popUnderWay, popEffect, ownerStep, howner,
            TaskQueue.popStep, s.queue.compareExchangeTop_eq (t + 1) htop, if_pos htop, if_true]
        · simp only [underWay, effect, answer, popUnderWay, popEffect, ownerStep, howner,
            TaskQueue.popStep, s.queue.compareExchangeTop_ne (t + 1) htop, if_neg htop,
            Bool.false_eq_true, if_false]
    | _ =>
        simp only [underWay, effect, answer, popUnderWay, popEffect, ownerStep, howner,
          TaskQueue.popStep, List.nil_append, List.append_nil]

section Thieves

variable [DecidableEq ι]

/-- A move of a thief leaves the queue alone, or wins the entry at the top. -/
theorem thiefStep_cases (s : DuelState ι σ τ π) (k : ι) :
    ((s.thiefStep k).queue = s.queue ∧ (s.thiefStep k).owner = s.owner ∧
        s.effect (.thief k) = [] ∧ s.answer (.thief k) = []) ∨
      ∃ t task payload, s.thief k = some (.exchangeTop t task payload) ∧ s.queue.top = t ∧
        (s.thiefStep k).queue = s.queue.setTop (t + 1) ∧ (s.thiefStep k).owner = s.owner ∧
        s.effect (.thief k) = [(.steal, .returned (some (task, payload)))] ∧
        s.answer (.thief k) = [(.steal, .returned (some (task, payload)))] := by
  rcases hthief : s.thief k with _ | pc
  · simp only [effect, answer, stealEffect, thiefStep, hthief, and_self, true_or]
  · cases pc with
    | exchangeTop t task payload =>
        by_cases htop : s.queue.top = t
        · right
          refine ⟨t, task, payload, rfl, htop, ?_⟩
          simp only [effect, answer, stealEffect, thiefStep, hthief, TaskQueue.stealStep,
            s.queue.compareExchangeTop_eq (t + 1) htop, if_pos htop, if_true, and_self]
        · left
          simp only [effect, answer, stealEffect, thiefStep, hthief, TaskQueue.stealStep,
            s.queue.compareExchangeTop_ne (t + 1) htop, if_neg htop, Bool.false_eq_true, if_false,
            and_self]
    | loadBottom t =>
        left
        by_cases hge : t ≥ s.queue.bottom
        · simp only [effect, answer, stealEffect, thiefStep, hthief, TaskQueue.stealStep, if_pos hge,
            and_self]
        · simp only [effect, answer, stealEffect, thiefStep, hthief, TaskQueue.stealStep, if_neg hge,
            and_self]
    | _ =>
        simp only [effect, answer, stealEffect, thiefStep, hthief, TaskQueue.stealStep, and_self,
          true_or]

theorem Inv.thief_takes {q₀ : TaskQueue σ} {s : DuelState ι σ τ π} (h : Inv q₀ s) (k : ι) :
    Takes (s.effect (.thief k)) s.contents (s.thiefStep k).contents := by
  rcases s.thiefStep_cases k with ⟨hqueue, howner, heffect, -⟩ |
    ⟨t, task, payload, hthief, htop, hqueue, howner, heffect, -⟩
  · rw [heffect, contents, contents, hqueue, howner]
    exact takes_nothing _
  · have hk := h.thief k
    rw [hthief] at hk
    obtain ⟨⟨-, -, hlimit⟩, hpair⟩ := hk
    have hlt : s.queue.top < takeLimit s.queue s.owner := htop ▸ hlimit htop.symm
    have hhead : s.queue.pairAt s.queue.top = (task, payload) := by rw [h.pairAt, htop, hpair]
    rw [heffect, contents, contents, hqueue, howner, takeLimit_setTop, TaskQueue.setTop_pairsIn,
      TaskQueue.setTop_top, s.queue.pairsIn_cons hlt, hhead, htop]
    exact takes_steal_first _ _

/-- A thief never changes what the owner's pop is to return. -/
theorem popUnderWay_setTop (q : TaskQueue σ) (t : ℤ) (pc : Option (PopPc τ π)) :
    popUnderWay (q.setTop t) pc = popUnderWay q pc := by
  rcases pc with _ | pc
  · rfl
  · cases pc <;> rfl

theorem Inv.conforms {q₀ : TaskQueue σ} {s s' : DuelState ι σ τ π} {mover : DuelThread ι}
    (h : Inv q₀ s) (hn : (machine ι σ τ π).next s mover = some s') :
    Inv q₀ s' ∧ Takes (s.effect mover) s.contents s'.contents := by
  cases mover with
  | owner =>
      obtain rfl := Option.some.inj hn
      exact ⟨ownerStep_inv h, h.owner_takes⟩
  | thief k =>
      obtain rfl := Option.some.inj hn
      exact ⟨thiefStep_inv h k, h.thief_takes k⟩

theorem Inv.keeps {q₀ : TaskQueue σ} {s s' : DuelState ι σ τ π} {mover : DuelThread ι}
    (h : Inv q₀ s) (hn : (machine ι σ τ π).next s mover = some s') (thread : DuelThread ι) :
    s.underWay thread ++ ofThread thread effect s mover =
      ofThread thread answer s mover ++ s'.underWay thread := by
  by_cases hmover : mover = thread
  · subst hmover
    rw [ofThread, ofThread, if_pos rfl, if_pos rfl]
    cases mover with
    | owner =>
        obtain rfl := Option.some.inj hn
        exact h.owner_keeps
    | thief k =>
        rcases s.thiefStep_cases k with ⟨-, -, heffect, hanswer⟩ |
          ⟨t, task, payload, -, -, -, -, heffect, hanswer⟩ <;> rw [heffect, hanswer] <;> rfl
  · rw [ofThread, ofThread, if_neg hmover, if_neg hmover, List.append_nil, List.nil_append]
    cases thread with
    | thief k => rfl
    | owner =>
        cases mover with
        | owner => exact (hmover rfl).elim
        | thief k =>
            obtain rfl := Option.some.inj hn
            rcases s.thiefStep_cases k with ⟨hqueue, howner, -⟩ |
              ⟨t, task, payload, -, -, hqueue, howner, -⟩
            · rw [underWay, underWay, hqueue, howner]
            · rw [underWay, underWay, hqueue, howner, popUnderWay_setTop]

/-- In every interleaving the pops and the winning steals, in the order in which they take effect, are
calls on the list that the queue held at the start, one after the other; what takes effect is what
the thread is answered, but for the pop that the owner may have under way. -/
theorem pops_and_steals_linearize (q₀ : TaskQueue σ) (h0 : 0 ≤ q₀.bottom - q₀.top)
    (moves : List (DuelThread ι)) (s : DuelState ι σ τ π)
    (h : (machine ι σ τ π).exec (start q₀) moves = some s) :
    Takes ((machine ι σ τ π).trace effect (start q₀) moves) q₀.held s.contents ∧
      ∀ thread, (machine ι σ τ π).trace (ofThread thread effect) (start q₀) moves =
        (machine ι σ τ π).trace (ofThread thread answer) (start q₀) moves ++ s.underWay thread := by
  have hinv : Inv q₀ (start (ι := ι) q₀) := start_inv q₀ (by omega)
  refine ⟨?_, fun thread => ?_⟩
  · exact Machine.trace_conforms (BoundedDeque.step 0) (I := Inv q₀) contents effect
      (fun _ _ _ ha hn => ha.conforms hn) moves h hinv
  · have hbalance := Machine.trace_balance (I := Inv q₀) (ofThread thread effect)
      (ofThread thread answer) (fun s => s.underWay thread)
      (fun _ _ _ ha hn => ⟨(ha.conforms hn).1, ha.keeps hn thread⟩) moves h hinv
    have hnone : (start (ι := ι) q₀ : DuelState ι σ τ π).underWay thread = [] := by
      cases thread <;> rfl
    rw [hnone, List.nil_append] at hbalance
    exact hbalance

/-- The thief takes the older entry and the owner the newer one; both have returned. -/
theorem pops_and_steals_linearize_duel :
    duelEnd.contents = [] ∧
      Takes ((machine Unit (Cells ℕ ℕ) ℕ ℕ).trace effect (start duelQueue) duelSchedule)
        duelQueue.held duelEnd.contents ∧
      ∀ thread,
        (machine Unit (Cells ℕ ℕ) ℕ ℕ).trace (ofThread thread effect) (start duelQueue) duelSchedule =
          (machine Unit (Cells ℕ ℕ) ℕ ℕ).trace (ofThread thread answer) (start duelQueue)
            duelSchedule ++ duelEnd.underWay thread :=
  ⟨rfl, pops_and_steals_linearize duelQueue (by decide) duelSchedule duelEnd rfl⟩

end Thieves

end DuelState
end ProjectDelta
