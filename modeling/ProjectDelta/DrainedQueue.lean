import ProjectDelta.OwnerThieves

/-!
# A queue that was seen empty

One owner pops while one thief steals, access by access, and nobody pushes. A
steal that fails has seen the queue empty: the only other exchange of the top is
the owner's for its last entry. An empty queue stays empty, up to the entry that
a pop in progress holds.
-/

namespace ProjectDelta

/-- Accesses left in a steal, the present one included. -/
def StealPc.left {τ π : Type} : StealPc τ π → ℕ
  | .loadTop => 5
  | .loadBottom _ => 4
  | .loadTask _ => 3
  | .loadPayload _ _ => 2
  | .exchangeTop _ _ _ => 1

namespace DuelState

variable {ι σ τ π : Type} [SlotMemory σ τ π] {q₀ : TaskQueue σ}

/-! ### Empty queues stay empty -/

def Drained (d : DuelState ι σ τ π) : Prop := d.queue.bottom ≤ d.queue.top

/-- The pop in progress goes on to return index `i`. -/
inductive WillReturn : DuelState ι σ τ π → ℤ → Prop
  | returns {d : DuelState ι σ τ π} {pc : PopPc τ π} {e : τ × π} (howner : d.owner = some pc)
      (h : (d.queue.popStep pc).2 = .inr (some e)) : WillReturn d pc.index
  | goesOn {d : DuelState ι σ τ π} {pc pc' : PopPc τ π} {i : ℤ} (howner : d.owner = some pc)
      (h : (d.queue.popStep pc).2 = .inl pc') (hrest : WillReturn d.ownerStep i) : WillReturn d i

theorem ownerStep_thief (d : DuelState ι σ τ π) : d.ownerStep.thief = d.thief := by
  rcases howner : d.owner with _ | pc
  · simp only [ownerStep, howner]
  · rcases hstep : d.queue.popStep pc with ⟨q, pc' | r⟩ <;> simp only [ownerStep, howner, hstep]

theorem length_record (i : ℤ) (r : Option (τ × π)) (returned : List (ℤ × τ × π)) :
    returned.length ≤ (record i r returned).length := by
  cases r with
  | none => exact le_rfl
  | some e => exact Nat.le_succ _

theorem ownerStep_returned (d : DuelState ι σ τ π) :
    d.returned.length ≤ d.ownerStep.returned.length := by
  rcases howner : d.owner with _ | pc
  · simp only [ownerStep, howner, le_refl]
  · rcases hstep : d.queue.popStep pc with ⟨q, pc' | r⟩
    · simp only [ownerStep, howner, hstep, le_refl]
    · simp only [ownerStep, howner, hstep]
      exact length_record _ _ _

/-- The owner moves the top only when it takes the last entry. -/
theorem Inv.ownerStep_drains {d : DuelState ι σ τ π} (h : Inv q₀ d) :
    (d.ownerStep.queue.top = d.queue.top ∧ (d.Drained → d.ownerStep.Drained)) ∨
      d.ownerStep.Drained := by
  have hok := h.owner
  rcases howner : d.owner with _ | pc
  · simp [ownerStep, howner, Drained]
  · cases pc with
    | loadBottom => simp [ownerStep, howner, TaskQueue.popStep, Drained]
    | storeBottom b =>
        simp only [howner, OwnerOk] at hok
        refine Or.inl ⟨by simp [ownerStep, howner, TaskQueue.popStep], fun hdrained => ?_⟩
        simp only [Drained] at hdrained
        simp only [ownerStep, howner, TaskQueue.popStep, Drained, TaskQueue.setBottom_top,
          TaskQueue.setBottom_bottom]
        omega
    | loadTop b =>
        by_cases hgt : d.queue.top > b <;> simp [ownerStep, howner, TaskQueue.popStep, hgt, Drained]
    | restoreEmpty b =>
        simp only [howner, OwnerOk] at hok
        simp only [ownerStep, howner, TaskQueue.popStep, Drained, TaskQueue.setBottom_top,
          TaskQueue.setBottom_bottom]
        omega
    | loadTask b t => simp [ownerStep, howner, TaskQueue.popStep, Drained]
    | loadPayload b t task =>
        by_cases hlast : t = b <;> simp [ownerStep, howner, TaskQueue.popStep, hlast, Drained]
    | exchangeTop b t task payload =>
        simp only [howner, OwnerOk] at hok
        by_cases htop : d.queue.top = t
        · simp only [ownerStep, howner, TaskQueue.popStep,
            TaskQueue.compareExchangeTop_eq d.queue (t + 1) htop, if_true, Drained,
            TaskQueue.setTop_top, TaskQueue.setTop_bottom]
          omega
        · simp [ownerStep, howner, TaskQueue.popStep,
            TaskQueue.compareExchangeTop_ne d.queue (t + 1) htop, Drained]
    | restoreLost b =>
        simp only [howner, OwnerOk] at hok
        simp only [ownerStep, howner, TaskQueue.popStep, Drained, TaskQueue.setBottom_top,
          TaskQueue.setBottom_bottom]
        omega
    | restoreTaken b task payload =>
        simp only [howner, OwnerOk] at hok
        simp only [ownerStep, howner, TaskQueue.popStep, Drained, TaskQueue.setBottom_top,
          TaskQueue.setBottom_bottom]
        omega

theorem Inv.drained_ownerStep {d : DuelState ι σ τ π} (h : Inv q₀ d) (hdrained : d.Drained) :
    d.ownerStep.Drained := by
  rcases h.ownerStep_drains with ⟨-, hstays⟩ | hdrains
  · exact hstays hdrained
  · exact hdrains

/-! ### The pop that holds the last entry -/

variable {d : DuelState ι σ τ π} {b t : ℤ} {task : τ} {payload : π}

theorem ownerStep_goesOn {pc pc' : PopPc τ π} {q : TaskQueue σ} (howner : d.owner = some pc)
    (h : d.queue.popStep pc = (q, .inl pc')) :
    d.ownerStep.owner = some pc' ∧ d.ownerStep.queue = q := by
  simp only [ownerStep, howner, h, and_self]

theorem willReturn_exchangeTop (howner : d.owner = some (.exchangeTop b t task payload))
    (htop : d.queue.top = t) : d.WillReturn b := by
  have hnext : d.queue.popStep (.exchangeTop b t task payload) =
      (d.queue.setTop (t + 1), .inl (.restoreTaken b task payload)) := by
    simp only [TaskQueue.popStep, TaskQueue.compareExchangeTop_eq d.queue (t + 1) htop, if_true]
  obtain ⟨howner', -⟩ := ownerStep_goesOn howner hnext
  exact .goesOn howner (congrArg Prod.snd hnext) (.returns howner' rfl)

theorem willReturn_loadPayload (howner : d.owner = some (.loadPayload b t task))
    (htop : t = b → d.queue.top = t) : d.WillReturn b := by
  by_cases hlast : t = b
  · have hnext : d.queue.popStep (.loadPayload b t task) = (d.queue, .inl (.exchangeTop b t task
        (SlotMemory.loadPayload d.queue.slots (d.queue.slotIx b)))) := by
      simp only [TaskQueue.popStep, if_pos hlast]
    obtain ⟨howner', hqueue⟩ := ownerStep_goesOn howner hnext
    apply WillReturn.goesOn howner (congrArg Prod.snd hnext)
    exact willReturn_exchangeTop howner' (by rw [hqueue]; exact htop hlast)
  · have hreturns : (d.queue.popStep (.loadPayload b t task)).2 =
        .inr (some (task, SlotMemory.loadPayload d.queue.slots (d.queue.slotIx b))) := by
      simp only [TaskQueue.popStep, if_neg hlast]
    exact .returns howner hreturns

theorem willReturn_loadTask (howner : d.owner = some (.loadTask b t))
    (htop : t = b → d.queue.top = t) : d.WillReturn b := by
  obtain ⟨howner', hqueue⟩ := ownerStep_goesOn howner rfl
  exact .goesOn howner rfl (willReturn_loadPayload howner' (by rw [hqueue]; exact htop))

theorem willReturn_loadTop (howner : d.owner = some (.loadTop b)) (htop : d.queue.top = b) :
    d.WillReturn b := by
  have hnext : d.queue.popStep (τ := τ) (π := π) (.loadTop b) =
      (d.queue, .inl (.loadTask b d.queue.top)) := by
    simp only [TaskQueue.popStep, if_neg (show ¬ d.queue.top > b by omega)]
  obtain ⟨howner', hqueue⟩ := ownerStep_goesOn howner hnext
  apply WillReturn.goesOn howner (congrArg Prod.snd hnext)
  exact willReturn_loadTask howner' fun _ => by rw [hqueue]

/-- In an empty queue whatever has not been returned is the entry of the pop in progress. -/
theorem Inv.taken_or_willReturn (h : Inv q₀ d) (hdrained : d.Drained) {i : ℤ}
    (hlow : q₀.top ≤ i) (hhigh : i < q₀.bottom) : i ∈ d.taken ∨ d.WillReturn i := by
  have hok := h.owner
  have hlim := h.top_le
  unfold Drained at hdrained
  by_cases hmem : i ∈ d.taken
  · exact Or.inl hmem
  right
  rw [h.taken] at hmem
  rcases howner : d.owner with _ | pc
  · simp only [howner, popLimit, OwnerHolds, not_false_eq_true, and_true] at hmem
    omega
  · cases pc with
    | loadBottom | storeBottom b | restoreEmpty b | restoreLost b =>
        simp only [howner, OwnerOk, popLimit, OwnerHolds, takeLimit, not_false_eq_true,
          and_true] at hmem hok hlim
        omega
    | loadTop b =>
        simp only [howner, OwnerOk, popLimit, OwnerHolds, takeLimit, not_false_eq_true,
          and_true] at hmem hok hlim
        obtain rfl : i = b := by omega
        exact willReturn_loadTop howner (by omega)
    | loadTask b t =>
        simp only [howner, OwnerOk, popLimit, OwnerHolds, not_false_eq_true, and_true] at hmem hok
        obtain rfl : i = b := by omega
        exact willReturn_loadTask howner (by omega)
    | loadPayload b t task =>
        simp only [howner, OwnerOk, popLimit, OwnerHolds, not_false_eq_true, and_true] at hmem hok
        obtain rfl : i = b := by omega
        exact willReturn_loadPayload howner (by omega)
    | exchangeTop b t task payload =>
        simp only [howner, OwnerOk, popLimit, OwnerHolds, takeLimit, not_false_eq_true,
          and_true] at hmem hok hlim
        obtain rfl : i = b := by omega
        exact willReturn_exchangeTop howner (by omega)
    | restoreTaken b task payload =>
        simp only [howner, OwnerOk, popLimit, OwnerHolds] at hmem hok
        obtain rfl : i = b := by omega
        exact .returns howner rfl

/-! ### One thief -/

/-- The only thief still has the top in its hands, or the owner has emptied the queue. -/
def Sees (d : DuelState Unit σ τ π) : Prop :=
  match d.thief () with
  | none | some .loadTop => True
  | some (.loadBottom t) | some (.loadTask t) | some (.loadPayload t _)
  | some (.exchangeTop t _ _) => d.queue.top = t ∨ d.Drained

theorem Inv.sees_ownerStep {d : DuelState Unit σ τ π} (h : Inv q₀ d) (hsees : d.Sees) :
    d.ownerStep.Sees := by
  have hdrains := h.ownerStep_drains
  unfold Sees at hsees ⊢
  rw [ownerStep_thief]
  rcases hthief : d.thief () with _ | pc
  · trivial
  · cases pc with
    | loadTop => trivial
    | loadBottom t | loadTask t | loadPayload t task | exchangeTop t task payload =>
        simp only [hthief] at hsees ⊢
        rcases hdrains with ⟨htop, hstays⟩ | hdrained
        · rw [htop]
          exact hsees.imp id hstays
        · exact Or.inr hdrained

/-- What an access of the thief does, by its outcome. -/
inductive ThiefMove (d : DuelState Unit σ τ π) (pc : StealPc τ π) : Prop
  | goesOn (pc' : StealPc τ π) (hstep : (d.queue.stealStep pc).2 = .inl pc')
      (hnext : d.thiefStep () = { d with thief := Function.update d.thief () (some pc') })
      (hleft : pc'.left + 1 = pc.left) (hsees : (d.thiefStep ()).Sees)
  | fails (hstep : (d.queue.stealStep pc).2 = .inr none)
      (hnext : d.thiefStep () = { d with thief := Function.update d.thief () none })
      (hdrained : d.Drained)
  | steals (e : τ × π) (t : ℤ) (hstep : (d.queue.stealStep pc).2 = .inr (some e))
      (hnext : d.thiefStep () = { d with
        queue := d.queue.setTop (t + 1)
        thief := Function.update d.thief () none
        returned := (t, e) :: d.returned })
      (htop : d.queue.top = t)

theorem Inv.thiefMove {d : DuelState Unit σ τ π} (h : Inv q₀ d) (hsees : d.Sees)
    {pc : StealPc τ π} (hthief : d.thief () = some pc) : ThiefMove d pc := by
  have hk := h.thief ()
  rw [hthief] at hk
  simp only [Sees, hthief] at hsees
  cases pc with
  | loadTop =>
      refine .goesOn (.loadBottom d.queue.top) rfl ?_ rfl ?_
      · simp only [thiefStep, hthief, TaskQueue.stealStep]
      · simp [Sees, thiefStep, hthief, TaskQueue.stealStep]
  | loadBottom t =>
      by_cases hge : t ≥ d.queue.bottom
      · refine .fails ?_ ?_ ?_
        · simp only [TaskQueue.stealStep, if_pos hge]
        · simp only [thiefStep, hthief, TaskQueue.stealStep, if_pos hge, record]
        · exact hge.le.trans hk.2
      · refine .goesOn (.loadTask t) ?_ ?_ rfl ?_
        · simp only [TaskQueue.stealStep, if_neg hge]
        · simp only [thiefStep, hthief, TaskQueue.stealStep, if_neg hge]
        · simp only [Sees, thiefStep, hthief, TaskQueue.stealStep, if_neg hge, Function.update_self]
          exact hsees
  | loadTask t =>
      refine .goesOn _ rfl ?_ rfl ?_
      · simp only [thiefStep, hthief, TaskQueue.stealStep]
      · simp only [Sees, thiefStep, hthief, TaskQueue.stealStep, Function.update_self]
        exact hsees
  | loadPayload t task =>
      refine .goesOn _ rfl ?_ rfl ?_
      · simp only [thiefStep, hthief, TaskQueue.stealStep]
      · simp only [Sees, thiefStep, hthief, TaskQueue.stealStep, Function.update_self]
        exact hsees
  | exchangeTop t task payload =>
      by_cases htop : d.queue.top = t
      · refine .steals (task, payload) t ?_ ?_ htop
        · simp only [TaskQueue.stealStep, TaskQueue.compareExchangeTop_eq d.queue (t + 1) htop,
            if_true]
        · simp only [thiefStep, hthief, TaskQueue.stealStep,
            TaskQueue.compareExchangeTop_eq d.queue (t + 1) htop, if_true, record, StealPc.index]
      · -- a lost exchange: the owner has taken the last entry meanwhile
        refine .fails ?_ ?_ (hsees.resolve_left htop)
        · simp only [TaskQueue.stealStep, TaskQueue.compareExchangeTop_ne d.queue (t + 1) htop,
            Bool.false_eq_true, if_false]
        · simp only [thiefStep, hthief, TaskQueue.stealStep,
            TaskQueue.compareExchangeTop_ne d.queue (t + 1) htop, Bool.false_eq_true, if_false,
            record]

end DuelState
end ProjectDelta
