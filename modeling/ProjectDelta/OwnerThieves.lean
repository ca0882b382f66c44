import Mathlib.Data.List.Nodup
import Mathlib.Logic.Function.Basic
import ProjectDelta.Machine
import ProjectDelta.QueueCalls

/-!
# One owner against any number of thieves

The owner thread makes `TaskQueue_Pop` calls while each thief thread makes
`TaskQueue_Steal` calls on the same queue, and nobody pushes. Every access is a
step of its own. The ghost list `returned` records the index and the pair of
every call that returned true.

The owner takes every entry but the last one without a compare-exchange. What
protects it is `takeLimit`: a thief whose loaded top is still the top has seen a
bottom above it, and so has a top below the limit.
-/

namespace ProjectDelta

variable {ι σ τ π : Type} [SlotMemory σ τ π]

/-- The index a pop returns when it succeeds. -/
def PopPc.index : PopPc τ π → ℤ
  | .loadBottom => 0
  | .storeBottom b | .loadTop b | .restoreEmpty b | .loadTask b _ | .loadPayload b _ _
  | .exchangeTop b _ _ _ | .restoreLost b | .restoreTaken b _ _ => b

/-- The index a steal returns when it succeeds. -/
def StealPc.index : StealPc τ π → ℤ
  | .loadTop => 0
  | .loadBottom t | .loadTask t | .loadPayload t _ | .exchangeTop t _ _ => t

structure DuelState (ι σ τ π : Type) where
  queue : TaskQueue σ
  owner : Option (PopPc τ π)
  thief : ι → Option (StealPc τ π)
  returned : List (ℤ × τ × π)

inductive DuelThread (ι : Type)
  | owner
  | thief (k : ι)
  deriving DecidableEq

namespace DuelState

def record (i : ℤ) (r : Option (τ × π)) (returned : List (ℤ × τ × π)) : List (ℤ × τ × π) :=
  match r with
  | some p => (i, p) :: returned
  | none => returned

/-- The owner starts a pop or makes the next access of the one it is in. -/
def ownerStep (s : DuelState ι σ τ π) : DuelState ι σ τ π :=
  match s.owner with
  | none => { s with owner := some .loadBottom }
  | some pc => match s.queue.popStep pc with
    | (q, .inl pc') => { s with queue := q, owner := some pc' }
    | (q, .inr r) =>
        { s with queue := q, owner := none, returned := record pc.index r s.returned }

def thiefStep [DecidableEq ι] (s : DuelState ι σ τ π) (k : ι) : DuelState ι σ τ π :=
  match s.thief k with
  | none => { s with thief := Function.update s.thief k (some .loadTop) }
  | some pc => match s.queue.stealStep pc with
    | (q, .inl pc') => { s with queue := q, thief := Function.update s.thief k (some pc') }
    | (q, .inr r) =>
        { s with
          queue := q
          thief := Function.update s.thief k none
          returned := record pc.index r s.returned }

variable (ι σ τ π) in
def machine [DecidableEq ι] : Machine (DuelState ι σ τ π) (DuelThread ι) where
  next s
    | .owner => some s.ownerStep
    | .thief k => some (s.thiefStep k)

/-- No call is in progress. -/
def Quiescent (s : DuelState ι σ τ π) : Prop := s.owner = none ∧ ∀ k, s.thief k = none

/-- The owner's next access makes its pop return false. -/
def PopReturnsFalse (s : DuelState ι σ τ π) : Prop :=
  ∃ pc, s.owner = some pc ∧ (s.queue.popStep pc).2 = .inr none

/-- The indices returned so far. -/
def taken (s : DuelState ι σ τ π) : List ℤ := s.returned.map Prod.fst

/-- A queue with no call in progress and nothing returned yet. -/
def start (q : TaskQueue σ) : DuelState ι σ τ π := ⟨q, none, fun _ => none, []⟩

/-! ### The invariant -/

/-- Thieves may claim indices below this one only. -/
def takeLimit (q : TaskQueue σ) : Option (PopPc τ π) → ℤ
  | none | some .loadBottom => q.bottom
  | some (.storeBottom b) | some (.loadTop b) | some (.restoreEmpty b) | some (.restoreLost b)
  | some (.exchangeTop b _ _ _) | some (.restoreTaken b _ _) => b + 1
  | some (.loadTask b t) | some (.loadPayload b t _) => if t = b then b + 1 else b

/-- The owner has returned exactly the indices from this one up. -/
def popLimit (q : TaskQueue σ) : Option (PopPc τ π) → ℤ
  | none | some .loadBottom => q.bottom
  | some (.storeBottom b) | some (.loadTop b) | some (.restoreEmpty b) | some (.restoreLost b)
  | some (.exchangeTop b _ _ _) | some (.restoreTaken b _ _) | some (.loadTask b _)
  | some (.loadPayload b _ _) => b + 1

/-- The owner's locals agree with the queue; `q₀` is the queue at the start. -/
def OwnerOk (q₀ q : TaskQueue σ) : Option (PopPc τ π) → Prop
  | none | some .loadBottom => True
  | some (.storeBottom b) => q.bottom = b + 1
  | some (.loadTop b) => q.bottom = b
  | some (.restoreEmpty b) | some (.restoreLost b) => q.bottom = b ∧ q.top = b + 1
  | some (.loadTask b t) => q.bottom = b ∧ q₀.top ≤ t ∧ t ≤ q.top ∧ t ≤ b
  | some (.loadPayload b t task) =>
      q.bottom = b ∧ q₀.top ≤ t ∧ t ≤ q.top ∧ t ≤ b ∧ task = (q₀.pairAt b).1
  | some (.exchangeTop b t task payload) =>
      q.bottom = b ∧ q₀.top ≤ t ∧ t ≤ q.top ∧ t = b ∧ (task, payload) = q₀.pairAt b
  | some (.restoreTaken b task payload) =>
      q.bottom = b ∧ q₀.top ≤ b ∧ q.top = b + 1 ∧ (task, payload) = q₀.pairAt b

/-- A thief that has loaded `t` can only win index `t` while it lies below the limit. -/
def MayClaim (q₀ : TaskQueue σ) (top limit t : ℤ) : Prop :=
  q₀.top ≤ t ∧ t ≤ top ∧ (t = top → t < limit)

def ThiefOk (q₀ : TaskQueue σ) (top limit : ℤ) : Option (StealPc τ π) → Prop
  | none | some .loadTop => True
  | some (.loadBottom t) => q₀.top ≤ t ∧ t ≤ top
  | some (.loadTask t) => MayClaim q₀ top limit t
  | some (.loadPayload t task) => MayClaim q₀ top limit t ∧ task = (q₀.pairAt t).1
  | some (.exchangeTop t task payload) =>
      MayClaim q₀ top limit t ∧ (task, payload) = q₀.pairAt t

/-- The owner has exchanged the top for index `i` and has yet to return it. -/
def OwnerHolds (i : ℤ) : Option (PopPc τ π) → Prop
  | some (.restoreTaken b _ _) => i = b
  | _ => False

structure Inv (q₀ : TaskQueue σ) (s : DuelState ι σ τ π) : Prop where
  slots : s.queue.slots = q₀.slots
  mask : s.queue.mask = q₀.mask
  top_ge : q₀.top ≤ s.queue.top
  top_le : s.queue.top ≤ takeLimit s.queue s.owner
  limit_le : popLimit s.queue s.owner ≤ q₀.bottom
  owner : OwnerOk q₀ s.queue s.owner
  thief : ∀ k, ThiefOk q₀ s.queue.top (takeLimit s.queue s.owner) (s.thief k)
  nodup : s.taken.Nodup
  pairs : ∀ e ∈ s.returned, e.2 = q₀.pairAt e.1
  taken : ∀ i, i ∈ s.taken ↔
    (q₀.top ≤ i ∧ i < s.queue.top ∧ ¬ OwnerHolds i s.owner) ∨
      (popLimit s.queue s.owner ≤ i ∧ i < q₀.bottom)

omit [SlotMemory σ τ π] in
theorem takeLimit_le_popLimit (q : TaskQueue σ) (pc : Option (PopPc τ π)) :
    takeLimit q pc ≤ popLimit q pc := by
  rcases pc with _ | pc
  · exact le_rfl
  · cases pc <;> simp only [takeLimit, popLimit] <;> (try split_ifs) <;> omega

theorem start_inv (q₀ : TaskQueue σ) (h : q₀.top ≤ q₀.bottom) : Inv q₀ (start (ι := ι) q₀) where
  slots := rfl
  mask := rfl
  top_ge := le_rfl
  top_le := h
  limit_le := le_rfl
  owner := trivial
  thief _ := trivial
  nodup := List.nodup_nil
  pairs e he := absurd he List.not_mem_nil
  taken i := by
    simp only [taken, start, List.map_nil, List.not_mem_nil, popLimit, false_iff]
    omega

theorem Inv.pairAt {q₀ : TaskQueue σ} {s : DuelState ι σ τ π} (h : Inv q₀ s) (i : ℤ) :
    s.queue.pairAt i = q₀.pairAt i := by
  simp only [TaskQueue.pairAt, TaskQueue.slotIx, h.slots, h.mask]

theorem ThiefOk.mono {q₀ : TaskQueue σ} {top top' limit limit' : ℤ} {pc : Option (StealPc τ π)}
    (h : ThiefOk q₀ top limit pc) (htop : top ≤ top')
    (hmay : ∀ t, MayClaim q₀ top limit t → MayClaim q₀ top' limit' t) :
    ThiefOk q₀ top' limit' pc := by
  rcases pc with _ | pc
  · trivial
  · cases pc with
    | loadTop => trivial
    | loadBottom t => exact ⟨h.1, h.2.trans htop⟩
    | loadTask t => exact hmay t h
    | loadPayload t task => exact ⟨hmay t h.1, h.2⟩
    | exchangeTop t task payload => exact ⟨hmay t h.1, h.2⟩

/-- The thieves keep their right to claim while the top stands still and the
limit stays above it. -/
theorem ThiefOk.of_limit {q₀ : TaskQueue σ} {top limit limit' : ℤ} {pc : Option (StealPc τ π)}
    (h : ThiefOk q₀ top limit pc) (hl : top < limit → top < limit') :
    ThiefOk q₀ top limit' pc := by
  apply h.mono le_rfl
  rintro t ⟨h1, h2, h3⟩
  exact ⟨h1, h2, fun he => by subst he; exact hl (h3 rfl)⟩

/-- Once the top has moved on, an earlier loaded top wins nothing. -/
theorem ThiefOk.of_top_lt {q₀ : TaskQueue σ} {top top' limit limit' : ℤ}
    {pc : Option (StealPc τ π)} (h : ThiefOk q₀ top limit pc) (ht : top < top') :
    ThiefOk q₀ top' limit' pc := by
  apply h.mono ht.le
  rintro t ⟨h1, h2, _⟩
  exact ⟨h1, by omega, fun he => by omega⟩

/-! ### One access of the owner -/

/-- An owner access that returns no entry and leaves the top where it is. -/
theorem Inv.owner_moves {q₀ : TaskQueue σ} {s : DuelState ι σ τ π} (h : Inv q₀ s)
    {q : TaskQueue σ} {pc : Option (PopPc τ π)}
    (hslots : q.slots = s.queue.slots) (hmask : q.mask = s.queue.mask)
    (htop : q.top = s.queue.top) (hle : q.top ≤ takeLimit q pc)
    (hlimit : s.queue.top < takeLimit s.queue s.owner → s.queue.top < takeLimit q pc)
    (hpop : popLimit q pc = popLimit s.queue s.owner) (hok : OwnerOk q₀ q pc)
    (hold : ∀ i, OwnerHolds i pc ↔ OwnerHolds i s.owner) :
    Inv q₀ { s with queue := q, owner := pc } where
  slots := hslots.trans h.slots
  mask := hmask.trans h.mask
  top_ge := by rw [htop]; exact h.top_ge
  top_le := hle
  limit_le := by rw [hpop]; exact h.limit_le
  owner := hok
  thief k := by
    rw [htop]
    exact (h.thief k).of_limit hlimit
  nodup := h.nodup
  pairs := h.pairs
  taken i := by
    simp only [htop, hpop, hold]
    exact h.taken i

/-- The owner returns index `b`: the indices taken are then those below the top and those
from the bottom up. -/
theorem Inv.owner_returns {q₀ : TaskQueue σ} {s : DuelState ι σ τ π} (h : Inv q₀ s)
    {q : TaskQueue σ} {b : ℤ} {p : τ × π}
    (hslots : q.slots = s.queue.slots) (hmask : q.mask = s.queue.mask) (htop : q.top = s.queue.top)
    (hle : q.top ≤ q.bottom) (hbound : q.bottom ≤ q₀.bottom)
    (hlimit : s.queue.top < takeLimit s.queue s.owner → s.queue.top < q.bottom)
    (hfresh : b ∉ s.taken) (hpair : p = q₀.pairAt b)
    (htaken : ∀ i, (i = b ∨ i ∈ s.taken) ↔
      (q₀.top ≤ i ∧ i < s.queue.top) ∨ (q.bottom ≤ i ∧ i < q₀.bottom)) :
    Inv q₀ { s with queue := q, owner := none, returned := (b, p) :: s.returned } where
  slots := hslots.trans h.slots
  mask := hmask.trans h.mask
  top_ge := by rw [htop]; exact h.top_ge
  top_le := hle
  limit_le := hbound
  owner := trivial
  thief k := by
    rw [htop]
    exact (h.thief k).of_limit hlimit
  nodup := List.nodup_cons.mpr ⟨hfresh, h.nodup⟩
  pairs e he := by
    rcases List.mem_cons.mp he with rfl | hold
    · exact hpair
    · exact h.pairs e hold
  taken i := by
    change i ∈ b :: s.taken ↔ _
    rw [List.mem_cons, htaken]
    simp only [htop, popLimit, OwnerHolds, not_false_eq_true, and_true]

/-- The owner returns the entry below its limit without a compare-exchange. -/
theorem Inv.owner_returns_more {q₀ : TaskQueue σ} {s : DuelState ι σ τ π} (h : Inv q₀ s)
    {b t : ℤ} {task : τ} (howner : s.owner = some (.loadPayload b t task)) (hlt : t < b) :
    Inv q₀ { s with
      owner := none
      returned := (b, task, SlotMemory.loadPayload s.queue.slots (s.queue.slotIx b)) ::
        s.returned } := by
  have hok := h.owner
  have hlim := h.top_le
  have htaken := h.taken
  have hbound := h.limit_le
  have hge := h.top_ge
  simp only [howner, OwnerOk, takeLimit, popLimit, OwnerHolds,
    if_neg (show t ≠ b by omega)] at hok hlim htaken hbound
  obtain ⟨hb, ht0, ht, hle, rfl⟩ := hok
  refine h.owner_returns rfl rfl rfl (by omega) (by omega) ?_ ?_ ?_ ?_
  · simp only [howner, takeLimit, if_neg (show t ≠ b by omega)]
    omega
  · rw [htaken]
    omega
  · rw [← h.pairAt]
    rfl
  · intro i
    rw [htaken]
    simp only [not_false_eq_true, and_true]
    omega

/-- The owner wins the last entry; it returns it after restoring the bottom. -/
theorem Inv.owner_exchanges {q₀ : TaskQueue σ} {s : DuelState ι σ τ π} (h : Inv q₀ s)
    {b t : ℤ} {task : τ} {payload : π} (howner : s.owner = some (.exchangeTop b t task payload))
    (htop : s.queue.top = t) :
    Inv q₀ { s with
      queue := s.queue.setTop (t + 1)
      owner := some (.restoreTaken b task payload) } := by
  have hok := h.owner
  have hlim := h.top_le
  have htaken := h.taken
  have hbound := h.limit_le
  have hge := h.top_ge
  simp only [howner, OwnerOk, takeLimit, popLimit, OwnerHolds] at hok hlim htaken hbound
  obtain ⟨hb, ht0, ht, rfl, hpair⟩ := hok
  refine ⟨h.slots, h.mask, by change q₀.top ≤ t + 1; omega, le_rfl, hbound, ⟨hb, ht0, rfl, hpair⟩,
    ?_, h.nodup, h.pairs, ?_⟩
  · intro k
    exact (h.thief k).of_top_lt (by change s.queue.top < t + 1; omega)
  · intro i
    change i ∈ s.taken ↔ _
    rw [htaken]
    simp only [popLimit, OwnerHolds, not_false_eq_true, and_true, TaskQueue.setTop_top]
    omega

theorem Inv.owner_returns_last {q₀ : TaskQueue σ} {s : DuelState ι σ τ π} (h : Inv q₀ s)
    {b : ℤ} {task : τ} {payload : π} (howner : s.owner = some (.restoreTaken b task payload)) :
    Inv q₀ { s with
      queue := s.queue.setBottom (b + 1)
      owner := none
      returned := (b, task, payload) :: s.returned } := by
  have hok := h.owner
  have hlim := h.top_le
  have htaken := h.taken
  have hbound := h.limit_le
  simp only [howner, OwnerOk, takeLimit, popLimit, OwnerHolds] at hok hlim htaken hbound
  obtain ⟨hb, ht0, ht, hpair⟩ := hok
  refine h.owner_returns rfl rfl rfl hlim hbound ?_ ?_ hpair ?_
  · rw [howner]
    exact id
  · rw [htaken]
    omega
  · intro i
    rw [htaken, TaskQueue.setBottom_bottom]
    omega

theorem ownerStep_inv {q₀ : TaskQueue σ} {s : DuelState ι σ τ π} (h : Inv q₀ s) :
    Inv q₀ s.ownerStep := by
  have hok := h.owner
  have hlim := h.top_le
  rcases howner : s.owner with _ | pc
  · simp only [ownerStep, howner]
    simp only [howner, takeLimit] at hlim
    exact h.owner_moves rfl rfl rfl hlim (by simp [howner, takeLimit]) (by rw [howner]; rfl)
      trivial (by simp [howner, OwnerHolds])
  · cases pc with
    | loadBottom =>
        simp only [ownerStep, howner, TaskQueue.popStep]
        simp only [howner, takeLimit] at hlim
        exact h.owner_moves rfl rfl rfl (by simp only [takeLimit]; omega)
          (by simp [howner, takeLimit]) (by simp [howner, popLimit]) (by simp [OwnerOk])
          (by simp [howner, OwnerHolds])
    | storeBottom b =>
        simp only [ownerStep, howner, TaskQueue.popStep]
        simp only [howner, takeLimit] at hlim
        exact h.owner_moves rfl rfl rfl hlim (by simp [howner, takeLimit])
          (by rw [howner]; rfl) rfl (by simp [howner, OwnerHolds])
    | loadTop b =>
        simp only [howner, OwnerOk, takeLimit] at hok hlim
        by_cases hgt : s.queue.top > b
        · simp only [ownerStep, howner, TaskQueue.popStep, if_pos hgt]
          exact h.owner_moves rfl rfl rfl hlim (by simp [howner, takeLimit])
            (by rw [howner]; rfl) ⟨hok, by omega⟩ (by simp [howner, OwnerHolds])
        · simp only [ownerStep, howner, TaskQueue.popStep, if_neg hgt]
          refine h.owner_moves rfl rfl rfl ?_ ?_ (by rw [howner]; rfl)
            ⟨hok, h.top_ge, le_rfl, by omega⟩ (by simp [howner, OwnerHolds])
          · simp only [takeLimit]
            split_ifs <;> omega
          · -- not the last entry: the limit drops to `b`, and the top is below it
            intro _
            simp only [takeLimit]
            split_ifs <;> omega
    | restoreEmpty b =>
        simp only [ownerStep, howner, TaskQueue.popStep, record]
        simp only [howner, takeLimit] at hlim
        exact h.owner_moves rfl rfl rfl hlim (by simp [howner, takeLimit])
          (by rw [howner]; rfl) trivial (by simp [howner, OwnerHolds])
    | loadTask b t =>
        simp only [ownerStep, howner, TaskQueue.popStep]
        simp only [howner, OwnerOk, takeLimit] at hok hlim
        refine h.owner_moves rfl rfl rfl hlim (by simp [howner, takeLimit])
          (by rw [howner]; rfl) ⟨hok.1, hok.2.1, hok.2.2.1, hok.2.2.2, ?_⟩
          (by simp [howner, OwnerHolds])
        rw [← h.pairAt]
        rfl
    | loadPayload b t task =>
        simp only [howner, OwnerOk, takeLimit] at hok hlim
        obtain ⟨hb, ht0, ht, hle, htask⟩ := hok
        by_cases hlast : t = b
        · simp only [ownerStep, howner, TaskQueue.popStep, if_pos hlast]
          rw [if_pos hlast] at hlim
          refine h.owner_moves rfl rfl rfl hlim (by simp [howner, takeLimit, hlast])
            (by rw [howner]; rfl) ⟨hb, ht0, ht, hlast, ?_⟩ (by simp [howner, OwnerHolds])
          rw [htask, ← h.pairAt]
          rfl
        · simp only [ownerStep, howner, TaskQueue.popStep, if_neg hlast, record, PopPc.index]
          exact h.owner_returns_more howner (by omega)
    | exchangeTop b t task payload =>
        simp only [howner, OwnerOk, takeLimit] at hok hlim
        by_cases htop : s.queue.top = t
        · simp only [ownerStep, howner, TaskQueue.popStep,
            TaskQueue.compareExchangeTop_eq s.queue (t + 1) htop, if_true]
          exact h.owner_exchanges howner htop
        · simp only [ownerStep, howner, TaskQueue.popStep,
            TaskQueue.compareExchangeTop_ne s.queue (t + 1) htop, Bool.false_eq_true, if_false]
          exact h.owner_moves rfl rfl rfl hlim (by simp [howner, takeLimit])
            (by rw [howner]; rfl) ⟨hok.1, by omega⟩ (by simp [howner, OwnerHolds])
    | restoreLost b =>
        simp only [ownerStep, howner, TaskQueue.popStep, record]
        simp only [howner, takeLimit] at hlim
        exact h.owner_moves rfl rfl rfl hlim (by simp [howner, takeLimit])
          (by rw [howner]; rfl) trivial (by simp [howner, OwnerHolds])
    | restoreTaken b task payload =>
        simp only [ownerStep, howner, TaskQueue.popStep, record, PopPc.index]
        exact h.owner_returns_last howner

/-! ### One access of a thief -/

variable [DecidableEq ι]

theorem Inv.thief_moves {q₀ : TaskQueue σ} {s : DuelState ι σ τ π} (h : Inv q₀ s) (k : ι)
    {pc : Option (StealPc τ π)} (hpc : ThiefOk q₀ s.queue.top (takeLimit s.queue s.owner) pc) :
    Inv q₀ { s with thief := Function.update s.thief k pc } :=
  { h with
    thief := by
      intro j
      by_cases hj : j = k
      · subst hj
        simpa only [Function.update_self] using hpc
      · simpa only [Function.update_of_ne hj] using h.thief j }

/-- A thief whose loaded top is still the top wins that entry. -/
theorem Inv.thief_claims {q₀ : TaskQueue σ} {s : DuelState ι σ τ π} (h : Inv q₀ s) (k : ι)
    {t : ℤ} {task : τ} {payload : π} (hthief : s.thief k = some (.exchangeTop t task payload))
    (htop : s.queue.top = t) :
    Inv q₀ { s with
      queue := s.queue.setTop (t + 1)
      thief := Function.update s.thief k none
      returned := (t, task, payload) :: s.returned } := by
  have hk := h.thief k
  rw [hthief] at hk
  obtain ⟨⟨ht0, ht, hlimit⟩, hpair⟩ := hk
  have hbelow : t < takeLimit s.queue s.owner := hlimit htop.symm
  have hle := takeLimit_le_popLimit s.queue s.owner
  have hnot : ¬ OwnerHolds t s.owner := by
    -- the owner that holds the last entry has already moved the top past it
    intro hold
    have hok := h.owner
    rcases hpc : s.owner with _ | pc
    · simp [hpc, OwnerHolds] at hold
    · cases pc <;> simp only [hpc, OwnerHolds] at hold
      simp only [hpc, OwnerOk] at hok
      omega
  have hfresh : t ∉ s.taken := by
    rw [h.taken]
    omega
  have howner : OwnerOk q₀ (s.queue.setTop (t + 1)) s.owner := by
    have hok := h.owner
    rcases hpc : s.owner with _ | pc
    · trivial
    · cases pc <;> simp only [hpc, OwnerOk, takeLimit, TaskQueue.setTop_top,
        TaskQueue.setTop_bottom] at hok hbelow ⊢ <;> first | omega | grind
  have hlimits : takeLimit (s.queue.setTop (t + 1)) s.owner = takeLimit s.queue s.owner ∧
      popLimit (s.queue.setTop (t + 1)) s.owner = popLimit s.queue s.owner := by
    rcases s.owner with _ | pc
    · exact ⟨rfl, rfl⟩
    · cases pc <;> exact ⟨rfl, rfl⟩
  refine ⟨h.slots, h.mask, by change q₀.top ≤ t + 1; omega, by rw [hlimits.1]; exact hbelow,
    by rw [hlimits.2]; exact h.limit_le, howner, ?_, List.nodup_cons.mpr ⟨hfresh, h.nodup⟩, ?_, ?_⟩
  · intro j
    by_cases hj : j = k
    · subst hj
      simp only [Function.update_self]
      trivial
    · simp only [Function.update_of_ne hj]
      exact (h.thief j).of_top_lt (by rw [TaskQueue.setTop_top]; omega)
  · intro e he
    rcases List.mem_cons.mp he with rfl | he
    · exact hpair
    · exact h.pairs e he
  · intro i
    change i ∈ t :: s.taken ↔ _
    rw [List.mem_cons, h.taken, hlimits.2]
    simp only [TaskQueue.setTop_top]
    constructor
    · rintro (rfl | ⟨h1, h2, h3⟩ | h1)
      · exact .inl ⟨ht0, by omega, hnot⟩
      · exact .inl ⟨h1, by omega, h3⟩
      · exact .inr h1
    · rintro (⟨h1, h2, h3⟩ | h1)
      · by_cases hi : i = t
        · exact .inl hi
        · exact .inr (.inl ⟨h1, by omega, h3⟩)
      · exact .inr (.inr h1)

theorem thiefStep_inv {q₀ : TaskQueue σ} {s : DuelState ι σ τ π} (h : Inv q₀ s) (k : ι) :
    Inv q₀ (s.thiefStep k) := by
  have hk := h.thief k
  rcases hthief : s.thief k with _ | pc
  · simp only [thiefStep, hthief]
    exact h.thief_moves k trivial
  · rw [hthief] at hk
    cases pc with
    | loadTop =>
        simp only [thiefStep, hthief, TaskQueue.stealStep]
        exact h.thief_moves k ⟨h.top_ge, le_rfl⟩
    | loadBottom t =>
        by_cases hge : t ≥ s.queue.bottom
        · simp only [thiefStep, hthief, TaskQueue.stealStep, if_pos hge, record]
          exact h.thief_moves k trivial
        · simp only [thiefStep, hthief, TaskQueue.stealStep, if_neg hge]
          refine h.thief_moves k ⟨hk.1, hk.2, fun _ => ?_⟩
          -- the bottom the thief has just seen is never above the limit
          have hok := h.owner
          rcases hpc : s.owner with _ | pc
          · simp only [takeLimit]
            omega
          · cases pc <;> simp only [hpc, OwnerOk] at hok <;> simp only [takeLimit] <;>
              (try split_ifs) <;> omega
    | loadTask t =>
        simp only [thiefStep, hthief, TaskQueue.stealStep]
        exact h.thief_moves k ⟨hk, congrArg Prod.fst (h.pairAt t)⟩
    | loadPayload t task =>
        simp only [thiefStep, hthief, TaskQueue.stealStep]
        refine h.thief_moves k ⟨hk.1, ?_⟩
        rw [hk.2]
        change ((q₀.pairAt t).1, (s.queue.pairAt t).2) = q₀.pairAt t
        rw [h.pairAt]
    | exchangeTop t task payload =>
        by_cases htop : s.queue.top = t
        · simp only [thiefStep, hthief, TaskQueue.stealStep,
            TaskQueue.compareExchangeTop_eq s.queue (t + 1) htop, if_true, record, StealPc.index]
          exact h.thief_claims k hthief htop
        · simp only [thiefStep, hthief, TaskQueue.stealStep,
            TaskQueue.compareExchangeTop_ne s.queue (t + 1) htop, Bool.false_eq_true, if_false,
            record]
          exact h.thief_moves k trivial

theorem reach_inv {q₀ : TaskQueue σ} {s : DuelState ι σ τ π} (hwindow : q₀.top ≤ q₀.bottom)
    (h : (machine ι σ τ π).Reach (start q₀) s) : Inv q₀ s := by
  refine h.invariant (I := Inv q₀) ?_ (start_inv q₀ hwindow)
  intro a l b ha _ hn
  cases l with
  | owner =>
      obtain rfl := Option.some.inj hn
      exact ownerStep_inv ha
  | thief k =>
      obtain rfl := Option.some.inj hn
      exact thiefStep_inv ha k

/-! ### What the callers see -/

omit [DecidableEq ι] in
theorem Inv.claimed_of_popReturnsFalse {q₀ : TaskQueue σ} {s : DuelState ι σ τ π} (h : Inv q₀ s)
    (hfalse : s.PopReturnsFalse) {i : ℤ} (h1 : q₀.top ≤ i) (h2 : i < q₀.bottom) : i ∈ s.taken := by
  obtain ⟨pc, howner, hr⟩ := hfalse
  have hok := h.owner
  rw [h.taken, howner]
  cases pc <;> simp only [TaskQueue.popStep] at hr <;> (try split_ifs at hr) <;> try cases hr
  all_goals
    simp only [howner, OwnerOk] at hok
    simp only [popLimit, OwnerHolds, not_false_eq_true, and_true]
    omega

omit [DecidableEq ι] in
theorem Inv.mem_window_of_mem_taken {q₀ : TaskQueue σ} {s : DuelState ι σ τ π} (h : Inv q₀ s)
    {i : ℤ} (hi : i ∈ s.taken) : q₀.top ≤ i ∧ i < q₀.bottom := by
  have h1 := h.top_le
  have h2 := takeLimit_le_popLimit s.queue s.owner
  have h3 := h.limit_le
  have h4 := h.top_ge
  rcases (h.taken i).mp hi with hlow | hhigh <;> omega

omit [DecidableEq ι] in
theorem Inv.left_of_quiescent {q₀ : TaskQueue σ} {s : DuelState ι σ τ π} (h : Inv q₀ s)
    (hq : s.Quiescent) (i : ℤ) :
    (q₀.top ≤ i ∧ i < q₀.bottom ∧ i ∉ s.taken) ↔ s.queue.top ≤ i ∧ i < s.queue.bottom := by
  have h1 := h.top_ge
  have h2 := h.top_le
  have h3 := h.limit_le
  simp only [hq.1, takeLimit, popLimit] at h2 h3
  rw [h.taken, hq.1]
  simp only [popLimit, OwnerHolds, not_false_eq_true, and_true]
  omega

/-- No entry of the window is taken twice or dropped, whatever the order of the
accesses of the owner and the thieves. The window may even exceed the ring. -/
theorem pop_steal_exactly_once (q₀ : TaskQueue σ) (h0 : 0 ≤ q₀.bottom - q₀.top)
    (s : DuelState ι σ τ π) (hs : (machine ι σ τ π).Reach (start q₀) s) :
    s.taken.Nodup ∧
      (∀ e ∈ s.returned, q₀.top ≤ e.1 ∧ e.1 < q₀.bottom ∧ e.2 = q₀.pairAt e.1) ∧
      (s.PopReturnsFalse → ∀ i, q₀.top ≤ i → i < q₀.bottom → i ∈ s.taken) ∧
      (s.Quiescent → ∀ i, (q₀.top ≤ i ∧ i < q₀.bottom ∧ i ∉ s.taken) ↔
        s.queue.top ≤ i ∧ i < s.queue.bottom) := by
  have hwindow : q₀.top ≤ q₀.bottom := by omega
  have hinv := reach_inv hwindow hs
  refine ⟨hinv.nodup, ?_, fun hfalse i h1 h2 => hinv.claimed_of_popReturnsFalse hfalse h1 h2,
    fun hq i => hinv.left_of_quiescent hq i⟩
  intro e he
  obtain ⟨h1, h2⟩ := hinv.mem_window_of_mem_taken (List.mem_map_of_mem he)
  exact ⟨h1, h2, hinv.pairs e he⟩

/-- Two entries, taken by the owner and by a thief whose accesses alternate. -/
def duelQueue : TaskQueue (Cells ℕ ℕ) :=
  ⟨0, 2, 4, 3, ⟨fun ix => ix.toNat, fun ix => ix.toNat + 10⟩, .null⟩

def duelSchedule : List (DuelThread Unit) :=
  (List.replicate 6 [.thief (), .owner]).flatten

def duelEnd : DuelState Unit (Cells ℕ ℕ) ℕ ℕ :=
  (((machine Unit (Cells ℕ ℕ) ℕ ℕ).exec (start duelQueue) duelSchedule).getD (start duelQueue))

theorem duelEnd_exactly_once :
    duelEnd.returned = [(1, 1, 11), (0, 0, 10)] ∧ duelEnd.taken.Nodup ∧
      (∀ e ∈ duelEnd.returned, duelQueue.top ≤ e.1 ∧ e.1 < duelQueue.bottom ∧
        e.2 = duelQueue.pairAt e.1) ∧
      (duelEnd.PopReturnsFalse → ∀ i, duelQueue.top ≤ i → i < duelQueue.bottom →
        i ∈ duelEnd.taken) ∧
      (duelEnd.Quiescent → ∀ i, (duelQueue.top ≤ i ∧ i < duelQueue.bottom ∧ i ∉ duelEnd.taken) ↔
        duelEnd.queue.top ≤ i ∧ i < duelEnd.queue.bottom) :=
  ⟨rfl, pop_steal_exactly_once duelQueue (by decide) duelEnd
    (Machine.reach_of_exec duelSchedule rfl)⟩

end DuelState
end ProjectDelta
