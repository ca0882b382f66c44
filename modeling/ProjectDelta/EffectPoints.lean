import ProjectDelta.OwnerThieves

/-!
# When the calls on one queue take effect

The main thread pushes onto the queue of a worker and steals from it; the worker
pops. Pushes and pops do not overlap. `effective` is the queue after exactly the
calls that have taken effect, and every access either leaves it alone or makes one
whole `push`, `pop` or `steal` of `TaskQueue` on it. There is one exception: a
steal can fail although an entry is left, when the worker is about to take that
last entry. The pop then takes effect right before the failed steal; `helped`
remembers that.
-/

namespace ProjectDelta

open DuelState (takeLimit)

variable {τ π : Type}

/-- The call that the main thread is making on a queue. -/
inductive QueueUse (τ π : Type)
  | nothing
  | push (fr : PushPc τ π)
  | steal (fr : StealPc τ π)

/-- An access of the push has been made. -/
def PushPc.started : PushPc τ π → Bool
  | .loadBottom _ _ => false
  | _ => true

/-- The pair of a push that has not found room yet. -/
def PushPc.waiting : PushPc τ π → Option (τ × π)
  | .loadBottom task payload | .loadTop task payload _ => some (task, payload)
  | _ => none

def QueueUse.pushStarted : QueueUse τ π → Bool
  | .push fr => fr.started
  | _ => false

/-- An access of the pop has been made. -/
def PopPc.started : PopPc τ π → Bool
  | .loadBottom => false
  | _ => true

/-- The entry that the pop is left to fetch is the last one, or there is none. -/
def PopPc.afterLast : PopPc τ π → Bool
  | .loadTop _ | .exchangeTop _ _ _ _ => true
  | .loadTask b t | .loadPayload b t _ => t = b
  | _ => false

namespace TaskQueue

/-- The push has taken effect once it has found room. -/
def afterPush (q : TaskQueue (Cells τ π)) : QueueUse τ π → TaskQueue (Cells τ π)
  | .push (.storeTask task payload b) | .push (.storePayload task payload b)
  | .push (.storeBottom task payload b) =>
      ((q.storeTask (q.slotIx b) task).storePayload (q.slotIx b) payload).setBottom (b + 1)
  | _ => q

/-- The queue after the calls that have taken effect. -/
def effective (helped : Bool) (use : QueueUse τ π) (pop : Option (PopPc τ π))
    (q : TaskQueue (Cells τ π)) : TaskQueue (Cells τ π) :=
  let q := q.afterPush use
  (if helped then q.setTop (q.top + 1) else q).setBottom (takeLimit q pop)

/-- The result of the pop, once it has taken effect. -/
def popResult (helped : Bool) (q : TaskQueue (Cells τ π)) : PopPc τ π → Option (Option (τ × π))
  | .loadBottom | .storeBottom _ => none
  | .loadTop b | .exchangeTop b _ _ _ => if helped then some (some (q.pairAt b)) else none
  | .loadTask b t | .loadPayload b t _ =>
      if t = b then if helped then some (some (q.pairAt b)) else none else some (some (q.pairAt b))
  | .restoreEmpty _ | .restoreLost _ => some none
  | .restoreTaken _ task payload => some (some (task, payload))

/-! ### The invariant -/

/-- The locals of the pop agree with the queue. -/
def PopOk (q : TaskQueue (Cells τ π)) : Option (PopPc τ π) → Prop
  | none | some .loadBottom => True
  | some (.storeBottom b) => q.bottom = b + 1
  | some (.loadTop b) => q.bottom = b
  | some (.restoreEmpty b) | some (.restoreLost b) | some (.restoreTaken b _ _) =>
      q.bottom = b ∧ q.top = b + 1
  | some (.loadTask b t) => q.bottom = b ∧ t ≤ b ∧ t ≤ q.top
  | some (.loadPayload b t task) => q.bottom = b ∧ t ≤ b ∧ t ≤ q.top ∧ task = (q.pairAt b).1
  | some (.exchangeTop b t task payload) =>
      q.bottom = b ∧ t = b ∧ t ≤ q.top ∧ (task, payload) = q.pairAt b

/-- The steal that has loaded `t` wins only an entry that no pop has taken. -/
def Claims (helped : Bool) (top limit t : ℤ) : Prop :=
  t ≤ top ∧ (t = top → t < limit ∧ helped = false) ∧ (t ≠ top → limit ≤ top)

def StealOk (helped : Bool) (q : TaskQueue (Cells τ π)) (limit : ℤ) : StealPc τ π → Prop
  | .loadTop => True
  | .loadBottom t => t ≤ q.top ∧ (t ≠ q.top → limit ≤ q.top)
  | .loadTask t => Claims helped q.top limit t
  | .loadPayload t task => Claims helped q.top limit t ∧ task = (q.pairAt t).1
  | .exchangeTop t task payload => Claims helped q.top limit t ∧ (task, payload) = q.pairAt t

/-- What the push has stored so far is in the queue. -/
def PushOk (q : TaskQueue (Cells τ π)) : PushPc τ π → Prop
  | .loadBottom _ _ => True
  | .loadTop _ _ b => b = q.bottom
  | .storeTask _ _ b => b = q.bottom
  | .storePayload task _ b => b = q.bottom ∧ q.storeTask (q.slotIx b) task = q
  | .storeBottom task payload b => b = q.bottom ∧ q.storeTask (q.slotIx b) task = q ∧
      q.storePayload (q.slotIx b) payload = q

def UseOk (helped : Bool) (q : TaskQueue (Cells τ π)) (pop : Option (PopPc τ π)) :
    QueueUse τ π → Prop
  | .nothing => True
  | .push fr => PushOk q fr
  | .steal fr => StealOk helped q (takeLimit q pop) fr

/-- One queue, the pop of its worker and the call of the main thread. -/
structure CallsOk (helped : Bool) (use : QueueUse τ π) (pop : Option (PopPc τ π))
    (q : TaskQueue (Cells τ π)) : Prop where
  top_le : q.top ≤ takeLimit q pop
  popOk : PopOk q pop
  useOk : UseOk helped q pop use
  helped : helped = true → q.top + 1 = takeLimit q pop ∧ ∃ fr, pop = some fr ∧ fr.afterLast = true

variable {helped : Bool} {use : QueueUse τ π} {pop : Option (PopPc τ π)} {q : TaskQueue (Cells τ π)}

theorem afterPush_of_not_started (h : use.pushStarted = false) : q.afterPush use = q := by
  cases use with
  | nothing | steal => rfl
  | push fr =>
      cases fr with
      | loadBottom => rfl
      | _ => cases h

/-- The stores of a push do not reach the fields that the pop reads. -/
theorem takeLimit_congr {q q' : TaskQueue (Cells τ π)} (h : q'.bottom = q.bottom)
    (pop : Option (PopPc τ π)) : takeLimit q' pop = takeLimit q pop := by
  rcases pop with _ | fr
  · exact h
  · cases fr with
    | loadBottom => exact h
    | _ => rfl

theorem bottom_le_takeLimit (h : PopOk q pop) : q.bottom ≤ takeLimit q pop := by
  rcases pop with _ | fr
  · exact le_rfl
  · cases fr with
    | loadBottom => exact le_rfl
    | storeBottom b => exact h.le
    | loadTop b =>
        have hb : q.bottom = b := h
        simp only [takeLimit]
        omega
    | loadTask b t | loadPayload b t task =>
        have hb : q.bottom = b := h.1
        simp only [takeLimit]
        split_ifs <;> omega
    | restoreEmpty b | restoreLost b | restoreTaken b task payload | exchangeTop b t task payload =>
        have hb : q.bottom = b := h.1
        simp only [takeLimit]
        omega

/-! ### Pops -/

/-- No pop is under way, or none that has made an access. -/
theorem takeLimit_of_not_started (h : ∀ fr, pop = some fr → fr.started = false) :
    takeLimit q pop = q.bottom := by
  rcases pop with _ | fr
  · rfl
  · have hfr := h fr rfl
    cases fr with
    | loadBottom => rfl
    | _ => cases hfr

/-- A steal keeps its right to claim while the limit stays above the top. -/
theorem StealOk.of_limit {limit limit' : ℤ} {fr : StealPc τ π} (h : StealOk helped q limit fr)
    (hlt : q.top < limit → q.top < limit') (hle : limit ≤ q.top → limit' ≤ q.top) :
    StealOk helped q limit' fr := by
  have hclaims : ∀ t, Claims helped q.top limit t → Claims helped q.top limit' t := by
    rintro t ⟨h1, h2, h3⟩
    exact ⟨h1, fun he => ⟨he ▸ hlt (he ▸ (h2 he).1), (h2 he).2⟩, fun hne => hle (h3 hne)⟩
  cases fr with
  | loadTop => trivial
  | loadBottom t => exact ⟨h.1, fun hne => hle (h.2 hne)⟩
  | loadTask t => exact hclaims t h
  | loadPayload t task => exact ⟨hclaims t h.1, h.2⟩
  | exchangeTop t task payload => exact ⟨hclaims t h.1, h.2⟩

theorem effective_of_not_started (h : use.pushStarted = false) :
    q.effective helped use pop =
      (if helped then q.setTop (q.top + 1) else q).setBottom (takeLimit q pop) := by
  simp only [effective, afterPush_of_not_started h]

/-- Once the top has moved up to the limit, an earlier loaded top wins nothing. -/
theorem StealOk.of_top_lt {helped' : Bool} {q' : TaskQueue (Cells τ π)} {limit limit' : ℤ}
    {fr : StealPc τ π} (h : StealOk helped q limit fr) (htop : q.top < q'.top)
    (hle : limit' ≤ q'.top) (hpair : ∀ i, q'.pairAt i = q.pairAt i) :
    StealOk helped' q' limit' fr := by
  have hclaims : ∀ t, Claims helped q.top limit t → Claims helped' q'.top limit' t := by
    rintro t ⟨h1, -, -⟩
    exact ⟨by omega, fun he => by omega, fun _ => hle⟩
  cases fr with
  | loadTop => trivial
  | loadBottom t =>
      obtain ⟨h1, -⟩ := h
      exact ⟨by omega, fun _ => hle⟩
  | loadTask t => exact hclaims t h
  | loadPayload t task => exact ⟨hclaims t h.1, by rw [hpair]; exact h.2⟩
  | exchangeTop t task payload => exact ⟨hclaims t h.1, by rw [hpair]; exact h.2⟩

/-- While no push has started, the main thread is stealing or elsewhere. -/
theorem UseOk.of_limit {pop' : Option (PopPc τ π)} {q' : TaskQueue (Cells τ π)}
    (h : UseOk helped q pop use) (hg : use.pushStarted = false) (htop : q'.top = q.top)
    (hpair : ∀ i, q'.pairAt i = q.pairAt i)
    (hlt : q.top < takeLimit q pop → q.top < takeLimit q' pop')
    (hle : takeLimit q pop ≤ q.top → takeLimit q' pop' ≤ q.top) : UseOk helped q' pop' use := by
  cases use with
  | nothing => trivial
  | push fr =>
      cases fr with
      | loadBottom => trivial
      | _ => cases hg
  | steal fr =>
      have hsteal : StealOk helped q (takeLimit q' pop') fr := StealOk.of_limit h hlt hle
      cases fr with
      | loadTop => trivial
      | loadBottom t | loadTask t =>
          simp only [UseOk, StealOk, htop]
          exact hsteal
      | loadPayload t task | exchangeTop t task payload =>
          simp only [UseOk, StealOk, htop, hpair]
          exact hsteal

/-- What one access of a pop does to the queue as it effectively is. -/
def PopStepOk (helped : Bool) (use : QueueUse τ π) (fr : PopPc τ π) (q : TaskQueue (Cells τ π)) :
    TaskQueue (Cells τ π) × (PopPc τ π ⊕ Option (τ × π)) → Prop
  | (q', .inl fr') => ∃ helped', CallsOk helped' use (some fr') q' ∧
      (popResult helped' q' fr' = popResult helped q fr ∧
          q'.effective helped' use (some fr') = q.effective helped use (some fr) ∨
        ∃ r, popResult helped q fr = none ∧ popResult helped' q' fr' = some r ∧
          (q.effective helped use (some fr)).pop = (q'.effective helped' use (some fr'), r))
  | (q', .inr r) => CallsOk false use none q' ∧ popResult helped q fr = some r ∧
      q'.effective false use none = q.effective helped use (some fr)

theorem CallsOk.not_helped {fr : PopPc τ π} (h : CallsOk helped use (some fr) q)
    (hfr : fr.afterLast = false) : helped = false := by
  cases helped with
  | false => rfl
  | true =>
      obtain ⟨-, fr', hfr', hlast⟩ := h.helped rfl
      obtain rfl := Option.some.inj hfr'
      rw [hfr] at hlast
      cases hlast

/-- An access that leaves the queue as it effectively is, up to the bottom. -/
theorem CallsOk.pop_goesOn {fr fr' : PopPc τ π} (h : CallsOk helped use (some fr) q)
    (hg : use.pushStarted = false) (x : ℤ)
    (hlimit : takeLimit (q.setBottom x) (some fr') = takeLimit q (some fr))
    (hok : PopOk (q.setBottom x) (some fr'))
    (hresult : popResult helped (q.setBottom x) fr' = popResult helped q fr)
    (hlast : fr.afterLast = true → fr'.afterLast = true) :
    PopStepOk helped use fr q (q.setBottom x, .inl fr') := by
  refine ⟨helped, ⟨?_, hok, ?_, ?_⟩, .inl ⟨hresult, ?_⟩⟩
  · rw [hlimit]
    exact h.top_le
  · exact h.useOk.of_limit hg rfl (fun _ => rfl) (by rw [hlimit]; exact id) (by rw [hlimit]; exact id)
  · intro hhelped
    obtain ⟨htop, fr₀, hfr, hafter⟩ := h.helped hhelped
    obtain rfl := Option.some.inj hfr
    exact ⟨by rw [hlimit]; exact htop, fr', rfl, hlast hafter⟩
  · rw [effective_of_not_started hg, effective_of_not_started hg, hlimit]
    cases helped <;> rfl

/-- The last access of a pop, which took effect at an earlier one. -/
theorem CallsOk.pop_returns {fr : PopPc τ π} (h : CallsOk helped use (some fr) q)
    (hg : use.pushStarted = false) {x : ℤ} {r : Option (τ × π)}
    (hlimit : takeLimit q (some fr) = x) (hresult : popResult helped q fr = some r)
    (hlast : fr.afterLast = false) : PopStepOk helped use fr q (q.setBottom x, .inr r) := by
  obtain rfl := h.not_helped hlast
  have hlimit' : takeLimit (q.setBottom x) (none : Option (PopPc τ π)) = takeLimit q (some fr) :=
    hlimit.symm
  refine ⟨⟨?_, trivial, ?_, ?_⟩, hresult, ?_⟩
  · rw [hlimit']
    exact h.top_le
  · exact h.useOk.of_limit hg rfl (fun _ => rfl) (by rw [hlimit']; exact id)
      (by rw [hlimit']; exact id)
  · intro hhelped
    cases hhelped
  · rw [effective_of_not_started hg, effective_of_not_started hg, hlimit']
    rfl

/-- The access at which a pop takes effect. -/
theorem pop_takesEffect {fr fr' : PopPc τ π} (hg : use.pushStarted = false) {q' : TaskQueue (Cells τ π)} {r : Option (τ × π)}
    (htop : q'.top ≤ takeLimit q' (some fr')) (hok : PopOk q' (some fr'))
    (huse : UseOk false q' (some fr') use) (hbefore : popResult false q fr = none)
    (hafter : popResult false q' fr' = some r)
    (heffect : (q.setBottom (takeLimit q (some fr))).pop =
      (q'.setBottom (takeLimit q' (some fr')), r)) :
    PopStepOk false use fr q (q', .inl fr') := by
  refine ⟨false, ⟨htop, hok, huse, ?_⟩, .inr ⟨r, hbefore, hafter, ?_⟩⟩
  · intro hhelped
    cases hhelped
  · rw [effective_of_not_started hg, effective_of_not_started hg]
    exact heffect

theorem CallsOk.pop_loadTop {b : ℤ} (h : CallsOk helped use (some (.loadTop b)) q)
    (hg : use.pushStarted = false) :
    PopStepOk helped use (.loadTop b) q (q.popStep (.loadTop b)) := by
  have hb : q.bottom = b := h.popOk
  have hlim : q.top ≤ b + 1 := h.top_le
  rcases lt_trichotomy q.top b with hlt | heq | hgt
  · -- more than one entry: the pop takes the newest without an exchange
    have hfalse : helped = false := by
      cases helped with
      | false => rfl
      | true =>
          have htop : q.top + 1 = b + 1 := (h.helped rfl).1
          omega
    subst hfalse
    have hngt : ¬ q.top > b := by omega
    have hne : q.top ≠ b := by omega
    simp only [popStep, if_neg hngt]
    refine pop_takesEffect (r := some (q.pairAt b)) hg ?_ ⟨hb, hlt.le, le_rfl⟩ ?_ rfl
      (if_neg hne) ?_
    · simp only [takeLimit, if_neg hne]
      exact hlt.le
    · refine h.useOk.of_limit hg rfl (fun _ => rfl) ?_ ?_
      · intro _
        simp only [takeLimit, if_neg hne]
        exact hlt
      · intro hle
        simp only [takeLimit] at hle
        omega
    · simp only [takeLimit, if_neg hne]
      rw [pop_more]
      · simp only [setBottom_setBottom, setBottom_bottom, setBottom_pairAt, Int.add_sub_cancel]
      · simp only [setBottom_top, setBottom_bottom]
        omega
  · have hngt : ¬ q.top > b := by omega
    simp only [popStep, if_neg hngt]
    refine h.pop_goesOn hg q.bottom ?_ ⟨hb, heq.le, le_rfl⟩ ?_ ?_
    · simp only [takeLimit, if_pos heq]
    · simp only [popResult, if_pos heq, setBottom_pairAt]
    · intro _
      exact decide_eq_true heq
  · have hfalse : helped = false := by
      cases helped with
      | false => rfl
      | true =>
          have htop : q.top + 1 = b + 1 := (h.helped rfl).1
          omega
    subst hfalse
    simp only [popStep, if_pos hgt]
    refine pop_takesEffect (r := none) hg hlim ⟨hb, by omega⟩ ?_ rfl rfl ?_
    · exact h.useOk.of_limit hg rfl (fun _ => rfl) id id
    · rw [pop_empty]
      · rfl
      · simp only [setBottom_top, setBottom_bottom, takeLimit]
        omega

theorem CallsOk.pop_exchangeTop {b t : ℤ} {task : τ} {payload : π}
    (h : CallsOk helped use (some (.exchangeTop b t task payload)) q)
    (hg : use.pushStarted = false) :
    PopStepOk helped use (.exchangeTop b t task payload) q
      (q.popStep (.exchangeTop b t task payload)) := by
  obtain ⟨hb, rfl, hle, hpair⟩ := h.popOk
  have hlim : q.top ≤ t + 1 := h.top_le
  by_cases htop : q.top = t
  · -- the exchange moves the top past every top that a steal has loaded
    have huse : UseOk false (q.setTop (t + 1)) (some (.restoreTaken t task payload)) use := by
      cases use with
      | nothing => trivial
      | push fr =>
          cases fr with
          | loadBottom => trivial
          | _ => cases hg
      | steal fr =>
          have hsteal : StealOk helped q (t + 1) fr := h.useOk
          exact hsteal.of_top_lt (by rw [setTop_top]; omega) le_rfl fun _ => rfl
    simp only [popStep, q.compareExchangeTop_eq (t + 1) htop, if_true]
    cases helped with
    | true =>
        refine ⟨false, ⟨le_rfl, ⟨hb, rfl⟩, huse, ?_⟩, .inl ⟨?_, ?_⟩⟩
        · intro hhelped
          cases hhelped
        · simp only [popResult, if_true, hpair]
        · rw [effective_of_not_started hg, effective_of_not_started hg]
          simp only [takeLimit, if_true, htop]
          rfl
    | false =>
        refine pop_takesEffect (r := some (task, payload)) hg le_rfl ⟨hb, rfl⟩ huse rfl rfl ?_
        rw [pop_last]
        · rw [hpair, ← htop]
          rfl
        · simp only [setBottom_top, setBottom_bottom, htop, takeLimit]
  · -- a steal has taken the last entry
    have hfalse : helped = false := by
      cases helped with
      | false => rfl
      | true =>
          have hlast : q.top + 1 = t + 1 := (h.helped rfl).1
          omega
    subst hfalse
    simp only [popStep, q.compareExchangeTop_ne (t + 1) htop, Bool.false_eq_true, if_false]
    refine pop_takesEffect (r := none) hg hlim ⟨hb, by omega⟩ ?_ rfl rfl ?_
    · exact h.useOk.of_limit hg rfl (fun _ => rfl) id id
    · rw [pop_empty]
      · rfl
      · simp only [setBottom_top, setBottom_bottom, takeLimit]
        omega

/-- Every access of a pop leaves the queue as it effectively is, or makes one whole pop on it. -/
theorem CallsOk.pop_step {fr : PopPc τ π} (h : CallsOk helped use (some fr) q)
    (hg : use.pushStarted = false) : PopStepOk helped use fr q (q.popStep fr) := by
  cases fr with
  | loadBottom =>
      refine h.pop_goesOn hg q.bottom ?_ ?_ rfl ?_
      · simp only [takeLimit, Int.sub_add_cancel]
      · simp only [PopOk, setBottom_bottom, Int.sub_add_cancel]
      · intro hlast
        cases hlast
  | storeBottom b =>
      have hfalse : helped = false := h.not_helped rfl
      subst hfalse
      exact h.pop_goesOn hg b rfl rfl rfl fun hlast => by cases hlast
  | loadTop b => exact h.pop_loadTop hg
  | restoreEmpty b => exact h.pop_returns hg rfl rfl rfl
  | restoreLost b => exact h.pop_returns hg rfl rfl rfl
  | restoreTaken b task payload => exact h.pop_returns hg rfl rfl rfl
  | loadTask b t =>
      obtain ⟨hb, hle, htop⟩ := h.popOk
      exact h.pop_goesOn hg q.bottom rfl ⟨hb, hle, htop, rfl⟩ rfl id
  | loadPayload b t task =>
      obtain ⟨hb, hle, htop, rfl⟩ := h.popOk
      by_cases hlast : t = b
      · simp only [popStep, if_pos hlast]
        refine h.pop_goesOn hg q.bottom ?_ ⟨hb, hlast, htop, rfl⟩ ?_ fun _ => rfl
        · simp only [takeLimit, if_pos hlast]
        · simp only [popResult, if_pos hlast]
          rfl
      · simp only [popStep, if_neg hlast]
        have hreturns := h.pop_returns (x := b) (r := some (q.pairAt b)) hg
          (by simp only [takeLimit, if_neg hlast]) (if_neg hlast) (decide_eq_false hlast)
        rwa [← hb, setBottom_self, hb] at hreturns
  | exchangeTop b t task payload => exact h.pop_exchangeTop hg

/-! ### Steals -/

/-- The main thread goes on to another point of its call. -/
theorem CallsOk.withUse {use' : QueueUse τ π} (h : CallsOk helped use pop q)
    (hok : UseOk helped q pop use') : CallsOk helped use' pop q :=
  ⟨h.top_le, h.popOk, hok, h.helped⟩

/-- What one access of a steal does to the queue as it effectively is. When the last entry is about
to be popped, the pop takes effect before the steal that fails. -/
def StealStepOk (helped : Bool) (pop : Option (PopPc τ π)) (fr : StealPc τ π)
    (q : TaskQueue (Cells τ π)) : TaskQueue (Cells τ π) × (StealPc τ π ⊕ Option (τ × π)) → Prop
  | (q', .inl fr') => q' = q ∧ CallsOk helped (.steal fr') pop q
  | (q', .inr r) =>
      CallsOk helped .nothing pop q' ∧ (∀ i, q'.pairAt i = q.pairAt i) ∧
          (q.effective helped .nothing pop).steal = (q'.effective helped .nothing pop, r) ∨
        helped = false ∧ q' = q ∧ r = none ∧ CallsOk true (.steal fr) pop q ∧
          (∃ fr, pop = some fr ∧ popResult false q fr = none ∧
            popResult true q fr = some (some (q.pairAt q.top))) ∧
          (q.effective false .nothing pop).pop =
            (q.effective true .nothing pop, some (q.pairAt q.top)) ∧
          (q.effective true .nothing pop).steal = (q.effective true .nothing pop, none)

/-- An access of the steal that only reads. -/
theorem CallsOk.steal_goesOn {fr fr' : StealPc τ π} (h : CallsOk helped (.steal fr) pop q)
    (hok : StealOk helped q (takeLimit q pop) fr') :
    StealStepOk helped pop fr q (q, .inl fr') := ⟨rfl, h.withUse hok⟩

/-- A steal that fails on an empty queue. -/
theorem CallsOk.steal_fails {fr : StealPc τ π} (h : CallsOk helped (.steal fr) pop q)
    (hempty : helped = false → takeLimit q pop ≤ q.top) :
    StealStepOk helped pop fr q (q, .inr none) := by
  refine .inl ⟨h.withUse trivial, fun _ => rfl, ?_⟩
  rw [effective_of_not_started (by rfl)]
  cases helped with
  | false => exact steal_empty _ (hempty rfl)
  | true =>
      have hlast : q.top + 1 = takeLimit q pop := (h.helped rfl).1
      exact steal_empty _ hlast.ge

/-- The pop that is about to take the last entry. -/
theorem CallsOk.pop_of_bottom_le (h : CallsOk helped use pop q) (hb : q.bottom ≤ q.top)
    (hlt : q.top < takeLimit q pop) :
    q.top + 1 = takeLimit q pop ∧ ∃ fr, pop = some fr ∧ fr.afterLast = true ∧
      popResult false q fr = none ∧ popResult true q fr = some (some (q.pairAt q.top)) := by
  have hok := h.popOk
  rcases pop with _ | fr
  · simp only [takeLimit] at hlt
    omega
  · cases fr with
    | loadBottom =>
        simp only [takeLimit] at hlt
        omega
    | storeBottom b =>
        simp only [takeLimit, PopOk] at hlt hok
        omega
    | restoreEmpty b | restoreLost b | restoreTaken b task payload =>
        simp only [takeLimit, PopOk] at hlt hok
        omega
    | loadTop b =>
        simp only [takeLimit, PopOk] at hlt hok
        obtain rfl : q.top = b := by omega
        exact ⟨rfl, .loadTop q.top, rfl, rfl, rfl, rfl⟩
    | exchangeTop b t task payload =>
        simp only [takeLimit, PopOk] at hlt hok
        obtain rfl : q.top = b := by omega
        exact ⟨rfl, .exchangeTop q.top t task payload, rfl, rfl, rfl, rfl⟩
    | loadTask b t =>
        simp only [takeLimit, PopOk] at hlt hok
        split_ifs at hlt with hlast
        · obtain rfl : q.top = b := by omega
          exact ⟨(if_pos hlast).symm, .loadTask q.top t, rfl, decide_eq_true hlast, if_pos hlast,
            if_pos hlast⟩
        · omega
    | loadPayload b t task =>
        simp only [takeLimit, PopOk] at hlt hok
        split_ifs at hlt with hlast
        · obtain rfl : q.top = b := by omega
          exact ⟨(if_pos hlast).symm, .loadPayload q.top t task, rfl, decide_eq_true hlast,
            if_pos hlast, if_pos hlast⟩
        · omega

/-- A steal that sees no entry although the worker has yet to take the last one. -/
theorem CallsOk.steal_helps {t : ℤ} (h : CallsOk false (.steal (.loadBottom t)) pop q)
    (hb : q.bottom ≤ q.top) (hlt : q.top < takeLimit q pop) :
    StealStepOk false pop (.loadBottom t) q (q, .inr none) := by
  obtain ⟨hlast, fr', hpop, hafter, hbefore, htaken⟩ := h.pop_of_bottom_le hb hlt
  refine .inr ⟨rfl, rfl, rfl, ⟨h.top_le, h.popOk, h.useOk, ?_⟩, ⟨fr', hpop, hbefore, htaken⟩, ?_, ?_⟩
  · intro _
    exact ⟨hlast, fr', hpop, hafter⟩
  · rw [effective_of_not_started (by rfl), effective_of_not_started (by rfl)]
    exact pop_last _ hlast
  · rw [effective_of_not_started (by rfl)]
    exact steal_empty _ hlast.ge

/-- The pop goes on as before when a steal moves the top. -/
theorem PopOk.setTop (h : PopOk q pop) (hlt : q.top < takeLimit q pop) :
    PopOk (q.setTop (q.top + 1)) pop := by
  rcases pop with _ | fr
  · trivial
  · cases fr with
    | loadBottom => trivial
    | storeBottom b | loadTop b => exact h
    | restoreEmpty b | restoreLost b | restoreTaken b task payload =>
        simp only [takeLimit, PopOk] at hlt h
        omega
    | loadTask b t =>
        obtain ⟨hb, hle, htop⟩ := h
        exact ⟨hb, hle, by rw [setTop_top]; omega⟩
    | loadPayload b t task =>
        obtain ⟨hb, hle, htop, htask⟩ := h
        exact ⟨hb, hle, by rw [setTop_top]; omega, htask⟩
    | exchangeTop b t task payload =>
        obtain ⟨hb, hle, htop, hpair⟩ := h
        exact ⟨hb, hle, by rw [setTop_top]; omega, hpair⟩

theorem CallsOk.steal_exchangeTop {t : ℤ} {task : τ} {payload : π}
    (h : CallsOk helped (.steal (.exchangeTop t task payload)) pop q) :
    StealStepOk helped pop (.exchangeTop t task payload) q
      (q.stealStep (.exchangeTop t task payload)) := by
  obtain ⟨⟨hle, heq, hne⟩, hpair⟩ := h.useOk
  by_cases htop : q.top = t
  · obtain ⟨hlt, rfl⟩ := heq htop.symm
    have hlimit : takeLimit (q.setTop (t + 1)) pop = takeLimit q pop := takeLimit_congr rfl pop
    simp only [stealStep, q.compareExchangeTop_eq (t + 1) htop, if_true]
    refine .inl ⟨⟨?_, ?_, trivial, ?_⟩, fun _ => rfl, ?_⟩
    · rw [hlimit]
      exact hlt
    · rw [← htop]
      exact h.popOk.setTop (by omega)
    · intro hhelped
      cases hhelped
    · rw [effective_of_not_started (by rfl), effective_of_not_started (by rfl), hlimit, hpair, ← htop]
      have hmore : q.top < takeLimit q pop := by omega
      exact steal_oldest _ hmore
  · have hempty : takeLimit q pop ≤ q.top := hne (Ne.symm htop)
    simp only [stealStep, q.compareExchangeTop_ne (t + 1) htop, Bool.false_eq_true, if_false]
    exact h.steal_fails fun _ => hempty

/-- Every access of a steal leaves the queue as it effectively is, or makes one whole steal on it,
perhaps after the pop that is under way. -/
theorem CallsOk.steal_step {fr : StealPc τ π} (h : CallsOk helped (.steal fr) pop q) :
    StealStepOk helped pop fr q (q.stealStep fr) := by
  have huse : StealOk helped q (takeLimit q pop) fr := h.useOk
  have hbottom := bottom_le_takeLimit h.popOk
  cases fr with
  | loadTop => exact h.steal_goesOn ⟨le_rfl, fun hne => absurd rfl hne⟩
  | loadTask t => exact h.steal_goesOn ⟨huse, rfl⟩
  | loadPayload t task =>
      obtain ⟨hclaims, rfl⟩ := huse
      exact h.steal_goesOn ⟨hclaims, rfl⟩
  | exchangeTop t task payload => exact h.steal_exchangeTop
  | loadBottom t =>
      obtain ⟨hle, hstale⟩ := huse
      by_cases hge : t ≥ q.bottom
      · simp only [stealStep, if_pos hge]
        cases helped with
        | true => exact h.steal_fails fun hfalse => by cases hfalse
        | false =>
            rcases lt_or_ge q.top (takeLimit q pop) with hlt | hempty
            · exact h.steal_helps (by omega) hlt
            · exact h.steal_fails fun _ => hempty
      · simp only [stealStep, if_neg hge]
        refine h.steal_goesOn ⟨hle, fun heq => ⟨by omega, ?_⟩, hstale⟩
        -- a helped pop leaves no bottom above the top
        cases helped with
        | false => rfl
        | true =>
            obtain ⟨hlast, fr, rfl, hafter⟩ := h.helped rfl
            have hok := h.popOk
            cases fr <;> simp only [PopPc.afterLast, Bool.false_eq_true, decide_eq_true_eq] at hafter <;>
              simp only [takeLimit, PopOk] at hlast hok <;> (try split_ifs at hlast) <;> omega

/-! ### Pushes -/

theorem CallsOk.not_helped_of_not_started (h : CallsOk helped use pop q)
    (hpop : ∀ fr, pop = some fr → fr.started = false) : helped = false := by
  cases helped with
  | false => rfl
  | true =>
      obtain ⟨-, fr, hfr, hafter⟩ := h.helped rfl
      have hstarted := hpop fr hfr
      cases fr with
      | loadBottom => cases hafter
      | _ => cases hstarted

/-- The worker enters a pop. -/
theorem CallsOk.enterPop (h : CallsOk helped use none q) :
    CallsOk helped use (some .loadBottom) q where
  top_le := h.top_le
  popOk := trivial
  useOk := by
    cases use with
    | nothing => trivial
    | push fr => exact h.useOk
    | steal fr => exact h.useOk
  helped hhelped := by
    obtain ⟨-, fr, hfr, -⟩ := h.helped hhelped
    cases hfr

theorem popResult_congr {q q' : TaskQueue (Cells τ π)} (hpair : ∀ i, q'.pairAt i = q.pairAt i)
    (fr : PopPc τ π) : popResult helped q' fr = popResult helped q fr := by
  cases fr <;> simp only [popResult, hpair]

/-- What one access of a push does to the queue as it effectively is, while no pop is under way. -/
def PushStepOk (pop : Option (PopPc τ π)) (fr : PushPc τ π) (q : TaskQueue (Cells τ π)) :
    TaskQueue (Cells τ π) × (PushPc τ π ⊕ Option (τ × π)) → Prop
  | (q', .inl fr') => CallsOk false (.push fr') pop q' ∧
      (fr'.waiting = fr.waiting ∧
          q'.effective false (.push fr') pop = q.effective false (.push fr) pop ∨
        ∃ p, fr.waiting = some p ∧ fr'.waiting = none ∧
          (q.effective false (.push fr) pop).push p.1 p.2 =
            (q'.effective false (.push fr') pop, none))
  | (q', .inr r) => CallsOk false .nothing pop q' ∧
      ((∃ p, fr.waiting = some p ∧ (q.effective false (.push fr) pop).push p.1 p.2 =
          (q'.effective false .nothing pop, r)) ∨
        fr.waiting = none ∧ r = none ∧
          q'.effective false .nothing pop = q.effective false (.push fr) pop)

theorem popOk_of_not_started (h : ∀ fr, pop = some fr → fr.started = false) : PopOk q pop := by
  rcases pop with _ | fr
  · trivial
  · have hfr := h fr rfl
    cases fr with
    | loadBottom => trivial
    | _ => cases hfr

/-- No pop is under way: the queue is as it is, up to the push. -/
theorem effective_push (h : ∀ fr, pop = some fr → fr.started = false) (use : QueueUse τ π) :
    q.effective false use pop = q.afterPush use := by
  rw [effective, takeLimit_of_not_started h]
  rfl

theorem afterPush_of_waiting {fr : PushPc τ π} {p : τ × π} (h : fr.waiting = some p) :
    q.afterPush (.push fr) = q := by
  cases fr with
  | loadBottom | loadTop => rfl
  | _ => cases h

/-- With no pop under way, the invariant only says what the push has done. -/
theorem callsOk_push (h : ∀ fr, pop = some fr → fr.started = false) (hle : q.top ≤ q.bottom)
    (hok : UseOk false q pop use) : CallsOk false use pop q where
  top_le := by
    rw [takeLimit_of_not_started h]
    exact hle
  popOk := popOk_of_not_started h
  useOk := hok
  helped hhelped := by cases hhelped

theorem storeTask_idem (q : TaskQueue (Cells τ π)) (ix : ℤ) (task : τ) :
    (q.storeTask ix task).storeTask ix task = q.storeTask ix task := by
  simp only [TaskQueue.storeTask, SlotMemory.storeTask, Function.update_idem]

theorem storePayload_idem (q : TaskQueue (Cells τ π)) (ix : ℤ) (payload : π) :
    (q.storePayload ix payload).storePayload ix payload = q.storePayload ix payload := by
  simp only [TaskQueue.storePayload, SlotMemory.storePayload, Function.update_idem]

/-- Every access of a push leaves the queue as it effectively is, or makes one whole push on it. -/
theorem CallsOk.push_step {fr : PushPc τ π} (h : CallsOk false (.push fr) pop q)
    (hpop : ∀ fr, pop = some fr → fr.started = false) : PushStepOk pop fr q (q.pushStep fr) := by
  have hok : PushOk q fr := h.useOk
  have hle : q.top ≤ q.bottom := takeLimit_of_not_started hpop ▸ h.top_le
  cases fr with
  | loadBottom task payload =>
      refine ⟨callsOk_push hpop hle rfl, .inl ⟨rfl, ?_⟩⟩
      rw [effective_push hpop, effective_push hpop]
      rfl
  | loadTop task payload b =>
      obtain rfl : b = q.bottom := hok
      by_cases hfull : q.bottom - q.top > q.size
      · simp only [pushStep, if_pos hfull]
        refine ⟨callsOk_push hpop hle trivial, .inl ⟨(task, payload), rfl, ?_⟩⟩
        rw [effective_push hpop, effective_push hpop]
        exact push_full q task payload hfull
      · simp only [pushStep, if_neg hfull]
        refine ⟨callsOk_push hpop hle rfl, .inr ⟨(task, payload), rfl, rfl, ?_⟩⟩
        rw [effective_push hpop, effective_push hpop]
        exact push_room q task payload hfull
  | storeTask task payload b =>
      obtain rfl : b = q.bottom := hok
      have hidem := q.storeTask_idem (q.slotIx q.bottom) task
      refine ⟨callsOk_push hpop hle ⟨rfl, hidem⟩, .inl ⟨rfl, ?_⟩⟩
      rw [effective_push hpop, effective_push hpop, afterPush, afterPush]
      exact congrArg (fun q' : TaskQueue (Cells τ π) =>
        (q'.storePayload (q.slotIx q.bottom) payload).setBottom (q.bottom + 1)) hidem
  | storePayload task payload b =>
      obtain ⟨rfl, htask⟩ := hok
      have hidem := q.storePayload_idem (q.slotIx q.bottom) payload
      have htask' := congrArg (fun q' => q'.storePayload (q.slotIx q.bottom) payload) htask
      refine ⟨callsOk_push hpop hle ⟨rfl, htask', hidem⟩, .inl ⟨rfl, ?_⟩⟩
      rw [effective_push hpop, effective_push hpop, afterPush, afterPush]
      -- the two arrays are apart, and storing a payload twice is storing it once
      have hcommute : (((q.storePayload (q.slotIx q.bottom) payload).storeTask (q.slotIx q.bottom)
          task).storePayload (q.slotIx q.bottom) payload) =
          (q.storeTask (q.slotIx q.bottom) task).storePayload (q.slotIx q.bottom) payload :=
        (q.storeTask (q.slotIx q.bottom) task).storePayload_idem (q.slotIx q.bottom) payload
      exact congrArg (fun q' : TaskQueue (Cells τ π) => q'.setBottom (q.bottom + 1)) hcommute
  | storeBottom task payload b =>
      obtain ⟨rfl, htask, hpayload⟩ := hok
      refine ⟨callsOk_push hpop ?_ trivial, .inr ⟨rfl, rfl, ?_⟩⟩
      · rw [setBottom_top, setBottom_bottom]
        omega
      · have hpushed : q.afterPush (.push (.storeBottom task payload q.bottom)) =
            ((q.storeTask (q.slotIx q.bottom) task).storePayload (q.slotIx q.bottom) payload).setBottom
              (q.bottom + 1) := rfl
        rw [effective_push hpop, effective_push hpop, hpushed, htask, hpayload]
        rfl

end TaskQueue
end ProjectDelta
