import ProjectDelta.Startup

/-!
# Every context has one thread

The arenas and the queue of a context are used without locks, which is right as long as
no two threads have it in `tl_CurrentThreadContext`. `Initialize` reads the context of
its caller and of each worker from `g_ThreadContexts`, a global that another call of
`Initialize` overwrites. As long as no call starts inside another one, whatever pools are
reserved and released meanwhile, each context belongs to one thread. The pointers are
apart too, unless a pool lies where another one has been.
-/

namespace ProjectDelta
namespace Lifecycle

def poolOf (s : Lifecycle) (generation : ℕ) : Option MasterPool :=
  (s.pools generation).map PoolState.pool

/-- `c` is a context of a pool that has been laid out. -/
def Known (s : Lifecycle) (c : ContextRef) : Prop :=
  ∃ pool, s.poolOf c.generation = some pool ∧ c.ix < pool.count

/-- The address of a context, from the pool that it belongs to. -/
def addressOf (s : Lifecycle) (c : ContextRef) : Option (BitVec 64) :=
  (s.poolOf c.generation).map fun pool =>
    getExecutionContext pool.contexts.threadContexts (BitVec.ofNat 64 c.ix)

/-- The pointer in `tl_CurrentThreadContext`. -/
def currentThreadContext (s : Lifecycle) (t : EngineThread) : Option (BitVec 64) :=
  (s.current t).bind s.addressOf

/-- No context array overlaps another one, also not that of a pool that has been released. -/
def ArraysApart (s : Lifecycle) : Prop :=
  ∀ g g' pool pool', s.poolOf g = some pool → s.poolOf g' = some pool' → g ≠ g' →
    pool.contexts.contextArray.Disjoint pool'.contexts.contextArray

/-- `Initialize` is not called while another call of it runs. -/
def OneAtATime (s : Lifecycle) : LifecycleMove → Prop
  | .engineInitialize _ _ => ∀ t, s.pending t = []
  | _ => True

structure Owners (s : Lifecycle) : Prop where
  unused : ∀ generation, s.reservations ≤ generation → s.poolOf generation = none
  started : ∀ c ∈ s.started, c.ix ≠ 0 ∧ s.Known c
  nodup : s.started.Nodup
  current : ∀ t c, s.current t = some c →
    s.Known c ∧ (c.ix ≠ 0 → t = .worker c.generation c.ix ∧ c ∈ s.started)
  unique : ∀ t t' c, s.current t = some c → s.current t' = some c → t = t'

/-- Thread `t` is inside an `Initialize` for the newest pool, or was the last to be, with `steps` of
it still to come. -/
structure Running (t : EngineThread) (generation : ℕ) (steps : List InitStep) (s : Lifecycle) :
    Prop where
  newest : s.reservations = generation + 1
  alone : ∀ t', t' ≠ t → s.pending t' = []
  inOrder : ∃ published entered, InOrder generation published entered steps ∧
    (published = true → s.threadContexts = some generation)
  mainContext : ∀ t', t' ≠ t → s.current t' ≠ some ⟨generation, 0⟩
  pool : ∃ pool, s.poolOf generation = some pool ∧ ∀ ix ∈ toStart steps, ix ≠ 0 ∧ ix < pool.count
  nodup : (s.started ++ (toStart steps).map (ContextRef.mk generation)).Nodup

/-- Between the calls of `Initialize`, or inside one. -/
structure Owned (s : Lifecycle) : Prop where
  owners : s.Owners
  phase : (∀ t, s.pending t = []) ∨ ∃ t generation, Running t generation (s.pending t) s

variable {asserts : Bool} {s s' : Lifecycle} {t : EngineThread} {generation : ℕ}
  {steps : List InitStep}

/-! ### Moves that leave the contexts alone -/

structure SameOwners (s s' : Lifecycle) : Prop where
  poolOf : s'.poolOf = s.poolOf
  reservations : s'.reservations = s.reservations
  threadContexts : s'.threadContexts = s.threadContexts
  current : s'.current = s.current
  pending : s'.pending = s.pending
  started : s'.started = s.started

theorem SameOwners.known (h : SameOwners s s') (c : ContextRef) : s'.Known c ↔ s.Known c := by
  unfold Known
  rw [h.poolOf]

theorem SameOwners.owners (h : SameOwners s s') (ho : s.Owners) : s'.Owners := by
  refine ⟨?_, ?_, ?_, ?_, ?_⟩
  · rw [h.poolOf, h.reservations]
    exact ho.unused
  · intro c hc
    rw [h.started] at hc
    rw [h.known]
    exact ho.started c hc
  · rw [h.started]
    exact ho.nodup
  · intro t c hc
    rw [h.current] at hc
    rw [h.known, h.started]
    exact ho.current t c hc
  · rw [h.current]
    exact ho.unique

theorem SameOwners.running (h : SameOwners s s') (hr : Running t generation steps s) :
    Running t generation steps s' := by
  refine ⟨?_, ?_, ?_, ?_, ?_, ?_⟩
  · rw [h.reservations, hr.newest]
  · rw [h.pending]
    exact hr.alone
  · rw [h.threadContexts]
    exact hr.inOrder
  · rw [h.current]
    exact hr.mainContext
  · rw [h.poolOf]
    exact hr.pool
  · rw [h.started]
    exact hr.nodup

theorem SameOwners.owned (h : SameOwners s s') (ho : s.Owned) : s'.Owned := by
  refine ⟨h.owners ho.owners, ?_⟩
  rw [h.pending]
  rcases ho.phase with hquiet | ⟨t, generation, hr⟩
  · exact Or.inl hquiet
  · exact Or.inr ⟨t, generation, h.running hr⟩

/-- Neither an arena nor the release of a pool changes which contexts there are. -/
theorem sameOwners_setPool {p p' : PoolState} (hp : s.pools generation = some p)
    (hpool : p'.pool = p.pool) : SameOwners s (s.setPool generation p') := by
  refine ⟨?_, rfl, rfl, rfl, rfl, rfl⟩
  funext g
  by_cases hg : g = generation
  · subst hg
    simp only [poolOf, pools_setPool_self, hp, Option.map_some, hpool]
  · simp only [poolOf, Lifecycle.setPool, Function.update_of_ne hg]

theorem SameOwners.refl (s : Lifecycle) : SameOwners s s := ⟨rfl, rfl, rfl, rfl, rfl, rfl⟩

theorem AllocateMove.sameOwners {size : BitVec 64} {type : AllocationType} {alignment : BitVec 64}
    {answer : SystemAnswer} (h : AllocateMove asserts s t size type alignment answer s') :
    SameOwners s s' := by
  cases h with
  | malloc | stale | refused => exact ⟨rfl, rfl, rfl, rfl, rfl, rfl⟩
  | @arena c p r hc hp =>
      have hsame := sameOwners_setPool hp (setArena_pool p type c.ix r.arena)
      exact { hsame with }

theorem sameOwners_release (s : Lifecycle) : SameOwners s s.release := by
  unfold Lifecycle.release
  split
  · exact .refl s
  · split
    · exact .refl s
    · rename_i p hp
      exact sameOwners_setPool hp rfl

/-! ### Steps of `Initialize` -/

/-- A thread takes a context that no other thread has. -/
theorem Owners.setCurrent (ho : s.Owners) {c : ContextRef}
    (hc : s.Known c ∧ (c.ix ≠ 0 → t = .worker c.generation c.ix ∧ c ∈ s.started))
    (hfree : ∀ t', t' ≠ t → s.current t' ≠ some c) : (s.setCurrent t c).Owners := by
  have hself := current_setCurrent_self s t c
  have hother : ∀ t', t' ≠ t → (s.setCurrent t c).current t' = s.current t' :=
    fun t' hne => current_setCurrent_of_ne s c hne
  have hmine : ∀ t' c', t' ≠ t → (s.setCurrent t c).current t = some c' →
      (s.setCurrent t c).current t' ≠ some c' := by
    intro t' c' hne h h'
    obtain rfl := Option.some.inj (hself.symm.trans h)
    exact hfree t' hne ((hother t' hne).symm.trans h')
  refine { ho with current := ?_, unique := ?_ }
  · intro t' c' hc'
    by_cases ht : t' = t
    · subst ht
      obtain rfl := Option.some.inj (hself.symm.trans hc')
      exact hc
    · exact ho.current t' c' ((hother t' ht).symm.trans hc')
  · intro t₁ t₂ c' h₁ h₂
    by_cases ht₁ : t₁ = t
    · subst ht₁
      by_contra hne
      exact hmine t₂ c' (Ne.symm hne) h₁ h₂
    · by_cases ht₂ : t₂ = t
      · subst ht₂
        exact absurd h₁ (hmine t₁ c' ht₁ h₂)
      · rw [hother t₁ ht₁] at h₁
        rw [hother t₂ ht₂] at h₂
        exact ho.unique t₁ t₂ c' h₁ h₂

/-- The main context goes to the thread that is inside `Initialize`. -/
theorem Running.setCurrent {rest : List InitStep} (h : Running t generation (.setCurrent :: rest) s)
    (ho : s.Owners) : (s.setCurrent t ⟨generation, 0⟩).Owners ∧
      Running t generation rest (s.setCurrent t ⟨generation, 0⟩) := by
  obtain ⟨published, entered, ⟨-, horder⟩, hpublished⟩ := h.inOrder
  obtain ⟨pool, hpool, hworkers⟩ := h.pool
  refine ⟨?_, { h with inOrder := ⟨published, true, horder, hpublished⟩, mainContext := ?_ }⟩
  · exact ho.setCurrent ⟨⟨pool, hpool, pool.count_pos⟩, fun hne => absurd rfl hne⟩ h.mainContext
  · intro t' hne hc
    exact h.mainContext t' hne ((current_setCurrent_of_ne s _ hne).symm.trans hc)

theorem Running.startThread {ix : ℕ} {rest : List InitStep}
    (h : Running t generation (.startThread ix :: rest) s) (ho : s.Owners) :
    Owners { s with started := ⟨generation, ix⟩ :: s.started } ∧
      Running t generation rest { s with started := ⟨generation, ix⟩ :: s.started } := by
  obtain ⟨published, entered, ⟨-, horder⟩, hpublished⟩ := h.inOrder
  obtain ⟨pool, hpool, hworkers⟩ := h.pool
  obtain ⟨⟨hix, hlt⟩, hrest⟩ := List.forall_mem_cons.mp hworkers
  have hnodup : (⟨generation, ix⟩ ::
      (s.started ++ (toStart rest).map (ContextRef.mk generation))).Nodup :=
    List.nodup_middle.mp h.nodup
  refine ⟨{ ho with started := ?_, nodup := ?_, current := ?_ }, ?_⟩
  · exact List.forall_mem_cons.mpr ⟨⟨hix, pool, hpool, hlt⟩, ho.started⟩
  · exact hnodup.sublist (List.Sublist.cons_cons _ (List.sublist_append_left _ _))
  · intro t' c hc
    obtain ⟨hknown, hworker⟩ := ho.current t' c hc
    exact ⟨hknown, fun hne => ⟨(hworker hne).1, List.mem_cons_of_mem _ (hworker hne).2⟩⟩
  · exact { h with
      inOrder := ⟨published, entered, horder, hpublished⟩
      pool := ⟨pool, hpool, hrest⟩
      nodup := hnodup }

/-- What a step of `Initialize` does, and whose context it sets. -/
theorem Running.runInitStep {step : InitStep} {rest : List InitStep} {answer : SystemAnswer}
    (h : Running t generation (step :: rest) s) (ho : s.Owners)
    (hrun : s.runInitStep asserts t answer step = some s') :
    s'.Owners ∧ Running t generation rest s' ∧ s'.pending = s.pending ∧
      ∀ t', s'.current t' = s.current t' ∨ t' = t ∧ s'.current t' = some ⟨generation, 0⟩ := by
  obtain ⟨published, entered, horder, hpublished⟩ := h.inOrder
  cases step with
  | setSlabStart address | setSlabEnd address =>
      obtain rfl := Option.some.inj hrun
      exact ⟨{ ho with }, { h with inOrder := ⟨published, entered, horder, hpublished⟩ }, rfl,
        fun _ => Or.inl rfl⟩
  | setThreadContexts g =>
      obtain ⟨rfl, horder⟩ := horder
      obtain rfl := Option.some.inj hrun
      exact ⟨{ ho with }, { h with inOrder := ⟨true, entered, horder, fun _ => rfl⟩ }, rfl,
        fun _ => Or.inl rfl⟩
  | allocate size type =>
      have hsame := (engineAllocate_move hrun).sameOwners
      have hrest : Running t generation rest s :=
        { h with inOrder := ⟨published, entered, horder, hpublished⟩ }
      refine ⟨hsame.owners ho, hsame.running hrest, hsame.pending, fun t' => Or.inl ?_⟩
      rw [hsame.current]
  | setCurrent =>
      obtain ⟨hpub, -⟩ := horder
      obtain ⟨g, hg, rfl⟩ := Option.map_eq_some_iff.mp hrun
      obtain rfl := Option.some.inj (hg.symm.trans (hpublished hpub))
      obtain ⟨howners, hrest⟩ := h.setCurrent ho
      refine ⟨howners, hrest, rfl, fun t' => ?_⟩
      by_cases ht : t' = t
      · subst ht
        exact Or.inr ⟨rfl, current_setCurrent_self s t' _⟩
      · exact Or.inl (current_setCurrent_of_ne s _ ht)
  | startThread ix =>
      obtain ⟨hpub, -⟩ := horder
      obtain ⟨g, hg, rfl⟩ := Option.map_eq_some_iff.mp hrun
      obtain rfl := Option.some.inj (hg.symm.trans (hpublished hpub))
      obtain ⟨howners, hrest⟩ := h.startThread ho
      exact ⟨howners, hrest, rfl, fun _ => Or.inl rfl⟩

/-! ### Every move -/

/-- A call of `Initialize` while none runs. -/
theorem Owners.beginInitialize (ho : s.Owners) (hquiet : ∀ t, s.pending t = []) (t : EngineThread)
    (pool : MasterPool) : (s.beginInitialize t pool).Owners ∧
      Running t s.reservations (initSteps s.reservations pool) (s.beginInitialize t pool) := by
  have hnew : (s.beginInitialize t pool).poolOf s.reservations = some pool := by
    rw [poolOf, pools_beginInitialize_self]
    rfl
  have hold : ∀ g, g ≠ s.reservations → (s.beginInitialize t pool).poolOf g = s.poolOf g := by
    intro g hg
    simp only [poolOf, Lifecycle.beginInitialize, Lifecycle.setPending, Lifecycle.setPool,
      Function.update_of_ne hg]
  -- no context has the number of the new pool
  have holder : ∀ c, s.Known c → c.generation ≠ s.reservations := by
    rintro c ⟨pool', hpool', -⟩ heq
    rw [heq, ho.unused _ (Nat.le_refl _)] at hpool'
    cases hpool'
  have hknown : ∀ c, s.Known c → (s.beginInitialize t pool).Known c := by
    intro c hc
    obtain ⟨pool', hpool', hlt⟩ := hc
    exact ⟨pool', (hold _ (holder c ⟨pool', hpool', hlt⟩)).trans hpool', hlt⟩
  refine ⟨⟨?_, ?_, ho.nodup, ?_, ho.unique⟩, rfl, ?_, ?_, ?_, ?_, ?_⟩
  · intro g hg
    have hle : s.reservations + 1 ≤ g := hg
    rw [hold g (by omega)]
    exact ho.unused g (by omega)
  · exact fun c hc => ⟨(ho.started c hc).1, hknown c (ho.started c hc).2⟩
  · exact fun t' c hc => ⟨hknown c (ho.current t' c hc).1, (ho.current t' c hc).2⟩
  · exact fun t' hne => (pending_beginInitialize_of_ne s pool hne).trans (hquiet t')
  · exact ⟨false, false, inOrder_initSteps s.reservations pool, fun h => absurd h Bool.false_ne_true⟩
  · intro t' _ hc
    exact holder _ (ho.current t' _ hc).1 rfl
  · refine ⟨pool, hnew, fun ix hix => ?_⟩
    rw [toStart_initSteps] at hix
    obtain ⟨i, hi, rfl⟩ := List.mem_map.mp hix
    rw [List.mem_range] at hi
    exact ⟨Nat.succ_ne_zero i, by omega⟩
  · rw [toStart_initSteps, List.map_map]
    refine List.Nodup.append ho.nodup (List.nodup_range.map ?_) ?_
    · intro i j hij
      simpa using hij
    · intro c hc hworker
      obtain ⟨i, -, rfl⟩ := List.mem_map.mp hworker
      exact holder _ (ho.started _ hc).2 rfl

theorem Owners.workerBegins (ho : s.Owners) {c : ContextRef} (hc : c ∈ s.started) :
    (s.setCurrent (.worker c.generation c.ix) c).Owners := by
  obtain ⟨hix, hknown⟩ := ho.started c hc
  refine ho.setCurrent ⟨hknown, fun _ => ⟨rfl, hc⟩⟩ fun t' hne hc' => ?_
  exact hne ((ho.current t' c hc').2 hix).1

theorem Running.workerBegins (h : Running t generation steps s) {c : ContextRef} (hix : c.ix ≠ 0) :
    Running t generation steps (s.setCurrent (.worker c.generation c.ix) c) := by
  refine { h with mainContext := fun t' hne hc => ?_ }
  by_cases ht : t' = .worker c.generation c.ix
  · subst ht
    have hself := current_setCurrent_self s (.worker c.generation c.ix) c
    obtain rfl := Option.some.inj (hself.symm.trans hc)
    exact hix rfl
  · exact h.mainContext t' hne ((current_setCurrent_of_ne s c ht).symm.trans hc)

/-- A step of whichever `Initialize` runs. -/
theorem Owned.initStep (h : s.Owned) {answer : SystemAnswer} {step : InitStep}
    {rest : List InitStep} (ht : s.pending t = step :: rest)
    (hrun : (s.setPending t rest).runInitStep asserts t answer step = some s') :
    s'.Owned ∧ ∃ generation, s.reservations = generation + 1 ∧
      s'.reservations = s.reservations ∧ (∀ t', t' ≠ t → s'.pending t' = []) ∧
        ∀ t', s'.current t' = s.current t' ∨ t' = t ∧ s'.current t' = some ⟨generation, 0⟩ := by
  rcases h.phase with hquiet | ⟨t₀, generation, hr⟩
  · cases (hquiet t).symm.trans ht
  obtain rfl : t = t₀ := by
    by_contra hne
    cases (hr.alone t hne).symm.trans ht
  rw [ht] at hr
  have hpopped : Running t generation (step :: rest) (s.setPending t rest) := { hr with
    alone := fun t' hne => (pending_setPending_of_ne s rest hne).trans (hr.alone t' hne) }
  obtain ⟨howners, hrest, hpending, hcurrent⟩ := hpopped.runInitStep { h.owners with } hrun
  have hleft : s'.pending t = rest := by rw [hpending, pending_setPending_self]
  refine ⟨⟨howners, Or.inr ⟨t, generation, ?_⟩⟩, generation, hr.newest,
    hrest.newest.trans hr.newest.symm, hrest.alone, hcurrent⟩
  rw [hleft]
  exact hrest

theorem Owned.step (s : Lifecycle) (move : LifecycleMove) (s' : Lifecycle) (h : s.Owned)
    (hg : s.OneAtATime move) (hn : (machine asserts).next s move = some s') : s'.Owned := by
  cases (next_step hn).2 with
  | @engineInitialize t pool ht =>
      obtain ⟨howners, hrunning⟩ := h.owners.beginInitialize hg t pool
      refine ⟨howners, Or.inr ⟨t, s.reservations, ?_⟩⟩
      rw [pending_beginInitialize_self]
      exact hrunning
  | initStep ht hrun => exact (h.initStep ht hrun).1
  | @workerBegins c hc =>
      refine ⟨h.owners.workerBegins hc, ?_⟩
      rcases h.phase with hquiet | ⟨t, generation, hr⟩
      · exact Or.inl hquiet
      · exact Or.inr ⟨t, generation, hr.workerBegins (h.owners.started c hc).1⟩
  | allocate _ hmove => exact hmove.sameOwners.owned h
  | free | resetStale => exact SameOwners.owned (s := s) ⟨rfl, rfl, rfl, rfl, rfl, rfl⟩ h
  | resetArena _ hp => exact (sameOwners_setPool hp (setArena_pool ..)).owned h
  | shutdown => exact (sameOwners_release s).owned h

theorem start_owned : start.Owned where
  owners :=
    { unused := fun _ _ => rfl
      started := fun _ hc => absurd hc List.not_mem_nil
      nodup := List.nodup_nil
      current := fun _ _ hc => by cases hc
      unique := fun _ _ _ hc => by cases hc }
  phase := Or.inl fun _ => rfl

/-! ### Where the contexts lie -/

theorem runInitStep_poolOf {answer : SystemAnswer} {step : InitStep}
    (h : s.runInitStep asserts t answer step = some s') :
    s'.poolOf = s.poolOf ∧ s'.reservations = s.reservations := by
  cases step with
  | setSlabStart address | setSlabEnd address | setThreadContexts g =>
      obtain rfl := Option.some.inj h
      exact ⟨rfl, rfl⟩
  | allocate size type =>
      have hsame := (engineAllocate_move h).sameOwners
      exact ⟨hsame.poolOf, hsame.reservations⟩
  | setCurrent | startThread ix =>
      obtain ⟨g, -, rfl⟩ := Option.map_eq_some_iff.mp h
      exact ⟨rfl, rfl⟩

/-- A pool that has been laid out stays where it is. -/
def PoolsKept (s s' : Lifecycle) : Prop :=
  s.reservations ≤ s'.reservations ∧ ∀ g, g < s.reservations → s'.poolOf g = s.poolOf g

theorem SameOwners.poolsKept (h : SameOwners s s') : PoolsKept s s' :=
  ⟨h.reservations.ge, fun g _ => congrFun h.poolOf g⟩

theorem PoolsKept.step {move : LifecycleMove} (hn : (machine asserts).next s move = some s') :
    PoolsKept s s' := by
  cases (next_step hn).2 with
  | engineInitialize pool ht =>
      refine ⟨Nat.le_succ _, fun g hg => ?_⟩
      simp only [poolOf, Lifecycle.beginInitialize, Lifecycle.setPending, Lifecycle.setPool,
        Function.update_of_ne hg.ne]
  | initStep ht hrun =>
      obtain ⟨hpools, hreservations⟩ := runInitStep_poolOf hrun
      exact ⟨hreservations.ge, fun g _ => congrFun hpools g⟩
  | workerBegins | free | resetStale => exact ⟨le_rfl, fun _ _ => rfl⟩
  | allocate _ hmove => exact hmove.sameOwners.poolsKept
  | resetArena _ hp => exact (sameOwners_setPool hp (setArena_pool ..)).poolsKept
  | shutdown => exact (sameOwners_release s).poolsKept

theorem PoolsKept.trans {s'' : Lifecycle} (h : PoolsKept s s') (h' : PoolsKept s' s'') :
    PoolsKept s s'' :=
  ⟨h.1.trans h'.1, fun g hg => (h'.2 g (hg.trans_le h.1)).trans (h.2 g hg)⟩

theorem PoolsKept.run {Q : Lifecycle → LifecycleMove → Prop}
    (hs : (machine asserts).ReachIf Q s s') : PoolsKept s s' :=
  hs.invariant (I := PoolsKept s) (fun _ _ _ h _ hn => h.trans (.step hn)) ⟨le_rfl, fun _ _ => rfl⟩

/-- A context of a pool and its place in the array. -/
theorem Known.address {c : ContextRef} (hc : s.Known c) : ∃ pool, s.poolOf c.generation = some pool ∧
    c.ix < pool.count ∧ s.addressOf c = some (pool.contextRange c.ix).start := by
  obtain ⟨pool, hpool, hlt⟩ := hc
  refine ⟨pool, hpool, hlt, ?_⟩
  rw [addressOf, hpool]
  rfl

/-- In arrays that are apart every context has an address of its own. -/
theorem ArraysApart.addressOf_inj (h : s.ArraysApart) {c c' : ContextRef} {a : BitVec 64}
    (hc : s.Known c) (hc' : s.Known c') (ha : s.addressOf c = some a)
    (ha' : s.addressOf c' = some a) : c = c' := by
  obtain ⟨pool, hpool, hlt, hstart⟩ := hc.address
  obtain ⟨pool', hpool', hlt', hstart'⟩ := hc'.address
  obtain rfl := Option.some.inj (hstart.symm.trans ha)
  have hsame := Option.some.inj (ha'.symm.trans hstart')
  by_cases hgeneration : c.generation = c'.generation
  · rw [hgeneration, hpool'] at hpool
    obtain rfl := Option.some.inj hpool
    have hix := pool'.contextStart_injective hlt hlt' hsame
    obtain ⟨generation, ix⟩ := c
    obtain ⟨generation', ix'⟩ := c'
    exact congr (congrArg ContextRef.mk hgeneration) hix
  · have hfirst := pool.contextStart_in_array hlt
    have hfirst' := pool'.contextStart_in_array hlt'
    rw [← hsame] at hfirst'
    exact (h _ _ pool pool' hpool hpool' hgeneration _ ⟨hfirst, hfirst'⟩).elim

/-! ### The rest of a run -/

/-- Thread `t` has had context `c`, and no other thread gets it. -/
structure Kept (t : EngineThread) (c : ContextRef) (s : Lifecycle) : Prop where
  owned : s.Owned
  older : c.generation < s.reservations
  worker : c.ix ≠ 0 → t = .worker c.generation c.ix
  only : ∀ t', s.current t' = some c → t' = t
  inside : c.ix = 0 → s.reservations = c.generation + 1 → ∀ t', s.pending t' ≠ [] → t' = t

theorem Owned.kept (h : s.Owned) {c : ContextRef} (hc : s.current t = some c) : Kept t c s := by
  obtain ⟨⟨pool, hpool, hlt⟩, hworker⟩ := h.owners.current t c hc
  refine ⟨h, ?_, fun hne => (hworker hne).1, fun t' hc' => h.owners.unique t' t c hc' hc, ?_⟩
  · by_contra hge
    rw [h.owners.unused c.generation (Nat.le_of_not_lt hge)] at hpool
    cases hpool
  · intro hix hnewest t' hbusy
    rcases h.phase with hquiet | ⟨t₀, generation, hr⟩
    · exact absurd (hquiet t') hbusy
    have hgeneration : generation = c.generation := by
      have hsame := hr.newest
      omega
    have ht' : t' = t₀ := by
      by_contra hne
      exact hbusy (hr.alone t' hne)
    have ht : t = t₀ := by
      by_contra hne
      apply hr.mainContext t hne
      rw [hc, hgeneration, ← hix]
    rw [ht', ht]

theorem Kept.same {c : ContextRef} (h : Kept t c s) (hsame : SameOwners s s') : Kept t c s' := by
  refine ⟨hsame.owned h.owned, ?_, h.worker, ?_, ?_⟩
  · rw [hsame.reservations]
    exact h.older
  · rw [hsame.current]
    exact h.only
  · rw [hsame.reservations, hsame.pending]
    exact h.inside

theorem Kept.step {c : ContextRef} (s : Lifecycle) (move : LifecycleMove) (s' : Lifecycle)
    (h : Kept t c s) (hg : s.OneAtATime move) (hn : (machine asserts).next s move = some s') :
    Kept t c s' := by
  have howned := Owned.step s move s' h.owned hg hn
  cases (next_step hn).2 with
  | engineInitialize pool ht =>
      have hold := h.older
      refine ⟨howned, Nat.lt_succ_of_lt hold, h.worker, h.only, fun _ hnewest => ?_⟩
      -- the newest pool is another one now
      have hcount : s.reservations + 1 = c.generation + 1 := hnewest
      omega
  | @initStep t₁ answer step rest _ ht hrun =>
      obtain ⟨-, generation, hnewest, hreservations, halone, hcurrent⟩ := h.owned.initStep ht hrun
      have hbusy : s.pending t₁ ≠ [] := by
        rw [ht]
        exact List.cons_ne_nil step rest
      refine ⟨howned, hreservations ▸ h.older, h.worker, fun t' hc' => ?_, fun hix hcount t' ht' => ?_⟩
      · rcases hcurrent t' with hsame | ⟨rfl, hset⟩
        · exact h.only t' (hsame.symm.trans hc')
        · obtain rfl := Option.some.inj (hset.symm.trans hc')
          exact h.inside rfl hnewest t' hbusy
      · obtain rfl : t' = t₁ := by
          by_contra hne
          exact ht' (halone t' hne)
        exact h.inside hix (hreservations ▸ hcount) t' hbusy
  | @workerBegins c₁ hc₁ =>
      refine ⟨howned, h.older, h.worker, fun t' hc' => ?_, h.inside⟩
      by_cases ht' : t' = .worker c₁.generation c₁.ix
      · subst ht'
        have hself := current_setCurrent_self s (.worker c₁.generation c₁.ix) c₁
        obtain rfl := Option.some.inj (hself.symm.trans hc')
        exact (h.worker (h.owned.owners.started c₁ hc₁).1).symm
      · exact h.only t' ((current_setCurrent_of_ne s c₁ ht').symm.trans hc')
  | allocate _ hmove => exact h.same hmove.sameOwners
  | free | resetStale => exact Kept.same (s := s) h ⟨rfl, rfl, rfl, rfl, rfl, rfl⟩
  | resetArena _ hp => exact h.same (sameOwners_setPool hp (setArena_pool ..))
  | shutdown => exact h.same (sameOwners_release s)

/-- The pointer that a thread has had goes to no other one. -/
theorem Owned.pointer_kept (h : s.Owned) (hs : (machine asserts).ReachIf OneAtATime s s')
    (hapart : s'.ArraysApart) {t t' : EngineThread} {a : BitVec 64}
    (ha : s.currentThreadContext t = some a) (ha' : s'.currentThreadContext t' = some a) :
    t' = t := by
  obtain ⟨c, hc, haddress⟩ := Option.bind_eq_some_iff.mp ha
  obtain ⟨c', hc', haddress'⟩ := Option.bind_eq_some_iff.mp ha'
  have hkept : Kept t c s' := hs.invariant (I := Kept t c) Kept.step (h.kept hc)
  have hknown' : s'.Known c' := (hkept.owned.owners.current t' c' hc').1
  -- the pool of `c` is where it was when the pointer was read
  have hpool : s'.poolOf c.generation = s.poolOf c.generation :=
    (PoolsKept.run hs).2 c.generation (h.kept hc).older
  have hknown : s'.Known c := by
    obtain ⟨pool, hsome, hlt⟩ := (h.owners.current t c hc).1
    exact ⟨pool, hpool.trans hsome, hlt⟩
  have hsame : s'.addressOf c = some a := by
    rw [addressOf, hpool]
    exact haddress
  obtain rfl := hapart.addressOf_inj hknown hknown' hsame haddress'
  exact hkept.only t' hc'

/-- As long as no `Initialize` is called inside another one, in whatever order the threads move, a
context that a thread has had is never another thread's, and neither is the pointer to it as long as
the context arrays are apart; every context is one of its pool, and every worker is started once,
before the context is its thread's. -/
theorem contexts_unshared (asserts : Bool) (s : Lifecycle)
    (hs : (machine asserts).ReachIf OneAtATime start s) :
    (∀ s', (machine asserts).ReachIf OneAtATime s s' →
        (∀ t t' c, s.current t = some c → s'.current t' = some c → t' = t) ∧
          (s'.ArraysApart → ∀ t t' a, s.currentThreadContext t = some a →
            s'.currentThreadContext t' = some a → t' = t)) ∧
      (∀ t c, s.current t = some c →
        (∃ p, s.pools c.generation = some p ∧ c.ix < p.pool.count) ∧
          (c.ix ≠ 0 → t = .worker c.generation c.ix ∧ c ∈ s.started)) ∧
      s.started.Nodup := by
  have howned : s.Owned := hs.invariant Owned.step start_owned
  refine ⟨fun s' hs' => ⟨fun t t' c hc hc' => ?_, ?_⟩, fun t c hc => ?_, howned.owners.nodup⟩
  · have hkept : Kept t c s' := hs'.invariant (I := Kept t c) Kept.step (howned.kept hc)
    exact hkept.only t' hc'
  · exact fun hapart t t' a ha ha' => howned.pointer_kept hs' hapart ha ha'
  · obtain ⟨⟨pool, hpool, hlt⟩, hworker⟩ := howned.owners.current t c hc
    obtain ⟨p, hp, rfl⟩ := Option.map_eq_some_iff.mp hpool
    exact ⟨⟨p, hp, hlt⟩, hworker⟩

/-! ### Two pools -/

def callsInitialize : LifecycleMove → Bool
  | .engineInitialize _ _ => true
  | _ => false

theorem obeys_of_noInitialize {moves : List LifecycleMove}
    (h : ∀ move ∈ moves, callsInitialize move = false) (s : Lifecycle) :
    (machine asserts).Obeys OneAtATime s moves := by
  refine Machine.obeys_of_forall (fun move hmove s => ?_) s
  have hcalls := h move hmove
  cases move with
  | engineInitialize t pool => cases hcalls
  | _ => trivial

theorem farPool_aligned :
    WorkerStart.twoThreadPool.pageSize.value.toNat ∣ (137438953472#64).toNat := by decide

theorem farPool_fits : (137438953472#64).toNat +
    (34359738368 * WorkerStart.twoThreadPool.threadCount.toNat +
      RoundUp.up (384 * WorkerStart.twoThreadPool.threadCount.toNat)
        WorkerStart.twoThreadPool.pageSize.value.toNat) < 2 ^ 64 := by decide

/-- Behind the pool of the other examples. -/
def farPool : MasterPool :=
  { WorkerStart.twoThreadPool with
    base := 137438953472#64
    aligned := farPool_aligned
    fits := farPool_fits }

def otherInitialize : LifecycleMove := .engineInitialize (.application 1) farPool

def stepsOf (t : EngineThread) (count : ℕ) : List LifecycleMove :=
  List.replicate count (.initStep t ⟨4096#64, ⟨true, true⟩⟩)

/-- The second pool is laid out when the first is, and both workers begin. -/
def secondPool : List LifecycleMove :=
  otherInitialize :: stepsOf (.application 1) 11 ++ [.workerBegins ⟨0, 1⟩, .workerBegins ⟨1, 1⟩]

def twoPoolsEnd : Lifecycle := ((machine true).exec runningEnd secondPool).get rfl

theorem runningEnd_oneAtATime : (machine true).ReachIf OneAtATime start runningEnd :=
  Machine.reachIf_of_exec oneWorkerInitialize rfl
    ⟨fun _ => rfl, fun s _ => obeys_of_noInitialize (by decide) s⟩

theorem twoPoolsEnd_oneAtATime : (machine true).ReachIf OneAtATime runningEnd twoPoolsEnd :=
  Machine.reachIf_of_exec secondPool rfl
    ⟨runningEnd_pending, fun s _ => obeys_of_noInitialize (by decide) s⟩

theorem poolOf_twoPoolsEnd {g : ℕ} {pool : MasterPool} (h : twoPoolsEnd.poolOf g = some pool) :
    (g = 0 ∧ WorkerStart.twoThreadPool = pool) ∨ (g = 1 ∧ farPool = pool) := by
  match g with
  | 0 => exact Or.inl ⟨rfl, Option.some.inj h⟩
  | 1 => exact Or.inr ⟨rfl, Option.some.inj h⟩
  | g + 2 => cases h

theorem farPool_apart : WorkerStart.twoThreadPool.contexts.contextArray.Disjoint
    farPool.contexts.contextArray :=
  MemoryRange.disjoint_of_ordered (Or.inl (by decide))

theorem twoPoolsEnd_arraysApart : twoPoolsEnd.ArraysApart := by
  intro g g' pool pool' hg hg' hne
  rcases poolOf_twoPoolsEnd hg with ⟨rfl, rfl⟩ | ⟨rfl, rfl⟩ <;>
    rcases poolOf_twoPoolsEnd hg' with ⟨rfl, rfl⟩ | ⟨rfl, rfl⟩
  · exact absurd rfl hne
  · exact farPool_apart
  · exact fun a ha => farPool_apart a ha.symm
  · exact absurd rfl hne

theorem contexts_unshared_twoPools : runningEnd.currentThreadContext mainThread = some 65536#64 ∧
    twoPoolsEnd.currentThreadContext (.application 1) = some 137438953472#64 ∧
      (∀ t, twoPoolsEnd.currentThreadContext t = some 65536#64 → t = mainThread) ∧
        twoPoolsEnd.started.Nodup := by
  obtain ⟨hkept, -⟩ := contexts_unshared true runningEnd runningEnd_oneAtATime
  obtain ⟨-, hpointers⟩ := hkept twoPoolsEnd twoPoolsEnd_oneAtATime
  obtain ⟨-, -, hnodup⟩ := contexts_unshared true twoPoolsEnd
    (runningEnd_oneAtATime.trans twoPoolsEnd_oneAtATime)
  exact ⟨rfl, rfl, fun t ht => hpointers twoPoolsEnd_arraysApart mainThread t 65536#64 rfl ht,
    hnodup⟩

/-- The pool is released, and another thread gets its addresses. -/
def reusedBase : List LifecycleMove :=
  .shutdown mainThread :: .engineInitialize (.application 1) WorkerStart.twoThreadPool ::
    stepsOf (.application 1) 7

def reusedEnd : Lifecycle := ((machine true).exec runningEnd reusedBase).get rfl

theorem reused_base_shares : ¬ ∀ (asserts : Bool) (s : Lifecycle),
    (machine asserts).ReachIf OneAtATime start s → ∀ t t' a,
      s.currentThreadContext t = some a → s.currentThreadContext t' = some a → t = t' := by
  intro h
  have hreach : (machine true).ReachIf OneAtATime runningEnd reusedEnd :=
    Machine.reachIf_of_exec reusedBase rfl
      ⟨trivial, fun s hs => ⟨?_, fun s _ => obeys_of_noInitialize (by decide) s⟩⟩
  · have hsame := h true reusedEnd (runningEnd_oneAtATime.trans hreach) mainThread
      (.application 1) 65536#64 rfl rfl
    cases hsame
  · obtain rfl := Option.some.inj hs
    exact runningEnd_pending

/-- The other thread overwrites `g_ThreadContexts` before the main thread reads it. -/
def overlappingCalls : List LifecycleMove :=
  oneWorkerInitialize.take 6 ++ otherInitialize :: stepsOf (.application 1) 6 ++
    stepsOf mainThread 1

def overlapEnd : Lifecycle := ((machine true).exec start overlappingCalls).get rfl

theorem overlapping_initialize_shares : ¬ ∀ (asserts : Bool) (s : Lifecycle),
    (machine asserts).Reach start s →
      ∀ t t' c, s.current t = some c → s.current t' = some c → t = t' := by
  intro h
  have hsame := h true overlapEnd (Machine.reach_of_exec overlappingCalls rfl) mainThread
    (.application 1) ⟨1, 0⟩ rfl rfl
  cases hsame

end Lifecycle
end ProjectDelta
