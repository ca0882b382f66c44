import ProjectDelta.Lifecycle

/-!
# Contexts of released pools

`Engine::Shutdown` releases the pool of `g_ThreadContexts` and leaves
`tl_CurrentThreadContext` as it is. Until then the context of the main thread is in
a reserved pool at every allocation, those inside `Initialize` included.
-/

namespace ProjectDelta
namespace Lifecycle

def mainThread : EngineThread := .application 0

/-- Every call is made on the main thread. -/
def OnMainThread : LifecycleMove → Prop
  | .engineInitialize t _ | .initStep t _ | .allocate t _ _ _ _ | .free t _ | .shutdown t =>
      t = mainThread
  | .workerBegins _ | .resetArena _ => False

instance : ∀ move, Decidable (OnMainThread move)
  | .engineInitialize t _ | .initStep t _ | .allocate t _ _ _ _ | .free t _ | .shutdown t =>
      inferInstanceAs (Decidable (t = mainThread))
  | .workerBegins _ | .resetArena _ => isFalse id

/-- The pool of `g_ThreadContexts` has been released. -/
def hasShutDown (s : Lifecycle) : Bool :=
  s.threadContexts.any fun generation => !s.isReserved generation

def callsForMemory : LifecycleMove → Bool
  | .engineInitialize _ _ | .allocate _ _ _ _ _ => true
  | _ => false

def isShutdown : LifecycleMove → Bool
  | .shutdown _ => true
  | _ => false

/-- A call of the main thread, `Shutdown` only after an `Initialize`. -/
def MainCall (s : Lifecycle) (move : LifecycleMove) : Prop :=
  OnMainThread move ∧ (isShutdown move = true → s.reservations ≠ 0)

instance (s : Lifecycle) (move : LifecycleMove) : Decidable (s.MainCall move) :=
  inferInstanceAs (Decidable (_ ∧ (_ → _)))

/-- After a `Shutdown` the main thread calls neither `Allocate` nor `Initialize`. -/
def BeforeShutdown (s : Lifecycle) (move : LifecycleMove) : Prop :=
  OnMainThread move ∧ (callsForMemory move = true → s.hasShutDown = false)

instance (s : Lifecycle) (move : LifecycleMove) : Decidable (s.BeforeShutdown move) :=
  inferInstanceAs (Decidable (_ ∧ (_ → _)))

/-- A context of the new pool becomes the main thread's once the pool is published. -/
def Enters (s : Lifecycle) : Prop :=
  s.current mainThread ≠ none ∨ .setCurrent ∈ s.pending mainThread

/-- The context of the main thread is in a reserved pool, or in one that `Shutdown` has released
since. -/
structure ContextOk (s : Lifecycle) : Prop where
  clean : s.staleAccess = false
  unused : ∀ generation, s.reservations ≤ generation → s.pools generation = none
  current : ∀ c, s.current mainThread = some c → s.isReserved c.generation = true ∨
    (s.pending mainThread = [] ∧ s.hasShutDown = true)
  running : s.pending mainThread ≠ [] → s.hasShutDown = false
  published : ∀ generation, .setThreadContexts generation ∈ s.pending mainThread →
    s.isReserved generation = true ∧ s.Enters
  entered : s.threadContexts ≠ none → s.Enters

variable {asserts : Bool} {s s' : Lifecycle}

theorem hasShutDown_eq_false_iff : s.hasShutDown = false ↔
    ∀ generation, s.threadContexts = some generation → s.isReserved generation = true := by
  unfold hasShutDown
  cases s.threadContexts <;> simp

theorem ContextOk.reserved_of_running (h : s.ContextOk) (hshut : s.hasShutDown = false) (c : ContextRef)
    (hc : s.current mainThread = some c) : s.isReserved c.generation = true := by
  rcases h.current c hc with hold | ⟨-, hold⟩
  · exact hold
  · rw [hshut] at hold
    cases hold

/-- What an allocation in a reserved pool, or by `malloc`, leaves as it is. -/
structure SameLifetimes (s s' : Lifecycle) : Prop where
  stale : s'.staleAccess = s.staleAccess
  reservations : s'.reservations = s.reservations
  threadContexts : s'.threadContexts = s.threadContexts
  current : s'.current = s.current
  pending : s'.pending = s.pending
  reserved : ∀ generation, s'.isReserved generation = s.isReserved generation
  unused : ∀ generation, s.pools generation = none → s'.pools generation = none

theorem SameLifetimes.contextOk (h : SameLifetimes s s') (hok : s.ContextOk) : s'.ContextOk := by
  have hshut : s'.hasShutDown = s.hasShutDown := by
    unfold hasShutDown
    rw [h.threadContexts]
    simp only [h.reserved]
  have henters : s'.Enters ↔ s.Enters := by
    unfold Enters
    rw [h.current, h.pending]
  refine ⟨by rw [h.stale]; exact hok.clean, ?_, ?_, ?_, ?_, ?_⟩
  · intro generation hle
    rw [h.reservations] at hle
    exact h.unused generation (hok.unused generation hle)
  · intro c hc
    rw [h.current] at hc
    rw [h.reserved, h.pending, hshut]
    exact hok.current c hc
  · rw [h.pending, hshut]
    exact hok.running
  · intro generation hmem
    rw [h.pending] at hmem
    rw [h.reserved, henters]
    exact hok.published generation hmem
  · rw [h.threadContexts, henters]
    exact hok.entered

/-- Neither an allocation of the main thread nor one on a thread without a context uses a pool that
has been released. -/
theorem AllocateMove.sameLifetimes {t : EngineThread} {size : BitVec 64} {type : AllocationType}
    {alignment : BitVec 64} {answer : SystemAnswer}
    (h : AllocateMove asserts s t size type alignment answer s')
    (hcurrent : ∀ c, s.current t = some c → s.isReserved c.generation = true) :
    SameLifetimes s s' := by
  cases h with
  | malloc => exact ⟨rfl, rfl, rfl, rfl, rfl, fun _ => rfl, fun _ h => h⟩
  | stale hc hp hreleased =>
      obtain ⟨p', hp', hreserved⟩ := isReserved_iff.mp (hcurrent _ hc)
      obtain rfl := Option.some.inj (hp.symm.trans hp')
      rw [hreleased] at hreserved
      cases hreserved
  | @arena c p r hc hp hreserved =>
      refine ⟨rfl, rfl, rfl, rfl, rfl, fun generation => ?_, fun generation hnone => ?_⟩
      · refine (isReserved_setPool s c.generation generation _).trans ?_
        split_ifs with hg
        · rw [setArena_reserved, hreserved, hg, isReserved_iff.mpr ⟨p, hp, hreserved⟩]
        · rfl
      · have hne : generation ≠ c.generation := by
          rintro rfl
          rw [hp] at hnone
          cases hnone
        exact (Function.update_of_ne hne ..).trans hnone
  | refused => exact ⟨rfl, rfl, rfl, rfl, rfl, fun _ => rfl, fun _ h => h⟩

/-! ### Steps -/

theorem setThreadContexts_mem_initSteps {generation g : ℕ} {pool : MasterPool}
    (h : .setThreadContexts g ∈ initSteps generation pool) : g = generation := by
  simpa [initSteps, stepsBehindSlab, List.mem_replicate] using h

theorem setCurrent_mem_initSteps (generation : ℕ) (pool : MasterPool) :
    .setCurrent ∈ initSteps generation pool := by
  simp [initSteps, stepsBehindSlab]

theorem ContextOk.beginInitialize (h : s.ContextOk) (pool : MasterPool)
    (hshut : s.hasShutDown = false) : (s.beginInitialize mainThread pool).ContextOk := by
  have hpending : (s.beginInitialize mainThread pool).pending mainThread =
      initSteps s.reservations pool := by
    simp only [Lifecycle.beginInitialize, setPending, Function.update_self]
  have hreserved : ∀ g, s.isReserved g = true →
      (s.beginInitialize mainThread pool).isReserved g = true := by
    intro g hg
    refine (isReserved_setPool s s.reservations g _).trans ?_
    split_ifs
    · rfl
    · exact hg
  have hnew : (s.beginInitialize mainThread pool).isReserved s.reservations = true := by
    refine (isReserved_setPool s s.reservations s.reservations _).trans ?_
    rw [if_pos rfl]
    rfl
  have henters : (s.beginInitialize mainThread pool).Enters := by
    refine Or.inr ?_
    rw [hpending]
    exact setCurrent_mem_initSteps _ _
  refine ⟨h.clean, ?_, ?_, ?_, ?_, ?_⟩
  · intro g hg
    have hlt : s.reservations + 1 ≤ g := hg
    exact (Function.update_of_ne (by omega) ..).trans (h.unused g (by omega))
  · intro c hc
    exact Or.inl (hreserved _ (h.reserved_of_running hshut c hc))
  · intro _
    rw [hasShutDown_eq_false_iff] at hshut ⊢
    exact fun g hg => hreserved g (hshut g hg)
  · intro g hg
    rw [hpending] at hg
    obtain rfl := setThreadContexts_mem_initSteps hg
    exact ⟨hnew, henters⟩
  · exact fun _ => henters

/-- `Shutdown` releases at most the pool of `g_ThreadContexts`. -/
theorem ContextOk.release (h : s.ContextOk) (hpending : s.pending mainThread = []) :
    s.release.ContextOk := by
  unfold Lifecycle.release
  cases hcontexts : s.threadContexts with
  | none => exact h
  | some generation =>
      dsimp only
      cases hp : s.pools generation with
      | none => exact h
      | some p =>
          dsimp only
          have hreserved := fun g => isReserved_setPool s generation g { p with reserved := false }
          have hshut : (s.setPool generation { p with reserved := false }).hasShutDown = true := by
            rw [← Bool.not_eq_false, hasShutDown_eq_false_iff]
            intro hall
            have hsame := hall generation hcontexts
            rw [hreserved, if_pos rfl] at hsame
            cases hsame
          refine ⟨h.clean, ?_, ?_, fun hne => absurd hpending hne, ?_, h.entered⟩
          · intro g hg
            have hne : g ≠ generation := by
              rintro rfl
              rw [h.unused g hg] at hp
              cases hp
            exact (Function.update_of_ne hne ..).trans (h.unused g hg)
          · exact fun c hc => Or.inr ⟨hpending, hshut⟩
          · intro g hg
            have hnil : .setThreadContexts g ∈ s.pending mainThread := hg
            rw [hpending] at hnil
            cases hnil

/-- One step of a running `Initialize`. -/
theorem ContextOk.runInitStep (h : s.ContextOk) {step : InitStep} {rest : List InitStep}
    (hpending : s.pending mainThread = step :: rest) {answer : SystemAnswer}
    (hrun : (s.setPending mainThread rest).runInitStep asserts mainThread answer step = some s') :
    s'.ContextOk := by
  have hshut : s.hasShutDown = false := h.running (by rw [hpending]; exact List.cons_ne_nil step rest)
  have hreserved := h.reserved_of_running hshut
  have hrest : (s.setPending mainThread rest).pending mainThread = rest := by
    simp only [setPending, Function.update_self]
  have hpublished : ∀ g, .setThreadContexts g ∈ rest → s.isReserved g = true ∧ s.Enters :=
    fun g hg => h.published g (by rw [hpending]; exact List.mem_cons_of_mem _ hg)
  -- every step but `setCurrent` leaves the entry to the rest
  have henters : step ≠ .setCurrent → s.Enters → (s.setPending mainThread rest).Enters := by
    rintro hstep (hcurrent | hmem)
    · exact Or.inl hcurrent
    · rw [hpending] at hmem
      rcases List.mem_cons.mp hmem with heq | hmem
      · exact absurd heq.symm hstep
      · exact Or.inr (by rw [hrest]; exact hmem)
  have hpopped : step ≠ .setCurrent → (s.setPending mainThread rest).ContextOk := by
    intro hstep
    refine ⟨h.clean, h.unused, fun c hc => Or.inl (hreserved c hc), fun _ => hshut, ?_, ?_⟩
    · intro g hg
      rw [hrest] at hg
      exact ⟨(hpublished g hg).1, henters hstep (hpublished g hg).2⟩
    · exact fun hcontexts => henters hstep (h.entered hcontexts)
  cases step with
  | setSlabStart address | setSlabEnd address =>
      obtain rfl := Option.some.inj hrun
      have hok := hpopped (by simp)
      exact ⟨hok.clean, hok.unused, hok.current, hok.running, hok.published, hok.entered⟩
  | setThreadContexts generation =>
      obtain rfl := Option.some.inj hrun
      have hok := hpopped (by simp)
      have hnew := h.published generation (by rw [hpending]; exact List.mem_cons_self)
      refine ⟨hok.clean, hok.unused, fun c hc => Or.inl (hreserved c hc), fun _ => ?_, hok.published,
        fun _ => henters (by simp) hnew.2⟩
      rw [hasShutDown_eq_false_iff]
      intro g hg
      obtain rfl := Option.some.inj hg
      exact hnew.1
  | allocate size type =>
      have hok := hpopped (by simp)
      exact ((engineAllocate_move hrun).sameLifetimes hreserved).contextOk hok
  | setCurrent =>
      obtain ⟨generation, hcontexts, rfl⟩ := Option.map_eq_some_iff.mp hrun
      have hentered : ((s.setPending mainThread rest).setCurrent mainThread
          ⟨generation, 0⟩).Enters := Or.inl (by simp [Lifecycle.setCurrent])
      refine ⟨h.clean, h.unused, ?_, fun _ => hshut, ?_, fun _ => hentered⟩
      · intro c hc
        have hnew : c = ⟨generation, 0⟩ := by simpa [Lifecycle.setCurrent, eq_comm] using hc
        subst hnew
        exact Or.inl (hasShutDown_eq_false_iff.mp hshut generation hcontexts)
      · intro g hg
        have hmem : .setThreadContexts g ∈ rest := by rwa [← hrest]
        exact ⟨(hpublished g hmem).1, hentered⟩
  | startThread ix =>
      obtain ⟨generation, -, rfl⟩ := Option.map_eq_some_iff.mp hrun
      have hok := hpopped (by simp)
      exact ⟨hok.clean, hok.unused, hok.current, hok.running, hok.published, hok.entered⟩

theorem ContextOk.step (s : Lifecycle) (move : LifecycleMove) (s' : Lifecycle) (h : s.ContextOk)
    (hg : s.BeforeShutdown move) (hn : (machine asserts).next s move = some s') : s'.ContextOk := by
  obtain ⟨hmain, hbefore⟩ := hg
  cases (next_step hn).2 with
  | engineInitialize pool ht =>
      obtain rfl := hmain
      exact h.beginInitialize pool (hbefore rfl)
  | initStep ht hrun =>
      obtain rfl := hmain
      exact h.runInitStep ht hrun
  | workerBegins => exact hmain.elim
  | allocate ht hmove =>
      obtain rfl := hmain
      exact (hmove.sameLifetimes (h.reserved_of_running (hbefore rfl))).contextOk h
  | free ht => exact ⟨h.clean, h.unused, h.current, h.running, h.published, h.entered⟩
  | resetStale | resetArena => exact hmain.elim
  | shutdown ht =>
      obtain rfl := hmain
      exact h.release (pending_of_mayCall ht)

theorem start_contextOk : start.ContextOk where
  clean := rfl
  unused _ _ := rfl
  current c hc := by cases hc
  running hne := absurd rfl hne
  published _ hmem := absurd hmem List.not_mem_nil
  entered hne := absurd rfl hne

/-- On the main thread, as long as it calls neither `Allocate` nor `Initialize` after a `Shutdown`,
no allocation uses a context of a released pool: each is in a reserved pool or by `malloc`. -/
theorem allocations_before_shutdown (asserts : Bool) (s : Lifecycle)
    (hs : (machine asserts).ReachIf BeforeShutdown start s) :
    s.staleAccess = false ∧ ∀ size type alignment answer s',
      s.BeforeShutdown (.allocate mainThread size type alignment answer) →
      (machine asserts).next s (.allocate mainThread size type alignment answer) = some s' →
        s'.staleAccess = false ∧
          ((s.current mainThread = none ∧ s' = s.handOut answer.malloc size true) ∨
            ∃ c, s.current mainThread = some c ∧ s.isReserved c.generation = true) := by
  have hok : s.ContextOk := hs.invariant ContextOk.step start_contextOk
  refine ⟨hok.clean, fun size type alignment answer s' hg hn => ?_⟩
  refine ⟨(ContextOk.step s _ s' hok hg hn).clean, ?_⟩
  have hreserved := hok.reserved_of_running (hg.2 rfl)
  cases (next_step hn).2 with
  | allocate ht hmove =>
      cases hmove with
      | malloc hnone => exact Or.inl ⟨hnone, rfl⟩
      | stale hc | arena hc | refused hc => exact Or.inr ⟨_, hc, hreserved _ hc⟩

/-! ### One worker -/

/-- An `Initialize` that finds its first two blocks with `malloc`, before there is a context. -/
def oneWorkerInitialize : List LifecycleMove :=
  .engineInitialize mainThread WorkerStart.twoThreadPool ::
    List.replicate 4 (.initStep mainThread ⟨4096#64, ⟨true, true⟩⟩) ++
    List.replicate 7 (.initStep mainThread ⟨8192#64, ⟨true, true⟩⟩)

def allocateOne : LifecycleMove :=
  .allocate mainThread 1#64 .transient 1#64 ⟨4096#64, ⟨true, true⟩⟩

def shutDownEnd : Lifecycle :=
  ((machine true).exec start (oneWorkerInitialize ++ [.shutdown mainThread, allocateOne])).get rfl

theorem shutDownEnd_reach : (machine true).ReachIf MainCall start shutDownEnd :=
  Machine.reachIf_of_exec (oneWorkerInitialize ++ [.shutdown mainThread, allocateOne]) rfl (by decide)

theorem released_context_used : ¬ ∀ (asserts : Bool) (s : Lifecycle),
    (machine asserts).ReachIf MainCall start s → s.staleAccess = false := by
  intro h
  have hclean := h true shutDownEnd shutDownEnd_reach
  exact absurd hclean (by decide)

def runningEnd : Lifecycle := ((machine true).exec start oneWorkerInitialize).get rfl

theorem runningEnd_reach : (machine true).ReachIf BeforeShutdown start runningEnd :=
  Machine.reachIf_of_exec oneWorkerInitialize rfl (by decide)

theorem runningEnd_allocates : ∃ s', (machine true).next runningEnd allocateOne = some s' ∧
    s'.staleAccess = false ∧ ∃ c, runningEnd.current mainThread = some c ∧
      runningEnd.isReserved c.generation = true := by
  obtain ⟨-, hnext⟩ := allocations_before_shutdown true runningEnd runningEnd_reach
  obtain ⟨hclean, hnone | hreserved⟩ := hnext 1#64 .transient 1#64 ⟨4096#64, ⟨true, true⟩⟩ _ (by decide) rfl
  · exact absurd hnone.1 (by decide)
  · exact ⟨_, rfl, hclean, hreserved⟩

end Lifecycle
end ProjectDelta
