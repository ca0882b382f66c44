import ProjectDelta.ContextLifetime

/-!
# Initialize comes to its end

Once the pool is reserved and its first pages are committed, `Engine::Initialize` allocates
handles, the array of threads and their records while other threads run. With at most
`2 ^ 20` threads all of that is found by `malloc` or fits in what `ThreadContext_Initialize`
has committed: no assertion fails and no arena asks the operating system for more. At the
end the calling thread has context 0 and every worker has been started once.
-/

namespace ProjectDelta

/-- An arena with its first commitment `baseline`, and room in it for so many bytes. -/
structure ThreadArena.Room (arena : ThreadArena) (baseline : MemoryRange) (demand : ℕ) : Prop where
  baseline_eq : baseline = ⟨arena.backingMemory, arena.capacity⟩
  fits : arena.backingMemory.toNat + arena.maxCapacity.toNat < 2 ^ 64
  backing_pos : 0 < arena.backingMemory.toNat
  capacity_le : arena.capacity.toNat ≤ arena.maxCapacity.toNat
  demand_le : arena.offset.toNat + demand ≤ arena.capacity.toNat

/-- At the default alignment at most seven bytes are skipped, and nothing has to grow. -/
theorem ThreadArena.Room.allocate {arena : ThreadArena} {baseline : MemoryRange}
    {size : BitVec 64} {demand : ℕ} (h : arena.Room baseline (size.toNat + 7 + demand)) :
    ∃ arena' ptr, ThreadArena.Room arena' baseline demand ∧ ptr ≠ 0#64 ∧
      MemoryRange.Inside ⟨ptr, size⟩ baseline ∧ ∀ asserts pageSize os,
        arena.allocate asserts pageSize os size defaultAlignment.value =
          some ⟨arena', some ptr, none⟩ := by
  obtain ⟨rfl, hfits, hpos, hcapacity, hdemand⟩ := h
  have height : defaultAlignment.value.toNat = 8 := by decide
  have hpadding : arena.exactPadding defaultAlignment ≤ 7 := by
    unfold exactPadding RoundUp.up
    rw [height]
    omega
  have hneed : arena.exactNeed size defaultAlignment =
    arena.offset.toNat + arena.exactPadding defaultAlignment + size.toNat := rfl
  have hlimit : arena.backingMemory.toNat + arena.capacity.toNat < 2 ^ 64 := by omega
  have hexact := exact_of_fits hlimit
    (show arena.exactNeed size defaultAlignment ≤ arena.capacity.toNat by omega)
  have haligned := hexact.aligned
  have htotal := hexact.totalSpace
  have hoffset := hexact.offset
  refine ⟨{ arena with offset := arena.offset + arena.totalSpace size defaultAlignment.value },
    arena.alignedAddress defaultAlignment.value, ⟨rfl, hfits, hpos, hcapacity, ?_⟩, ?_, ?_, ?_⟩
  · dsimp only
    omega
  · intro hnull
    rw [hnull, BitVec.toNat_ofNat] at haligned
    omega
  · rintro a ⟨hlo, hhi⟩
    dsimp only at hlo hhi
    refine ⟨?_, ?_⟩ <;> dsimp only <;> omega
  · intro asserts pageSize os
    have hadmits : ¬ (asserts = true ∧
        arena.offset + arena.totalSpace size defaultAlignment.value > arena.maxCapacity) := by
      rw [gt_iff_lt, BitVec.lt_def]
      omega
    have hsmall : ¬ arena.totalSpace size defaultAlignment.value > arena.capacity := by
      rw [gt_iff_lt, BitVec.lt_def]
      omega
    simp only [ThreadArena.allocate, if_neg hadmits, if_neg hsmall]

theorem ThreadArena.Room.mono {arena : ThreadArena} {baseline : MemoryRange} {demand demand' : ℕ}
    (h : arena.Room baseline demand) (hle : demand' ≤ demand) : arena.Room baseline demand' :=
  ⟨h.baseline_eq, h.fits, h.backing_pos, h.capacity_le, (Nat.add_le_add_left hle _).trans h.demand_le⟩

/-! ### The steps still to come -/

/-- The bytes that steps take from an arena, with what they may skip. -/
def demandOf (type : AllocationType) : List InitStep → ℕ
  | [] => 0
  | .allocate size type' :: rest =>
      (if type' = type then size.toNat + 7 else 0) + demandOf type rest
  | _ :: rest => demandOf type rest

/-- `g_ThreadContexts` is set, to this pool, before it is read, and both it and the context of the
calling thread are set at the end. -/
def InOrder (generation : ℕ) : Bool → Bool → List InitStep → Prop
  | published, entered, [] => published = true ∧ entered = true
  | _, entered, .setThreadContexts g :: rest => g = generation ∧ InOrder generation true entered rest
  | published, _, .setCurrent :: rest => published = true ∧ InOrder generation published true rest
  | published, entered, .startThread _ :: rest =>
      published = true ∧ InOrder generation published entered rest
  | published, entered, _ :: rest => InOrder generation published entered rest

/-- The workers that steps start. -/
def toStart : List InitStep → List ℕ
  | [] => []
  | .startThread ix :: rest => ix :: toStart rest
  | _ :: rest => toStart rest

/-- A handle for each worker, as `Sync_CreateSemaphore` allocates it. -/
abbrev handleStep : InitStep := .allocate (BitVec.ofNat 64 sizeofHandle) .persistent

/-- The thread of each worker of a list: its handle, and the start. -/
def threadSteps (workers : List ℕ) : List InitStep :=
  workers.flatMap fun i => [handleStep, .startThread (i + 1)]

section Counts

variable (type : AllocationType) (rest : List InitStep)

theorem sizeofHandle_toNat : (BitVec.ofNat 64 sizeofHandle).toNat = 8 := by decide

theorem demandOf_semaphores (workers : ℕ) :
    demandOf type (List.replicate workers handleStep ++ rest) ≤ 15 * workers + demandOf type rest := by
  induction workers with
  | zero => exact Nat.le_add_left _ _
  | succ workers ih =>
      rw [List.replicate_succ, List.cons_append, demandOf, sizeofHandle_toNat]
      split_ifs <;> omega

theorem demandOf_threads (workers : List ℕ) :
    demandOf type (threadSteps workers) ≤ 15 * workers.length := by
  induction workers with
  | nil => exact Nat.zero_le _
  | cons i workers ih =>
      change (if AllocationType.persistent = type then (BitVec.ofNat 64 sizeofHandle).toNat + 7 else 0) +
        demandOf type (threadSteps workers) ≤ _
      rw [sizeofHandle_toNat, List.length_cons]
      split_ifs <;> omega

theorem toStart_semaphores (workers : ℕ) :
    toStart (List.replicate workers handleStep ++ rest) = toStart rest := by
  induction workers with
  | zero => rfl
  | succ workers ih => exact ih

theorem toStart_threads (workers : List ℕ) : toStart (threadSteps workers) = workers.map (· + 1) := by
  induction workers with
  | nil => rfl
  | cons i workers ih => exact congrArg ((i + 1) :: ·) ih

theorem inOrder_semaphores {generation : ℕ} {published entered : Bool} (workers : ℕ)
    (h : InOrder generation published entered rest) :
    InOrder generation published entered (List.replicate workers handleStep ++ rest) := by
  induction workers with
  | zero => exact h
  | succ workers ih => exact ih

theorem inOrder_threads (generation : ℕ) (workers : List ℕ) :
    InOrder generation true true (threadSteps workers) := by
  induction workers with
  | nil => exact ⟨rfl, rfl⟩
  | cons i workers ih => exact ⟨rfl, ih⟩

end Counts

theorem initSteps_eq (generation : ℕ) (pool : MasterPool) : initSteps generation pool =
    .setSlabStart pool.contexts.masterSlabStart :: .setSlabEnd pool.contexts.masterSlabEnd ::
      .setThreadContexts generation :: handleStep ::
        (List.replicate (pool.count - 1) handleStep ++
          .setCurrent :: handleStep ::
            .allocate (BitVec.ofNat 64 (sizeofHandle * (pool.count - 1))) .persistent ::
              .allocate (BitVec.ofNat 64 (sizeofThreadCreateInfo * (pool.count - 1))) .transient ::
                threadSteps (List.range (pool.count - 1))) := by
  simp only [initSteps, stepsBehindSlab, threadSteps, List.append_assoc, List.cons_append,
    List.nil_append]

/-- What an `Initialize` takes fits in the first commitment of either arena. -/
theorem demandOf_initSteps_le {pool : MasterPool} (hcount : pool.count ≤ 1048576)
    (type : AllocationType) : demandOf type (initSteps 0 pool) ≤ 67108864 := by
  have hpos := pool.count_pos
  have hhandles : (BitVec.ofNat 64 (sizeofHandle * (pool.count - 1))).toNat =
      8 * (pool.count - 1) := by
    rw [sizeofHandle, BitVec.toNat_ofNat, Nat.mod_eq_of_lt (by omega)]
  have hinfos : (BitVec.ofNat 64 (sizeofThreadCreateInfo * (pool.count - 1))).toNat =
      16 * (pool.count - 1) := by
    rw [WorkerStart.sizeofThreadCreateInfo_eq, BitVec.toNat_ofNat, Nat.mod_eq_of_lt (by omega)]
  have hthreads := demandOf_threads type (List.range (pool.count - 1))
  rw [List.length_range] at hthreads
  rw [initSteps_eq]
  simp only [demandOf, sizeofHandle_toNat]
  have hsemaphores := demandOf_semaphores type (.setCurrent :: handleStep ::
    .allocate (BitVec.ofNat 64 (sizeofHandle * (pool.count - 1))) .persistent ::
      .allocate (BitVec.ofNat 64 (sizeofThreadCreateInfo * (pool.count - 1))) .transient ::
        threadSteps (List.range (pool.count - 1))) (pool.count - 1)
  simp only [demandOf, sizeofHandle_toNat, hhandles, hinfos] at hsemaphores
  split_ifs at hsemaphores ⊢ <;> omega

/-- What `InitializeArena` commits for an arena of context 0. -/
def baselineOf (pool : MasterPool) : AllocationType → MemoryRange
  | .transient => (preInitialized pool.pageSize.value (pool.cursor 0)).2
  | .persistent => (initializePersistentStorage (pool.generic 0)).2

theorem baselineOf_mem_committed (pool : MasterPool) (type : AllocationType) :
    baselineOf pool type ∈ pool.contexts.committed := by
  cases type with
  | transient =>
      have hmem : baselineOf pool .transient ∈ (preInitialize pool.pageSize.value pool.count
          (pool.base + alignedContextArraySize pool.threadCount pool.pageSize.value)).map Prod.snd := by
        rw [preInitialize_eq, List.map_map]
        exact List.mem_map.mpr ⟨0, List.mem_range.mpr pool.count_pos, rfl⟩
      exact List.mem_append_left _ (List.mem_append_left _ (List.mem_cons_of_mem _ hmem))
  | persistent =>
      have hmain : pool.contexts.generics.head? = some (pool.generic 0) := by
        rw [pool.contexts_generics, pool.range_count]
        rfl
      have hmem : baselineOf pool .persistent ∈
          ((pool.contexts.generics.head?.map initializePersistentStorage).map Prod.snd).toList := by
        rw [hmain]
        exact List.mem_singleton_self _
      exact List.mem_append_left _ (List.mem_append_right _ hmem)

/-- Both arenas of context 0 have room for an `Initialize`. -/
theorem room_initSteps {pool : MasterPool} (hcount : pool.count ≤ 1048576)
    (type : AllocationType) :
    ((PoolState.ofPool pool).arena type 0).Room (baselineOf pool type)
      (demandOf type (initSteps 0 pool)) := by
  have hfits := pool.pool_fits
  have hpos := pool.count_pos
  have harray := pool.le_arrayLength
  have hdemand := demandOf_initSteps_le hcount type
  have hstart : pool.zoneStart 0 = pool.base.toNat + pool.arrayLength + 34359738368 * 0 := rfl
  cases type with
  | transient =>
      have hbacking := (pool.transientRange_occupies hpos).1
      refine ⟨rfl, ?_, ?_, ?_, ?_⟩
      · change (pool.transientRange 0).start.toNat + MemoryMap.virtZoneTaSize.toNat < 2 ^ 64
        rw [hbacking, MemoryMap.virtZoneTaSize_toNat]
        omega
      · change 0 < (pool.transientRange 0).start.toNat
        rw [hbacking]
        omega
      · change MemoryMap.virtZoneTaBaseline.toNat ≤ MemoryMap.virtZoneTaSize.toNat
        decide
      · change 0 + _ ≤ 67108864
        omega
  | persistent =>
      have hbacking := pool.persistentRange_occupies.1
      refine ⟨rfl, ?_, ?_, ?_, ?_⟩
      · change pool.persistentRange.start.toNat + MemoryMap.Main.virtZonePsSize.toNat < 2 ^ 64
        rw [hbacking, MemoryMap.Main.virtZonePsSize_toNat]
        omega
      · change 0 < pool.persistentRange.start.toNat
        rw [hbacking]
        omega
      · change MemoryMap.Main.virtZonePsBaseline.toNat ≤ MemoryMap.Main.virtZonePsSize.toNat
        decide
      · change 0 + _ ≤ 67108864
        omega

theorem inOrder_initSteps (generation : ℕ) (pool : MasterPool) :
    InOrder generation false false (initSteps generation pool) := by
  rw [initSteps_eq]
  exact ⟨rfl, inOrder_semaphores _ _ ⟨rfl, inOrder_threads _ _⟩⟩

theorem toStart_initSteps (generation : ℕ) (pool : MasterPool) :
    toStart (initSteps generation pool) = (List.range (pool.count - 1)).map (· + 1) := by
  rw [initSteps_eq]
  exact (toStart_semaphores _ _).trans (toStart_threads _)

namespace Lifecycle

theorem pools_setPool_self (s : Lifecycle) (generation : ℕ) (p : PoolState) :
    (s.setPool generation p).pools generation = some p := by
  simp only [setPool, Function.update_self]

theorem current_setCurrent_self (s : Lifecycle) (t : EngineThread) (c : ContextRef) :
    (s.setCurrent t c).current t = some c := by
  simp only [setCurrent, Function.update_self]

theorem current_setCurrent_of_ne (s : Lifecycle) {t t' : EngineThread} (c : ContextRef)
    (h : t' ≠ t) : (s.setCurrent t c).current t' = s.current t' := Function.update_of_ne h ..

theorem pending_setPending_self (s : Lifecycle) (t : EngineThread) (steps : List InitStep) :
    (s.setPending t steps).pending t = steps := by
  simp only [setPending, Function.update_self]

theorem pending_setPending_of_ne (s : Lifecycle) {t t' : EngineThread} (steps : List InitStep)
    (h : t' ≠ t) : (s.setPending t steps).pending t' = s.pending t' := Function.update_of_ne h ..

theorem pending_beginInitialize_self (s : Lifecycle) (t : EngineThread) (pool : MasterPool) :
    (s.beginInitialize t pool).pending t = initSteps s.reservations pool :=
  pending_setPending_self (s.setPool s.reservations (.ofPool pool)) t _

theorem pending_beginInitialize_of_ne (s : Lifecycle) {t t' : EngineThread} (pool : MasterPool)
    (h : t' ≠ t) : (s.beginInitialize t pool).pending t' = s.pending t' :=
  pending_setPending_of_ne (s.setPool s.reservations (.ofPool pool)) _ h

theorem pools_beginInitialize_self (s : Lifecycle) (t : EngineThread) (pool : MasterPool) :
    (s.beginInitialize t pool).pools s.reservations = some (.ofPool pool) :=
  pools_setPool_self s s.reservations (.ofPool pool)

theorem arena_setArena_self (p : PoolState) (type : AllocationType) (arena : ThreadArena) :
    (p.setArena type 0 arena).arena type 0 = arena := by
  cases type with
  | transient => exact Function.update_self 0 arena p.transientArenas
  | persistent => rfl

theorem arena_setArena_of_ne {p : PoolState} {type type' : AllocationType} {ix : ℕ}
    {arena : ThreadArena} (h : type ≠ type') :
    (p.setArena type ix arena).arena type' 0 = p.arena type' 0 := by
  cases type <;> cases type' <;> first | rfl | exact absurd rfl h

/-! ### Runs with one `Initialize` -/

/-- `Initialize` is called once, for at most `2 ^ 20` threads, `malloc` has memory for its handles,
and `Shutdown` is not called. -/
def OneStartup (s : Lifecycle) : LifecycleMove → Prop
  | .engineInitialize _ pool => s.reservations = 0 ∧ pool.count ≤ 1048576
  | .initStep _ answer => answer.malloc ≠ 0#64
  | .shutdown _ => False
  | _ => True

instance (s : Lifecycle) : ∀ move, Decidable (s.OneStartup move)
  | .engineInitialize _ _ => inferInstanceAs (Decidable (_ ∧ _))
  | .initStep _ _ => inferInstanceAs (Decidable (_ ≠ _))
  | .shutdown _ => isFalse id
  | .workerBegins _ | .allocate _ _ _ _ _ | .free _ _ | .resetArena _ => isTrue trivial

/-- There has been no call of `Initialize`. -/
structure Unstarted (s : Lifecycle) : Prop where
  clean : s.staleAccess = false
  unreserved : s.reservations = 0
  threadContexts : s.threadContexts = none
  current : ∀ t, s.current t = none
  pending : ∀ t, s.pending t = []
  started : s.started = []

/-- Thread `t₀` has called `Initialize`, with `steps` of it still to come. -/
structure Starting (t₀ : EngineThread) (pool : MasterPool) (steps : List InitStep)
    (s : Lifecycle) : Prop where
  clean : s.staleAccess = false
  once : s.reservations = 1
  application : ∀ generation ix, t₀ ≠ .worker generation ix
  alone : ∀ t, t ≠ t₀ → s.pending t = []
  reserved : ∃ p, s.pools 0 = some p ∧ p.reserved = true ∧ p.pool = pool
  room : steps ≠ [] → ∀ p, s.pools 0 = some p →
    ∀ type, (p.arena type 0).Room (baselineOf pool type) (demandOf type steps)
  contexts : ∀ generation, s.threadContexts = some generation → generation = 0
  caller : ∀ c, s.current t₀ = some c → c = ⟨0, 0⟩
  others : ∀ t c, t ≠ t₀ → s.current t = some c → c.generation = 0 ∧ c.ix ≠ 0
  inOrder : InOrder 0 s.threadContexts.isSome (s.current t₀).isSome steps
  started : s.started.reverse ++ (toStart steps).map (ContextRef.mk 0) =
    (List.range (pool.count - 1)).map fun i => ⟨0, i + 1⟩

variable {asserts : Bool} {s s' : Lifecycle} {t₀ : EngineThread} {pool : MasterPool}
  {steps : List InitStep}

theorem Starting.of_mem_started (h : Starting t₀ pool steps s) {c : ContextRef}
    (hc : c ∈ s.started) : c.generation = 0 ∧ c.ix ≠ 0 := by
  have hmem : c ∈ (List.range (pool.count - 1)).map fun i => (⟨0, i + 1⟩ : ContextRef) := by
    rw [← h.started]
    exact List.mem_append_left _ (List.mem_reverse.mpr hc)
  obtain ⟨i, -, rfl⟩ := List.mem_map.mp hmem
  exact ⟨rfl, Nat.succ_ne_zero i⟩

theorem Starting.generation_eq (h : Starting t₀ pool steps s) {t : EngineThread} {c : ContextRef}
    (hc : s.current t = some c) : c.generation = 0 := by
  by_cases ht : t = t₀
  · subst ht
    rw [h.caller c hc]
  · exact (h.others t c ht hc).1

theorem Starting.not_released (h : Starting t₀ pool steps s) {t : EngineThread} {c : ContextRef}
    {p : PoolState} (hc : s.current t = some c) (hp : s.pools c.generation = some p)
    (hreleased : p.reserved = false) : False := by
  rw [h.generation_eq hc] at hp
  obtain ⟨p', hp', hreserved, -⟩ := h.reserved
  obtain rfl := Option.some.inj (hp.symm.trans hp')
  rw [hreleased] at hreserved
  cases hreserved

/-- `steps` leave their room in the arenas that they do not use. -/
theorem Starting.allocateInArena {size ptr : BitVec 64} {type : AllocationType} {p : PoolState}
    {arena : ThreadArena} (h : Starting t₀ pool (.allocate size type :: steps) s)
    (hp : s.pools 0 = some p) (harena : arena.Room (baselineOf pool type) (demandOf type steps)) :
    Starting t₀ pool steps ((s.setPool 0 (p.setArena type 0 arena)).handOut ptr size false) := by
  have hroom := h.room (List.cons_ne_nil _ _) p hp
  obtain ⟨p', hp', hreserved, hpool⟩ := h.reserved
  obtain rfl := Option.some.inj (hp.symm.trans hp')
  have hnew := pools_setPool_self s 0 (p.setArena type 0 arena)
  refine { h with reserved := ⟨_, hnew, ?_, ?_⟩, room := ?_ }
  · rw [setArena_reserved, hreserved]
  · rw [setArena_pool, hpool]
  · intro _ p'' hp'' type'
    obtain rfl := Option.some.inj (hnew.symm.trans hp'')
    by_cases htype : type = type'
    · subst htype
      rw [arena_setArena_self]
      exact harena
    · rw [arena_setArena_of_ne htype]
      have hother := hroom type'
      rw [demandOf, if_neg htype, Nat.zero_add] at hother
      exact hother

theorem Starting.setPending (h : Starting t₀ pool steps s) (steps' : List InitStep) :
    Starting t₀ pool steps (s.setPending t₀ steps') :=
  { h with
    alone := fun t ht => (pending_setPending_of_ne s steps' ht).trans (h.alone t ht) }

/-- A block that is there: of `malloc`, or in memory that has been committed with the contexts. -/
def Usable (pool : MasterPool) (block : LivePointer) : Prop :=
  block.ptr ≠ 0#64 ∧ (block.fromMalloc = true ∨
    ∃ r ∈ pool.contexts.committed, MemoryRange.Inside ⟨block.ptr, block.size⟩ r)

/-! ### Steps of `Initialize` -/

/-- Every step of `Initialize` is possible, whatever the operating system would say to a growth, and
leaves no block that cannot be used. -/
theorem Starting.runInitStep (asserts : Bool) {step : InitStep} {rest : List InitStep}
    (h : Starting t₀ pool (step :: rest) s) {malloc : BitVec 64} (hmalloc : malloc ≠ 0#64) :
    ∃ s', (∀ os, s.runInitStep asserts t₀ ⟨malloc, os⟩ step = some s') ∧
      Starting t₀ pool rest s' ∧ s'.pending = s.pending ∧
      ∀ block ∈ s'.live, block ∈ s.live ∨ Usable pool block := by
  have hlive : ∀ block ∈ s.live, block ∈ s.live ∨ Usable pool block :=
    fun block hblock => Or.inl hblock
  have hroom := h.room (List.cons_ne_nil step rest)
  cases step with
  | setSlabStart address =>
      exact ⟨_, fun _ => rfl, { h with room := fun _ => hroom }, rfl, hlive⟩
  | setSlabEnd address =>
      exact ⟨_, fun _ => rfl, { h with room := fun _ => hroom }, rfl, hlive⟩
  | setThreadContexts generation =>
      obtain ⟨rfl, horder⟩ := h.inOrder
      refine ⟨_, fun _ => rfl, { h with room := fun _ => hroom, contexts := ?_, inOrder := horder },
        rfl, hlive⟩
      exact fun generation hg => (Option.some.inj hg).symm
  | allocate size type =>
      cases hcurrent : s.current t₀ with
      | none =>
          -- the handles of the context array come from `malloc`, since there is no context yet
          refine ⟨s.handOut malloc size true, fun _ => ?_, ?_, rfl, ?_⟩
          · rw [Lifecycle.runInitStep, engineAllocate, hcurrent]
          · refine { h with room := fun _ p hp type' => (hroom p hp type').mono ?_ }
            exact Nat.le_add_left _ _
          · have hnew : Usable pool ⟨malloc, size, true⟩ := ⟨hmalloc, Or.inl rfl⟩
            exact List.forall_mem_cons.mpr ⟨Or.inr hnew, hlive⟩
      | some c =>
          obtain rfl := h.caller c hcurrent
          obtain ⟨p, hp, hreserved, -⟩ := h.reserved
          have hneed := hroom p hp type
          rw [demandOf, if_pos rfl] at hneed
          obtain ⟨arena, ptr, harena, hptr, hinside, hallocate⟩ := hneed.allocate
          have hstarting : Starting t₀ pool rest
              ((s.setPool 0 (p.setArena type 0 arena)).handOut ptr size false) :=
            h.allocateInArena hp harena
          refine ⟨_, fun os => ?_, hstarting, rfl, ?_⟩
          · rw [Lifecycle.runInitStep, engineAllocate, hcurrent]
            simp only [allocateIn, hp, Option.bind_some, hreserved, hallocate, or_true, if_true,
              Bool.true_eq_false, if_false, Option.map_some, Option.getD_some]
          · have hnew : Usable pool ⟨ptr, size, false⟩ :=
              ⟨hptr, Or.inr ⟨_, baselineOf_mem_committed pool type, hinside⟩⟩
            exact List.forall_mem_cons.mpr ⟨Or.inr hnew, hlive⟩
  | setCurrent =>
      obtain ⟨hpublished, horder⟩ := h.inOrder
      obtain ⟨generation, hcontexts⟩ := Option.isSome_iff_exists.mp hpublished
      obtain rfl := h.contexts generation hcontexts
      have hself := current_setCurrent_self s t₀ ⟨0, 0⟩
      refine ⟨s.setCurrent t₀ ⟨0, 0⟩, fun _ => ?_, ?_, rfl, hlive⟩
      · rw [Lifecycle.runInitStep, hcontexts]
        rfl
      · refine { h with room := fun _ => hroom, caller := ?_, others := ?_, inOrder := ?_ }
        · intro c hc
          exact (Option.some.inj (hself.symm.trans hc)).symm
        · intro t c ht hc
          exact h.others t c ht ((current_setCurrent_of_ne s _ ht).symm.trans hc)
        · rw [hself]
          exact horder
  | startThread ix =>
      obtain ⟨hpublished, horder⟩ := h.inOrder
      obtain ⟨generation, hcontexts⟩ := Option.isSome_iff_exists.mp hpublished
      obtain rfl := h.contexts generation hcontexts
      refine ⟨{ s with started := ⟨0, ix⟩ :: s.started }, fun _ => ?_, ?_, rfl, hlive⟩
      · rw [Lifecycle.runInitStep, hcontexts]
        rfl
      · refine { h with room := fun _ => hroom, inOrder := horder, started := ?_ }
        rw [List.reverse_cons, List.append_assoc]
        exact h.started

/-! ### Steps of the other threads -/

/-- While steps are to come, the arenas of context 0 are left to them. -/
theorem Starting.setPool (h : Starting t₀ pool steps s) {t : EngineThread} {c : ContextRef}
    {p : PoolState} {type : AllocationType} {arena : ThreadArena} (hc : s.current t = some c)
    (hp : s.pools c.generation = some p) (hbusy : steps ≠ [] → type = .transient ∧ c.ix ≠ 0) :
    Starting t₀ pool steps (s.setPool c.generation (p.setArena type c.ix arena)) := by
  have hgeneration := h.generation_eq hc
  obtain ⟨generation, ix⟩ := c
  obtain rfl : generation = 0 := hgeneration
  have hnew := pools_setPool_self s 0 (p.setArena type ix arena)
  obtain ⟨p', hp', hreserved, hpool⟩ := h.reserved
  obtain rfl := Option.some.inj (hp.symm.trans hp')
  refine { h with reserved := ⟨_, hnew, ?_, ?_⟩, room := ?_ }
  · rw [setArena_reserved, hreserved]
  · rw [setArena_pool, hpool]
  · intro hne p'' hp'' type'
    obtain rfl := Option.some.inj (hnew.symm.trans hp'')
    obtain ⟨rfl, hix⟩ := hbusy hne
    have harena : (p.setArena .transient ix arena).arena type' 0 = p.arena type' 0 := by
      cases type' with
      | transient => exact Function.update_of_ne (Ne.symm hix) ..
      | persistent => rfl
    rw [harena]
    exact h.room hne p hp type'

theorem Starting.allocate (h : Starting t₀ pool (s.pending t₀) s) {t : EngineThread}
    {size : BitVec 64} {type : AllocationType} {alignment : BitVec 64} {answer : SystemAnswer}
    (ht : s.mayCall t = true) (hmove : AllocateMove asserts s t size type alignment answer s') :
    Starting t₀ pool (s.pending t₀) s' := by
  have hother : s.pending t₀ ≠ [] → t ≠ t₀ := by
    rintro hbusy rfl
    exact hbusy (pending_of_mayCall ht)
  cases hmove with
  | malloc => exact { h with }
  | stale hc hp hreleased => exact (h.not_released hc hp hreleased).elim
  | @arena c p r hc hp hreserved htype hr =>
      have hset : Starting t₀ pool (s.pending t₀)
          (s.setPool c.generation (p.setArena type c.ix r.arena)) := by
        refine h.setPool hc hp fun hbusy => ?_
        have hix := (h.others t c (hother hbusy) hc).2
        exact ⟨htype.resolve_right hix, hix⟩
      exact { hset with }
  | refused => exact { h with }

theorem Starting.resetArena (h : Starting t₀ pool (s.pending t₀) s) {t : EngineThread}
    {c : ContextRef} {p : PoolState} (ht : s.mayCall t = true) (hc : s.current t = some c)
    (hp : s.pools c.generation = some p) :
    Starting t₀ pool (s.pending t₀)
      (s.setPool c.generation (p.setArena .transient c.ix (p.transientArenas c.ix).reset)) := by
  have hother : s.pending t₀ ≠ [] → t ≠ t₀ := by
    rintro hbusy rfl
    exact hbusy (pending_of_mayCall ht)
  exact h.setPool hc hp fun hbusy => ⟨rfl, (h.others t c (hother hbusy) hc).2⟩

/-! ### Every run -/

/-- Before the one `Initialize`, or inside it or behind it. -/
def StartupPhase (s : Lifecycle) : Prop := s.Unstarted ∨ ∃ t₀ pool, Starting t₀ pool (s.pending t₀) s

theorem AllocateMove.pending_eq {t : EngineThread} {size : BitVec 64} {type : AllocationType}
    {alignment : BitVec 64} {answer : SystemAnswer}
    (h : AllocateMove asserts s t size type alignment answer s') : s'.pending = s.pending := by
  cases h <;> rfl

theorem mayCall_of_resetArena {t : EngineThread}
    (h : (machine asserts).next s (.resetArena t) = some s') : s.mayCall t = true := by
  simp only [machine] at h
  split_ifs at h with _ ht
  exact ht

/-- The call of `Initialize`. -/
theorem Unstarted.beginInitialize (h : s.Unstarted) {t : EngineThread} (ht : s.mayCall t = true)
    (hcount : pool.count ≤ 1048576) :
    Starting t pool (initSteps 0 pool) (s.beginInitialize t pool) := by
  have hpool := pools_beginInitialize_self s t pool
  rw [h.unreserved] at hpool
  refine ⟨h.clean, ?_, ?_, ?_, ⟨_, hpool, rfl, rfl⟩, ?_, ?_, ?_, ?_, ?_, ?_⟩
  · exact congrArg (· + 1) h.unreserved
  · rintro generation ix rfl
    simp [mayCall, h.current] at ht
  · exact fun t' hne => (pending_beginInitialize_of_ne s pool hne).trans (h.pending t')
  · intro _ p hp type
    obtain rfl := Option.some.inj (hpool.symm.trans hp)
    exact room_initSteps hcount type
  · intro generation hg
    cases h.threadContexts.symm.trans hg
  · intro c hc
    cases (h.current t).symm.trans hc
  · intro t' c _ hc
    cases (h.current t').symm.trans hc
  · change InOrder 0 s.threadContexts.isSome (s.current t).isSome _
    rw [h.threadContexts, h.current]
    exact inOrder_initSteps 0 pool
  · change s.started.reverse ++ _ = _
    rw [h.started, toStart_initSteps, List.map_map]
    rfl

/-- One step of a running `Initialize`. -/
theorem Starting.initStep (asserts : Bool) {step : InitStep} {rest : List InitStep}
    (h : Starting t₀ pool (s.pending t₀) s) (hpending : s.pending t₀ = step :: rest)
    {malloc : BitVec 64} (hmalloc : malloc ≠ 0#64) :
    ∃ s', (∀ os, (machine asserts).next s (.initStep t₀ ⟨malloc, os⟩) = some s') ∧
      Starting t₀ pool (s'.pending t₀) s' ∧ s'.pending t₀ = rest ∧
      ∀ block ∈ s'.live, block ∈ s.live ∨ Usable pool block := by
  rw [hpending] at h
  obtain ⟨s', hrun, hstarting, hsame, hlive⟩ :=
    (h.setPending rest).runInitStep asserts hmalloc
  have hrest : s'.pending t₀ = rest := by
    rw [hsame, pending_setPending_self]
  refine ⟨s', fun os => ?_, ?_, hrest, hlive⟩
  · simp only [machine, h.clean, hpending]
    exact hrun os
  · rw [hrest]
    exact hstarting

theorem Starting.workerBegins (h : Starting t₀ pool steps s) {c : ContextRef}
    (hc : c ∈ s.started) : Starting t₀ pool steps (s.setCurrent (.worker c.generation c.ix) c) := by
  have hcaller := current_setCurrent_of_ne s c (h.application c.generation c.ix)
  refine { h with caller := ?_, others := ?_, inOrder := ?_ }
  · rw [hcaller]
    exact h.caller
  · intro t c' ht hc'
    by_cases hworker : t = .worker c.generation c.ix
    · subst hworker
      have hself := current_setCurrent_self s (.worker c.generation c.ix) c
      obtain rfl := Option.some.inj (hself.symm.trans hc')
      exact h.of_mem_started hc
    · exact h.others t c' ht ((current_setCurrent_of_ne s c hworker).symm.trans hc')
  · rw [hcaller]
    exact h.inOrder

theorem Unstarted.step {move : LifecycleMove} (h : s.Unstarted) (hg : s.OneStartup move)
    (hn : (machine asserts).next s move = some s') : s'.StartupPhase := by
  cases (next_step hn).2 with
  | @engineInitialize t pool ht =>
      refine Or.inr ⟨t, pool, ?_⟩
      rw [pending_beginInitialize_self, h.unreserved]
      exact h.beginInitialize ht hg.2
  | @initStep t _ _ _ _ ht => cases (h.pending t).symm.trans ht
  | workerBegins hc =>
      rw [h.started] at hc
      cases hc
  | @allocate t _ _ _ _ _ ht hmove =>
      cases hmove with
      | malloc => exact Or.inl { h with }
      | stale hc | arena hc | refused hc => cases (h.current t).symm.trans hc
  | free => exact Or.inl { h with }
  | @resetStale t _ _ hc | @resetArena t _ _ hc => cases (h.current t).symm.trans hc
  | shutdown => exact hg.elim

theorem Starting.step {move : LifecycleMove} (h : Starting t₀ pool (s.pending t₀) s)
    (hg : s.OneStartup move) (hn : (machine asserts).next s move = some s') :
    Starting t₀ pool (s'.pending t₀) s' := by
  cases (next_step hn).2 with
  | engineInitialize _ ht =>
      have hzero := hg.1
      rw [h.once] at hzero
      cases hzero
  | @initStep t answer step rest _ ht hrun =>
      obtain rfl : t = t₀ := by
        by_contra hne
        cases (h.alone t hne).symm.trans ht
      obtain ⟨s'', hnext, hstarting, -⟩ := h.initStep asserts ht hg
      obtain rfl := Option.some.inj ((hnext answer.os).symm.trans hn)
      exact hstarting
  | workerBegins hc => exact h.workerBegins hc
  | allocate ht hmove =>
      rw [hmove.pending_eq]
      exact h.allocate ht hmove
  | free => exact { h with }
  | resetStale hc hp hreleased => exact (h.not_released hc hp hreleased).elim
  | resetArena hc hp => exact h.resetArena (mayCall_of_resetArena hn) hc hp
  | shutdown => exact hg.elim

theorem StartupPhase.step (s : Lifecycle) (move : LifecycleMove) (s' : Lifecycle)
    (h : s.StartupPhase) (hg : s.OneStartup move) (hn : (machine asserts).next s move = some s') :
    s'.StartupPhase := by
  rcases h with h | ⟨t₀, pool, h⟩
  · exact h.step hg hn
  · exact Or.inr ⟨t₀, pool, h.step hg hn⟩

theorem runningEnd_pending (t : EngineThread) : runningEnd.pending t = [] := by
  cases t with
  | application id =>
      cases id with
      | zero => rfl
      | succ id => rfl
  | worker generation ix => rfl

end Lifecycle
end ProjectDelta
